import Umcg.Klib.Safety

/-!
# Context switches

A server that has switched to a worker sleeps until this worker stops, whatever proper calls the
other threads make in the meantime, and then it gets the event of this worker. With the buffer of
two words that both schedulers use, it gets this event and nothing else: the events of idle workers
stay on the list.

The exception is a worker that makes a context switch itself and so hands its server over; no thread
of the two programs does. A call that is not proper can break it, too: after the `Wait` of another
server for the worker that executes, the worker wakes that server, and the first one sleeps on.
-/

namespace Umcg.Klib

namespace Kernel

variable {k k' k'' : Kernel} {s t : Int32} {w : Worker}

/-- The action of the server `s` and the record of the worker `t` are the same. -/
def Keeps (s t : Int32) (k k' : Kernel) : Prop :=
  k'.action s = k.action s ∧ k'.worker t = k.worker t

theorem Keeps.trans (h : Keeps s t k k') (h' : Keeps s t k' k'') : Keeps s t k k'' :=
  ⟨h'.1.trans h.1, h'.2.trans h.2⟩

/-- The worker `t` executes for the server `s`. -/
structure Represents (k : Kernel) (s t : Int32) (w : Worker) (c : ℕ) : Prop where
  worker : k.worker t = some w
  onCpu : w.status.onCpu = true
  server_bq : w.server_bq = some s
  action : k.action s = some (.ctxSwitch c 0 2 2)

namespace Represents

variable {c : ℕ}

theorem of_keeps (h : k.Represents s t w c) (hk : Keeps s t k k') : k'.Represents s t w c where
  worker := hk.2.trans h.worker
  onCpu := h.onCpu
  server_bq := h.server_bq
  action := hk.1.trans h.action

theorem keeps_set (h : k.Represents s t w c) {x : Int32} {u v : Worker} (hx : k.worker x = some v)
    (hv : v.status.onCpu = false) : Keeps s t k (k.set x u) := by
  refine ⟨rfl, Function.update_of_ne ?_ _ _⟩
  rintro rfl
  obtain rfl : w = v := Option.some.inj (h.worker.symm.trans hx)
  simp [h.onCpu] at hv

theorem keeps_takeIdle (h : k.Represents s t w c) (hinv : k.Inv) (n : ℕ) :
    Keeps s t k (k.takeIdle n) := by
  refine ⟨rfl, setRunnable_of_notMem fun hmem => ?_⟩
  obtain ⟨v, hv, hi⟩ := (hinv.mem_idle t).mp (List.mem_of_mem_take hmem)
  obtain rfl : w = v := Option.some.inj (h.worker.symm.trans hv)
  have hcpu := h.onCpu
  cases hst : w.status <;> simp_all [Status.onCpu, Status.isIdle]

theorem keeps_finish (h : k.Represents s t w c) {x : Int32} {a : Action} (hx : k.action x = some a)
    (ha : ∀ c e room sz, a ≠ .ctxSwitch c e room sz) (r : Sysreturn) (events : List UInt64) :
    Keeps s t k (k.finish x r events) := by
  refine ⟨Function.update_of_ne ?_ _ _, rfl⟩
  rintro rfl
  exact ha _ _ _ _ (Option.some.inj (hx.symm.trans h.action))

variable [Blockq] [Blockq.AtOnce]

theorem keeps_wakeServer (h : k.Represents s t w c) (hinv : k.Inv) :
    Keeps s t k k.wakeServer.1 := by
  rcases wakeServer_cases k with hk | ⟨x, n, flag, r, events, hx, hk⟩
  · rw [hk]
    exact ⟨rfl, rfl⟩
  · obtain ⟨ts, room, sz, ha⟩ := (hinv.mem_bq x).mp hx
    rw [hk]
    have htake := h.keeps_takeIdle hinv n
    exact htake.trans
      ((h.of_keeps htake).keeps_finish (a := .wait ts room sz) ha (by simp) r events)

/-- Another worker than `t` joins the idle ones. -/
theorem keeps_post (h : k.Represents s t w c) (hinv : k.Inv) {x : Int32} {u : Worker}
    (hp : k.CanPost x u) : Keeps s t k (k.post x u).wakeServer.1 := by
  have hpost : Keeps s t k (k.post x u) := by
    refine ⟨rfl, Function.update_of_ne ?_ _ _⟩
    rintro rfl
    exact absurd h.onCpu (by simp [(hp.stopped w h.worker).2])
  exact hpost.trans ((h.of_keeps hpost).keeps_wakeServer (hinv.post hp))

/-- Another worker than `t` stops: it ends another context switch. -/
theorem keeps_stop (h : k.Represents s t w c) (hinv : k.Inv) {x : Int32} {v : Worker}
    (hx : k.worker x = some v) (hv : v.status.onCpu = true) (hne : t ≠ x) (event : UmcgEventType)
    (o : Option Worker) : Keeps s t k (k.stop x v event o) := by
  obtain ⟨y, c', room, sz, n, r, events, hbq, -, hk⟩ := hinv.stop_eq hx hv event o
  have hsy : s ≠ y := by
    rintro rfl
    exact hne (hinv.single t w x v h.worker hx h.onCpu hv (h.server_bq.trans hbq.symm))
  rw [hk]
  refine ⟨by simp [finish, takeIdle, sleep, addRefs, hsy], ?_⟩
  change setRunnable (Function.update k.worker x o) (k.idle_workers.take n) t = k.worker t
  have hidle := (h.keeps_takeIdle hinv n).2
  change setRunnable k.worker (k.idle_workers.take n) t = k.worker t at hidle
  simpa [setRunnable, Function.update_of_ne hne] using hidle

/-- The worker `t` stops: its event, alone, is the answer of the context switch. -/
theorem stop_eq (h : k.Represents s t w c) (hinv : k.Inv) (event : UmcgEventType)
    (o : Option Worker) : k.stop t w event o =
      (({ k with worker := Function.update k.worker t o }.sleep s
        (.ctxSwitch c (eventWord w.id event) 2 2)).finish s (.value 0)
          [eventWord w.id event, 0]).addRefs s (-1) := by
  obtain ⟨s', c', room, sz, hbq, hevent, ha⟩ := hinv.attached t w h.worker h.onCpu
  obtain rfl : s = s' := by simpa [h.server_bq] using hbq
  obtain ⟨rfl, -, rfl, rfl⟩ : c = c' ∧ True ∧ 2 = room ∧ 2 = sz := by simpa [h.action] using ha
  have hne := ne_zero_of_eventType (eventType_eventWord (hinv.ids t w h.worker) event)
  rw [stop, workerEventToServer_eq (k := { k with worker := Function.update k.worker t o }) hbq
    hevent ha event, serverCtxSwitchBh_two _ s hne]

end Represents

/-- The context switch of `s` has ended with one event of the worker with the id `id`, and nothing
else. -/
def Ended (k : Kernel) (s : Int32) (id : UInt64) : Prop :=
  k.action s = none ∧ ∃ event, k.answer s = some ⟨.value 0, [eventWord id event, 0]⟩

theorem Ended.congr {id : UInt64} (h : k.Ended s id) (ha : k'.action s = k.action s)
    (hans : k'.answer s = k.answer s) : k'.Ended s id := by
  unfold Ended
  rw [ha, hans]
  exact h

/-- No worker makes a context switch. -/
def NoHandOver (k : Kernel) : Call → Prop
  | .ctl t a _ _ => a.cmd = some .ctxSwitch → k.worker t = none
  | _ => True

instance (k : Kernel) : (c : Call) → Decidable (k.NoHandOver c)
  | .ctl t a _ _ => inferInstanceAs (Decidable (a.cmd = some .ctxSwitch → k.worker t = none))
  | .resume _ | .pause _ | .syscallPause _ | .scheduleReturn _ _ | .timeout _ | .timedOut _
  | .nullify _ | .spawn _ | .exit _ => inferInstanceAs (Decidable True)

namespace Represents

variable [Blockq] [Blockq.AtOnce] {c : ℕ}

theorem ended (h : k.Represents s t w c) (hinv : k.Inv) (event : UmcgEventType)
    (o : Option Worker) : (k.stop t w event o).Ended s w.id := by
  rw [h.stop_eq hinv event o]
  exact ⟨by simp [finish, addRefs], event, by simp [finish, addRefs]⟩

/-- A worker that executes stops: `t`, or another one. -/
theorem stop (h : k.Represents s t w c) (hinv : k.Inv) {x : Int32} {v : Worker}
    (hx : k.worker x = some v) (hv : v.status.onCpu = true) (event : UmcgEventType)
    (o : Option Worker) :
    (k.stop x v event o).Ended s w.id ∨ Keeps s t k (k.stop x v event o) := by
  by_cases hxt : t = x
  · subst hxt
    obtain rfl : w = v := Option.some.inj (h.worker.symm.trans hx)
    exact .inl (h.ended hinv event o)
  · exact .inr (h.keeps_stop hinv hx hv hxt event o)

theorem unregister (h : k.Represents s t w c) (hinv : k.Inv) {x : Int32}
    (hx : ∀ v, k.worker x = some v → v.status.onCpu = true) :
    (k.unregister x).Ended s w.id ∨ Keeps s t k (k.unregister x) := by
  cases hv : k.worker x with
  | none =>
    have hk : k.unregister x = k := by simp [Kernel.unregister, hv]
    rw [hk]
    exact .inr ⟨rfl, rfl⟩
  | some v =>
    simp only [Kernel.unregister, hv]
    exact h.stop hinv hv (hx v hv) .exit none

/-- What a call of `umcg_ctl` does to the context switch. -/
theorem ctlMove (h : k.Represents s t w c) (hinv : k.Inv) {x : Int32} {a : Args} {now : ℕ}
    (hx : k.Executing x)
    (hwait : a.cmd = some .wait → a.next_tid ≠ 0 →
      (k.worker a.next_tid).all Worker.awaitable = true)
    (hno : a.cmd = some .ctxSwitch → k.worker x = none) (hk : k.CtlMove x a now k') :
    k'.Ended s w.id ∨ Keeps s t k k' := by
  -- the server does not make this call: it sleeps
  have hsx : s ≠ x := by
    rintro rfl
    exact absurd hx.action (by simp [h.action])
  have hne : ∀ y v, k.worker y = some v → v.status.onCpu = false → t ≠ y := by
    rintro y v hy hv rfl
    obtain rfl : w = v := Option.some.inj (h.worker.symm.trans hy)
    simp [h.onCpu] at hv
  cases hk with
  | refused | accepted => exact .inr ⟨rfl, rfl⟩
  | fetched => exact .inr (h.keeps_takeIdle hinv _)
  | flagged => exact .inr ⟨rfl, rfl⟩
  | slept => exact .inr ⟨Function.update_of_ne hsx _ _, rfl⟩
  | @waitedFor v _ hcmd hnext hv =>
    have hcpu : v.status.onCpu = false := by
      have := hwait hcmd hnext
      simp only [hv, Option.all_some, Worker.awaitable, Bool.and_eq_true] at this
      simpa using this.1
    have htn := hne _ v hv hcpu
    refine .inr ?_
    simp only [waitFor, serverWaitWorkerBh, sleep, addRefs, Kernel.set, Function.update_self]
    split_ifs
    · exact ⟨by simp [hsx], by simp [htn]⟩
    · exact ⟨by simp [finish, hsx], by simp [finish, htn]⟩
  | registered _ hs hid => exact .inr (h.keeps_post hinv (hinv.canRegister hx.action hs hid))
  | unregistered =>
    exact (h.unregister hinv hx.onCpu).imp
      (fun he => he.congr rfl (Function.update_of_ne hsx _ _)) id
  | woke =>
    have hflag : Keeps s t k { k with wake_idle_server := true } := ⟨rfl, rfl⟩
    exact .inr (hflag.trans ((h.of_keeps hflag).keeps_wakeServer
      (hinv.congr rfl rfl rfl rfl rfl)))
  | wokeNone => exact .inr ⟨rfl, rfl⟩
  | waited _ hv => exact h.stop hinv hv (hx.onCpu _ hv) _ _
  | @switched v _ _ hv hst =>
    have hcpu : v.status.onCpu = false := by rcases hst with hst | hst <;> simp [hst, Status.onCpu]
    exact .inr ⟨Function.update_of_ne hsx _ _, Function.update_of_ne (hne _ v hv hcpu) _ _⟩
  | handedOver hcmd hv => simp [hno hcmd] at hv

/-- While the worker `t` executes for `s`, each call ends the context switch with an event of `t`,
or leaves it as it is. -/
theorem step (h : k.Represents s t w c) (hinv : k.Inv) {x : Call} (hc : k.Proper x)
    (hno : k.NoHandOver x) (hk : k.step x = some k') :
    k'.Ended s w.id ∨ ∃ w', k'.Represents s t w' c ∧ w'.id = w.id := by
  have hkeep : Keeps s t k k' → k'.Ended s w.id ∨ ∃ w', k'.Represents s t w' c ∧ w'.id = w.id :=
    fun hk => .inr ⟨w, h.of_keeps hk, rfl⟩
  -- a new record of the worker, or of another one
  have hset : ∀ {x v u}, k.worker x = some v → k' = k.set x u → u.status.onCpu = v.status.onCpu →
      u.server_bq = v.server_bq → u.id = v.id →
      k'.Ended s w.id ∨ ∃ w', k'.Represents s t w' c ∧ w'.id = w.id := by
    rintro x v u hv rfl hcpu hbq hid
    by_cases hxt : t = x
    · subst hxt
      obtain rfl : w = v := Option.some.inj (h.worker.symm.trans hv)
      exact .inr ⟨u, ⟨Function.update_self .., hcpu.trans h.onCpu, hbq.trans h.server_bq,
        h.action⟩, hid⟩
    · exact hkeep ⟨rfl, Function.update_of_ne hxt _ _⟩
  cases move_of_step hk with
  | ctl hx _ hm => exact (h.ctlMove hinv hx hc hno hm).elim .inl hkeep
  | resumed => exact hkeep ⟨rfl, rfl⟩
  | paused hv hst => exact hset hv rfl (by simp [hst, Status.onCpu]) rfl rfl
  | blocked hv hst => exact (h.stop hinv hv (by simp [hst, Status.onCpu]) _ _).elim .inl hkeep
  | preempted hv hcpu => exact (h.stop hinv hv hcpu _ _).elim .inl hkeep
  | returned hv hcpu => exact hset hv rfl hcpu.symm rfl rfl
  | @woken x now v hv hst =>
    obtain ⟨k₁, h₁, hp, hcase, hk⟩ := hinv.woken_eq hv hst now
    have hk₁ : Keeps s t k k₁ := by
      rcases hcase with rfl | ⟨y, hy, rfl⟩
      · exact ⟨rfl, rfl⟩
      · have hrec := h.keeps_set (u := { v with status := .runnable }) hv
          (by simp [hst, Status.onCpu])
        exact hrec.trans ((h.of_keeps hrec).keeps_finish (a := .waitWorker x) hy (by simp)
          (.value 0) [])
    exact hkeep (hk ▸ hk₁.trans ((h.of_keeps hk₁).keeps_post h₁ hp))
  | expired hv =>
    rcases hinv.workerTimeout_eq hv with ⟨hp, -, hk⟩ | ⟨hst, hk⟩ | ⟨-, -, hk⟩
    · exact hkeep (hk ▸ h.keeps_post hinv hp)
    · exact hset hv hk (by simp [hst, Status.onCpu]) rfl rfl
    · exact hset hv hk rfl rfl rfl
  | timedOut ha => exact hkeep (h.keeps_finish ha (by simp) _ _)
  | @nullified x a ha =>
    have hwait : a.isWait = true := by simpa [Proper, ha] using hc
    refine hkeep (h.keeps_finish ha ?_ _ _)
    rintro c e room sz rfl
    cases hwait
  | spawned => exact hkeep ⟨rfl, rfl⟩
  | @exited x ha =>
    have hsx : s ≠ x := by
      rintro rfl
      simp [h.action] at ha
    exact (h.unregister hinv (onCpu_of_proper hc)).elim
      (fun he => .inl (he.congr rfl (Function.update_of_ne hsx _ _))) hkeep

end Represents

/-- The call of a server that has fallen asleep in a context switch. -/
theorem represents_of_ctl [Blockq] [Blockq.AtOnce] {now : ℕ} {memory : Bool}
    (hs : k.worker s = none)
    (hk : k.step (.ctl s (.ctxSwitch t) now memory) = some k') (hs' : k'.action s ≠ none) :
    ∃ w w' c, k.worker t = some w ∧ k'.Represents s t w' c ∧ w'.id = w.id := by
  cases move_of_step hk with
  | ctl hx _ hm =>
    cases hm with
    | refused | accepted => exact absurd hx.action hs'
    | @switched w _ _ hw =>
      refine ⟨w, _, k.closures, hw, ⟨Function.update_self .., rfl, rfl, ?_⟩, rfl⟩
      exact Function.update_self ..
    | handedOver _ ht => simp [hs] at ht
    | fetched hcmd | flagged hcmd | slept hcmd | waitedFor _ hcmd | registered hcmd
    | unregistered hcmd | woke hcmd | wokeNone hcmd | waited hcmd => cases hcmd

open scoped Fifo

/-- The module after the first switch. -/
def switched : Kernel := (trace step Proper (init 5) firstSwitch).get (by decide +kernel)

end Kernel

end Umcg.Klib
