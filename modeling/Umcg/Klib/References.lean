import Umcg.Klib.Answers

/-!
# References to block queues

A server that switches to a worker, or waits for one, gives the worker a reference to its block
queue, and the worker releases the reference when it wakes the server. So the references to the
block queue of a thread are counted by its own sleep: one while it sleeps for a worker, and none
otherwise.

There is one way around it. A `Wait` for a worker takes the reference before it looks at the status
of the worker. When the worker is not blocked, the call returns at once, and nobody releases the
reference.
-/

namespace Umcg.Klib

namespace Kernel

variable {k k' : Kernel} {s t : Int32} {w : Worker}

/-- The references that the sleep of `s` accounts for. -/
def held (k : Kernel) (s : Int32) : Int :=
  match k.action s with
  | some (.ctxSwitch _ _ _ _) | some (.waitWorker _) => 1
  | some (.wait _ _ _) | none => 0

/-- Every reference is that of a server that sleeps for a worker. -/
def Balanced (k : Kernel) : Prop := ∀ s, k.refs s = k.held s

theorem held_eq_zero (h : k.action s = none) : k.held s = 0 := by simp [held, h]

theorem init_balanced (n : ℕ) : (init n).Balanced := fun _ => rfl

/-- A server waits for a worker only while the worker is blocked. -/
def WaitsBlocked (k : Kernel) : Call → Prop
  | .ctl _ a _ _ => a.cmd = some .wait → a.next_tid ≠ 0 →
      (k.worker a.next_tid).all (fun w => w.status = .blocked) = true
  | _ => True

instance (k : Kernel) : (c : Call) → Decidable (k.WaitsBlocked c)
  | .ctl _ a _ _ => inferInstanceAs (Decidable (a.cmd = some .wait → a.next_tid ≠ 0 →
      (k.worker a.next_tid).all (fun w => w.status = .blocked) = true))
  | .resume _ | .pause _ | .syscallPause _ | .scheduleReturn _ _ | .timeout _ | .timedOut _
  | .nullify _ | .spawn _ | .exit _ => inferInstanceAs (Decidable True)

namespace Balanced

/-- The references to `s` and its sleep change by the same amount, and nothing changes for the
others. -/
theorem change (h : k.Balanced) (d : Int) (hr : k'.refs s = k.refs s + d)
    (hs : k'.held s = k.held s + d)
    (hne : ∀ x, x ≠ s → k'.refs x = k.refs x ∧ k'.action x = k.action x) : k'.Balanced := by
  intro x
  by_cases hx : x = s
  · rw [hx, hr, hs, h s]
  · obtain ⟨hr, ha⟩ := hne x hx
    rw [hr, h x, held, held, ha]

theorem congr (h : k.Balanced) (hr : k'.refs = k.refs) (ha : k'.action = k.action) :
    k'.Balanced := by
  intro s
  rw [hr, h s, held, held, ha]

/-- A server that sleeps for no worker returns. -/
theorem finishWait (h : k.Balanced) {ts room sz : ℕ} (hs : k.action s = some (.wait ts room sz))
    (r : Sysreturn) (events : List UInt64) : (k.finish s r events).Balanced :=
  h.change 0 (by simp [finish]) (by simp [finish, held, hs]) fun _ hx =>
    ⟨rfl, Function.update_of_ne hx _ _⟩

variable [Blockq] [Blockq.AtOnce]

theorem wakeServer (h : k.Balanced) (hinv : k.Inv) : k.wakeServer.1.Balanced := by
  rcases wakeServer_cases k with hk | ⟨s, n, flag, r, events, hs, hk⟩ <;> rw [hk]
  · exact h
  · obtain ⟨ts, room, sz, ha⟩ := (hinv.mem_bq s).mp hs
    exact (finishWait (k := k.takeIdle n) (h.congr rfl rfl) ha r events).congr rfl rfl

theorem post (h : k.Balanced) (hinv : k.Inv) (hp : k.CanPost t w) :
    (k.post t w).wakeServer.1.Balanced :=
  wakeServer (k := k.post t w) (h.congr rfl rfl) (hinv.post hp)

/-- A worker that stops releases the reference to its server, whose sleep ends. -/
theorem stop (h : k.Balanced) (hinv : k.Inv) (ht : k.worker t = some w)
    (hw : w.status.onCpu = true) (event : UmcgEventType) (o : Option Worker) :
    (k.stop t w event o).Balanced := by
  obtain ⟨s, c, room, sz, n, r, events, -, ha, hk⟩ := hinv.stop_eq ht hw event o
  rw [hk]
  refine h.change (s := s) (-1) (by simp [finish, addRefs, takeIdle, sleep]) ?_ fun x hx => ?_
  · have hheld : k.held s = 1 := by simp [held, ha]
    rw [hheld, held_eq_zero (by simp [finish, addRefs])]
    rfl
  · constructor <;> simp [finish, addRefs, takeIdle, sleep, hx]

theorem unregister (h : k.Balanced) (hinv : k.Inv)
    (ht : ∀ w, k.worker t = some w → w.status.onCpu = true) : (k.unregister t).Balanced := by
  cases hw : k.worker t with
  | none => simpa [Kernel.unregister, hw] using h
  | some w =>
    simp only [Kernel.unregister, hw]
    exact (h.stop hinv hw (ht w hw) .exit none).congr rfl rfl

theorem ctlMove (h : k.Balanced) (hinv : k.Inv) {a : Args} {now : ℕ} (ht : k.Executing t)
    (hwait : a.cmd = some .wait → a.next_tid ≠ 0 →
      (k.worker a.next_tid).all (fun w => w.status = .blocked) = true)
    (hk : k.CtlMove t a now k') : k'.Balanced := by
  cases hk with
  | refused | accepted | fetched | flagged | wokeNone => exact h.congr rfl rfl
  | slept =>
    exact h.change 0 (by simp [sleep]) (by simp [sleep, held, ht.action]) fun _ hx =>
      ⟨rfl, Function.update_of_ne hx _ _⟩
  | @waitedFor w _ hcmd hnext hw =>
    have hst : w.status = .blocked := by simpa [hw] using hwait hcmd hnext
    simp only [waitFor, serverWaitWorkerBh, Kernel.sleep, addRefs, Kernel.set,
      Function.update_self, hst, if_true]
    exact h.change (s := t) 1 (by simp) (by simp [held, ht.action]) fun x hx => by simp [hx]
  | registered _ hs hid => exact h.post hinv (hinv.canRegister ht.action hs hid)
  | unregistered => exact (h.unregister hinv ht.onCpu).congr rfl rfl
  | woke =>
    exact (wakeServer (k := { k with wake_idle_server := true }) (h.congr rfl rfl)
      (hinv.congr rfl rfl rfl rfl rfl)).congr rfl rfl
  | waited _ hw => exact h.stop hinv hw (ht.onCpu _ hw) _ _
  | switched =>
    exact h.change (s := t) 1 (by simp [switchTo, run, Kernel.set, sleep, addRefs])
      (by simp [switchTo, sleep, held, ht.action])
      fun x hx => by simp [switchTo, run, Kernel.set, sleep, addRefs, hx]
  | @handedOver w next _ hw hn hst tmr =>
    obtain ⟨hinv', hp, hk⟩ := hinv.handOver_eq hw (ht.onCpu _ hw) hn hst now tmr
    rw [hk]
    exact post (h.congr rfl rfl) hinv' hp

theorem step (h : k.Balanced) (hinv : k.Inv) {c : Call} (hc : k.Proper c) (hb : k.WaitsBlocked c)
    (hk : k.step c = some k') : k'.Balanced := by
  cases move_of_step hk with
  | ctl ht _ hk => exact h.ctlMove hinv ht hb hk
  | blocked ht hw => exact h.stop hinv ht (by simp [hw, Status.onCpu]) _ _
  | preempted ht hw => exact h.stop hinv ht hw _ _
  | @woken t now w ht hw =>
    obtain ⟨k₁, h₁, hp, hcase, hk⟩ := hinv.woken_eq ht hw now
    rw [hk]
    refine post ?_ h₁ hp
    rcases hcase with rfl | ⟨s, hs, rfl⟩
    · exact h
    · refine h.change (s := s) (-1) (by simp [endWait, finish, addRefs, Kernel.set]) ?_
        fun x hx => ?_
      · have hheld : k.held s = 1 := by simp [held, hs]
        rw [hheld, held_eq_zero (by simp [endWait, finish, addRefs])]
        rfl
      · constructor <;> simp [endWait, finish, addRefs, Kernel.set, hx]
  | expired ht =>
    rcases hinv.workerTimeout_eq ht with ⟨hp, -, hk⟩ | ⟨-, hk⟩ | ⟨-, -, hk⟩ <;> rw [hk]
    · exact h.post hinv hp
    · exact h.congr rfl rfl
    · exact h.congr rfl rfl
  | timedOut hs => exact h.finishWait hs _ _
  | @nullified s a hs =>
    have hwait : a.isWait = true := by simpa [Proper, hs] using hc
    cases a with
    | wait => exact h.finishWait hs _ _
    | waitWorker | ctxSwitch => cases hwait
  | exited => exact (h.unregister hinv (onCpu_of_proper hc)).congr rfl rfl
  | _ => exact h.congr rfl rfl

end Balanced

open scoped Fifo

end Kernel

end Umcg.Klib
