import Umcg.Klib.Events

/-!
# The steps of the kernel module, case by case

`Kernel.Move` lists what a call of the module can do, with the condition under which it does so, and
`Kernel.move_of_step` says that nothing else happens. The ways in which a worker that executes stops
are the cases of `Stops`; what they have in common is that the event of the worker ends the context
switch (`Kernel.stop`).
-/

namespace Umcg.Klib

/-- A worker that executes stops: the event it reports, and what is left of its record. -/
inductive Stops (w : Worker) : UmcgEventType → Option Worker → Prop
  | block : Stops w .block (some { w with status := .blocked, server_bq := none })
  | preempt : Stops w .preempt (some { w with status := .runnable })
  | wait (tmr : Bool) :
      Stops w .wait (some { w with status := .waiting, tmr := tmr, sysret := some (.value 0) })
  | exit : Stops w .exit none

/-- The record that is left of a worker that has stopped. -/
theorem Stops.record {w : Worker} {event : UmcgEventType} {o : Option Worker} (h : Stops w event o)
    (hid : workerId w.id = w.id) : ∀ v, o = some v → v.status.onCpu = false ∧
      v.status.isIdle = false ∧ (v.status = .blocked → v.server_bq = none) ∧
      workerId v.id = v.id := by
  cases h <;> rintro v ⟨⟩
  · exact ⟨rfl, rfl, fun _ => rfl, hid⟩
  · exact ⟨rfl, rfl, by simp, hid⟩
  · exact ⟨rfl, rfl, by simp, hid⟩

namespace Kernel

/-- The thread `t` is about to make a system call. -/
structure Executing (k : Kernel) (t : Int32) : Prop where
  alive : k.alive t = true
  action : k.action t = none
  onCpu : ∀ w, k.worker t = some w → w.status.onCpu = true

theorem executing_of_executes {k : Kernel} {t : Int32} (h : k.executes t = true) :
    k.Executing t := by
  simp only [executes, Bool.and_eq_true, Option.isNone_iff_eq_none] at h
  refine ⟨h.1.1, h.1.2, fun w hw => ?_⟩
  have := h.2
  rwa [hw] at this

variable [Blockq]

/-- The worker `t` with the record `w` reports `event` and gets the record `o`. -/
def stop (k : Kernel) (t : Int32) (w : Worker) (event : UmcgEventType) (o : Option Worker) :
    Kernel :=
  { k with worker := Function.update k.worker t o }.workerEventToServer w event

/-- The server `s` switches to the worker `t` with the record `w`. -/
def switchTo (k : Kernel) (s t : Int32) (w : Worker) (now room event_sz : ℕ) : Kernel :=
  { ((k.run t { w with server_event := some (s, k.closures), server_bq := some s } now).addRefs s
      1).sleep s (.ctxSwitch k.closures 0 room event_sz) with
    closures := k.closures + 1 }

/-- The worker `t` with the record `w` switches to the worker `n` with the record `next`. -/
def handOver (k : Kernel) (t : Int32) (w : Worker) (n : Int32) (next : Worker) (now : ℕ)
    (tmr : Bool) : Kernel :=
  (k.run n { next with server_event := w.server_event, server_bq := w.server_bq }
    now).workerEventIdle t
    { w with status := .idle false, tmr := tmr, sysret := some (.value 0) } .wait

/-- The server `s` starts to wait for the worker `t` with the record `w`. -/
def waitFor (k : Kernel) (s t : Int32) (w : Worker) : Kernel :=
  (((k.set t { w with server_bq := some s }).addRefs s 1).sleep s
    (.waitWorker t)).serverWaitWorkerBh s t

/-- The worker `t` joins the idle workers with the record `w`. -/
def post (k : Kernel) (t : Int32) (w : Worker) : Kernel :=
  { k.set t w with idle_workers := k.idle_workers ++ [t] }

/-- What a call of `umcg_ctl` by the thread `t` does. -/
inductive CtlMove (k : Kernel) (t : Int32) (a : Args) (now : ℕ) : Kernel → Prop
  /-- The call has failed, and nothing else has happened. -/
  | refused (e : Errno) : CtlMove k t a now (k.ret t (.error e) [])
  /-- There is nothing to do. -/
  | accepted (hcmd : a.cmd = some .registerServer ∨ a.cmd = some .unregister) :
      CtlMove k t a now (k.ret t (.value 0) [])
  /-- The call has fetched the events of idle workers, and returns. -/
  | fetched {n : ℕ} {rv : Sysreturn} {events : List UInt64} (hcmd : a.cmd = some .wait)
      (hs : k.worker t = none)
      (hget : k.serverGetEvents (a.events.getD 0) a.size = (k.takeIdle n, rv, events))
      {r : Sysreturn} (hr : r = rv.clear ∨ rv = .value 0) :
      CtlMove k t a now ((k.takeIdle n).ret t r events)
  /-- The server has found the flag of `Wake`. -/
  | flagged {events : List UInt64} (hcmd : a.cmd = some .wait) (hs : k.worker t = none)
      (hflag : k.wake_idle_server = true)
      (hget : k.serverGetEvents (a.events.getD 0) a.size = (k, .value 0, events)) :
      CtlMove k t a now ({ k with wake_idle_server := false }.ret t (.value 0) events)
  /-- The server sleeps. -/
  | slept {events : List UInt64} (hcmd : a.cmd = some .wait) (hs : k.worker t = none)
      (hsz : 2 ≤ a.size) (hflag : k.wake_idle_server = false)
      (hget : k.serverGetEvents (a.events.getD 0) a.size = (k, .value 0, events)) :
      CtlMove k t a now { k.sleep t (.wait a.abs_timeout.toNat (a.events.getD 0) a.size) with
        server_bq := k.server_bq ++ [t] }
  | waitedFor {w : Worker} (hs : k.worker t = none) (hcmd : a.cmd = some .wait)
      (hnext : a.next_tid ≠ 0) (hw : k.worker a.next_tid = some w) :
      CtlMove k t a now (k.waitFor t a.next_tid w)
  | registered (hcmd : a.cmd = some .registerWorker) (ht : k.worker t = none)
      (hid : a.abs_timeout &&& workerEventMask = 0) :
      CtlMove k t a now (k.post t ⟨a.abs_timeout, .idle false, 0, .wake, none, none, false,
        some (.value 0)⟩).wakeServer.1
  | unregistered {w : Worker} (hcmd : a.cmd = some .unregister) (ht : k.worker t = some w) :
      CtlMove k t a now ((k.unregister t).ret t (.value 0) [])
  | woke (hcmd : a.cmd = some .wake) (hbq : k.server_bq ≠ []) :
      CtlMove k t a now ({ k with wake_idle_server := true }.wakeServer.1.ret t (.value 0) [])
  | wokeNone (hcmd : a.cmd = some .wake) (hbq : k.server_bq = []) :
      CtlMove k t a now ({ k with wake_idle_server := false }.ret t (.error .eagain) [])
  /-- A worker waits. -/
  | waited {w : Worker} (hcmd : a.cmd = some .wait) (ht : k.worker t = some w) (tmr : Bool) :
      CtlMove k t a now (k.stop t w .wait
        (some { w with status := .waiting, tmr := tmr, sysret := some (.value 0) }))
  | switched {w : Worker} (hcmd : a.cmd = some .ctxSwitch) (hs : k.worker t = none)
      (hw : k.worker a.next_tid = some w)
      (hst : w.status = .runnable ∨ w.status = .waiting) (hsz : a.size ≠ 0) :
      CtlMove k t a now (k.switchTo t a.next_tid w now (a.events.getD 0) a.size)
  | handedOver {w next : Worker} (hcmd : a.cmd = some .ctxSwitch) (ht : k.worker t = some w)
      (hn : k.worker a.next_tid = some next) (hst : next.status = .runnable) (tmr : Bool) :
      CtlMove k t a now (k.handOver t w a.next_tid next now tmr)

/-- What a call of the module does. -/
inductive Move (k : Kernel) : Call → Kernel → Prop
  | ctl {t : Int32} {a : Args} {now : ℕ} {memory : Bool} {k' : Kernel} (ht : k.Executing t)
      (hans : k.answer t = none) (hk : k.CtlMove t a now k') : Move k (.ctl t a now memory) k'
  | resumed {t : Int32} (ht : k.Executing t) :
      Move k (.resume t) { k with answer := Function.update k.answer t none }
  | paused {t : Int32} {w : Worker} (ht : k.worker t = some w) (hw : w.status = .running) :
      Move k (.pause t) (k.set t { w with status := .paused })
  | blocked {t : Int32} {w : Worker} (ht : k.worker t = some w) (hw : w.status = .paused) :
      Move k (.syscallPause t)
        (k.stop t w .block (some { w with status := .blocked, server_bq := none }))
  | preempted {t : Int32} {now : ℕ} {w : Worker} (ht : k.worker t = some w)
      (hw : w.status.onCpu = true) :
      Move k (.scheduleReturn t now) (k.stop t w .preempt (some { w with status := .runnable }))
  | returned {t : Int32} {now : ℕ} {w : Worker} (ht : k.worker t = some w)
      (hw : w.status.onCpu = true) :
      Move k (.scheduleReturn t now) (k.set t { w with status := .running })
  | woken {t : Int32} {now : ℕ} {w : Worker} (ht : k.worker t = some w)
      (hw : w.status = .blocked) : Move k (.scheduleReturn t now) (k.workerScheduleReturn t now)
  | expired {t : Int32} {w : Worker} (ht : k.worker t = some w) :
      Move k (.timeout t) (k.workerTimeout t)
  | timedOut {s : Int32} {ts room sz : ℕ} (hs : k.action s = some (.wait ts room sz)) :
      Move k (.timedOut s) (k.finish s (.error .etimedout) [])
  | nullified {s : Int32} {a : Action} (hs : k.action s = some a) :
      Move k (.nullify s) (k.finish s (.error (Kernel.nullified a)) [])
  | spawned {t : Int32} (ht : k.alive t = false) :
      Move k (.spawn t) { k with alive := Function.update k.alive t true }
  | exited {t : Int32} (ha : k.action t = none) : Move k (.exit t) { k.unregister t with
      alive := Function.update (k.unregister t).alive t false
      answer := Function.update (k.unregister t).answer t none }

variable {k k' : Kernel} {t : Int32} {a : Args} {now : ℕ}

private theorem ctlMove_registerWorker {memory : Bool} (hcmd : a.cmd = some .registerWorker) :
    k.CtlMove t a now (k.registerWorker t a.abs_timeout memory) := by
  unfold registerWorker
  split_ifs with hid
  · exact .refused _
  · exact .refused _
  · split
    · exact .refused _
    · exact .registered hcmd ‹_› (by simpa using hid)

section AtOnce

variable [Blockq.AtOnce]

private theorem ctlMove_wait {memory : Bool} (hcmd : a.cmd = some .wait) :
    k.CtlMove t a now (k.wait t a memory) := by
  obtain ⟨n, hk, hzero, -⟩ := serverGetEvents_takes k (a.events.getD 0) a.size
  obtain ⟨rv, events, hget⟩ : ∃ rv events, k.serverGetEvents (a.events.getD 0) a.size =
      (k.takeIdle n, rv, events) := ⟨_, _, Prod.ext hk rfl⟩
  unfold wait
  cases hs : k.worker t with
  | none =>
    dsimp only
    by_cases hnext : a.next_tid ≠ 0
    · rw [if_pos hnext]
      cases hw : k.worker a.next_tid with
      | none => split_ifs <;> exact .refused _
      | some w =>
        split_ifs
        · exact .refused _
        · exact .refused _
        · exact .refused _
        · dsimp only
          rw [Blockq.AtOnce.check_eq]
          exact .waitedFor hs hcmd hnext hw
    · rw [if_neg hnext]
      by_cases hsz : a.size < 2
      · rw [if_pos hsz]
        exact .refused _
      rw [if_neg hsz]
      by_cases hpoll : a.abs_timeout = 1
      · rw [if_pos hpoll, hget]
        rcases rv with (_ | m) | e
        · exact .fetched hcmd hs hget (.inr rfl)
        · exact .fetched hcmd hs hget (.inl rfl)
        · exact .fetched hcmd hs hget (.inl rfl)
      rw [if_neg hpoll]
      cases memory with
      | false => exact .refused _
      | true =>
        rw [if_neg (by simp), Blockq.AtOnce.check_eq, checkAction, serverWaitBh, hget]
        rcases rv with (_ | m) | e
        · obtain rfl : n = 0 := hzero (by rw [hget])
          rw [takeIdle_zero] at hget
          simp only [takeIdle_zero]
          cases hflag : k.wake_idle_server with
          | true => simpa [hflag] using CtlMove.flagged hcmd hs hflag hget
          | false => simpa [hflag] using CtlMove.slept hcmd hs (by omega) hflag hget
        · exact .fetched hcmd hs hget (.inl rfl)
        · exact .fetched hcmd hs hget (.inl rfl)
  | some w =>
    dsimp only
    split_ifs
    · exact .refused _
    · exact .waited hcmd hs _

private theorem ctlMove_ctxSwitch {memory : Bool} (hcmd : a.cmd = some .ctxSwitch) :
    k.CtlMove t a now (k.ctxSwitch t a now memory) := by
  unfold ctxSwitch
  by_cases halive : (!k.alive a.next_tid) = true
  · rw [if_pos halive]
    exact .refused _
  rw [if_neg halive]
  cases hn : k.worker a.next_tid with
  | none => exact .refused _
  | some next =>
    cases hs : k.worker t with
    | none =>
      dsimp only
      split_ifs with h₁ h₂ h₃
      · exact .refused _
      · exact .refused _
      · exact .refused _
      · rw [Blockq.AtOnce.check_eq]
        exact .switched hcmd hs hn (by simpa [or_iff_not_imp_left] using h₃) (by simp_all)
    | some w =>
      dsimp only
      split_ifs with h₁
      · exact .refused _
      · exact .handedOver hcmd hs hn (by simpa using h₁) _

theorem ctlMove_of_ctl {memory : Bool} : k.CtlMove t a now (k.ctl t a now memory) := by
  unfold ctl
  split <;> rename_i hcmd
  · split_ifs
    · exact .refused _
    · exact ctlMove_registerWorker hcmd
  · split_ifs
    · exact .refused _
    · exact .accepted (.inl hcmd)
  · split_ifs
    · exact .refused _
    · cases ht : k.worker t with
      | none =>
        have hk : k.unregister t = k := by simp [unregister, ht]
        rw [hk]
        exact .accepted (.inr hcmd)
      | some w => exact .unregistered hcmd ht
  · split_ifs
    · exact .refused _
    · by_cases hbq : k.server_bq = []
      · rw [wakeServer_of_nil (k := { k with wake_idle_server := true }) hbq]
        exact .wokeNone hcmd hbq
      · obtain ⟨s, -, hk⟩ := wakeServer_of_ne_nil (k := { k with wake_idle_server := true }) hbq
        have hwoke : k.CtlMove t a now _ := .woke hcmd hbq
        rw [hk] at hwoke ⊢
        exact hwoke
  · split_ifs
    · exact .refused _
    · exact ctlMove_wait hcmd
  · split_ifs
    · exact .refused _
    · exact ctlMove_ctxSwitch hcmd
  · exact .refused _

/-- Every call of the module is one of the cases of `Move`. -/
theorem move_of_step {c : Call} (h : k.step c = some k') : k.Move c k' := by
  cases c with
  | ctl t a now memory =>
    simp only [step] at h
    split_ifs at h with hx
    cases h
    exact .ctl (executing_of_executes hx.1) hx.2.1 ctlMove_of_ctl
  | resume t =>
    simp only [step] at h
    split_ifs at h with hx
    cases h
    exact .resumed (executing_of_executes hx.1)
  | pause t =>
    simp only [step] at h
    split_ifs at h with hx
    cases h
    obtain ⟨w, hw, hst⟩ := Option.map_eq_some_iff.mp hx.1
    simp only [workerPause, hw]
    exact .paused hw hst
  | syscallPause t =>
    simp only [step] at h
    split_ifs at h with hx
    cases h
    obtain ⟨w, hw, hst⟩ := Option.map_eq_some_iff.mp hx.1
    simp only [syscallPause, hw, hst, if_true]
    exact .blocked hw hst
  | scheduleReturn t now =>
    have hstatus : (∃ w, k.worker t = some w ∧ (w.status.onCpu = true ∨ w.status = .blocked)) ∧
        k' = k.workerScheduleReturn t now := by
      simp only [step] at h
      split at h <;> rename_i hst
      · obtain ⟨w, hw, hst⟩ := Option.map_eq_some_iff.mp hst
        exact ⟨⟨w, hw, .inl (by simp [hst, Status.onCpu])⟩, (Option.some.inj h).symm⟩
      · obtain ⟨w, hw, hst⟩ := Option.map_eq_some_iff.mp hst
        exact ⟨⟨w, hw, .inl (by simp [hst, Status.onCpu])⟩, (Option.some.inj h).symm⟩
      · obtain ⟨w, hw, hst⟩ := Option.map_eq_some_iff.mp hst
        exact ⟨⟨w, hw, .inr hst⟩, (Option.some.inj h).symm⟩
      · cases h
    obtain ⟨⟨w, hw, hst⟩, rfl⟩ := hstatus
    by_cases hb : w.status = .blocked
    · exact .woken hw hb
    · have hcpu := hst.resolve_right hb
      simp only [workerScheduleReturn, hw, if_neg hb]
      split_ifs
      · exact Move.preempted (w := w) hw hcpu
      · exact .returned hw hcpu
  | timeout t =>
    simp only [step] at h
    split at h
    · split_ifs at h
      cases h
      exact .expired ‹_›
    · cases h
  | timedOut s =>
    simp only [step] at h
    split at h
    · split_ifs at h
      cases h
      exact .timedOut ‹_›
    · cases h
  | nullify s =>
    simp only [step] at h
    split at h <;> cases h
    exact .nullified ‹_›
  | spawn t =>
    simp only [step] at h
    split_ifs at h with ht
    cases h
    exact .spawned (by simpa using ht)
  | exit t =>
    simp only [step] at h
    split_ifs at h with ht
    cases h
    exact .exited ht.2

end AtOnce

end Kernel

end Umcg.Klib
