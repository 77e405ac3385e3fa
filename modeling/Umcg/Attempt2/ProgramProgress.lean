import Umcg.Attempt2.ProgramEvents
import Umcg.Attempt2.ProgramTasks

/-!
# No thread of the program is stuck

A thread of the program can always go on, or it sleeps in the kernel for a reason: a server sleeps
while a worker executes in its place, and the routing server sleeps while no event waits for it. For
the worker threads this rests on how they and the kernel belong together (`Host.Synced`): a worker
thread is at the return of its `Wait` exactly as long as the kernel keeps this return for it. For
the routing server it rests on the room in the channels. The model has no lock of the standard
output, so this says nothing about threads that wait for that lock.

## Main results

* `Host.Synced.step` : a step keeps what the worker threads and the kernel have for each other.
* `Host.no_thread_stuck` : the threads of the program in any state of any run.
-/

namespace Umcg

namespace WorkerThread

variable {τ : Type} {k k' : WorkerThread τ}

/-- Between its system calls a worker thread is not at the return of its `Wait`. -/
theorem pc_ne_waiting {x : WorkerInput} (hx : x = .poll true ∨ x = .returned)
    (hk : k.step .attempt2 x = some k') : k.pc ≠ .waiting ∧ k'.pc ≠ .waiting := by
  obtain ⟨rx, pc⟩ := k
  rcases hx with rfl | rfl <;> simp only [WorkerThread.step] at hk <;> split at hk <;> cases hk
  · refine ⟨by simp, ?_⟩
    rcases rx with _ | ⟨_ | _, rest⟩ <;> simp [poll]
  · exact ⟨by simp, by simp⟩

theorem pc_of_wait (hk : k.step .attempt2 .wait = some k') : k'.pc = .waiting := by
  simp only [WorkerThread.step] at hk
  split at hk <;> cases hk <;> rfl

theorem pc_of_waited {ret : Int} (hk : k.step .attempt2 (.waited ret) = some k') :
    k'.pc ≠ .waiting := by
  simp only [WorkerThread.step] at hk
  split at hk <;> cases hk
  by_cases hret : ret = 0 <;> simp [hret, WorkerLoop.waitFailed]

theorem pc_of_send {m : WorkerTask τ} (hk : k.send m = some k') : k'.pc = k.pc := by
  simp only [WorkerThread.send] at hk
  split at hk <;> cases hk
  rfl

end WorkerThread

namespace Klib.Kernel

variable [Blockq] [Blockq.AtOnce] {k : Kernel} {t : Int32} {w : Worker}

theorem alive_wakeServer (k : Kernel) : k.wakeServer.1.alive = k.alive := by
  rcases wakeServer_cases k with hk | ⟨s, n, flag, r, events, -, hk⟩ <;> rw [hk]
  rfl

theorem Inv.alive_stop (h : k.Inv) (ht : k.worker t = some w) (hw : w.status.onCpu = true)
    (event : UmcgEventType) (o : Option Worker) : (k.stop t w event o).alive = k.alive := by
  obtain ⟨s, c, room, sz, n, r, events, -, -, hk⟩ := h.stop_eq ht hw event o
  rw [hk]
  rfl

end Klib.Kernel

namespace Attempt2

open Klib

namespace Host

variable {τ : Type} {th : Threads} {h h' h₀ : Host τ} {k k' : Kernel} {i : ℕ} {t : Int32}
  {w : Worker} {x : HostStep τ} {l : List (HostStep τ)}

/-! ### The worker threads and the kernel -/

/-- A worker thread is at the return of its `Wait` exactly as long as the kernel keeps this return,
in the record of the worker or as its answer; and the record of a worker that executes does not keep
it any longer. -/
def Synced (k : Kernel) (worker : Int32 → WorkerThread τ) : Prop :=
  ∀ t r, k.worker t = some r →
    ((worker t).pc = .waiting ↔ r.sysret ≠ none ∨ k.answer t ≠ none) ∧
      (r.status.onCpu = true → r.sysret = none)

namespace Synced

variable {worker : Int32 → WorkerThread τ}

/-- No worker starts to execute, and what the workers wait for stays as it is. -/
theorem mono (h : Synced k worker) (hk : ∀ t r', k'.worker t = some r' →
    (∃ r, k.worker t = some r ∧ r'.sysret = r.sysret ∧
      (r'.status.onCpu = true → r.status.onCpu = true)) ∧ k'.answer t = k.answer t) :
    Synced k' worker := by
  intro t r' ht
  obtain ⟨⟨r, hr, hret, hcpu⟩, hans⟩ := hk t r' ht
  rw [hret, hans]
  exact ⟨(h t r hr).1, fun hc => (h t r hr).2 (hcpu hc)⟩

/-- The thread `t` moves, and its record and its answer stay in step with it. -/
theorem update (h : Synced k worker) {u : WorkerThread τ}
    (hother : ∀ x, x ≠ t → k'.worker x = k.worker x ∧
      ((∃ r, k.worker x = some r) → k'.answer x = k.answer x))
    (hself : ∀ r, k'.worker t = some r →
      (u.pc = .waiting ↔ r.sysret ≠ none ∨ k'.answer t ≠ none) ∧
        (r.status.onCpu = true → r.sysret = none)) :
    Synced k' (Function.update worker t u) := by
  intro x r hr
  by_cases hx : x = t
  · subst hx
    rw [Function.update_self]
    exact hself r hr
  · obtain ⟨hworker, hans⟩ := hother x hx
    rw [hworker] at hr
    rw [Function.update_of_ne hx, hans ⟨r, hr⟩]
    exact h x r hr

/-- A server runs a worker: what the record keeps becomes the answer. -/
theorem switchTo (h : Synced k worker) (ht : k.worker t = some w) (s : Int32) (now : ℕ) :
    Synced (k.switchTo s t w now 2 2) worker := by
  intro x r hr
  have hrun := Kernel.touches_run k t
    { w with server_event := some (s, k.closures), server_bq := some s } now
  change Function.update k.worker t _ x = some r at hr
  change (_ ↔ _ ∨ (k.run t { w with
    server_event := some (s, k.closures), server_bq := some s } now).answer x ≠ none) ∧ _
  rcases update_eq_some hr with ⟨rfl, ⟨⟩⟩ | ⟨hx, hr⟩
  · refine ⟨?_, fun _ => rfl⟩
    rw [(h x w ht).1]
    cases hret : w.sysret <;> simp [Kernel.run]
  · rw [(hrun x hx).2]
    exact h x r hr

end Synced

section Consistent

variable (hc : Consistent th h.kernel h.routing)
include hc

theorem Synced.silent (hsync : Synced h.kernel h.worker) (hs : Silent th h.kernel k') :
    Synced k' h.worker := by
  refine hsync.mono fun t r' ht => ?_
  obtain ⟨r, hr, -, hret, hcpu⟩ := hs.record t r' ht
  exact ⟨⟨r, hr, hret, fun h => (hcpu h).1⟩, (hs.others t (hc.ne_router hr).symm).2⟩

/-- A worker stops without waiting. -/
theorem Synced.stop [Blockq] [Blockq.AtOnce] (hsync : Synced h.kernel h.worker)
    (ht : h.kernel.worker t = some w) (hw : w.status.onCpu = true) {event : UmcgEventType}
    {v : Worker} (hv : Stops w event (some v)) (hret : v.sysret = w.sysret) :
    Synced (h.kernel.stop t w event (some v)) h.worker := by
  obtain ⟨-, i, hi⟩ := hc.owned t w ht
  obtain ⟨-, hworker, hanswer, -⟩ := hc.stop ht hw hi hv
  refine hsync.mono fun x r hr => ?_
  rw [hworker] at hr
  have hne {u : Worker} (hu : h.kernel.worker x = some u) :
      (h.kernel.stop t w event (some v)).answer x = h.kernel.answer x := by
    rw [hanswer, Function.update_of_ne (hc.ne_server hu (hc.layout.owner _ _ hi).1).symm]
  rcases update_eq_some hr with ⟨rfl, ⟨⟩⟩ | ⟨-, hr⟩
  · exact ⟨⟨w, ht, hret, fun _ => hw⟩, hne ht⟩
  · exact ⟨⟨r, hr, rfl, id⟩, hne hr⟩

/-- A worker waits: the kernel keeps the return of the call in its record. -/
theorem Synced.wait [Blockq] [Blockq.AtOnce] (hsync : Synced h.kernel h.worker)
    (ht : h.kernel.worker t = some w) (hw : w.status.onCpu = true) (tmr : Bool) {u : WorkerThread τ}
    (hu : u.pc = .waiting) : Synced (h.kernel.stop t w .wait
      (some { w with status := .waiting, tmr := tmr, sysret := some (.value 0) }))
      (Function.update h.worker t u) := by
  obtain ⟨-, i, hi⟩ := hc.owned t w ht
  obtain ⟨-, hworker, hanswer, -⟩ := hc.stop ht hw hi (.wait tmr)
  refine hsync.update (fun x hx => ⟨?_, fun ⟨r, hr⟩ => ?_⟩) fun r hr => ?_
  · rw [hworker, Function.update_of_ne hx]
  · rw [hanswer, Function.update_of_ne (hc.ne_server hr (hc.layout.owner _ _ hi).1).symm]
  · rw [hworker, Function.update_self] at hr
    cases hr
    simp [hu, Status.onCpu]

/-- The system call of a blocked worker is over. -/
theorem Synced.woken [Blockq] [Blockq.AtOnce] (hsync : Synced h.kernel h.worker)
    (ht : h.kernel.worker t = some w) (hst : w.status = .blocked) (now : ℕ) :
    Synced (h.kernel.workerScheduleReturn t now) h.worker := by
  obtain ⟨hp, hwake, hk⟩ := woken_cases hc ht hst now
  rw [hk]
  have hpost : Synced (h.kernel.post t { w with status := .idle false, event := .wake })
      h.worker := by
    refine hsync.mono fun x r hr => ⟨?_, rfl⟩
    rcases update_eq_some hr with ⟨rfl, ⟨⟩⟩ | ⟨-, hr⟩
    · exact ⟨w, ht, rfl, fun hcpu => by cases hcpu⟩
    · exact ⟨r, hr, rfl, id⟩
  exact Synced.silent (h := h.setKernel (h.kernel.post t
    { w with status := .idle false, event := .wake })) (hc.post ht hp).1 hpost hwake

/-- Every step of the program keeps the worker threads and the kernel in step. -/
theorem Synced.step [Blockq] [Blockq.AtOnce] (hsync : Synced h.kernel h.worker)
    (hstep : step th h x = some h') : Synced h'.kernel h'.worker := by
  -- a thread other than those of the workers has looked at its answer
  have hresumed {s : Int32} (hs : h.kernel.worker s = none) :
      Synced (h.setResumed s).kernel h.worker := by
    refine hsync.mono fun x r hr => ⟨⟨r, hr, rfl, id⟩, Function.update_of_ne ?_ _ _⟩
    rintro rfl
    cases hs.symm.trans hr
  cases move_of_step hstep with
  | sent hi hctl hk hs =>
    refine hsync.update (fun _ _ => ⟨rfl, fun _ => rfl⟩) fun r hr => ?_
    rw [WorkerThread.pc_of_send hk]
    exact hsync _ r hr
  | switch hi hctl hk =>
    obtain ⟨-, -, -, ⟨e, rfl⟩ | ⟨w, hw, -, -, -, rfl⟩⟩ := switch_cases hc hi hctl hk
    · exact hsync.mono fun x r hr => ⟨⟨r, hr, rfl, id⟩,
        Function.update_of_ne (hc.ne_server hr hi).symm _ _⟩
    · exact hsync.switchTo hw _ _
  | switched hi => exact hresumed (hc.server _ hi)
  | routerWait _ hk =>
    cases Kernel.move_of_step hk with
    | ctl ht hans hm =>
      exact Synced.silent (h := h) hc hsync (Silent.routerWait hc.kernel hans hc.router hm)
  | batch | noBatch => exact hresumed hc.router
  | @worker t y w k ht hw hy hk =>
    obtain ⟨hpc, hpc'⟩ := WorkerThread.pc_ne_waiting hy hk
    refine hsync.update (fun _ _ => ⟨rfl, fun _ => rfl⟩) fun r hr => ⟨?_, (hsync t r hr).2⟩
    exact iff_of_false hpc' fun hret => hpc ((hsync t r hr).1.mpr hret)
  | @workerWait t now memory w k k' ht hk hk' =>
    obtain ⟨hw, tmr, rfl⟩ := Kernel.step_workerWait ht hk'
    exact Synced.wait (h := h) hc hsync ht hw tmr (WorkerThread.pc_of_wait hk)
  | @workerWaited t w a k ht hans hw hk =>
    refine hsync.update (fun x hx => ⟨rfl, fun _ => Function.update_of_ne hx _ _⟩) fun r hr => ?_
    obtain rfl : w = r := Option.some.inj (ht.symm.trans hr)
    have hret := (hsync t w ht).2 hw
    simp [WorkerThread.pc_of_waited hk, hret, setWorker, setResumed, setKernel]
  | callback hcall hk =>
    cases Kernel.move_of_step hk with
    | @paused t w ht hw =>
      have hcpu : w.status.onCpu = true := by simp [hw, Status.onCpu]
      exact Synced.silent (h := h) hc hsync (.set hc.kernel ht rfl rfl hcpu rfl rfl)
    | returned ht hw => exact Synced.silent (h := h) hc hsync (.set hc.kernel ht rfl rfl hw rfl rfl)
    | @blocked t w ht hw =>
      exact Synced.stop (h := h) hc hsync ht (by simp [hw, Status.onCpu]) .block rfl
    | preempted ht hw => exact Synced.stop (h := h) hc hsync ht hw .preempt rfl
    | woken ht hw => exact Synced.woken (h := h) hc hsync ht hw _
    | timedOut hs =>
      obtain rfl : _ = th.router := by simpa [isCallback] using hcall
      exact Synced.silent (h := h) hc hsync (.finish hc.quiet (by simp [hs]) _)
    | @nullified s a hs =>
      obtain rfl : s = th.router := by simpa [isCallback] using hcall
      exact Synced.silent (h := h) hc hsync (.finish hc.quiet (by simp [hs]) _)
    | ctl | resumed | expired | spawned | exited => cases hcall
  | _ => exact hsync

/-! ### The threads are alive -/

/-- No step of the program ends a thread or creates one. -/
theorem alive_step [Blockq] [Blockq.AtOnce] (hstep : step th h x = some h') :
    h'.kernel.alive = h.kernel.alive := by
  cases move_of_step hstep with
  | switch hi hctl hk =>
    obtain ⟨-, -, -, ⟨e, rfl⟩ | ⟨w, -, -, -, -, rfl⟩⟩ := switch_cases hc hi hctl hk <;> rfl
  | routerWait _ hk =>
    cases Kernel.move_of_step hk with
    | ctl ht hans hm =>
      cases hm with
      | refused | fetched | flagged | slept => rfl
      | waitedFor _ _ hnext => exact absurd rfl hnext
      | waited _ ht => simp [hc.router] at ht
      | accepted hcmd => rcases hcmd with hcmd | hcmd <;> cases hcmd
      | registered hcmd | unregistered hcmd | woke hcmd | wokeNone hcmd | switched hcmd
      | handedOver hcmd => cases hcmd
  | workerWait ht hk hk' =>
    obtain ⟨hw, tmr, rfl⟩ := Kernel.step_workerWait ht hk'
    exact hc.kernel.alive_stop ht hw _ _
  | callback hcall hk =>
    cases Kernel.move_of_step hk with
    | blocked ht hw => exact hc.kernel.alive_stop ht (by simp [hw, Status.onCpu]) _ _
    | preempted ht hw => exact hc.kernel.alive_stop ht hw _ _
    | @woken t now w ht hw =>
      change (h.kernel.workerScheduleReturn t now).alive = _
      rw [(woken_cases hc ht hw now).2.2]
      exact Kernel.alive_wakeServer _
    | ctl | resumed | expired | spawned | exited => cases hcall
    | _ => rfl
  | _ => rfl

end Consistent

/-- The threads of the program exist. -/
structure Live (th : Threads) (h : Host τ) : Prop where
  server : ∀ i < h.routing.server_senders, h.kernel.alive (th.server i) = true
  router : h.kernel.alive th.router = true
  worker : ∀ w i, h.routing.worker_to_server w = some i → h.kernel.alive (workerTid w) = true

theorem Live.step [Blockq] [Blockq.AtOnce] (hl : h.Live th) (hc : Consistent th h.kernel h.routing)
    (hstep : step th h x = some h') : h'.Live th := by
  obtain ⟨hn, howner⟩ := (move_of_step hstep).fixed
  have halive := alive_step hc hstep
  refine ⟨fun i hi => ?_, ?_, fun w i hw => ?_⟩
  · rw [halive]
    exact hl.server i (hn ▸ hi)
  · rw [halive]
    exact hl.router
  · rw [halive]
    exact hl.worker w i (howner ▸ hw)

/-! ### Steps that can be taken -/

/-- The steps of the thread of the server `i`. -/
def ServerStep (i : ℕ) : HostStep τ → Prop
  | .server j _ | .remove j | .send j | .recv j | .switch j _ _ | .switched j => j = i
  | _ => False

/-- The steps of the worker thread `t`; it enters a system call by itself. -/
def WorkerStep (t : Int32) : HostStep τ → Prop
  | .worker u _ | .workerWait u _ _ | .workerWaited u | .callback (.pause u) => u = t
  | _ => False

/-- The steps of the routing server. -/
def RouterStep : HostStep τ → Prop
  | .routerWait _ _ _ | .routerWaited | .route => True
  | _ => False

theorem serverStep_isSome (hi : i < h.routing.server_senders) {y : Input τ}
    (hy : ∀ e, y ≠ .recv e) (hs : ((h.routing.server i).step y).isSome = true) :
    (h.serverStep i y).isSome = true := by
  obtain ⟨s, hs⟩ := Option.isSome_iff_exists.mp hs
  cases y with
  | recv e => exact absurd rfl (hy e)
  | _ => simp [serverStep, hi, Routing.step, hs]

theorem executes_of_none (ht : h.kernel.worker t = none) (hlive : h.kernel.alive t = true)
    (ha : h.kernel.action t = none) : h.kernel.executes t = true ∧ h.kernel.status t = none := by
  simp [Kernel.executes, Kernel.status, ht, hlive, ha]

theorem resume_eq [Blockq] {a : Answer} (ht : h.kernel.executes t = true)
    (hans : h.kernel.answer t = some a) (hst : h.kernel.status t ≠ some .paused) :
    h.resume t = some (h.setResumed t) := by
  simp [resume, Kernel.step, ht, hans, hst, setResumed]

section Consistent

variable (hc : Consistent th h.kernel h.routing)
include hc

/-- A server can go on, or a worker executes in its place. -/
theorem server_goes_on [Blockq] (hl : h.Live th) (hi : i < h.routing.server_senders) :
    (∃ x, ServerStep i x ∧ (step th h x).isSome = true) ∨
      ∃ t r, h.kernel.worker t = some r ∧ r.status.onCpu = true ∧
        h.routing.worker_to_server r.id = some i := by
  have hown {y : Input τ} (hy : ∀ e, y ≠ .recv e)
      (hs : ((h.routing.server i).step y).isSome = true) := serverStep_isSome hi hy hs
  have hserving := hc.serving i
  cases hctl : (h.routing.server i).control with
  | registering | registerSwitch => simp [hctl, Control.Serving] at hserving
  | eventLoop r =>
    exact .inl ⟨.server i .schedule, rfl, hown (by simp) (by simp [Server.step, hctl])⟩
  | popPending | handleEvent =>
    exact .inl ⟨.server i .tau, rfl, hown (by simp) (by simp [Server.step, hctl])⟩
  | removeTask v =>
    refine .inl ⟨.remove i, rfl, ?_⟩
    simp only [Host.step, remove]
    split
    · exact hown (by simp) (by simp [Server.step, hctl])
    · apply serverStep_isSome
      · exact hi
      · simp
      · simp [Server.step, hctl]
  | sendTask v task =>
    refine .inl ⟨.send i, rfl, ?_⟩
    simp only [Host.step, send, hctl]
    split
    · exact serverStep_isSome (h := h.setWorker _ _) hi (by simp)
        (by simp [Server.step, setWorker, hctl])
    · exact hown (by simp) (by simp [Server.step, hctl])
  | ctxSwitch v site =>
    cases ha : h.kernel.action (th.server i) with
    | some a =>
      -- the server sleeps, and its worker executes
      refine .inr ?_
      rcases hc.asleep _ a ha with ⟨j, -, -, c, e, rfl⟩ | ⟨heq, -⟩
      · obtain ⟨t, r, ht, hr, hbq⟩ := hc.kernel.switching _ _ _ _ _ ha
        obtain ⟨-, j', hj'⟩ := hc.owned t r ht
        obtain ⟨hbq', -⟩ := hc.running t r j' ht hr hj'
        obtain rfl : i = j' := hc.layout.injective i hi j' (hc.layout.owner _ _ hj').1
          (Option.some.inj (hbq.symm.trans hbq'))
        exact ⟨t, r, ht, hr, hj'⟩
      · exact absurd heq (hc.layout.router i hi)
    | none =>
      refine .inl ?_
      obtain ⟨hexec, hst⟩ := executes_of_none (hc.server i hi) (hl.server i hi) ha
      cases hans : h.kernel.answer (th.server i) with
      | some a =>
        refine ⟨.switched i, rfl, ?_⟩
        simp only [Host.step, hans, resume_eq hexec hans (by simp [hst]), Option.bind_some]
        exact serverStep_isSome (h := h.setResumed _) hi (by simp)
          (by simp [Server.step, setResumed, setKernel, hctl])
      | none =>
        refine ⟨.switch i 0 true, rfl, ?_⟩
        simp [Host.step, hctl, hi, ctl, Kernel.step, hexec, hans, hst]

/-- A worker that executes in user mode, or is about to wait, can go on. -/
theorem worker_goes_on [Blockq] (hl : h.Live th) (hsync : Synced h.kernel h.worker)
    (hloop : h.Looping) (ht : h.kernel.worker t = some w) (hw : w.status.onCpu = true)
    (hmode : w.status = .running ∨ (h.worker t).pc = .signaling ∨ (h.worker t).pc = .idle) :
    ∃ x, WorkerStep t x ∧ (step th h x).isSome = true := by
  obtain ⟨hid, i, hi⟩ := hc.owned t w ht
  have htid := (hc.layout.workerTid_eq_iff hi t).mpr hid
  have halive : h.kernel.alive t = true := htid ▸ hl.worker _ _ hi
  have hexec : h.kernel.executes t = true := by
    simp [Kernel.executes, halive, ht, hw, hc.kernel.action_of_worker ht]
  have hst : h.kernel.status t = some w.status := by simp [Kernel.status, ht]
  obtain ⟨hwaiting, hret⟩ := hsync t w ht
  have hanswer : (h.worker t).pc = .waiting ↔ h.kernel.answer t ≠ none := by
    simpa [hret hw] using hwaiting
  have hnone (hpc : (h.worker t).pc ≠ .waiting) : h.kernel.answer t = none :=
    by_contra fun hne => hpc (hanswer.mpr hne)
  have hpc := (htid ▸ hloop _ _ hi : (h.worker t).Looping).pc
  -- a thread that is about to wait enters the system call, or makes it
  have hwait (hpc : (h.worker t).pc = .signaling ∨ (h.worker t).pc = .idle) :
      ∃ x : HostStep τ, WorkerStep t x ∧ (step th h x).isSome = true := by
    have hans := hnone (by rcases hpc with hpc | hpc <;> simp [hpc])
    by_cases hrun : w.status = .running
    · refine ⟨.callback (.pause t), rfl, ?_⟩
      simp [Host.step, isCallback, Kernel.step, hst, hrun, hans]
    · refine ⟨.workerWait t 0 true, rfl, ?_⟩
      rcases hpc with hpc | hpc <;>
        simp [Host.step, ht, workerStep, WorkerThread.step, hpc, ctl, setWorker, Kernel.step,
          hexec, hans, hst, hrun]
  rcases hpc with hpc | ⟨task, hpc⟩ | hpc | hpc | hpc
  · have hrun : w.status = .running := hmode.resolve_right (by simp [hpc])
    have hans := hnone (by simp [hpc])
    refine ⟨.worker t (.poll true), rfl, ?_⟩
    simp [Host.step, hst, hrun, hans, workerStep, WorkerThread.step, hpc]
  · have hrun : w.status = .running := hmode.resolve_right (by simp [hpc])
    have hans := hnone (by simp [hpc])
    refine ⟨.worker t .returned, rfl, ?_⟩
    simp [Host.step, hst, hrun, hans, workerStep, WorkerThread.step, hpc]
  · exact hwait (.inl hpc)
  · exact hwait (.inr hpc)
  · have hrun : w.status = .running := hmode.resolve_right (by simp [hpc])
    obtain ⟨a, hans⟩ := Option.ne_none_iff_exists'.mp (hanswer.mp hpc)
    refine ⟨.workerWaited t, rfl, ?_⟩
    simp only [Host.step, ht, hans, resume_eq hexec hans (by simp [hst, hrun]), Option.bind_some]
    simp [workerStep, WorkerThread.step, setResumed, setKernel, hpc]

/-- The routing server can go on, or it sleeps. -/
theorem router_goes_on [Blockq] (hl : h.Live th) (hroute : h.routing.events ≠ [] →
    h.routing.route.isSome = true) :
    (∃ x : HostStep τ, RouterStep x ∧ (step th h x).isSome = true) ∨
      h.kernel.action th.router ≠ none := by
  by_cases hevents : h.routing.events = []
  · cases ha : h.kernel.action th.router with
    | some a => exact .inr (by simp)
    | none =>
      refine .inl ?_
      obtain ⟨hexec, hst⟩ := executes_of_none hc.router hl.router ha
      cases hans : h.kernel.answer th.router with
      | some a =>
        refine ⟨.routerWaited, trivial, ?_⟩
        simp only [Host.step, hans, resume_eq hexec hans (by simp [hst]), Option.bind_some,
          routerWaited]
        split
        · split
          · simp [Routing.step, setResumed, setKernel, hevents, hc.panicked]
          · rfl
        all_goals rfl
      | none =>
        refine ⟨.routerWait 0 0 true, trivial, ?_⟩
        simp [Host.step, hevents, hc.panicked, ctl, Kernel.step, hexec, hans, hst]
  · exact .inl ⟨.route, trivial, by simpa [Host.step] using hroute hevents⟩

end Consistent

/-! ### The result -/

theorem run_live [Blockq] [Blockq.AtOnce] (hs : h₀.Started th) (hl : h₀.Live th)
    (hrun : Run (Guarded (step th) fun _ _ => True) h₀ l h) :
    Consistent th h.kernel h.routing ∧ h.Live th ∧ Synced h.kernel h.worker := by
  refine hrun.invariant (I := fun h => Consistent th h.kernel h.routing ∧ h.Live th ∧
    Synced h.kernel h.worker) ⟨hs.consistent, hl, fun t r ht => ?_⟩ ?_
  · obtain ⟨hid, i, hi⟩ := hs.record t r ht
    have hworker := (hs.registered r.id i hi).2
    rw [(hs.layout.workerTid_eq_iff hi t).mpr hid] at hworker
    simp [hworker, (hs.waiting ht).2, (hs.waiting ht).1, Status.onCpu]
  · rintro h₁ x h₂ ⟨hc, hl, hsync⟩ ⟨-, hstep⟩
    exact ⟨(refines_step hc hstep).consistent, hl.step hc hstep, hsync.step hc hstep⟩

open scoped Fifo

theorem demo_live : demo.Live demoThreads where
  server i _ := by
    change demoKernel.alive (if i = 0 then 1 else 3) = true
    split_ifs <;> decide +kernel
  router := by
    change demoKernel.alive 9 = true
    decide +kernel
  worker w i hw := by
    change demoKernel.alive (workerTid w) = true
    rcases demo_owner hw with ⟨rfl, -⟩ | ⟨rfl, -⟩ <;> decide +kernel

end Host

end Attempt2

end Umcg
