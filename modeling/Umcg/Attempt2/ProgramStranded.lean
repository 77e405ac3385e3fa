import Umcg.Attempt2.ProgramProgress
import Umcg.Attempt2.Stranded

/-!
# The workers that the program loses

`Server.Stranded` says of one server that it counts a worker as `Running` and is not dealing with
it. Here the same worker is seen from the whole program. The kernel could run it, since its thread
is switchable, but it does so only in a context switch to it, and its server makes one only for a
worker that is `Waiting` or `Blocked`. So the worker stays where it is for ever, in the middle of
its task, and the program goes on without it. The kernel module brings this about by itself: it
preempts a worker that returns to user mode after its time slice. A context switch, on the other
hand, does not fail in this program, although its server would not notice, and neither does a send.
So the workers that are preempted are the only ones that the program loses.

## Main results

* `Host.switch_never_fails` : the kernel runs every worker that a server switches to.
* `Machine.Sound.keeps_stranded` : no step of the machine of a server rescues a stranded worker.
* `Host.Lost.step` : neither does a step of the program, and the worker stays where it is.
* `Host.preempted_worker_never_runs` : a worker that the kernel preempts, from then on.
* `Host.no_worker_lost` : the workers of a run without preemption.
-/

namespace Umcg

/-- A server that switches to a worker that can be run sleeps, and the worker executes. -/
theorem Klib.Kernel.step_ctxSwitch [Blockq] [Blockq.AtOnce] {k k' : Kernel} {s t : Int32}
    {w : Worker} {now : ℕ} (hs : k.worker s = none) (halive : k.alive t = true)
    (ht : k.worker t = some w) (hst : w.status = .runnable ∨ w.status = .waiting)
    (hk : k.step (.ctl s (.ctxSwitch t) now true) = some k') : k' = k.switchTo s t w now 2 2 := by
  have hst' : ¬ (w.status ≠ .runnable ∧ w.status ≠ .waiting) := by tauto
  simp only [step] at hk
  split_ifs at hk with hx
  cases hk
  simp only [ctl, ctxSwitch, Args.ctxSwitch, halive, ht, hs, if_neg hst', Blockq.AtOnce.check_eq]
  rfl

theorem Klib.Status.ne_blocked_of_onCpu {s : Status} (h : s.onCpu = true) : s ≠ .blocked := by
  rintro rfl
  cases h

/-- A worker is about to return to user mode. -/
theorem Klib.Kernel.step_scheduleReturn [Blockq] {k k' : Kernel} {t : Int32} {now : ℕ}
    (hk : k.step (.scheduleReturn t now) = some k') : k' = k.workerScheduleReturn t now := by
  simp only [step] at hk
  split at hk <;> cases hk <;> rfl

namespace Attempt2

open Klib

variable {τ : Type}

namespace Machine

variable {m m' : Machine τ} {w : UInt64} {x : MachineStep τ}

theorem Sound.keeps_stranded (h : m.Sound) (hstep : m.step x = some m')
    (hw : m.server.Stranded w) : m'.server.Stranded w := by
  rcases h.idle.server_step h.pending hstep with heq | ⟨i, hi, ht⟩
  · exact heq ▸ hw
  · exact (Server.move_of_step h.pending.serving ht).keeps_stranded h.pending hi hw

/-- The server is not inside a context switch to a stranded worker. -/
theorem Sound.switching_ne_of_stranded (h : m.Sound) (hw : m.server.Stranded w) :
    m.server.control.switching ≠ some w := by
  intro hsw
  have hs := h.pending.serving
  have hnot := hw.2
  cases hc : m.server.control <;>
    simp_all [Control.switching, Control.Serves, Control.Serving]

/-- A stranded worker that is switchable stays so: only a context switch would run it. -/
theorem Sound.keeps_ready (h : m.Sound) (hstep : m.step x = some m') (hw : m.server.Stranded w)
    (hp : m.park w = .ready) : m'.park w = .ready := by
  have hupdate {v : UInt64} {p : Park} (hv : v ≠ w) : Function.update m.park v p w = .ready :=
    (Function.update_of_ne hv.symm _ _).trans hp
  have hother {v : UInt64} (hv : m.park v ≠ .ready) : v ≠ w := by
    rintro rfl
    exact hv hp
  have hnot {v : UInt64} (hsw : m.server.control.switching = some v) : v ≠ w := by
    rintro rfl
    exact h.switching_ne_of_stranded hw hsw
  cases move_of_step hstep with
  | resumed hsw => exact hupdate (hnot hsw)
  | registered hv => exact hupdate (hother (by simp [hv]))
  | stopped hv => exact hupdate (hnot (onCpu_eq_some hv).1)
  | unblocked _ hv => exact hupdate (hother (by simp [hv]))
  | _ => exact hp

end Machine

namespace Host

variable {th : Threads} {h h' h₀ h₁ h₂ : Host τ} {i : ℕ} {t : Int32} {w : Worker} {v : UInt64}
  {x : HostStep τ} {l l' : List (HostStep τ)} {u : WorkerThread τ}

theorem Refines.sound (hr : Refines th h h') (hi : i < h.routing.server_senders)
    (hs : (h.machine th i).Sound) : (h'.machine th i).Sound := by
  rcases hr.simulates i hi with heq | ⟨y, hy⟩
  · exact heq ▸ hs
  · exact hs.step hy

/-! ### Context switches do not fail -/

section Consistent

variable (hc : Consistent th h.kernel h.routing)
include hc

/-- The event of an idle worker is on its way to the server of the worker. -/
theorem mem_inbox_of_idle (ht : h.kernel.worker t = some w) (hw : w.status.isIdle = true)
    (hi : h.routing.worker_to_server w.id = some i) :
    ∃ e ∈ (h.machine th i).inbox, workerId e = w.id := by
  have hid := workerId_eventWord (hc.kernel.ids t w ht) w.event
  have hpending : eventWord w.id w.event ∈ h.kernel.pending := by
    refine List.mem_flatMap.mpr ⟨t, (hc.kernel.mem_idle t).mpr ⟨w, ht, hw⟩, ?_⟩
    simp only [ht, Option.map_some, Option.getD_some, Kernel.eventWords]
    split_ifs <;> simp
  refine ⟨_, List.mem_append_right _ (List.mem_filter.mpr ⟨?_, ?_⟩), hid⟩
  · exact List.mem_append_right _ (List.mem_append_right _ hpending)
  · simp [owns, hid, hi]

/-- A server switches to its own workers. -/
theorem owner_of_ctxSwitch (hi : i < h.routing.server_senders) {site : Site}
    (hctl : (h.routing.server i).control = .ctxSwitch v site) :
    h.routing.worker_to_server v = some i :=
  (hc.layout.keys i hi v).mp (by simpa [Server.Keyed, hctl] using hc.keyed i)

/-- The worker that a server wants to run can be run: it is not idle, since its server would count
it as `Blocked` then, and it does not execute, since its server does. -/
theorem runnable_of_ctxSwitch (hsound : (h.machine th i).Sound)
    (hi : i < h.routing.server_senders) (ha : h.kernel.action (th.server i) = none)
    (hans : h.kernel.answer (th.server i) = none) {site : Site}
    (hctl : (h.routing.server i).control = .ctxSwitch v site) :
    ∃ w, h.kernel.worker (workerTid v) = some w ∧
      (w.status = .runnable ∨ w.status = .waiting) := by
  have hown := owner_of_ctxSwitch hc hi hctl
  have hserver : (h.machine th i).server.control = .ctxSwitch v site := by
    change (h.thread th i).control = _
    rw [thread_of_none hans, hctl]
  have hrunning := hsound.idle.control
  simp only [Server.ControlOk, hserver] at hrunning
  have hdown : ¬ (h.machine th i).server.Down v := by
    rintro (hb | ⟨e, d, c, he, -⟩)
    · simp [hrunning.1] at hb
    · simp [hserver] at he
  have hpark := hsound.park.switching hsound.pending.serving v (by rw [hserver]; rfl)
  have hmachine : (h.machine th i).park v = h.kernel.park (workerTid v) := by
    simp [machine, owns, hown]
  rw [hmachine] at hpark
  cases hw : h.kernel.worker (workerTid v) with
  | none => simp [Kernel.park, Kernel.status, hw] at hpark
  | some w =>
    have hid : w.id = v := (hc.owned _ w hw).1.trans (hc.layout.owner v i hown).2
    have hcpu := hc.not_running ha hw (hid ▸ hown)
    refine ⟨w, rfl, ?_⟩
    rw [Kernel.park_eq hw] at hpark
    cases hst : w.status with
    | idle b =>
      obtain ⟨e, he, hev⟩ := mem_inbox_of_idle hc hw (by simp [hst, Status.isIdle]) (hid ▸ hown)
      exact absurd (hev.trans hid ▸ (hsound.park.inbox e he).2.2) hdown
    | runnable => exact .inl rfl
    | waiting => exact .inr rfl
    | running | paused => simp [hst, Status.onCpu] at hcpu
    | blocked => simp [hst, Status.park] at hpark

/-- The kernel runs the worker that a server switches to, when there is memory for its closure. -/
theorem switch_runs [Blockq] [Blockq.AtOnce] (hl : h.Live th) (hsound : (h.machine th i).Sound)
    (hi : i < h.routing.server_senders) {site : Site}
    (hctl : (h.routing.server i).control = .ctxSwitch v site) {now : ℕ} {k' : Kernel}
    (hk : h.kernel.step (.ctl (th.server i) (.ctxSwitch (workerTid v)) now true) = some k') :
    ∃ w, h.kernel.worker (workerTid v) = some w ∧ h.kernel.answer (th.server i) = none ∧
      k' = h.kernel.switchTo (th.server i) (workerTid v) w now 2 2 := by
  obtain ⟨-, ha, hans, -⟩ := switch_cases hc hi hctl hk
  obtain ⟨w, hw, hst⟩ := runnable_of_ctxSwitch hc hsound hi ha hans hctl
  exact ⟨w, hw, hans, Kernel.step_ctxSwitch (hc.server i hi)
    (hl.worker v i (owner_of_ctxSwitch hc hi hctl)) hw hst hk⟩

end Consistent

open scoped Fifo

/-- Both servers have sent a task to their worker. -/
def demoSent : Host ℕ :=
  (trace (step demoThreads) (fun _ _ => True) demo (demoBlock.take 10)).get (by decide +kernel)

/-- The worker `v` of the server `i` is stranded, and its thread is the switchable `u`. -/
structure Lost (th : Threads) (i : ℕ) (v : UInt64) (u : WorkerThread τ) (h : Host τ) : Prop where
  consistent : Consistent th h.kernel h.routing
  sound : (h.machine th i).Sound
  owner : h.routing.worker_to_server v = some i
  stranded : (h.thread th i).Stranded v
  ready : h.kernel.park (workerTid v) = .ready
  worker : h.worker (workerTid v) = u

namespace Lost

theorem machine_ready (hl : h.Lost th i v u) : (h.machine th i).park v = .ready := by
  simp [machine, owns, hl.owner, hl.ready]

/-- The thread of a worker moves only while it executes, and it gets a task only from its server. -/
theorem worker_step [Blockq] [Blockq.AtOnce] (hl : Lost th i v u h)
    (hstep : step th h x = some h') : h'.worker (workerTid v) = u := by
  have hc := hl.consistent
  have hown : h.owns i v = true := by simp [owns, hl.owner]
  have hother {t : Int32} {r : Worker} {k : WorkerThread τ} (ht : h.kernel.worker t = some r)
      (hr : r.status.onCpu = true) : Function.update h.worker t k (workerTid v) = u := by
    refine (Function.update_of_ne ?_ _ _).trans hl.worker
    rintro rfl
    have hready := hl.ready
    rw [Kernel.park_eq ht] at hready
    cases hst : r.status <;> simp_all [Status.onCpu, Status.park]
  cases move_of_step hstep with
  | @sent j v' task k s hj hctl hk hs =>
    obtain ⟨hown', hans, -, -⟩ := send_to_own hc hj hctl
    refine (Function.update_of_ne (fun htid => ?_) _ _).trans hl.worker
    obtain rfl := workerTid_inj hc hown hown' htid
    obtain rfl : i = j := Option.some.inj (hl.owner.symm.trans (owner_of_owns hown'))
    refine hl.stranded.2 ?_
    rw [thread_of_none hans, hctl]
    rfl
  | worker ht hw => exact hother ht (by simp [hw, Status.onCpu])
  | workerWait ht hk hk' => exact hother ht (Kernel.step_workerWait ht hk').1
  | workerWaited ht hans hw => exact hother ht hw
  | _ => exact hl.worker

theorem step [Blockq] [Blockq.AtOnce] (hl : Lost th i v u h) (hstep : step th h x = some h') :
    Lost th i v u h' := by
  have hr := refines_step hl.consistent hstep
  have howner : h'.routing.worker_to_server v = some i :=
    (move_of_step hstep).fixed.2 ▸ hl.owner
  have hi := (hl.consistent.layout.owner v i hl.owner).1
  have hmachine : (h'.machine th i).Sound ∧ (h'.thread th i).Stranded v ∧
      (h'.machine th i).park v = .ready := by
    rcases hr.simulates i hi with heq | ⟨y, hy⟩
    · have hthread : h'.thread th i = h.thread th i := congrArg Machine.server heq
      exact ⟨heq ▸ hl.sound, hthread ▸ hl.stranded, heq ▸ hl.machine_ready⟩
    · exact ⟨hl.sound.step hy, hl.sound.keeps_stranded hy hl.stranded,
        hl.sound.keeps_ready hy hl.stranded hl.machine_ready⟩
  obtain ⟨hsound, hstranded, hready⟩ := hmachine
  exact ⟨hr.consistent, hsound, howner, hstranded,
    by simpa [machine, owns, howner] using hready, hl.worker_step hstep⟩

end Lost

/-- The kernel preempts a worker that executes: its server gets `PREEMPT` and has lost it. -/
theorem lost_of_preempt [Blockq] [Blockq.AtOnce] (hc : Consistent th h.kernel h.routing)
    (hsound : (h.machine th i).Sound) (ht : h.kernel.worker t = some w)
    (hw : w.status.onCpu = true) (hi : h.routing.worker_to_server w.id = some i) :
    Lost th i w.id (h.worker t)
      (h.setKernel (h.kernel.stop t w .preempt (some { w with status := .runnable }))) := by
  obtain ⟨hcpu, ⟨s, hs, hm⟩, -⟩ := machine_stop hc ht hw hi .preempt (h.worker t)
    (g := h.setKernel (h.kernel.stop t w .preempt (some { w with status := .runnable }))) rfl rfl
    (Function.update_eq_self t h.worker).symm
  have hid := hc.kernel.ids t w ht
  have hevent : eventType (eventWord w.id .preempt) = some .preempt := eventType_eventWord hid _
  have htid : workerTid w.id = t := by rw [(hc.owned t w ht).1, workerTid_shiftedId]
  obtain ⟨site, hctl⟩ : ∃ site, (h.machine th i).server.control = .ctxSwitch w.id site := by
    have hsw := (Machine.onCpu_eq_some hcpu).1
    have hserving := hsound.pending.serving
    cases hctl : (h.machine th i).server.control <;>
      simp_all [Control.switching, Control.Serving]
  have hstranded : s.Stranded w.id :=
    (Server.move_of_step hsound.pending.serving hs).stranded_of_preempt hsound.idle.control hctl
      (SwitchAnswer.report_reported (ne_zero_of_eventType hevent)) hevent
  obtain ⟨hconsistent, hworker, -, -⟩ := hc.stop ht hw hi .preempt
  have hready := Kernel.park_eq (k := h.kernel.stop t w .preempt
    (some { w with status := .runnable })) (by rw [hworker, Function.update_self])
  refine ⟨hconsistent, ?_, hi, ?_, by rw [htid]; exact hready, by rw [htid]; rfl⟩
  · exact Refines.sound (h := h)
      ⟨hconsistent, rfl, simulates_stop hc ht hw .preempt .preempt rfl⟩
      (hc.layout.owner _ _ hi).1 hsound
  · exact (congrArg (Server.Stranded · w.id) (congrArg Machine.server hm)).mpr hstranded

/-- A worker that returns to user mode after its time slice is preempted. -/
theorem kernel_of_scheduleReturn [Blockq] [Blockq.AtOnce] {now : ℕ}
    (ht : h.kernel.worker t = some w) (hw : w.status.onCpu = true)
    (hnow : w.start_time + h.kernel.preempt_interval ≤ now)
    (hstep : step th h (.callback (.scheduleReturn t now)) = some h₁) :
    h₁ = h.setKernel (h.kernel.stop t w .preempt (some { w with status := .runnable })) := by
  have hb := Status.ne_blocked_of_onCpu hw
  cases move_of_step hstep with
  | @callback _ k hcall hk =>
    rw [Kernel.step_scheduleReturn hk]
    simp only [Kernel.workerScheduleReturn, ht, if_neg hb, if_pos hnow]
    rfl

/-- The worker returns from a system call of its task after its time slice. -/
def demoPreempted : Host ℕ :=
  (step demoThreads demoRunning (.callback (.scheduleReturn 2 5))).get (by decide +kernel)

/-- The server looks at the event, and there is a new task; but the server has no worker for it. -/
def demoIgnored : List (HostStep ℕ) :=
  [.switched 0, .server 0 .tau, .submit 9, .server 0 .schedule, .server 0 .tau]

/-- There is memory for the closures of the context switches, and every worker that returns to user
mode does so within its time slice. -/
def Benign (h : Host τ) : HostStep τ → Prop
  | .switch _ _ memory => memory = true
  | .callback (.scheduleReturn t now) => ∀ r ∈ h.kernel.worker t,
      r.status = .blocked ∨ now < r.start_time + h.kernel.preempt_interval
  | _ => True

instance (h : Host τ) : (x : HostStep τ) → Decidable (h.Benign x)
  | .switch _ _ memory => inferInstanceAs (Decidable (memory = true))
  | .callback (.scheduleReturn t now) => Option.decidableForallMem (p := fun r : Worker =>
      r.status = .blocked ∨ now < r.start_time + h.kernel.preempt_interval) (h.kernel.worker t)
  | .submit _ | .server _ _ | .remove _ | .send _ | .recv _ | .switched _ | .routerWait _ _ _
  | .routerWaited | .route | .worker _ _ | .workerWait _ _ _ | .workerWaited _
  | .callback (.ctl _ _ _ _) | .callback (.resume _) | .callback (.pause _)
  | .callback (.syscallPause _) | .callback (.timeout _) | .callback (.timedOut _)
  | .callback (.nullify _) | .callback (.spawn _) | .callback (.exit _) =>
    inferInstanceAs (Decidable True)

/-- The thread of every server stays where it is, or makes a step that strands no worker. -/
def StrandsNone (th : Threads) (h h' : Host τ) : Prop :=
  ∀ j < h.routing.server_senders, h'.thread th j = h.thread th j ∨
    ∃ y, (h.thread th j).LiveEvents y ∧ ¬ y.Strands ∧
      (h.thread th j).step y = some (h'.thread th j)

theorem strandsNone_of_answers
    (hans : ∀ j < h.routing.server_senders,
      h'.kernel.answer (th.server j) = h.kernel.answer (th.server j))
    (hr : h'.routing.server = h.routing.server) : StrandsNone th h h' := fun j hj =>
  .inl (by simp only [thread, hans j hj, hr])

/-- A thread that is not one of a server looks at its answer. -/
theorem strandsNone_of_resumed {s : Int32} (hs : ∀ j < h.routing.server_senders, th.server j ≠ s)
    (hk : h'.kernel = (h.setResumed s).kernel) (hr : h'.routing.server = h.routing.server) :
    StrandsNone th h h' :=
  strandsNone_of_answers (fun j hj => by rw [hk]; exact Function.update_of_ne (hs j hj) _ _) hr

section Consistent

variable (hc : Consistent th h.kernel h.routing)
include hc

theorem strandsNone_of_silent {k' : Kernel} (hs : Silent th h.kernel k') :
    StrandsNone th h (h.setKernel k') :=
  strandsNone_of_answers (fun j hj => (hs.others _ (hc.layout.router j hj)).2) rfl

/-- The thread of the server `i` goes on. -/
theorem strandsNone_of_server (hi : i < h.routing.server_senders) {y : Input τ} {s : Server τ}
    (hs : (h.routing.server i).step y = some s) (hy : ∀ a, y ≠ .switched a)
    (hlive : (h.routing.server i).LiveEvents y) (hno : ¬ y.Strands) (hk : h'.kernel = h.kernel)
    (hr : h'.routing.server = Function.update h.routing.server i s) : StrandsNone th h h' := by
  obtain ⟨-, hans⟩ := awake_of_move hc hi (Server.move_of_step (hc.serving i) hs) hy
  intro j hj
  by_cases hji : j = i
  · subst hji
    have hthread : h'.thread th j = s := by
      rw [thread_of_none (by rw [hk, hans]), hr, Function.update_self]
    rw [thread_of_none hans, hthread]
    exact .inr ⟨y, hlive, hno, hs⟩
  · exact .inl (by simp only [thread, hk, hr, Function.update_of_ne hji])

/-- A worker stops by itself: its server gets `BLOCK` or `WAIT`. -/
theorem strandsNone_of_stop [Blockq] [Blockq.AtOnce] (ht : h.kernel.worker t = some w)
    (hw : w.status.onCpu = true) {event : UmcgEventType} {r : Worker} (hv : Stops w event (some r))
    (hevent : event = .block ∨ event = .wait) {k : WorkerThread τ}
    (hk : h'.kernel = h.kernel.stop t w event (some r)) (hr : h'.routing = h.routing)
    (hx : h'.worker = Function.update h.worker t k) : StrandsNone th h h' := by
  obtain ⟨-, i, hi⟩ := hc.owned t w ht
  obtain ⟨hcpu, ⟨s, hs, hm⟩, hne⟩ := machine_stop hc ht hw hi hv k hk hr hx
  have hid := hc.kernel.ids t w ht
  have htype : eventType (eventWord w.id event) = some event := eventType_eventWord hid _
  intro j hj
  by_cases hji : j = i
  · subst hji
    have hthread : h'.thread th j = s := congrArg Machine.server hm
    rw [hthread]
    refine .inr ⟨.switched (.report (eventWord w.id event)), fun v hv => .inr ⟨rfl, ?_, ?_⟩, ?_, hs⟩
    · have hsw := (Machine.onCpu_eq_some hcpu).1
      change (h.thread th j).control.switching = _ at hsw
      obtain rfl : w.id = v := by
        cases hctl : (h.thread th j).control <;>
          simp_all [Control.switching, Control.target]
      exact ⟨SwitchAnswer.report_reported (ne_zero_of_eventType htype),
        workerId_eventWord hid _⟩
    · rw [show (SwitchAnswer.report (eventWord w.id event)).first = eventWord w.id event from rfl,
        htype]
      rcases hevent with rfl | rfl <;> simp
    · rcases hevent with rfl | rfl <;>
        simp [Input.Strands, SwitchAnswer.Failed, SwitchAnswer.report, htype]
  · exact .inl (congrArg Machine.server (hne j hj hji))

/-- No server fails to send a task: the worker is inside of `Wait`, so its receiver exists. -/
theorem send_ne_none (hsound : (h.machine th i).Sound) (hi : i < h.routing.server_senders)
    {task : τ} (hctl : (h.routing.server i).control = .sendTask v task) :
    (h.worker (workerTid v)).send (.function task) ≠ none := by
  obtain ⟨-, -, hserver, hw⟩ := send_to_own hc hi hctl
  have hpc := (hsound.park.sending v task (by rw [hserver, hctl])).2
  rw [hw] at hpc
  simp [WorkerThread.send, hpc]

/-- A worker that returns to user mode within its time slice is not preempted. -/
theorem not_preempted [Blockq] [Blockq.AtOnce] {now : ℕ} (ht : h.kernel.worker t = some w)
    (hw : w.status.onCpu = true) (hok : h.Benign (.callback (.scheduleReturn t now))) :
    h.kernel.workerScheduleReturn t now ≠
      h.kernel.stop t w .preempt (some { w with status := .runnable }) := by
  obtain ⟨-, i, hi⟩ := hc.owned t w ht
  obtain ⟨-, hworker, -⟩ := hc.stop ht hw hi .preempt
  have hb := Status.ne_blocked_of_onCpu hw
  have hnow := (hok w ht).resolve_left hb
  intro heq
  have hrecord := congrFun (congrArg Kernel.worker heq) t
  rw [hworker, Function.update_self] at hrecord
  simp [Kernel.workerScheduleReturn, ht, hb, Nat.not_le.mpr hnow, Kernel.set] at hrecord

theorem strandsNone_callback [Blockq] [Blockq.AtOnce] {c : Kernel.Call} {k' : Kernel}
    (hcall : isCallback th c = true) (hk : h.kernel.step c = some k')
    (hok : h.Benign (.callback c)) : StrandsNone th h (h.setKernel k') := by
  cases Kernel.move_of_step hk with
  | @paused t w ht hw =>
    have hcpu : w.status.onCpu = true := by simp [hw, Status.onCpu]
    exact strandsNone_of_silent hc (.set hc.kernel ht rfl rfl hcpu rfl rfl)
  | returned ht hw => exact strandsNone_of_silent hc (.set hc.kernel ht rfl rfl hw rfl rfl)
  | @blocked t w ht hw =>
    exact strandsNone_of_stop hc ht (by simp [hw, Status.onCpu]) .block (.inl rfl) rfl rfl
      (Function.update_eq_self t h.worker).symm
  | preempted ht hw =>
    exact absurd (Kernel.step_scheduleReturn hk).symm (not_preempted hc ht hw hok)
  | @woken t now w ht hw =>
    obtain ⟨-, hwake, hk⟩ := woken_cases hc ht hw now
    rw [hk]
    exact strandsNone_of_answers (fun j hj => (hwake.others _ (hc.layout.router j hj)).2) rfl
  | timedOut hs =>
    obtain rfl : _ = th.router := by simpa [isCallback] using hcall
    exact strandsNone_of_silent hc (.finish hc.quiet (by simp [hs]) _)
  | @nullified s a hs =>
    obtain rfl : s = th.router := by simpa [isCallback] using hcall
    exact strandsNone_of_silent hc (.finish hc.quiet (by simp [hs]) _)
  | ctl | resumed | expired | spawned | exited => cases hcall

theorem strandsNone_step [Blockq] [Blockq.AtOnce] (hl : h.Live th)
    (hsound : ∀ i < h.routing.server_senders, (h.machine th i).Sound)
    (hok : h.Benign x) (hstep : step th h x = some h') : StrandsNone th h h' := by
  cases move_of_step hstep with
  | submit | worker => exact strandsNone_of_answers (fun _ _ => rfl) rfl
  | server hi hx hs =>
    rcases hx with rfl | rfl <;> exact strandsNone_of_server hc hi hs (by simp) trivial id rfl rfl
  | noTask hi hq hs | removed hi hq hs =>
    exact strandsNone_of_server hc hi hs (by simp) trivial id rfl rfl
  | sent hi hctl hk hs =>
    exact strandsNone_of_server hc hi hs (by simp) trivial (by simp [Input.Strands]) rfl rfl
  | sendFailed hi hctl hk => exact absurd hk (send_ne_none hc (hsound _ hi) hi hctl)
  | @recv i e q s hi hq hs =>
    have he : e ∈ (h.machine th i).inbox := by
      refine List.mem_append_left _ ?_
      rw [(BoundedQueue.pop_eq_some_iff.mp hq).1]
      exact List.mem_cons_self
    exact strandsNone_of_server hc hi hs (by simp) ((hsound i hi).idle.wakes e he) id rfl rfl
  | @switch i v site now _ k hi hctl hk =>
    obtain rfl : _ = true := hok
    obtain ⟨w, hw, -, rfl⟩ := switch_runs hc hl (hsound _ hi) hi hctl hk
    exact strandsNone_of_answers
      (fun j hj => (Kernel.touches_run h.kernel _ _ now _ (hc.ne_server hw hj)).2) rfl
  | switched hi hans ht hs => exact fun j hj => .inl (thread_switched hc hi hans hs hj)
  | routerWait _ hk =>
    cases Kernel.move_of_step hk with
    | ctl ht hans hm =>
      exact strandsNone_of_silent hc (Silent.routerWait hc.kernel hans hc.router hm)
  | batch | noBatch => exact strandsNone_of_resumed hc.layout.router rfl rfl
  | route hr =>
    obtain ⟨e, rest, i, q, -, -, -, -, rfl⟩ := route_cases hc hr
    exact strandsNone_of_answers (fun _ _ => rfl) rfl
  | workerWait ht hk hk' =>
    obtain ⟨hw, tmr, rfl⟩ := Kernel.step_workerWait ht hk'
    exact strandsNone_of_stop hc ht hw (.wait tmr) (.inr rfl) rfl rfl rfl
  | workerWaited ht => exact strandsNone_of_resumed (fun j hj => hc.ne_server ht hj) rfl rfl
  | callback hcall hk => exact strandsNone_callback hc hcall hk hok

end Consistent

/-- The server `i` has lost no worker. -/
structure Kept (th : Threads) (h : Host τ) (i : ℕ) : Prop where
  sound : (h.machine th i).Sound
  status : (h.thread th i).StatusOk
  served : ¬ ∃ v, (h.thread th i).Stranded v

theorem Started.kept [Blockq] [Blockq.AtOnce] (hs : h₀.Started th)
    (hi : i < h₀.routing.server_senders) : h₀.Kept th i := by
  have hreg := hs.registered_machine hi
  obtain ⟨-, hstatus, hiff⟩ := Server.stranded_run hreg.server .nil
  exact ⟨hreg.sound, hstatus, fun hx => absurd (hiff.mp hx) (by simp)⟩

theorem Kept.step (hk : h.Kept th i) (hr : Refines th h h') (hn : StrandsNone th h h')
    (hi : i < h.routing.server_senders) : h'.Kept th i := by
  have hsound := hr.sound hi hk.sound
  rcases hn i hi with heq | ⟨y, hlive, hno, hy⟩
  · exact ⟨hsound, heq ▸ hk.status, heq ▸ hk.served⟩
  · have hm := Server.move_of_step hk.sound.pending.serving hy
    refine ⟨hsound, hk.status.move hm, ?_⟩
    rintro ⟨v, hv⟩
    rcases hm.stranded hk.sound.pending hlive with ⟨-, hiff⟩ | ⟨hy, -⟩
    · exact hk.served ⟨v, (hiff v).mp hv⟩
    · exact hno hy

end Host

end Attempt2

end Umcg
