import Umcg.Pool.Transitions
import Umcg.WorkerThread

/-!
# A server of `lib.rs`, its workers and the kernel

`Machine` puts the thread of one server, from the end of `initialize_workers` on, together with the
threads of its workers and with what the UMCG kernel module knows about them. As in `attempt2`, a
worker runs only while a context switch of the server to it is under way: the switch fails without
running the worker, or runs it from where it stopped until it blocks, waits, exits or is preempted,
and reports exactly that event. A worker that has blocked becomes switchable again after an
arbitrary delay, and its `WAKE` is returned by a later `Wait` of the server.

Tasks are submitted at any time, and `run_server` calls `try_schedule_tasks` and
`handle_umcg_event` in any order. `Machine.Move` lists the steps case by case.
-/

namespace Umcg.Pool

/-- The event word of the worker with the thread id `tid`. -/
def eventOf (tid : Int32) (t : UmcgEventType) : UInt64 := eventWord (shiftedId tid) t

@[simp] theorem eventType_eventOf (tid : Int32) (t : UmcgEventType) :
    eventType (eventOf tid t) = some t := eventType_eventWord (workerId_shiftedId tid) t

@[simp] theorem workerTid_eventOf (tid : Int32) (t : UmcgEventType) :
    workerTid (eventOf tid t) = tid := workerTid_eventWord tid t

theorem tid_eq_of_eventOf {tid v : Int32} {t u : UmcgEventType} (h : eventOf tid t = eventOf v u) :
    tid = v := by
  simpa using congrArg workerTid h

theorem reported_eventOf (tid : Int32) (t : UmcgEventType) :
    (SwitchAnswer.report (eventOf tid t)).reported = [eventOf tid t] :=
  SwitchAnswer.report_reported (ne_zero_of_eventType (eventType_eventOf tid t))

/-- One server, its worker threads, the kernel's view of them and the events that the next `Wait`
of the server returns. -/
structure Machine (τ : Type) where
  server : Server τ
  thread : Int32 → WorkerThread τ
  park : Int32 → Park
  inbox : List UInt64

/-- The steps of the threads and of the kernel. -/
inductive MachineStep (τ : Type)
  /-- `run_server` calls `try_schedule_tasks`. -/
  | schedule
  /-- `run_server` handles an event that its `Wait` has returned. -/
  | recv (event : UInt64)
  /-- The server goes on by itself. -/
  | tau
  /-- A submitter adds a task to the queue. -/
  | submit (task : TaskEntry τ)
  /-- The server sends the task it holds. -/
  | send
  /-- The context switch of the server fails without running the worker. -/
  | fail (errno : Int)
  /-- The context switch runs the worker. -/
  | resume
  /-- A step of the thread `tid` that does not end the context switch. -/
  | worker (tid : Int32) (x : WorkerInput)
  /-- The running worker blocks or is preempted. -/
  | stop (k : StopKind)
  /-- The running worker calls `Wait`. -/
  | wait
  /-- The running worker calls `Wait`, which fails at once. -/
  | waitError
  /-- The running worker unregisters, or its thread ends. -/
  | exit
  /-- The system call of the blocked worker `tid` is over. -/
  | unblock (tid : Int32)
  deriving DecidableEq

namespace Machine

variable {τ : Type}

/-- Replace the server. -/
def setServer (m : Machine τ) (s : Server τ) : Machine τ := { m with server := s }

/-- Replace the thread `tid`. -/
def setThread (m : Machine τ) (tid : Int32) (k : WorkerThread τ) : Machine τ :=
  { m with thread := Function.update m.thread tid k }

/-- Replace what the kernel knows about `tid`. -/
def setPark (m : Machine τ) (tid : Int32) (p : Park) : Machine τ :=
  { m with park := Function.update m.park tid p }

section Fields

variable (m : Machine τ) (s : Server τ) (tid : Int32) (k : WorkerThread τ) (p : Park)

@[simp] theorem setServer_server : (m.setServer s).server = s := rfl
@[simp] theorem setServer_thread : (m.setServer s).thread = m.thread := rfl
@[simp] theorem setServer_park : (m.setServer s).park = m.park := rfl
@[simp] theorem setServer_inbox : (m.setServer s).inbox = m.inbox := rfl

@[simp] theorem setThread_server : (m.setThread tid k).server = m.server := rfl
@[simp] theorem setThread_thread :
    (m.setThread tid k).thread = Function.update m.thread tid k := rfl
@[simp] theorem setThread_park : (m.setThread tid k).park = m.park := rfl
@[simp] theorem setThread_inbox : (m.setThread tid k).inbox = m.inbox := rfl

@[simp] theorem setPark_server : (m.setPark tid p).server = m.server := rfl
@[simp] theorem setPark_thread : (m.setPark tid p).thread = m.thread := rfl
@[simp] theorem setPark_park : (m.setPark tid p).park = Function.update m.park tid p := rfl
@[simp] theorem setPark_inbox : (m.setPark tid p).inbox = m.inbox := rfl

end Fields

/-- The context switch to `tid` returns and reports the event `t`. -/
def report (m : Machine τ) (tid : Int32) (t : UmcgEventType) : Option (Machine τ) :=
  (m.server.step (.switched (.report (eventOf tid t)) 0)).map m.setServer

/-- The worker that runs: the one that the server has switched to. -/
def onCpu (m : Machine τ) : Option Int32 :=
  match m.server.control with
  | .switching tid => if m.park tid = .running then some tid else none
  | _ => none

/-- The server is at `tx.send(..)`; an entry that has lost its closure is not sent. -/
def send (m : Machine τ) : Option (Machine τ) :=
  match m.server.control with
  | .assign tid task _ =>
    match task.closure with
    | some f =>
      match (m.thread tid).send (.function f) with
      | some k => (m.server.step (.sent true)).map (m.setThread tid k).setServer
      | none => (m.server.step (.sent false)).map m.setServer
    | none => (m.server.step (.sent true)).map m.setServer
  | _ => none

/-- The context switch of the server fails. -/
def fail (m : Machine τ) (errno : Int) : Option (Machine τ) :=
  match m.server.control with
  | .switching tid =>
    if m.park tid = .running then none
    else (m.server.step (.switched .failure errno)).map m.setServer
  | _ => none

/-- The context switch of the server runs the worker, if it is switchable. -/
def resume (m : Machine τ) : Option (Machine τ) :=
  match m.server.control with
  | .switching tid => if m.park tid = .ready then some (m.setPark tid .running) else none
  | _ => none

/-- The steps of a running worker between its system calls, and the end of a thread that is no
longer a UMCG worker. A sender to the channel is left: the pool holds one. -/
def workerStep (m : Machine τ) (tid : Int32) (x : WorkerInput) : Option (Machine τ) :=
  let enabled : Bool :=
    match x with
    | .registered ret => ret = 0 && m.park tid = .running
    | .poll connected => connected && m.park tid = .running
    | .returned | .panicked | .waited _ => m.park tid = .running
    | .done => m.park tid = .unregistered
    | .wait | .unregistered _ => false
  if enabled then ((m.thread tid).step .lib x).map (m.setThread tid) else none

/-- One step of the machine. -/
def step (m : Machine τ) : MachineStep τ → Option (Machine τ)
  | .schedule => (m.server.step .schedule).map m.setServer
  | .recv e =>
    if e ∈ m.inbox then
      (m.server.step (.event e)).map fun s => { m.setServer s with inbox := m.inbox.erase e }
    else none
  | .tau => (m.server.step .tau).map m.setServer
  | .submit task => some (m.setServer (m.server.addTask task))
  | .send => m.send
  | .fail errno => m.fail errno
  | .resume => m.resume
  | .worker tid x => m.workerStep tid x
  | .stop k =>
    match m.onCpu with
    | some tid => (m.setPark tid k.park).report tid k.event
    | none => none
  | .wait =>
    match m.onCpu with
    | some tid => ((m.thread tid).step .lib .wait).bind fun k =>
        ((m.setThread tid k).setPark tid .ready).report tid .wait
    | none => none
  | .waitError =>
    match m.onCpu with
    | some tid => (((m.thread tid).step .lib .wait).bind fun k =>
        k.step .lib (.waited (-1))).map (m.setThread tid)
    | none => none
  | .exit =>
    match m.onCpu with
    | some tid => ((m.thread tid).leave .lib).bind fun k =>
        ((m.setThread tid k).setPark tid .unregistered).report tid .exit
    | none => none
  | .unblock tid =>
    if m.park tid = .blocked then
      some { m.setPark tid .ready with inbox := m.inbox ++ [eventOf tid .wake] }
    else none

variable {m m' : Machine τ} {tid : Int32}

theorem onCpu_eq_some (h : m.onCpu = some tid) :
    m.server.control = .switching tid ∧ m.park tid = .running := by
  unfold onCpu at h
  split at h
  · split_ifs at h with hp
    cases h
    exact ⟨‹_›, hp⟩
  · cases h

/-! ### The cases of a step -/

/-- A running worker stops: the step, the event that its context switch reports, and what is left
of its thread and of the kernel's view of it. -/
inductive Stops (k : WorkerThread τ) :
    MachineStep τ → UmcgEventType → WorkerThread τ → Park → Prop
  | stop (kind : StopKind) : Stops k (.stop kind) kind.event k kind.park
  | wait {k' : WorkerThread τ} (hk : k.step .lib .wait = some k') : Stops k .wait .wait k' .ready
  | exit {k' : WorkerThread τ} (hk : k.leave .lib = some k') : Stops k .exit .exit k' .unregistered

/-- The steps of the machine. -/
inductive Move (m : Machine τ) : MachineStep τ → Machine τ → Prop
  | schedule {t : Server τ} (ht : m.server.step .schedule = some t) :
      Move m .schedule (m.setServer t)
  | recv {e : UInt64} {t : Server τ} (he : e ∈ m.inbox) (ht : m.server.step (.event e) = some t) :
      Move m (.recv e) { m.setServer t with inbox := m.inbox.erase e }
  | tau {t : Server τ} (ht : m.server.step .tau = some t) : Move m .tau (m.setServer t)
  | submit {task : TaskEntry τ} : Move m (.submit task) (m.setServer (m.server.addTask task))
  | sent {tid : Int32} {task : TaskEntry τ} {site : Site} {f : τ} {k : WorkerThread τ}
      {t : Server τ} (hc : m.server.control = .assign tid task site)
      (hk : (m.thread tid).send (.function f) = some k)
      (ht : m.server.step (.sent true) = some t) : Move m .send ((m.setThread tid k).setServer t)
  | sentNothing {tid : Int32} {task : TaskEntry τ} {site : Site} {t : Server τ}
      (hc : m.server.control = .assign tid task site)
      (ht : m.server.step (.sent true) = some t) : Move m .send (m.setServer t)
  | sendFailed {tid : Int32} {task : TaskEntry τ} {site : Site} {t : Server τ}
      (hc : m.server.control = .assign tid task site) (hf : task.closure ≠ none)
      (ht : m.server.step (.sent false) = some t) : Move m .send (m.setServer t)
  | failed {tid : Int32} {errno : Int} {t : Server τ} (hc : m.server.control = .switching tid)
      (hp : m.park tid ≠ .running) (ht : m.server.step (.switched .failure errno) = some t) :
      Move m (.fail errno) (m.setServer t)
  | resumed {tid : Int32} (hc : m.server.control = .switching tid) (hp : m.park tid = .ready) :
      Move m .resume (m.setPark tid .running)
  | worker {tid : Int32} {x : WorkerInput} {k : WorkerThread τ}
      (hx : m.park tid = .running ∨ x = .done) (hk : (m.thread tid).step .lib x = some k) :
      Move m (.worker tid x) (m.setThread tid k)
  | waitError {tid : Int32} {k k' : WorkerThread τ} (hcpu : m.onCpu = some tid)
      (hk : (m.thread tid).step .lib .wait = some k) (hk' : k.step .lib (.waited (-1)) = some k') :
      Move m .waitError (m.setThread tid k')
  | stopped {x : MachineStep τ} {tid : Int32} {ev : UmcgEventType} {k : WorkerThread τ} {p : Park}
      {t : Server τ} (hcpu : m.onCpu = some tid) (hx : Stops (m.thread tid) x ev k p)
      (ht : m.server.step (.switched (.report (eventOf tid ev)) 0) = some t) :
      Move m x (((m.setThread tid k).setPark tid p).setServer t)
  | unblocked {tid : Int32} (hp : m.park tid = .blocked) :
      Move m (.unblock tid) { m.setPark tid .ready with inbox := m.inbox ++ [eventOf tid .wake] }

private theorem move_send (h : m.send = some m') : m.Move .send m' := by
  unfold send at h
  split at h
  · split at h
    · rename_i f hf
      split at h <;> obtain ⟨t, ht, rfl⟩ := Option.map_eq_some_iff.mp h
      · exact .sent ‹_› ‹_› ht
      · exact .sendFailed ‹_› (by simp [hf]) ht
    · obtain ⟨t, ht, rfl⟩ := Option.map_eq_some_iff.mp h
      exact .sentNothing ‹_› ht
  · cases h

private theorem move_workerStep {x : WorkerInput} (h : m.workerStep tid x = some m') :
    m.Move (.worker tid x) m' := by
  simp only [workerStep] at h
  split_ifs at h with hx
  obtain ⟨k, hk, rfl⟩ := Option.map_eq_some_iff.mp h
  refine .worker ?_ hk
  cases x <;> simp_all

private theorem move_stop {kind : StopKind} (h : m.step (.stop kind) = some m') :
    m.Move (.stop kind) m' := by
  simp only [step] at h
  split at h
  · rename_i tid hcpu
    obtain ⟨t, ht, rfl⟩ := Option.map_eq_some_iff.mp h
    have hself : m.setThread tid (m.thread tid) = m := by simp [setThread]
    simpa only [hself] using Move.stopped hcpu (.stop kind) ht
  · cases h

/-- Every step of the machine is one of the cases of `Move`. -/
theorem move_of_step {x : MachineStep τ} (h : m.step x = some m') : m.Move x m' := by
  cases x with
  | schedule =>
    obtain ⟨t, ht, rfl⟩ := Option.map_eq_some_iff.mp h
    exact .schedule ht
  | recv e =>
    simp only [step] at h
    split_ifs at h with he
    obtain ⟨t, ht, rfl⟩ := Option.map_eq_some_iff.mp h
    exact .recv he ht
  | tau =>
    obtain ⟨t, ht, rfl⟩ := Option.map_eq_some_iff.mp h
    exact .tau ht
  | submit task =>
    cases h
    exact .submit
  | send => exact move_send h
  | fail errno =>
    simp only [step, fail] at h
    split at h
    · split_ifs at h with hp
      obtain ⟨t, ht, rfl⟩ := Option.map_eq_some_iff.mp h
      exact .failed ‹_› hp ht
    · cases h
  | resume =>
    simp only [step, resume] at h
    split at h
    · split_ifs at h with hp
      cases h
      exact .resumed ‹_› hp
    · cases h
  | worker tid x => exact move_workerStep h
  | stop kind => exact move_stop h
  | wait =>
    simp only [step] at h
    split at h
    · obtain ⟨k, hk, h⟩ := Option.bind_eq_some_iff.mp h
      obtain ⟨t, ht, rfl⟩ := Option.map_eq_some_iff.mp h
      exact .stopped ‹_› (.wait hk) ht
    · cases h
  | waitError =>
    simp only [step] at h
    split at h
    · obtain ⟨k', hk, rfl⟩ := Option.map_eq_some_iff.mp h
      obtain ⟨k, hk, hk'⟩ := Option.bind_eq_some_iff.mp hk
      exact .waitError ‹_› hk hk'
    · cases h
  | exit =>
    simp only [step] at h
    split at h
    · obtain ⟨k, hk, h⟩ := Option.bind_eq_some_iff.mp h
      obtain ⟨t, ht, rfl⟩ := Option.map_eq_some_iff.mp h
      exact .stopped ‹_› (.exit hk) ht
    · cases h
  | unblock tid =>
    simp only [step] at h
    split_ifs at h with hp
    cases h
    exact .unblocked hp

/-- The state after `initialize_workers`: every worker is recorded as `Waiting`, and its thread is
stopped in `RegisterWorker`. -/
structure Initial (m : Machine τ) : Prop where
  control : ∃ r, m.server.control = .loop r
  stack : m.server.stack = []
  workers : ∀ tid w, m.server.workers.get? tid = some w → w = ⟨.waiting, none⟩
  thread : ∀ tid, m.thread tid = ⟨[], .starting⟩
  park : ∀ tid, m.park tid = if tid ∈ m.server.workers.keys then .ready else .unregistered
  inbox : m.inbox = []

end Machine

end Umcg.Pool
