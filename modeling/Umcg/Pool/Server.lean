import Umcg.Foundation.Run
import Umcg.Foundation.Table
import Umcg.Pool.TaskQueue

/-!
# The server thread of `lib.rs`

`Server` is the data of one server of the executor, the stack of calls its thread is in and the
point it has reached. The thread alone writes the worker pool. The task queue is shared with the
submitters, but between taking the lock on it and releasing it the thread goes through no point of
control. So these points are the sends on a channel and the system calls, and the calls and returns
between `handle_umcg_event`, `context_switch_worker` and `try_schedule_tasks`, which call each
other:

* `Control.loop`: in `run_server`, with the result of the last call it made;
* `Control.schedule`, `Control.handle`: at the entry of `try_schedule_tasks` and of
  `handle_umcg_event`;
* `Control.assign`: in `assign_task`, at `tx.send(..)`;
* `Control.switching`: in the system call of `context_switch_worker`;
* `Control.ret`: at the return of the function on top of the stack.

A `Frame` is what the caller still has to do. The frame `Frame.wakeRunning` is the body of an
`if let` whose scrutinee locked the worker pool, so the guard lives as long as the frame.

The two mutexes are explicit: `Guards.owned` lists the guards that are alive on the thread, and
`Guards.relocked` is set when the thread locks a mutex that it owns. There the thread of the
program stops for good; the model goes on as if the mutex were re-entrant, so that what is proved
about its runs covers every run of the program.
-/

namespace Umcg.Pool

/-- The two mutexes of a server: `worker_pool.workers` and `task_queue`. -/
inductive Mutex
  | workers
  | taskQueue
  deriving DecidableEq, Repr

/-- The guards that are alive on the thread, and whether it has locked a mutex that it owns. -/
structure Guards where
  owned : List Mutex
  relocked : Bool
  deriving DecidableEq, Repr

namespace Guards

/-- No guard is alive. -/
def none : Guards := ⟨[], false⟩

/-- `m.lock().unwrap()`. -/
def lock (g : Guards) (m : Mutex) : Guards := ⟨m :: g.owned, g.relocked || m ∈ g.owned⟩

/-- The guard of `m` is dropped. -/
def unlock (g : Guards) (m : Mutex) : Guards := ⟨g.owned.erase m, g.relocked⟩

end Guards

/-- The record of a worker in the pool (`Worker`): what the scheduler knows about the worker. -/
structure Worker where
  status : WorkerStatus
  current_task : Option ℕ
  deriving DecidableEq, Repr

/-- The two callers of `assign_task`. -/
inductive Site
  | schedule
  | wake
  deriving DecidableEq, Repr

/-- What the callers of a function still have to do when it returns. -/
inductive Frame
  /-- `context_switch_worker`, with the events it has not handled yet. -/
  | switchEvents (rest : List UInt64)
  /-- `try_schedule_tasks`, after `context_switch_worker`. -/
  | scheduled (worker_tid : Int32)
  /-- `WAKE` of a running worker, after `context_switch_worker`, inside of `if let`. -/
  | wakeRunning (worker_tid : Int32)
  /-- `WAKE` of a blocked worker, after `context_switch_worker`. -/
  | wakeBlocked
  deriving DecidableEq, Repr

/-- The point the thread of a server has reached. -/
inductive Control (τ : Type)
  | loop (last : Outcome)
  | schedule
  | handle (event : UInt64)
  | assign (worker_tid : Int32) (task : TaskEntry τ) (site : Site)
  | switching (worker_tid : Int32)
  | ret (r : Outcome)
  deriving DecidableEq, Repr

/-- A server: its worker pool, its task queue, its guards, its calls and its control. -/
structure Server (τ : Type) where
  workers : Table Int32 Worker
  queue : TaskQueue τ
  guards : Guards
  stack : List Frame
  control : Control τ

/-- What the surroundings of the thread do at a point of control. -/
inductive Input
  /-- `run_server` calls `try_schedule_tasks`. -/
  | schedule
  /-- `run_server` calls `handle_umcg_event`. -/
  | event (event : UInt64)
  /-- The thread goes on by itself. -/
  | tau
  /-- `tx.send(..)` returns; `ok` says that the receiver was alive. -/
  | sent (ok : Bool)
  /-- A context switch returns; after a failure `errno` is set. -/
  | switched (a : SwitchAnswer) (errno : Int)
  deriving DecidableEq, Repr

namespace Server

variable {τ : Type}

/-- `m.lock().unwrap()`. -/
def lock (s : Server τ) (m : Mutex) : Server τ := { s with guards := s.guards.lock m }

/-- The guard of `m` is dropped. -/
def unlock (s : Server τ) (m : Mutex) : Server τ := { s with guards := s.guards.unlock m }

/-- The function on top of the stack returns `r`. -/
def ret (s : Server τ) (r : Outcome) : Server τ := { s with control := .ret r }

/-- The pool is locked, read and released: `get_worker_state`, and the search of
`try_schedule_tasks` for a waiting worker. -/
def readWorkers (s : Server τ) : Server τ := (s.lock .workers).unlock .workers

/-- `update_worker_status`. -/
def updateWorkerStatus (s : Server τ) (tid : Int32) (status : WorkerStatus) (task : Option ℕ) :
    Server τ :=
  let s := s.lock .workers
  let workers := if tid ∈ s.workers.keys then s.workers.set tid ⟨status, task⟩ else s.workers
  { s with workers := workers }.unlock .workers

/-- `update_worker_status_keep_task`. -/
def updateWorkerStatusKeepTask (s : Server τ) (tid : Int32) (status : WorkerStatus) : Server τ :=
  let s := s.lock .workers
  let workers :=
    match s.workers.get? tid with
    | some w => s.workers.set tid { w with status := status }
    | none => s.workers
  { s with workers := workers }.unlock .workers

/-- The worker of `workers.iter_mut().find(|(_, w)| w.status == WorkerStatus::Waiting)`. A `HashMap`
visits its entries in any order, the table in that of their insertion. Which of several waiting
workers is found does not matter: all that is used of it is that it is waiting, and that one is
found when some worker is. -/
def waitingWorker (s : Server τ) : Option Int32 :=
  s.workers.keys.find? fun tid => (s.workers.value tid).status = .waiting

/-- A task taken from the queue is recorded as the task of `tid`. -/
def take (s : Server τ) (tid : Int32) (task : TaskEntry τ) (q : TaskQueue τ) : Server τ :=
  let s := { s with queue := q }.updateWorkerStatus tid .running (some task.id)
  { s with queue := s.queue.markInProgress task.id tid }

/-- `try_schedule_tasks`, up to `assign_task`. -/
def trySchedule (s : Server τ) : Server τ :=
  match s.waitingWorker with
  | none => s.readWorkers.ret .ok
  | some tid =>
    let s := s.readWorkers.lock .taskQueue
    match s.queue.getNextTask with
    | none => (s.unlock .taskQueue).ret .ok
    | some (task, q) =>
      { (s.take tid task q).unlock .taskQueue with control := .assign tid task .schedule }

/-- `WAKE` of a running worker with the task `current`, up to `assign_task`: the worker is taken
to have completed its task, and gets the next one. -/
def wakeRunning (s : Server τ) (tid : Int32) (current : Option ℕ) : Server τ :=
  let s := s.updateWorkerStatus tid .waiting none
  match current with
  | none => s.ret .ok
  | some task_id =>
    let s := s.lock .taskQueue
    let s := { s with queue := s.queue.removeInProgress task_id }
    match s.queue.getNextTask with
    | none => (s.unlock .taskQueue).ret .ok
    | some (task, q) =>
      let s := (s.take tid task q).unlock .taskQueue
      -- the guard of the scrutinee lives through the body of the if let
      let s := s.lock .workers
      if tid ∈ s.workers.keys then { s with control := .assign tid task .wake }
      else (s.unlock .workers).ret .ok

/-- `handle_umcg_event`, up to its return, to `assign_task` or to a context switch. -/
def handleEvent (s : Server τ) (event : UInt64) : Server τ :=
  let tid := workerTid event
  match eventType event with
  | some .block => (s.updateWorkerStatusKeepTask tid .blocked).ret .ok
  | some .wake =>
    let s := s.readWorkers
    match s.workers.get? tid with
    | some ⟨.running, current⟩ => s.wakeRunning tid current
    | some ⟨.blocked, current⟩ =>
      let s := s.updateWorkerStatus tid .running current
      { s with stack := .wakeBlocked :: s.stack, control := .switching tid }
    | _ => s.ret .ok
  | some .wait =>
    let s := s.readWorkers
    match s.workers.get? tid with
    | some w => if w.status ≠ .waiting then (s.updateWorkerStatus tid .waiting none).ret .ok
      else s.ret .ok
    | none => s.ret .ok
  | some .exit => (s.updateWorkerStatus tid .completed none).ret .ok
  | _ => s.ret (.err (.invalidWorkerEvent tid.toInt64.toUInt64 event))

/-- A task that could not be sent goes back to the queue, and its worker to `Waiting`. -/
def requeue (s : Server τ) (tid : Int32) (failed_task : TaskEntry τ) : Server τ :=
  let s := s.lock .taskQueue
  let s := { s with queue := s.queue.enqueue failed_task }
  (s.updateWorkerStatus tid .waiting none).unlock .taskQueue

/-- The two callers of `assign_task` after the send. -/
def assigned (s : Server τ) (tid : Int32) (task : TaskEntry τ) (ok : Bool) (site : Site) :
    Server τ :=
  match task.assignTask ok, site with
  | .ok _, .schedule => { s with stack := .scheduled tid :: s.stack, control := .switching tid }
  | .ok _, .wake => { s with stack := .wakeRunning tid :: s.stack, control := .switching tid }
  | .error failed_task, .schedule => (s.requeue tid failed_task).ret .ok
  | .error failed_task, .wake => ((s.requeue tid failed_task).unlock .workers).ret .ok

/-- `context_switch_worker` after its system call. -/
def switched (s : Server τ) (a : SwitchAnswer) (errno : Int) : Server τ :=
  if a.ret ≠ 0 then s.ret (.err (.systemError errno))
  else { s with stack := .switchEvents a.reported :: s.stack, control := .ret .ok }

/-- The caller of the function that returned `r` goes on. -/
def resume (s : Server τ) (r : Outcome) : Server τ :=
  match s.stack with
  | [] => { s with control := .loop r }
  | .switchEvents rest :: stack =>
    match r, rest with
    | .ok, e :: rest => { s with stack := .switchEvents rest :: stack, control := .handle e }
    | .ok, [] => { s with stack := stack, control := .ret .ok }
    | .err e, _ => { s with stack := stack, control := .ret (.err e) }
  | .scheduled tid :: stack =>
    let s := { s with stack := stack }
    match r with
    | .ok => s.ret .ok
    | .err e => (s.updateWorkerStatus tid .waiting none).ret (.err e)
  | .wakeRunning tid :: stack =>
    let s := { s with stack := stack }
    match r with
    | .ok => (s.unlock .workers).ret .ok
    | .err _ => ((s.updateWorkerStatus tid .waiting none).unlock .workers).ret .ok
  | .wakeBlocked :: stack => { s with stack := stack }.ret .ok

/-- One step of the thread of a server. -/
def step (s : Server τ) : Input → Option (Server τ)
  | .schedule =>
    match s.control with
    | .loop _ => some { s with control := .schedule }
    | _ => none
  | .event e =>
    match s.control with
    | .loop _ => some { s with control := .handle e }
    | _ => none
  | .tau =>
    match s.control with
    | .schedule => some s.trySchedule
    | .handle e => some (s.handleEvent e)
    | .ret r => some (s.resume r)
    | _ => none
  | .sent ok =>
    match s.control with
    | .assign tid task site => some (s.assigned tid task ok site)
    | _ => none
  | .switched a errno =>
    match s.control with
    | .switching _ => some (s.switched a errno)
    | _ => none

/-- `add_task` of a submitter: the entry is queued under the lock of the task queue. -/
def addTask (s : Server τ) (task : TaskEntry τ) : Server τ :=
  { s with queue := s.queue.enqueue task }

/-- The pool of a server with the one worker 7. -/
def oneRecord (w : Worker) : Table Int32 Worker := .const [7] (List.nodup_singleton 7) w

end Server

end Umcg.Pool
