import Umcg.Attempt2.TaskStats
import Umcg.Attempt2.Transitions
import Umcg.WorkerThread

/-!
# Servers that share one task queue

Any number of servers, each with its own workers, take their tasks from one `TaskQueue`. Tasks
are submitted from outside and from inside running tasks. A step of the fleet is a submission, a
step of one server thread or a step of one worker thread; the kernel is not constrained, so the
workers run whenever they like and the answers to the context switches are arbitrary.

`TrackedTask::new` gives each task a fresh id; here it is the number of the submission. Next to
the program's data a `Fleet` keeps the history that its properties speak about: the tasks
`add_task` accepted, those `remove_task` returned, those that were started, those that have
completed and the number of rejected submissions.
-/

namespace Umcg.Attempt2

/-- A server with the threads of its workers. -/
structure Node where
  server : Server ℕ
  worker : UInt64 → WorkerThread ℕ

/-- Servers over one task queue, with the history of the tasks. -/
structure Fleet (ι : Type) where
  queue : BoundedQueue ℕ
  stats : TaskStats
  node : ι → Node
  accepted : List ℕ
  removed : List ℕ
  started : List ℕ
  completed : List ℕ
  rejected : ℕ

/-- The steps of the threads of a fleet. -/
inductive FleetStep (ι : Type)
  /-- `TaskHandle::submit` from outside. -/
  | submit
  /-- `TaskHandle::submit` from the task that the worker `w` of the server `i` executes. -/
  | submitFrom (i : ι) (w : UInt64)
  /-- `remove_task()` by the server `i`. -/
  | remove (i : ι)
  /-- `tx.send(..)` by the server `i`. -/
  | send (i : ι)
  /-- Any other step of the server `i`. -/
  | server (i : ι) (x : Input ℕ)
  | worker (i : ι) (w : UInt64) (x : WorkerInput)
  deriving DecidableEq, Repr

namespace Fleet

variable {ι : Type} [DecidableEq ι]

/-- `TaskHandle::submit`: the task is registered, then offered to the queue. -/
def submit (f : Fleet ι) : Fleet ι :=
  let k := f.stats.total_tasks
  let f := { f with stats := f.stats.registerTask }
  match f.queue.push k with
  | some q => { f with queue := q, accepted := f.accepted ++ [k] }
  | none => { f with rejected := f.rejected + 1 }

/-- Replace the node `i`. -/
def setNode (f : Fleet ι) (i : ι) (n : Node) : Fleet ι :=
  { f with node := Function.update f.node i n }

/-- Replace the server `i`. -/
def setServer (f : Fleet ι) (i : ι) (s : Server ℕ) : Fleet ι :=
  f.setNode i { f.node i with server := s }

/-- Replace the worker `w` of the server `i`. -/
def setWorker (f : Fleet ι) (i : ι) (w : UInt64) (k : WorkerThread ℕ) : Fleet ι :=
  f.setNode i { f.node i with worker := Function.update (f.node i).worker w k }

/-- `TaskQueue::remove_task` and what the server `i` does with its result. -/
def remove (f : Fleet ι) (i : ι) : Option (Fleet ι) :=
  match f.queue.pop with
  | none => ((f.node i).server.step (.removed none)).map (f.setServer i)
  | some (k, q) => ((f.node i).server.step (.removed (some k))).map fun s =>
      { f.setServer i s with queue := q, removed := f.removed ++ [k] }

/-- The server `i` sends the task it holds. -/
def send (f : Fleet ι) (i : ι) : Option (Fleet ι) :=
  match (f.node i).server.control with
  | .sendTask w k =>
    match ((f.node i).worker w).send (.function k) with
    | some m => ((f.node i).server.step (.sent true)).map ((f.setWorker i w m).setServer i)
    | none => ((f.node i).server.step (.sent false)).map (f.setServer i)
  | _ => none

/-- A step of the worker `w` of the server `i`; the end of a task includes `mark_completed`. -/
def workerStep (f : Fleet ι) (i : ι) (w : UInt64) (x : WorkerInput) : Option (Fleet ι) :=
  let k := (f.node i).worker w
  (k.step .attempt2 x).map fun k' =>
    let f := f.setWorker i w k'
    match x with
    | .poll _ => { f with started := f.started ++ k'.executing.toList }
    | .returned =>
      { f with stats := f.stats.markCompleted, completed := f.completed ++ k.executing.toList }
    | _ => f

/-- One step of a fleet. -/
def step (f : Fleet ι) : FleetStep ι → Option (Fleet ι)
  | .submit => some f.submit
  | .submitFrom i w => if ((f.node i).worker w).executing.isSome then some f.submit else none
  | .remove i => f.remove i
  | .send i => f.send i
  | .server _ (.removed _) | .server _ (.sent _) => none
  | .server i x => ((f.node i).server.step x).map (f.setServer i)
  | .worker i w x => f.workerStep i w x

/-- No worker thread ends, neither by itself nor by a task that panics, so every receiver stays
alive. -/
def ReceiversLive (_ : Fleet ι) : FleetStep ι → Prop
  | .worker _ _ x => x ≠ .done ∧ x ≠ .panicked
  | _ => True

instance (f : Fleet ι) : (a : FleetStep ι) → Decidable (f.ReceiversLive a)
  | .worker _ _ x => inferInstanceAs (Decidable (x ≠ .done ∧ x ≠ .panicked))
  | .submit | .submitFrom _ _ | .remove _ | .send _ | .server _ _ =>
    inferInstanceAs (Decidable True)

/-- Every server has left its registration loop, the queues have room for all its workers, no
task has been submitted, and no worker has a task or has ended. -/
structure Initial (f : Fleet ι) : Prop where
  servers : ∀ i, (f.node i).server.PostRegistration
  room : ∀ i, (f.node i).server.states.keys.length ≤ (f.node i).server.running.cap
  channels : ∀ i w, ((f.node i).worker w).task_rx = []
  workers : ∀ i w, ((f.node i).worker w).executing = none ∧ ((f.node i).worker w).pc ≠ .exited
  queue : f.queue.items = []
  stats : f.stats = .new
  accepted : f.accepted = []
  removed : f.removed = []
  started : f.started = []
  completed : f.completed = []
  rejected : f.rejected = 0

end Fleet

end Umcg.Attempt2
