import Mathlib.Algebra.GroupWithZero.Nat
import Umcg.Pool.TaskStats
import Umcg.Pool.Transitions
import Umcg.WorkerThread

/-!
# The executor of `lib.rs`: submission, dispatch and execution of tasks

`Executor n` has `n` servers, each with its own queue and its own worker threads. Tasks are
submitted from outside and from inside running tasks: `submit` registers the task, draws the
number of a server and adds the task to the queue of that server, and other threads run between
these three. The kernel is not constrained: the events and the answers to the context switches
are arbitrary, and the worker threads run whenever they like.

A closure is represented by the id under which it is registered, the number of the submission;
the id of its queue entry is another `Uuid`, chosen freely. Next to the program's data the model
keeps the tasks that have completed, in that order.
-/

namespace Umcg.Pool

/-- A server with the threads of its workers; `ended` says that `run_server` has reached
`initiate_shutdown`. -/
structure Node where
  server : Server ℕ
  thread : Int32 → WorkerThread ℕ
  done : Bool
  ended : Bool

/-- How far a call of `submit` has come after `register_task`. -/
inductive Submission (n : ℕ)
  | registered
  | routed (server_idx : Fin n)
  deriving DecidableEq, Repr

/-- An executor with `n` servers; `submitter k` is the call of `submit` for the task `k`. -/
structure Executor (n : ℕ) where
  node : Fin n → Node
  next_server : ℕ
  stats : TaskStats
  submitter : ℕ → Option (Submission n)
  completed : List ℕ

/-- The steps of the threads of an executor. -/
inductive ExecutorStep (n : ℕ)
  /-- A call of `submit` registers its task. -/
  | register
  /-- The call of `submit` for the task `k` draws its server. -/
  | route (k : ℕ)
  /-- The call of `submit` for the task `k` adds it to the queue, in an entry with the id `id`. -/
  | addTask (k : ℕ) (id : ℕ)
  /-- The server `i` sends the task it holds. -/
  | send (i : Fin n)
  /-- Any other step of the server `i`. -/
  | server (i : Fin n) (x : Input)
  | worker (i : Fin n) (tid : Int32) (x : WorkerInput)
  /-- `Executor::shutdown`. -/
  | shutdown
  /-- The server `i` leaves its loop. -/
  | initiateShutdown (i : Fin n)
  deriving DecidableEq, Repr

/-- `run_server` calls one of its functions. -/
def Input.IsCall : Input → Prop
  | .schedule | .event _ => True
  | _ => False

instance : (x : Input) → Decidable x.IsCall
  | .schedule | .event _ => inferInstanceAs (Decidable True)
  | .tau | .sent _ | .switched _ _ => inferInstanceAs (Decidable False)

/-- The closure that has been taken from the queue and has not been sent yet. -/
def Server.held {τ : Type} (s : Server τ) : Option τ :=
  match s.control with
  | .assign _ task _ => task.closure
  | _ => none

namespace Executor

variable {n : ℕ}

/-- Replace the node `i`. -/
def setNode (f : Executor n) (i : Fin n) (m : Node) : Executor n :=
  { f with node := Function.update f.node i m }

/-- Replace the server `i`. -/
def setServer (f : Executor n) (i : Fin n) (s : Server ℕ) : Executor n :=
  f.setNode i { f.node i with server := s }

/-- Replace the thread `tid` of the server `i`. -/
def setThread (f : Executor n) (i : Fin n) (tid : Int32) (k : WorkerThread ℕ) : Executor n :=
  f.setNode i { f.node i with thread := Function.update (f.node i).thread tid k }

/-- Replace the call of `submit` for the task `k`. -/
def setSubmitter (f : Executor n) (k : ℕ) (c : Option (Submission n)) : Executor n :=
  { f with submitter := Function.update f.submitter k c }

/-- `submit`, up to `register_task`. -/
def register (f : Executor n) : Executor n :=
  let k := f.stats.total_tasks
  { f.setSubmitter k (some .registered) with stats := f.stats.registerTask k }

/-- `self.next_server.fetch_add(1, ..) % self.config.server_count`. -/
def route [NeZero n] (f : Executor n) (k : ℕ) : Option (Executor n) :=
  match f.submitter k with
  | some .registered =>
    some { f.setSubmitter k (some (.routed (Fin.ofNat n f.next_server))) with
      next_server := f.next_server + 1 }
  | _ => none

/-- `server.add_task(Task::Function(wrapped_task))`. -/
def addTask (f : Executor n) (k id : ℕ) : Option (Executor n) :=
  match f.submitter k with
  | some (.routed i) =>
    some ((f.setServer i ((f.node i).server.addTask (.new id k))).setSubmitter k none)
  | _ => none

/-- The server `i` is at `tx.send(..)`; an entry that has lost its closure is not sent. -/
def send (f : Executor n) (i : Fin n) : Option (Executor n) :=
  match (f.node i).server.control with
  | .assign tid task _ =>
    match task.closure with
    | some k =>
      match ((f.node i).thread tid).send (.function k) with
      | some w => ((f.node i).server.step (.sent true)).map ((f.setThread i tid w).setServer i)
      | none => ((f.node i).server.step (.sent false)).map (f.setServer i)
    | none => ((f.node i).server.step (.sent true)).map (f.setServer i)
  | _ => none

/-- The closure that `submit` has made of a task ends with `mark_completed`, which a task that
panics does not reach. -/
def returned (f : Executor n) : WorkerInput → Option ℕ → Executor n
  | .returned, some k =>
    { f with
      stats := f.stats.markCompleted k
      completed := f.completed ++ [k] }
  | _, _ => f

/-- A step of the thread `tid` of the server `i`. -/
def workerStep (f : Executor n) (i : Fin n) (tid : Int32) (x : WorkerInput) :
    Option (Executor n) :=
  let w := (f.node i).thread tid
  (w.step .lib x).map fun w' => (f.setThread i tid w').returned x w.executing

/-- `Executor::shutdown`: every server is told to leave its loop. -/
def shutdown (f : Executor n) : Executor n :=
  { f with node := fun i => { f.node i with done := true } }

/-- `initiate_shutdown`: `Task::Shutdown` is sent to every worker of the pool. -/
def initiateShutdown (f : Executor n) (i : Fin n) : Executor n :=
  let m := f.node i
  f.setNode i { m with
    thread := fun tid =>
      if tid ∈ m.server.workers.keys then ((m.thread tid).send .shutdown).getD (m.thread tid)
      else m.thread tid
    done := true
    ended := true }

/-- One step of an executor. -/
def step [NeZero n] (f : Executor n) : ExecutorStep n → Option (Executor n)
  | .register => some f.register
  | .route k => f.route k
  | .addTask k id => f.addTask k id
  | .send i => f.send i
  | .server _ (.sent _) => none
  | .server i x =>
    if x.IsCall ∧ (f.node i).ended then none
    else ((f.node i).server.step x).map (f.setServer i)
  | .worker i tid x => f.workerStep i tid x
  | .shutdown => some f.shutdown
  | .initiateShutdown i =>
    match (f.node i).server.control with
    | .loop _ => if (f.node i).done ∧ ¬ (f.node i).ended then some (f.initiateShutdown i) else none
    | _ => none

/-- The queue to which `submit` adds the task `k` is not full. -/
def hasRoom (f : Executor n) (k : ℕ) : Bool :=
  match f.submitter k with
  | some (.routed i) =>
    let q := (f.node i).server.queue.pending
    decide (q.items.length < q.cap)
  | _ => true

/-- The thread to which the server `i` sends has not ended. -/
def receiverAlive (f : Executor n) (i : Fin n) : Bool :=
  match (f.node i).server.control with
  | .assign tid _ _ => decide (((f.node i).thread tid).pc ≠ .exited)
  | _ => true

/-- Where a task can get lost: `add_task` meets a full queue, a task is sent to a thread that has
ended, a task panics, or a thread ends with tasks in its channel. -/
def NothingDropped (f : Executor n) : ExecutorStep n → Prop
  | .addTask k _ => f.hasRoom k
  | .send i => f.receiverAlive i
  | .worker _ _ .panicked => False
  | .worker i tid .done => ((f.node i).thread tid).queued = []
  | _ => True

instance (f : Executor n) : (x : ExecutorStep n) → Decidable (f.NothingDropped x)
  | .addTask k _ => inferInstanceAs (Decidable (f.hasRoom k = true))
  | .send i => inferInstanceAs (Decidable (f.receiverAlive i = true))
  | .worker _ _ .panicked => inferInstanceAs (Decidable False)
  | .worker i tid .done => inferInstanceAs (Decidable (((f.node i).thread tid).queued = []))
  | .register | .route _ | .server _ _ | .shutdown | .initiateShutdown _
  | .worker _ _ (.registered _) | .worker _ _ (.poll _) | .worker _ _ .returned
  | .worker _ _ .wait | .worker _ _ (.waited _) | .worker _ _ (.unregistered _) =>
    inferInstanceAs (Decidable True)

/-- No task has been submitted, the queues are new and no thread has a task. -/
structure Initial (f : Executor n) : Prop where
  stats : f.stats = .new
  submitter : ∀ k, f.submitter k = none
  completed : f.completed = []
  queues : ∀ i, (f.node i).server.queue = .new
  controls : ∀ i, ∃ r, (f.node i).server.control = .loop r
  channels : ∀ i tid, ((f.node i).thread tid).task_rx = []
  threads : ∀ i tid, ((f.node i).thread tid).executing = none

end Executor

end Umcg.Pool
