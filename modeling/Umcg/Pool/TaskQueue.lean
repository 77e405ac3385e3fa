import Umcg.Base
import Umcg.Foundation.BoundedQueue

/-!
# The task queue of `lib.rs`

A server keeps its tasks in two bounded queues, one for tasks that have not started and one for
preempted ones, and in a map of the tasks in progress. A task is a closure (of the type `τ`)
inside of an entry with an id; `Worker::assign_task` takes the closure out of the entry before it
is sent to the worker, and the entry that comes back from a failed send has lost it.

The priority and the two time stamps of an entry are never read and are left out.
-/

namespace Umcg.Pool

/-- `TaskState`. -/
inductive TaskState (τ : Type)
  | pending (task_fn : τ)
  | running (worker_tid : Int32) (preempted blocked : Bool) (state : WorkerStatus)
  | completed
  deriving DecidableEq, Repr

/-- `TaskEntry`; the `Uuid` is a number. -/
structure TaskEntry (τ : Type) where
  id : ℕ
  state : TaskState τ
  deriving DecidableEq, Repr

namespace TaskEntry

variable {τ : Type}

/-- `TaskEntry::new`. -/
def new (id : ℕ) (task : τ) : TaskEntry τ := ⟨id, .pending task⟩

/-- The closure, as long as it is in the entry. -/
def closure (t : TaskEntry τ) : Option τ :=
  match t.state with
  | .pending f => some f
  | _ => none

@[simp] theorem closure_new (id : ℕ) (task : τ) : (new id task).closure = some task := rfl

/-- `Worker::assign_task`, where `ok` says that the receiver of the channel is alive: the closure
is taken out of the entry and sent, and after a failed send the entry is returned. -/
def assignTask (task : TaskEntry τ) (ok : Bool) : Except (TaskEntry τ) Unit :=
  match task.state with
  | .pending _ => if ok then .ok () else .error { task with state := .completed }
  | _ => .ok ()

theorem assignTask_true (task : TaskEntry τ) : task.assignTask true = .ok () := by
  unfold assignTask
  split <;> rfl

/-- Only a failed send returns the entry, and without its closure. -/
theorem assignTask_eq_error {task failed : TaskEntry τ} {ok : Bool}
    (h : task.assignTask ok = .error failed) :
    ok = false ∧ failed.state = .completed ∧ task.closure ≠ none := by
  unfold assignTask at h
  split at h
  · rename_i hs
    cases ok <;> cases h
    exact ⟨rfl, rfl, by simp [closure, hs]⟩
  · cases h

end TaskEntry

/-- `TaskQueue`; the map `in_progress` is the list of its entries, which are keyed by their id. -/
structure TaskQueue (τ : Type) where
  pending : BoundedQueue (TaskEntry τ)
  preempted : BoundedQueue (TaskEntry τ)
  in_progress : List (TaskEntry τ)
  deriving DecidableEq

namespace TaskQueue

variable {τ : Type} {q q' : TaskQueue τ} {t : TaskEntry τ}

/-- `TaskQueue::new`. -/
def new : TaskQueue τ := ⟨.empty 1024, .empty 1024, []⟩

/-- `TaskQueue::enqueue`. An entry that does not fit is dropped, and so is a completed one. -/
def enqueue (q : TaskQueue τ) (task : TaskEntry τ) : TaskQueue τ :=
  match task.state with
  | .pending _ => { q with pending := (q.pending.push task).getD q.pending }
  | .running _ true _ _ => { q with preempted := (q.preempted.push task).getD q.preempted }
  | .running _ false _ _ =>
    { q with in_progress := task :: q.in_progress.filter (·.id ≠ task.id) }
  | .completed => q

/-- `TaskQueue::get_next_task`: a preempted task first. -/
def getNextTask (q : TaskQueue τ) : Option (TaskEntry τ × TaskQueue τ) :=
  match q.preempted.pop with
  | some (t, p) => some (t, { q with preempted := p })
  | none => q.pending.pop.map fun (t, p) => (t, { q with pending := p })

/-- `TaskQueue::mark_in_progress`. -/
def markInProgress (q : TaskQueue τ) (task_id : ℕ) (worker_tid : Int32) : TaskQueue τ :=
  { q with
    in_progress := q.in_progress.map fun t =>
      if t.id = task_id then
        match t.state with
        | .pending _ => { t with state := .running worker_tid false false .running }
        | _ => t
      else t }

/-- `in_progress.remove(&task_id)`. -/
def removeInProgress (q : TaskQueue τ) (task_id : ℕ) : TaskQueue τ :=
  { q with in_progress := q.in_progress.filter (·.id ≠ task_id) }

/-- The entries that `get_next_task` will return, in that order. -/
def waiting (q : TaskQueue τ) : List (TaskEntry τ) := q.preempted.items ++ q.pending.items

@[simp] theorem waiting_markInProgress (id : ℕ) (tid : Int32) :
    (q.markInProgress id tid).waiting = q.waiting := rfl

@[simp] theorem waiting_removeInProgress (id : ℕ) :
    (q.removeInProgress id).waiting = q.waiting := rfl

theorem getNextTask_eq_none_iff : q.getNextTask = none ↔ q.waiting = [] := by
  unfold getNextTask waiting
  cases h : q.preempted.pop with
  | none => simp [BoundedQueue.pop_eq_none_iff, BoundedQueue.pop_eq_none_iff.mp h]
  | some x => simp [(BoundedQueue.pop_eq_some_iff.mp h).1]

/-- The entry that `get_next_task` returns leaves the front. -/
theorem waiting_of_getNextTask (h : q.getNextTask = some (t, q')) :
    q.waiting = t :: q'.waiting := by
  unfold getNextTask at h
  split at h
  · cases h
    simp [waiting, (BoundedQueue.pop_eq_some_iff.mp ‹_›).1]
  · obtain ⟨⟨t', p⟩, hp, he⟩ := Option.map_eq_some_iff.mp h
    cases he
    simp [waiting, BoundedQueue.pop_eq_none_iff.mp ‹_›, (BoundedQueue.pop_eq_some_iff.mp hp).1]

/-- A new entry joins the back of the queue if there is room, and is dropped otherwise. -/
theorem waiting_enqueue_new (id : ℕ) (f : τ) : (q.enqueue (.new id f)).waiting =
    if q.pending.items.length < q.pending.cap then q.waiting ++ [.new id f] else q.waiting := by
  change q.preempted.items ++ ((q.pending.push (.new id f)).getD q.pending).items = _
  cases h : q.pending.push (.new id f) with
  | some p =>
    obtain ⟨hlt, -, hitems⟩ := BoundedQueue.push_eq_some_iff.mp h
    simp [waiting, hlt, hitems]
  | none =>
    have hle := BoundedQueue.push_eq_none_iff.mp h
    simp [waiting, hle]

/-- The capacity of the queue for new tasks does not change. -/
theorem enqueue_cap (t : TaskEntry τ) : (q.enqueue t).pending.cap = q.pending.cap := by
  unfold enqueue
  split
  · cases h : q.pending.push t with
    | some p => simp [(BoundedQueue.push_eq_some_iff.mp h).2.1]
    | none => simp
  all_goals rfl

theorem cap_of_getNextTask (h : q.getNextTask = some (t, q')) :
    q'.pending.cap = q.pending.cap := by
  unfold getNextTask at h
  split at h
  · cases h
    rfl
  · obtain ⟨⟨t', p⟩, hp, he⟩ := Option.map_eq_some_iff.mp h
    cases he
    exact (BoundedQueue.pop_eq_some_iff.mp hp).2

/-- A completed entry is not put back. -/
@[simp] theorem enqueue_completed (h : t.state = .completed) : q.enqueue t = q := by
  simp [enqueue, h]

end TaskQueue

end Umcg.Pool
