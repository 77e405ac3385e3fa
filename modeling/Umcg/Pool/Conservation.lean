import Umcg.Foundation.Placement
import Umcg.Foundation.Run
import Umcg.Pool.Executor

/-!
# What happens to a submitted task in `lib.rs`

A registered task is in the hands of its submitter, in the queue of a server, in the hands of that
server, in the channel of a worker, in execution or completed. Every step of the executor is
classified by what it does with the tasks (`Executor.transfer_of_step`): it hands one over, takes
in a new one, or loses some, and the last only in the four cases that `NothingDropped` excludes.

The queue drops an entry that does not fit. `assign_task` takes the closure out of the entry before
it sends it, so the entry that a failed send returns is `Completed` and `enqueue` drops it as well.
A task that panics has used its closure up and skips `mark_completed`; its thread ends, and what is
in the channel goes with it. A lost task stays lost, and the counters never report that all tasks
have completed.

## Main results

* `Executor.submitted_task_kept` : while nothing is dropped, a task that is registered and has not
  completed is at exactly one place, with its closure.
* `Executor.Kept.lost_of_step` : each of the excluded steps loses the tasks it works on.
* `Executor.Lost.run` : after a loss, `all_tasks_completed` is `false` for ever.
-/

namespace Umcg.Pool

namespace Server

variable {τ : Type} {s t : Server τ} {x : Input}

/-- A server takes a task from the front of its queue, or leaves its tasks alone. -/
theorem Move.tasks (h : Move s x t) (hx : ∀ ok, x ≠ .sent ok) :
    (t.queue.waiting = s.queue.waiting ∧ t.held = s.held) ∨
    ∃ task, s.held = none ∧ s.queue.waiting = task :: t.queue.waiting ∧ t.held = task.closure := by
  cases h with
  | take hc hw hq =>
    have hwaiting := TaskQueue.waiting_of_getNextTask hq
    exact .inr ⟨_, by simp [held, hc], by simpa using hwaiting, rfl⟩
  | wakeTake hc he hw hq =>
    have hwaiting := TaskQueue.waiting_of_getNextTask hq
    exact .inr ⟨_, by simp [held, hc], by simpa using hwaiting, rfl⟩
  | sentSchedule | sentWake | failedSchedule | failedWake => exact absurd rfl (hx _)
  | _ => exact .inl ⟨rfl, by simp [held, ret, *]⟩

/-- After the send the task is out of the hands of the server; when the send has failed, the entry
has no closure and the queue does not take it. -/
theorem Move.tasks_of_sent {ok : Bool} (h : Move s (.sent ok) t) :
    t.queue.waiting = s.queue.waiting ∧ t.held = none := by
  cases h with
  | sentSchedule | sentWake => exact ⟨rfl, rfl⟩
  | failedSchedule hc ha | failedWake hc ha =>
    obtain ⟨-, hcompleted, -⟩ := TaskEntry.assignTask_eq_error ha
    simp [requeue, hcompleted, held, ret]

end Server

namespace Executor

variable {n : ℕ}

/-- The places at which a task can be. -/
inductive Place (n : ℕ)
  /-- In the hands of its submitter, between `register_task` and `add_task`. -/
  | submitting (k : ℕ)
  /-- In the pending or the preempted queue of the server `i`. -/
  | queue (i : Fin n)
  /-- Taken by the server `i`, not yet sent. -/
  | held (i : Fin n)
  /-- In the channel of the worker `tid` of the server `i`. -/
  | channel (i : Fin n) (tid : Int32)
  /-- In execution by the worker `tid` of the server `i`. -/
  | executing (i : Fin n) (tid : Int32)
  | completed
  deriving DecidableEq, Repr

/-- The tasks at a place that have their closure. -/
def content (f : Executor n) : Place n → List ℕ
  | .submitting k => if (f.submitter k).isSome then [k] else []
  | .queue i => (f.node i).server.queue.waiting.filterMap TaskEntry.closure
  | .held i => (f.node i).server.held.toList
  | .channel i tid => ((f.node i).thread tid).queued
  | .executing i tid => ((f.node i).thread tid).executing.toList
  | .completed => f.completed

/-- The task that a step registers. -/
def registers (f : Executor n) : ExecutorStep n → Option ℕ
  | .register => some f.stats.total_tasks
  | _ => none

variable {f g : Executor n} {i : Fin n} {tid : Int32} {k : ℕ}

/-! ### Contents after an update -/

@[simp] theorem node_setServer (s : Server ℕ) (j : Fin n) : (f.setServer i s).node j =
    if j = i then { f.node i with server := s } else f.node j := by
  simp [setServer, setNode, Function.update_apply]

@[simp] theorem node_setThread (w : WorkerThread ℕ) (j : Fin n) : (f.setThread i tid w).node j =
    if j = i then { f.node i with thread := Function.update (f.node i).thread tid w }
    else f.node j := by
  simp [setThread, setNode, Function.update_apply]

theorem content_setServer (s : Server ℕ) (p : Place n) : (f.setServer i s).content p =
    if p = .queue i then s.queue.waiting.filterMap TaskEntry.closure
    else if p = .held i then s.held.toList else f.content p := by
  cases p with
  | submitting k | completed => rfl
  | queue j | held j | channel j v | executing j v => by_cases hj : j = i <;> simp [content, hj]

theorem content_setThread (w : WorkerThread ℕ) (p : Place n) : (f.setThread i tid w).content p =
    if p = .channel i tid then w.queued else if p = .executing i tid then w.executing.toList
    else f.content p := by
  cases p with
  | submitting k | completed => rfl
  | queue j | held j => by_cases hj : j = i <;> simp [content, hj]
  | channel j v | executing j v =>
    by_cases hj : j = i
    · by_cases hv : v = tid <;> simp [content, hj, hv]
    · simp [content, hj]

theorem content_setSubmitter (c : Option (Submission n)) (p : Place n) :
    (f.setSubmitter k c).content p =
      if p = .submitting k then (if c.isSome then [k] else []) else f.content p := by
  cases p with
  | submitting j => by_cases hj : j = k <;> simp [content, setSubmitter, hj]
  | queue j | held j | channel j v | executing j v | completed => simp [content, setSubmitter]

/-! ### What a step does with the tasks -/

theorem transfer_register (hnew : f.submitter f.stats.total_tasks = none) {ok : Prop} :
    Transfer ok f.content (some f.stats.total_tasks) f.register.content := by
  have hcontent : ∀ p, f.register.content p =
      (f.setSubmitter f.stats.total_tasks (some .registered)).content p := by
    intro p
    cases p <;> rfl
  refine .arrive (p := .submitting f.stats.total_tasks) rfl ?_ fun p hp => ?_
  · rw [hcontent, content_setSubmitter]
    simp [content, hnew]
  · rw [hcontent, content_setSubmitter, if_neg hp]

theorem transfer_route [NeZero n] (hg : f.route k = some g) {ok : Prop} :
    Transfer ok f.content none g.content := by
  unfold route at hg
  split at hg
  · rename_i hk
    cases hg
    refine .stay rfl fun p => ?_
    trans (f.setSubmitter k (some (.routed (Fin.ofNat n f.next_server)))).content p
    · cases p <;> rfl
    · rw [content_setSubmitter, Option.isSome_some, if_pos rfl]
      split_ifs with hp
      · simp [hp, content, hk]
      · rfl
  · cases hg

private theorem content_addTask {id : ℕ} (hk : f.submitter k = some (.routed i))
    (hg : f.addTask k id = some g) (p : Place n) : g.content p =
      if p = .submitting k then [] else if p = .queue i then
        ((f.node i).server.queue.enqueue (.new id k)).waiting.filterMap TaskEntry.closure
      else f.content p := by
  simp only [addTask, hk, Option.some.injEq] at hg
  subst hg
  rw [content_setSubmitter, content_setServer]
  split_ifs <;> simp_all [content, Server.addTask, Server.held]

/-- `add_task` drops the task when the queue is full. -/
theorem dropped_of_addTask {id : ℕ} (hg : f.addTask k id = some g) (hfull : ¬ f.hasRoom k) :
    Dropped f.content (.submitting k) g.content := by
  unfold hasRoom at hfull
  split at hfull
  · rename_i i hk
    have hnew := content_addTask hk hg
    have hle : ¬ (f.node i).server.queue.pending.items.length <
        (f.node i).server.queue.pending.cap := by simpa using hfull
    refine ⟨by simp [hnew], fun p hp => ?_⟩
    rw [hnew, if_neg hp, TaskQueue.waiting_enqueue_new, if_neg hle]
    split_ifs with hp'
    · rw [hp', content]
    · rfl
  · exact absurd rfl hfull

/-- `add_task` queues the task when there is room. -/
theorem transfer_addTask {id : ℕ} (hg : f.addTask k id = some g) :
    Transfer (f.hasRoom k) f.content none g.content := by
  by_cases hroom : f.hasRoom k
  · cases hk : f.submitter k with
    | some c =>
      cases c with
      | routed i =>
        have hnew := content_addTask hk hg
        have hlt : (f.node i).server.queue.pending.items.length <
            (f.node i).server.queue.pending.cap := by simpa [hasRoom, hk] using hroom
        refine .move (p := .submitting k) (q := .queue i) (a := k) (l := []) rfl (by simp)
          (by simp [content, hk]) (by simp [hnew]) ?_
          fun p hp hp' => by rw [hnew, if_neg hp, if_neg hp']
        simp [hnew, TaskQueue.waiting_enqueue_new, hlt]
        rfl
      | registered => simp [addTask, hk] at hg
    | none => simp [addTask, hk] at hg
  · exact .drop rfl hroom (dropped_of_addTask hg hroom)

/-- A step of the server `i` other than a send. -/
theorem transfer_setServer {x : Input} {t : Server ℕ} (hm : Server.Move (f.node i).server x t)
    (hx : ∀ ok, x ≠ .sent ok) {ok : Prop} :
    Transfer ok f.content none (f.setServer i t).content := by
  rcases hm.tasks hx with ⟨hwaiting, hheld⟩ | ⟨task, hfree, hwaiting, hheld⟩
  · refine .stay rfl fun p => ?_
    rw [content_setServer, hwaiting, hheld]
    split_ifs <;> simp [*, content]
  · have hother : ∀ p, p ≠ .queue i → p ≠ .held i →
        (f.setServer i t).content p = f.content p := by
      intro p hp hp'
      rw [content_setServer, if_neg hp, if_neg hp']
    cases hclosure : task.closure with
    | some k =>
      refine .move (p := .queue i) (q := .held i) (a := k) rfl (by simp) ?_ rfl ?_ hother
      · simp [content, hwaiting, hclosure]
      · simp [content, hfree, hheld, hclosure]
    | none =>
      refine .stay rfl fun p => ?_
      rw [content_setServer]
      split_ifs with hp hp'
      · simp [hp, content, hwaiting, hclosure]
      · simp [hp', content, hfree, hheld, hclosure]
      · rfl

/-- After a send the server holds nothing, and its queue is as it was. -/
private theorem content_of_sent {ok : Bool} {t : Server ℕ}
    (ht : (f.node i).server.step (.sent ok) = some t) (f' : Executor n) (p : Place n) :
    (f'.setServer i t).content p =
      if p = .queue i then f.content p else if p = .held i then [] else f'.content p := by
  obtain ⟨hwaiting, hnone⟩ := (Server.move_of_step ht).tasks_of_sent
  rw [content_setServer, hwaiting, hnone]
  split_ifs <;> simp [*, content]

/-- A task that is sent to a thread that has ended is lost. -/
theorem dropped_of_send (hg : f.send i = some g) (hdead : ¬ f.receiverAlive i) :
    Dropped f.content (.held i) g.content := by
  unfold receiverAlive at hdead
  split at hdead
  · rename_i tid task site hc
    have hpc : ((f.node i).thread tid).pc = .exited := by simpa using hdead
    obtain ⟨ok, t, ht, rfl⟩ : ∃ ok t, (f.node i).server.step (.sent ok) = some t ∧
        f.setServer i t = g := by
      simp only [send, hc] at hg
      split at hg
      · rw [show ((f.node i).thread tid).send _ = none by simp [WorkerThread.send, hpc]] at hg
        exact ⟨_, Option.map_eq_some_iff.mp hg⟩
      · exact ⟨_, Option.map_eq_some_iff.mp hg⟩
    refine ⟨by simp [content_of_sent ht], fun p hp => ?_⟩
    rw [content_of_sent ht, if_neg hp, ite_self]
  · exact absurd rfl hdead

/-- The server `i` sends a task to a live thread. -/
theorem transfer_send (hg : f.send i = some g) :
    Transfer (f.receiverAlive i) f.content none g.content := by
  by_cases halive : f.receiverAlive i
  · unfold send at hg
    split at hg
    · rename_i tid task site hc
      have hheld : (f.node i).server.held = task.closure := by simp [Server.held, hc]
      have hpc : ((f.node i).thread tid).pc ≠ .exited := by simpa [receiverAlive, hc] using halive
      cases hclosure : task.closure with
      | some k =>
        obtain ⟨w, hsend, hqueued, hexec, -⟩ := WorkerThread.send_eq_some hpc k
        simp only [hclosure, hsend] at hg
        obtain ⟨t, ht, rfl⟩ := Option.map_eq_some_iff.mp hg
        refine .move (p := .held i) (q := .channel i tid) (a := k) (l := []) rfl (by simp)
          (by simp [content, hheld, hclosure]) (by simp [content_of_sent ht]) ?_ fun p hp hp' => ?_
        · rw [content_of_sent ht, content_setThread]
          simp [hqueued, content]
        · rw [content_of_sent ht, if_neg hp, content_setThread, if_neg hp', hexec]
          split_ifs <;> simp [*, content]
      | none =>
        simp only [hclosure] at hg
        obtain ⟨t, ht, rfl⟩ := Option.map_eq_some_iff.mp hg
        refine .stay rfl fun p => ?_
        rw [content_of_sent ht]
        split_ifs with hp hp'
        · rfl
        · simp [hp', content, hheld, hclosure]
        · rfl
    · cases hg
  · exact .drop rfl halive (dropped_of_send hg halive)

theorem returned_of_ne {x : WorkerInput} (hx : x ≠ .returned) (e : Option ℕ) :
    f.returned x e = f := by
  cases x <;> first | rfl | exact absurd rfl hx

/-- The tasks in the channel of a thread that ends are lost. -/
theorem dropped_of_done (hg : f.workerStep i tid .done = some g) :
    Dropped f.content (.channel i tid) g.content := by
  obtain ⟨w, hw, rfl⟩ := Option.map_eq_some_iff.mp hg
  obtain ⟨hexec, hexec', hqueued⟩ := (WorkerThread.move_of_step hw).tasks_of_done
  rw [returned_of_ne (by simp)]
  refine ⟨by rw [content_setThread, if_pos rfl, hqueued], fun p hp => ?_⟩
  rw [content_setThread, if_neg hp, hexec']
  split_ifs with hp'
  · simp [hp', content, hexec]
  · rfl

/-- A task that panics is lost. -/
theorem dropped_of_panicked (hg : f.workerStep i tid .panicked = some g) :
    Dropped f.content (.executing i tid) g.content := by
  obtain ⟨w, hw, rfl⟩ := Option.map_eq_some_iff.mp hg
  obtain ⟨-, hexec, hqueued⟩ := (WorkerThread.move_of_step hw).tasks_of_panicked
  rw [returned_of_ne (by simp)]
  refine ⟨by simp [content_setThread, hexec], fun p hp => ?_⟩
  rw [content_setThread, if_neg hp, hqueued]
  split_ifs with hp'
  · rw [hp', content]
  · rfl

/-- A worker thread takes a task from its channel, completes it, or leaves the tasks alone. -/
theorem transfer_workerStep {x : WorkerInput} (hg : f.workerStep i tid x = some g) :
    Transfer (f.NothingDropped (.worker i tid x)) f.content none g.content := by
  by_cases hx : x = .done
  · subst hx
    have hd := dropped_of_done hg
    by_cases hempty : ((f.node i).thread tid).queued = []
    · refine .stay rfl fun p => ?_
      by_cases hp : p = .channel i tid
      · rw [hp, hd.gone, content, hempty]
      · exact hd.other p hp
    · exact .drop rfl hempty hd
  by_cases hpanic : x = .panicked
  · subst hpanic
    exact .drop rfl id (dropped_of_panicked hg)
  · obtain ⟨w, hw, rfl⟩ := Option.map_eq_some_iff.mp hg
    have hset : ∀ p, (f.setThread i tid w).content p = _ := content_setThread w
    rcases (WorkerThread.move_of_step hw).tasks hx hpanic with ⟨c, k, rfl, hidle, hexec, hqueued⟩ |
      ⟨k, rfl, hbusy, hexec, hqueued⟩ | ⟨hret, -, hexec, hqueued⟩
    · rw [returned_of_ne (by simp)]
      refine .move (p := .channel i tid) (q := .executing i tid) rfl (by simp) hqueued
        (by simp [hset]) ?_ fun p hp hp' => by rw [hset, if_neg hp, if_neg hp']
      simp [content, hidle, hexec]
    · have hnew : ∀ p, ((f.setThread i tid w).returned .returned (some k)).content p =
          if p = .completed then f.completed ++ [k] else (f.setThread i tid w).content p := by
        intro p
        cases p <;> rfl
      rw [hbusy]
      refine .move (p := .executing i tid) (q := .completed) (a := k) (l := []) rfl (by simp)
        (by simp [content, hbusy]) ?_ (by rw [hnew, if_pos rfl, content]) fun p hp hp' => ?_
      · rw [hnew, hset]
        simp [hexec]
      · rw [hnew, if_neg hp', hset, if_neg hp, hqueued]
        split_ifs <;> simp [*, content]
    · rw [returned_of_ne hret]
      refine .stay rfl fun p => ?_
      rw [hset, hqueued, hexec]
      split_ifs <;> simp [*, content]

theorem content_shutdown (p : Place n) : f.shutdown.content p = f.content p := by
  cases p <;> rfl

theorem content_initiateShutdown (p : Place n) :
    (f.initiateShutdown i).content p = f.content p := by
  cases p with
  | submitting | completed => rfl
  | queue j | held j =>
    by_cases hj : j = i
    · subst hj
      simp [content, initiateShutdown, setNode]
    · simp [content, initiateShutdown, setNode, hj]
  | channel j v | executing j v =>
    by_cases hj : j = i
    · subst hj
      simp only [content, initiateShutdown, setNode, Function.update_self]
      split_ifs
      · simp [WorkerThread.send_shutdown]
      · rfl
    · simp [content, initiateShutdown, setNode, hj]

theorem exists_of_step_server [NeZero n] {x : Input} (hg : f.step (.server i x) = some g) :
    (∀ ok, x ≠ .sent ok) ∧ ∃ t, (f.node i).server.step x = some t ∧ f.setServer i t = g := by
  have hmap : (if x.IsCall ∧ (f.node i).ended then none
      else ((f.node i).server.step x).map (f.setServer i)) = some g →
      ∃ t, (f.node i).server.step x = some t ∧ f.setServer i t = g := by
    intro hg
    split_ifs at hg
    exact Option.map_eq_some_iff.mp hg
  cases x with
  | sent ok => cases hg
  | _ => exact ⟨by simp, hmap hg⟩

/-- Every step of the executor hands a task over, takes in the task that it registers or leaves
the tasks alone; it loses tasks only where `NothingDropped` does not hold. -/
theorem transfer_of_step [NeZero n] {x : ExecutorStep n} (hg : f.step x = some g)
    (hnew : f.submitter f.stats.total_tasks = none) :
    Transfer (f.NothingDropped x) f.content (f.registers x) g.content := by
  cases x with
  | register =>
    cases hg
    exact transfer_register hnew
  | route k => exact transfer_route hg
  | addTask k id => exact transfer_addTask hg
  | send i => exact transfer_send hg
  | server i x =>
    obtain ⟨hx, t, ht, rfl⟩ := exists_of_step_server hg
    exact transfer_setServer (Server.move_of_step ht) hx
  | worker i tid x => exact transfer_workerStep hg
  | shutdown =>
    cases hg
    exact .stay rfl content_shutdown
  | initiateShutdown i =>
    simp only [step] at hg
    split at hg
    · split_ifs at hg
      cases hg
      exact .stay rfl content_initiateShutdown
    · cases hg

/-! ### The record of the tasks -/

/-- What a step does to the record: it registers a task, marks the task of a worker as completed,
or leaves the record alone. -/
theorem record_of_step [NeZero n] {x : ExecutorStep n} (hg : f.step x = some g) :
    (∃ k, f.registers x = some k ∧ k = f.stats.total_tasks ∧ g.stats = f.stats.registerTask k ∧
      g.completed = f.completed) ∨
    f.registers x = none ∧
      ((∃ i tid k, k ∈ f.content (.executing i tid) ∧ g.stats = f.stats.markCompleted k ∧
        g.completed = f.completed ++ [k]) ∨
      g.stats = f.stats ∧ g.completed = f.completed) := by
  cases x with
  | register =>
    cases hg
    exact .inl ⟨_, rfl, rfl, rfl, rfl⟩
  | route k =>
    simp only [step, route] at hg
    split at hg <;> cases hg
    exact .inr ⟨rfl, .inr ⟨rfl, rfl⟩⟩
  | addTask k id =>
    simp only [step, addTask] at hg
    split at hg <;> cases hg
    exact .inr ⟨rfl, .inr ⟨rfl, rfl⟩⟩
  | send i =>
    simp only [step, send] at hg
    split at hg
    · split at hg
      · split at hg <;> obtain ⟨t, ht, rfl⟩ := Option.map_eq_some_iff.mp hg <;>
          exact .inr ⟨rfl, .inr ⟨rfl, rfl⟩⟩
      · obtain ⟨t, ht, rfl⟩ := Option.map_eq_some_iff.mp hg
        exact .inr ⟨rfl, .inr ⟨rfl, rfl⟩⟩
    · cases hg
  | server i x =>
    obtain ⟨-, t, -, rfl⟩ := exists_of_step_server hg
    exact .inr ⟨rfl, .inr ⟨rfl, rfl⟩⟩
  | worker i tid x =>
    obtain ⟨w, hw, rfl⟩ := Option.map_eq_some_iff.mp hg
    by_cases hx : x = .returned
    · subst hx
      cases he : ((f.node i).thread tid).executing with
      | some k => exact .inr ⟨rfl, .inl ⟨i, tid, k, by simp [content, he], rfl, rfl⟩⟩
      | none => exact .inr ⟨rfl, .inr ⟨rfl, rfl⟩⟩
    · rw [returned_of_ne hx]
      exact .inr ⟨rfl, .inr ⟨rfl, rfl⟩⟩
  | shutdown =>
    cases hg
    exact .inr ⟨rfl, .inr ⟨rfl, rfl⟩⟩
  | initiateShutdown i =>
    simp only [step] at hg
    split at hg
    · split_ifs at hg
      cases hg
      exact .inr ⟨rfl, .inr ⟨rfl, rfl⟩⟩
    · cases hg

/-- The record agrees with the tasks, wherever they are. This holds in every run. -/
structure Recorded (f : Executor n) : Prop where
  consistent : f.stats.Consistent
  fresh : ∀ k ∈ f.stats.completed_tasks.keys, k < f.stats.total_tasks
  known : ∀ p, ∀ k ∈ f.content p, k ∈ f.stats.completed_tasks.keys
  flagged : ∀ k, f.stats.completed_tasks.get? k = some true ↔ k ∈ f.completed

theorem Initial.content_eq_nil (h : f.Initial) (p : Place n) : f.content p = [] := by
  cases p with
  | submitting k => simp [content, h.submitter k]
  | queue i => simp [content, h.queues i, TaskQueue.new, TaskQueue.waiting]
  | held i =>
    obtain ⟨r, hr⟩ := h.controls i
    simp [content, Server.held, hr]
  | channel i tid => simp [content, WorkerThread.queued, h.channels i tid]
  | executing i tid => simp [content, h.threads i tid]
  | completed => exact h.completed

theorem Initial.recorded (h : f.Initial) : f.Recorded where
  consistent := h.stats ▸ TaskStats.new_consistent
  fresh := by simp [h.stats, TaskStats.new, Table.const]
  known p k hk := by simp [h.content_eq_nil p] at hk
  flagged k := by simp [h.completed, h.stats, TaskStats.new, Table.const, Table.get?]

theorem Recorded.submitter_eq_none (h : f.Recorded) :
    f.submitter f.stats.total_tasks = none := by
  by_contra hk
  have hmem : f.stats.total_tasks ∈ f.content (.submitting f.stats.total_tasks) := by
    simp [content, Option.isSome_iff_ne_none.mpr hk]
  exact (h.fresh _ (h.known _ _ hmem)).false

theorem Recorded.total_notMem (h : f.Recorded) :
    f.stats.total_tasks ∉ f.stats.completed_tasks.keys := fun hk => (h.fresh _ hk).false

/-- The keys of the record after a step. -/
theorem Recorded.keys_of_step [NeZero n] (h : f.Recorded) {x : ExecutorStep n}
    (hg : f.step x = some g) : g.stats.completed_tasks.keys =
      f.stats.completed_tasks.keys ++ (f.registers x).toList := by
  rcases record_of_step hg with ⟨k, hr, rfl, hs, -⟩ | ⟨hr, ⟨i, tid, k, -, hs, -⟩ | ⟨hs, -⟩⟩
  · rw [hs, hr]
    exact f.stats.completed_tasks.keys_insert_of_notMem h.total_notMem
  · simp [hs, hr]
  · simp [hs, hr]

theorem Recorded.step [NeZero n] (h : f.Recorded) {x : ExecutorStep n} (hg : f.step x = some g) :
    g.Recorded := by
  have hkeys := h.keys_of_step hg
  have hknown : ∀ p, ∀ k ∈ g.content p, k ∈ g.stats.completed_tasks.keys := by
    intro p k hk
    rw [hkeys, List.mem_append, Option.mem_toList]
    exact ((transfer_of_step hg h.submitter_eq_none).mem hk).imp (fun ⟨q, hq⟩ => h.known q k hq) id
  rcases record_of_step hg with ⟨k, hr, rfl, hs, hc⟩ | ⟨hr, ⟨i, tid, k, hexec, hs, hc⟩ | ⟨hs, hc⟩⟩
  · refine ⟨hs ▸ h.consistent.registerTask h.total_notMem, fun j hj => ?_, hknown, fun j => ?_⟩
    · rw [hkeys, hr, List.mem_append] at hj
      rw [hs]
      rcases hj with hj | hj
      · exact Nat.lt_succ_of_lt (h.fresh j hj)
      · rw [List.mem_singleton.mp hj]
        exact Nat.lt_succ_self _
    · rw [hs, hc, TaskStats.get?_registerTask, ← h.flagged]
      split_ifs with hj
      · simp [hj, f.stats.completed_tasks.get?_eq_none_iff.mpr h.total_notMem]
      · rfl
  · refine ⟨hs ▸ h.consistent.markCompleted k, ?_, hknown, fun j => ?_⟩
    · simpa [hs] using h.fresh
    · rw [hs, hc, TaskStats.get?_markCompleted, List.mem_append, List.mem_singleton, ← h.flagged]
      split_ifs with hj
      · simp [hj, f.stats.completed_tasks.get?_of_mem (h.known _ k hexec)]
      · simp [hj]
  · exact ⟨hs ▸ h.consistent, hs ▸ h.fresh, hknown, fun j => by rw [hs, hc, h.flagged]⟩

/-! ### Tasks that are kept -/

/-- The registered tasks are at exactly one place each. -/
structure Kept (f : Executor n) : Prop where
  recorded : f.Recorded
  placed : Placed f.content f.stats.completed_tasks.keys

theorem Initial.kept (h : f.Initial) : f.Kept where
  recorded := h.recorded
  placed := by
    have hkeys : f.stats.completed_tasks.keys = [] := by rw [h.stats]; rfl
    exact hkeys ▸ Placed.nil.congr h.content_eq_nil

/-- A step that drops nothing. -/
theorem Kept.step [NeZero n] (h : f.Kept) {x : ExecutorStep n} (hx : f.NothingDropped x)
    (hg : f.step x = some g) : g.Kept where
  recorded := h.recorded.step hg
  placed := by
    rw [h.recorded.keys_of_step hg]
    refine h.placed.transfer (transfer_of_step hg h.recorded.submitter_eq_none) hx fun k hk => ?_
    cases x with
    | register =>
      cases hk
      exact h.recorded.total_notMem
    | _ => cases hk

theorem Kept.run [NeZero n] {l : List (ExecutorStep n)} (h : f.Kept)
    (hrun : Run (Guarded Executor.step NothingDropped) f l g) : g.Kept :=
  hrun.invariant h fun _ _ _ hI ⟨hx, hstep⟩ => hI.step hx hstep

/-- The places that outlive a step of a submitter or a server. -/
def Place.Stored : Place n → Prop
  | .queue _ | .channel _ _ | .executing _ _ => True
  | .submitting _ | .held _ | .completed => False

/-- In every state of every run in which nothing is dropped, `total_tasks` counts the registered
tasks, and each of them that has not been marked completed is, with its closure, at exactly one
place and there once: in a pending or preempted queue, in a channel or in execution, or else on its
way, in the hands of its submitter or of the server that sends it. -/
theorem submitted_task_kept [NeZero n] (f g : Executor n) (h₀ : f.Initial)
    (l : List (ExecutorStep n)) (hrun : Run (Guarded step NothingDropped) f l g) :
    g.stats.total_tasks = g.stats.completed_tasks.keys.length ∧
    ∀ k, g.stats.completed_tasks.get? k = some false → ∃ p : Place n,
      (p.Stored ∨ (p = .submitting k ∧ g.submitter k ≠ none) ∨
        ∃ i, p = .held i ∧ (g.node i).server.held = some k) ∧
      (g.content p).count k = 1 ∧ ∀ q, q ≠ p → k ∉ g.content q := by
  have h := h₀.kept.run hrun
  refine ⟨h.recorded.consistent.total, fun k hk => ?_⟩
  have hmem := g.stats.completed_tasks.mem_keys_of_get? hk
  obtain ⟨p, hcount, hother⟩ := h.placed.exists_count_eq_one hmem
  refine ⟨p, ?_, hcount, hother⟩
  have hp : k ∈ g.content p := List.count_pos_iff.mp (by rw [hcount]; exact Nat.one_pos)
  cases p with
  | queue | channel | executing => exact .inl trivial
  | submitting j =>
    refine .inr (.inl ?_)
    simp only [content] at hp
    split_ifs at hp with hj
    · rw [List.mem_singleton.mp hp]
      exact ⟨rfl, Option.isSome_iff_ne_none.mp hj⟩
    · cases hp
  | held i => exact .inr (.inr ⟨i, rfl, by simpa [content] using hp⟩)
  | completed =>
    have htrue := (h.recorded.flagged k).mpr hp
    rw [hk] at htrue
    cases htrue

/-! ### Tasks that are lost -/

/-- The task `k` is registered, has not completed and is nowhere. -/
structure Lost (f : Executor n) (k : ℕ) : Prop where
  registered : f.stats.completed_tasks.get? k = some false
  nowhere : ∀ p, k ∉ f.content p

/-- A task that is nowhere is not found again, and nothing marks it. -/
theorem Lost.step [NeZero n] (h : f.Lost k) (hr : f.Recorded) {x : ExecutorStep n}
    (hg : f.step x = some g) : g.Lost k := by
  have hkey := f.stats.completed_tasks.mem_keys_of_get? h.registered
  rcases record_of_step hg with ⟨j, hj, rfl, hs, -⟩ | ⟨hj, ⟨i, tid, j, hexec, hs, -⟩ | ⟨hs, -⟩⟩
  all_goals
    have ht := transfer_of_step hg hr.submitter_eq_none
    rw [hj] at ht
  · have hne : k ≠ f.stats.total_tasks := (hr.fresh k hkey).ne
    refine ⟨?_, ht.notMem h.nowhere fun he => hne (Option.some.inj he).symm⟩
    rw [hs, TaskStats.get?_registerTask, if_neg hne, h.registered]
  · have hne : k ≠ j := fun he => h.nowhere _ (he ▸ hexec)
    refine ⟨?_, ht.notMem h.nowhere (by simp)⟩
    rw [hs, TaskStats.get?_markCompleted, if_neg hne, h.registered]
  · exact ⟨by rw [hs, h.registered], ht.notMem h.nowhere (by simp)⟩

/-- Whatever happens after a loss, the task stays lost and `all_tasks_completed` is `false`. -/
theorem Lost.run [NeZero n] {l : List (ExecutorStep n)} (h : f.Lost k) (hr : f.Recorded)
    (hrun : Run (Guarded Executor.step fun _ _ => True) f l g) :
    g.Lost k ∧ g.stats.allTasksCompleted = false := by
  obtain ⟨hlost, hrec⟩ : g.Lost k ∧ g.Recorded := by
    refine hrun.invariant (I := fun u => u.Lost k ∧ u.Recorded) ⟨h, hr⟩ ?_
    rintro u x v ⟨hlost, hrec⟩ ⟨-, hstep⟩
    exact ⟨hlost.step hrec hstep, hrec.step hstep⟩
  exact ⟨hlost, hrec.consistent.allTasksCompleted_eq_false hlost.registered⟩

/-- The place from which a step may drop tasks. -/
def risked : ExecutorStep n → Option (Place n)
  | .addTask k _ => some (.submitting k)
  | .send i => some (.held i)
  | .worker i tid .panicked => some (.executing i tid)
  | .worker i tid .done => some (.channel i tid)
  | _ => none

private theorem dropped_of_step [NeZero n] {x : ExecutorStep n} (hx : ¬ f.NothingDropped x)
    (hg : f.step x = some g) : ∃ p, risked x = some p ∧ Dropped f.content p g.content := by
  cases x with
  | addTask k id => exact ⟨_, rfl, dropped_of_addTask hg hx⟩
  | send i => exact ⟨_, rfl, dropped_of_send hg hx⟩
  | worker i tid x =>
    cases x with
    | panicked => exact ⟨_, rfl, dropped_of_panicked hg⟩
    | done => exact ⟨_, rfl, dropped_of_done hg⟩
    | _ => exact absurd trivial hx
  | _ => exact absurd trivial hx

/-- Every step that `NothingDropped` excludes loses the tasks at the place it works on: the task
of `add_task`, the task of a failed `assign_task`, a task that panics, the tasks in a dropped
channel. -/
theorem Kept.lost_of_step [NeZero n] (h : f.Kept) {x : ExecutorStep n}
    (hx : ¬ f.NothingDropped x) (hg : f.step x = some g) :
    ∃ p, risked x = some p ∧ ∀ k ∈ f.content p, g.Lost k := by
  obtain ⟨p, hp, hd⟩ := dropped_of_step hx hg
  refine ⟨p, hp, fun k hk => ?_⟩
  have hnowhere := h.placed.notMem_of_dropped hd hk
  have hkey : k ∈ g.stats.completed_tasks.keys := by
    rw [h.recorded.keys_of_step hg]
    exact List.mem_append_left _ (h.recorded.known p k hk)
  refine ⟨?_, hnowhere⟩
  rcases hv : g.stats.completed_tasks.value k
  · rw [g.stats.completed_tasks.get?_of_mem hkey, hv]
  · have hflag : g.stats.completed_tasks.get? k = some true := by
      rw [g.stats.completed_tasks.get?_of_mem hkey, hv]
    exact absurd (((h.recorded.step hg).flagged k).mp hflag) (hnowhere .completed)

/-! ### A run with and a run without a loss -/

/-- One server with the worker 7, which waits. -/
def oneWorker : Executor 1 where
  node _ :=
    { server :=
        { workers := Server.oneRecord ⟨.waiting, none⟩
          queue := .new
          guards := .none
          stack := []
          control := .loop .ok }
      thread := fun _ => ⟨[], .waiting⟩
      done := false
      ended := false }
  next_server := 0
  stats := .new
  submitter _ := none
  completed := []

theorem oneWorker_initial : oneWorker.Initial where
  stats := rfl
  submitter _ := rfl
  completed := rfl
  queues _ := rfl
  controls _ := ⟨.ok, rfl⟩
  channels _ _ := rfl
  threads _ _ := rfl

/-- Two tasks are submitted, and the first is sent to the worker and started. -/
def dispatchRun : List (ExecutorStep 1) :=
  [.register, .route 0, .register, .addTask 0 10, .server 0 .schedule, .server 0 .tau, .send 0,
    .route 1, .worker 0 7 (.waited 0), .worker 0 7 (.poll true), .addTask 1 11]

theorem submitted_task_kept_dispatchRun : ∃ g,
    Run (Guarded step NothingDropped) oneWorker dispatchRun g ∧ g.stats.total_tasks = 2 ∧
      g.content (.executing 0 7) = [0] ∧ g.content (.queue 0) = [1] ∧
      ∀ k, g.stats.completed_tasks.get? k = some false → ∃ p : Place 1,
        (g.content p).count k = 1 ∧ ∀ q, q ≠ p → k ∉ g.content q := by
  have hrun : Run (Guarded step NothingDropped) oneWorker dispatchRun _ :=
    run_trace (by decide +kernel)
  refine ⟨_, hrun, by decide +kernel, by decide +kernel, by decide +kernel, fun k hk => ?_⟩
  obtain ⟨-, hkept⟩ := submitted_task_kept oneWorker _ oneWorker_initial dispatchRun hrun
  obtain ⟨p, -, hp⟩ := hkept k hk
  exact ⟨p, hp⟩

/-- The `Wait` of the worker fails, the assertion ends its thread, and the next task is sent to
it. -/
def deadReceiver : List (ExecutorStep 1) :=
  [.worker 0 7 (.waited (-1)), .worker 0 7 .done, .register, .route 0, .addTask 0 10,
    .server 0 .schedule, .server 0 .tau, .send 0, .server 0 .tau]

/-- The send fails and `try_schedule_tasks` returns with `Ok` and without having locked a mutex
twice. The task is counted and not completed, but it is neither in the queue nor anywhere else. -/
theorem lost_deadReceiver : ∃ g,
    Run (Guarded step fun _ _ => True) oneWorker deadReceiver g ∧
      (g.node 0).server.control = .loop .ok ∧ (g.node 0).server.guards.relocked = false ∧
      g.stats.total_tasks = 1 ∧ g.stats.completed_tasks.get? 0 = some false ∧
      (g.node 0).server.queue.getNextTask = none ∧ ∀ p, 0 ∉ g.content p := by
  refine ⟨_, run_of_trace rfl, by decide, by decide, by decide, by decide, by decide, ?_⟩
  -- nothing is dropped before the send, so the task is held by the server only
  obtain ⟨u, hu⟩ : ∃ u, trace step NothingDropped oneWorker (deadReceiver.take 7) = some u :=
    ⟨_, rfl⟩
  have hkept := oneWorker_initial.kept.run (run_of_trace hu)
  cases hu
  obtain ⟨p, hp, hlost⟩ := hkept.lost_of_step (x := .send 0) (by decide) rfl
  cases hp
  have h₀ := hlost 0 (by decide)
  exact (h₀.step (hkept.recorded.step (x := .send 0) rfl) (x := .server 0 .tau) rfl).nowhere

end Executor

end Umcg.Pool
