import Umcg.Attempt2.TaskStats
import Umcg.Foundation.BoundedQueue

/-!
# Submissions to a bounded task queue

`TaskHandle::submit` counts a task with `register_task` and then offers it to the task queue with
`add_task`, which rejects it when the queue is full. The rejection is logged and the counter is not
taken back. `Intake` is the task queue next to the tasks and counters of `Detector`: whether
`add_task` accepts is what the queue says, and `remove_task` takes the oldest task. Submissions,
removals and running tasks interleave at will.

Every rejection adds one to `total_tasks` for good (`Intake.rejected_of_run`), so a submission
leaves no trace exactly when it is not rejected, and after the first rejection
`all_tasks_completed` is false for ever.

## Main results

* `Intake.detector_of_step` : every step of the intake is a step of the detector.
* `Intake.rejected_of_run` : the rejected tasks are the rejections of the run.
* `Intake.submit_noTrace_iff` : when the rejections of a run leave no trace in the counters.
-/

namespace Umcg.Attempt2

variable {κ : Type} [DecidableEq κ]

/-- The tasks and their counters, and the task queue. -/
structure Intake (κ : Type) where
  detector : Detector κ
  queue : BoundedQueue ℕ

namespace Detector

/-- The tasks that were rejected. -/
def rejected (d : Detector κ) : ℕ := d.tasks.count .rejected

/-- The tasks that are being submitted or were accepted. -/
def admitted (d : Detector κ) : ℕ := d.tasks.countP (· ≠ .rejected)

/-- From `s` to `t` the counters have counted the tasks that were not rejected, and nothing
else. -/
structure NoTrace (s t : Detector κ) : Prop where
  total : t.stats.total_tasks + s.admitted = s.stats.total_tasks + t.admitted
  completed : t.stats.completed_tasks + s.tasks.count .completed =
    s.stats.completed_tasks + t.tasks.count .completed

/-- No submission is under way, every accepted task has completed, and at least one has. -/
structure Finished (d : Detector κ) : Prop where
  all : ∀ p ∈ d.tasks, p = .completed ∨ p = .rejected
  some : .completed ∈ d.tasks

omit [DecidableEq κ] in
theorem length_tasks (d : Detector κ) : d.tasks.length = d.admitted + d.rejected := by
  rw [List.length_eq_countP_add_countP (· ≠ TaskPhase.rejected)]
  simp [admitted, rejected, List.count, beq_eq_decide]

end Detector

/-- The step is an `add_task` that finds the queue full. -/
def DetectorStep.isRejection : DetectorStep κ → Bool
  | .addTask _ accepted => !accepted
  | _ => false

namespace Detector

variable {s t : Detector κ} {a : DetectorStep κ}

private theorem count_set_of_ne {l : List TaskPhase} {n : ℕ} {p q x : TaskPhase}
    (h : l[n]? = some p) (hp : p ≠ x) :
    (l.set n q).count x = l.count x + if q = x then 1 else 0 := by
  obtain ⟨hn, hget⟩ := List.getElem?_eq_some_iff.mp h
  rw [List.count_set hn, hget]
  by_cases hq : q = x <;> simp [hp, hq]

/-- The counters advance with the tasks. -/
theorem Move.counters (hm : s.Move a t) :
    t.stats.total_tasks + s.tasks.length = s.stats.total_tasks + t.tasks.length ∧
      t.stats.completed_tasks + s.tasks.count .completed =
        s.stats.completed_tasks + t.tasks.count .completed := by
  cases hm with
  | register hn =>
    simp only [TaskStats.registerTask, List.length_append, List.length_singleton,
      List.count_append]
    exact ⟨by omega, by simp⟩
  | @addTask n b hn =>
    have hcount := count_set_of_ne (q := if b then .queued else .rejected) hn
      (x := .completed) (by simp)
    refine ⟨by simp, ?_⟩
    rw [hcount]
    cases b <;> simp
  | start hn => exact ⟨by simp, by simp [count_set_of_ne hn]⟩
  | markCompleted hn =>
    have hcount := count_set_of_ne (q := .completed) hn (x := .completed) (by simp)
    refine ⟨by simp [TaskStats.markCompleted], ?_⟩
    rw [hcount, if_pos rfl]
    simp only [TaskStats.markCompleted]
    omega
  | load₁ | load₂ => exact ⟨rfl, rfl⟩

/-- A rejection is for good, and nothing else makes a task rejected. -/
theorem Move.rejected (hm : s.Move a t) : t.rejected = s.rejected + (a.isRejection).toNat := by
  unfold Detector.rejected
  cases hm with
  | register hn => simp [DetectorStep.isRejection]
  | @addTask n b hn =>
    rw [count_set_of_ne hn (by simp)]
    cases b <;> simp [DetectorStep.isRejection]
  | start hn => simp [count_set_of_ne hn, DetectorStep.isRejection]
  | markCompleted hn => simp [count_set_of_ne hn, DetectorStep.isRejection]
  | load₁ | load₂ => rfl

omit [DecidableEq κ] in
/-- The counters agree with the tasks of a finished detector that has rejected none. -/
theorem Finished.allTasksCompleted (h : t.Finished) (hc : t.Counted) (hr : t.rejected = 0) :
    TaskStats.allTasksCompleted t.stats.completed_tasks t.stats.total_tasks = true := by
  have hall : t.tasks.count .completed = t.tasks.length := by
    refine List.count_eq_length.mpr fun p hp => ((h.all p hp).resolve_right ?_).symm
    rintro rfl
    exact List.count_eq_zero.mp hr hp
  have hpos : 0 < t.tasks.count .completed := List.count_pos_iff.mpr h.some
  have htotal := hc.total
  have hcompleted := hc.completed
  simp only [TaskStats.allTasksCompleted, Bool.and_eq_true, decide_eq_true_eq, beq_iff_eq]
  omega

end Detector

namespace Intake

/-- One atomic step: `add_task` pushes to the queue, and a task is started after `remove_task` has
returned it. -/
def step (s : Intake κ) : DetectorStep κ → Option (Intake κ)
  | .addTask n accepted =>
    match s.queue.push n, accepted with
    | some q, true => (s.detector.step (.addTask n true)).map fun d => ⟨d, q⟩
    | none, false => (s.detector.step (.addTask n false)).map fun d => ⟨d, s.queue⟩
    | _, _ => none
  | .start n =>
    match s.queue.pop with
    | some (m, q) =>
      if m = n then (s.detector.step (.start n)).map fun d => ⟨d, q⟩ else none
    | none => none
  | a => (s.detector.step a).map fun d => ⟨d, s.queue⟩

variable {s t : Intake κ} {a : DetectorStep κ} {l : List (DetectorStep κ)}

/-- What the intake does is what the detector may do. -/
theorem detector_of_step (h : s.step a = some t) : s.detector.step a = some t.detector := by
  cases a with
  | addTask n b =>
    simp only [step] at h
    split at h
    · obtain ⟨d, hd, rfl⟩ := Option.map_eq_some_iff.mp h
      exact hd
    · obtain ⟨d, hd, rfl⟩ := Option.map_eq_some_iff.mp h
      exact hd
    · cases h
  | start n =>
    simp only [step] at h
    split at h
    · split_ifs at h
      obtain ⟨d, hd, rfl⟩ := Option.map_eq_some_iff.mp h
      exact hd
    · cases h
  | _ =>
    obtain ⟨d, hd, rfl⟩ := Option.map_eq_some_iff.mp h
    exact hd

/-- `add_task` rejects a task exactly when the queue is full. -/
theorem rejects_iff {n : ℕ} {b : Bool} (h : s.step (.addTask n b) = some t) :
    b = false ↔ s.queue.cap ≤ s.queue.items.length := by
  simp only [step] at h
  split at h
  · rename_i q hq
    have hlt := (BoundedQueue.push_eq_some_iff.mp hq).1
    simpa using hlt
  · rename_i hq
    simpa using BoundedQueue.push_eq_none_iff.mp hq
  · cases h

/-- Over a run the counters advance with the tasks. -/
theorem counters_of_run (h : Run (Guarded step fun _ _ => True) s l t) :
    t.detector.stats.total_tasks + s.detector.tasks.length =
        s.detector.stats.total_tasks + t.detector.tasks.length ∧
      t.detector.stats.completed_tasks + s.detector.tasks.count .completed =
        s.detector.stats.completed_tasks + t.detector.tasks.count .completed := by
  refine h.invariant (I := fun t => t.detector.stats.total_tasks + s.detector.tasks.length =
      s.detector.stats.total_tasks + t.detector.tasks.length ∧
    t.detector.stats.completed_tasks + s.detector.tasks.count .completed =
      s.detector.stats.completed_tasks + t.detector.tasks.count .completed) ⟨rfl, rfl⟩ ?_
  rintro u a t ⟨htotal, hcompleted⟩ ⟨-, hstep⟩
  obtain ⟨htotal', hcompleted'⟩ :=
    (Detector.move_of_step (detector_of_step hstep)).counters
  exact ⟨by omega, by omega⟩

/-- The tasks that are rejected after a run are those that were before it and its rejections. -/
theorem rejected_of_run (h : Run (Guarded step fun _ _ => True) s l t) :
    t.detector.rejected = s.detector.rejected + l.countP DetectorStep.isRejection := by
  refine h.history (I := fun l t =>
    t.detector.rejected = s.detector.rejected + l.countP DetectorStep.isRejection) rfl ?_
  rintro l u a t hI ⟨-, hstep⟩
  rw [(Detector.move_of_step (detector_of_step hstep)).rejected, hI, List.countP_append,
    List.countP_singleton, Nat.add_assoc]
  cases a.isRejection <;> rfl

theorem counted_of_run (hc : s.detector.Counted) (h : Run (Guarded step fun _ _ => True) s l t) :
    t.detector.Counted :=
  h.invariant (I := fun t => t.detector.Counted) hc fun _ _ _ hI hs =>
    hI.move (Detector.move_of_step (detector_of_step hs.2))

/-- Every `add_task` finds room in the queue. -/
def RoomToAdd (s : Intake κ) : DetectorStep κ → Prop
  | .addTask _ _ => s.queue.items.length < s.queue.cap
  | _ => True

instance (s : Intake κ) : (a : DetectorStep κ) → Decidable (s.RoomToAdd a)
  | .addTask _ _ => inferInstanceAs (Decidable (_ < _))
  | .register _ | .start _ | .markCompleted _ | .load₁ _ | .load₂ _ _ =>
    inferInstanceAs (Decidable True)

/-- A step is a rejection exactly when it is an `add_task` that finds the queue full. -/
theorem isRejection_eq_false_iff (h : s.step a = some t) :
    a.isRejection = false ↔ s.RoomToAdd a := by
  cases a with
  | addTask n b =>
    have hfull := rejects_iff h
    cases b <;> simpa [DetectorStep.isRejection, RoomToAdd] using hfull
  | _ => simp [DetectorStep.isRejection, RoomToAdd]

/-- A run has no rejections exactly when every `add_task` in it has found room. -/
theorem countP_isRejection_eq_zero_iff (h : Run (Guarded step fun _ _ => True) s l t) :
    l.countP DetectorStep.isRejection = 0 ↔ Run (Guarded step RoomToAdd) s l t := by
  constructor
  · refine h.history (I := fun l t =>
      l.countP DetectorStep.isRejection = 0 → Run (Guarded step RoomToAdd) s l t)
      (fun _ => .nil) ?_
    rintro l u a t hI ⟨-, hstep⟩ hzero
    rw [List.countP_append, List.countP_singleton, Nat.add_eq_zero_iff] at hzero
    have ha : a.isRejection = false := by simpa using hzero.2
    exact (hI hzero.1).snoc ⟨(isRejection_eq_false_iff hstep).mp ha, hstep⟩
  · intro hroom
    refine hroom.history (I := fun l _ => l.countP DetectorStep.isRejection = 0) rfl ?_
    rintro l u a t hI ⟨ha, hstep⟩
    rw [List.countP_append, List.countP_singleton, hI, (isRejection_eq_false_iff hstep).mpr ha]
    rfl

/-- Let any submissions, removals and running tasks interleave, from any contents of the queue and
any values of the counters. The counters have counted the tasks that were not rejected and nothing
else, and `all_tasks_completed` returns true once every accepted task has completed (at least one
has, and none had been rejected before), if and only if every `add_task` has found room. -/
theorem submit_noTrace_iff (s t : Intake κ) (l : List (DetectorStep κ))
    (hrun : Run (Guarded step fun _ _ => True) s l t) :
    (s.detector.NoTrace t.detector ∧
      (s.detector.Counted → .rejected ∉ s.detector.tasks → t.detector.Finished →
        TaskStats.allTasksCompleted t.detector.stats.completed_tasks
          t.detector.stats.total_tasks = true)) ↔
    Run (Guarded step RoomToAdd) s l t := by
  obtain ⟨htotal, hcompleted⟩ := counters_of_run hrun
  have hrejected := rejected_of_run hrun
  have hlen := s.detector.length_tasks
  have hlen' := t.detector.length_tasks
  rw [← countP_isRejection_eq_zero_iff hrun]
  constructor
  · rintro ⟨hno, -⟩
    have := hno.total
    omega
  · intro hzero
    refine ⟨⟨by omega, hcompleted⟩, fun hc hnone hfin => ?_⟩
    have hs : s.detector.rejected = 0 := List.count_eq_zero.mpr hnone
    exact hfin.allTasksCompleted (counted_of_run hc hrun) (by omega)

/-- An empty queue with room for one task. -/
def roomForOne : Intake Unit := ⟨.new, .empty 1⟩

/-- A task submits a second one after it has left the queue, and both complete. -/
def inTurn : List (DetectorStep Unit) :=
  [.register none, .addTask 0 true, .start 0, .register (some 0), .addTask 1 true,
    .markCompleted 0, .start 1, .markCompleted 1]

theorem submit_noTrace_inTurn : ∃ t,
    Run (Guarded step fun _ _ => True) roomForOne inTurn t ∧
      Run (Guarded step RoomToAdd) roomForOne inTurn t ∧
      roomForOne.detector.NoTrace t.detector ∧ t.detector.stats = ⟨2, 2⟩ := by
  obtain ⟨t, hrun, hroom, hstats⟩ : ∃ t,
      Run (Guarded step fun _ _ => True) roomForOne inTurn t ∧
        Run (Guarded step RoomToAdd) roomForOne inTurn t ∧ t.detector.stats = ⟨2, 2⟩ :=
    ⟨_, run_of_trace rfl, run_of_trace rfl, rfl⟩
  exact ⟨t, hrun, hroom, ((submit_noTrace_iff _ _ _ hrun).mpr hroom).1, hstats⟩

/-- The second task is rejected. The first one completes, and `all_tasks_completed` stays false. -/
theorem submit_rejected_counted : ∃ s t,
    Run (Guarded step fun _ _ => True) roomForOne [.register none, .addTask 0 true] s ∧
      s.detector.stats = ⟨1, 0⟩ ∧
      Run (Guarded step fun _ _ => True) s
        [.register none, .addTask 1 false, .start 0, .markCompleted 0] t ∧
      t.detector.tasks = [.completed, .rejected] ∧ t.detector.stats = ⟨2, 1⟩ ∧
      TaskStats.allTasksCompleted t.detector.stats.completed_tasks
        t.detector.stats.total_tasks = false :=
  ⟨_, _, run_trace (by decide +kernel), by decide +kernel, run_trace (by decide +kernel),
    by decide +kernel, by decide +kernel, by decide +kernel⟩

end Intake

end Umcg.Attempt2
