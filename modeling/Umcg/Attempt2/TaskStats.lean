import Umcg.Foundation.Run

/-!
# The task counters of `attempt2` and its termination detector

`TaskStats` counts the tasks that were registered and the tasks that have completed.
`all_tasks_completed` reads the two counters one after the other while tasks run and submit
further tasks, and it is sound because it reads `completed_tasks` first: at that moment no more
tasks have completed than were registered, and both counters only grow.

`Detector` is the life of the tasks next to the counters. Each access of a counter is one step.
A submission is two steps, `register_task` and then `add_task`, made from outside or by a running
task; what the submitter does between them and after them is not constrained, which only adds
interleavings. `Detector.SubmitsFromTasks` is the discipline of the demo: from outside, tasks are
submitted only before the first check.

## Main results

* `Detector.Quiet.step` : once all tasks have completed after a check, nothing is submitted.
* `Detector.all_tasks_completed_sound` : what a check that returned `true` says.
-/

namespace Umcg.Attempt2

/-- `TaskStats`. The counters are `AtomicUsize` and wrap; as numbers they are right as long as fewer
than `2 ^ 64` tasks have been registered. -/
structure TaskStats where
  total_tasks : ℕ
  completed_tasks : ℕ
  deriving DecidableEq, Repr

namespace TaskStats

/-- `TaskStats::new`. -/
def new : TaskStats := ⟨0, 0⟩

/-- `register_task`. -/
def registerTask (s : TaskStats) : TaskStats := { s with total_tasks := s.total_tasks + 1 }

/-- `mark_completed`. -/
def markCompleted (s : TaskStats) : TaskStats :=
  { s with completed_tasks := s.completed_tasks + 1 }

/-- What `all_tasks_completed` returns for the values it has loaded. -/
def allTasksCompleted (completed total : ℕ) : Bool := 0 < completed && completed == total

end TaskStats

/-- The life of a task. -/
inductive TaskPhase
  /-- Counted by `register_task`, not yet offered to the queue. -/
  | registered
  | queued
  /-- `add_task` found the queue full; the task is dropped. -/
  | rejected
  | running
  | completed
  deriving DecidableEq, Repr

/-- The counters, the tasks in the order of their registration, what each caller of
`all_tasks_completed` has loaded, and whether a check has begun. -/
structure Detector (κ : Type) where
  stats : TaskStats
  tasks : List TaskPhase
  loaded : κ → Option ℕ
  checked : Bool

/-- The atomic steps of the submitters, the tasks and the callers of `all_tasks_completed`. -/
inductive DetectorStep (κ : Type)
  /-- `register_task` from outside, or by the task `n`. -/
  | register (n : Option ℕ)
  /-- `add_task` for the registered task `n`. -/
  | addTask (n : ℕ) (accepted : Bool)
  /-- A worker starts the queued task `n`. -/
  | start (n : ℕ)
  /-- `mark_completed`, the last action of the task `n`. -/
  | markCompleted (n : ℕ)
  /-- The load of `completed_tasks` by the caller `c`. -/
  | load₁ (c : κ)
  /-- The load of `total_tasks` by the caller `c`, and the result of the call. -/
  | load₂ (c : κ) (result : Bool)
  deriving DecidableEq, Repr

namespace Detector

variable {κ : Type} [DecidableEq κ]

/-- One atomic step. -/
def step (s : Detector κ) : DetectorStep κ → Option (Detector κ)
  | .register none =>
    some { s with stats := s.stats.registerTask, tasks := s.tasks ++ [.registered] }
  | .register (some n) =>
    if s.tasks[n]? = some .running then
      some { s with stats := s.stats.registerTask, tasks := s.tasks ++ [.registered] }
    else none
  | .addTask n accepted =>
    if s.tasks[n]? = some .registered then
      some { s with tasks := s.tasks.set n (if accepted then .queued else .rejected) }
    else none
  | .start n =>
    if s.tasks[n]? = some .queued then some { s with tasks := s.tasks.set n .running } else none
  | .markCompleted n =>
    if s.tasks[n]? = some .running then
      some { s with stats := s.stats.markCompleted, tasks := s.tasks.set n .completed }
    else none
  | .load₁ c =>
    match s.loaded c with
    | none => some { s with
        loaded := Function.update s.loaded c (some s.stats.completed_tasks), checked := true }
    | some _ => none
  | .load₂ c result =>
    match s.loaded c with
    | some v =>
      if result = TaskStats.allTasksCompleted v s.stats.total_tasks then
        some { s with loaded := Function.update s.loaded c none }
      else none
    | none => none

/-- From outside, tasks are submitted only before the first check. -/
def SubmitsFromTasks (s : Detector κ) : DetectorStep κ → Prop
  | .register none => s.checked = false
  | _ => True

instance (s : Detector κ) : (a : DetectorStep κ) → Decidable (s.SubmitsFromTasks a)
  | .register none => inferInstanceAs (Decidable (s.checked = false))
  | .register (some _) | .addTask _ _ | .start _ | .markCompleted _ | .load₁ _ | .load₂ _ _ =>
    inferInstanceAs (Decidable True)

/-- No task yet, and no call of `all_tasks_completed`. -/
def new : Detector κ := ⟨.new, [], fun _ => none, false⟩

/-- The counters count the tasks. -/
structure Counted (s : Detector κ) : Prop where
  total : s.stats.total_tasks = s.tasks.length
  completed : s.stats.completed_tasks = s.tasks.count .completed

variable {s t : Detector κ} {a : DetectorStep κ} {c : κ}

/-- The cases of a step. -/
inductive Move (s : Detector κ) : DetectorStep κ → Detector κ → Prop
  | register {n : Option ℕ} (hn : ∀ k, n = some k → s.tasks[k]? = some .running) :
      Move s (.register n)
        { s with stats := s.stats.registerTask, tasks := s.tasks ++ [.registered] }
  | addTask {n : ℕ} {b : Bool} (hn : s.tasks[n]? = some .registered) :
      Move s (.addTask n b)
        { s with tasks := s.tasks.set n (if b then .queued else .rejected) }
  | start {n : ℕ} (hn : s.tasks[n]? = some .queued) :
      Move s (.start n) { s with tasks := s.tasks.set n .running }
  | markCompleted {n : ℕ} (hn : s.tasks[n]? = some .running) :
      Move s (.markCompleted n)
        { s with stats := s.stats.markCompleted, tasks := s.tasks.set n .completed }
  | load₁ {c : κ} (hc : s.loaded c = none) : Move s (.load₁ c) { s with
      loaded := Function.update s.loaded c (some s.stats.completed_tasks), checked := true }
  | load₂ {c : κ} {v : ℕ} {b : Bool} (hc : s.loaded c = some v)
      (hb : b = TaskStats.allTasksCompleted v s.stats.total_tasks) :
      Move s (.load₂ c b) { s with loaded := Function.update s.loaded c none }

theorem move_of_step (h : s.step a = some t) : s.Move a t := by
  cases a with
  | register n =>
    cases n with
    | none =>
      cases h
      exact .register (by simp)
    | some n =>
      simp only [step] at h
      split_ifs at h with hn
      cases h
      exact .register (by simpa using hn)
  | addTask n b =>
    simp only [step] at h
    split at h <;> cases h
    exact .addTask ‹_›
  | start n =>
    simp only [step] at h
    split at h <;> cases h
    exact .start ‹_›
  | markCompleted n =>
    simp only [step] at h
    split at h <;> cases h
    exact .markCompleted ‹_›
  | load₁ c =>
    simp only [step] at h
    split at h <;> cases h
    exact .load₁ ‹_›
  | load₂ c b =>
    simp only [step] at h
    split at h
    · split_ifs at h with hb
      cases h
      exact .load₂ ‹_› hb
    · cases h

/-- A task that has not completed changes its phase. -/
private theorem count_set {l : List TaskPhase} {n : ℕ} {p q : TaskPhase} (h : l[n]? = some p)
    (hp : p ≠ .completed) :
    (l.set n q).count .completed = l.count .completed + if q = .completed then 1 else 0 := by
  obtain ⟨hn, hget⟩ := List.getElem?_eq_some_iff.mp h
  rw [List.count_set hn, hget]
  by_cases hq : q = .completed <;> simp [hp, hq]

theorem Counted.move (h : s.Counted) (hm : s.Move a t) : t.Counted := by
  have htotal := h.total
  have hcompleted := h.completed
  cases hm with
  | register hn => exact ⟨by simp [TaskStats.registerTask, htotal], by
      simp [TaskStats.registerTask, hcompleted]⟩
  | @addTask n b hn => exact ⟨by simp [htotal], by
      cases b <;> simp [hcompleted, count_set hn]⟩
  | start hn => exact ⟨by simp [htotal], by simp [hcompleted, count_set hn]⟩
  | markCompleted hn => exact ⟨by simp [TaskStats.markCompleted, htotal], by
      simp [TaskStats.markCompleted, hcompleted, count_set hn]⟩
  | load₁ | load₂ => exact ⟨htotal, hcompleted⟩

/-- The tasks registered so far stay registered. -/
theorem Move.length_le (hm : s.Move a t) : s.tasks.length ≤ t.tasks.length := by
  cases hm <;> simp

/-- What a caller has loaded stays until the call returns. -/
theorem Move.loaded_eq {v : ℕ} (hm : s.Move a t) (hv : s.loaded c = some v)
    (ha : ∀ b, a ≠ .load₂ c b) : t.loaded c = some v := by
  cases hm with
  | @load₁ d hd =>
    have hne : c ≠ d := fun h => by simp [← h, hv] at hd
    simpa [hne] using hv
  | @load₂ d _ _ hd =>
    have hne : c ≠ d := by
      rintro rfl
      exact ha _ rfl
    simpa [hne] using hv
  | _ => exact hv

/-- A check has begun and all tasks have completed. -/
structure Quiet (s : Detector κ) : Prop where
  checked : s.checked = true
  completed : ∀ p ∈ s.tasks, p = .completed

/-- When all tasks have completed, no task runs that could submit another one. -/
theorem Quiet.move (h : s.Quiet) (ha : s.SubmitsFromTasks a) (hm : s.Move a t) :
    t.Quiet ∧ t.tasks = s.tasks ∧ ∀ n, a ≠ .register n := by
  have hnot : ∀ {n : ℕ} {p : TaskPhase}, s.tasks[n]? = some p → p = .completed :=
    fun hn => h.completed _ (List.mem_of_getElem? hn)
  cases hm with
  | @register n hn =>
    cases n with
    | none => simp [SubmitsFromTasks, h.checked] at ha
    | some k => simpa using hnot (hn k rfl)
  | addTask hn => simpa using hnot hn
  | start hn => simpa using hnot hn
  | markCompleted hn => simpa using hnot hn
  | load₁ hc => exact ⟨⟨rfl, h.completed⟩, rfl, by simp⟩
  | load₂ => exact ⟨⟨h.checked, h.completed⟩, rfl, by simp⟩

theorem Quiet.run (h : s.Quiet) {l : List (DetectorStep κ)}
    (hr : Run (Guarded step SubmitsFromTasks) s l t) :
    t.Quiet ∧ t.tasks = s.tasks ∧ ∀ n, .register n ∉ l := by
  refine hr.history (I := fun l t => t.Quiet ∧ t.tasks = s.tasks ∧ ∀ n, .register n ∉ l)
    ⟨h, rfl, by simp⟩ ?_
  rintro l u a t ⟨hq, htasks, hl⟩ ⟨ha, hstep⟩
  obtain ⟨hq', htasks', hne⟩ := hq.move ha (move_of_step hstep)
  refine ⟨hq', htasks'.trans htasks, fun n hn => ?_⟩
  rcases List.mem_append.mp hn with hn | hn
  · exact hl n hn
  · exact hne n (List.mem_singleton.mp hn).symm

theorem Counted.run {l : List (DetectorStep κ)}
    (hr : Run (Guarded step SubmitsFromTasks) new l t) : t.Counted :=
  hr.invariant ⟨rfl, rfl⟩ fun _ _ _ hI hs => hI.move (move_of_step hs.2)

/-- What holds of a caller between its two loads. -/
private theorem between_loads {v : ℕ} {l : List (DetectorStep κ)} (h : s.Counted)
    (hv : s.loaded c = some v) (hr : Run (Guarded step SubmitsFromTasks) s l t)
    (hl : ∀ b, .load₂ c b ∉ l) :
    t.Counted ∧ s.tasks.length ≤ t.tasks.length ∧ t.loaded c = some v := by
  refine hr.invariant_of_labels (p := fun a => ∀ b, a ≠ .load₂ c b)
    (I := fun t => t.Counted ∧ s.tasks.length ≤ t.tasks.length ∧ t.loaded c = some v)
    (fun a ha b hb => hl b (hb ▸ ha)) ⟨h, Nat.le_refl _, hv⟩ ?_
  rintro u a t ⟨hc, hle, hv⟩ ha ⟨-, hstep⟩
  have hm := move_of_step hstep
  exact ⟨hc.move hm, Nat.le_trans hle hm.length_le, hm.loaded_eq hv ha⟩

/-- Let a caller `c` of `all_tasks_completed` make its first load in the state `s` and return
`true` with its second load, after the steps `l₂`. Then in `s` every task submitted so far had
completed, no task was submitted between the loads, and none is queued, running or submitted in
any continuation `l₃`. -/
theorem all_tasks_completed_sound (c : κ) {s s₁ s₂ s₃ s₄ : Detector κ}
    {l₁ l₂ l₃ : List (DetectorStep κ)} (h₁ : Run (Guarded step SubmitsFromTasks) new l₁ s)
    (hfirst : s.step (.load₁ c) = some s₁) (h₂ : Run (Guarded step SubmitsFromTasks) s₁ l₂ s₂)
    (hcall : ∀ b, .load₂ c b ∉ l₂) (hsecond : s₂.step (.load₂ c true) = some s₃)
    (h₃ : Run (Guarded step SubmitsFromTasks) s₃ l₃ s₄) :
    (∀ p ∈ s.tasks, p = .completed) ∧
    (s₂.tasks = s.tasks ∧ ∀ n, .register n ∉ l₂) ∧
    (s₄.tasks = s.tasks ∧ ∀ n, .register n ∉ l₃) := by
  have hs := Counted.run h₁
  obtain ⟨hs₁, hv, htasks, hchecked⟩ : s₁.Counted ∧ s₁.loaded c = some s.stats.completed_tasks ∧
      s₁.tasks = s.tasks ∧ s₁.checked = true := by
    have hm := move_of_step hfirst
    refine ⟨hs.move hm, ?_⟩
    cases hm with
    | load₁ hc => exact ⟨Function.update_self .., rfl, rfl⟩
  obtain ⟨hs₂, hle, hv₂⟩ := between_loads hs₁ hv h₂ hcall
  -- the two counters agree although the second was read later, so no task was left at the first
  have hall : ∀ p ∈ s.tasks, p = .completed := by
    have heq : TaskStats.allTasksCompleted s.stats.completed_tasks s₂.stats.total_tasks = true := by
      cases move_of_step hsecond with
      | load₂ hc hb =>
        obtain rfl := Option.some.inj (hv₂.symm.trans hc)
        exact hb.symm
    simp only [TaskStats.allTasksCompleted, Bool.and_eq_true, beq_iff_eq] at heq
    have hcount : s.tasks.count .completed = s.tasks.length := by
      have := List.count_le_length (a := TaskPhase.completed) (l := s.tasks)
      have := hs.completed
      have := hs₂.total
      rw [htasks] at hle
      omega
    exact fun p hp => (List.count_eq_length.mp hcount p hp).symm
  have hquiet : s₁.Quiet := ⟨hchecked, by rwa [htasks]⟩
  obtain ⟨hquiet₂, htasks₂, hnone₂⟩ := hquiet.run h₂
  obtain ⟨hquiet₃, htasks₃, -⟩ := hquiet₂.move (a := .load₂ c true) trivial (move_of_step hsecond)
  obtain ⟨-, htasks₄, hnone₃⟩ := hquiet₃.run h₃
  exact ⟨hall, ⟨htasks₂.trans htasks, hnone₂⟩,
    htasks₄.trans (htasks₃.trans (htasks₂.trans htasks)), hnone₃⟩

/-- A task submits another one and both complete before the check. -/
theorem all_tasks_completed_sound_nested : ∃ s s₁ s₂ s₃ : Detector Unit,
    Run (Guarded step SubmitsFromTasks) new
      [.register none, .addTask 0 true, .start 0, .register (some 0), .addTask 1 true,
        .markCompleted 0, .start 1, .markCompleted 1] s ∧
    s.step (.load₁ ()) = some s₁ ∧ Run (Guarded step SubmitsFromTasks) s₁ [] s₂ ∧
    s₂.step (.load₂ () true) = some s₃ ∧ (∀ p ∈ s.tasks, p = .completed) := by
  have h₁ : Run (Guarded step SubmitsFromTasks) (new : Detector Unit)
    [.register none, .addTask 0 true, .start 0, .register (some 0), .addTask 1 true,
      .markCompleted 0, .start 1, .markCompleted 1] _ := run_of_trace rfl
  refine ⟨_, _, _, _, h₁, rfl, .nil, rfl, ?_⟩
  exact (all_tasks_completed_sound () h₁ rfl .nil (by simp) rfl .nil).1

end Detector

end Umcg.Attempt2
