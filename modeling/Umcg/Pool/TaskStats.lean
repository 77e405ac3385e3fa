import Umcg.Foundation.Table

/-!
# The completion counters of `task_stats.rs`

`TaskStats` keeps a flag for every registered task and counts the registered tasks and the
completed ones. `Consistent` ties the two counters to the flags; a single unset flag then keeps
`all_tasks_completed` from returning `true`.
-/

namespace Umcg.Pool

/-- `TaskStats`; a `Uuid` is a number. The counters are `AtomicUsize` and wrap; as numbers they are
right as long as fewer than `2 ^ 64` tasks have been registered. -/
structure TaskStats where
  completed_tasks : Table ℕ Bool
  total_tasks : ℕ
  completed_count : ℕ

namespace TaskStats

/-- `TaskStats::new`. -/
def new : TaskStats := ⟨.const [] List.nodup_nil false, 0, 0⟩

/-- `register_task`. -/
def registerTask (s : TaskStats) (task_id : ℕ) : TaskStats :=
  { s with
    completed_tasks := s.completed_tasks.insert task_id false
    total_tasks := s.total_tasks + 1 }

/-- `mark_completed`. -/
def markCompleted (s : TaskStats) (task_id : ℕ) : TaskStats :=
  match s.completed_tasks.get? task_id with
  | some false =>
    { s with
      completed_tasks := s.completed_tasks.set task_id true
      completed_count := s.completed_count + 1 }
  | _ => s

/-- `all_tasks_completed`, when nothing happens between its two loads. -/
def allTasksCompleted (s : TaskStats) : Bool :=
  s.completed_count == s.total_tasks && decide (0 < s.total_tasks)

variable {s : TaskStats} {k id : ℕ}

theorem get?_registerTask : (s.registerTask id).completed_tasks.get? k =
    if k = id then some false else s.completed_tasks.get? k := s.completed_tasks.get?_insert id

/-- Marking a task sets its flag if it is registered, and changes no other flag. -/
theorem get?_markCompleted : (s.markCompleted id).completed_tasks.get? k =
    if k = id then (s.completed_tasks.get? k).map fun _ => true
    else s.completed_tasks.get? k := by
  unfold markCompleted
  split
  · rename_i hid
    rw [s.completed_tasks.get?_set (s.completed_tasks.mem_keys_of_get? hid)]
    split_ifs with hk
    · rw [hk, hid, Option.map_some]
    · rfl
  · rename_i hid
    split_ifs with hk
    · subst hk
      rcases h : s.completed_tasks.get? k with _ | _ | _
      · rfl
      · exact absurd h hid
      · rfl
    · rfl

@[simp] theorem keys_markCompleted :
    (s.markCompleted id).completed_tasks.keys = s.completed_tasks.keys := by
  unfold markCompleted
  split <;> rfl

@[simp] theorem total_tasks_markCompleted : (s.markCompleted id).total_tasks = s.total_tasks := by
  unfold markCompleted
  split <;> rfl

/-- The counters agree with the flags. -/
structure Consistent (s : TaskStats) : Prop where
  total : s.total_tasks = s.completed_tasks.keys.length
  completed : s.completed_count = s.completed_tasks.count fun flag => flag

theorem new_consistent : new.Consistent := ⟨rfl, rfl⟩

theorem Consistent.registerTask (h : s.Consistent) (hid : id ∉ s.completed_tasks.keys) :
    (s.registerTask id).Consistent where
  total := by
    simp [TaskStats.registerTask, s.completed_tasks.keys_insert_of_notMem hid, h.total]
  completed := by
    simp [TaskStats.registerTask, s.completed_tasks.count_insert_of_notMem _ hid, h.completed]

theorem Consistent.markCompleted (h : s.Consistent) (id : ℕ) : (s.markCompleted id).Consistent := by
  refine ⟨by simp [h.total], ?_⟩
  unfold TaskStats.markCompleted
  split
  · rename_i hid
    obtain ⟨hk, hv⟩ := s.completed_tasks.get?_eq_some_iff.mp hid
    have := s.completed_tasks.count_set (a := true) (fun flag => flag) hk
    simp only [hv, Bool.toNat_false, Bool.toNat_true] at this
    have := h.completed
    dsimp only
    omega
  · exact h.completed

/-- As long as one flag is not set, the tasks are not all completed. -/
theorem Consistent.allTasksCompleted_eq_false (h : s.Consistent)
    (hk : s.completed_tasks.get? k = some false) : s.allTasksCompleted = false := by
  obtain ⟨hmem, hv⟩ := s.completed_tasks.get?_eq_some_iff.mp hk
  have hlt := s.completed_tasks.count_lt (fun flag => flag) hmem hv
  have hne : s.completed_count ≠ s.total_tasks := by
    rw [h.total, h.completed]
    exact Nat.ne_of_lt hlt
  simp [allTasksCompleted, hne]

end TaskStats

end Umcg.Pool
