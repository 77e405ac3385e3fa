import Mathlib.Data.List.Perm.Subperm
import Umcg.Foundation.Run
import Umcg.Pool.TaskStats

/-!
# The completion counters under concurrent use

`register_task` inserts a flag and then counts the task; `mark_completed` sets the flag and then
counts the completion, holding the entry of the flag meanwhile; `all_tasks_completed` loads the
two counters one after the other. `Accounting` has these accesses as steps of their own, for any
number of threads: an id is in `registering` or in `marking` while a thread is between the two
accesses, and in `registered` once its `register_task` has returned.

A flag is set before the completion is counted and a registration is counted before its flag can
be set, so at every moment the completions counted are at most the flags set, and these at most
the registrations counted. `all_tasks_completed` reads the smaller counter first.

## Main results

* `Accounting.Balanced.move` : how the counters differ from the flags at every moment.
* `Accounting.counters_sound` : the bounds, the values at rest, and what a check that returned
  `true` says.
-/

namespace Umcg.Pool

namespace TaskStats

/-- `self.completed_tasks.insert(task_id, false)`. -/
def insertFlag (s : TaskStats) (task_id : ℕ) : TaskStats :=
  { s with completed_tasks := s.completed_tasks.insert task_id false }

/-- `self.total_tasks.fetch_add(1, ..)`. -/
def countTask (s : TaskStats) : TaskStats := { s with total_tasks := s.total_tasks + 1 }

/-- `*entry = true`. -/
def setFlag (s : TaskStats) (task_id : ℕ) : TaskStats :=
  { s with completed_tasks := s.completed_tasks.set task_id true }

/-- `self.completed_count.fetch_add(1, ..)`. -/
def countCompleted (s : TaskStats) : TaskStats :=
  { s with completed_count := s.completed_count + 1 }

/-- What `all_tasks_completed` returns for the values it has loaded. -/
def checkLoads (completed total : ℕ) : Bool := completed == total && decide (0 < total)

theorem registerTask_eq (s : TaskStats) (id : ℕ) :
    s.registerTask id = (s.insertFlag id).countTask := rfl

theorem markCompleted_eq (s : TaskStats) (id : ℕ) :
    s.markCompleted id =
      if s.completed_tasks.get? id = some false then (s.setFlag id).countCompleted else s := by
  unfold markCompleted
  split
  · rw [if_pos ‹_›]
    rfl
  · rw [if_neg ‹_›]

theorem allTasksCompleted_eq (s : TaskStats) :
    s.allTasksCompleted = checkLoads s.completed_count s.total_tasks := rfl

end TaskStats

/-- The counters, the ids whose `register_task` is between its two accesses or has returned, the
ids whose `mark_completed` is between its two accesses, and what each caller of
`all_tasks_completed` has loaded. -/
structure Accounting (κ : Type) where
  stats : TaskStats
  registering : List ℕ
  registered : List ℕ
  marking : List ℕ
  loaded : κ → Option ℕ

/-- The accesses of the threads. -/
inductive Access (κ : Type)
  /-- `register_task` inserts the flag. -/
  | insert (id : ℕ)
  /-- `register_task` counts the task and returns. -/
  | count (id : ℕ)
  /-- `mark_completed` looks at the flag, and sets it if it is `false`. -/
  | flag (id : ℕ)
  /-- `mark_completed` counts the completion and releases the entry. -/
  | complete (id : ℕ)
  /-- The load of `completed_count` by the caller `c`. -/
  | load₁ (c : κ)
  /-- The load of `total_tasks` by the caller `c`, and the result of the call. -/
  | load₂ (c : κ) (result : Bool)
  deriving DecidableEq, Repr

namespace Accounting

variable {κ : Type} [DecidableEq κ]

/-- No task yet, and no call in progress. -/
def new : Accounting κ := ⟨.new, [], [], [], fun _ => none⟩

/-- One access. The entry of an id in `marking` is locked. -/
def step (s : Accounting κ) : Access κ → Option (Accounting κ)
  | .insert id =>
    some { s with stats := s.stats.insertFlag id, registering := s.registering ++ [id] }
  | .count id =>
    if id ∈ s.registering then
      some { s with
        stats := s.stats.countTask
        registering := s.registering.erase id
        registered := s.registered ++ [id] }
    else none
  | .flag id =>
    if id ∈ s.marking then none
    else if s.stats.completed_tasks.get? id = some false then
      some { s with stats := s.stats.setFlag id, marking := s.marking ++ [id] }
    else some s
  | .complete id =>
    if id ∈ s.marking then
      some { s with stats := s.stats.countCompleted, marking := s.marking.erase id }
    else none
  | .load₁ c =>
    match s.loaded c with
    | none => some { s with
        loaded := Function.update s.loaded c (some s.stats.completed_count) }
    | some _ => none
  | .load₂ c result =>
    match s.loaded c with
    | some v =>
      if result = TaskStats.checkLoads v s.stats.total_tasks then
        some { s with loaded := Function.update s.loaded c none }
      else none
    | none => none

/-- The ids that are registered are distinct, and `mark_completed` is called on ids that are not
registered or whose `register_task` has returned. -/
def Disciplined (s : Accounting κ) : Access κ → Prop
  | .insert id => id ∉ s.stats.completed_tasks.keys
  | .flag id => id ∉ s.stats.completed_tasks.keys ∨ id ∈ s.registered
  | _ => True

instance (s : Accounting κ) : (a : Access κ) → Decidable (s.Disciplined a)
  | .insert _ => inferInstanceAs (Decidable (¬ _))
  | .flag _ => inferInstanceAs (Decidable (_ ∨ _))
  | .count _ | .complete _ | .load₁ _ | .load₂ _ _ => inferInstanceAs (Decidable True)

variable {s t : Accounting κ} {a : Access κ} {c : κ}

/-- The cases of an access. -/
inductive Move (s : Accounting κ) : Access κ → Accounting κ → Prop
  | insert {id : ℕ} : Move s (.insert id)
      { s with stats := s.stats.insertFlag id, registering := s.registering ++ [id] }
  | count {id : ℕ} (hid : id ∈ s.registering) : Move s (.count id) { s with
      stats := s.stats.countTask
      registering := s.registering.erase id
      registered := s.registered ++ [id] }
  | flag {id : ℕ} (hid : s.stats.completed_tasks.get? id = some false) (hfree : id ∉ s.marking) :
      Move s (.flag id) { s with stats := s.stats.setFlag id, marking := s.marking ++ [id] }
  | flagAgain {id : ℕ} (hid : s.stats.completed_tasks.get? id ≠ some false) : Move s (.flag id) s
  | complete {id : ℕ} (hid : id ∈ s.marking) : Move s (.complete id)
      { s with stats := s.stats.countCompleted, marking := s.marking.erase id }
  | load₁ {c : κ} (hc : s.loaded c = none) : Move s (.load₁ c) { s with
      loaded := Function.update s.loaded c (some s.stats.completed_count) }
  | load₂ {c : κ} {v : ℕ} {b : Bool} (hc : s.loaded c = some v)
      (hb : b = TaskStats.checkLoads v s.stats.total_tasks) :
      Move s (.load₂ c b) { s with loaded := Function.update s.loaded c none }

theorem move_of_step (h : s.step a = some t) : s.Move a t := by
  cases a with
  | insert id =>
    cases h
    exact .insert
  | count id =>
    simp only [step] at h
    split_ifs at h with hid
    cases h
    exact .count hid
  | flag id =>
    simp only [step] at h
    split_ifs at h with hfree hid
    · cases h
      exact .flag hid hfree
    · cases h
      exact .flagAgain hid
  | complete id =>
    simp only [step] at h
    split_ifs at h with hid
    cases h
    exact .complete hid
  | load₁ c =>
    simp only [step] at h
    split at h <;> cases h
    exact .load₁ ‹_›
  | load₂ c b =>
    simp only [step] at h
    split at h
    · split_ifs at h with hb
      cases h
      exact .load₂ ‹_› hb
    · cases h

/-- The flags are those of the ids in registration or registered, the counters lag behind by the
calls in progress, and a flag is set only for an id whose `register_task` has returned. -/
structure Balanced (s : Accounting κ) : Prop where
  keys : s.stats.completed_tasks.keys.Perm (s.registered ++ s.registering)
  total : s.stats.total_tasks = s.registered.length
  completed : s.stats.completed_count + s.marking.length =
    s.stats.completed_tasks.count fun flag => flag
  flagged : ∀ id, s.stats.completed_tasks.get? id = some true → id ∈ s.registered

omit [DecidableEq κ] in
theorem new_balanced : (new : Accounting κ).Balanced := by
  refine ⟨.nil, rfl, rfl, fun id hid => ?_⟩
  cases hid

theorem Balanced.move (h : s.Balanced) (ha : s.Disciplined a) (hm : s.Move a t) : t.Balanced := by
  cases hm with
  | @insert id =>
    have hnew : id ∉ s.stats.completed_tasks.keys := ha
    refine ⟨?_, h.total, ?_, fun k hk => ?_⟩
    · simp only [TaskStats.insertFlag, Table.keys_insert_of_notMem _ hnew]
      rw [← List.append_assoc]
      exact h.keys.append_right [id]
    · simpa [TaskStats.insertFlag, Table.count_insert_of_notMem _ _ hnew] using h.completed
    · simp only [TaskStats.insertFlag, Table.get?_insert] at hk
      split_ifs at hk with hne
      · cases hk
      · exact h.flagged k hk
  | @count id hid =>
    refine ⟨h.keys.trans ?_, by simp [TaskStats.countTask, h.total], h.completed, fun k hk =>
      List.mem_append_left _ (h.flagged k hk)⟩
    rw [List.append_assoc]
    exact (List.perm_cons_erase hid).append_left _
  | @flag id hid hfree =>
    obtain ⟨hkey, hvalue⟩ := s.stats.completed_tasks.get?_eq_some_iff.mp hid
    have hreg : id ∈ s.registered := ha.resolve_left fun hnot => hnot hkey
    refine ⟨h.keys, h.total, ?_, fun k hk => ?_⟩
    · have hset := s.stats.completed_tasks.count_set (a := true) (fun flag => flag) hkey
      have hcompleted := h.completed
      simp only [hvalue, Bool.toNat_false, Bool.toNat_true] at hset
      simp only [TaskStats.setFlag, List.length_append, List.length_singleton]
      omega
    · simp only [TaskStats.setFlag, Table.get?_set _ hkey] at hk
      split_ifs at hk with heq
      · exact heq ▸ hreg
      · exact h.flagged k hk
  | flagAgain => exact h
  | @complete id hid =>
    refine ⟨h.keys, h.total, ?_, h.flagged⟩
    have hlength := (List.perm_cons_erase hid).length_eq
    have hcompleted := h.completed
    simp only [List.length_cons] at hlength
    simp only [TaskStats.countCompleted]
    omega
  | load₁ | load₂ => exact ⟨h.keys, h.total, h.completed, h.flagged⟩

theorem Balanced.run {l : List (Access κ)} (h : s.Balanced)
    (hr : Run (Guarded step Disciplined) s l t) : t.Balanced :=
  hr.invariant h fun _ _ _ hI hs => hI.move hs.1 (move_of_step hs.2)

/-- The ids whose flag is set. -/
def flagged (s : Accounting κ) : List ℕ :=
  s.stats.completed_tasks.keys.filter s.stats.completed_tasks.value

omit [DecidableEq κ] in
theorem mem_flagged {id : ℕ} :
    id ∈ s.flagged ↔ s.stats.completed_tasks.get? id = some true := by
  rw [flagged, List.mem_filter, Table.get?_eq_some_iff]

omit [DecidableEq κ] in
theorem length_flagged : s.flagged.length = s.stats.completed_tasks.count fun flag => flag :=
  List.countP_eq_length_filter.symm

omit [DecidableEq κ] in
theorem nodup_flagged : s.flagged.Nodup := s.stats.completed_tasks.nodup.filter _

omit [DecidableEq κ] in
theorem Balanced.flagged_subperm (h : s.Balanced) : s.flagged.Subperm s.registered :=
  List.subperm_of_subset nodup_flagged fun id hid => h.flagged id (mem_flagged.mp hid)

/-- What a caller has loaded stays until the call returns, and what is registered stays so. -/
theorem Move.frame {v : ℕ} (hm : s.Move a t) (hv : s.loaded c = some v)
    (ha : ∀ b, a ≠ .load₂ c b) : t.loaded c = some v ∧ s.registered ⊆ t.registered := by
  cases hm with
  | count => exact ⟨hv, List.subset_append_left _ _⟩
  | @load₁ d hd =>
    have hne : c ≠ d := fun h => by simp [← h, hv] at hd
    exact ⟨by simpa [hne] using hv, List.Subset.refl _⟩
  | @load₂ d _ _ hd =>
    have hne : c ≠ d := by
      rintro rfl
      exact ha _ rfl
    exact ⟨by simpa [hne] using hv, List.Subset.refl _⟩
  | _ => exact ⟨hv, List.Subset.refl _⟩

theorem frame_run {v : ℕ} {l : List (Access κ)} (hr : Run (Guarded step Disciplined) s l t)
    (hv : s.loaded c = some v) (hl : ∀ b, .load₂ c b ∉ l) :
    t.loaded c = some v ∧ s.registered ⊆ t.registered := by
  refine hr.invariant_of_labels (p := fun a => ∀ b, a ≠ .load₂ c b)
    (I := fun t => t.loaded c = some v ∧ s.registered ⊆ t.registered)
    (fun a ha b hb => hl b (hb ▸ ha)) ⟨hv, List.Subset.refl _⟩ ?_
  rintro u a t ⟨hu, hsub⟩ ha ⟨-, hstep⟩
  obtain ⟨ht, hsub'⟩ := (move_of_step hstep).frame hu ha
  exact ⟨ht, List.Subset.trans hsub hsub'⟩

omit [DecidableEq κ] in
/-- The first load of a check saw as many completions as the second saw registrations, so the
flags set at the first load are those of all ids registered at the second one. -/
theorem Balanced.flagged_of_check {u : Accounting κ} (hs : s.Balanced) (hu : u.Balanced)
    (hsub : s.registered ⊆ u.registered)
    (hcheck : TaskStats.checkLoads s.stats.completed_count u.stats.total_tasks = true) {id : ℕ}
    (hid : id ∈ u.registered) : s.stats.completed_tasks.get? id = some true := by
  simp only [TaskStats.checkLoads, Bool.and_eq_true, beq_iff_eq] at hcheck
  have hle : u.registered.length ≤ s.flagged.length := by
    have hcompleted := hs.completed
    have htotal := hu.total
    rw [length_flagged]
    omega
  have hsubset : s.flagged ⊆ u.registered := List.Subset.trans hs.flagged_subperm.subset hsub
  have hperm : s.flagged.Perm u.registered :=
    (List.subperm_of_subset nodup_flagged hsubset).perm_of_length_le hle
  exact mem_flagged.mp (hperm.mem_iff.mpr hid)

/-- In every state `s` that any number of threads reach: the completions counted are at most the
flags that are set, and these at most the registrations counted; when no call is in progress the
counters are exact; a mark of an id whose flag is set or missing changes nothing; and if a call of
`all_tasks_completed` makes its first load in `s` and returns `true` in `s₂`, then every id whose
`register_task` has returned in `s₂` had its flag set in `s`. -/
theorem counters_sound (s : Accounting κ) (l : List (Access κ))
    (h : Run (Guarded step Disciplined) new l s) :
    (s.stats.completed_count ≤ s.stats.completed_tasks.count (fun flag => flag) ∧
      s.stats.completed_tasks.count (fun flag => flag) ≤ s.stats.total_tasks) ∧
    (s.registering = [] → s.marking = [] →
      s.stats.completed_count = s.stats.completed_tasks.count (fun flag => flag) ∧
        s.stats.total_tasks = s.stats.completed_tasks.keys.length) ∧
    (∀ id t, s.stats.completed_tasks.get? id ≠ some false → s.step (.flag id) = some t → t = s) ∧
    ∀ c s₁ l₂ s₂ s₃, s.step (.load₁ c) = some s₁ → Run (Guarded step Disciplined) s₁ l₂ s₂ →
      (∀ b, .load₂ c b ∉ l₂) → s₂.step (.load₂ c true) = some s₃ →
      ∀ id ∈ s₂.registered, s.stats.completed_tasks.get? id = some true := by
  have hs : s.Balanced := new_balanced.run h
  have hcompleted := hs.completed
  refine ⟨⟨by omega, ?_⟩, fun hreg hmark => ⟨?_, ?_⟩, fun id t hid hstep => ?_, ?_⟩
  · rw [← length_flagged, hs.total]
    exact hs.flagged_subperm.length_le
  · simpa [hmark] using hcompleted
  · rw [hs.total, hs.keys.length_eq, hreg, List.append_nil]
  · cases move_of_step hstep with
    | flag hfalse => exact absurd hfalse hid
    | flagAgain => rfl
  · intro c s₁ l₂ s₂ s₃ hfirst hrun hcall hsecond id hid
    have hm := move_of_step hfirst
    obtain ⟨hv, hreg⟩ : s₁.loaded c = some s.stats.completed_count ∧
        s₁.registered = s.registered := by
      cases hm with
      | load₁ => exact ⟨Function.update_self .., rfl⟩
    obtain ⟨hv₂, hsub⟩ := frame_run hrun hv hcall
    have hcheck : TaskStats.checkLoads s.stats.completed_count s₂.stats.total_tasks = true := by
      cases move_of_step hsecond with
      | load₂ hc hb =>
        obtain rfl := Option.some.inj (hv₂.symm.trans hc)
        exact hb.symm
    exact hs.flagged_of_check ((hs.move (a := .load₁ c) trivial hm).run hrun) (hreg ▸ hsub)
      hcheck hid

/-- Two threads register a task each, both tasks are marked, the first one twice. -/
def twoMarked : List (Access Unit) :=
  [.insert 1, .insert 2, .count 2, .count 1, .flag 1, .flag 2, .complete 1, .flag 1, .complete 2]

/-- A third task is registered between the loads of a check that returns `true`; it is not counted
yet, and the other two had been marked. -/
theorem counters_sound_twoMarked : ∃ s s₁ s₂ s₃ : Accounting Unit,
    Run (Guarded step Disciplined) new twoMarked s ∧ s.step (.load₁ ()) = some s₁ ∧
      Run (Guarded step Disciplined) s₁ [.insert 3] s₂ ∧ s₂.step (.load₂ () true) = some s₃ ∧
      s₂.registered = [2, 1] ∧
      ∀ id ∈ s₂.registered, s.stats.completed_tasks.get? id = some true := by
  have hrun : Run (Guarded step Disciplined) (new : Accounting Unit) twoMarked _ :=
    run_of_trace rfl
  refine ⟨_, _, _, _, hrun, rfl, .single ⟨by decide, rfl⟩, rfl, rfl, ?_⟩
  exact (counters_sound _ _ hrun).2.2.2 () _ [.insert 3] _ _ rfl (.single ⟨by decide, rfl⟩)
    (by simp) rfl

end Accounting

end Umcg.Pool
