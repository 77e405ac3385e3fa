import Mathlib.Data.List.Perm.Subperm
import Umcg.Attempt2.Transitions

/-!
# The registration loop of `start_server`

A server calls `Wait` until each worker of its status table has registered. For a `WAKE` of a worker
that has not, it makes a context switch to the worker; if the switch returns zero and the worker is
in the table, the worker becomes `Waiting`, is pushed to the pending queue and counts as registered.

What `Wait` returns is arbitrary here: an error, the event of a worker of another server, the `WAKE`
of a registered worker once more, any other word, or what a `Wait` before has left in the buffer,
which is reused. `umcg_wait_retry` calls `Wait` again when it was interrupted, which has the effect
of an error here. The thread id is cut out of the word by a truncating cast, so the id that is
looked up need not be the one in the word; but the set of registered workers, the status table and
the pending queue are all accessed with the same id.

`Server.Registering` is the invariant of the loop. When the loop is left, it is the state from which
the scheduler starts (`Server.Registering.postRegistration`).

## Main results

* `Server.Registering.move` : every step of the loop keeps its invariant.
* `Server.registration_invariant` : the state at every iteration, and after the loop.
-/

namespace Umcg.Attempt2

variable {τ : Type}

/-- An answer to one of the two system calls of the registration loop. -/
def Input.Registers : Input τ → Prop
  | .waited _ | .switched _ => True
  | .schedule | .recv _ | .tau | .removed _ | .sent _ => False

instance : (i : Input τ) → Decidable i.Registers
  | .waited _ | .switched _ => .isTrue trivial
  | .schedule | .recv _ | .tau | .removed _ | .sent _ => .isFalse id

/-- `registered_workers`, inside of the registration loop. -/
def Control.registered : Control τ → Option (List UInt64)
  | registering r | registerSwitch r _ => some r
  | _ => none

namespace Server

variable {s t : Server τ} {i : Input τ} {r : List UInt64}

/-- The server before its registration loop. -/
structure Fresh (s : Server τ) : Prop where
  initializing : ∀ w ∈ s.states.keys, s.states.value w = .initializing
  room : s.states.keys.length ≤ s.pending.cap
  pending : s.pending.items = []
  running : s.running.items = []
  log : s.log = []

/-- The point of the loop with the registered workers `r`, or the end of the loop. -/
def AtRegistration (s : Server τ) (r : List UInt64) : Prop :=
  s.control = .registering r ∨ (∃ tid, s.control = .registerSwitch r tid ∧ shiftedId tid ∉ r) ∨
    s.control = .eventLoop .ok ∧ s.states.keys.length ≤ r.length

/-- The invariant of the loop: the registered workers `r`, in the order of their registration, are
workers of the table, they are the pending ones, and exactly they are `Waiting`. -/
structure Registering (s : Server τ) (r : List UInt64) : Prop where
  control : s.AtRegistration r
  subset : r ⊆ s.states.keys
  nodup : r.Nodup
  pending : s.pending.items = r
  waiting : ∀ w, s.states.get? w = some .waiting ↔ w ∈ r
  room : s.states.keys.length ≤ s.pending.cap
  running : s.running.items = []
  log : s.log = []

theorem registerNext_atRegistration (s : Server τ) (r : List UInt64) :
    (s.registerNext r).AtRegistration r := by
  unfold registerNext AtRegistration
  split_ifs with hlt
  · exact .inl rfl
  · exact .inr (.inr ⟨rfl, Nat.not_lt.mp hlt⟩)

/-- `registerNext` changes the point of control only. -/
theorem registerNext_eq (s : Server τ) (r : List UInt64) :
    ∃ c, s.registerNext r = { s with control := c } := by
  unfold registerNext
  split_ifs
  · exact ⟨_, rfl⟩
  · exact ⟨_, rfl⟩

theorem Fresh.registering (h : s.Fresh) : (s.registerNext []).Registering [] := by
  have hcontrol := registerNext_atRegistration s []
  obtain ⟨c, hc⟩ := registerNext_eq s []
  rw [hc] at hcontrol ⊢
  refine ⟨hcontrol, List.nil_subset _, List.nodup_nil, h.pending, fun w => ?_, h.room, h.running,
    h.log⟩
  change s.states.get? w = _ ↔ _
  rw [Table.get?_eq_some_iff]
  refine iff_of_false (fun hw => ?_) List.not_mem_nil
  cases (h.initializing w hw.1).symm.trans hw.2

/-- The registered workers and one more worker of the table fit into the pending queue. -/
private theorem Registering.length_lt (h : s.Registering r) {w : UInt64} (hw : w ∈ s.states.keys)
    (hnew : w ∉ r) : s.pending.items.length < s.pending.cap := by
  have hcons : (w :: r).Nodup := List.nodup_cons.mpr ⟨hnew, h.nodup⟩
  have hsub : w :: r ⊆ s.states.keys := List.cons_subset.mpr ⟨hw, h.subset⟩
  have hle := (List.subperm_of_subset hcons hsub).length_le
  have hroom := h.room
  rw [List.length_cons] at hle
  rw [h.pending]
  omega

/-- The control of the loop determines the registered workers. -/
private theorem Registering.eq_of_registering (h : s.Registering r) {r' : List UInt64}
    (hc : s.control = .registering r') : r' = r := by
  rcases h.control with hc' | ⟨tid, hc', -⟩ | ⟨hc', -⟩ <;> cases hc.symm.trans hc'
  rfl

private theorem Registering.eq_of_registerSwitch (h : s.Registering r) {r' : List UInt64}
    {tid : Int32} (hc : s.control = .registerSwitch r' tid) : r' = r ∧ shiftedId tid ∉ r := by
  rcases h.control with hc' | ⟨tid, hc', hnew⟩ | ⟨hc', -⟩ <;> cases hc.symm.trans hc'
  exact ⟨rfl, hnew⟩

/-- A step that changes the point of control only. -/
private theorem Registering.jump (h : s.Registering r) {c : Control τ}
    (hc : AtRegistration { s with control := c } r) : Registering { s with control := c } r :=
  ⟨hc, h.subset, h.nodup, h.pending, h.waiting, h.room, h.running, h.log⟩

/-- A worker of the table is registered. -/
private theorem Registering.register (h : s.Registering r) {w : UInt64} (hw : w ∈ s.states.keys)
    (hnew : w ∉ r) :
    (((s.setStatus w .waiting).pushPending w).registerNext (r ++ [w])).Registering (r ++ [w]) := by
  have hlt : (s.setStatus w .waiting).pending.items.length < (s.setStatus w .waiting).pending.cap :=
    h.length_lt hw hnew
  obtain ⟨hitems, hlog⟩ := pushPending_of_lt (w := w) hlt
  have hcontrol := registerNext_atRegistration ((s.setStatus w .waiting).pushPending w) (r ++ [w])
  obtain ⟨c, hc⟩ := registerNext_eq ((s.setStatus w .waiting).pushPending w) (r ++ [w])
  rw [hc] at hcontrol ⊢
  refine ⟨hcontrol, ?_, ?_, ?_, fun x => ?_, ?_, ?_, ?_⟩
  · simpa using List.append_subset.mpr ⟨h.subset, List.cons_subset.mpr ⟨hw, List.nil_subset _⟩⟩
  · exact h.nodup.append (List.nodup_singleton w) (by simpa [List.disjoint_singleton] using hnew)
  · rw [hitems]
    exact congrArg (· ++ [w]) h.pending
  · simp only [pushPending_states, setStatus_states]
    rw [s.states.get?_set hw, List.mem_append, List.mem_singleton, ← h.waiting]
    by_cases hx : x = w <;> simp [hx]
  · simpa using h.room
  · simpa using h.running
  · simpa [hlog] using h.log

/-- Every step of the loop keeps its invariant. -/
theorem Registering.move (h : s.Registering r) (hm : RegisterMove s i t) :
    ∃ r', t.Registering r' := by
  cases hm with
  | waitedAgain hc => exact ⟨r, h⟩
  | waitedWake hc ha he hnew =>
    obtain rfl := h.eq_of_registering hc
    exact ⟨_, h.jump (.inr (.inl ⟨_, rfl, hnew⟩))⟩
  | skipped hc ha =>
    obtain ⟨rfl, -⟩ := h.eq_of_registerSwitch hc
    exact ⟨_, h.jump (.inl rfl)⟩
  | registered hc ha hw =>
    obtain ⟨rfl, hnew⟩ := h.eq_of_registerSwitch hc
    exact ⟨_, h.register (s.states.mem_keys_of_get? hw) hnew⟩

/-- A step of the loop is a step of the registration: the loop has not been left. -/
theorem Registering.not_serving (h : s.Registering r) (hi : i.Registers)
    (hstep : s.step i = some t) : ¬ s.control.Serving := by
  rcases h.control with hc | ⟨tid, hc, -⟩ | ⟨hc, -⟩
  · simp [hc, Control.Serving]
  · simp [hc, Control.Serving]
  · cases i <;> first | exact hi.elim | simp [step, hc] at hstep

theorem Registering.run (h₀ : s.Fresh) {l : List (Input τ)}
    (hrun : Run (Guarded step fun _ => Input.Registers) (s.registerNext []) l t) :
    ∃ r, t.Registering r := by
  refine hrun.invariant (I := fun t => ∃ r, t.Registering r) ⟨[], h₀.registering⟩ ?_
  rintro u i t ⟨r, hI⟩ ⟨hi, hstep⟩
  exact hI.move (registerMove_of_step (hI.not_serving hi hstep) hstep)

/-- After the loop every worker of the table is registered. -/
theorem Registering.perm (h : s.Registering r) (hc : s.control.AtReturn) :
    r.Perm s.states.keys := by
  have hle : s.states.keys.length ≤ r.length := by
    rcases h.control with hc' | ⟨tid, hc', -⟩ | ⟨-, hle⟩
    · simp [hc', Control.AtReturn] at hc
    · simp [hc', Control.AtReturn] at hc
    · exact hle
  exact (List.subperm_of_subset h.nodup h.subset).perm_of_length_le hle

/-- The loop leaves the state from which the scheduler starts, if every worker has a channel. -/
theorem Registering.postRegistration (h : s.Registering r) (hc : s.control.AtReturn)
    (hch : ∀ w ∈ s.states.keys, w ∈ s.channels) : s.PostRegistration where
  control := hc
  waiting w hw := by
    have hmem := (h.perm hc).mem_iff.mpr hw
    exact ((s.states.get?_eq_some_iff).mp ((h.waiting w).mpr hmem)).2
  pending := h.pending ▸ h.perm hc
  running := h.running
  channels := hch
  log := h.log

theorem RegisterMove.keys (hm : RegisterMove s i t) : t.states.keys = s.states.keys := by
  cases hm <;> simp

/-- Let the table have at most as many workers as the pending queue has places, all of them
`Initializing`, and let the queues be empty. Whatever the system calls of the registration loop
answer, at every iteration the registered workers are workers of the table, they are in the pending
queue, each once and in the order of registration, exactly they are `Waiting`, and no push has
failed. When the loop is left, every worker of the table is `Waiting` and in the pending queue
once, and the running queue is empty. -/
theorem registration_invariant (s t : Server τ) (h₀ : s.Fresh) (l : List (Input τ))
    (hrun : Run (Guarded step fun _ => Input.Registers) (s.registerNext []) l t) :
    t.states.keys = s.states.keys ∧
    (∀ r, t.control.registered = some r →
      r ⊆ s.states.keys ∧ t.pending.items = r ∧ r.Nodup ∧
        ∀ w, t.states.get? w = some .waiting ↔ w ∈ r) ∧
    (∀ w, .pendingFull w ∉ t.log) ∧
    (t.control.AtReturn → (∀ w ∈ s.states.keys, t.states.get? w = some .waiting ∧
      t.pending.items.count w = 1) ∧ t.running.items = []) := by
  obtain ⟨r, hI⟩ := Registering.run h₀ hrun
  have hkeys : t.states.keys = s.states.keys := by
    refine (hrun.invariant (I := fun t => (∃ r, t.Registering r) ∧
      t.states.keys = s.states.keys) ⟨⟨[], h₀.registering⟩, by simp⟩ ?_).2
    rintro u i t ⟨⟨r, hI⟩, hkeys⟩ ⟨hi, hstep⟩
    have hm := registerMove_of_step (hI.not_serving hi hstep) hstep
    exact ⟨hI.move hm, hm.keys.trans hkeys⟩
  refine ⟨hkeys, fun r' hr' => ?_, fun w => by simp [hI.log],
    fun hc => ⟨fun w hw => ?_, hI.running⟩⟩
  · obtain rfl : r' = r := by
      rcases hI.control with hc | ⟨tid, hc, -⟩ | ⟨hc, -⟩ <;>
        simp only [hc, Control.registered, Option.some.injEq, reduceCtorEq] at hr'
      · exact hr'.symm
      · exact hr'.symm
    exact ⟨hkeys ▸ hI.subset, hI.pending, hI.nodup, hI.waiting⟩
  · have hmem := (hI.perm hc).mem_iff.mpr (hkeys ▸ hw)
    exact ⟨(hI.waiting w).mpr hmem, by rw [hI.pending, List.count_eq_one_of_mem hI.nodup hmem]⟩

/-- A server of two workers before its registration loop. -/
def twoInitializing : Server ℕ :=
  { twoWorkers with
    states := .const [32, 64] twoWorkers.states.nodup .initializing
    pending := .empty 2 }

theorem twoInitializing_fresh : twoInitializing.Fresh where
  initializing _ _ := rfl
  room := by decide
  pending := rfl
  running := rfl
  log := rfl

/-- The answers hold a failed `Wait`, a foreign worker, a failed switch, a repeated `WAKE` and the
events of the two workers. -/
def noisyRegistration : List (Input ℕ) :=
  [.waited .failure, .waited (.report (eventWord 96 .wake)), .switched (.report 0),
    .waited (.report (eventWord 64 .wake)), .switched .failure,
    .waited (.report (eventWord 64 .wake)), .switched (.report (eventWord 64 .wait)),
    .waited (.report (eventWord 64 .wake)), .waited (.report (eventWord 32 .wake)),
    .switched (.report (eventWord 32 .wait))]

theorem registration_invariant_noisy : ∃ t,
    Run (Guarded step fun _ => Input.Registers) (twoInitializing.registerNext [])
        noisyRegistration t ∧
      t.pending.items = [64, 32] ∧ ∀ w ∈ twoInitializing.states.keys,
        t.states.get? w = some .waiting ∧ t.pending.items.count w = 1 := by
  have hrun : Run (Guarded step fun _ => Input.Registers) (twoInitializing.registerNext [])
      noisyRegistration _ := run_trace (by decide +kernel)
  exact ⟨_, hrun, by decide +kernel, ((registration_invariant _ _ twoInitializing_fresh _
    hrun).2.2.2 (by decide +kernel)).1⟩

end Server

end Umcg.Attempt2
