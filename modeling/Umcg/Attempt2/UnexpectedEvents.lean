import Umcg.Attempt2.Transitions

/-!
# Events that find their worker in another state

`handle_event` acts on a `BLOCK` and on a `WAIT` of a worker that is `Running` and on a `WAKE` of a
worker that is `Blocked`. Any other event is unexpected and should be inert: no context switch, and
the statuses and both queues as they were. It returns `Ok` for these three types and an error for
all others.

The exception is the `WAIT` branch. It leaves the status of a worker that is not `Running` alone and
logs the event as unexpected, but the push to the pending queue comes after the match and is made in
both cases. So a `WAIT` of a worker of the table that is not `Running` is inert only when the push
fails (`Server.unexpected_inert_iff`).
-/

namespace Umcg.Attempt2

/-- The status of a worker in which `handle_event` expects an event of this type. -/
def expectedStatus : UmcgEventType → Option WorkerStatus
  | .block | .wait => some .running
  | .wake => some .blocked
  | .exit | .timeout | .preempt => none

namespace Server

variable {τ : Type}

/-- The event finds its worker in the table, in the state in which it is expected. -/
def Expected (s : Server τ) (event : UInt64) : Prop :=
  ∃ t st, eventType event = some t ∧ expectedStatus t = some st ∧
    s.states.get? (workerId event) = some st

/-- What `handle_event` returns for an event that it does not act on. -/
def verdict (event : UInt64) : Outcome :=
  match eventType event with
  | some .block | some .wake | some .wait => .ok
  | _ => .err (.invalidWorkerEvent (workerId event) event)

/-- From `s` to `t` a call of `handle_event` has returned `r` to `caller`, without a context switch,
and has left the statuses and both queues as they were. -/
structure Inert (s t : Server τ) (r : Outcome) (caller : Caller) : Prop where
  control : t.control = resume r caller
  states : t.states = s.states
  pending : t.pending = s.pending
  running : t.running = s.running

theorem inert_ret (s : Server τ) (r : Outcome) (caller : Caller) :
    Inert s (s.ret r caller) r caller := ⟨rfl, rfl, rfl, rfl⟩

/-- A push to the pending queue changes it unless the queue is full. -/
theorem pushPending_pending_eq_iff (s : Server τ) (w : UInt64) :
    (s.pushPending w).pending = s.pending ↔ s.pending.cap ≤ s.pending.items.length := by
  constructor
  · intro h
    by_contra hlt
    have hitems := (pushPending_of_lt (w := w) (Nat.not_le.mp hlt)).1
    rw [h] at hitems
    simp at hitems
  · intro hfull
    unfold pushPending
    rw [BoundedQueue.push_eq_none_iff.mpr hfull]
    rfl

/-- An event that does not find its worker in the state in which it is expected is inert if and only
if it is not a `WAIT` of a worker of the table, or the pending queue is full. -/
theorem unexpected_inert_iff (s : Server τ) (event : UInt64) (depth : ℕ) (caller : Caller)
    (h : ¬ s.Expected event) :
    Inert s (s.handleEvent event depth caller) (verdict event) caller ↔
      (eventType event = some .wait → workerId event ∈ s.states.keys →
        s.pending.cap ≤ s.pending.items.length) := by
  -- an expected event of this type would be one of the excluded ones
  have hne {t : UmcgEventType} {st : WorkerStatus} (ht : eventType event = some t)
      (hst : expectedStatus t = some st) :
      s.states.get? (workerId event) ≠ some st := fun hw => h ⟨t, st, ht, hst, hw⟩
  cases ht : eventType event with
  | none =>
    refine iff_of_true ?_ (by simp)
    simp only [handleEvent, verdict, ht]
    exact inert_ret s _ caller
  | some t =>
    cases t with
    | block =>
      refine iff_of_true ?_ (by simp)
      simp only [handleEvent, verdict, ht]
      split
      · exact absurd ‹_› (hne ht rfl)
      · exact inert_ret s _ caller
    | wake =>
      refine iff_of_true ?_ (by simp)
      simp only [handleEvent, verdict, ht]
      split
      · exact absurd ‹_› (hne ht rfl)
      · exact inert_ret s _ caller
    | wait =>
      simp only [handleEvent, verdict, ht, true_implies]
      split
      · exact absurd ‹_› (hne ht rfl)
      · -- the worker is pushed although its status is not `Running`
        rename_i st hst
        rw [← pushPending_pending_eq_iff s (workerId event)]
        refine ⟨fun hin _ => hin.pending, fun hfull => ⟨rfl, by simp, ?_, by simp⟩⟩
        exact hfull (s.states.mem_keys_of_get? ‹_›)
      · rename_i hnone
        exact iff_of_true (inert_ret s _ caller) fun hk =>
          absurd hk (s.states.get?_eq_none_iff.mp hnone)
    | exit | timeout | preempt =>
      refine iff_of_true ?_ (by simp)
      simp only [handleEvent, verdict, ht]
      exact inert_ret s _ caller

/-- A `WAKE` of a worker that is `Waiting`. -/
theorem unexpected_inert_wake :
    Inert twoWorkers (twoWorkers.handleEvent (eventWord 32 .wake) 0 .runEventLoop) .ok
      .runEventLoop := by
  refine (unexpected_inert_iff twoWorkers (eventWord 32 .wake) 0 .runEventLoop ?_).mpr (by decide)
  rintro ⟨t, st, ht, hst, hw⟩
  have hwake : eventType (eventWord 32 .wake) = some .wake := by decide
  cases hwake.symm.trans ht
  cases hst
  revert hw
  decide

/-- The first worker blocks in a task, no other task is queued, and a `WAIT` of it is received. -/
def waitOfBlocked : List (Input ℕ) :=
  [.schedule, .tau, .removed (some 0), .sent true, .switched (.report (eventWord 32 .block)),
    .tau, .tau, .removed none, .recv (eventWord 32 .wait)]

/-- The `WAIT` of the `Blocked` worker puts it into the pending queue. -/
theorem unexpected_wait_pushes : ∃ t,
    Run (Guarded step fun _ _ => True) twoWorkers waitOfBlocked t ∧
      t.control = .handleEvent (eventWord 32 .wait) 0 .runEventLoop ∧
      t.states.get? 32 = some .blocked ∧ t.pending.items = [64] ∧
      (t.handleEvent (eventWord 32 .wait) 0 .runEventLoop).states.get? 32 = some .blocked ∧
      (t.handleEvent (eventWord 32 .wait) 0 .runEventLoop).pending.items = [64, 32] :=
  ⟨_, run_trace (by decide +kernel), by decide +kernel, by decide +kernel, by decide +kernel,
    by decide +kernel, by decide +kernel⟩

end Server

end Umcg.Attempt2
