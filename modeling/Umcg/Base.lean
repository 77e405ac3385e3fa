import Mathlib.Data.List.Basic
import Mathlib.Tactic.Common

/-!
# The interface to the UMCG system call

The constants, the event words and the answers of `umcg_ctl` that both schedulers use
(`umcg_base.rs`), and the worker status and the error type that both declare.

An event word carries the id of a worker, which is its thread id shifted by five bits, and in
the low five bits the type of the event. The kernel writes the events of a context switch into
a buffer of two words, and the callers read the buffer up to its first zero
(`SwitchAnswer.reported`).
-/

namespace Umcg

/-- `UMCG_WORKER_ID_SHIFT`. -/
def workerIdShift : UInt64 := 5

/-- `UMCG_WORKER_EVENT_MASK`. -/
def workerEventMask : UInt64 := (1 <<< workerIdShift) - 1

/-- `UmcgEventType`. -/
inductive UmcgEventType
  | block
  | wake
  | wait
  | exit
  | timeout
  | preempt
  deriving DecidableEq, Repr

namespace UmcgEventType

/-- The discriminants of the `repr(u64)` enumeration. -/
def toU64 : UmcgEventType → UInt64
  | block => 1
  | wake => 2
  | wait => 3
  | exit => 4
  | timeout => 5
  | preempt => 6

/-- `UmcgEventType::from_u64`. -/
def fromU64 (value : UInt64) : Option UmcgEventType :=
  if value = 1 then some block
  else if value = 2 then some wake
  else if value = 3 then some wait
  else if value = 4 then some exit
  else if value = 5 then some timeout
  else if value = 6 then some preempt
  else none

theorem fromU64_eq_some_iff {value : UInt64} {t : UmcgEventType} :
    fromU64 value = some t ↔ value = t.toU64 := by
  constructor
  · intro h
    unfold fromU64 at h
    split_ifs at h <;> cases h <;> assumption
  · rintro rfl
    cases t <;> decide

end UmcgEventType

/-- `event & UMCG_WORKER_EVENT_MASK`, read by `UmcgEventType::from_u64`. -/
def eventType (event : UInt64) : Option UmcgEventType :=
  UmcgEventType.fromU64 (event &&& workerEventMask)

/-- `(event >> UMCG_WORKER_ID_SHIFT) << UMCG_WORKER_ID_SHIFT`. -/
def workerId (event : UInt64) : UInt64 := (event >>> workerIdShift) <<< workerIdShift

/-- `(event >> UMCG_WORKER_ID_SHIFT) as i32`. -/
def workerTid (event : UInt64) : Int32 := (event >>> workerIdShift).toUInt32.toInt32

/-- `(tid as u64) << UMCG_WORKER_ID_SHIFT`; the cast extends the sign. -/
def shiftedId (tid : Int32) : UInt64 := tid.toInt64.toUInt64 <<< workerIdShift

/-- The word the kernel reports for an event of type `t` of the worker with id `id`. -/
def eventWord (id : UInt64) (t : UmcgEventType) : UInt64 := id ||| t.toU64

/-- A word of a known event type is not zero, so no scan of a buffer stops at it. -/
theorem ne_zero_of_eventType {event : UInt64} {t : UmcgEventType}
    (h : eventType event = some t) : event ≠ 0 := by
  rintro rfl
  revert h
  cases t <;> decide

private theorem workerId_or (a b : UInt64) :
    workerId (a ||| b) = workerId a ||| workerId b := by
  simp only [workerId, UInt64.shiftRight_or, UInt64.shiftLeft_or]

private theorem or_and_mask (a b : UInt64) : (a ||| b) &&& workerEventMask =
    (a &&& workerEventMask) ||| (b &&& workerEventMask) := by
  apply UInt64.eq_of_toBitVec_eq
  apply BitVec.eq_of_getLsbD_eq
  intro i _
  simp [Bool.and_or_distrib_right]

/-- The low five bits of a worker id are zero. -/
theorem workerId_and_mask (event : UInt64) : workerId event &&& workerEventMask = 0 := by
  apply UInt64.eq_of_toBitVec_eq
  apply BitVec.eq_of_getLsbD_eq
  intro i _
  by_cases h : i < 5
  · simp [workerId, workerIdShift, h]
  · have hmask : workerEventMask.toBitVec = 31#64 := rfl
    have hbit : Nat.testBit 31 i = false := by
      simpa [h] using Nat.testBit_two_pow_sub_one 5 i
    simp [hmask, BitVec.getLsbD_ofNat, hbit]

section Types

variable {w t : UInt64}

/-- The type of an event has no bits above the low five. -/
theorem shiftRight_of_lt (ht : t < 32) : t >>> workerIdShift = 0 := by
  apply UInt64.toNat.inj
  have hlt : t.toNat < 32 := UInt64.lt_iff_toNat_lt.mp ht
  rw [UInt64.toNat_shiftRight]
  change t.toNat >>> 5 = 0
  rw [Nat.shiftRight_eq_div_pow]
  omega

theorem and_mask_of_lt (ht : t < 32) : t &&& workerEventMask = t := by
  apply UInt64.toNat.inj
  have hlt : t.toNat < 32 := UInt64.lt_iff_toNat_lt.mp ht
  rw [UInt64.toNat_and]
  change t.toNat &&& 2 ^ 5 - 1 = t.toNat
  rw [Nat.and_two_pow_sub_one_eq_mod]
  omega

/-- The id of a word; `w` is an id when it has nothing in its low five bits. -/
theorem workerId_or_of_lt (hw : workerId w = w) (ht : t < 32) : workerId (w ||| t) = w := by
  have hzero : workerId t = 0 := by rw [workerId, shiftRight_of_lt ht, UInt64.zero_shiftLeft]
  rw [workerId_or, hw, hzero, UInt64.or_zero]

/-- The type of a word. -/
theorem or_and_mask_of_lt (hw : workerId w = w) (ht : t < 32) :
    (w ||| t) &&& workerEventMask = t := by
  rw [or_and_mask, ← hw, workerId_and_mask, UInt64.zero_or, and_mask_of_lt ht]

end Types

/-- The shifted thread id is a worker id. -/
theorem workerId_shiftedId (tid : Int32) : workerId (shiftedId tid) = shiftedId tid := by
  apply UInt64.eq_of_toBitVec_eq
  apply BitVec.eq_of_getLsbD_eq
  intro i hi
  by_cases h : i < 5
  · simp [workerId, shiftedId, workerIdShift, h]
  · have hlt : 5 + (i - 5) < 64 := by omega
    have hge : ¬ 5 + (i - 5) < 5 := by omega
    have hsub : i - 5 < 64 := by omega
    simp [workerId, shiftedId, workerIdShift, h, hlt, hge, BitVec.getLsbD_eq_getElem hsub]

/-- The thread id of a word. -/
theorem workerTid_or_of_lt (tid : Int32) {t : UInt64} (ht : t < 32) :
    workerTid (shiftedId tid ||| t) = tid := by
  unfold workerTid
  rw [UInt64.shiftRight_or, shiftRight_of_lt ht, UInt64.or_zero]
  apply Int32.toBitVec.inj
  apply BitVec.eq_of_getLsbD_eq
  intro i hi
  have hlt : 5 + i < 64 := by omega
  have hge : ¬ 5 + i < 5 := by omega
  have hlt' : i < 64 := by omega
  simp [shiftedId, workerIdShift, hi, hlt, hge, hlt', BitVec.getElem_signExtend]

theorem UmcgEventType.toU64_lt (t : UmcgEventType) : t.toU64 < 32 := by
  cases t <;> decide

theorem workerId_eventWord {w : UInt64} (hw : workerId w = w) (t : UmcgEventType) :
    workerId (eventWord w t) = w := workerId_or_of_lt hw t.toU64_lt

theorem eventType_eventWord {w : UInt64} (hw : workerId w = w) (t : UmcgEventType) :
    eventType (eventWord w t) = some t :=
  UmcgEventType.fromU64_eq_some_iff.mpr (or_and_mask_of_lt hw t.toU64_lt)

theorem workerTid_eventWord (tid : Int32) (t : UmcgEventType) :
    workerTid (eventWord (shiftedId tid) t) = tid := workerTid_or_of_lt tid t.toU64_lt

/-- The return value of a system call that fills a buffer of two events, and the buffer. -/
structure SwitchAnswer where
  ret : Int
  first : UInt64
  second : UInt64
  deriving DecidableEq, Repr

namespace SwitchAnswer

/-- `events.iter().take_while(|&&e| e != 0)`. -/
def reported (a : SwitchAnswer) : List UInt64 := [a.first, a.second].takeWhile (· ≠ 0)

/-- The call failed and the kernel wrote no event. -/
def Failed (a : SwitchAnswer) : Prop := a.ret ≠ 0 ∧ a.reported = []

/-- The answer holds exactly one event, and it is an event of the worker `w`. -/
def ReportsOnly (a : SwitchAnswer) (w : UInt64) : Prop :=
  a.reported = [a.first] ∧ workerId a.first = w

instance (a : SwitchAnswer) : Decidable a.Failed := inferInstanceAs (Decidable (_ ∧ _))

instance (a : SwitchAnswer) (w : UInt64) : Decidable (a.ReportsOnly w) :=
  inferInstanceAs (Decidable (_ ∧ _))

/-- The answer of a successful switch that reports the one event `event`. -/
def report (event : UInt64) : SwitchAnswer := ⟨0, event, 0⟩

/-- The answer of a failed switch: the buffer keeps its zeros. -/
def failure : SwitchAnswer := ⟨-1, 0, 0⟩

theorem report_reported {event : UInt64} (h : event ≠ 0) : (report event).reported = [event] := by
  simp [report, reported, h]

end SwitchAnswer

/-- `WorkerStatus`, the same enumeration in both schedulers. -/
inductive WorkerStatus
  | initializing
  | registering
  | running
  | blocked
  | waiting
  | completed
  deriving DecidableEq, Repr

/-- The worker has a task. -/
def WorkerStatus.busy : WorkerStatus → Bool
  | .running | .blocked => true
  | _ => false

/-- `ServerError`; an `io::Error` is the error number it holds. -/
inductive ServerError
  | registrationFailed (err : Int)
  | workerRegistrationTimeout (worker_id : ℕ)
  | workerRegistrationFailed (worker_id : ℕ) (error : Int)
  | invalidWorkerEvent (worker_id : UInt64) (event : UInt64)
  | systemError (errno : Int)
  | contextSwitchFailed (worker_id : UInt64) (ret_code errno : Int)
  | queueFull
  | noServerFound
  | lockError
  deriving DecidableEq, Repr

/-- `Result<(), ServerError>`. -/
inductive Outcome
  | ok
  | err (e : ServerError)
  deriving DecidableEq, Repr

end Umcg
