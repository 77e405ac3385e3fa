import Umcg.Attempt2.Server

/-!
# Thread ids, worker ids and event words

A worker has a thread id, which the context switches take, and a worker id, the thread id shifted by
five bits, which is the key of every map of `attempt2`. The event words of the kernel carry the
worker id and, in the low five bits, a type. Ids are packed by `Worker::spawn` and `Worker::start`,
and words are unpacked in five places that differ in their shifts, masks and casts:

* `workerId` in `handle_event`, in `run_event_loop` and in `EventRoutingServer::start`;
* `shiftedId` of `workerTid` in the registration loop of `start_server`;
* `workerTid` in `handle_umcg_event` of `lib.rs`, and for the target of a context switch, where it
  is applied to a worker id (`Server.workerIdToRawTid`).

All of them agree on every thread id that is positive as an `i32` (`eventWord_roundTrip`).

`get_worker_state` takes a thread id or a worker id and tells them apart by their low five bits. A
thread id that is a multiple of 32 looks like the worker id of another thread, and
`Server.getWorkerState_eq_iff` says when the lookup is nevertheless right.
-/

namespace Umcg

variable {tid v : Int32} {t t' : UInt64}

theorem workerTid_shiftedId (tid : Int32) : workerTid (shiftedId tid) = tid := by
  simpa using workerTid_or_of_lt tid (t := 0) (by decide)

/-- The word of a type of a worker is not zero: its thread id can be read from it. -/
theorem shiftedId_or_ne_zero (htid : 0 < tid) (ht : t < 32) : shiftedId tid ||| t ≠ 0 := by
  intro h
  have htid' : workerTid (shiftedId tid ||| t) = 0 := by rw [h]; rfl
  rw [workerTid_or_of_lt tid ht] at htid'
  exact absurd (htid' ▸ htid) (by decide)

theorem shiftedId_or_inj (ht : t < 32) (ht' : t' < 32)
    (h : shiftedId tid ||| t = shiftedId v ||| t') : tid = v ∧ t = t' := by
  have htid := congrArg workerTid h
  have hmask : (shiftedId tid ||| t) &&& workerEventMask =
      (shiftedId v ||| t') &&& workerEventMask := by rw [h]
  rw [workerTid_or_of_lt tid ht, workerTid_or_of_lt v ht'] at htid
  rw [or_and_mask_of_lt (workerId_shiftedId tid) ht,
    or_and_mask_of_lt (workerId_shiftedId v) ht'] at hmask
  exact ⟨htid, hmask⟩

/-- For every thread id `0 < tid < 2 ^ 31` and every type `t < 32`, the word of the type `t` of the
worker is not zero, so no scan of a buffer stops at it; its type is `t`; the decoders give back the
worker id and the thread id; the target of a switch to the worker is the thread; and no other thread
id and type have this word. -/
theorem eventWord_roundTrip (tid : Int32) (htid : 0 < tid) (t : UInt64) (ht : t < 32) :
    shiftedId tid ||| t ≠ 0 ∧
      (∀ rest : List UInt64, ((shiftedId tid ||| t) :: rest).takeWhile (· ≠ 0) =
        (shiftedId tid ||| t) :: rest.takeWhile (· ≠ 0)) ∧
      (shiftedId tid ||| t) &&& workerEventMask = t ∧
      workerId (shiftedId tid ||| t) = shiftedId tid ∧
      shiftedId (workerTid (shiftedId tid ||| t)) = shiftedId tid ∧
      workerTid (shiftedId tid ||| t) = tid ∧ workerTid (shiftedId tid) = tid ∧
      ∀ tid' t', 0 < tid' → t' < 32 → shiftedId tid' ||| t' = shiftedId tid ||| t →
        tid' = tid ∧ t' = t := by
  have hne : shiftedId tid ||| t ≠ 0 := shiftedId_or_ne_zero htid ht
  have htid' : workerTid (shiftedId tid ||| t) = tid := workerTid_or_of_lt tid ht
  refine ⟨hne, fun rest => ?_, or_and_mask_of_lt (workerId_shiftedId tid) ht,
    workerId_or_of_lt (workerId_shiftedId tid) ht, by rw [htid'], htid', workerTid_shiftedId tid,
    fun tid' t' _ ht' h => shiftedId_or_inj ht' ht h⟩
  exact List.takeWhile_cons_of_pos (decide_eq_true hne)

/-- The largest thread id, next to the sign bit, with the largest type. -/
theorem eventWord_roundTrip_max : (0 : Int32) < 2147483647 ∧
    workerId (shiftedId 2147483647 ||| 31) = shiftedId 2147483647 ∧
    workerTid (shiftedId 2147483647 ||| 31) = 2147483647 := by
  obtain ⟨-, -, -, hid, -, htid, -⟩ :=
    eventWord_roundTrip 2147483647 (by decide) 31 (by decide)
  exact ⟨by decide, hid, htid⟩

namespace Attempt2.Server

variable {τ : Type} {s : Server τ}

/-- `raw_tid_to_worker_id`. -/
def rawTidToWorkerId (raw_tid : UInt64) : UInt64 := raw_tid <<< workerIdShift

/-- `worker_id_to_raw_tid`. -/
def workerIdToRawTid (worker_id : UInt64) : Int32 :=
  (worker_id >>> workerIdShift).toUInt32.toInt32

/-- `get_worker_state`: the entry of the table whose guard is returned, with the status in it. No
thread panics while it holds the lock of a status, so `lock().ok()` does not fail. -/
def getWorkerState (s : Server τ) (worker_id : UInt64) : Option (UInt64 × WorkerStatus) :=
  let shifted_id :=
    if worker_id &&& workerEventMask = 0 then worker_id else worker_id <<< workerIdShift
  (s.states.get? shifted_id).map fun status => (shifted_id, status)

/-- The keys of the table are the ids of threads. -/
def KeysShifted (s : Server τ) : Prop := ∀ k ∈ s.states.keys, ∃ v : Int32, 0 < v ∧ k = shiftedId v

/-- `tid as u64`. -/
private theorem toNat_cast (h : 0 < tid) : (tid.toInt64.toUInt64.toNat : Int) = tid.toInt := by
  have hpos : 0 < tid.toInt := by simpa using Int32.lt_iff_toInt_lt.mp h
  have hle : 0 ≤ tid.toInt64 := by
    rw [Int64.le_iff_toInt_le]
    simpa using Int.le_of_lt hpos
  have hclamp : tid.toInt64.toNatClampNeg = tid.toInt.toNat := by
    rw [Int64.toNatClampNeg, Int32.toInt_toInt64]
  rw [Int64.toNat_toUInt64_of_le hle, hclamp, Int.toNat_of_nonneg (Int.le_of_lt hpos)]

/-- The low five bits of a thread id are zero exactly for the multiples of 32. -/
private theorem cast_and_mask_eq_zero_iff (h : 0 < tid) :
    tid.toInt64.toUInt64 &&& workerEventMask = 0 ↔ 32 ∣ tid.toInt := by
  have hcast := toNat_cast h
  have hmod : (tid.toInt64.toUInt64 &&& workerEventMask).toNat =
      tid.toInt64.toUInt64.toNat % 32 := by
    rw [UInt64.toNat_and]
    exact Nat.and_two_pow_sub_one_eq_mod _ 5
  rw [← UInt64.toNat_inj, hmod]
  change tid.toInt64.toUInt64.toNat % 32 = 0 ↔ _
  omega

/-- A thread id that is a multiple of 32 is the worker id of the thread with a 32nd of it. -/
private theorem cast_eq_shiftedId_iff (h : 0 < tid) (hv : 0 < v) :
    tid.toInt64.toUInt64 = shiftedId v ↔ tid.toInt = 32 * v.toInt := by
  have hcast := toNat_cast h
  have hcast' := toNat_cast hv
  have hlt := v.toInt_lt
  have hshift : (shiftedId v).toNat = 32 * v.toInt64.toUInt64.toNat := by
    have hmul : (shiftedId v).toNat = v.toInt64.toUInt64.toNat <<< 5 % 2 ^ 64 :=
      UInt64.toNat_shiftLeft ..
    rw [hmul, Nat.shiftLeft_eq]
    omega
  rw [← UInt64.toNat_inj, hshift]
  omega

/-- The entry that is found under a worker id. -/
theorem getWorkerState_shiftedId (s : Server τ) (tid : Int32) :
    s.getWorkerState (shiftedId tid) =
      (s.states.get? (shiftedId tid)).map fun status => (shiftedId tid, status) := by
  have hmask : shiftedId tid &&& workerEventMask = 0 := by
    rw [← workerId_shiftedId tid]
    exact workerId_and_mask _
  simp [getWorkerState, hmask]

/-- The entry that is found under a thread id. -/
private theorem getWorkerState_cast (s : Server τ) (h : 0 < tid) :
    s.getWorkerState tid.toInt64.toUInt64 =
      if 32 ∣ tid.toInt then
        (s.states.get? tid.toInt64.toUInt64).map fun status => (tid.toInt64.toUInt64, status)
      else s.getWorkerState (shiftedId tid) := by
  rw [getWorkerState_shiftedId]
  unfold getWorkerState
  simp only [cast_and_mask_eq_zero_iff h]
  split_ifs <;> rfl

/-- An entry of the table is of the worker `tid` when its key is the id of that thread. -/
theorem getWorkerState_shiftedId_eq_some_iff (hkeys : s.KeysShifted) (tid : Int32) (k : UInt64)
    (status : WorkerStatus) : s.getWorkerState (shiftedId tid) = some (k, status) ↔
      s.states.get? k = some status ∧ workerIdToRawTid k = tid := by
  rw [getWorkerState_shiftedId]
  constructor
  · intro h
    obtain ⟨st, hst, hk⟩ := Option.map_eq_some_iff.mp h
    cases hk
    exact ⟨hst, workerTid_shiftedId tid⟩
  · rintro ⟨hst, rfl⟩
    obtain ⟨v, -, rfl⟩ := hkeys k (s.states.mem_keys_of_get? hst)
    have hv : workerIdToRawTid (shiftedId v) = v := workerTid_shiftedId v
    rw [hv, hst]
    rfl

/-- Two lookups with different keys find the same entry only if neither finds one. -/
private theorem map_eq_map_iff {k k' : UInt64} (hne : k ≠ k') (o o' : Option WorkerStatus) :
    (o.map fun status => (k, status)) = (o'.map fun status => (k', status)) ↔
      o = none ∧ o' = none := by
  cases o <;> cases o' <;> simp [hne]

/-- Let the keys of the table be ids of threads. Looking up a thread id `tid` and looking up its
worker id give the same entry, namely that of the worker with this thread id, or both none, if and
only if `tid` is not a multiple of 32, or the table has neither the worker `tid` nor the worker
whose thread id is a 32nd of `tid`. -/
theorem getWorkerState_eq_iff (s : Server τ) (hkeys : s.KeysShifted) (tid : Int32)
    (htid : 0 < tid) :
    (s.getWorkerState tid.toInt64.toUInt64 =
        s.getWorkerState (rawTidToWorkerId tid.toInt64.toUInt64) ∧
      ∀ k status, s.getWorkerState (rawTidToWorkerId tid.toInt64.toUInt64) = some (k, status) ↔
        s.states.get? k = some status ∧ workerIdToRawTid k = tid) ↔
    ¬ 32 ∣ tid.toInt ∨
      ∀ v, v = tid ∨ 0 < v ∧ tid.toInt = 32 * v.toInt → shiftedId v ∉ s.states.keys := by
  have hid : rawTidToWorkerId tid.toInt64.toUInt64 = shiftedId tid := rfl
  rw [hid, and_iff_left (getWorkerState_shiftedId_eq_some_iff hkeys tid),
    getWorkerState_cast s htid]
  split_ifs with h32
  · -- the two keys differ, and the first one is the id of another thread
    have hne : tid.toInt64.toUInt64 ≠ shiftedId tid := by
      rw [Ne, cast_eq_shiftedId_iff htid htid]
      have : 0 < tid.toInt := by simpa using Int32.lt_iff_toInt_lt.mp htid
      omega
    rw [getWorkerState_shiftedId, map_eq_map_iff hne, Table.get?_eq_none_iff,
      Table.get?_eq_none_iff]
    simp only [h32, not_true_eq_false, false_or]
    constructor
    · rintro ⟨hraw, hown⟩ v (rfl | ⟨hv, heq⟩)
      · exact hown
      · rwa [← (cast_eq_shiftedId_iff htid hv).mpr heq]
    · intro h
      refine ⟨fun hmem => ?_, h tid (.inl rfl)⟩
      obtain ⟨v, hv, hk⟩ := hkeys _ hmem
      exact h v (.inr ⟨hv, (cast_eq_shiftedId_iff htid hv).mp hk⟩) (hk ▸ hmem)
  · simp [h32]

/-- A server of the two threads 1 and 32. -/
def threadsOneAndThirtyTwo : Server ℕ where
  states := ⟨[32, 1024], by decide, fun w => if w = 32 then .blocked else .waiting⟩
  channels := [32, 1024]
  pending := ⟨2, [1024], by decide⟩
  running := ⟨2, [32], by decide⟩
  control := .eventLoop .ok
  log := []

theorem threadsOneAndThirtyTwo_keysShifted : threadsOneAndThirtyTwo.KeysShifted := by
  intro k hk
  rcases List.mem_cons.mp hk with rfl | hk
  · exact ⟨1, by decide, by decide⟩
  · exact ⟨32, by decide, (List.mem_singleton.mp hk).trans (by decide)⟩

/-- The lookup of the thread 1, which is not a multiple of 32. -/
theorem getWorkerState_eq_one :
    threadsOneAndThirtyTwo.getWorkerState 1 = threadsOneAndThirtyTwo.getWorkerState 32 ∧
      threadsOneAndThirtyTwo.getWorkerState 32 = some (32, .blocked) := by
  have h := ((getWorkerState_eq_iff threadsOneAndThirtyTwo threadsOneAndThirtyTwo_keysShifted 1
    (by decide)).mpr (.inl (by decide))).1
  exact ⟨h, by decide⟩

/-- The lookup of the thread 32 gives the status of the thread 1. -/
theorem getWorkerState_ne_thirtyTwo :
    threadsOneAndThirtyTwo.KeysShifted ∧
    threadsOneAndThirtyTwo.getWorkerState 32 = some (32, .blocked) ∧
    threadsOneAndThirtyTwo.getWorkerState (rawTidToWorkerId 32) = some (1024, .waiting) ∧
    workerIdToRawTid 1024 = 32 :=
  ⟨threadsOneAndThirtyTwo_keysShifted, by decide, by decide, by decide⟩

end Attempt2.Server

end Umcg
