import Mathlib.Data.Finset.Card
import Mathlib.Data.Finset.Image
import Umcg.Foundation.Run

/-!
# The set-up of the demo: which server a worker belongs to

Four maps say which server a worker belongs to: the assignments of the `ServerRouter`, the
`states` and the `channels` of each server, and `worker_to_server` of the routing server. They
are filled by different threads. A worker thread registers with the router and then inserts
itself into the two maps that the workers of its server share; it holds the lock of the first
during both insertions. The main thread copies the two maps one after the other while workers may
still be inserting, starts the server, and scans the statuses of the copy until it has seen
`WORKER_COUNT` workers `Waiting`; then it fills `worker_to_server`.

The copy of the channels is taken later and so contains the copy of the states (no worker is
between its two insertions while the main thread holds the lock). When the scan succeeds the copy
of the states is complete, hence so is that of the channels.

The values that a scan reads are arbitrary (`SetupStep.main`): only the keys matter here.

## Main results

* `SetupInv.worker`, `SetupInv.main` : what every step of a thread keeps.
* `SetupInv.mapsAgree` : when the loop has finished, all four maps say the same.
-/

namespace Umcg.Attempt2

/-- The constants of the demo and the ids of the worker threads; a thread id is given out once. -/
structure Demo where
  server_count : ℕ
  worker_count : ℕ
  id : ℕ → ℕ → UInt64
  id_inj : ∀ s j s' j', s < server_count → j < worker_count → s' < server_count →
    j' < worker_count → id s j = id s' j' → s = s' ∧ j = j'

/-- The point a worker thread has reached in `Worker::spawn`. -/
inductive SpawnPhase
  /-- Not spawned yet. -/
  | idle
  /-- At `router.register_worker(..)`. -/
  | started
  /-- At `states.lock()`. -/
  | routed
  /-- Inserted into the states, whose lock it holds; at `channels.lock()`. -/
  | stated
  /-- Inserted into both maps. -/
  | done
  deriving DecidableEq, Repr

/-- The point the main thread has reached in the set-up loop. -/
inductive MainPc
  /-- About to spawn the worker `j` of the server `s`. -/
  | spawn (s j : ℕ)
  /-- About to copy the states of the server `s`. -/
  | copyStates (s : ℕ)
  /-- About to copy the channels of the server `s`. -/
  | copyChannels (s : ℕ)
  /-- In the loop that waits for the workers of the server `s`. -/
  | scan (s : ℕ)
  | finished
  deriving DecidableEq, Repr

/-- The threads and the maps of the set-up. `worker_states` and `worker_channels` are the maps the
workers insert into, `states` and `channels` the copies that the servers get; of all maps whose
values do not matter only the keys are kept. -/
structure Setup where
  thread : ℕ → ℕ → SpawnPhase
  router : UInt64 → Option ℕ
  worker_states : ℕ → Finset UInt64
  worker_channels : ℕ → Finset UInt64
  lock : ℕ → Option ℕ
  states : ℕ → Finset UInt64
  channels : ℕ → Finset UInt64
  worker_to_server : UInt64 → Option ℕ
  main : MainPc

/-- A step of one thread. -/
inductive SetupStep
  /-- The main thread; a scan finds the workers `w` with `seen w` to be `Waiting`. -/
  | main (seen : UInt64 → Bool)
  /-- The worker `j` of the server `s`. -/
  | worker (s j : ℕ)

namespace Setup

variable (d : Demo)

/-- `for server_id in 0..SERVER_COUNT`. -/
def nextServer (s : ℕ) : MainPc := if s < d.server_count then .spawn s 0 else .finished

/-- Before the loop. -/
def new : Setup where
  thread _ _ := .idle
  router _ := none
  worker_states _ := ∅
  worker_channels _ := ∅
  lock _ := none
  states _ := ∅
  channels _ := ∅
  worker_to_server _ := none
  main := nextServer d 0

/-- Replace the phase of one worker thread. -/
def setThread (u : Setup) (s j : ℕ) (p : SpawnPhase) : Setup :=
  { u with thread := Function.update u.thread s (Function.update (u.thread s) j p) }

/-- A worker thread in `Worker::spawn`. -/
def workerStep (u : Setup) (s j : ℕ) : Option Setup :=
  match u.thread s j with
  | .idle | .done => none
  | .started =>
    some { u.setThread s j .routed with router := Function.update u.router (d.id s j) (some s) }
  | .routed =>
    match u.lock s with
    | none => some { u.setThread s j .stated with
        worker_states :=
          Function.update u.worker_states s (insert (d.id s j) (u.worker_states s))
        lock := Function.update u.lock s (some j) }
    | some _ => none
  | .stated => some { u.setThread s j .done with
      worker_channels :=
        Function.update u.worker_channels s (insert (d.id s j) (u.worker_channels s))
      lock := Function.update u.lock s none }

/-- The main thread in the set-up loop. -/
def mainStep (u : Setup) (seen : UInt64 → Bool) : Option Setup :=
  match u.main with
  | .spawn s j =>
    if j < d.worker_count then some { u.setThread s j .started with main := .spawn s (j + 1) }
    else some { u with main := .copyStates s }
  | .copyStates s =>
    match u.lock s with
    | none => some { u with
        states := Function.update u.states s (u.worker_states s), main := .copyChannels s }
    | some _ => none
  | .copyChannels s => some { u with
      channels := Function.update u.channels s (u.worker_channels s), main := .scan s }
  | .scan s =>
    let ready := (u.states s).filter fun w => seen w
    if ready.card = d.worker_count then
      some { u with
        worker_to_server := fun w => if w ∈ ready then some s else u.worker_to_server w
        main := nextServer d (s + 1) }
    else some u
  | .finished => none

/-- One step of the set-up. -/
def step (u : Setup) : SetupStep → Option Setup
  | .main seen => mainStep d u seen
  | .worker s j => workerStep d u s j

end Setup

/-- The worker has registered with the router. -/
def SpawnPhase.Routed (p : SpawnPhase) : Prop := p ≠ .idle ∧ p ≠ .started

/-- The worker has inserted itself into the states. -/
def SpawnPhase.Stated (p : SpawnPhase) : Prop := p = .stated ∨ p = .done

namespace MainPc

/-- The server whose set-up is under way: the set-up of all smaller ones is over. -/
def server (d : Demo) : MainPc → ℕ
  | spawn s _ | copyStates s | copyChannels s | scan s => s
  | finished => d.server_count

/-- The workers that may have been spawned. -/
def Spawned (s j : ℕ) : MainPc → Prop
  | spawn s' j' => s < s' ∨ s = s' ∧ j < j'
  | copyStates s' | copyChannels s' | scan s' => s ≤ s'
  | finished => True

end MainPc

variable {d : Demo} {u v : Setup}

/-- What holds at every point of the set-up. -/
structure SetupInv (d : Demo) (u : Setup) : Prop where
  current : u.main ≠ .finished → u.main.server d < d.server_count
  spawned : ∀ s j, u.thread s j ≠ .idle →
    s < d.server_count ∧ j < d.worker_count ∧ u.main.Spawned s j
  router : ∀ w s, u.router w = some s ↔ ∃ j, d.id s j = w ∧ (u.thread s j).Routed
  worker_states : ∀ s w, w ∈ u.worker_states s ↔ ∃ j, d.id s j = w ∧ (u.thread s j).Stated
  worker_channels : ∀ s w, w ∈ u.worker_channels s ↔ ∃ j, d.id s j = w ∧ u.thread s j = .done
  locked : ∀ s j, u.thread s j = .stated → u.lock s = some j
  states : ∀ s, ∀ w ∈ u.states s, ∃ j, d.id s j = w ∧ u.thread s j = .done
  channels : ∀ s, ∀ w ∈ u.channels s, ∃ j, d.id s j = w ∧ u.thread s j = .done
  copied : ∀ s, s < u.main.server d ∨ u.main = .scan s → u.states s ⊆ u.channels s
  ready : ∀ s, s < u.main.server d → ∀ j, j < d.worker_count → d.id s j ∈ u.states s
  worker_to_server : ∀ w s,
    u.worker_to_server w = some s ↔ s < u.main.server d ∧ w ∈ u.states s

namespace Setup

@[simp] theorem thread_setThread (s j s' j' : ℕ) (p : SpawnPhase) :
    (u.setThread s j p).thread s' j' = if s' = s ∧ j' = j then p else u.thread s' j' := by
  by_cases hs : s' = s
  · subst hs
    by_cases hj : j' = j <;> simp [setThread, hj]
  · simp [setThread, hs]

/-- A thread goes on without changing whether it satisfies `P`. -/
theorem exists_setThread_iff {P : SpawnPhase → Prop} {s j : ℕ} {p : SpawnPhase}
    (h : P p ↔ P (u.thread s j)) (s' : ℕ) (w : UInt64) :
    (∃ j', d.id s' j' = w ∧ P ((u.setThread s j p).thread s' j')) ↔
      ∃ j', d.id s' j' = w ∧ P (u.thread s' j') := by
  refine exists_congr fun j' => and_congr_right fun _ => ?_
  rw [thread_setThread]
  split_ifs with hj
  · rw [h, hj.1, hj.2]
  · rfl

/-- A thread goes on and satisfies `P` from now on. -/
theorem exists_setThread_or {P : SpawnPhase → Prop} {s j : ℕ} {p : SpawnPhase} (h : P p)
    (h' : ¬ P (u.thread s j)) (s' : ℕ) (w : UInt64) :
    (∃ j', d.id s' j' = w ∧ P ((u.setThread s j p).thread s' j')) ↔
      (∃ j', d.id s' j' = w ∧ P (u.thread s' j')) ∨ s' = s ∧ d.id s j = w := by
  simp only [thread_setThread]
  constructor
  · rintro ⟨j', hw, hp⟩
    split_ifs at hp with hj
    · exact .inr ⟨hj.1, hj.1 ▸ hj.2 ▸ hw⟩
    · exact .inl ⟨j', hw, hp⟩
  · rintro (⟨j', hw, hp⟩ | ⟨rfl, hw⟩)
    · refine ⟨j', hw, ?_⟩
      rw [if_neg]
      · exact hp
      · rintro ⟨rfl, rfl⟩
        exact h' hp
    · exact ⟨j, hw, by simpa using h⟩

end Setup

namespace SetupInv

theorem new (d : Demo) : SetupInv d (.new d) where
  current := by
    unfold Setup.new Setup.nextServer
    split_ifs with h
    · exact fun _ => h
    · exact fun hf => absurd rfl hf
  spawned _ _ h := absurd rfl h
  router := by simp [Setup.new, SpawnPhase.Routed]
  worker_states := by simp [Setup.new, SpawnPhase.Stated]
  worker_channels := by simp [Setup.new]
  locked := by simp [Setup.new]
  states := by simp [Setup.new]
  channels := by simp [Setup.new]
  copied := by simp [Setup.new]
  ready s hs := by
    simp only [Setup.new, Setup.nextServer] at hs
    split_ifs at hs with h
    · exact absurd hs (Nat.not_lt_zero s)
    · simp only [MainPc.server] at hs
      omega
  worker_to_server := by simp [Setup.new]

/-- A worker belongs to one server. -/
theorem server_unique (h : SetupInv d u) {s s' j j' : ℕ} (hj : u.thread s j ≠ .idle)
    (hj' : u.thread s' j' ≠ .idle) (hid : d.id s j = d.id s' j') : s = s' := by
  obtain ⟨hs, hj, -⟩ := h.spawned s j hj
  obtain ⟨hs', hj', -⟩ := h.spawned s' j' hj'
  exact (d.id_inj s j s' j' hs hj hs' hj' hid).1

private theorem done_setThread {s j s' j' : ℕ} {p : SpawnPhase} (hj : u.thread s j ≠ .done)
    (hd : u.thread s' j' = .done) : (u.setThread s j p).thread s' j' = .done := by
  rw [Setup.thread_setThread, if_neg]
  · exact hd
  · rintro ⟨rfl, rfl⟩
    exact hj hd

/-- A worker thread that goes on changes neither the copies nor `worker_to_server`. -/
private theorem advance (h : SetupInv d u) {s j : ℕ} {p : SpawnPhase}
    (hidle : u.thread s j ≠ .idle) (hdone : u.thread s j ≠ .done)
    (hthread : v.thread = (u.setThread s j p).thread) (hmain : v.main = u.main)
    (hst : v.states = u.states) (hch : v.channels = u.channels)
    (hws : v.worker_to_server = u.worker_to_server)
    (hrouter : ∀ w s', v.router w = some s' ↔
      ∃ j', d.id s' j' = w ∧ ((u.setThread s j p).thread s' j').Routed)
    (hstates : ∀ s' w, w ∈ v.worker_states s' ↔
      ∃ j', d.id s' j' = w ∧ ((u.setThread s j p).thread s' j').Stated)
    (hchannels : ∀ s' w, w ∈ v.worker_channels s' ↔
      ∃ j', d.id s' j' = w ∧ (u.setThread s j p).thread s' j' = .done)
    (hlocked : ∀ s' j', (u.setThread s j p).thread s' j' = .stated → v.lock s' = some j') :
    SetupInv d v := by
  refine ⟨hmain ▸ h.current, fun s' j' hj' => ?_, hthread ▸ hrouter, hthread ▸ hstates,
    hthread ▸ hchannels, hthread ▸ hlocked, fun s' w hw => ?_, fun s' w hw => ?_, ?_, ?_, ?_⟩
  · rw [hthread, Setup.thread_setThread] at hj'
    rw [hmain]
    split_ifs at hj' with he
    · exact he.1 ▸ he.2 ▸ h.spawned s j hidle
    · exact h.spawned s' j' hj'
  · obtain ⟨j', hid, hd⟩ := h.states s' w (hst ▸ hw)
    exact ⟨j', hid, hthread ▸ done_setThread hdone hd⟩
  · obtain ⟨j', hid, hd⟩ := h.channels s' w (hch ▸ hw)
    exact ⟨j', hid, hthread ▸ done_setThread hdone hd⟩
  · rw [hmain, hst, hch]; exact h.copied
  · rw [hmain, hst]; exact h.ready
  · rw [hmain, hst, hws]; exact h.worker_to_server

/-- Every step of a worker thread keeps the invariant. -/
theorem worker (h : SetupInv d u) {s j : ℕ} (hv : Setup.workerStep d u s j = some v) :
    SetupInv d v := by
  unfold Setup.workerStep at hv
  split at hv
  · cases hv
  · cases hv
  · rename_i hj
    cases hv
    refine h.advance (s := s) (j := j) (p := .routed) (by simp [hj]) (by simp [hj]) rfl rfl rfl rfl
      rfl (fun w s' => ?_) (fun s' w => ?_) (fun s' w => ?_) (fun s' j' hj' => ?_)
    · rw [Setup.exists_setThread_or (by simp [SpawnPhase.Routed])
        (by simp [hj, SpawnPhase.Routed]), ← h.router]
      by_cases hw : w = d.id s j
      · -- no other server has routed this worker
        have hold : ∀ s', u.router (d.id s j) = some s' → s' = s := by
          intro s' hr
          obtain ⟨j', hid, hr⟩ := (h.router _ _).mp hr
          exact h.server_unique hr.1 (by simp [hj]) hid
        subst hw
        simp only [Function.update_self, Option.some.injEq, and_true]
        exact ⟨fun he => .inr he.symm, fun he => (he.elim (hold s') id).symm⟩
      · simp [Function.update_of_ne hw, Ne.symm hw]
    · rw [Setup.exists_setThread_iff (by simp [hj, SpawnPhase.Stated])]
      exact h.worker_states s' w
    · rw [Setup.exists_setThread_iff (P := fun p => p = .done) (by simp [hj])]
      exact h.worker_channels s' w
    · refine h.locked s' j' ?_
      rw [Setup.thread_setThread] at hj'
      split_ifs at hj'
      exact hj'
  · rename_i hj
    split at hv
    · rename_i hlock
      cases hv
      refine h.advance (s := s) (j := j) (p := .stated) (by simp [hj]) (by simp [hj]) rfl rfl rfl
        rfl rfl (fun w s' => ?_) (fun s' w => ?_) (fun s' w => ?_) (fun s' j' hj' => ?_)
      · rw [Setup.exists_setThread_iff (by simp [hj, SpawnPhase.Routed])]
        exact h.router w s'
      · rw [Setup.exists_setThread_or (by simp [SpawnPhase.Stated])
          (by simp [hj, SpawnPhase.Stated]), ← h.worker_states]
        by_cases hs : s' = s
        · simp [hs, or_comm, eq_comm]
        · simp [hs]
      · rw [Setup.exists_setThread_iff (P := fun p => p = .done) (by simp [hj])]
        exact h.worker_channels s' w
      · rw [Setup.thread_setThread] at hj'
        split_ifs at hj' with he
        · simp [he.1, he.2]
        · have hl := h.locked s' j' hj'
          have hs : s' ≠ s := by
            rintro rfl
            simp [hlock] at hl
          simpa [hs] using hl
    · cases hv
  · rename_i hj
    cases hv
    refine h.advance (s := s) (j := j) (p := .done) (by simp [hj]) (by simp [hj]) rfl rfl rfl rfl
      rfl (fun w s' => ?_) (fun s' w => ?_) (fun s' w => ?_) (fun s' j' hj' => ?_)
    · rw [Setup.exists_setThread_iff (by simp [hj, SpawnPhase.Routed])]
      exact h.router w s'
    · rw [Setup.exists_setThread_iff (by simp [hj, SpawnPhase.Stated])]
      exact h.worker_states s' w
    · rw [Setup.exists_setThread_or (P := fun p => p = .done) rfl (by simp [hj]),
        ← h.worker_channels]
      by_cases hs : s' = s
      · simp [hs, or_comm, eq_comm]
      · simp [hs]
    · rw [Setup.thread_setThread] at hj'
      split_ifs at hj' with he
      have hl := h.locked s' j' hj'
      have hs : s' ≠ s := by
        rintro rfl
        rw [h.locked s' j hj, Option.some.injEq] at hl
        exact he ⟨rfl, hl.symm⟩
      simpa [hs] using hl

/-- The main thread spawns the next worker. -/
private theorem spawn (h : SetupInv d u) {s j : ℕ} (hmain : u.main = .spawn s j)
    (hj : j < d.worker_count) :
    SetupInv d { u.setThread s j .started with main := .spawn s (j + 1) } := by
  have hcur : s < d.server_count := by
    simpa [hmain, MainPc.server] using h.current (by simp [hmain])
  have hidle : u.thread s j = .idle := by
    by_contra hne
    have := (h.spawned s j hne).2.2
    simp [hmain, MainPc.Spawned] at this
  have hserver : u.main.server d = s := by simp [hmain, MainPc.server]
  have hdone : u.thread s j ≠ .done := by simp [hidle]
  refine ⟨fun _ => hcur, fun s' j' hj' => ?_, fun w s' => ?_, fun s' w => ?_, fun s' w => ?_,
    fun s' j' hj' => ?_, fun s' w hw => ?_, fun s' w hw => ?_, fun s' hs' => ?_, ?_, ?_⟩
  · rw [Setup.thread_setThread] at hj'
    split_ifs at hj' with he
    · rw [he.1, he.2]
      exact ⟨hcur, hj, .inr ⟨rfl, Nat.lt_succ_self j⟩⟩
    · obtain ⟨hs, hj, hsp⟩ := h.spawned s' j' hj'
      rw [hmain] at hsp
      exact ⟨hs, hj, hsp.imp id fun h => ⟨h.1, Nat.lt_succ_of_lt h.2⟩⟩
  · rw [Setup.exists_setThread_iff (by simp [hidle, SpawnPhase.Routed])]
    exact h.router w s'
  · rw [Setup.exists_setThread_iff (by simp [hidle, SpawnPhase.Stated])]
    exact h.worker_states s' w
  · rw [Setup.exists_setThread_iff (P := fun p => p = .done) (by simp [hidle])]
    exact h.worker_channels s' w
  · refine h.locked s' j' ?_
    rw [Setup.thread_setThread] at hj'
    split_ifs at hj'
    exact hj'
  · obtain ⟨j', hid, hd⟩ := h.states s' w hw
    exact ⟨j', hid, done_setThread hdone hd⟩
  · obtain ⟨j', hid, hd⟩ := h.channels s' w hw
    exact ⟨j', hid, done_setThread hdone hd⟩
  · exact h.copied s' (.inl (hserver ▸ hs'.resolve_right (by simp)))
  · exact fun s' hs' => h.ready s' (hserver ▸ hs')
  · exact fun w s' => hserver ▸ h.worker_to_server w s'

/-- A step of the main thread that only moves on, within the set-up of the same server. -/
private theorem jump (h : SetupInv d u) {m : MainPc}
    (hserver : m.server d = u.main.server d)
    (hspawned : ∀ s j, u.main.Spawned s j → m.Spawned s j) (hu : u.main ≠ .finished)
    (hcopied : ∀ s, m = .scan s → u.states s ⊆ u.channels s) :
    SetupInv d { u with main := m } where
  current _ := by
    change m.server d < _
    rw [hserver]
    exact h.current hu
  spawned s j hj := ⟨(h.spawned s j hj).1, (h.spawned s j hj).2.1,
    hspawned s j (h.spawned s j hj).2.2⟩
  router := h.router
  worker_states := h.worker_states
  worker_channels := h.worker_channels
  locked := h.locked
  states := h.states
  channels := h.channels
  copied s hs := hs.elim (fun hs => h.copied s (.inl (hserver ▸ hs))) (hcopied s)
  ready s hs := h.ready s (hserver ▸ hs)
  worker_to_server w s := by
    change _ ↔ s < m.server d ∧ _
    rw [hserver]
    exact h.worker_to_server w s

/-- A copy of the states is taken while no worker is between its two insertions. -/
private theorem copyStates (h : SetupInv d u) {s : ℕ} (hmain : u.main = .copyStates s)
    (hlock : u.lock s = none) : SetupInv d { u with
      states := Function.update u.states s (u.worker_states s), main := .copyChannels s } := by
  have hserver : u.main.server d = s := by simp [hmain, MainPc.server]
  have hother : ∀ s', s' < s → Function.update u.states s (u.worker_states s) s' = u.states s' :=
    fun s' hs' => Function.update_of_ne (Nat.ne_of_lt hs') ..
  refine ⟨fun _ => ?_, fun s' j' hj' => ?_, h.router, h.worker_states, h.worker_channels, h.locked,
    fun s' w hw => ?_, h.channels, fun s' hs' => ?_, fun s' hs' j hj => ?_, fun w s' => ?_⟩
  · simpa [hmain, MainPc.server] using h.current (by simp [hmain])
  · simpa [hmain, MainPc.Spawned] using h.spawned s' j' hj'
  · by_cases hs : s' = s
    · subst hs
      simp only [Function.update_self] at hw
      obtain ⟨j, hid, hst | hd⟩ := (h.worker_states s' w).mp hw
      · simp [h.locked s' j hst] at hlock
      · exact ⟨j, hid, hd⟩
    · simp only [Function.update_of_ne hs] at hw
      exact h.states s' w hw
  · have hlt : s' < s := hs'.resolve_right (by simp)
    dsimp only
    rw [hother s' hlt]
    exact h.copied s' (.inl (hserver.symm ▸ hlt))
  · dsimp only
    rw [hother s' hs']
    exact h.ready s' (hserver.symm ▸ hs') j hj
  · rw [h.worker_to_server, hserver]
    refine and_congr_right fun hlt => ?_
    dsimp only
    rw [hother s' hlt]

/-- A copy of the channels is taken after that of the states. -/
private theorem copyChannels (h : SetupInv d u) {s : ℕ} (hmain : u.main = .copyChannels s) :
    SetupInv d { u with
      channels := Function.update u.channels s (u.worker_channels s), main := .scan s } := by
  have hserver : u.main.server d = s := by simp [hmain, MainPc.server]
  have hchannels : SetupInv d { u with
      channels := Function.update u.channels s (u.worker_channels s) } := by
    refine { h with channels := fun s' w hw => ?_, copied := fun s' hs' => ?_ }
    · by_cases hs : s' = s
      · subst hs
        simp only [Function.update_self] at hw
        exact (h.worker_channels s' w).mp hw
      · simp only [Function.update_of_ne hs] at hw
        exact h.channels s' w hw
    · have hlt : s' < s := by simpa [hmain, MainPc.server] using hs'
      dsimp only
      rw [Function.update_of_ne (Nat.ne_of_lt hlt)]
      exact h.copied s' (.inl (hserver.symm ▸ hlt))
  refine hchannels.jump (m := .scan s) hserver.symm (fun s' j' => ?_) (by simp [hmain]) ?_
  · simp [hmain, MainPc.Spawned]
  · rintro s' ⟨rfl⟩ w hw
    simp only [Function.update_self]
    exact (h.worker_channels s w).mpr (h.states s w hw)

/-- A scan that has seen as many workers as were spawned has seen all of them. -/
private theorem scan_complete (h : SetupInv d u) {s : ℕ} {seen : UInt64 → Bool}
    (hcard : ((u.states s).filter fun w => seen w).card = d.worker_count) :
    ((u.states s).filter fun w => seen w) = u.states s ∧
      ∀ j, j < d.worker_count → d.id s j ∈ u.states s := by
  have hsub : u.states s ⊆ (Finset.range d.worker_count).image (d.id s) := by
    intro w hw
    obtain ⟨j, hid, hd⟩ := h.states s w hw
    exact Finset.mem_image.mpr
      ⟨j, Finset.mem_range.mpr (h.spawned s j (by simp [hd])).2.1, hid⟩
  have hle : ((Finset.range d.worker_count).image (d.id s)).card ≤
      ((u.states s).filter fun w => seen w).card := by
    rw [hcard]
    exact Finset.card_image_le.trans (Finset.card_range _).le
  have heq := Finset.eq_of_subset_of_card_le ((Finset.filter_subset _ _).trans hsub) hle
  have hready : ((u.states s).filter fun w => seen w) = u.states s :=
    Finset.Subset.antisymm (Finset.filter_subset _ _) (heq ▸ hsub)
  refine ⟨hready, fun j hj => ?_⟩
  rw [← hready, heq]
  exact Finset.mem_image_of_mem _ (Finset.mem_range.mpr hj)

private theorem server_nextServer {s : ℕ} (hs : s < d.server_count) :
    (Setup.nextServer d (s + 1)).server d = s + 1 := by
  unfold Setup.nextServer
  split_ifs
  · rfl
  · simp only [MainPc.server]
    omega

/-- The main thread has seen all workers of the server `s` and goes on with the next one. -/
private theorem scan (h : SetupInv d u) {s : ℕ} (hmain : u.main = .scan s)
    {ready : Finset UInt64} (hready : ready = u.states s)
    (hall : ∀ j, j < d.worker_count → d.id s j ∈ u.states s) : SetupInv d { u with
      worker_to_server := fun w => if w ∈ ready then some s else u.worker_to_server w
      main := Setup.nextServer d (s + 1) } := by
  have hserver : u.main.server d = s := by simp [hmain, MainPc.server]
  have hcur : s < d.server_count := hserver ▸ h.current (by simp [hmain])
  have hnext := server_nextServer hcur
  refine ⟨fun hf => ?_, fun s' j' hj' => ?_, h.router, h.worker_states, h.worker_channels, h.locked,
    h.states, h.channels, fun s' hs' => ?_, fun s' hs' => ?_, fun w s' => ?_⟩
  · unfold Setup.nextServer at hf ⊢
    split_ifs at hf ⊢ with hlt
    · exact hlt
    · exact absurd rfl hf
  · obtain ⟨hs, hj, hsp⟩ := h.spawned s' j' hj'
    refine ⟨hs, hj, ?_⟩
    simp only [hmain, MainPc.Spawned] at hsp
    unfold Setup.nextServer
    dsimp only
    split_ifs
    · exact .inl (Nat.lt_succ_of_le hsp)
    · trivial
  · have hlt : s' < s + 1 := by
      refine hs'.elim (fun hs' => hnext ▸ hs') fun hs' => ?_
      unfold Setup.nextServer at hs'
      dsimp only at hs'
      split_ifs at hs'
    rcases Nat.lt_succ_iff_lt_or_eq.mp hlt with hlt | rfl
    · exact h.copied s' (.inl (hserver.symm ▸ hlt))
    · exact h.copied s' (.inr hmain)
  · rcases Nat.lt_succ_iff_lt_or_eq.mp (hnext ▸ hs') with hlt | rfl
    · exact h.ready s' (hserver.symm ▸ hlt)
    · exact hall
  · dsimp only
    rw [hnext, hready]
    split_ifs with hw
    · simp only [Option.some.injEq]
      constructor
      · rintro rfl
        exact ⟨Nat.lt_succ_self s, hw⟩
      · rintro ⟨-, hw'⟩
        obtain ⟨j, hid, hd⟩ := h.states s w hw
        obtain ⟨j', hid', hd'⟩ := h.states s' w hw'
        exact h.server_unique (by simp [hd]) (by simp [hd']) (hid.trans hid'.symm)
    · rw [h.worker_to_server, hserver]
      refine and_congr_left fun hw' => ?_
      have hne : s' ≠ s := by
        rintro rfl
        exact hw hw'
      omega

/-- Every step of the main thread keeps the invariant. -/
theorem main (h : SetupInv d u) {seen : UInt64 → Bool} (hv : Setup.mainStep d u seen = some v) :
    SetupInv d v := by
  unfold Setup.mainStep at hv
  split at hv
  · rename_i s j hmain
    split_ifs at hv with hj <;> cases hv
    · exact h.spawn hmain hj
    · refine h.jump (m := .copyStates s) (by simp [hmain, MainPc.server]) (fun s' j' hsp => ?_)
        (by simp [hmain]) (by simp)
      simp only [hmain, MainPc.Spawned] at hsp ⊢
      omega
  · rename_i s hmain
    split at hv <;> cases hv
    exact h.copyStates hmain ‹_›
  · rename_i s hmain
    cases hv
    exact h.copyChannels hmain
  · rename_i s hmain
    dsimp only at hv
    split_ifs at hv with hcard <;> cases hv
    · obtain ⟨hready, hall⟩ := h.scan_complete hcard
      exact h.scan hmain hready hall
    · exact h
  · cases hv

theorem run {l : List SetupStep} (h : Run (Guarded (Setup.step d) fun _ _ => True) (.new d) l u) :
    SetupInv d u := by
  refine h.invariant (new d) ?_
  rintro u a v hI ⟨-, hstep⟩
  cases a with
  | main seen => exact hI.main hstep
  | worker s j => exact hI.worker hstep

end SetupInv

/-- The four maps say the same, and they know every worker. -/
structure Setup.MapsAgree (d : Demo) (u : Setup) : Prop where
  disjoint : ∀ s s', s ≠ s' → Disjoint (u.states s) (u.states s')
  states_iff : ∀ w s, u.worker_to_server w = some s ↔ w ∈ u.states s
  channels_iff : ∀ w s, u.worker_to_server w = some s ↔ w ∈ u.channels s
  router_iff : ∀ w s, u.worker_to_server w = some s ↔ u.router w = some s
  complete : ∀ s j, s < d.server_count → j < d.worker_count →
    u.worker_to_server (d.id s j) = some s

theorem SetupInv.mapsAgree (h : SetupInv d u) (hf : u.main = .finished) : u.MapsAgree d := by
  have hserver : u.main.server d = d.server_count := by simp [hf, MainPc.server]
  -- the copy of the states has all workers of the server
  have hstates : ∀ w s, w ∈ u.states s ↔ ∃ j, d.id s j = w ∧ u.thread s j ≠ .idle := by
    intro w s
    constructor
    · intro hw
      obtain ⟨j, hid, hd⟩ := h.states s w hw
      exact ⟨j, hid, by simp [hd]⟩
    · rintro ⟨j, rfl, hj⟩
      obtain ⟨hs, hj, -⟩ := h.spawned s j hj
      exact h.ready s (hserver.symm ▸ hs) j hj
  have hw2s : ∀ w s, u.worker_to_server w = some s ↔ w ∈ u.states s := by
    intro w s
    rw [h.worker_to_server, hserver, and_iff_right_iff_imp]
    intro hw
    obtain ⟨j, -, hj⟩ := (hstates w s).mp hw
    exact (h.spawned s j hj).1
  refine ⟨fun s s' hne => ?_, hw2s, fun w s => ?_, fun w s => ?_, fun s j hs hj => ?_⟩
  · refine Finset.disjoint_left.mpr fun w hw hw' => hne ?_
    obtain ⟨j, hid, hj⟩ := (hstates w s).mp hw
    obtain ⟨j', hid', hj'⟩ := (hstates w s').mp hw'
    exact h.server_unique hj hj' (hid.trans hid'.symm)
  · rw [hw2s]
    constructor
    · intro hw
      obtain ⟨j, -, hj⟩ := (hstates w s).mp hw
      exact h.copied s (.inl (hserver.symm ▸ (h.spawned s j hj).1)) hw
    · intro hw
      obtain ⟨j, hid, hd⟩ := h.channels s w hw
      exact (hstates w s).mpr ⟨j, hid, by simp [hd]⟩
  · rw [hw2s]
    constructor
    · intro hw
      obtain ⟨j, hid, hd⟩ := h.states s w hw
      exact (h.router w s).mpr ⟨j, hid, by simp [hd, SpawnPhase.Routed]⟩
    · intro hr
      obtain ⟨j, hid, hj, -⟩ := (h.router w s).mp hr
      exact (hstates w s).mpr ⟨j, hid, hj⟩
  · exact (h.worker_to_server _ _).mpr ⟨hserver.symm ▸ hs, h.ready s (hserver.symm ▸ hs) j hj⟩

end Umcg.Attempt2
