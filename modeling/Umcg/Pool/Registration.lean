import Umcg.Pool.RunServer

/-!
# Several servers that register their workers

Each server starts its worker threads one after the other in `initialize_workers` and waits after
each start for a `WAKE`. The kernel puts a thread that has registered as a worker on one list for
all servers, and the next `Wait` of whichever server takes the oldest entry: the `Wait` of a server
that registers its workers, whose buffer of two words has room for one event, or the `Wait` of a
server that has registered all of them and is in the main loop of `run_server`, which takes several
entries and has no use for them. `Handshake` is this: the servers in `run_server`, the threads that
have been started and have not registered yet, and the list.

`wait_for_worker_registration` does not look at the thread id of the `WAKE`. So a server marks its
worker as `Waiting` for the `WAKE` of any worker, also of another server. And when its own `WAKE`
has gone to a server in its main loop, it waits on, and the next `WAKE` is of another worker. It is
the right one when a worker is only started while no worker of another server is on its way and no
other server is inside of `wait_for_worker_registration` (`Handshake.OneAtATime`). With one server
this is always so (`Handshake.oneAtATime_single`).

## Main results

* `Handshake.RegInv.move` : at most one worker is on its way, and at most one server waits for it.
* `Handshake.registration_wake` : the `WAKE` for which a worker is marked as `Waiting` is its own.
* `Handshake.registration_mixed` : two servers that take each other's `WAKE`.
-/

namespace Umcg.Pool

/-- The servers, the worker threads that have not registered yet, and the kernel's list of newly
registered workers. -/
structure Handshake (n : ℕ) (τ : Type) where
  node : Fin n → Runner τ
  starting : List Int32
  idle : List Int32

/-- `run_server` is past `initialize_workers`. -/
def RunPc.inLoop : RunPc → Bool
  | top | scheduling _ | waiting | handling _ | shutdown => true
  | register | startWorker _ | waitWorker _ _ | returned _ => false

/-- `run_server` is inside of `wait_for_worker_registration`. -/
def RunPc.awaits : RunPc → Bool
  | waitWorker _ _ => true
  | _ => false

/-- The steps of the servers, of the worker threads and of the kernel. -/
inductive HandshakeStep (n : ℕ) (τ : Type)
  /-- `RegisterServer` of the server `i` returns. -/
  | registered (i : Fin n) (ret : Int)
  /-- The server `i` starts a worker thread. -/
  | started (i : Fin n) (tid : Int32)
  /-- The worker thread `tid` registers. -/
  | registerWorker (tid : Int32)
  /-- The `Wait` of the server `i` for a registration returns a `WAKE`. -/
  | wait (i : Fin n)
  /-- The `Wait` of the server `i` for a registration fails or returns something else. -/
  | waitOther (i : Fin n) (ret : Int) (event : UInt64)
  /-- The time of the server `i` is over. -/
  | elapsed (i : Fin n)
  /-- The `Wait` of the server `i` in its main loop returns the `WAKE`s of the first `taken` workers
  of the list. -/
  | poll (i : Fin n) (taken : ℕ)
  /-- Any other step of the server `i` in its main loop. -/
  | loop (i : Fin n) (a : RunInput τ)
  deriving DecidableEq, Repr

namespace Handshake

variable {n : ℕ} {τ : Type}

/-- The servers before `run_server`, with the given numbers of workers. -/
def new (total_workers : Fin n → ℕ) : Handshake n τ where
  node i := .new i (total_workers i)
  starting := []
  idle := []

/-- Replace the server `i`. -/
def setNode (x : Handshake n τ) (i : Fin n) (r : Runner τ) : Handshake n τ :=
  { x with node := Function.update x.node i r }

/-- Some server has a worker with the thread id `tid`. -/
def used (x : Handshake n τ) (tid : Int32) : Bool :=
  (List.finRange n).any fun i => tid ∈ (x.node i).server.workers.keys

/-- The workers that have been started and whose `WAKE` no `Wait` has returned. -/
def onTheWay (x : Handshake n τ) : List Int32 := x.starting ++ x.idle

/-- The `WAKE` of a worker that has registered. -/
def wakeWord (tid : Int32) : UInt64 := eventWord (shiftedId tid) .wake

/-- One step. Thread ids are not used twice. -/
def step (x : Handshake n τ) : HandshakeStep n τ → Option (Handshake n τ)
  | .registered i ret => ((x.node i).step (.registered ret)).map (x.setNode i)
  | .started i tid =>
    if x.used tid then none
    else ((x.node i).step (.started tid)).map fun r =>
      { x.setNode i r with starting := x.starting ++ [tid] }
  | .registerWorker tid =>
    if tid ∈ x.starting then
      some { x with starting := x.starting.erase tid, idle := x.idle ++ [tid] }
    else none
  | .wait i =>
    match x.idle with
    | tid :: rest => ((x.node i).step (.waitedWorker 0 (wakeWord tid))).map fun r =>
        { x.setNode i r with idle := rest }
    | [] => none
  | .waitOther i ret event =>
    if ret = 0 ∧ eventType event = some .wake then none
    else ((x.node i).step (.waitedWorker ret event)).map (x.setNode i)
  | .elapsed i => ((x.node i).step .elapsed).map (x.setNode i)
  | .poll i taken =>
    ((x.node i).step (.waited 0 0 ((x.idle.take taken).map wakeWord))).map fun r =>
      { x.setNode i r with idle := x.idle.drop taken }
  | .loop i a => if (x.node i).pc.inLoop then ((x.node i).step a).map (x.setNode i) else none

/-- A worker is started only while no worker of another server is on its way and no other server is
inside of `wait_for_worker_registration`. -/
def OneAtATime (x : Handshake n τ) : HandshakeStep n τ → Prop
  | .started i _ => (∀ tid ∈ x.onTheWay, tid ∈ (x.node i).server.workers.keys) ∧
      ∀ j, j ≠ i → (x.node j).pc.awaits = false
  | _ => True

instance (x : Handshake n τ) : (a : HandshakeStep n τ) → Decidable (x.OneAtATime a)
  | .started i _ =>
    have : Decidable (∀ tid ∈ x.onTheWay, tid ∈ (x.node i).server.workers.keys) :=
      List.decidableBAll (fun tid => tid ∈ (x.node i).server.workers.keys) x.onTheWay
    inferInstanceAs (Decidable (_ ∧ ∀ j, j ≠ i → (x.node j).pc.awaits = false))
  | .registered _ _ | .registerWorker _ | .wait _ | .waitOther _ _ _ | .elapsed _ | .poll _ _
  | .loop _ _ => inferInstanceAs (Decidable True)

/-! ### The cases of a step -/

variable {x y : Handshake n τ} {a : HandshakeStep n τ} {i j : Fin n} {tid : Int32}

/-- The workers of the server `i`. -/
def workers (x : Handshake n τ) (i : Fin n) : List Int32 := (x.node i).server.workers.keys

/-- The steps of the servers, of the worker threads and of the kernel. -/
inductive Move (x : Handshake n τ) : HandshakeStep n τ → Handshake n τ → Prop
  | registered {i : Fin n} {ret : Int} {r : Runner τ} (hpc : (x.node i).pc = .register)
      (hr : r.server = (x.node i).server) (hnext : ∀ k tid, r.pc ≠ .waitWorker k tid) :
      Move x (.registered i ret) (x.setNode i r)
  | started {i : Fin n} {tid : Int32} {k : ℕ} (hpc : (x.node i).pc = .startWorker k)
      (hnew : ∀ j, tid ∉ (x.node j).server.workers.keys) : Move x (.started i tid)
        { x.setNode i { x.node i with
            server := (x.node i).server.startWorker tid, pc := .waitWorker k tid } with
          starting := x.starting ++ [tid] }
  | registerWorker {tid : Int32} (htid : tid ∈ x.starting) : Move x (.registerWorker tid)
      { x with starting := x.starting.erase tid, idle := x.idle ++ [tid] }
  | wait {i : Fin n} {tid tid' : Int32} {rest : List Int32} {k : ℕ} {r : Runner τ}
      (hpc : (x.node i).pc = .waitWorker k tid) (hidle : x.idle = tid' :: rest)
      (hr : r.server = (x.node i).server.workerReady tid)
      (hnext : ∀ k tid, r.pc ≠ .waitWorker k tid) :
      Move x (.wait i) { x.setNode i r with idle := rest }
  | waitsOn {i : Fin n} {event : UInt64} : Move x (.waitOther i 0 event) x
  | gaveUp {i : Fin n} {k : ℕ} {tid : Int32} {e : ServerError} {a : HandshakeStep n τ}
      (hpc : (x.node i).pc = .waitWorker k tid) :
      Move x a (x.setNode i ((x.node i).ret (.err e)))
  | loop {i : Fin n} {rest : List Int32} {a : HandshakeStep n τ} {r : Runner τ}
      (hpc : (x.node i).pc.inLoop = true) (hkeys : r.server.workers.keys = x.workers i)
      (hnext : ∀ k tid, r.pc ≠ .waitWorker k tid) (hidle : rest <:+ x.idle) :
      Move x a { x.setNode i r with idle := rest }

/-- A step of `run_server` past `initialize_workers` starts no worker and waits for none. -/
theorem loop_of_move {q r : Runner τ} {b : RunInput τ} (hpc : q.pc.inLoop = true)
    (hm : q.Move b r) :
    r.server.workers.keys = q.server.workers.keys ∧ ∀ k tid, r.pc ≠ .waitWorker k tid := by
  have hq : ∀ k tid, q.pc ≠ .waitWorker k tid := fun k tid hk => by
    rw [hk] at hpc
    cases hpc
  cases hm with
  | registerFailed h | registered h | started h | elapsed h | waitFailed h | ready h
  | notReady h =>
    rw [h] at hpc
    cases hpc
  | server _ _ hm => exact ⟨hm.keys, hq⟩
  | addTask | addShutdown => exact ⟨rfl, hq⟩
  | _ => exact ⟨rfl, by simp [Runner.ret]⟩

theorem used_eq_false (h : x.used tid = false) (j : Fin n) :
    tid ∉ (x.node j).server.workers.keys := by
  simpa [used] using (List.any_eq_false.mp h j (List.mem_finRange j))

theorem move_of_step (h : x.step a = some y) : x.Move a y := by
  cases a with
  | registered i ret =>
    obtain ⟨r, hr, rfl⟩ := Option.map_eq_some_iff.mp h
    cases Runner.move_of_step hr with
    | registerFailed hpc => exact .registered hpc rfl (by simp [Runner.ret])
    | registered hpc => exact .registered hpc rfl fun _ _ =>
        Runner.nextWorker_pc_ne _ _ (by simp) (by simp)
  | started i tid =>
    simp only [step] at h
    split_ifs at h with hused
    obtain ⟨r, hr, rfl⟩ := Option.map_eq_some_iff.mp h
    cases Runner.move_of_step hr with
    | started hpc => exact .started hpc (used_eq_false (by simpa using hused))
  | registerWorker tid =>
    simp only [step] at h
    split_ifs at h with htid
    cases h
    exact .registerWorker htid
  | wait i =>
    simp only [step] at h
    split at h
    · rename_i tid rest hidle
      obtain ⟨r, hr, rfl⟩ := Option.map_eq_some_iff.mp h
      have hwake : eventType (wakeWord tid) = some .wake :=
        eventType_eventWord (workerId_shiftedId tid) .wake
      cases Runner.move_of_step hr with
      | waitFailed _ hret => exact absurd rfl hret
      | ready hpc => exact .wait hpc hidle rfl fun _ _ =>
          Runner.nextWorker_pc_ne _ _ (by simp) (by simp)
      | notReady _ hne => exact absurd hwake hne
    · cases h
  | waitOther i ret event =>
    simp only [step] at h
    split_ifs at h with hwake
    obtain ⟨r, hr, rfl⟩ := Option.map_eq_some_iff.mp h
    cases Runner.move_of_step hr with
    | waitFailed hpc => exact .gaveUp hpc
    | ready _ he => exact absurd ⟨rfl, he⟩ hwake
    | notReady =>
      have hsame : x.setNode i (x.node i) = x := by simp [setNode]
      rw [hsame]
      exact .waitsOn
  | elapsed i =>
    obtain ⟨r, hr, rfl⟩ := Option.map_eq_some_iff.mp h
    cases Runner.move_of_step hr with
    | elapsed hpc => exact .gaveUp hpc
  | poll i taken =>
    obtain ⟨r, hr, rfl⟩ := Option.map_eq_some_iff.mp h
    have hm := Runner.move_of_step hr
    have hpc : (x.node i).pc = .waiting := by cases hm <;> assumption
    obtain ⟨hkeys, hnext⟩ := loop_of_move (by rw [hpc]; rfl) hm
    exact .loop (by rw [hpc]; rfl) hkeys hnext (List.drop_suffix taken x.idle)
  | loop i b =>
    simp only [step] at h
    split_ifs at h with hpc
    obtain ⟨r, hr, rfl⟩ := Option.map_eq_some_iff.mp h
    obtain ⟨hkeys, hnext⟩ := loop_of_move hpc (Runner.move_of_step hr)
    exact .loop hpc hkeys hnext (List.suffix_refl x.idle)

/-! ### One worker at a time -/

/-- At most one worker is on its way and at most one server waits for a registration. What is on its
way is then the worker that it waits for, unless another server has taken the `WAKE`; and only such
a server, or one that has given up, has a worker on its way. -/
structure RegInv (x : Handshake n τ) : Prop where
  length : x.onTheWay.length ≤ 1
  single : ∀ i j k k' tid tid', (x.node i).pc = .waitWorker k tid →
    (x.node j).pc = .waitWorker k' tid' → i = j
  waits : ∀ i k tid, (x.node i).pc = .waitWorker k tid → ∀ v ∈ x.onTheWay, v = tid
  own : ∀ i, ∀ tid ∈ x.onTheWay, tid ∈ x.workers i →
    (∃ k, (x.node i).pc = .waitWorker k tid) ∨ ∃ r, (x.node i).pc = .returned r

theorem new_regInv (total_workers : Fin n → ℕ) : (new total_workers : Handshake n τ).RegInv where
  length := Nat.zero_le 1
  single i j k k' tid tid' hpc := by simp [new, Runner.new] at hpc
  waits i k tid hpc := by simp [new, Runner.new] at hpc
  own i tid htid := by cases htid

@[simp] theorem setNode_node_self (x : Handshake n τ) (i : Fin n) (r : Runner τ) :
    (x.setNode i r).node i = r := Function.update_self ..

@[simp] theorem setNode_node_of_ne (x : Handshake n τ) (r : Runner τ) (h : j ≠ i) :
    (x.setNode i r).node j = x.node j := Function.update_of_ne h ..

@[simp] theorem setNode_starting (x : Handshake n τ) (i : Fin n) (r : Runner τ) :
    (x.setNode i r).starting = x.starting := rfl

@[simp] theorem setNode_idle (x : Handshake n τ) (i : Fin n) (r : Runner τ) :
    (x.setNode i r).idle = x.idle := rfl

theorem workers_setNode {r : Runner τ} (hr : r.server.workers.keys = x.workers i) :
    (x.setNode i r).workers = x.workers := by
  funext j
  unfold workers
  by_cases hj : j = i
  · subst hj
    rw [setNode_node_self]
    exact hr
  · rw [setNode_node_of_ne x r hj]

/-- The server `i` goes on to a point at which it does not wait for a registration, and entries are
taken off the list. -/
private theorem RegInv.setNode (h : x.RegInv) {r : Runner τ} {rest : List Int32}
    (hkeys : r.server.workers.keys = x.workers i) (hnext : ∀ k tid, r.pc ≠ .waitWorker k tid)
    (hrest : rest <:+ x.idle)
    (hown : ∀ tid ∈ x.starting ++ rest, tid ∈ x.workers i → ∃ o, r.pc = .returned o) :
    RegInv { x.setNode i r with idle := rest } := by
  have hsub : (x.starting ++ rest).Sublist x.onTheWay := hrest.sublist.append_left x.starting
  have hpc {j : Fin n} {k : ℕ} {tid : Int32}
      (hj : ((x.setNode i r).node j).pc = .waitWorker k tid) :
      (x.node j).pc = .waitWorker k tid := by
    by_cases hji : j = i
    · subst hji
      rw [setNode_node_self] at hj
      exact absurd hj (hnext k tid)
    · rwa [setNode_node_of_ne x r hji] at hj
  refine ⟨Nat.le_trans hsub.length_le h.length, fun j j' k k' v v' hj hj' =>
    h.single j j' k k' v v' (hpc hj) (hpc hj'), fun j k tid hj v hv =>
    h.waits j k tid (hpc hj) v (hsub.subset hv), fun j tid htid hmem => ?_⟩
  change tid ∈ (x.setNode i r).workers j at hmem
  rw [workers_setNode hkeys] at hmem
  change (∃ k, ((x.setNode i r).node j).pc = _) ∨ ∃ o, ((x.setNode i r).node j).pc = _
  by_cases hj : j = i
  · subst hj
    rw [setNode_node_self]
    exact .inr (hown tid htid hmem)
  · rw [setNode_node_of_ne x r hj]
    exact h.own j tid (hsub.subset htid) hmem

/-- A server that is not inside of `wait_for_worker_registration` and has not given up has no worker
on its way. -/
theorem RegInv.not_onTheWay (h : x.RegInv) (hwait : ∀ k tid, (x.node i).pc ≠ .waitWorker k tid)
    (hret : ∀ o, (x.node i).pc ≠ .returned o) (htid : tid ∈ x.onTheWay) : tid ∉ x.workers i := by
  intro hmem
  rcases h.own i tid htid hmem with ⟨k, hk⟩ | ⟨o, ho⟩
  · exact hwait k tid hk
  · exact hret o ho

/-- The `WAKE` that a server takes is the one of the worker it waits for. -/
theorem RegInv.idle_eq (h : x.RegInv) {k : ℕ} (hpc : (x.node i).pc = .waitWorker k tid)
    (hidle : x.idle ≠ []) : x.starting = [] ∧ x.idle = [tid] := by
  obtain ⟨v, rest, hv⟩ := List.exists_cons_of_ne_nil hidle
  have hlength := h.length
  rw [onTheWay, List.length_append, hv, List.length_cons] at hlength
  have hs : x.starting = [] := List.eq_nil_of_length_eq_zero (by omega)
  have hrest : rest = [] := List.eq_nil_of_length_eq_zero (by omega)
  have hvt : v = tid := h.waits i k tid hpc v (by simp [onTheWay, hv])
  exact ⟨hs, by rw [hv, hrest, hvt]⟩

/-- A server starts a worker while none is on its way and no other server waits for one. -/
private theorem regInv_started (hnone : x.onTheWay = [])
    (hother : ∀ j, j ≠ i → (x.node j).pc.awaits = false) {k : ℕ}
    (hnew : ∀ j, tid ∉ x.workers j) {r : Runner τ} (hpc : r.pc = .waitWorker k tid) :
    RegInv { x.setNode i r with starting := x.starting ++ [tid] } := by
  obtain ⟨hs, hi⟩ := List.append_eq_nil_iff.mp hnone
  have hway : (x.starting ++ [tid]) ++ x.idle = [tid] := by simp [hs, hi]
  -- only the server `i` waits
  have honly {j : Fin n} {k' : ℕ} {v : Int32}
      (hj : ((x.setNode i r).node j).pc = .waitWorker k' v) : j = i ∧ v = tid := by
    by_cases hji : j = i
    · subst hji
      rw [setNode_node_self, hpc] at hj
      cases hj
      exact ⟨rfl, rfl⟩
    · have hfalse := hother j hji
      rw [setNode_node_of_ne x r hji] at hj
      rw [hj] at hfalse
      cases hfalse
  refine ⟨by simp [onTheWay, hs, hi], fun j j' _ _ _ _ hj hj' =>
    (honly hj).1.trans (honly hj').1.symm, fun j k' v hj u hu => ?_, fun j v hv hmem => ?_⟩
  · change u ∈ (x.starting ++ [tid]) ++ x.idle at hu
    rw [hway, List.mem_singleton] at hu
    rw [hu, (honly hj).2]
  · change v ∈ (x.starting ++ [tid]) ++ x.idle at hv
    rw [hway, List.mem_singleton] at hv
    subst hv
    change v ∈ (x.setNode i r).workers j at hmem
    by_cases hj : j = i
    · subst hj
      exact .inl ⟨k, by simpa using hpc⟩
    · rw [workers, setNode_node_of_ne x r hj] at hmem
      exact absurd hmem (hnew j)

theorem RegInv.move (h : x.RegInv) (ha : x.OneAtATime a) (hm : x.Move a y) : y.RegInv := by
  cases hm with
  | @registered i ret r hpc hr hnext =>
    refine h.setNode (by rw [hr]; rfl) hnext (List.suffix_refl x.idle) fun tid htid hmem => ?_
    exact absurd hmem (h.not_onTheWay (by simp [hpc]) (by simp [hpc]) htid)
  | @started i tid k hpc hnew =>
    -- nothing is on its way: it would be a worker of the server, which is not waiting
    have hnone : x.onTheWay = [] := List.eq_nil_iff_forall_not_mem.mpr fun v hv =>
      h.not_onTheWay (by simp [hpc]) (by simp [hpc]) hv (ha.1 v hv)
    exact regInv_started hnone ha.2 hnew rfl
  | @registerWorker tid htid =>
    have hone : x.starting = [tid] ∧ x.idle = [] := by
      have hlength := h.length
      rw [onTheWay, List.length_append] at hlength
      have hpos := List.length_pos_of_mem htid
      have hs : x.starting.length = 1 := by omega
      obtain ⟨v, hv⟩ := List.length_eq_one_iff.mp hs
      rw [hv, List.mem_singleton] at htid
      exact ⟨htid ▸ hv, List.eq_nil_of_length_eq_zero (by omega)⟩
    have hway : x.starting.erase tid ++ (x.idle ++ [tid]) = x.onTheWay := by
      simp [onTheWay, hone.1, hone.2]
    refine ⟨?_, h.single, fun j k v hpc u hu => h.waits j k v hpc u (hway ▸ hu), fun j v hv =>
      h.own j v (hway ▸ hv)⟩
    change (x.starting.erase tid ++ (x.idle ++ [tid])).length ≤ 1
    rw [hway]
    exact h.length
  | @wait i tid tid' rest k r hpc hidle hr hnext =>
    obtain ⟨hs, hi⟩ := h.idle_eq hpc (by simp [hidle])
    obtain ⟨-, rfl⟩ : tid' = tid ∧ rest = [] := by simpa [hidle] using hi
    have hkeys : r.server.workers.keys = x.workers i := by
      rw [hr, Server.workerReady, Server.updateWorkerStatus_keys]
      rfl
    exact h.setNode hkeys hnext List.nil_suffix (by simp [hs])
  | waitsOn => exact h
  | @gaveUp i k tid e a hpc =>
    exact h.setNode rfl (by simp [Runner.ret]) (List.suffix_refl x.idle) fun _ _ _ => ⟨_, rfl⟩
  | @loop i rest a r hpc hkeys hnext hrest =>
    refine h.setNode hkeys hnext hrest fun tid htid hmem => ?_
    have htid' : tid ∈ x.onTheWay := (hrest.sublist.append_left x.starting).subset htid
    refine absurd hmem (h.not_onTheWay (fun k v hk => ?_) (fun o ho => ?_) htid')
    · rw [hk] at hpc
      cases hpc
    · rw [ho] at hpc
      cases hpc

/-- Every worker that is on its way is a worker of some server. -/
def Owned (x : Handshake n τ) : Prop := ∀ tid ∈ x.onTheWay, ∃ i, tid ∈ x.workers i

/-- The server `i` goes on with the same workers, and entries are taken off the list. -/
private theorem Owned.setNode (h : x.Owned) {r : Runner τ} {rest : List Int32}
    (hkeys : r.server.workers.keys = x.workers i) (hrest : rest <:+ x.idle) :
    Owned { x.setNode i r with idle := rest } := by
  intro v hv
  change ∃ j, v ∈ (x.setNode i r).workers j
  rw [workers_setNode hkeys]
  exact h v ((hrest.sublist.append_left x.starting).subset hv)

/-- The server `i` gets a new worker, which is on its way. -/
private theorem Owned.started (h : x.Owned) {r : Runner τ}
    (hkeys : r.server.workers.keys = x.workers i ++ [tid]) :
    Owned { x.setNode i r with starting := x.starting ++ [tid] } := by
  intro v hv
  change ∃ j, v ∈ (x.setNode i r).workers j
  have hself : (x.setNode i r).workers i = x.workers i ++ [tid] := by
    rw [workers, setNode_node_self, hkeys]
  have hv' : v ∈ x.onTheWay ∨ v = tid := by
    simp only [onTheWay, List.mem_append, List.mem_singleton] at hv ⊢
    tauto
  rcases hv' with hold | rfl
  · obtain ⟨j, hj⟩ := h v hold
    refine ⟨j, ?_⟩
    by_cases hji : j = i
    · subst hji
      rw [hself]
      exact List.mem_append_left _ hj
    · rwa [workers, setNode_node_of_ne x _ hji]
  · exact ⟨i, hself ▸ List.mem_append_right _ (List.mem_singleton_self v)⟩

theorem Owned.move (h : x.Owned) (hm : x.Move a y) : y.Owned := by
  cases hm with
  | registered hpc hr =>
    exact h.setNode (congrArg (·.workers.keys) hr) (List.suffix_refl x.idle)
  | @started i tid k hpc hnew => exact h.started (Server.keys_startWorker _ (hnew i))
  | @registerWorker tid htid =>
    intro v hv
    refine h v ?_
    simp only [onTheWay, List.mem_append, List.mem_singleton] at hv ⊢
    rcases hv with hv | hv | rfl
    · exact .inl (List.mem_of_mem_erase hv)
    · exact .inr hv
    · exact .inl htid
  | @wait i tid tid' rest k r hpc hidle hr =>
    exact h.setNode ((congrArg (·.workers.keys) hr).trans (Server.updateWorkerStatus_keys ..))
      ⟨[tid'], hidle.symm⟩
  | waitsOn => exact h
  | gaveUp => exact h.setNode rfl (List.suffix_refl x.idle)
  | loop hpc hkeys hnext hrest => exact h.setNode hkeys hrest

theorem owned_of_run {ok : Handshake n τ → HandshakeStep n τ → Prop}
    {total_workers : Fin n → ℕ} {l : List (HandshakeStep n τ)}
    (h : Run (Guarded step ok) (new total_workers) l x) : x.Owned :=
  h.invariant (by simp [Owned, new, onTheWay]) fun _ _ _ hI hs => hI.move (move_of_step hs.2)

/-- With one server, no worker of another server is on its way, and no other server waits. -/
theorem oneAtATime_single {ok : Handshake 1 τ → HandshakeStep 1 τ → Prop}
    {total_workers : Fin 1 → ℕ} {x : Handshake 1 τ} {l : List (HandshakeStep 1 τ)}
    (h : Run (Guarded step ok) (new total_workers) l x) (a : HandshakeStep 1 τ) :
    x.OneAtATime a := by
  cases a with
  | started i tid =>
    refine ⟨fun v hv => ?_, fun j hj => absurd (Subsingleton.elim j i) hj⟩
    obtain ⟨j, hj⟩ := owned_of_run h v hv
    rwa [Subsingleton.elim i j]
  | _ => trivial

/-- The status of the worker `tid` in the pool of the server `i`. -/
def status (x : Handshake n τ) (i : Fin n) (tid : Int32) : Option WorkerStatus :=
  ((x.node i).server.workers.get? tid).map Worker.status

theorem status_setNode (x : Handshake n τ) (i j : Fin n) (r : Runner τ) (tid : Int32) :
    (x.setNode i r).status j tid =
      if j = i then (r.server.workers.get? tid).map Worker.status else x.status j tid := by
  unfold status
  split_ifs with hj
  · rw [hj, setNode_node_self]
  · rw [setNode_node_of_ne x r hj]

theorem status_setNode_of_server {r : Runner τ} (hr : r.server = (x.node i).server)
    (j : Fin n) (tid : Int32) : (x.setNode i r).status j tid = x.status j tid := by
  rw [status_setNode, hr]
  split_ifs with hj
  · rw [hj]
    rfl
  · rfl

/-- Before the main loop only the end of a wait for a registration marks a worker as `Waiting`,
namely the one that the server waits for. -/
theorem Move.of_waiting (hm : x.Move a y) (hinit : (x.node i).pc.inLoop = false)
    (hbefore : x.status i tid ≠ some .waiting) (hafter : y.status i tid = some .waiting) :
    a = .wait i ∧ (∃ k, (x.node i).pc = .waitWorker k tid) ∧ x.idle ≠ [] := by
  cases hm with
  | @registered j ret r hpc hr =>
    rw [status_setNode_of_server hr] at hafter
    exact absurd hafter hbefore
  | @started j tid' k hpc hnew =>
    change (x.setNode j _).status i tid = _ at hafter
    rw [status_setNode, Server.startWorker_get?] at hafter
    split_ifs at hafter with hj htid
    · simp at hafter
    · subst hj
      exact absurd hafter hbefore
    · exact absurd hafter hbefore
  | registerWorker => exact absurd hafter hbefore
  | @wait j tid' v rest k r hpc hidle hr hnext =>
    change (x.setNode j r).status i tid = _ at hafter
    rw [status_setNode, hr, Server.workerReady, Server.updateWorkerStatus_get?] at hafter
    split_ifs at hafter with hj htid
    · subst hj htid
      exact ⟨rfl, ⟨k, hpc⟩, by simp [hidle]⟩
    · subst hj
      exact absurd hafter hbefore
    · exact absurd hafter hbefore
  | @gaveUp j _ _ e =>
    have hsame : ((x.node j).ret (.err e)).server = (x.node j).server := rfl
    rw [status_setNode_of_server hsame] at hafter
    exact absurd hafter hbefore
  | waitsOn => exact absurd hafter hbefore
  | @loop j rest a r hpc =>
    change (x.setNode j r).status i tid = _ at hafter
    rw [status_setNode] at hafter
    split_ifs at hafter with hj
    · rw [hj, hpc] at hinit
      cases hinit
    · exact absurd hafter hbefore

/-- In every run in which a worker is started only while no worker of another server is on its way
and no other server waits for a registration: a step with which the server `i` marks its worker
`tid` as `Waiting`, before it has come to its main loop, is a `Wait` of that server that takes the
`WAKE` of `tid`, which has completed its registration. The servers that are in their main loop do
anything meanwhile, and their `Wait` takes `WAKE`s from the same list. -/
theorem registration_wake (total_workers : Fin n → ℕ) (x y : Handshake n τ)
    (l : List (HandshakeStep n τ)) (h : Run (Guarded step OneAtATime) (new total_workers) l x)
    (a : HandshakeStep n τ) (hstep : x.step a = some y) (i : Fin n) (tid : Int32)
    (hinit : (x.node i).pc.inLoop = false) (hbefore : x.status i tid ≠ some .waiting)
    (hafter : y.status i tid = some .waiting) :
    a = .wait i ∧ x.idle.head? = some tid ∧ tid ∉ x.starting := by
  have hI : x.RegInv := h.invariant (new_regInv total_workers) fun _ _ _ hI hs =>
    hI.move hs.1 (move_of_step hs.2)
  obtain ⟨ha, ⟨k, hpc⟩, hidle⟩ := (move_of_step hstep).of_waiting hinit hbefore hafter
  obtain ⟨hs, hi⟩ := hI.idle_eq hpc hidle
  exact ⟨ha, by rw [hi]; rfl, by simp [hs]⟩

/-- The servers start their workers one after the other. The first one, in its main loop, takes the
`WAKE` of the first worker of the second server, which gives up; the third one goes on. -/
def inTurn : List (HandshakeStep 3 ℕ) :=
  [.registered 0 0, .registered 1 0, .registered 2 0, .started 0 7, .registerWorker 7, .wait 0,
    .loop 0 .tau, .loop 0 (.server .tau), .loop 0 (.server .tau), .loop 0 .tau, .started 1 9,
    .waitOther 1 0 0, .registerWorker 9, .poll 0 1, .elapsed 1, .started 2 11, .registerWorker 11]

theorem registration_wake_inTurn : ∃ x y : Handshake 3 ℕ,
    Run (Guarded step OneAtATime) (new fun _ => 1) inTurn x ∧ x.step (.wait 2) = some y ∧
      x.status 2 11 ≠ some .waiting ∧ y.status 2 11 = some .waiting ∧ x.idle.head? = some 11 := by
  have hrun : Run (Guarded step OneAtATime) (new fun _ => 1 : Handshake 3 ℕ) inTurn _ :=
    run_trace (by decide +kernel)
  refine ⟨_, _, hrun, rfl, by decide +kernel, by decide +kernel, ?_⟩
  exact (registration_wake _ _ _ _ hrun (.wait 2) rfl 2 11 (by decide +kernel) (by decide +kernel)
    (by decide +kernel)).2.1

/-- Both servers start their worker, and the worker of the second one registers first. -/
def crossed : List (HandshakeStep 2 ℕ) :=
  [.registered 0 0, .registered 1 0, .started 0 7, .started 1 9, .registerWorker 9]

/-- The first server takes the `WAKE` of the worker 9 and marks its worker 7 as `Waiting`, which has
not registered. -/
theorem registration_mixed : ∃ x y : Handshake 2 ℕ,
    Run (Guarded step fun _ _ => True) (new fun _ => 1) crossed x ∧ x.step (.wait 0) = some y ∧
      x.status 0 7 = some .registering ∧ y.status 0 7 = some .waiting ∧
      x.idle = [9] ∧ 7 ∈ y.starting := by
  have hrun : Run (Guarded step fun _ _ => True) (new fun _ => 1 : Handshake 2 ℕ) crossed _ :=
    run_trace (by decide +kernel)
  exact ⟨_, _, hrun, rfl, by decide +kernel, by decide +kernel, by decide +kernel,
    by decide +kernel⟩

end Handshake

end Umcg.Pool
