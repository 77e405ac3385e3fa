import Umcg.Pool.Member

/-!
# Several servers that share the kernel's list of woken workers

A worker whose system call is over goes to the end of one list for all servers, and a `Wait`, of
whichever server, takes the oldest entries: a buffer of six words has room for five events.
`Cluster` is this: the servers in the main loop of `run_server`, each with the threads of its own
workers, and the list.

`handle_umcg_event` looks a worker up in the pool of its own server and drops the `WAKE` of any
other worker, so a `WAKE` that the wrong server takes is lost. A server also loses the rest of its
events when `try_schedule_tasks` returns an error, which ends `run_server`. When neither happens
(`Cluster.Delivered`), every `WAKE` that a `Wait` returns finds its worker recorded as `Blocked`, is
handled before the next `Wait` of the server, and resumes the worker.

## Main results

* `Cluster.Sound.move` : the invariant of the cluster.
* `Cluster.Sound.held_move` : an event that a `Wait` has returned stays with the server until its
  worker is resumed.
* `Cluster.wake_resumes` : every `WAKE` that a `Wait` returns resumes its worker.
* `Cluster.wake_lost` : the `WAKE` of a worker of another server is dropped.
-/

namespace Umcg.Pool

/-- The servers, one for each `i : ι`, and the list of the workers whose system call is over. -/
structure Cluster (ι τ : Type) where
  member : ι → Member τ
  idle : List UInt64

/-- The steps of the servers, of their workers and of the kernel. -/
inductive ClusterStep (ι τ : Type)
  /-- The server `i` goes on in `run_server`. -/
  | run (i : ι)
  /-- A step inside of a call of the server `i`, or of one of its workers. -/
  | inside (i : ι) (a : MachineStep τ)
  /-- The `Wait` of the server `i` returns the given number of events. -/
  | wait (i : ι) (count : ℕ)
  /-- The `Wait` of the server `i` fails; a timeout is a failure. -/
  | waitFailed (i : ι) (ret errno : Int)
  /-- The system call of the worker `tid` of the server `i` is over. -/
  | unblock (i : ι) (tid : Int32)
  /-- A submitter adds a task to the queue of the server `i`. -/
  | addTask (i : ι) (id : ℕ) (task : τ)
  /-- `add_task` of the server `i` with `Task::Shutdown`. -/
  | addShutdown (i : ι)
  deriving DecidableEq

/-- A step of the thread of the server `i` after a `Wait`, or the end of its context switch. -/
def ClusterStep.ofServer {ι τ : Type} [DecidableEq ι] (i : ι) : ClusterStep ι τ → Bool
  | .run j => j = i
  | .inside j a => j = i && a.ofServer
  | _ => false

namespace Cluster

variable {ι τ : Type} [DecidableEq ι]

/-- Replace the server `i` and the list. -/
def set (x : Cluster ι τ) (i : ι) (y : Member τ) (idle : List UInt64) : Cluster ι τ :=
  ⟨Function.update x.member i y, idle⟩

/-- A step of `run_server` of the server `i`, which leaves the list `idle`. -/
def runStep (x : Cluster ι τ) (i : ι) (a : RunInput τ) (idle : List UInt64) :
    Option (Cluster ι τ) :=
  ((x.member i).runner.step a).map fun r => x.set i ((x.member i).setRunner r) idle

/-- One step. The last word of the buffer of `Wait` is not used for an event. -/
def step (x : Cluster ι τ) : ClusterStep ι τ → Option (Cluster ι τ)
  | .run i => x.runStep i .tau x.idle
  | .inside i a =>
    if a.inside then
      (((x.member i).machine []).step a).map fun m => x.set i ((x.member i).setMachine m) x.idle
    else none
  | .wait i count =>
    if count ≤ 5 then x.runStep i (.waited 0 0 (x.idle.take count)) (x.idle.drop count) else none
  | .waitFailed i ret errno =>
    if ret = 0 then none else x.runStep i (.waited ret errno []) x.idle
  | .unblock i tid =>
    if (x.member i).park tid = .blocked then
      some (x.set i { x.member i with park := Function.update (x.member i).park tid .ready }
        (x.idle ++ [eventOf tid .wake]))
    else none
  | .addTask i id task => x.runStep i (.addTask id task) x.idle
  | .addShutdown i => x.runStep i .addShutdown x.idle

/-- A `Wait` returns only events of workers of the server that has called it, and a context switch
that starts a task neither fails nor is answered `PREEMPT`. -/
def Delivered (x : Cluster ι τ) : ClusterStep ι τ → Prop
  | .wait i count => ∀ e ∈ x.idle.take count, Member.isFor (x.member i).workers e = true
  | .inside i a => ((x.member i).machine []).StartsTasks a
  | _ => True

instance (x : Cluster ι τ) : (a : ClusterStep ι τ) → Decidable (x.Delivered a)
  | .wait i count =>
    List.decidableBAll (fun e => Member.isFor (x.member i).workers e = true) (x.idle.take count)
  | .inside i a => inferInstanceAs (Decidable (((x.member i).machine []).StartsTasks a))
  | .run _ | .waitFailed _ _ _ | .unblock _ _ | .addTask _ _ _ | .addShutdown _ => .isTrue trivial

/-- The state after `initialize_workers` of every server. No thread is a worker of two servers. -/
structure Initial (x : Cluster ι τ) : Prop where
  disjoint : ∀ i j tid, tid ∈ (x.member i).workers → tid ∈ (x.member j).workers → i = j
  pc : ∀ i, (x.member i).runner.pc = .top
  machine : ∀ i, ((x.member i).machine []).Initial
  idle : x.idle = []

variable {x y : Cluster ι τ} {a : ClusterStep ι τ} {i j : ι} {pool : ι → List Int32}

@[simp] theorem set_member_self (x : Cluster ι τ) (i : ι) (y : Member τ) (idle : List UInt64) :
    (x.set i y idle).member i = y := Function.update_self ..

@[simp] theorem set_member_of_ne (x : Cluster ι τ) (y : Member τ) (idle : List UInt64) (h : j ≠ i) :
    (x.set i y idle).member j = x.member j := Function.update_of_ne h ..

/-- The invariant of the cluster; `pool` are the workers of each server. -/
structure Sound (pool : ι → List Int32) (x : Cluster ι τ) : Prop where
  disjoint : ∀ i j tid, tid ∈ pool i → tid ∈ pool j → i = j
  member : ∀ i, (x.member i).Ok (pool i) x.idle

omit [DecidableEq ι] in
theorem Initial.sound (h : x.Initial) : x.Sound fun i => (x.member i).workers where
  disjoint := h.disjoint
  member i := by
    have hpending : (x.member i).runner.pc.pending = [] := by
      rw [h.pc]
      rfl
    refine ⟨rfl, ⟨.outside, ?_⟩, by simp [h.pc], by simp [hpending]⟩
    rw [Member.view, hpending, h.idle]
    exact (h.machine i).idleAt

/-- The server `i` takes a step, and no event of another server is taken from the list or put
there. -/
private theorem Sound.set (h : x.Sound pool) {N : Member τ} {idle : List UInt64}
    (hi : N.Ok (pool i) idle)
    (hj : ∀ j, j ≠ i →
      idle.filter (Member.isFor (pool j)) = x.idle.filter (Member.isFor (pool j))) :
    (x.set i N idle).Sound pool := by
  refine ⟨h.disjoint, fun j => ?_⟩
  by_cases hji : j = i
  · subst hji
    rw [set_member_self]
    exact hi
  · rw [set_member_of_ne x N idle hji]
    obtain ⟨hw, hidle, hun, hp⟩ := h.member j
    refine ⟨hw, ?_, hun, hp⟩
    change ∃ p, ((x.member j).view (pool j) idle).IdleAt p
    rwa [Member.view, hj j hji]

omit [DecidableEq ι] in
/-- An event of the server `i` is not one of another server. -/
private theorem Sound.isFor_eq_false (h : x.Sound pool) {e : UInt64} (hji : j ≠ i)
    (he : Member.isFor (pool i) e = true) : Member.isFor (pool j) e = false := by
  by_contra hne
  simp only [Member.isFor, decide_eq_true_eq, Bool.not_eq_false] at he hne
  exact hji (h.disjoint j i _ hne he)

private theorem runStep_eq_some {b : RunInput τ} {idle : List UInt64}
    (h : x.runStep i b idle = some y) :
    ∃ r, (x.member i).runner.Move b r ∧ y = x.set i ((x.member i).setRunner r) idle := by
  obtain ⟨r, hr, rfl⟩ := Option.map_eq_some_iff.mp h
  exact ⟨r, Runner.move_of_step hr, rfl⟩

theorem Sound.move (h : x.Sound pool) (ha : x.Delivered a) (hstep : x.step a = some y) :
    y.Sound pool := by
  cases a with
  | run i =>
    obtain ⟨r, hr, rfl⟩ := runStep_eq_some hstep
    exact h.set ((h.member i).run hr) fun _ _ => rfl
  | inside i a =>
    simp only [step] at hstep
    split_ifs at hstep with hin
    obtain ⟨m, hm, rfl⟩ := Option.map_eq_some_iff.mp hstep
    exact h.set ((h.member i).inside hin ha hm) fun _ _ => rfl
  | wait i count =>
    simp only [step] at hstep
    split_ifs at hstep with hcount
    obtain ⟨r, hr, rfl⟩ := runStep_eq_some hstep
    have hfor : ∀ e ∈ x.idle.take count, Member.isFor (pool i) e = true := by
      intro e he
      rw [← (h.member i).workers]
      exact ha e he
    have hi := h.member i
    rw [← List.take_append_drop count x.idle] at hi
    refine h.set (hi.waited ((List.length_take_le _ _).trans hcount) hfor hr) fun j hji => ?_
    have hsplit := List.filter_append (p := Member.isFor (pool j)) (x.idle.take count)
      (x.idle.drop count)
    rw [List.take_append_drop] at hsplit
    have hnone : (x.idle.take count).filter (Member.isFor (pool j)) = [] :=
      List.filter_eq_nil_iff.mpr fun e he => by simp [h.isFor_eq_false hji (hfor e he)]
    rw [hsplit, hnone, List.nil_append]
  | waitFailed i ret errno =>
    simp only [step] at hstep
    split_ifs at hstep with hret
    obtain ⟨r, hr, rfl⟩ := runStep_eq_some hstep
    exact h.set ((h.member i).waitFailed hr) fun _ _ => rfl
  | unblock i tid =>
    simp only [step] at hstep
    split_ifs at hstep with hb
    cases hstep
    obtain ⟨hmem, hok⟩ := (h.member i).unblock hb
    refine h.set hok fun j hji => ?_
    have hfor := h.isFor_eq_false (e := eventOf tid .wake) hji (by simpa [Member.isFor] using hmem)
    simp [hfor]
  | addTask i id task =>
    obtain ⟨r, hr, rfl⟩ := runStep_eq_some hstep
    exact h.set ((h.member i).submit (.inl ⟨id, task, rfl⟩) hr) fun _ _ => rfl
  | addShutdown i =>
    obtain ⟨r, hr, rfl⟩ := runStep_eq_some hstep
    exact h.set ((h.member i).submit (.inr rfl) hr) fun _ _ => rfl

/-- An event stays with the server until its worker is resumed, and every step of the server brings
it closer. -/
theorem Sound.held_move (h : x.Sound pool) (hstep : x.step a = some y) {e : UInt64}
    (hheld : (x.member i).Held e) :
    (∃ tid, e = eventOf tid .wake ∧ (x.member i).Resumes tid (y.member i)) ∨
      (y.member i).Held e ∧ (y.member i).rank + (a.ofServer i).toNat ≤ (x.member i).rank := by
  -- a step of another server
  have hother : ∀ {j N idle}, y = x.set j N idle → j ≠ i → a.ofServer i = false →
      (y.member i).Held e ∧ (y.member i).rank + (a.ofServer i).toNat ≤ (x.member i).rank := by
    rintro j N idle rfl hji hown
    rw [set_member_of_ne x N idle hji.symm, hown]
    exact ⟨hheld, le_rfl⟩
  cases a with
  | run j =>
    obtain ⟨r, hr, hy⟩ := runStep_eq_some hstep
    right
    by_cases hji : j = i
    · subst hji hy
      rw [set_member_self]
      obtain ⟨hheld', hrank⟩ := hheld.run (h.member j) hr
      have hown : (ClusterStep.run j : ClusterStep ι τ).ofServer j = true := by
        simp [ClusterStep.ofServer]
      rw [hown]
      exact ⟨hheld', hrank⟩
    · exact hother hy hji (by simp [ClusterStep.ofServer, hji])
  | inside j a =>
    simp only [step] at hstep
    split_ifs at hstep with hin
    obtain ⟨m, hm, hy⟩ := Option.map_eq_some_iff.mp hstep
    by_cases hji : j = i
    · subst hji hy
      rw [set_member_self]
      simpa [ClusterStep.ofServer] using hheld.inside (h.member j) hin hm
    · exact .inr (hother hy.symm hji (by simp [ClusterStep.ofServer, hji]))
  | wait j count =>
    simp only [step] at hstep
    split_ifs at hstep with hcount
    obtain ⟨r, hr, hy⟩ := runStep_eq_some hstep
    right
    by_cases hji : j = i
    · subst hji
      exact absurd hr hheld.not_waited
    · exact hother hy hji rfl
  | waitFailed j ret errno =>
    simp only [step] at hstep
    split_ifs at hstep with hret
    obtain ⟨r, hr, hy⟩ := runStep_eq_some hstep
    right
    by_cases hji : j = i
    · subst hji
      exact absurd hr hheld.not_waited
    · exact hother hy hji rfl
  | unblock j tid =>
    simp only [step] at hstep
    split_ifs at hstep with hb
    have hy := (Option.some.inj hstep).symm
    right
    by_cases hji : j = i
    · subst hji hy
      rw [set_member_self]
      exact ⟨hheld, le_rfl⟩
    · exact hother hy hji rfl
  | addTask j id task =>
    obtain ⟨r, hr, hy⟩ := runStep_eq_some hstep
    right
    by_cases hji : j = i
    · subst hji hy
      rw [set_member_self]
      cases hr
      exact ⟨hheld, le_rfl⟩
    · exact hother hy hji rfl
  | addShutdown j =>
    obtain ⟨r, hr, hy⟩ := runStep_eq_some hstep
    right
    by_cases hji : j = i
    · subst hji hy
      rw [set_member_self]
      cases hr
      exact ⟨hheld, le_rfl⟩
    · exact hother hy hji rfl

/-- In every run in which a `Wait` returns only events of workers of its own server, and a context
switch that starts a task neither fails nor is answered `PREEMPT`: every event `e` that a `Wait` of
the server `i` returns is the `WAKE` of a worker of this server that is recorded as `Blocked`. Later
this worker has been set to `Running` and switched to; or the event is still with the server, the
worker is still `Blocked`, and the server has made fewer than 100 steps since. -/
theorem wake_resumes (c x y z : Cluster ι τ) (l l' : List (ClusterStep ι τ)) (h₀ : c.Initial)
    (h : Run (Guarded step Delivered) c l x) (i : ι) (count : ℕ)
    (hwait : Guarded step Delivered x (.wait i count) y)
    (h' : Run (Guarded step Delivered) y l' z) (e : UInt64) (he : e ∈ x.idle.take count) :
    ∃ tid ∈ (c.member i).workers, e = eventOf tid .wake ∧ (y.member i).status tid = some .blocked ∧
      ((∃ l₁ a l₂ u v, l' = l₁ ++ a :: l₂ ∧ Run (Guarded step Delivered) y l₁ u ∧
          Guarded step Delivered u a v ∧ (u.member i).Resumes tid (v.member i)) ∨
        (z.member i).Held e ∧ (z.member i).status tid = some .blocked ∧
          l'.countP (·.ofServer i) < 100) := by
  have hx : x.Sound fun i => (c.member i).workers :=
    h.invariant h₀.sound fun _ _ _ hI hs => hI.move hs.1 hs.2
  have hy := hx.move hwait.1 hwait.2
  obtain ⟨hheld, hrank⟩ : (y.member i).Held e ∧ (y.member i).rank < 100 := by
    obtain ⟨hown, hstep⟩ := hwait
    simp only [step] at hstep
    split_ifs at hstep with hcount
    obtain ⟨r, hr, rfl⟩ := runStep_eq_some hstep
    have hi := hx.member i
    rw [← List.take_append_drop count x.idle] at hi
    rw [set_member_self]
    exact hi.held_of_waited ((List.length_take_le _ _).trans hcount)
      (fun e he => hi.workers ▸ hown e he) hr he
  obtain ⟨tid, htid, rfl, hb⟩ := hheld.blocked (hy.member i)
  refine ⟨tid, htid, rfl, hb, ?_⟩
  have hrun := h'.response
    (P := fun u => u.Sound (fun i => (c.member i).workers) ∧ (u.member i).Held (eventOf tid .wake))
    (Q := fun u _ v => (u.member i).Resumes tid (v.member i)) (·.ofServer i)
    (fun u => (u.member i).rank) ⟨hy, hheld⟩ fun u a v ⟨hu, hheld⟩ hs => ?_
  · rcases hrun with ⟨l₁, a, l₂, u, v, hl, hu, hs, hres⟩ | ⟨⟨hz, hheld⟩, hle⟩
    · exact .inl ⟨l₁, a, l₂, u, v, hl, hu, hs, hres⟩
    · obtain ⟨v, -, hv, hb⟩ := hheld.blocked (hz.member i)
      obtain rfl := tid_eq_of_eventOf hv
      exact .inr ⟨hheld, hb, by omega⟩
  · rcases hu.held_move hs.2 hheld with ⟨v, hv, hres⟩ | hheld'
    · obtain rfl := tid_eq_of_eventOf hv
      exact .inl hres
    · exact .inr ⟨⟨hu.move hs.1 hs.2, hheld'.1⟩, hheld'.2⟩

/-- A server after `initialize_workers`, with the one worker `tid`. -/
def memberOf (id : ℕ) (tid : Int32) : Member ℕ where
  runner := { (Runner.new id 1 : Runner ℕ) with
    server := (Server.new.startWorker tid).workerReady tid
    registered := true
    pc := .top }
  thread _ := ⟨[], .starting⟩
  park v := if v = tid then .ready else .unregistered

theorem workers_memberOf (id : ℕ) (tid : Int32) : (memberOf id tid).workers = [tid] :=
  (Server.updateWorkerStatus_keys ..).trans (Server.keys_startWorker _ List.not_mem_nil)

theorem memberOf_initial (id : ℕ) (tid : Int32) : ((memberOf id tid).machine []).Initial where
  control := ⟨_, rfl⟩
  stack := rfl
  workers v w hw := by
    replace hw : ((Server.new.startWorker tid).workerReady tid : Server ℕ).workers.get? v =
      some w := hw
    rw [Server.workerReady, Server.updateWorkerStatus_get?, Server.startWorker_get?] at hw
    split_ifs at hw
    · exact (Option.some.inj hw).symm
    · cases hw
  thread _ := rfl
  park v := by
    change (if v = tid then Park.ready else .unregistered) =
      if v ∈ (memberOf id tid).workers then .ready else .unregistered
    simp only [workers_memberOf, List.mem_singleton]
  inbox := rfl

/-- Two servers. -/
inductive Side
  | left
  | right
  deriving DecidableEq, Repr

/-- Two servers with the workers 7 and 9. -/
def pair : Cluster Side ℕ where
  member
    | .left => memberOf 0 7
    | .right => memberOf 1 9
  idle := []

theorem pair_initial : pair.Initial where
  disjoint i j tid hi hj := by
    cases i <;> cases j <;> simp only [pair, workers_memberOf, List.mem_singleton] at hi hj ⊢
    · cases hi.symm.trans hj
    · cases hi.symm.trans hj
  pc i := by cases i <;> rfl
  machine i := by cases i <;> exact memberOf_initial _ _
  idle := rfl

/-- The worker 9 takes a task and blocks in it. Its server calls `Wait`, and the system call of the
worker is over. -/
def wakeNine : List (ClusterStep Side ℕ) :=
  [.addTask .right 1 10, .run .right, .inside .right .tau, .inside .right .send,
    .inside .right .resume, .inside .right (.worker 9 (.registered 0)),
    .inside .right (.worker 9 (.poll true)), .inside .right (.stop .block), .inside .right .tau,
    .inside .right .tau, .inside .right .tau, .inside .right .tau, .inside .right .tau,
    .run .right, .unblock .right 9]

theorem wake_resumes_wakeNine : ∃ x y z : Cluster Side ℕ,
    Run (Guarded step Delivered) pair wakeNine x ∧ Guarded step Delivered x (.wait .right 1) y ∧
      Run (Guarded step Delivered) y [.inside .right .tau] z ∧
      ∃ tid ∈ (pair.member .right).workers, eventOf 9 .wake = eventOf tid .wake ∧
        (y.member .right).status tid = some .blocked ∧
        (z.member .right).status tid = some .running := by
  obtain ⟨x, y, z, hrun, hwait, hrun', he, hz⟩ : ∃ x y z : Cluster Side ℕ,
      Run (Guarded step Delivered) pair wakeNine x ∧ Guarded step Delivered x (.wait .right 1) y ∧
        Run (Guarded step Delivered) y [.inside .right .tau] z ∧ eventOf 9 .wake ∈ x.idle.take 1 ∧
        (z.member .right).status 9 = some .running :=
    ⟨_, _, _, run_trace (by decide +kernel),
      ⟨by decide +kernel, (Option.some_get (by decide +kernel)).symm⟩,
      run_trace (by decide +kernel), by decide +kernel, by decide +kernel⟩
  obtain ⟨tid, htid, htid', hb, -⟩ :=
    wake_resumes pair x y z _ _ pair_initial hrun .right 1 hwait hrun' (eventOf 9 .wake) he
  obtain rfl := tid_eq_of_eventOf htid'
  exact ⟨x, y, z, hrun, hwait, hrun', 9, htid, rfl, hb, hz⟩

/-- The left server calls `Wait`. -/
def waitLeft : List (ClusterStep Side ℕ) :=
  [.run .left, .inside .left .tau, .inside .left .tau, .run .left]

/-- The left server handles an event and goes through the rest of its loop. -/
def handleLeft : List (ClusterStep Side ℕ) :=
  [.inside .left .tau, .inside .left .tau, .run .left, .inside .left .tau, .inside .left .tau,
    .run .left]

/-- The `Wait` of the left server returns the `WAKE` of the worker 9, and the left server drops it.
The worker is ready, is recorded as `Blocked`, and nobody has an event of it any more. -/
theorem wake_lost : ∃ x y z : Cluster Side ℕ,
    Run (Guarded step fun _ _ => True) pair (wakeNine ++ waitLeft) x ∧
      x.idle = [eventOf 9 .wake] ∧ x.step (.wait .left 1) = some y ∧
      Run (Guarded step fun _ _ => True) y handleLeft z ∧ (z.member .left).runner.pc = .top ∧
      (z.member .right).runner.pc = .waiting ∧ z.idle = [] ∧
      (z.member .right).status 9 = some .blocked ∧ (z.member .right).park 9 = .ready :=
  ⟨_, _, _, run_trace (by decide +kernel), by decide +kernel,
    (Option.some_get (by decide +kernel)).symm, run_trace (by decide +kernel), by decide +kernel,
    by decide +kernel, by decide +kernel, by decide +kernel, by decide +kernel⟩

end Cluster

end Umcg.Pool
