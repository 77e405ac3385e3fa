import Mathlib.Data.List.TakeWhile
import Umcg.Pool.Progress

/-!
# A server that shares the kernel's list of woken workers

A `Member` is a server in `run_server` together with the threads of its workers. It gets its events
from a list that the kernel has for all servers, so the events on their way to it are those that its
last `Wait` has returned and those of its workers in the list (`Member.view`). As long as it takes
only events of its own workers from the list, `Machine.IdleAt` carries over (`Member.Ok`).

## Main results

* `Member.Ok.run`, `Member.Ok.inside`, `Member.Ok.waited`, `Member.Ok.unblock` : the steps of the
  server, of its workers and of the kernel keep the invariant.
* `Member.Held.run`, `Member.Held.inside` : an event that a `Wait` has returned stays with the
  server until its worker is resumed, and every step of the server brings this closer.
-/

namespace Umcg.Pool

/-- The events that a `Wait` has returned and that have not been handled. -/
def RunPc.pending : RunPc → List UInt64
  | .scheduling (some rest) | .handling rest => rest
  | _ => []

/-- A server in `run_server`, its worker threads and the kernel's view of them. -/
structure Member (τ : Type) where
  runner : Runner τ
  thread : Int32 → WorkerThread τ
  park : Int32 → Park

namespace Member

variable {τ : Type} {x y : Member τ} {idle : List UInt64} {pool : List Int32} {e : UInt64}
  {tid : Int32}

/-- The server and its workers, with the given events on their way to it. -/
def machine (x : Member τ) (inbox : List UInt64) : Machine τ :=
  ⟨x.runner.server, x.thread, x.park, inbox⟩

/-- `run_server` goes on. -/
def setRunner (x : Member τ) (r : Runner τ) : Member τ := { x with runner := r }

/-- A step inside of a call, or of a worker. -/
def setMachine (x : Member τ) (m : Machine τ) : Member τ :=
  ⟨{ x.runner with server := m.server }, m.thread, m.park⟩

/-- The workers of the pool. -/
def workers (x : Member τ) : List Int32 := x.runner.server.workers.keys

/-- The status of the worker `tid` in the pool. -/
def status (x : Member τ) (tid : Int32) : Option WorkerStatus := x.runner.server.status tid

/-- An event of a worker in `pool`. -/
def isFor (pool : List Int32) (e : UInt64) : Bool := workerTid e ∈ pool

/-- The server with the events that are meant for it: those that its last `Wait` has returned, and
those of its workers in the list of the kernel. -/
def view (x : Member τ) (pool : List Int32) (idle : List UInt64) : Machine τ :=
  x.machine (x.runner.pc.pending ++ idle.filter (isFor pool))

/-- The invariant of a server with the workers `pool`. -/
structure Ok (pool : List Int32) (x : Member τ) (idle : List UInt64) : Prop where
  workers : x.workers = pool
  idleAt : ∃ p, (x.view pool idle).IdleAt p
  unfailing : ∀ rest, x.runner.pc = .scheduling rest → x.runner.server.Unfailing
  pending : ∀ e ∈ x.runner.pc.pending, ∃ tid, e = eventOf tid .wake ∧ x.status tid = some .blocked

/-- `run_server` goes on to another point without a call, or a submitter adds a task. -/
private theorem Ok.setRunner (h : x.Ok pool idle) {r : Runner τ}
    (hw : r.server.workers = x.runner.server.workers)
    (hc : r.server.control = x.runner.server.control)
    (hs : r.server.stack = x.runner.server.stack) (hp : r.pc.pending = x.runner.pc.pending)
    (hun : ∀ rest, r.pc = .scheduling rest → x.runner.pc = .scheduling rest) :
    (x.setRunner r).Ok pool idle := by
  have hst : r.server.status = x.runner.server.status := by
    funext v
    rw [Server.status, Server.status, hw]
  obtain ⟨p, hp'⟩ := h.idleAt
  refine ⟨(congrArg Table.keys hw).trans h.workers, ⟨p, hp'.congr hc hs hst rfl rfl ?_⟩,
    fun rest hr => (h.unfailing rest (hun rest hr)).congr hc hs, fun e he => ?_⟩
  · change r.pc.pending ++ _ = x.runner.pc.pending ++ _
    rw [hp]
  · obtain ⟨tid, rfl, hb⟩ := h.pending e (hp ▸ he)
    exact ⟨tid, rfl, (congrFun hst tid).trans hb⟩

/-- In the loop of `run_server` no call is under way. -/
private theorem Ok.stack (h : x.Ok pool idle) {o : Outcome}
    (hc : x.runner.server.control = .loop o) : x.runner.server.stack = [] := by
  obtain ⟨p, hidle⟩ := h.idleAt
  obtain rfl := hidle.server.eq_outside hc
  exact hidle.server.1

/-- `run_server` calls `try_schedule_tasks`. -/
private theorem Ok.schedule (h : x.Ok pool idle) {o : Outcome}
    (hc : x.runner.server.control = .loop o) {rest : Option (List UInt64)}
    (hp : (RunPc.scheduling rest).pending = x.runner.pc.pending) :
    (x.setRunner { x.runner with
      server := { x.runner.server with control := .schedule },
      pc := .scheduling rest }).Ok pool idle := by
  obtain ⟨p, hidle⟩ := h.idleAt
  have hstep : (x.view pool idle).step .schedule = some
      ((x.view pool idle).setServer { x.runner.server with control := .schedule }) := by
    simp [Machine.step, Server.step, view, machine, hc]
  obtain ⟨q, hq⟩ := hidle.step (x := .schedule) trivial hstep
  refine ⟨h.workers, ⟨q, hq.congr rfl rfl rfl rfl rfl ?_⟩,
    fun _ _ => Server.unfailing_schedule (h.stack hc), fun e he => h.pending e (hp ▸ he)⟩
  change (RunPc.scheduling rest).pending ++ _ = x.runner.pc.pending ++ _
  rw [hp]

/-- `run_server` calls `handle_umcg_event` for the next event that is meant for it. -/
private theorem Ok.recv (h : x.Ok pool idle) {o : Outcome}
    (hc : x.runner.server.control = .loop o) {rest idle' : List UInt64}
    (hinbox : x.runner.pc.pending ++ idle.filter (isFor pool) =
      e :: (rest ++ idle'.filter (isFor pool))) :
    (x.setRunner { x.runner with
      server := { x.runner.server with control := .handle e },
      pc := .handling rest }).Ok pool idle' := by
  obtain ⟨p, hidle⟩ := h.idleAt
  obtain rfl := hidle.server.eq_outside hc
  have hmem : (x.view pool idle).inbox = e :: (rest ++ idle'.filter (isFor pool)) := hinbox
  have hstep : (x.view pool idle).step (.recv e) = some
      { (x.view pool idle).setServer { x.runner.server with control := .handle e } with
        inbox := rest ++ idle'.filter (isFor pool) } := by
    have hcall : (x.view pool idle).server.step (.event e) =
        some { x.runner.server with control := .handle e } := by
      simp [Server.step, view, machine, hc]
    simp only [Machine.step]
    rw [hmem, if_pos List.mem_cons_self, hcall, List.erase_cons_head]
    rfl
  obtain ⟨q, hq⟩ := hidle.step (x := .recv e) trivial hstep
  refine ⟨h.workers, ⟨q, hq⟩, by simp [Member.setRunner], fun e' he' => ?_⟩
  have hin : e' ∈ (x.view pool idle).inbox := by
    rw [hmem]
    exact List.mem_cons_of_mem e (List.mem_append_left _ he')
  obtain ⟨tid, he, -, hsleep⟩ := hidle.wakes e' hin
  have hst : (x.view pool idle).server.status tid = some .blocked := by
    simpa [Machine.Asleep] using hsleep
  exact ⟨tid, he, hst⟩

/-- `run_server` goes on by itself. -/
theorem Ok.run (h : x.Ok pool idle) {r : Runner τ} (hm : x.runner.Move .tau r) :
    (x.setRunner r).Ok pool idle := by
  cases hm with
  | leave hpc | wait hpc | again hpc | shutdown hpc =>
    exact h.setRunner rfl rfl rfl (by simp [hpc, RunPc.pending, Runner.ret]) (by simp [Runner.ret])
  | schedule hpc hc | handled hpc hc => exact h.schedule hc (by simp [hpc, RunPc.pending])
  | nextEvent hpc hc => exact h.recv hc (by simp [hpc, RunPc.pending])
  | scheduleFailed hpc hc => simpa using (h.unfailing _ hpc).loop _ hc

/-- A step inside of a call, or of a worker. -/
theorem Ok.inside (h : x.Ok pool idle) {a : MachineStep τ} (ha : a.inside = true)
    (hok : (x.machine []).StartsTasks a) {m : Machine τ}
    (hm : (x.machine []).step a = some m) : (x.setMachine m).Ok pool idle := by
  obtain ⟨p, hidle⟩ := h.idleAt
  have hstep := Machine.step_inbox ha hm (x.view pool idle).inbox
  have hok' : (x.view pool idle).StartsTasks a := hok
  obtain ⟨q, hq⟩ := hidle.step hok' hstep
  -- a worker whose `WAKE` has been returned does not run before the `WAKE` is handled
  have hpending : m.server = x.runner.server ∨ (∃ i, Server.Move x.runner.server i m.server) →
      ∀ e ∈ x.runner.pc.pending, ∃ tid, e = eventOf tid .wake ∧
        m.server.status tid = some .blocked := by
    intro hmove e he
    obtain ⟨tid, rfl, hb⟩ := h.pending e he
    refine ⟨tid, rfl, ?_⟩
    obtain ⟨v, hv, -, hsleep⟩ := hq.wakes (eventOf tid .wake) (List.mem_append_left _ he)
    obtain rfl := tid_eq_of_eventOf hv
    rcases hsleep with hsleep | ⟨start, rfl⟩
    · exact hsleep
    · have hr : m.server.status tid = some .running := hq.ok.1
      rcases hmove with hsame | ⟨i, hmove⟩
      · rw [hsame] at hr
        exact absurd (hb.symm.trans hr) (by simp)
      · have hc := hmove.switching_of_status hb hr
        rcases hq.server with ⟨-, hc'⟩ | ⟨-, hc'⟩ <;> cases hc.symm.trans hc'
  rcases Machine.server_of_inside ha hm with ⟨-, hsame⟩ | ⟨-, i, hi, hserver⟩
  · refine ⟨(congrArg (·.workers.keys) hsame).trans h.workers, ⟨q, hq⟩, fun rest hr => ?_,
      hpending (.inl hsame)⟩
    change m.server.Unfailing
    rw [hsame]
    exact h.unfailing rest hr
  · have hmove := Server.move_of_step hserver
    have hwell := hidle.switchesWell hok' hi hserver
    exact ⟨hmove.keys.trans h.workers, ⟨q, hq⟩,
      fun rest hr => (h.unfailing rest hr).move hwell hi.not_call hmove,
      hpending (.inr ⟨i, hmove⟩)⟩

/-- An event of its own worker that is on its way to the server is a `WAKE`. -/
theorem Ok.eq_wake (h : x.Ok pool idle) (he : e ∈ idle) (hfor : isFor pool e = true) :
    ∃ tid, e = eventOf tid .wake := by
  obtain ⟨p, hidle⟩ := h.idleAt
  obtain ⟨tid, rfl, -⟩ := hidle.wakes e
    (List.mem_append_right _ (List.mem_filter.mpr ⟨he, hfor⟩))
  exact ⟨tid, rfl⟩

/-- `run_server` reads all of the events that its `Wait` has returned. -/
theorem Ok.read_eq {l rest : List UInt64} (h : x.Ok pool (l ++ rest)) (hl : l.length ≤ 5)
    (hfor : ∀ e ∈ l, isFor pool e = true) : (l.take 6).takeWhile (· ≠ 0) = l := by
  rw [List.take_of_length_le (by omega), List.takeWhile_eq_self_iff]
  intro e he
  obtain ⟨tid, rfl⟩ := h.eq_wake (List.mem_append_left rest he) (hfor e he)
  simpa using ne_zero_of_eventType (eventType_eventOf tid .wake)

/-- The `Wait` of the server returns the events `l`, all of them of its own workers. -/
theorem Ok.waited {l rest : List UInt64} (h : x.Ok pool (l ++ rest)) (hl : l.length ≤ 5)
    (hfor : ∀ e ∈ l, isFor pool e = true) {r : Runner τ} (hm : x.runner.Move (.waited 0 0 l) r) :
    (x.setRunner r).Ok pool rest := by
  have hread := h.read_eq hl hfor
  cases hm with
  | waitError _ hret => exact absurd rfl hret
  | noEvents hpc he =>
    obtain rfl : l = [] := hread.symm.trans he
    exact h.setRunner rfl rfl rfl (by simp [hpc, RunPc.pending]) (by simp)
  | @firstEvent _ _ _ e rest' o hpc hc he =>
    obtain rfl : l = e :: rest' := hread.symm.trans he
    refine h.recv hc ?_
    rw [List.filter_append, List.filter_eq_self.mpr hfor, hpc]
    rfl

/-- The `Wait` of the server fails, or is over without an event. -/
theorem Ok.waitFailed (h : x.Ok pool idle) {ret errno : Int} {r : Runner τ}
    (hm : x.runner.Move (.waited ret errno []) r) : (x.setRunner r).Ok pool idle := by
  cases hm with
  | waitError hpc | noEvents hpc =>
    exact h.setRunner rfl rfl rfl (by simp [hpc, RunPc.pending, Runner.ret]) (by simp [Runner.ret])
  | firstEvent hpc hc he => simp at he

/-- A submitter adds a task or shuts the server down. -/
theorem Ok.submit (h : x.Ok pool idle) {a : RunInput τ}
    (ha : (∃ id task, a = .addTask id task) ∨ a = .addShutdown) {r : Runner τ}
    (hm : x.runner.Move a r) : (x.setRunner r).Ok pool idle := by
  rcases ha with ⟨id, task, rfl⟩ | rfl
  · cases hm
    exact h.setRunner rfl rfl rfl rfl fun _ hr => hr
  · cases hm
    exact h.setRunner rfl rfl rfl rfl fun _ hr => hr

/-- The system call of the worker `tid` is over. -/
theorem Ok.unblock (h : x.Ok pool idle) (hb : x.park tid = .blocked) :
    tid ∈ pool ∧ Ok pool { x with park := Function.update x.park tid .ready }
      (idle ++ [eventOf tid .wake]) := by
  obtain ⟨p, hidle⟩ := h.idleAt
  have hmem : tid ∈ pool := by
    rw [← h.workers]
    rcases (hidle.blocked tid hb).2 with hst | ⟨start, rfl⟩
    · exact Server.mem_keys_of_status hst
    · exact Server.mem_keys_of_status hidle.ok.1
  have hstep : (x.view pool idle).step (.unblock tid) = some
      { (x.view pool idle).setPark tid .ready with
        inbox := (x.view pool idle).inbox ++ [eventOf tid .wake] } := if_pos hb
  obtain ⟨q, hq⟩ := hidle.step (x := .unblock tid) trivial hstep
  refine ⟨hmem, h.workers, ⟨q, hq.congr rfl rfl rfl rfl rfl ?_⟩, h.unfailing, h.pending⟩
  have hfor : isFor pool (eventOf tid .wake) = true := by simpa [isFor] using hmem
  change x.runner.pc.pending ++ (idle ++ [eventOf tid .wake]).filter (isFor pool) =
    (x.runner.pc.pending ++ idle.filter (isFor pool)) ++ [eventOf tid .wake]
  rw [List.filter_append, List.filter_singleton, hfor, List.append_assoc]
  rfl

/-! ### An event that has been returned is handled -/

/-- The server has the event `e` from a `Wait` and has not handled it, or is about to. -/
def Held (x : Member τ) (e : UInt64) : Prop :=
  e ∈ x.runner.pc.pending ∨ ∃ rest, x.runner.pc = .handling rest ∧
    x.runner.server.control = .handle e ∧ x.runner.server.stack = []

/-- The worker `tid`, which is recorded as `Blocked`, is set to `Running`, and the server switches
to it. -/
def Resumes (x : Member τ) (tid : Int32) (y : Member τ) : Prop :=
  x.status tid = some .blocked ∧ y.status tid = some .running ∧
    y.runner.server.control = .switching tid

/-- A bound for the steps of the server until it has handled the events of its last `Wait`. -/
def rank (x : Member τ) : ℕ :=
  match x.runner.pc with
  | .handling rest => x.runner.server.rank + 10 + 20 * rest.length
  | .scheduling (some rest) => x.runner.server.rank + 20 * rest.length
  | _ => 0

/-- Where `run_server` has an event. -/
private theorem Held.pc (h : x.Held e) :
    (∃ rest, x.runner.pc = .scheduling (some rest) ∧ e ∈ rest) ∨
      ∃ rest, x.runner.pc = .handling rest ∧ (e ∈ rest ∨
        x.runner.server.control = .handle e ∧ x.runner.server.stack = []) := by
  rcases h with h | ⟨rest, hpc, h⟩
  · cases hpc : x.runner.pc with
    | scheduling o =>
      cases o with
      | none => simp [hpc, RunPc.pending] at h
      | some rest => exact .inl ⟨rest, rfl, by simpa [hpc, RunPc.pending] using h⟩
    | handling rest => exact .inr ⟨rest, rfl, .inl (by simpa [hpc, RunPc.pending] using h)⟩
    | _ => simp [hpc, RunPc.pending] at h
  · exact .inr ⟨rest, hpc, .inr h⟩

/-- Inside of a call the rank of the server counts. -/
private theorem Held.rank_setMachine (h : x.Held e) {m : Machine τ} {k : ℕ}
    (hm : m.server.rank + k ≤ x.runner.server.rank) : (x.setMachine m).rank + k ≤ x.rank := by
  rcases h.pc with ⟨rest, hpc, -⟩ | ⟨rest, hpc, -⟩ <;>
  · simp only [rank, setMachine, hpc]
    omega

/-- The worker of an event that the server has is recorded as `Blocked`. -/
theorem Held.blocked (hheld : x.Held e) (h : x.Ok pool idle) :
    ∃ tid ∈ pool, e = eventOf tid .wake ∧ x.status tid = some .blocked := by
  obtain ⟨tid, rfl, hb⟩ : ∃ tid, e = eventOf tid .wake ∧ x.status tid = some .blocked := by
    rcases hheld with he | ⟨rest, -, hc, hs⟩
    · exact h.pending e he
    · obtain ⟨p, hidle⟩ := h.idleAt
      obtain ⟨tid, rfl, rfl⟩ := hidle.server.eq_waking hc hs
      exact ⟨tid, rfl, hidle.ok.1⟩
  exact ⟨tid, h.workers ▸ Server.mem_keys_of_status hb, rfl, hb⟩

theorem Held.run (hheld : x.Held e) (h : x.Ok pool idle) {r : Runner τ}
    (hm : x.runner.Move .tau r) : (x.setRunner r).Held e ∧ (x.setRunner r).rank < x.rank := by
  cases hm with
  | leave hpc | schedule hpc | wait hpc | shutdown hpc =>
    rcases hheld.pc with ⟨rest, hpc', -⟩ | ⟨rest, hpc', -⟩ <;> cases hpc.symm.trans hpc'
  | again hpc =>
    -- the next round begins only after the last event
    rcases hheld.pc with ⟨rest, hpc', he⟩ | ⟨rest, hpc', -⟩
    · cases hpc.symm.trans hpc'
      cases he
    · cases hpc.symm.trans hpc'
  | @nextEvent e' rest hpc hc =>
    rcases hheld.pc with ⟨_, hpc', he⟩ | ⟨_, hpc', -⟩
    · cases hpc.symm.trans hpc'
      refine ⟨?_, ?_⟩
      · rcases List.mem_cons.mp he with rfl | he
        · exact .inr ⟨rest, rfl, rfl, h.stack hc⟩
        · exact .inl he
      · have hle := handleRank_le e'
        simp only [rank, Member.setRunner, hpc, Server.rank, hc, Control.rank, List.length_cons]
        omega
    · cases hpc.symm.trans hpc'
  | @handled rest o hpc hc =>
    rcases hheld.pc with ⟨_, hpc', -⟩ | ⟨_, hpc', he | ⟨hc', -⟩⟩
    · cases hpc.symm.trans hpc'
    · cases hpc.symm.trans hpc'
      refine ⟨.inl he, ?_⟩
      simp only [rank, Member.setRunner, hpc, Server.rank, hc, Control.rank]
      omega
    · cases hc.symm.trans hc'
  | scheduleFailed hpc hc => simpa using (h.unfailing _ hpc).loop _ hc

theorem Held.inside (hheld : x.Held e) (h : x.Ok pool idle) {a : MachineStep τ}
    (ha : a.inside = true) {m : Machine τ} (hm : (x.machine []).step a = some m) :
    (∃ tid, e = eventOf tid .wake ∧ x.Resumes tid (x.setMachine m)) ∨
      (x.setMachine m).Held e ∧ (x.setMachine m).rank + a.ofServer.toNat ≤ x.rank := by
  rcases Machine.server_of_inside ha hm with ⟨hown, hsame⟩ | ⟨hown, i, hi, hserver⟩
  · refine .inr ⟨?_, hheld.rank_setMachine (by rw [hown, hsame]; exact le_rfl)⟩
    refine hheld.imp id fun ⟨rest, hpc, hc, hs⟩ => ⟨rest, hpc, ?_, ?_⟩
    · exact (congrArg Server.control hsame).trans hc
    · exact (congrArg Server.stack hsame).trans hs
  · rcases hheld with he | ⟨rest, hpc, hc, hs⟩
    · have hlt := (Server.move_of_step hserver).rank_lt hi.not_call hi.reported_le
      exact .inr ⟨.inl he, Held.rank_setMachine (.inl he) (by rw [hown]; exact hlt)⟩
    · -- the event is being handled, so the step is the one of the handler
      obtain ⟨p, hidle⟩ := h.idleAt
      obtain ⟨tid, rfl, rfl⟩ := hidle.server.eq_waking hc hs
      have hserver' : x.runner.server.step i = some m.server := hserver
      obtain rfl : i = .tau := by
        cases hi <;> simp [Server.step, hc] at hserver'
        rfl
      obtain ⟨hat, hst⟩ := hidle.server.tau_waking hidle.ok.1 hserver'
      exact .inl ⟨tid, rfl, hidle.ok.1, (hst tid).trans (if_pos rfl), hat.2⟩

/-- The server has every event that its `Wait` has returned. -/
theorem Ok.held_of_waited {l rest : List UInt64} (h : x.Ok pool (l ++ rest)) (hl : l.length ≤ 5)
    (hfor : ∀ e ∈ l, isFor pool e = true) {r : Runner τ} (hm : x.runner.Move (.waited 0 0 l) r)
    (he : e ∈ l) : (x.setRunner r).Held e ∧ (x.setRunner r).rank < 100 := by
  have hread := h.read_eq hl hfor
  cases hm with
  | waitError _ hret => exact absurd rfl hret
  | noEvents hpc hnone =>
    obtain rfl : l = [] := hread.symm.trans hnone
    cases he
  | @firstEvent _ _ _ e' rest' o hpc hc hsome =>
    obtain rfl : l = e' :: rest' := hread.symm.trans hsome
    refine ⟨?_, ?_⟩
    · rcases List.mem_cons.mp he with rfl | he
      · exact .inr ⟨rest', rfl, rfl, h.stack hc⟩
      · exact .inl he
    · have hle := handleRank_le e'
      rw [List.length_cons] at hl
      simp only [rank, Member.setRunner, Server.rank, Control.rank, h.stack hc, List.map_nil,
        List.sum_nil]
      omega

/-- The server does not call `Wait` before it has handled the event. -/
theorem Held.not_waited (hheld : x.Held e) {ret errno : Int} {l : List UInt64} {r : Runner τ} :
    ¬ x.runner.Move (.waited ret errno l) r := by
  have hnot : x.runner.pc ≠ .waiting := by
    intro hpc
    rcases hheld with hmem | ⟨rest, hpc', -⟩
    · simp [hpc, RunPc.pending] at hmem
    · cases hpc.symm.trans hpc'
  intro hm
  cases hm with
  | waitError hpc | noEvents hpc | firstEvent hpc => exact hnot hpc

end Member

end Umcg.Pool
