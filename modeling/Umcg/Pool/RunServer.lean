import Umcg.Pool.Bookkeeping

/-!
# The life of a server: `run_server`

`Runner` is a server together with the point that `run_server` has reached: the registration of
the server, `initialize_workers` with its wait for the registration of each worker, the main loop
with its calls of `try_schedule_tasks`, its `Wait` and the events that `Wait` has returned, and
`initiate_shutdown`. `set_cpu_affinity`, the first call of `run_server`, cannot fail and is left
out. What `Wait` has written into its buffer is a list, of which the first six words are read.

The function leaves its loop in two ways. The flag `done` leads to `initiate_shutdown`, and an
operator `?` or a `return` leads out of the function at once, past the shutdown. The errors of
`handle_umcg_event` are only logged, so the second way starts in `wait_for_worker_registration`, in
the `Wait` of the main loop or in the context switch of `try_schedule_tasks`. An error inside of a
nested switch, made for a `WAKE`, is caught there (`Frame.catches`).

## Main results

* `Runner.unregistered_iff` : a server shuts down exactly when `run_server` returns `Ok`.
* `Server.Unfailing.move` : which steps keep `try_schedule_tasks` from returning an error.
* `Runner.shutdown_on_return` : when nothing leads out of the loop early, the shutdown is reached.
-/

namespace Umcg.Pool

/-- `libc::ETIMEDOUT`. -/
def etimedout : Int := 110

/-- The point that `run_server` has reached. -/
inductive RunPc
  /-- At `RegisterServer`. -/
  | register
  /-- In `initialize_workers`, before the start of its `i`-th worker thread. -/
  | startWorker (i : ℕ)
  /-- In `wait_for_worker_registration` for the `i`-th worker, the thread `tid`. -/
  | waitWorker (i : ℕ) (tid : Int32)
  /-- At the head of the main loop. -/
  | top
  /-- In `try_schedule_tasks`, before `Wait` or after an event of `Wait`, with the other events. -/
  | scheduling (rest : Option (List UInt64))
  /-- In `Wait`. -/
  | waiting
  /-- In `handle_umcg_event`, with the events that come next. -/
  | handling (rest : List UInt64)
  /-- At `initiate_shutdown`. -/
  | shutdown
  | returned (r : Outcome)
  deriving DecidableEq, Repr

/-- A server in `run_server`. The last three fields are the effects: the success of
`RegisterServer`, the workers to which `Task::Shutdown` has been sent, and `Unregister`. -/
structure Runner (τ : Type) where
  id : ℕ
  total_workers : ℕ
  server : Server τ
  done : Bool
  pc : RunPc
  registered : Bool
  shutdownSent : List Int32
  unregistered : Bool

/-- What the surroundings of `run_server` do. -/
inductive RunInput (τ : Type)
  /-- `RegisterServer` returns. -/
  | registered (ret : Int)
  /-- A worker thread has been started and has sent its thread id. -/
  | started (tid : Int32)
  /-- The time for the registration of a worker is over. -/
  | elapsed
  /-- The `Wait` for the registration of a worker returns. -/
  | waitedWorker (ret : Int) (event : UInt64)
  /-- The `Wait` of the main loop returns. -/
  | waited (ret errno : Int) (events : List UInt64)
  /-- The thread goes on by itself. -/
  | tau
  /-- A step inside of `try_schedule_tasks` or `handle_umcg_event`. -/
  | server (i : Input)
  /-- `add_task` of a submitter. -/
  | addTask (id : ℕ) (task : τ)
  /-- `add_task` with `Task::Shutdown`. -/
  | addShutdown
  deriving DecidableEq, Repr

namespace Runner

variable {τ : Type}

/-- A server as `Executor::new` makes it, at the start of `run_server`. -/
def new (id total_workers : ℕ) : Runner τ where
  id := id
  total_workers := total_workers
  server := .new
  done := false
  pc := .register
  registered := false
  shutdownSent := []
  unregistered := false

/-- `run_server` returns `r`. -/
def ret (x : Runner τ) (r : Outcome) : Runner τ := { x with pc := .returned r }

/-- `run_server` calls a function of the server. -/
def call (x : Runner τ) (i : Input) (pc : RunPc) : Option (Runner τ) :=
  (x.server.step i).map fun s => { x with server := s, pc := pc }

/-- The id of the `i`-th worker, as it appears in errors. -/
def workerId (x : Runner τ) (i : ℕ) : ℕ := x.id * x.total_workers + i

/-- `for i in 0..self.worker_pool.total_workers`. -/
def nextWorker (x : Runner τ) (i : ℕ) : Runner τ :=
  { x with pc := if i < x.total_workers then .startWorker i else .top }

/-- `wait_for_worker_registration` after its `Wait`, and `initialize_workers` after it. Which worker
the `WAKE` is of is not looked at. -/
def waitedWorker (x : Runner τ) (i : ℕ) (tid : Int32) (ret : Int) (event : UInt64) : Runner τ :=
  if ret ≠ 0 then x.ret (.err (.workerRegistrationFailed (x.workerId i) ret))
  else if eventType event = some .wake then
    { x with server := x.server.workerReady tid }.nextWorker (i + 1)
  else x

/-- `for &event in events.iter().take_while(|&&e| e != 0)`. -/
def nextEvent (x : Runner τ) : List UInt64 → Option (Runner τ)
  | [] => some { x with pc := .top }
  | e :: rest => x.call (.event e) (.handling rest)

/-- The main loop after `Wait`. -/
def waited (x : Runner τ) (ret errno : Int) (events : List UInt64) : Option (Runner τ) :=
  if ret ≠ 0 ∧ errno ≠ etimedout then some (x.ret (.err (.systemError errno)))
  else x.nextEvent ((events.take 6).takeWhile (· ≠ 0))

/-- The main loop after `try_schedule_tasks`. -/
def scheduled (x : Runner τ) (rest : Option (List UInt64)) : Option (Runner τ) :=
  match x.server.control, rest with
  | .loop .ok, none => some { x with pc := .waiting }
  | .loop .ok, some l => x.nextEvent l
  | .loop (.err e), _ => some (x.ret (.err e))
  | _, _ => none

/-- The main loop after `handle_umcg_event`, whose error is only logged. -/
def handled (x : Runner τ) (rest : List UInt64) : Option (Runner τ) :=
  match x.server.control with
  | .loop _ => x.call .schedule (.scheduling (some rest))
  | _ => none

/-- `initiate_shutdown`. -/
def initiateShutdown (x : Runner τ) : Runner τ :=
  { x with
    server := x.server.readWorkers
    done := true
    shutdownSent := x.server.workers.keys
    unregistered := true }

/-- One step of `run_server`, or of a submitter. -/
def step (x : Runner τ) : RunInput τ → Option (Runner τ)
  | .registered ret =>
    match x.pc with
    | .register =>
      if ret ≠ 0 then some (x.ret (.err (.registrationFailed ret)))
      else some ({ x with registered := true }.nextWorker 0)
    | _ => none
  | .started tid =>
    match x.pc with
    | .startWorker i =>
      some { x with server := x.server.startWorker tid, pc := .waitWorker i tid }
    | _ => none
  | .elapsed =>
    match x.pc with
    | .waitWorker i _ => some (x.ret (.err (.workerRegistrationTimeout (x.workerId i))))
    | _ => none
  | .waitedWorker ret event =>
    match x.pc with
    | .waitWorker i tid => some (x.waitedWorker i tid ret event)
    | _ => none
  | .waited ret errno events =>
    match x.pc with
    | .waiting => x.waited ret errno events
    | _ => none
  | .tau =>
    match x.pc with
    | .top =>
      if x.done then some { x with pc := .shutdown } else x.call .schedule (.scheduling none)
    | .scheduling rest => x.scheduled rest
    | .handling rest => x.handled rest
    | .shutdown => some (x.initiateShutdown.ret .ok)
    | _ => none
  | .server i =>
    match x.pc, i with
    | .scheduling _, .tau | .scheduling _, .sent _ | .scheduling _, .switched _ _
    | .handling _, .tau | .handling _, .sent _ | .handling _, .switched _ _ =>
      x.call i x.pc
    | _, _ => none
  | .addTask id task => some { x with server := x.server.addTask (.new id task) }
  | .addShutdown => some { x with done := true }

/-! ### The cases of a step -/

variable {x y : Runner τ} {a : RunInput τ}

/-- The steps of `run_server`. -/
inductive Move (x : Runner τ) : RunInput τ → Runner τ → Prop
  | registerFailed {ret : Int} (hpc : x.pc = .register) (hret : ret ≠ 0) :
      Move x (.registered ret) (x.ret (.err (.registrationFailed ret)))
  | registered (hpc : x.pc = .register) :
      Move x (.registered 0) ({ x with registered := true }.nextWorker 0)
  | started {i : ℕ} {tid : Int32} (hpc : x.pc = .startWorker i) :
      Move x (.started tid) { x with server := x.server.startWorker tid, pc := .waitWorker i tid }
  | elapsed {i : ℕ} {tid : Int32} (hpc : x.pc = .waitWorker i tid) :
      Move x .elapsed (x.ret (.err (.workerRegistrationTimeout (x.workerId i))))
  | waitFailed {i : ℕ} {tid : Int32} {ret : Int} {e : UInt64} (hpc : x.pc = .waitWorker i tid)
      (hret : ret ≠ 0) : Move x (.waitedWorker ret e)
        (x.ret (.err (.workerRegistrationFailed (x.workerId i) ret)))
  | ready {i : ℕ} {tid : Int32} {e : UInt64} (hpc : x.pc = .waitWorker i tid)
      (he : eventType e = some .wake) : Move x (.waitedWorker 0 e)
        ({ x with server := x.server.workerReady tid }.nextWorker (i + 1))
  | notReady {i : ℕ} {tid : Int32} {e : UInt64} (hpc : x.pc = .waitWorker i tid)
      (he : eventType e ≠ some .wake) : Move x (.waitedWorker 0 e) x
  | waitError {ret errno : Int} {events : List UInt64} (hpc : x.pc = .waiting) (hret : ret ≠ 0)
      (herr : errno ≠ etimedout) :
      Move x (.waited ret errno events) (x.ret (.err (.systemError errno)))
  | noEvents {ret errno : Int} {events : List UInt64} (hpc : x.pc = .waiting)
      (he : (events.take 6).takeWhile (· ≠ 0) = []) :
      Move x (.waited ret errno events) { x with pc := .top }
  | firstEvent {ret errno : Int} {events : List UInt64} {e : UInt64} {rest : List UInt64}
      {r : Outcome} (hpc : x.pc = .waiting) (hc : x.server.control = .loop r)
      (he : (events.take 6).takeWhile (· ≠ 0) = e :: rest) :
      Move x (.waited ret errno events)
        { x with server := { x.server with control := .handle e }, pc := .handling rest }
  | leave (hpc : x.pc = .top) (hdone : x.done = true) : Move x .tau { x with pc := .shutdown }
  | schedule {r : Outcome} (hpc : x.pc = .top) (hc : x.server.control = .loop r) : Move x .tau
      { x with server := { x.server with control := .schedule }, pc := .scheduling none }
  | wait (hpc : x.pc = .scheduling none) (hc : x.server.control = .loop .ok) :
      Move x .tau { x with pc := .waiting }
  | again (hpc : x.pc = .scheduling (some [])) (hc : x.server.control = .loop .ok) :
      Move x .tau { x with pc := .top }
  | nextEvent {e : UInt64} {rest : List UInt64} (hpc : x.pc = .scheduling (some (e :: rest)))
      (hc : x.server.control = .loop .ok) : Move x .tau
        { x with server := { x.server with control := .handle e }, pc := .handling rest }
  | scheduleFailed {rest : Option (List UInt64)} {err : ServerError}
      (hpc : x.pc = .scheduling rest) (hc : x.server.control = .loop (.err err)) :
      Move x .tau (x.ret (.err err))
  | handled {rest : List UInt64} {r : Outcome} (hpc : x.pc = .handling rest)
      (hc : x.server.control = .loop r) : Move x .tau
        { x with server := { x.server with control := .schedule }, pc := .scheduling (some rest) }
  | shutdown (hpc : x.pc = .shutdown) : Move x .tau (x.initiateShutdown.ret .ok)
  | server {i : Input} {t : Server τ}
      (hpc : (∃ rest, x.pc = .scheduling rest) ∨ ∃ rest, x.pc = .handling rest)
      (hi : i ≠ .schedule ∧ ∀ e, i ≠ .event e) (hm : Server.Move x.server i t) :
      Move x (.server i) { x with server := t }
  | addTask {id : ℕ} {task : τ} :
      Move x (.addTask id task) { x with server := x.server.addTask (.new id task) }
  | addShutdown : Move x .addShutdown { x with done := true }

/-- A function is called from the loop. -/
private theorem call_eq {i : Input} {pc : RunPc} (h : x.call i pc = some y) :
    ∃ t, Server.Move x.server i t ∧ y = { x with server := t, pc := pc } := by
  obtain ⟨t, ht, rfl⟩ := Option.map_eq_some_iff.mp h
  exact ⟨t, Server.move_of_step ht, rfl⟩

private theorem call_schedule_eq {pc : RunPc} (h : x.call .schedule pc = some y) :
    ∃ r, x.server.control = .loop r ∧
      y = { x with server := { x.server with control := .schedule }, pc := pc } := by
  obtain ⟨t, hm, rfl⟩ := call_eq h
  cases hm with
  | callSchedule hc => exact ⟨_, hc, rfl⟩

private theorem nextEvent_eq {l : List UInt64} (h : x.nextEvent l = some y) :
    (l = [] ∧ y = { x with pc := .top }) ∨ ∃ e rest r, l = e :: rest ∧
      x.server.control = .loop r ∧
      y = { x with server := { x.server with control := .handle e }, pc := .handling rest } := by
  cases l with
  | nil =>
    cases h
    exact .inl ⟨rfl, rfl⟩
  | cons e rest =>
    obtain ⟨t, hm, rfl⟩ := call_eq h
    cases hm with
    | callHandle hc => exact .inr ⟨e, rest, _, rfl, hc, rfl⟩

private theorem move_waited {ret errno : Int} {events : List UInt64} (hpc : x.pc = .waiting)
    (h : x.waited ret errno events = some y) : x.Move (.waited ret errno events) y := by
  unfold waited at h
  split_ifs at h with herr
  · cases h
    exact .waitError hpc herr.1 herr.2
  · rcases nextEvent_eq h with ⟨hl, rfl⟩ | ⟨e, rest, r, hl, hc, rfl⟩
    · exact .noEvents hpc hl
    · exact .firstEvent hpc hc hl

private theorem move_scheduled {rest : Option (List UInt64)} (hpc : x.pc = .scheduling rest)
    (h : x.scheduled rest = some y) : x.Move .tau y := by
  unfold scheduled at h
  split at h
  · cases h
    exact .wait hpc ‹_›
  · rcases nextEvent_eq h with ⟨rfl, rfl⟩ | ⟨e, rest, r, rfl, -, rfl⟩
    · exact .again hpc ‹_›
    · exact .nextEvent hpc ‹_›
  · cases h
    exact .scheduleFailed hpc ‹_›
  · cases h

/-- Every step is one of the cases of `Move`. -/
theorem move_of_step (h : x.step a = some y) : x.Move a y := by
  cases a with
  | registered ret =>
    simp only [step] at h
    split at h
    · split_ifs at h with hret
      · cases h
        exact .registerFailed ‹_› hret
      · cases h
        obtain rfl := not_not.mp hret
        exact .registered ‹_›
    · cases h
  | started tid =>
    simp only [step] at h
    split at h <;> cases h
    exact .started ‹_›
  | elapsed =>
    simp only [step] at h
    split at h <;> cases h
    exact .elapsed ‹_›
  | waitedWorker ret e =>
    simp only [step] at h
    split at h <;> cases h
    unfold waitedWorker
    split_ifs with hret he
    · exact .waitFailed ‹_› hret
    · obtain rfl := not_not.mp hret
      exact .ready ‹_› he
    · obtain rfl := not_not.mp hret
      exact .notReady ‹_› he
  | waited ret errno events =>
    simp only [step] at h
    split at h
    · exact move_waited ‹_› h
    · cases h
  | tau =>
    simp only [step] at h
    split at h
    · split_ifs at h with hdone
      · cases h
        exact .leave ‹_› hdone
      · obtain ⟨r, hc, rfl⟩ := call_schedule_eq h
        exact .schedule ‹_› hc
    · exact move_scheduled ‹_› h
    · unfold handled at h
      split at h
      · obtain ⟨r, hc, rfl⟩ := call_schedule_eq h
        exact .handled ‹_› hc
      · cases h
    · cases h
      exact .shutdown ‹_›
    · cases h
  | server i =>
    have hcall : x.call i x.pc = some y →
        (∃ rest, x.pc = .scheduling rest) ∨ (∃ rest, x.pc = .handling rest) →
        (i ≠ .schedule ∧ ∀ e, i ≠ .event e) → x.Move (.server i) y := by
      intro hcall hpc hi
      obtain ⟨t, hm, rfl⟩ := call_eq hcall
      exact .server hpc hi hm
    simp only [step] at h
    split at h
    case h_7 => cases h
    all_goals exact hcall h (by simp [‹x.pc = _›]) (by simp)
  | addTask id task =>
    cases h
    exact .addTask
  | addShutdown =>
    cases h
    exact .addShutdown

/-- The effects of `initiate_shutdown`, and the point after it. -/
structure ShutdownInv (x : Runner τ) : Prop where
  unregistered : x.unregistered = true ↔ x.pc = .returned .ok
  sent : x.pc = .returned .ok → x.shutdownSent = x.server.workers.keys

theorem new_shutdownInv (id total_workers : ℕ) :
    (new id total_workers : Runner τ).ShutdownInv := ⟨by simp [new], by simp [new]⟩

/-- The next worker is started, or the main loop is entered. -/
theorem nextWorker_pc_ne (x : Runner τ) (i : ℕ) {pc : RunPc} (hstart : pc ≠ .startWorker i)
    (htop : pc ≠ .top) : (x.nextWorker i).pc ≠ pc := by
  unfold nextWorker
  dsimp only
  split_ifs
  · exact hstart.symm
  · exact htop.symm

theorem ShutdownInv.move (h : x.ShutdownInv) (hm : x.Move a y) : y.ShutdownInv := by
  -- a step from one point before the end to another
  have hbefore {z : Runner τ} (hx : x.pc ≠ .returned .ok) (hz : z.pc ≠ .returned .ok)
      (heq : z.unregistered = x.unregistered) : z.ShutdownInv :=
    ⟨by rw [heq, h.unregistered]; simp [hx, hz], fun hr => absurd hr hz⟩
  cases hm with
  | shutdown => exact ⟨by simp [ret, initiateShutdown], fun _ => rfl⟩
  | registered hpc | ready hpc =>
    exact hbefore (by simp [hpc]) (nextWorker_pc_ne _ _ (by simp) (by simp)) rfl
  | notReady | addTask | addShutdown => exact ⟨h.unregistered, h.sent⟩
  | server hpc =>
    have hne : x.pc ≠ .returned .ok := by rcases hpc with ⟨_, hpc⟩ | ⟨_, hpc⟩ <;> simp [hpc]
    exact hbefore hne hne rfl
  | registerFailed hpc | started hpc | elapsed hpc | waitFailed hpc | waitError hpc | noEvents hpc
  | firstEvent hpc | leave hpc | schedule hpc | wait hpc | again hpc | nextEvent hpc
  | scheduleFailed hpc | handled hpc => exact hbefore (by simp [hpc]) (by simp [ret]) rfl

/-- `run_server` has sent `Task::Shutdown` and has unregistered exactly when it has returned `Ok`:
every error that it returns has skipped the shutdown. -/
theorem unregistered_iff {ok : Runner τ → RunInput τ → Prop} {id total_workers : ℕ}
    {l : List (RunInput τ)} (h : Run (Guarded step ok) (new id total_workers) l x) :
    x.ShutdownInv :=
  h.invariant (new_shutdownInv id total_workers) fun _ _ _ hI hs => hI.move (move_of_step hs.2)

end Runner

/-! ### Errors of `try_schedule_tasks` -/

/-- `handle_umcg_event` does not return an error for the event. -/
def knownEvent (event : UInt64) : Bool :=
  match eventType event with
  | some .block | some .wake | some .wait | some .exit => true
  | _ => false

/-- An error that is returned to this frame is not returned further. -/
def Frame.catches : Frame → Bool
  | .wakeRunning _ | .wakeBlocked => true
  | .switchEvents _ | .scheduled _ => false

namespace Server

variable {τ : Type} {s t : Server τ} {i : Input}

/-- An error that is returned on top of the stack is caught. -/
def Caught (stack : List Frame) : Prop := stack.any Frame.catches = true

/-- The events that are still to be handled are known, up to those below which errors are caught. -/
def EventsKnown : List Frame → Prop
  | [] => True
  | .switchEvents rest :: stack =>
    ((∀ e ∈ rest, knownEvent e = true) ∨ Caught stack) ∧ EventsKnown stack
  | _ :: stack => EventsKnown stack

/-- The call that is under way will not return an error to `run_server`. -/
structure Unfailing (s : Server τ) : Prop where
  loop : ∀ r, s.control = .loop r → r = .ok
  ret : ∀ e, s.control = .ret (.err e) → Caught s.stack
  handle : ∀ e, s.control = .handle e → knownEvent e = true ∨ Caught s.stack
  events : EventsKnown s.stack

/-- A context switch that is not made for a `WAKE` succeeds and reports only known events. -/
def SwitchesWell (s : Server τ) : Input → Prop
  | .switched a _ => s.stack.any Frame.catches = false →
      a.ret = 0 ∧ ∀ e ∈ a.reported, knownEvent e = true
  | _ => True

instance (s : Server τ) : (i : Input) → Decidable (s.SwitchesWell i)
  | .switched a _ =>
    have : Decidable (∀ e ∈ a.reported, knownEvent e = true) :=
      List.decidableBAll (fun e => knownEvent e = true) a.reported
    inferInstanceAs (Decidable (_ → _ ∧ _))
  | .schedule | .event _ | .tau | .sent _ => inferInstanceAs (Decidable True)

/-- The call goes on at a point other than an error or an event. -/
private theorem Unfailing.goOn (hs : EventsKnown t.stack)
    (hc : t.control = .ret .ok ∨ (∃ tid task site, t.control = .assign tid task site) ∨
      ∃ tid, t.control = .switching tid) : Unfailing t := by
  rcases hc with hc | ⟨tid, task, site, hc⟩ | ⟨tid, hc⟩ <;> exact ⟨by simp [hc], by simp [hc],
    by simp [hc], hs⟩

theorem Unfailing.congr (h : s.Unfailing) (hc : t.control = s.control) (hs : t.stack = s.stack) :
    t.Unfailing := by
  obtain ⟨hloop, hret, hhandle, hevents⟩ := h
  rw [← hc] at hloop hret hhandle
  rw [← hs] at hret hhandle hevents
  exact ⟨hloop, hret, hhandle, hevents⟩

/-- `try_schedule_tasks` is entered from the loop. -/
theorem unfailing_schedule (hs : s.stack = []) : Unfailing { s with control := .schedule } := by
  refine ⟨by simp, by simp, by simp, ?_⟩
  change EventsKnown s.stack
  rw [hs]
  trivial

theorem Unfailing.move (h : s.Unfailing) (hi : s.SwitchesWell i)
    (hcall : i ≠ .schedule ∧ ∀ e, i ≠ .event e) (hm : Move s i t) : t.Unfailing := by
  have hevents := h.events
  cases hm with
  | callSchedule => exact absurd rfl hcall.1
  | callHandle => exact absurd rfl (hcall.2 _)
  | noWorker | noTask | block | wakeDone | wakeNoTask | ignored | wait | exit | failedSchedule
  | failedWake => exact .goOn hevents (.inl rfl)
  | take | wakeTake => exact .goOn hevents (.inr (.inl ⟨_, _, _, rfl⟩))
  | wakeBlocked | sentSchedule | sentWake => exact .goOn hevents (.inr (.inr ⟨_, rfl⟩))
  | invalid hc he =>
    have hcaught : Caught s.stack := (h.handle _ hc).resolve_left (by
      obtain ⟨h₁, h₂, h₃, h₄⟩ := he
      unfold knownEvent
      split <;> simp_all)
    exact ⟨by simp, fun _ _ => hcaught, by simp, hevents⟩
  | switchFailed hc ha =>
    refine ⟨by simp, fun _ _ => ?_, by simp, hevents⟩
    by_contra hnot
    exact ha (hi (by simpa [Caught] using hnot)).1
  | @switched tid a errno hc ha =>
    refine .goOn ⟨?_, hevents⟩ (.inl rfl)
    by_cases hcaught : Caught s.stack
    · exact .inr hcaught
    · exact .inl (hi (by simpa [Caught] using hcaught)).2
  | @returned r hc hs =>
    refine ⟨fun r' hr => ?_, by simp, by simp, hevents⟩
    cases hr
    cases r with
    | ok => rfl
    | err e => simpa [hs, Caught] using h.ret e hc
  | @nextEvent e rest stack hc hs =>
    rw [hs] at hevents
    obtain ⟨hknown, hrest⟩ := hevents
    refine ⟨by simp, by simp, fun e' he' => ?_, ⟨?_, hrest⟩⟩
    · cases he'
      exact hknown.imp (fun hk => hk e List.mem_cons_self) (by simp [Caught, Frame.catches])
    · exact hknown.imp (fun hk e' he' => hk e' (List.mem_cons_of_mem e he')) id
  | eventsDone hc hs =>
    rw [hs] at hevents
    exact .goOn hevents.2 (.inl rfl)
  | eventFailed hc hs =>
    rw [hs] at hevents
    have hcaught := h.ret _ hc
    rw [hs] at hcaught
    exact ⟨by simp, fun _ _ => by simpa [Caught, Frame.catches] using hcaught, by simp, hevents.2⟩
  | scheduleFailed hc hs =>
    rw [hs] at hevents
    have hcaught := h.ret _ hc
    rw [hs] at hcaught
    exact ⟨by simp, fun _ _ => by simpa [Caught, Frame.catches] using hcaught, by simp, hevents⟩
  | scheduled hc hs | woken hc hs | wakeFailed hc hs | resumed hc hs =>
    rw [hs] at hevents
    exact .goOn hevents (.inl rfl)

/-- Only a return with an empty stack leads back to the loop. -/
theorem Move.stack_of_loop (hm : Move s i t) {r : Outcome} (hc : t.control = .loop r) :
    t.stack = [] := by
  cases hm with
  | returned _ hs => exact hs
  | _ => simp at hc

end Server

namespace Runner

variable {τ : Type} {x y : Runner τ} {a : RunInput τ}

/-- Nothing leads out of `run_server` before `initiate_shutdown`: every worker registers in time,
the `Wait`s succeed or time out, and the context switches of `try_schedule_tasks` succeed and report
known events. -/
def NoEarlyExit (x : Runner τ) : RunInput τ → Prop
  | .elapsed => False
  | .waitedWorker ret _ => ret = 0
  | .waited ret errno _ => ret = 0 ∨ errno = etimedout
  | .server i => x.server.SwitchesWell i
  | _ => True

instance (x : Runner τ) : (a : RunInput τ) → Decidable (x.NoEarlyExit a)
  | .elapsed => inferInstanceAs (Decidable False)
  | .waitedWorker _ _ => inferInstanceAs (Decidable (_ = _))
  | .waited _ _ _ => inferInstanceAs (Decidable (_ ∨ _))
  | .server i => inferInstanceAs (Decidable (x.server.SwitchesWell i))
  | .registered _ | .started _ | .tau | .addTask _ _ | .addShutdown =>
    inferInstanceAs (Decidable True)

/-- `try_schedule_tasks` will not return an error, and `run_server` has not returned one after the
registration of the server. -/
structure ExitInv (x : Runner τ) : Prop where
  fresh : x.pc = .register → x.registered = false
  stack : ∀ r, x.server.control = .loop r → x.server.stack = []
  scheduling : ∀ rest, x.pc = .scheduling rest → x.server.Unfailing
  returned : ∀ e, x.pc = .returned (.err e) → x.registered = false

theorem new_exitInv (id total_workers : ℕ) : (new id total_workers : Runner τ).ExitInv :=
  ⟨fun _ => rfl, fun _ _ => rfl, by simp [new], by simp [new]⟩

/-- A step to a point of `run_server` outside of `try_schedule_tasks`. -/
private theorem ExitInv.of_pc (hstack : ∀ r, x.server.control = .loop r → x.server.stack = [])
    (hreg : x.pc ≠ .register) (hpc : ∀ rest, x.pc ≠ .scheduling rest)
    (hret : ∀ e, x.pc ≠ .returned (.err e)) : x.ExitInv :=
  ⟨fun h => absurd h hreg, hstack, fun rest h => absurd h (hpc rest), fun e h => absurd h (hret e)⟩

private theorem ExitInv.nextWorker (x : Runner τ) (i : ℕ)
    (hstack : ∀ r, x.server.control = .loop r → x.server.stack = []) :
    (x.nextWorker i).ExitInv :=
  .of_pc hstack (nextWorker_pc_ne x i (by simp) (by simp))
    (fun _ => nextWorker_pc_ne x i (by simp) (by simp))
    fun _ => nextWorker_pc_ne x i (by simp) (by simp)

/-- `try_schedule_tasks` is called from the loop. -/
private theorem ExitInv.schedule (h : x.ExitInv) {r : Outcome} (hc : x.server.control = .loop r)
    (rest : Option (List UInt64)) : ExitInv { x with
      server := { x.server with control := .schedule }, pc := .scheduling rest } :=
  ⟨by simp, by simp, fun _ _ => Server.unfailing_schedule (h.stack r hc), by simp⟩

theorem ExitInv.move (h : x.ExitInv) (hok : x.NoEarlyExit a) (hm : x.Move a y) : y.ExitInv := by
  cases hm with
  | registerFailed hpc => exact ⟨by simp [ret], h.stack, by simp [ret], fun _ _ => h.fresh hpc⟩
  | registered | ready => exact .nextWorker _ _ h.stack
  | started | noEvents | leave | wait | again =>
    exact .of_pc h.stack (by simp) (by simp) (by simp)
  | elapsed => exact hok.elim
  | waitFailed _ hret => exact absurd hok hret
  | notReady => exact h
  | waitError _ hret herr => exact absurd hok (by simp [NoEarlyExit, hret, herr])
  | firstEvent | nextEvent => exact .of_pc (by simp) (by simp) (by simp) (by simp)
  | schedule _ hc | handled _ hc => exact h.schedule hc _
  | scheduleFailed hpc hc => simpa using (h.scheduling _ hpc).loop _ hc
  | shutdown => exact .of_pc h.stack (by simp [ret]) (by simp [ret]) (by simp [ret])
  | server hpc hi hm =>
    refine ⟨fun hr => ?_, fun r hc => hm.stack_of_loop hc, fun rest hr =>
      (h.scheduling rest hr).move hok hi hm, fun e hr => ?_⟩
    · rcases hpc with ⟨rest, hpc⟩ | ⟨rest, hpc⟩ <;> cases hpc.symm.trans hr
    · rcases hpc with ⟨rest, hpc⟩ | ⟨rest, hpc⟩ <;> cases hpc.symm.trans hr
  | addTask | addShutdown =>
    exact ⟨h.fresh, h.stack, fun rest hr => (h.scheduling rest hr).congr rfl rfl, h.returned⟩

/-- In every run in which nothing leads out of the loop early: if `run_server` has returned after
the server was registered, then every worker of its pool has been sent `Task::Shutdown`, and the
server has unregistered. -/
theorem shutdown_on_return (id total_workers : ℕ) (x : Runner τ) (l : List (RunInput τ))
    (h : Run (Guarded step NoEarlyExit) (new id total_workers) l x) (r : Outcome)
    (hret : x.pc = .returned r) (hreg : x.registered = true) :
    (∀ tid ∈ x.server.workers.keys, tid ∈ x.shutdownSent) ∧ x.unregistered = true := by
  have hexit : x.ExitInv := h.invariant (new_exitInv id total_workers) fun _ _ _ hI hs =>
    hI.move hs.1 (move_of_step hs.2)
  have hshut := unregistered_iff h
  cases r with
  | ok => exact ⟨fun tid htid => (hshut.sent hret).symm ▸ htid, hshut.unregistered.mpr hret⟩
  | err e => exact absurd (hexit.returned e hret) (by simp [hreg])

/-- The only worker takes a task and blocks; the server is told to shut down and does. -/
def cleanLife : List (RunInput ℕ) :=
  [.registered 0, .started 7, .waitedWorker 0 (eventWord (shiftedId 7) .wake), .addTask 1 0, .tau,
    .server .tau, .server (.sent true),
    .server (.switched (.report (eventWord (shiftedId 7) .block)) 0), .server .tau, .server .tau,
    .server .tau, .server .tau, .server .tau, .tau, .addShutdown, .waited (-1) etimedout [], .tau,
    .tau]

theorem shutdown_on_return_cleanLife : ∃ x : Runner ℕ,
    Run (Guarded step NoEarlyExit) (new 0 1) cleanLife x ∧ x.pc = .returned .ok ∧
      x.server.workers.keys = [7] ∧ (∀ tid ∈ x.server.workers.keys, tid ∈ x.shutdownSent) ∧
      x.unregistered = true := by
  have hrun : Run (Guarded step NoEarlyExit) (new 0 1) cleanLife _ := run_trace (by decide +kernel)
  exact ⟨_, hrun, by decide +kernel, by decide +kernel,
    shutdown_on_return 0 1 _ _ hrun .ok (by decide +kernel) (by decide +kernel)⟩

/-- The second worker does not register in time: the `Wait` for it, which another thread has ended
with `Wake`, returns without an event, and then the time is over. -/
def lateWorker : List (RunInput ℕ) :=
  [.registered 0, .started 7, .waitedWorker 0 (eventWord (shiftedId 7) .wake), .started 9,
    .waitedWorker 0 0, .elapsed]

/-- `run_server` returns the error, and the worker that is ready gets no `Task::Shutdown`. -/
theorem no_shutdown_lateWorker : ∃ x : Runner ℕ,
    Run (Guarded step fun _ _ => True) (new 0 2) lateWorker x ∧
      x.pc = .returned (.err (.workerRegistrationTimeout 1)) ∧ x.registered = true ∧
      7 ∈ x.server.workers.keys ∧ 7 ∉ x.shutdownSent ∧ x.unregistered = false := by
  have hrun : Run (Guarded step fun _ _ => True) (new 0 2) lateWorker _ :=
    run_trace (by decide +kernel)
  exact ⟨_, hrun, by decide +kernel, by decide +kernel, by decide +kernel, by decide +kernel,
    by decide +kernel⟩

end Runner

end Umcg.Pool
