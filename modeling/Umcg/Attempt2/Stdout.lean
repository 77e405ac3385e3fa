import Umcg.Attempt2.Idle

/-!
# Logging and the lock of the standard output

Every `debug!`, `info!` and `println!`, of the servers and of the task code on the workers, takes
one process-wide lock for the duration of its write. A thread that finds the lock taken sleeps in
a futex; whoever releases the lock may wake a sleeper, and the woken thread tries again. `Console`
puts this lock over any number of machines.

A sleep in the futex is a system call of the worker that makes it, so the kernel parks the worker
and reports `BLOCK` to its server; the write under the lock may block, or be preempted, just as
well. From then on only a context switch of its server runs the worker. But the server logs before
it gets there, and waits for the lock that the parked worker holds, or for the wake-up that the
parked worker was given (`Console.CircularWait`).

## Main results

* `Console.noCircularWait` : without a stop of a worker inside of `println!` this never happens.
* `Console.Stuck.run` : once a worker is parked with the lock and its server sleeps for it,
  nothing that any thread does releases the lock.
-/

namespace Umcg.Attempt2

/-- The threads of the process: servers, workers, and those that UMCG does not know (the main
thread, the event routing server). -/
inductive Thread (ι : Type)
  | server (i : ι)
  | worker (i : ι) (w : UInt64)
  | other (n : ℕ)
  deriving DecidableEq, Repr

/-- How far a thread that does not hold the lock is with taking it. -/
inductive LogPhase
  /-- Not in `println!`. -/
  | quiet
  /-- Asleep in the futex of the lock. -/
  | asleep
  /-- Given a wake-up, about to try again. -/
  | woken
  deriving DecidableEq, Repr

/-- Servers with their workers, and the lock of the standard output. -/
structure Console (ι τ : Type) where
  machine : ι → Machine τ
  holder : Option (Thread ι)
  phase : Thread ι → LogPhase

/-- The steps of the process. -/
inductive ConsoleStep (ι τ : Type)
  /-- A step of the machine `i` outside of `println!`, or of the kernel. -/
  | machine (i : ι) (x : MachineStep τ)
  /-- The thread takes the free lock and writes. -/
  | lock (t : Thread ι)
  /-- The thread finds the lock taken and sleeps. -/
  | sleep (t : Thread ι)
  /-- The holder releases the lock and wakes `next`, if any. -/
  | unlock (next : Option (Thread ι))
  deriving DecidableEq, Repr

namespace Console

variable {ι τ : Type} [DecidableEq ι]

/-- The thread is not inside of `println!`. -/
def quiet (c : Console ι τ) (t : Thread ι) : Prop := c.holder ≠ some t ∧ c.phase t = .quiet

instance (c : Console ι τ) (t : Thread ι) : Decidable (c.quiet t) :=
  inferInstanceAs (Decidable (_ ∧ _))

/-- The kernel lets the thread run: a server that is in no context switch to a running worker, a
worker that runs or that is not a UMCG worker, any other thread. -/
def runs (c : Console ι τ) : Thread ι → Bool
  | .server i => (c.machine i).onCpu.isNone
  | .worker i w => (c.machine i).onCpu = some w || (c.machine i).park w = .unregistered
  | .other _ => true

/-- Replace the machine `i`. -/
def setMachine (c : Console ι τ) (i : ι) (m : Machine τ) : Console ι τ :=
  { c with machine := Function.update c.machine i m }

/-- Replace the phase of `t`. -/
def setPhase (c : Console ι τ) (t : Thread ι) (p : LogPhase) : Console ι τ :=
  { c with phase := Function.update c.phase t p }

/-- A step of a machine in which a thread goes on needs that thread outside of `println!`. The
kernel stops a running worker anywhere. A system call that is a sleep in the futex is ended by a
wake-up only. -/
def Allows (c : Console ι τ) (i : ι) : MachineStep τ → Prop
  | .server _ | .send | .recv _ | .fail | .resume => c.quiet (.server i)
  | .register w | .refuse w | .worker w _ => c.quiet (.worker i w)
  | .wait | .waitError | .exit => ∀ w ∈ (c.machine i).onCpu, c.quiet (.worker i w)
  | .stop _ => True
  | .unblock w => c.phase (.worker i w) ≠ .asleep

instance (c : Console ι τ) (i : ι) (x : MachineStep τ) : Decidable (c.Allows i x) :=
  match x with
  | .server _ | .send | .recv _ | .fail | .resume => inferInstanceAs (Decidable (c.quiet _))
  | .register _ | .refuse _ | .worker _ _ => inferInstanceAs (Decidable (c.quiet _))
  | .wait | .waitError | .exit =>
    Option.decidableForallMem (p := fun w => c.quiet (.worker i w)) (c.machine i).onCpu
  | .stop _ => .isTrue trivial
  | .unblock _ => inferInstanceAs (Decidable (_ ≠ _))

/-- The thread enters the futex; a UMCG worker is parked and reported. -/
def block (c : Console ι τ) : Thread ι → Option (Console ι τ)
  | .worker i w =>
    if (c.machine i).park w = .unregistered then some c
    else ((c.machine i).step (.stop .block)).map (c.setMachine i)
  | _ => some c

/-- The thread leaves the futex; a UMCG worker becomes switchable, and its `WAKE` is routed. -/
def unblock (c : Console ι τ) : Thread ι → Option (Console ι τ)
  | .worker i w =>
    if (c.machine i).park w = .unregistered then some c
    else ((c.machine i).step (.unblock w)).map (c.setMachine i)
  | _ => some c

/-- One step of the process. Which sleeper the release of the lock wakes is left open. -/
def step (c : Console ι τ) : ConsoleStep ι τ → Option (Console ι τ)
  | .machine i x =>
    if c.Allows i x then ((c.machine i).step x).map (c.setMachine i) else none
  | .lock t =>
    if c.holder = none ∧ c.phase t ≠ .asleep ∧ c.runs t then
      some { c.setPhase t .quiet with holder := some t }
    else none
  | .sleep t =>
    if c.holder ≠ none ∧ c.holder ≠ some t ∧ c.phase t ≠ .asleep ∧ c.runs t then
      (c.block t).map fun c => c.setPhase t .asleep
    else none
  | .unlock next =>
    match c.holder with
    | some t =>
      if c.runs t then
        match next with
        | some u =>
          if c.phase u = .asleep then
            (c.unblock u).map fun c => { c.setPhase u .woken with holder := none }
          else none
        | none => some { c with holder := none }
      else none
    | none => none

/-- Every machine is at the start of its registration loop, and no thread logs. -/
structure Initial (c : Console ι τ) : Prop where
  machine : ∀ i, (c.machine i).Initial
  holder : c.holder = none
  phase : ∀ t, c.phase t = .quiet

/-- The worker is stopped, so only a context switch of its server runs it again. -/
def Parked (m : Machine τ) (w : UInt64) : Prop := m.park w = .ready ∨ m.park w = .blocked

/-- The server `i` sleeps for the lock, and its worker `w`, which holds the lock or was given the
wake-up, is parked. -/
structure CircularWait (c : Console ι τ) (i : ι) (w : UInt64) : Prop where
  server : c.phase (.server i) = .asleep
  worker : c.holder = some (.worker i w) ∨ c.phase (.worker i w) = .woken
  parked : Parked (c.machine i) w

/-- No UMCG worker is stopped inside of `println!`: the kernel neither blocks nor preempts it in
the write, and it does not have to sleep for the lock. -/
def LogsUnstopped (c : Console ι τ) : ConsoleStep ι τ → Prop
  | .machine i (.stop _) => ∀ w ∈ (c.machine i).onCpu, c.quiet (.worker i w)
  | .sleep (.worker i w) => (c.machine i).park w = .unregistered
  | _ => True

instance (c : Console ι τ) (x : ConsoleStep ι τ) : Decidable (c.LogsUnstopped x) :=
  match x with
  | .machine i (.stop _) =>
    Option.decidableForallMem (p := fun w => c.quiet (.worker i w)) (c.machine i).onCpu
  | .sleep (.worker _ _) => inferInstanceAs (Decidable (_ = _))
  | .machine _ (.server _) | .machine _ .send | .machine _ (.recv _) | .machine _ .fail
  | .machine _ .resume | .machine _ (.register _) | .machine _ (.refuse _)
  | .machine _ (.worker _ _) | .machine _ .wait | .machine _ .waitError | .machine _ .exit
  | .machine _ (.unblock _) | .lock _ | .sleep (.server _) | .sleep (.other _) | .unlock _ =>
    .isTrue trivial

variable {c c' : Console ι τ} {i : ι} {w : UInt64}

/-! ### No worker is stopped in `println!` -/

/-- A worker inside of `println!` is not parked. -/
def LogInv (c : Console ι τ) : Prop := ∀ i w, ¬ c.quiet (.worker i w) → ¬ Parked (c.machine i) w

omit [DecidableEq ι] in
theorem Initial.logInv (h : c.Initial) : c.LogInv := fun _ _ hq =>
  absurd ⟨by simp [h.holder], h.phase _⟩ hq

omit [DecidableEq ι] in
private theorem not_parked_of_runs (h : c.runs (.worker i w)) : ¬ Parked (c.machine i) w := by
  simp only [runs, Bool.or_eq_true, decide_eq_true_eq] at h
  rcases h with h | h
  · simp [Parked, (Machine.onCpu_eq_some h).2]
  · simp [Parked, h]

/-- A step of a machine parks no worker that is inside of `println!`. -/
private theorem LogInv.setMachine (h : c.LogInv) {x : MachineStep τ} {m : Machine τ}
    (hallow : c.Allows i x) (hok : c.LogsUnstopped (.machine i x))
    (hm : (c.machine i).step x = some m) : (c.setMachine i m).LogInv := by
  intro j w hq
  replace hq : ¬ c.quiet (.worker j w) := hq
  by_cases hj : j = i
  · subst hj
    simp only [Console.setMachine, Function.update_self]
    rcases Machine.park_of_step hm w with hp | rfl | ⟨-, hp⟩ | ⟨hcpu, hx⟩ | ⟨-, hb, -⟩
    · simpa only [Parked, hp] using h j w hq
    · exact absurd hallow hq
    · simp [Parked, hp]
    · rcases hx with ⟨k, rfl⟩ | rfl | rfl
      · exact absurd (hok w hcpu) hq
      · exact absurd (hallow w hcpu) hq
      · exact absurd (hallow w hcpu) hq
    · exact absurd (.inr hb) (h j w hq)
  · simpa [Console.setMachine, hj] using h j w hq

/-- A thread other than `t` enters or leaves `println!` only by its own steps. -/
private theorem LogInv.setPhase (h : c.LogInv) {t : Thread ι} {p : LogPhase}
    {holder : Option (Thread ι)} (hholder : ∀ u, holder = some u → u = t ∨ c.holder = some u)
    (ht : ∀ i w, t = .worker i w → ¬ Parked (c.machine i) w) :
    LogInv { c.setPhase t p with holder := holder } := by
  intro i w hq
  by_cases htw : t = .worker i w
  · exact ht i w htw
  · refine h i w fun hc => hq ⟨fun hh => ?_, ?_⟩
    · exact (hholder _ hh).elim (fun hu => htw hu.symm) hc.1
    · change Function.update c.phase t p _ = _
      rw [Function.update_of_ne (Ne.symm htw)]
      exact hc.2

theorem LogInv.step (h : c.LogInv) {x : ConsoleStep ι τ} (hok : c.LogsUnstopped x)
    (hstep : c.step x = some c') : c'.LogInv := by
  cases x with
  | machine i x =>
    simp only [Console.step] at hstep
    split_ifs at hstep with hallow
    obtain ⟨m, hm, rfl⟩ := Option.map_eq_some_iff.mp hstep
    exact h.setMachine hallow hok hm
  | lock t =>
    simp only [Console.step] at hstep
    split_ifs at hstep with hc
    cases hstep
    refine h.setPhase (fun u hu => .inl (Option.some.inj hu).symm) ?_
    rintro i w rfl
    exact not_parked_of_runs hc.2.2
  | sleep t =>
    simp only [Console.step] at hstep
    split_ifs at hstep with hc
    obtain ⟨d, hd, rfl⟩ := Option.map_eq_some_iff.mp hstep
    -- a UMCG worker does not get here, so no machine moves
    have hdc : d = c := by
      cases t with
      | worker i w =>
        simp only [LogsUnstopped] at hok
        simpa [block, hok] using hd.symm
      | _ => exact (Option.some.inj hd).symm
    subst hdc
    refine h.setPhase (fun u hu => .inr hu) ?_
    rintro i w rfl
    exact not_parked_of_runs hc.2.2.2
  | unlock next =>
    simp only [Console.step] at hstep
    split at hstep
    · split_ifs at hstep with hruns
      split at hstep
      · rename_i u
        split_ifs at hstep with hu
        obtain ⟨d, hd, rfl⟩ := Option.map_eq_some_iff.mp hstep
        have hfree : ∀ i w, u = .worker i w → ¬ Parked (c.machine i) w := by
          rintro i w rfl
          exact h i w fun hq => by simp [hq.2] at hu
        have hdc : d = c := by
          cases u with
          | worker i w =>
            simp only [unblock] at hd
            split_ifs at hd with hp
            · exact (Option.some.inj hd).symm
            · obtain ⟨m, hm, -⟩ := Option.map_eq_some_iff.mp hd
              exact absurd (.inr (Machine.blocked_of_unblock hm)) (hfree i w rfl)
          | _ => exact (Option.some.inj hd).symm
        subst hdc
        exact h.setPhase (by simp) hfree
      · cases hstep
        exact fun i w hq => h i w fun hc => hq ⟨by simp, hc.2⟩
    · cases hstep

/-- When the kernel stops no worker inside of `println!`, no state of any run has a server that
sleeps for the lock while its own worker, parked, holds the lock or was given the wake-up. -/
theorem noCircularWait (h₀ : c.Initial) {l : List (ConsoleStep ι τ)}
    (hrun : Run (Guarded step LogsUnstopped) c l c') (i : ι) (w : UInt64) :
    ¬ c'.CircularWait i w := by
  intro hwait
  have h : c'.LogInv := hrun.invariant h₀.logInv fun _ _ _ h hs => h.step hs.1 hs.2
  refine h i w (fun hq => ?_) hwait.parked
  rcases hwait.worker with hh | hh
  · exact hq.1 hh
  · simp [hq.2] at hh

/-! ### A worker that is parked with the lock -/

/-- The worker `w` is parked while it holds the lock that its server sleeps for. -/
structure Stuck (c : Console ι τ) (i : ι) (w : UInt64) : Prop where
  server : c.phase (.server i) = .asleep
  worker : c.holder = some (.worker i w)
  parked : Parked (c.machine i) w

/-- A step of a machine does not run the parked worker. -/
private theorem Stuck.parked_of_step (h : c.Stuck i w) {j : ι} {x : MachineStep τ} {m : Machine τ}
    (hx : j = i → x ≠ .register w ∧ x ≠ .resume) (hm : (c.machine j).step x = some m) :
    Parked ((c.setMachine j m).machine i) w := by
  by_cases hj : i = j
  · subst hj
    simp only [Console.setMachine, Function.update_self]
    rcases Machine.park_of_step hm w with hp | hr | ⟨hr, -⟩ | ⟨hcpu, -⟩ | ⟨-, -, hp⟩
    · simpa only [Parked, hp] using h.parked
    · exact absurd hr (hx rfl).1
    · exact absurd hr (hx rfl).2
    · have hrunning := (Machine.onCpu_eq_some hcpu).2
      have := h.parked
      simp [Parked, hrunning] at this
    · exact .inl hp
  · simpa [Console.setMachine, hj] using h.parked

theorem Stuck.step (h : c.Stuck i w) {x : ConsoleStep ι τ} (hstep : c.step x = some c') :
    c'.Stuck i w := by
  cases x with
  | machine j x =>
    simp only [Console.step] at hstep
    split_ifs at hstep with hallow
    obtain ⟨m, hm, rfl⟩ := Option.map_eq_some_iff.mp hstep
    refine ⟨h.server, h.worker, h.parked_of_step ?_ hm⟩
    -- the server is asleep and the worker holds the lock: neither is outside of `println!`
    rintro rfl
    constructor
    · rintro rfl
      exact hallow.1 h.worker
    · rintro rfl
      have := hallow.2
      simp [h.server] at this
  | lock t =>
    simp [Console.step, h.worker] at hstep
  | sleep t =>
    simp only [Console.step] at hstep
    split_ifs at hstep with hc
    obtain ⟨d, hd, rfl⟩ := Option.map_eq_some_iff.mp hstep
    have hd' : d.Stuck i w := by
      cases t with
      | worker j v =>
        simp only [block] at hd
        split_ifs at hd with hp
        · cases hd
          exact h
        · obtain ⟨m, hm, rfl⟩ := Option.map_eq_some_iff.mp hd
          exact ⟨h.server, h.worker, h.parked_of_step (by simp) hm⟩
      | _ =>
        cases hd
        exact h
    have hne : (.server i : Thread ι) ≠ t := by
      rintro rfl
      exact hc.2.2.1 h.server
    exact ⟨by simpa [Console.setPhase, hne] using hd'.server, hd'.worker, hd'.parked⟩
  | unlock next =>
    have hruns : c.runs (.worker i w) = false := by
      by_contra hr
      exact not_parked_of_runs (by simpa using hr) h.parked
    simp [Console.step, h.worker, hruns] at hstep

/-- Nothing that any thread does releases the lock again. -/
theorem Stuck.run (h : c.Stuck i w) {l : List (ConsoleStep ι τ)}
    (hrun : Run (Guarded Console.step fun _ _ => True) c l c') : c'.Stuck i w :=
  hrun.invariant (I := fun c => c.Stuck i w) h fun _ _ _ h hs => h.step hs.2

/-! ### One server with one worker -/

/-- The process of `Machine.oneWorker`. -/
def oneWorker : Console Unit ℕ where
  machine _ := Machine.oneWorker
  holder := none
  phase _ := .quiet

theorem oneWorker_start : oneWorker.Initial :=
  ⟨fun _ => Machine.oneWorker_initial, rfl, fun _ => rfl⟩

/-- The worker has been registered, has been given the task 7 and executes it. -/
def inTask : List (ConsoleStep Unit ℕ) :=
  (Machine.registration ++ [MachineStep.wait] ++ Machine.giveTask 7 ++
    [MachineStep.worker 32 (.waited 0), .worker 32 (.poll true)]).map (ConsoleStep.machine ())

/-- The worker logs, waits, and its server, which the main thread kept from logging, logs. -/
def logRound : List (ConsoleStep Unit ℕ) :=
  inTask ++ [ConsoleStep.lock (.worker () 32), .unlock none,
    .machine () (.worker 32 .returned), .machine () .wait, .lock (.other 0), .sleep (.server ()),
    .unlock (some (.server ())), .lock (.server ()), .unlock none, .machine () (.server .tau)]

theorem noCircularWait_logRound :
    ∃ c, Run (Guarded step LogsUnstopped) oneWorker logRound c ∧ ¬ c.CircularWait () 32 := by
  have hrun : Run (Guarded step LogsUnstopped) oneWorker logRound _ :=
    run_trace (by decide +kernel)
  exact ⟨_, hrun, noCircularWait oneWorker_start hrun () 32⟩

/-- The worker blocks in its write. -/
def writerStopped : List (ConsoleStep Unit ℕ) :=
  inTask ++ [ConsoleStep.lock (.worker () 32), .machine () (.stop .block), .sleep (.server ())]

/-- The worker and then its server sleep for the lock that the main thread holds, and the worker
is woken. -/
def sleeperWoken : List (ConsoleStep Unit ℕ) :=
  inTask ++ [ConsoleStep.lock (.other 0), .sleep (.worker () 32), .sleep (.server ()),
    .unlock (some (.worker () 32))]

/-- A server that handles the `BLOCK` of its worker sleeps at its first `debug!`, while the parked
worker holds the lock, in one run, and was given the wake-up, in another. -/
theorem circularWait_in_handle_event :
    (∃ c, Run (Guarded step fun _ _ => True) oneWorker writerStopped c ∧
      (c.machine ()).server.control = .handleEvent (eventWord 32 .block) 0 (.trySchedule []) ∧
      c.holder = some (.worker () 32) ∧ c.CircularWait () 32) ∧
    ∃ c, Run (Guarded step fun _ _ => True) oneWorker sleeperWoken c ∧
      (c.machine ()).server.control = .handleEvent (eventWord 32 .block) 0 (.trySchedule []) ∧
      c.phase (.worker () 32) = .woken ∧ c.CircularWait () 32 :=
  ⟨⟨_, run_trace (by decide +kernel), by decide +kernel, by decide +kernel, by decide +kernel,
      .inl (by decide +kernel), .inr (by decide +kernel)⟩,
    _, run_trace (by decide +kernel), by decide +kernel, by decide +kernel, by decide +kernel,
      .inr (by decide +kernel), .inl (by decide +kernel)⟩

end Console

end Umcg.Attempt2
