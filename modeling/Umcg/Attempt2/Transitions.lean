import Umcg.Attempt2.Server

/-!
# What a step of the server thread can do

`Server.Move` lists, case by case, the steps of a server that has left its registration loop:
the point of control, the branch that is taken and the resulting state. `Server.move_of_step`
says that nothing else happens, so an invariant of the scheduler is checked against these
cases and never against the text of `handle_event` or `try_schedule_tasks`.

The keys of the status table, the channel map and the two capacities never change
(`Server.Move.fixed`). `Server.RegisterMove` does the same for the registration loop.
-/

namespace Umcg.Attempt2

namespace Control

variable {τ : Type}

/-- The thread has left the registration loop. -/
def Serving : Control τ → Prop
  | registering _ | registerSwitch _ _ => False
  | _ => True

/-- Control is in `run_event_loop`: the function it called last has returned. -/
def AtReturn : Control τ → Prop
  | eventLoop _ => True
  | _ => False

instance : (c : Control τ) → Decidable c.AtReturn
  | eventLoop _ => .isTrue trivial
  | registering _ | registerSwitch _ _ | popPending | removeTask _ | sendTask _ _ | ctxSwitch _ _
  | handleEvent _ _ _ => .isFalse id

theorem AtReturn.serving {c : Control τ} (h : c.AtReturn) : c.Serving := by
  cases c with
  | eventLoop => trivial
  | _ => exact h.elim

/-- The worker that the thread is inside a context switch to, after registration. -/
def target : Control τ → Option UInt64
  | ctxSwitch w _ => some w
  | _ => none

/-- The worker that the thread is inside a context switch to. -/
def switching : Control τ → Option UInt64
  | ctxSwitch w _ => some w
  | registerSwitch _ tid => some (shiftedId tid)
  | _ => none

end Control

namespace Server

variable {τ : Type} {s t : Server τ} {i : Input τ} {w w' : UInt64} {st : WorkerStatus}

/-! ### Fields of the elementary updates -/

section Fields

variable (s : Server τ) (w : UInt64) (st : WorkerStatus) (r : Outcome) (c : Caller)
  (d : Diagnostic)

@[simp] theorem setStatus_states : (s.setStatus w st).states = s.states.set w st := rfl
@[simp] theorem setStatus_channels : (s.setStatus w st).channels = s.channels := rfl
@[simp] theorem setStatus_pending : (s.setStatus w st).pending = s.pending := rfl
@[simp] theorem setStatus_running : (s.setStatus w st).running = s.running := rfl
@[simp] theorem setStatus_control : (s.setStatus w st).control = s.control := rfl
@[simp] theorem setStatus_log : (s.setStatus w st).log = s.log := rfl

@[simp] theorem ret_states : (s.ret r c).states = s.states := rfl
@[simp] theorem ret_channels : (s.ret r c).channels = s.channels := rfl
@[simp] theorem ret_pending : (s.ret r c).pending = s.pending := rfl
@[simp] theorem ret_running : (s.ret r c).running = s.running := rfl
@[simp] theorem ret_control : (s.ret r c).control = resume r c := rfl
@[simp] theorem ret_log : (s.ret r c).log = s.log := rfl

@[simp] theorem diagnose_states : (s.diagnose d).states = s.states := rfl
@[simp] theorem diagnose_channels : (s.diagnose d).channels = s.channels := rfl
@[simp] theorem diagnose_pending : (s.diagnose d).pending = s.pending := rfl
@[simp] theorem diagnose_running : (s.diagnose d).running = s.running := rfl
@[simp] theorem diagnose_control : (s.diagnose d).control = s.control := rfl
@[simp] theorem diagnose_log : (s.diagnose d).log = s.log ++ [d] := rfl

@[simp] theorem pushPending_states : (s.pushPending w).states = s.states := by
  unfold pushPending; split <;> rfl
@[simp] theorem pushPending_channels : (s.pushPending w).channels = s.channels := by
  unfold pushPending; split <;> rfl
@[simp] theorem pushPending_running : (s.pushPending w).running = s.running := by
  unfold pushPending; split <;> rfl
@[simp] theorem pushPending_control : (s.pushPending w).control = s.control := by
  unfold pushPending; split <;> rfl

@[simp] theorem pushPending_cap : (s.pushPending w).pending.cap = s.pending.cap := by
  unfold pushPending
  split
  · exact (BoundedQueue.push_eq_some_iff.mp ‹_›).2.1
  · rfl

end Fields

/-- With room in the pending queue, a push appends the worker and logs nothing. -/
theorem pushPending_of_lt (h : s.pending.items.length < s.pending.cap) :
    (s.pushPending w).pending.items = s.pending.items ++ [w] ∧ (s.pushPending w).log = s.log := by
  unfold pushPending
  split
  · exact ⟨(BoundedQueue.push_eq_some_iff.mp ‹_›).2.2, rfl⟩
  · have := BoundedQueue.push_eq_none_iff.mp ‹_›
    omega

@[simp] theorem popRunning_states (s : Server τ) : s.popRunning.states = s.states := rfl
@[simp] theorem popRunning_channels (s : Server τ) : s.popRunning.channels = s.channels := rfl
@[simp] theorem popRunning_pending (s : Server τ) : s.popRunning.pending = s.pending := rfl
@[simp] theorem popRunning_control (s : Server τ) : s.popRunning.control = s.control := rfl
@[simp] theorem popRunning_log (s : Server τ) : s.popRunning.log = s.log := rfl

@[simp] theorem popRunning_items (s : Server τ) :
    s.popRunning.running.items = s.running.items.tail := by
  cases h : s.running.pop with
  | none => simp [popRunning, h, BoundedQueue.pop_eq_none_iff.mp h]
  | some p => simp [popRunning, h, (BoundedQueue.pop_eq_some_iff.mp h).1]

@[simp] theorem popRunning_cap (s : Server τ) : s.popRunning.running.cap = s.running.cap := by
  cases h : s.running.pop with
  | none => simp [popRunning, h]
  | some p => simp [popRunning, h, (BoundedQueue.pop_eq_some_iff.mp h).2]

/-! ### The cases of a step -/

/-- The steps of a server that has left the registration loop. -/
inductive Move (s : Server τ) : Input τ → Server τ → Prop
  | schedule {r : Outcome} (hc : s.control = .eventLoop r) :
      Move s .schedule { s with control := .popPending }
  | recv {r : Outcome} {e : UInt64} (hc : s.control = .eventLoop r)
      (hw : workerId e ∈ s.channels) :
      Move s (.recv e) { s with control := .handleEvent e 0 .runEventLoop }
  | unmanaged {r : Outcome} {e : UInt64} (hc : s.control = .eventLoop r)
      (hw : workerId e ∉ s.channels) : Move s (.recv e) (s.diagnose (.unmanaged (workerId e)))
  | popEmpty (hc : s.control = .popPending) (hq : s.pending.items = []) :
      Move s .tau { s with control := .eventLoop .ok }
  | popUnknown {w : UInt64} {q : BoundedQueue UInt64} (hc : s.control = .popPending)
      (hq : s.pending.pop = some (w, q)) (hw : s.states.get? w = none) :
      Move s .tau { s with pending := q }
  | popCritical {w : UInt64} {q : BoundedQueue UInt64} {st : WorkerStatus}
      (hc : s.control = .popPending) (hq : s.pending.pop = some (w, q))
      (hw : s.states.get? w = some st) (hst : st ≠ .waiting) :
      Move s .tau (({ s with pending := q }.diagnose (.critical w st)).pushPending w)
  | popWaiting {w : UInt64} {q : BoundedQueue UInt64} (hc : s.control = .popPending)
      (hq : s.pending.pop = some (w, q)) (hw : s.states.get? w = some .waiting) :
      Move s .tau { s with pending := q, control := .removeTask w }
  | noTask {w : UInt64} (hc : s.control = .removeTask w) :
      Move s (.removed none) { s.pushPending w with control := .eventLoop .ok }
  | noChannel {w : UInt64} {task : τ} (hc : s.control = .removeTask w) (hw : w ∉ s.channels) :
      Move s (.removed (some task)) { s with control := .popPending }
  | dispatch {w : UInt64} {task : τ} {q : BoundedQueue UInt64} (hc : s.control = .removeTask w)
      (hw : w ∈ s.channels) (hq : s.running.push w = some q) :
      Move s (.removed (some task))
        { s.setStatus w .running with running := q, control := .sendTask w task }
  | runningFull {w : UInt64} {task : τ} (hc : s.control = .removeTask w) (hw : w ∈ s.channels)
      (hq : s.running.push w = none) :
      Move s (.removed (some task))
        { (((s.setStatus w .running).diagnose (.runningFull w)).setStatus w .waiting).pushPending w
          with control := .popPending }
  | sentOk {w : UInt64} {task : τ} (hc : s.control = .sendTask w task) :
      Move s (.sent true) { s with control := .ctxSwitch w .trySchedule }
  | sendFailed {w : UInt64} {task : τ} (hc : s.control = .sendTask w task) :
      Move s (.sent false) { s.diagnose (.sendFailed w) with control := .popPending }
  | switchedBack {w : UInt64} {a : SwitchAnswer} (hc : s.control = .ctxSwitch w .trySchedule) :
      Move s (.switched a) { s with control := nextEvent a.reported }
  | switchedSilent {w : UInt64} {a : SwitchAnswer} {d : ℕ} {c : Caller}
      (hc : s.control = .ctxSwitch w (.handleEvent d c)) (ha : a.reported = []) :
      Move s (.switched a) (s.ret .ok c)
  | switchedNested {w : UInt64} {a : SwitchAnswer} {d : ℕ} {c : Caller} {e : UInt64}
      {rest : List UInt64} (hc : s.control = .ctxSwitch w (.handleEvent d c))
      (ha : a.reported = e :: rest) :
      Move s (.switched a) { s with control := .handleEvent e (d + 1) c }
  | block {e : UInt64} {d : ℕ} {c : Caller} (hc : s.control = .handleEvent e d c)
      (he : eventType e = some .block) (hw : s.states.get? (workerId e) = some .running) :
      Move s .tau ((s.setStatus (workerId e) .blocked).ret .ok c)
  | wake {e : UInt64} {d : ℕ} {c : Caller} (hc : s.control = .handleEvent e d c)
      (he : eventType e = some .wake) (hw : s.states.get? (workerId e) = some .blocked) :
      Move s .tau { s.setStatus (workerId e) .running with
        control := .ctxSwitch (workerId e) (.handleEvent d c) }
  | wait {e : UInt64} {d : ℕ} {c : Caller} (hc : s.control = .handleEvent e d c)
      (he : eventType e = some .wait) (hw : s.states.get? (workerId e) = some .running) :
      Move s .tau
        (((s.setStatus (workerId e) .waiting).popRunning.pushPending (workerId e)).ret .ok c)
  | waitUnexpected {e : UInt64} {d : ℕ} {c : Caller} {st : WorkerStatus}
      (hc : s.control = .handleEvent e d c) (he : eventType e = some .wait)
      (hw : s.states.get? (workerId e) = some st) (hst : st ≠ .running) :
      Move s .tau ((s.pushPending (workerId e)).ret .ok c)
  | ignored {e : UInt64} {d : ℕ} {c : Caller} (hc : s.control = .handleEvent e d c)
      (he : eventType e = some .block ∧ s.states.get? (workerId e) ≠ some .running ∨
        eventType e = some .wake ∧ s.states.get? (workerId e) ≠ some .blocked ∨
        eventType e = some .wait ∧ s.states.get? (workerId e) = none) :
      Move s .tau (s.ret .ok c)
  | invalid {e : UInt64} {d : ℕ} {c : Caller} (hc : s.control = .handleEvent e d c)
      (he : eventType e ≠ some .block ∧ eventType e ≠ some .wake ∧ eventType e ≠ some .wait) :
      Move s .tau (s.ret (.err (.invalidWorkerEvent (workerId e) e)) c)

private theorem move_popPending (hc : s.control = .popPending) : Move s .tau s.popPending := by
  unfold popPending
  split
  · exact .popEmpty hc (BoundedQueue.pop_eq_none_iff.mp ‹_›)
  · rename_i w q hq
    dsimp only
    split
    · exact .popUnknown hc hq ‹_›
    · exact .popWaiting hc hq ‹_›
    · rename_i st hne hst
      exact .popCritical hc hq hst hne

private theorem move_removeTask (hc : s.control = .removeTask w) (o : Option τ) :
    Move s (.removed o) (s.removeTask w o) := by
  cases o with
  | none => exact .noTask hc
  | some task =>
    unfold removeTask
    split_ifs with hw
    · dsimp only
      split
      · exact .dispatch hc hw ‹_›
      · exact .runningFull hc hw ‹_›
    · exact .noChannel hc hw

private theorem move_handleEvent {e : UInt64} {d : ℕ} {c : Caller}
    (hc : s.control = .handleEvent e d c) : Move s .tau (s.handleEvent e d c) := by
  unfold handleEvent
  dsimp only
  split
  · split
    · exact .block hc ‹_› ‹_›
    · exact .ignored hc (.inl ⟨‹_›, ‹_›⟩)
  · split
    · exact .wake hc ‹_› ‹_›
    · exact .ignored hc (.inr (.inl ⟨‹_›, ‹_›⟩))
  · split
    · exact .wait hc ‹_› ‹_›
    · rename_i he _ st hne hst
      exact .waitUnexpected hc he hst hne
    · exact .ignored hc (.inr (.inr ⟨‹_›, ‹_›⟩))
  · rename_i h₁ h₂ h₃
    exact .invalid hc ⟨h₁, h₂, h₃⟩

private theorem move_switched {site : Site} (hc : s.control = .ctxSwitch w site)
    (a : SwitchAnswer) : Move s (.switched a) (s.switched a site) := by
  cases site with
  | trySchedule => exact .switchedBack hc
  | handleEvent d c =>
    unfold switched
    dsimp only
    split
    · exact .switchedSilent hc ‹_›
    · exact .switchedNested hc ‹_›

/-- Every step of a serving server is one of the cases of `Move`. -/
theorem move_of_step (hs : s.control.Serving) (h : s.step i = some t) : Move s i t := by
  cases i with
  | waited a =>
    simp only [step] at h
    split at h
    · rename_i hc
      simp [hc, Control.Serving] at hs
    · cases h
  | schedule =>
    simp only [step] at h
    split at h <;> cases h
    exact .schedule ‹_›
  | recv e =>
    simp only [step] at h
    split at h <;> cases h
    rename_i r hc
    unfold recv
    split_ifs with hw
    · exact .recv hc hw
    · exact .unmanaged hc hw
  | tau =>
    simp only [step] at h
    split at h <;> cases h
    · exact move_popPending ‹_›
    · exact move_handleEvent ‹_›
  | removed o =>
    simp only [step] at h
    split at h <;> cases h
    exact move_removeTask ‹_› o
  | sent ok =>
    simp only [step] at h
    split at h <;> cases h
    cases ok with
    | true => exact .sentOk ‹_›
    | false => exact .sendFailed ‹_›
  | switched a =>
    simp only [step] at h
    split at h <;> cases h
    · exact move_switched ‹_› a
    · rename_i hc
      simp [hc, Control.Serving] at hs

theorem serving_nextEvent (l : List UInt64) : (nextEvent l : Control τ).Serving := by
  cases l <;> trivial

theorem serving_resume (r : Outcome) (c : Caller) : (resume r c : Control τ).Serving := by
  cases c with
  | runEventLoop => trivial
  | trySchedule rest =>
    cases r with
    | ok => exact serving_nextEvent rest
    | err e => trivial

theorem nextEvent_ne_removeTask (l : List UInt64) (w : UInt64) :
    (nextEvent l : Control τ) ≠ .removeTask w := by
  cases l <;> simp [nextEvent]

theorem resume_ne_removeTask (r : Outcome) (c : Caller) (w : UInt64) :
    (resume r c : Control τ) ≠ .removeTask w := by
  rcases c with _ | ⟨_ | ⟨e, rest⟩⟩ <;> cases r <;> simp [resume, nextEvent]

/-- A server that has left the registration loop never returns to it. -/
theorem Move.serving (hs : s.control.Serving) (h : Move s i t) : t.control.Serving := by
  cases h
  case switchedBack => exact serving_nextEvent _
  case switchedSilent | block | wait | waitUnexpected | ignored | invalid =>
    exact serving_resume _ _
  case popCritical => simpa using hs
  case unmanaged | popUnknown => exact hs
  all_goals trivial

/-- The steps of the registration loop. -/
inductive RegisterMove (s : Server τ) : Input τ → Server τ → Prop
  | waitedAgain {r : List UInt64} {a : SwitchAnswer} (hc : s.control = .registering r) :
      RegisterMove s (.waited a) s
  | waitedWake {r : List UInt64} {a : SwitchAnswer} (hc : s.control = .registering r)
      (ha : a.ret = 0) (he : eventType a.first = some .wake)
      (hnew : shiftedId (workerTid a.first) ∉ r) :
      RegisterMove s (.waited a)
        { s with control := .registerSwitch r (workerTid a.first) }
  | skipped {r : List UInt64} {tid : Int32} {a : SwitchAnswer}
      (hc : s.control = .registerSwitch r tid)
      (ha : a.ret ≠ 0 ∨ s.states.get? (shiftedId tid) = none) :
      RegisterMove s (.switched a) { s with control := .registering r }
  | registered {r : List UInt64} {tid : Int32} {a : SwitchAnswer} {st : WorkerStatus}
      (hc : s.control = .registerSwitch r tid) (ha : a.ret = 0)
      (hw : s.states.get? (shiftedId tid) = some st) :
      RegisterMove s (.switched a)
        (((s.setStatus (shiftedId tid) .waiting).pushPending (shiftedId tid)).registerNext
          (r ++ [shiftedId tid]))

@[simp] theorem registerNext_states (s : Server τ) (r : List UInt64) :
    (s.registerNext r).states = s.states := by
  unfold registerNext
  split_ifs <;> rfl

/-- The registration loop goes on or is left. -/
theorem registerNext_control (s : Server τ) (r : List UInt64) :
    (s.registerNext r).control = .registering r ∨ (s.registerNext r).control = .eventLoop .ok := by
  unfold registerNext
  split_ifs
  · exact .inl rfl
  · exact .inr rfl

private theorem registerMove_waited {r : List UInt64} (hc : s.control = .registering r)
    (a : SwitchAnswer) : RegisterMove s (.waited a) (s.waited r a) := by
  unfold waited
  split_ifs with hr he hmem
  · exact .waitedAgain hc
  · exact .waitedAgain hc
  · exact .waitedWake hc (not_not.mp hr) he hmem
  · exact .waitedAgain hc

private theorem registerMove_switched {r : List UInt64} {tid : Int32}
    (hc : s.control = .registerSwitch r tid) (a : SwitchAnswer) :
    RegisterMove s (.switched a) (s.registerSwitched r tid a) := by
  unfold registerSwitched
  dsimp only
  split_ifs with ha
  · split
    · exact .registered hc ha ‹_›
    · exact .skipped hc (.inr ‹_›)
  · exact .skipped hc (.inl ha)

/-- Every step of a server in its registration loop is one of the cases of `RegisterMove`. -/
theorem registerMove_of_step (hs : ¬ s.control.Serving) (h : s.step i = some t) :
    RegisterMove s i t := by
  cases hc : s.control with
  | registering r =>
    cases i <;> simp only [step, hc, reduceCtorEq, Option.some.injEq] at h
    subst h
    exact registerMove_waited hc _
  | registerSwitch r tid =>
    cases i <;> simp only [step, hc, reduceCtorEq, Option.some.injEq] at h
    subst h
    exact registerMove_switched hc _
  | _ => simp [hc, Control.Serving] at hs

/-- The state in which the registration loop leaves a server: every worker of the table is
`Waiting`, is in the pending queue once and has a channel, and no task runs. -/
structure PostRegistration (s : Server τ) : Prop where
  control : s.control.AtReturn
  waiting : ∀ w ∈ s.states.keys, s.states.value w = .waiting
  pending : s.pending.items.Perm s.states.keys
  running : s.running.items = []
  channels : ∀ w ∈ s.states.keys, w ∈ s.channels
  log : s.log = []

theorem PostRegistration.serving (h : PostRegistration s) : s.control.Serving := h.control.serving

theorem PostRegistration.get?_eq_waiting (h : PostRegistration s) :
    s.states.get? w = some .waiting ↔ w ∈ s.states.keys := by
  rw [Table.get?_eq_some_iff]
  exact ⟨And.left, fun hw => ⟨hw, h.waiting w hw⟩⟩

/-- A server of two workers, as registration leaves it. -/
def twoWorkers : Server ℕ where
  states := .const [32, 64] (by decide) .waiting
  channels := [32, 64]
  pending := ⟨2, [32, 64], by decide⟩
  running := .empty 2
  control := .eventLoop .ok
  log := []

theorem twoWorkers_postRegistration : PostRegistration twoWorkers where
  control := trivial
  waiting _ _ := rfl
  pending := .refl _
  running := rfl
  channels _ h := h
  log := rfl

/-- No step changes the workers of a server, its channels or its capacities. -/
theorem Move.fixed (h : Move s i t) : t.states.keys = s.states.keys ∧
    t.channels = s.channels ∧ t.pending.cap = s.pending.cap ∧ t.running.cap = s.running.cap := by
  cases h
  case popUnknown hq _ | popWaiting hq _ =>
    exact ⟨rfl, rfl, (BoundedQueue.pop_eq_some_iff.mp hq).2, rfl⟩
  case popCritical hq _ _ => simp [(BoundedQueue.pop_eq_some_iff.mp hq).2]
  case dispatch hq => simp [(BoundedQueue.push_eq_some_iff.mp hq).2.1]
  all_goals simp

end Server

end Umcg.Attempt2
