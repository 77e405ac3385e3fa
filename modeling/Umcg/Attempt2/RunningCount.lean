import Umcg.Attempt2.Transitions

/-!
# The running queue counts the busy workers

The running queue does not say *which* workers are busy: on a `WAIT` whichever worker is at its
front leaves. But its length is the number of workers that are `Running` or `Blocked`, whatever
the kernel answers and whatever events arrive (`Server.RunningInv`). A worker is pushed when it
leaves `Waiting` and one is popped when a worker returns to `Waiting`.

So a queue with room for all workers is never full when a `Waiting` worker is dispatched, and
the branch of `try_schedule_tasks` that drops the task of a failed push is not reached. Nor is the
queue ever empty when a `Running` worker waits.

`Server.stepCall` adds to the steps of the thread the call of `handle_event` on any event, also on
one that `run_event_loop` would not pass on.

## Main results

* `Server.RunningInv.move` : every step keeps the count.
* `Server.running_queue_fits` : the push never fails and the pop never finds the queue empty.
-/

namespace Umcg.Attempt2

namespace Server

variable {τ : Type} {s t : Server τ} {i : Input τ} {w : UInt64}

/-- The running queue has room for all workers and as many entries as there are busy workers;
the worker that `try_schedule_tasks` has popped is `Waiting`. -/
structure RunningInv (s : Server τ) : Prop where
  serving : s.control.Serving
  length : s.running.items.length = s.states.count WorkerStatus.busy
  room : s.states.keys.length ≤ s.running.cap
  popped : ∀ w, s.control = .removeTask w → s.states.get? w = some .waiting

/-- All workers are `Waiting` and the running queue is empty. -/
theorem runningInv_of_waiting (hret : s.control.AtReturn)
    (hwait : ∀ w ∈ s.states.keys, s.states.value w = .waiting) (hrun : s.running.items = [])
    (hcap : s.states.keys.length ≤ s.running.cap) : RunningInv s where
  serving := hret.serving
  length := by
    rw [hrun, List.length_nil, eq_comm]
    refine List.countP_eq_zero.mpr fun w hw => ?_
    simp [hwait w hw, WorkerStatus.busy]
  room := hcap
  popped w hc := by simp [hc, Control.AtReturn] at hret

theorem PostRegistration.runningInv (h : PostRegistration s)
    (hcap : s.states.keys.length ≤ s.running.cap) : RunningInv s :=
  runningInv_of_waiting h.control h.waiting h.running hcap

/-- A dispatched worker is `Waiting`, so fewer workers are busy than the queue has room for. -/
theorem RunningInv.lt_cap (h : RunningInv s) (hw : s.states.get? w = some .waiting) :
    s.running.items.length < s.running.cap := by
  obtain ⟨hk, hv⟩ := Table.get?_eq_some_iff _ |>.mp hw
  have := s.states.count_lt WorkerStatus.busy hk (by simp [hv, WorkerStatus.busy])
  have := h.room
  have := h.length
  omega

/-- A status change that keeps a worker busy, and a jump to a point after it. -/
private theorem RunningInv.set (h : RunningInv s) {a b : WorkerStatus}
    (hw : s.states.get? w = some a) (hab : a.busy = b.busy) {c : Control τ} (hs : c.Serving)
    (hc : ∀ x, c ≠ .removeTask x) : RunningInv { s.setStatus w b with control := c } where
  serving := hs
  length := by
    obtain ⟨hk, hv⟩ := Table.get?_eq_some_iff _ |>.mp hw
    have hcount := s.states.count_set (a := b) WorkerStatus.busy hk
    rw [hv, hab] at hcount
    change s.running.items.length = (s.states.set w b).count _
    have := h.length
    omega
  room := h.room
  popped x hx := absurd hx (hc x)

private theorem RunningInv.jump (h : RunningInv s) {c : Control τ} (hs : c.Serving)
    (hc : ∀ x, c = .removeTask x → s.states.get? x = some .waiting) :
    RunningInv { s with control := c } := ⟨hs, h.length, h.room, hc⟩

/-- Only the statuses, the running queue and the control matter. -/
private theorem RunningInv.congr (h : RunningInv s) (hst : t.states = s.states)
    (hrun : t.running = s.running) (hctl : t.control = s.control) : RunningInv t where
  serving := hctl ▸ h.serving
  length := by rw [hst, hrun, h.length]
  room := by rw [hst, hrun]; exact h.room
  popped w hw := by rw [hst]; exact h.popped w (hctl ▸ hw)

/-- Every step keeps the count, whatever its input. -/
theorem RunningInv.move (h : RunningInv s) (hm : Move s i t) : RunningInv t := by
  cases hm with
  | schedule hc => exact h.jump trivial (by simp)
  | recv hc hw => exact h.jump trivial (by simp)
  | unmanaged hc hw => exact h.congr rfl rfl rfl
  | popEmpty hc hq => exact h.jump trivial (by simp)
  | popUnknown hc hq hw => exact h.congr rfl rfl rfl
  | popCritical hc hq hw hst => exact h.congr (by simp) (by simp) (by simp)
  | @popWaiting w q hc hq hw =>
    have hj : RunningInv { s with control := .removeTask w } := h.jump trivial (by simp [hw])
    exact hj.congr rfl rfl rfl
  | noTask hc =>
    have hj : RunningInv { s with control := .eventLoop .ok } := h.jump trivial (by simp)
    exact hj.congr (by simp) (by simp) rfl
  | noChannel hc hw => exact h.jump trivial (by simp)
  | @dispatch w task q hc hw hq =>
    obtain ⟨-, hcap, hitems⟩ := BoundedQueue.push_eq_some_iff.mp hq
    obtain ⟨hk, hv⟩ := Table.get?_eq_some_iff _ |>.mp (h.popped w hc)
    have hcount := s.states.count_set (a := .running) WorkerStatus.busy hk
    refine ⟨trivial, ?_, ?_, by simp⟩
    · change q.items.length = (s.states.set w .running).count _
      simp only [hv, WorkerStatus.busy, Bool.toNat_false, Bool.toNat_true] at hcount
      rw [hitems, List.length_append, List.length_singleton, h.length]
      omega
    · exact hcap ▸ h.room
  | @runningFull w task hc hw hq =>
    have := h.lt_cap (h.popped w hc)
    have := BoundedQueue.push_eq_none_iff.mp hq
    omega
  | sentOk hc => exact h.jump trivial (by simp)
  | @sendFailed w task hc =>
    have hj : RunningInv { s with control := .popPending } := h.jump trivial (by simp)
    exact hj.congr rfl rfl rfl
  | @switchedBack w a hc =>
    exact h.jump (serving_nextEvent _) fun x hx => absurd hx (nextEvent_ne_removeTask _ x)
  | switchedSilent hc ha => exact h.jump (serving_resume _ _) (by simp [resume_ne_removeTask])
  | switchedNested hc ha => exact h.jump trivial (by simp)
  | block hc he hw =>
    exact h.set (b := .blocked) hw rfl (serving_resume _ _) (resume_ne_removeTask _ _)
  | @wake e d c hc he hw =>
    exact h.set (b := .running) (c := .ctxSwitch _ (.handleEvent d c)) hw rfl trivial (by simp)
  | @wait e d c hc he hw =>
    obtain ⟨hk, hv⟩ := Table.get?_eq_some_iff _ |>.mp hw
    have hcount := s.states.count_set (a := .waiting) WorkerStatus.busy hk
    have hpos := s.states.count_pos WorkerStatus.busy hk (by simp [hv, WorkerStatus.busy])
    simp only [hv, WorkerStatus.busy, Bool.toNat_false, Bool.toNat_true] at hcount
    refine ⟨serving_resume _ _, ?_, by simpa using h.room, by simp [ret, resume_ne_removeTask]⟩
    have := h.length
    simp only [ret_running, pushPending_running, popRunning_items, setStatus_running,
      List.length_tail, ret_states, pushPending_states, popRunning_states, setStatus_states]
    omega
  | @waitUnexpected e d c st hc he hw hst =>
    have hj : RunningInv { s with control := resume .ok c } :=
      h.jump (serving_resume _ _) (by simp [resume_ne_removeTask])
    exact hj.congr (by simp) (by simp) rfl
  | ignored hc he => exact h.jump (serving_resume _ _) (by simp [resume_ne_removeTask])
  | invalid hc he => exact h.jump (serving_resume _ _) (by simp [resume_ne_removeTask])

/-! ### Calls on arbitrary events -/

/-- A step of the thread, or a call of `handle_event`. -/
inductive CallInput (τ : Type)
  | call (event : UInt64)
  | input (i : Input τ)
  deriving DecidableEq, Repr

/-- A step of a server whose functions are called in any order and on any event. -/
def stepCall (s : Server τ) : CallInput τ → Option (Server τ)
  | .call event =>
    match s.control with
    | .eventLoop _ => some { s with control := .handleEvent event 0 .runEventLoop }
    | _ => none
  | .input i => s.step i

/-- No task is dropped because the running queue is full. -/
theorem Move.runningFull_log (h : RunningInv s) (hm : Move s i t)
    (hw : Diagnostic.runningFull w ∈ t.log) : Diagnostic.runningFull w ∈ s.log := by
  have hpush : ∀ {u : Server τ} {x : UInt64}, Diagnostic.runningFull w ∈ (u.pushPending x).log →
      Diagnostic.runningFull w ∈ u.log := by
    intro u x hx
    unfold pushPending at hx
    split at hx
    · exact hx
    · simpa [diagnose] using hx
  cases hm with
  | unmanaged | sendFailed => simpa [diagnose] using hw
  | popCritical => simpa [diagnose] using hpush hw
  | noTask => exact hpush hw
  | @runningFull x task hc _ hq =>
    have := h.lt_cap (h.popped x hc)
    have := BoundedQueue.push_eq_none_iff.mp hq
    omega
  | wait => exact hpush (u := (s.setStatus _ .waiting).popRunning) hw
  | waitUnexpected => exact hpush hw
  | _ => exact hw

private theorem RunningInv.stepCall (h : RunningInv s) {x : CallInput τ}
    (hstep : s.stepCall x = some t) :
    RunningInv t ∧ ∀ w, Diagnostic.runningFull w ∈ t.log → Diagnostic.runningFull w ∈ s.log := by
  cases x with
  | call event =>
    simp only [Server.stepCall] at hstep
    split at hstep <;> cases hstep
    exact ⟨h.jump trivial (by simp), fun w hw => hw⟩
  | input i =>
    have hm := move_of_step h.serving hstep
    exact ⟨h.move hm, fun w hw => hm.runningFull_log h hw⟩

/-- From a state in which all workers are `Waiting`, the running queue is empty and has room for
all workers, in every run: a worker that `try_schedule_tasks` has popped can be pushed to the
running queue, no task has been dropped because it could not, and the running queue is not empty
when a `WAIT` of a `Running` worker is handled. -/
theorem running_queue_fits (s t : Server τ) (hret : s.control.AtReturn)
    (hwait : ∀ w ∈ s.states.keys, s.states.value w = .waiting) (hrun : s.running.items = [])
    (hcap : s.states.keys.length ≤ s.running.cap) (l : List (CallInput τ))
    (h : Run (Guarded stepCall fun _ _ => True) s l t) :
    (∀ w, t.control = .removeTask w → t.running.push w ≠ none) ∧
    (∀ w, Diagnostic.runningFull w ∈ t.log → Diagnostic.runningFull w ∈ s.log) ∧
    ∀ e d c, t.control = .handleEvent e d c → eventType e = some .wait →
      t.states.get? (workerId e) = some .running → t.running.pop ≠ none := by
  obtain ⟨hI, hlog⟩ : RunningInv t ∧
      ∀ w, Diagnostic.runningFull w ∈ t.log → Diagnostic.runningFull w ∈ s.log := by
    refine h.invariant (I := fun u => RunningInv u ∧
      ∀ w, Diagnostic.runningFull w ∈ u.log → Diagnostic.runningFull w ∈ s.log)
      ⟨runningInv_of_waiting hret hwait hrun hcap, fun w hw => hw⟩ ?_
    rintro u x v ⟨hu, hlog⟩ ⟨-, hstep⟩
    obtain ⟨hv, hlog'⟩ := hu.stepCall hstep
    exact ⟨hv, fun w hw => hlog w (hlog' w hw)⟩
  refine ⟨fun w hc hfull => ?_, hlog, fun e d c _ _ hw hempty => ?_⟩
  · have hlt := hI.lt_cap (hI.popped w hc)
    have hle := BoundedQueue.push_eq_none_iff.mp hfull
    omega
  · obtain ⟨hk, hv⟩ := t.states.get?_eq_some_iff.mp hw
    have hpos := t.states.count_pos WorkerStatus.busy hk (by simp [hv, WorkerStatus.busy])
    have hlen := hI.length
    rw [BoundedQueue.pop_eq_none_iff.mp hempty, List.length_nil] at hlen
    omega

/-- After a `WAIT` of an unknown worker and a second one of a waiting worker, a task is sent to
the worker 32, which waits. -/
def unexpectedWaits : List (CallInput ℕ) :=
  [.call (eventWord 96 .wait), .input .tau, .call (eventWord 32 .wait), .input .tau,
    .input .schedule, .input .tau, .input (.removed (some 0)), .input (.sent true),
    .input (.switched (.report (eventWord 32 .wait)))]

theorem running_queue_fits_unexpectedWaits : ∃ t,
    Run (Guarded stepCall fun _ _ => True) twoWorkers unexpectedWaits t ∧
      t.control = .handleEvent (eventWord 32 .wait) 0 (.trySchedule []) ∧
      t.states.get? 32 = some .running ∧ t.running.pop ≠ none := by
  have hrun : Run (Guarded stepCall fun _ _ => True) twoWorkers unexpectedWaits _ :=
    run_trace (by decide +kernel)
  refine ⟨_, hrun, by decide +kernel, by decide +kernel, ?_⟩
  obtain ⟨-, -, hpop⟩ := running_queue_fits twoWorkers _ trivial (fun _ _ => rfl) rfl (by decide)
    unexpectedWaits hrun
  exact hpop (eventWord 32 .wait) 0 (.trySchedule []) (by decide +kernel) (by decide)
    (by decide +kernel)

end Server

end Umcg.Attempt2
