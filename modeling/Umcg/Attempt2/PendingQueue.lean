import Mathlib.Data.List.Perm.Subperm
import Umcg.Attempt2.Transitions

/-!
# The pending queue holds the waiting workers

While the kernel answers a context switch to a worker with an error or with one event of that
worker, and the routing server delivers only `WAKE` events (`Server.SingleEvents`), the pending
queue of a server lists exactly its `Waiting` workers, each once, at every return of its functions,
those of `handle_event` inside of `try_schedule_tasks` included.

In between the two differ by one worker: `try_schedule_tasks` holds a worker it has popped and
that is still `Waiting` (`Control.removeTask`). `Server.PendingInv` is the relation at every
point of control. It also says why an event of a switch finds its worker `Running`, so that the
push of an unexpected `WAIT`, which would duplicate a worker, is not reached.

## Main results

* `Server.PendingInv.move` : every step keeps the relation.
* `Server.pending_eq_waiting` : the pending queue at every return, nested ones included, and no
  failed push and no `CRITICAL` line in any state.
-/

namespace Umcg.Attempt2

namespace Caller

/-- The call of `handle_event` handles the last event of its switch buffer. -/
def Last (c : Caller) : Prop := c = runEventLoop ∨ c = trySchedule []

end Caller

namespace Server

variable {τ : Type} {s t : Server τ} {i : Input τ} {w : UInt64}

/-- The surroundings of the server: a switch to `w` is answered by an error and no event or by
exactly one event of `w`, and only `WAKE` events are routed. -/
def SingleEvents (s : Server τ) : Input τ → Prop
  | .recv e => eventType e = some .wake
  | .switched a => ∀ w ∈ s.control.target, a.Failed ∨ a.ReportsOnly w
  | _ => True

instance (s : Server τ) : (i : Input τ) → Decidable (s.SingleEvents i)
  | .recv e => inferInstanceAs (Decidable (eventType e = some .wake))
  | .switched a =>
    Option.decidableForallMem (p := fun w => a.Failed ∨ a.ReportsOnly w) s.control.target
  | .waited _ | .schedule | .tau | .removed _ | .sent _ => inferInstanceAs (Decidable True)

theorem SingleEvents.answer {a : SwitchAnswer} {site : Site} (h : s.SingleEvents (.switched a))
    (hc : s.control = .ctxSwitch w site) :
    a.reported = [] ∨ a.reported = [a.first] ∧ workerId a.first = w := by
  exact (h w (by rw [hc]; rfl)).imp And.right id

/-- What the statuses say at a point of control about the worker the thread is busy with. -/
def ControlOk (s : Server τ) : Prop :=
  match s.control with
  | .removeTask w => s.states.get? w = some .waiting
  | .sendTask w _ => s.states.get? w = some .running
  | .ctxSwitch w site => s.states.get? w = some .running ∧
      ∀ d c, site = .handleEvent d c → c.Last
  | .handleEvent e _ c =>
      (eventType e = some .wake ∨ s.states.get? (workerId e) = some .running) ∧ c.Last
  | _ => True

/-- The last event of a switch buffer returns to the loop head or to `run_event_loop`. -/
theorem resume_of_last {c : Caller} (h : c.Last) (r : Outcome) :
    (resume r c : Control τ) = .popPending ∨ ∃ r', (resume r c : Control τ) = .eventLoop r' := by
  rcases h with rfl | rfl
  · exact .inr ⟨r, rfl⟩
  · cases r with
    | ok => exact .inl rfl
    | err e => exact .inr ⟨_, rfl⟩

/-- Every step keeps what the statuses say about the worker the thread is busy with. -/
theorem ControlOk.move (hok : s.ControlOk) (hi : s.SingleEvents i) (hm : Move s i t) :
    t.ControlOk := by
  have hresume : ∀ {u : Server τ} {r : Outcome} {c : Caller}, c.Last →
      u.control = resume r c → u.ControlOk := by
    intro u r c hc hu
    rcases resume_of_last (τ := τ) hc r with hr | ⟨r', hr⟩ <;> simp [ControlOk, hu, hr]
  cases hm with
  | schedule | popEmpty | noTask | noChannel | runningFull | sendFailed => trivial
  | unmanaged hc | popUnknown hc => simp [ControlOk, hc]
  | popCritical hc => simp [ControlOk, hc]
  | recv hc hw => exact ⟨.inl hi, .inl rfl⟩
  | popWaiting hc hq hw => exact hw
  | dispatch hc hw hq =>
    simp only [ControlOk, hc] at hok
    exact s.states.get?_set_self (s.states.mem_keys_of_get? hok)
  | sentOk hc =>
    simp only [ControlOk, hc] at hok
    exact ⟨hok, by simp⟩
  | @switchedBack w a hc =>
    simp only [ControlOk, hc] at hok
    rcases hi.answer hc with ha | ⟨ha, hw⟩ <;> rw [ha]
    · trivial
    · exact ⟨.inr (hw ▸ hok.1), .inr rfl⟩
  | switchedSilent hc ha =>
    simp only [ControlOk, hc] at hok
    exact hresume (hok.2 _ _ rfl) rfl
  | @switchedNested w a d c e rest hc ha =>
    simp only [ControlOk, hc] at hok
    rcases hi.answer hc with ha' | ⟨ha', hw⟩
    · simp [ha] at ha'
    · obtain ⟨rfl, -⟩ : e = a.first ∧ rest = [] := by simpa [ha] using ha'
      exact ⟨.inr (hw ▸ hok.1), hok.2 _ _ rfl⟩
  | wake hc he hw =>
    simp only [ControlOk, hc] at hok
    refine ⟨s.states.get?_set_self (s.states.mem_keys_of_get? hw), ?_⟩
    rintro d c ⟨rfl, rfl⟩
    exact hok.2
  | block hc | wait hc | waitUnexpected hc | ignored hc | invalid hc =>
    simp only [ControlOk, hc] at hok
    exact hresume hok.2 rfl

/-- The relation between the pending queue and the statuses at every point of control. -/
structure PendingInv (s : Server τ) : Prop where
  serving : s.control.Serving
  nodup : s.pending.items.Nodup
  mem : ∀ w, w ∈ s.pending.items ↔
    s.states.get? w = some .waiting ∧ s.control ≠ .removeTask w
  room : s.states.keys.length ≤ s.pending.cap
  channels : ∀ w ∈ s.states.keys, w ∈ s.channels
  control : s.ControlOk
  log : ∀ d ∈ s.log, ∀ w, d ≠ .pendingFull w ∧ ∀ st, d ≠ .critical w st

theorem PostRegistration.pendingInv (h : PostRegistration s) : PendingInv s where
  serving := h.serving
  nodup := (h.pending.nodup_iff).mpr s.states.nodup
  mem w := by
    have hc : s.control ≠ .removeTask w := by
      intro hc
      simpa [hc, Control.AtReturn] using h.control
    rw [h.pending.mem_iff, h.get?_eq_waiting]
    simp [hc]
  room := h.pending.length_eq ▸ s.pending.length_le
  channels := h.channels
  control := by
    have := h.control
    unfold ControlOk
    split <;> simp_all [Control.AtReturn]
  log := by simp [h.log]

/-- The pending queue lacks exactly the waiting worker `w`. -/
private structure Missing (s : Server τ) (w : UInt64) : Prop where
  nodup : s.pending.items.Nodup
  mem : ∀ x, x ∈ s.pending.items ↔ s.states.get? x = some .waiting ∧ x ≠ w
  waiting : s.states.get? w = some .waiting
  room : s.states.keys.length ≤ s.pending.cap
  channels : ∀ w ∈ s.states.keys, w ∈ s.channels
  log : ∀ d ∈ s.log, ∀ w, d ≠ .pendingFull w ∧ ∀ st, d ≠ .critical w st

private theorem Missing.lt_cap (h : Missing s w) : s.pending.items.length < s.pending.cap := by
  have hcons : (w :: s.pending.items).Nodup :=
    List.nodup_cons.mpr ⟨fun hx => ((h.mem w).mp hx).2 rfl, h.nodup⟩
  have hsub : w :: s.pending.items ⊆ s.states.keys := by
    intro x hx
    rcases List.mem_cons.mp hx with rfl | hx
    · exact s.states.mem_keys_of_get? h.waiting
    · exact s.states.mem_keys_of_get? ((h.mem x).mp hx).1
  have hle := (List.subperm_of_subset hcons hsub).length_le
  have := h.room
  simp only [List.length_cons] at hle
  omega

/-- Pushing the missing worker restores the relation: there is room for it, because the pending
workers and `w` are different workers of the table. -/
private theorem Missing.pushPending (h : Missing s w) {c : Control τ}
    (hc : c = .popPending ∨ ∃ r, c = .eventLoop r) :
    PendingInv { s.pushPending w with control := c } := by
  obtain ⟨hitems, hlog⟩ := pushPending_of_lt (w := w) h.lt_cap
  have hne : ∀ x, c ≠ .removeTask x := by
    rintro x rfl
    simp at hc
  refine ⟨?_, ?_, fun x => ?_, by simpa using h.room, by simpa using h.channels, ?_, ?_⟩
  · rcases hc with rfl | ⟨r, rfl⟩ <;> trivial
  · change (s.pushPending w).pending.items.Nodup
    rw [hitems, List.nodup_append]
    refine ⟨h.nodup, List.nodup_singleton w, fun x hx y hy hxy => ?_⟩
    rw [List.mem_singleton] at hy
    exact ((h.mem x).mp hx).2 (hxy.trans hy)
  · change x ∈ (s.pushPending w).pending.items ↔ (s.pushPending w).states.get? x = _ ∧ c ≠ _
    rw [hitems, List.mem_append, List.mem_singleton, h.mem, pushPending_states]
    by_cases hx : x = w
    · simp [hx, h.waiting, hne]
    · simp [hx, hne]
  · rcases hc with rfl | ⟨r, rfl⟩ <;> trivial
  · change ∀ d ∈ (s.pushPending w).log, _
    rw [hlog]
    exact h.log

/-- At `remove_task` the queue lacks the worker that has been popped. -/
private theorem PendingInv.missing (h : PendingInv s) (hc : s.control = .removeTask w) :
    Missing s w where
  nodup := h.nodup
  mem x := by
    rw [h.mem, hc]
    simp [eq_comm]
  waiting := by simpa [ControlOk, hc] using h.control
  room := h.room
  channels := h.channels
  log := h.log

/-- A step that changes only the point of control. -/
private theorem PendingInv.jump (h : PendingInv s) (hc : ∀ w, s.control ≠ .removeTask w)
    {c : Control τ} (hs : c.Serving) (hc' : ∀ w, c ≠ .removeTask w)
    (hok : ControlOk { s with control := c }) : PendingInv { s with control := c } where
  serving := hs
  nodup := h.nodup
  mem w := by simp [h.mem w, hc w, hc' w]
  room := h.room
  channels := h.channels
  control := hok
  log := h.log

/-- A change between two statuses other than `Waiting` does not touch the relation. -/
private theorem PendingInv.setStatus (h : PendingInv s) {st st' : WorkerStatus}
    (hw : s.states.get? w = some st) (hst : st ≠ .waiting) (hst' : st' ≠ .waiting)
    (hc : ∀ w, s.control ≠ .removeTask w) {c : Control τ} (hs : c.Serving)
    (hc' : ∀ w, c ≠ .removeTask w)
    (hok : ControlOk { s.setStatus w st' with control := c }) :
    PendingInv { s.setStatus w st' with control := c } where
  serving := hs
  nodup := h.nodup
  mem x := by
    have hkey := s.states.mem_keys_of_get? hw
    change x ∈ s.pending.items ↔ (s.states.set w st').get? x = _ ∧ c ≠ _
    rw [h.mem, s.states.get?_set hkey]
    by_cases hx : x = w
    · simp [hx, hw, hst, hst']
    · simp [hx, hc x, hc' x]
  room := h.room
  channels := h.channels
  control := hok
  log := h.log

/-- A message about something else than the pending queue. -/
private theorem PendingInv.diagnose (h : PendingInv s) {d : Diagnostic}
    (hd : ∀ w, d ≠ .pendingFull w ∧ ∀ st, d ≠ .critical w st) : PendingInv (s.diagnose d) := by
  refine { h with log := fun d' hd' => ?_ }
  rcases List.mem_append.mp hd' with hd' | hd'
  · exact h.log d' hd'
  · rw [List.mem_singleton.mp hd']
    exact hd

private theorem PendingInv.jump_back (h : PendingInv s) (hc : ∀ w, s.control ≠ .removeTask w)
    {c : Control τ} (hc' : c = .popPending ∨ ∃ r, c = .eventLoop r) :
    PendingInv { s with control := c } := by
  rcases hc' with rfl | ⟨r, rfl⟩ <;> exact h.jump hc trivial (by simp) trivial

/-- Every step of the server keeps the relation between the pending queue and the statuses. -/
theorem PendingInv.move (h : PendingInv s) (hi : s.SingleEvents i) (hm : Move s i t) :
    PendingInv t := by
  have hok := h.control
  have hok' := hok.move hi hm
  cases hm with
  | schedule hc => exact h.jump_back (by simp [hc]) (.inl rfl)
  | recv hc hw =>
    exact h.jump (by simp [hc]) trivial (by simp) hok'
  | unmanaged hc hw =>
    exact h.diagnose (by simp)
  | popEmpty hc hq => exact h.jump_back (by simp [hc]) (.inr ⟨_, rfl⟩)
  | popUnknown hc hq hw =>
    -- the worker in front of the queue is `Waiting`, so it is in the table
    have := (h.mem _).mp (BoundedQueue.mem_of_pop hq)
    simp [hw] at this
  | popCritical hc hq hw hst =>
    have := (h.mem _).mp (BoundedQueue.mem_of_pop hq)
    simp [hw, hst] at this
  | popWaiting hc hq hw =>
    obtain ⟨hitems, hcap⟩ := BoundedQueue.pop_eq_some_iff.mp hq
    have hnodup := h.nodup
    rw [hitems, List.nodup_cons] at hnodup
    refine ⟨trivial, hnodup.2, fun x => ?_, ?_, h.channels, hok', h.log⟩
    · have hx := h.mem x
      simp only [hitems, hc, List.mem_cons] at hx
      simp only [ne_eq, Control.removeTask.injEq]
      constructor
      · intro hm
        exact ⟨(hx.mp (.inr hm)).1, fun he => hnodup.1 (he ▸ hm)⟩
      · rintro ⟨hwait, hne⟩
        exact (hx.mpr ⟨hwait, by simp⟩).resolve_left fun he => hne he.symm
    · exact hcap ▸ h.room
  | noTask hc => exact (h.missing hc).pushPending (.inr ⟨_, rfl⟩)
  | noChannel hc hw =>
    exact absurd (h.channels _ (s.states.mem_keys_of_get? (h.missing hc).waiting)) hw
  | @dispatch w task q hc hw hq =>
    have hm := h.missing hc
    have hkey := s.states.mem_keys_of_get? hm.waiting
    refine ⟨trivial, h.nodup, fun x => ?_, h.room, h.channels, hok', h.log⟩
    change x ∈ s.pending.items ↔ (s.states.set w .running).get? x = _ ∧ _
    rw [hm.mem, s.states.get?_set hkey]
    by_cases hx : x = w <;> simp [hx]
  | @runningFull w task hc hw hq =>
    have hm := h.missing hc
    have hkey := s.states.mem_keys_of_get? hm.waiting
    have hback : Missing (((s.setStatus w .running).diagnose (.runningFull w)).setStatus w
        .waiting) w := by
      refine ⟨hm.nodup, fun x => ?_, ?_, hm.room, hm.channels, fun d hd => ?_⟩
      · simp only [setStatus_pending, diagnose_pending, setStatus_states, diagnose_states,
          Table.set_set]
        rw [hm.mem, s.states.get?_set hkey]
        by_cases hx : x = w <;> simp [hx]
      · simp only [setStatus_states, diagnose_states, Table.set_set]
        exact s.states.get?_set_self hkey
      · rcases List.mem_append.mp hd with hd | hd
        · exact h.log d hd
        · simp [List.mem_singleton.mp hd]
    exact hback.pushPending (.inl rfl)
  | sentOk hc => exact h.jump (by simp [hc]) trivial (by simp) hok'
  | @sendFailed w task hc =>
    have hd : PendingInv (s.diagnose (.sendFailed w)) := h.diagnose (by simp)
    exact hd.jump_back (by simp [hc]) (.inl rfl)
  | @switchedBack w a hc =>
    exact h.jump (by simp [hc]) (serving_nextEvent _) (nextEvent_ne_removeTask _) hok'
  | switchedSilent hc ha =>
    simp only [ControlOk, hc] at hok
    exact h.jump_back (by simp [hc]) (resume_of_last (hok.2 _ _ rfl) _)
  | switchedNested hc ha => exact h.jump (by simp [hc]) trivial (by simp) hok'
  | block hc he hw =>
    simp only [ControlOk, hc] at hok
    exact h.setStatus hw (by simp) (by simp) (by simp [hc]) (serving_resume _ _)
      (resume_ne_removeTask _ _) hok'
  | wake hc he hw => exact h.setStatus hw (by simp) (by simp) (by simp [hc]) trivial (by simp) hok'
  | @wait e d c hc he hw =>
    simp only [ControlOk, hc] at hok
    have hkey := s.states.mem_keys_of_get? hw
    have hmiss : Missing (s.setStatus (workerId e) .waiting).popRunning (workerId e) := by
      refine ⟨h.nodup, fun x => ?_, s.states.get?_set_self hkey, h.room, h.channels, h.log⟩
      change x ∈ s.pending.items ↔ (s.states.set _ .waiting).get? x = _ ∧ _
      rw [h.mem, s.states.get?_set hkey]
      by_cases hx : x = workerId e
      · simp [hx, hw]
      · simp [hx, hc]
    exact hmiss.pushPending (resume_of_last hok.2 _)
  | waitUnexpected hc he hw hst =>
    simp only [ControlOk, hc, he, hw] at hok
    simp [hst] at hok
  | ignored hc he =>
    simp only [ControlOk, hc] at hok
    exact h.jump_back (by simp [hc]) (resume_of_last hok.2 _)
  | invalid hc he =>
    simp only [ControlOk, hc] at hok
    exact h.jump_back (by simp [hc]) (resume_of_last hok.2 _)

/-- From the state after registration the relation holds at every point of every run. -/
theorem PendingInv.run (h₀ : PostRegistration s) {l : List (Input τ)}
    (h : Run (Guarded step SingleEvents) s l t) : PendingInv t :=
  h.invariant h₀.pendingInv fun _ _ _ hI ⟨hi, hstep⟩ =>
    hI.move hi (move_of_step hI.serving hstep)

/-- At every point but the one between the pop of a worker and `remove_task`, so at every return of
`try_schedule_tasks` and of every call of `handle_event`, nested or not, the pending queue has no
duplicates and contains exactly the workers whose status is `Waiting`. In every state of the run, no
push to it has failed and the `CRITICAL` branch has not been taken. -/
theorem pending_eq_waiting (s t : Server τ) (h₀ : PostRegistration s) (l : List (Input τ))
    (h : Run (Guarded step SingleEvents) s l t) :
    ((∀ v, t.control ≠ .removeTask v) → t.pending.items.Nodup ∧
      ∀ w, w ∈ t.pending.items ↔ t.states.get? w = some .waiting) ∧
    ∀ w, Diagnostic.pendingFull w ∉ t.log ∧ ∀ st, Diagnostic.critical w st ∉ t.log := by
  have hI := PendingInv.run h₀ h
  refine ⟨fun hfree => ⟨hI.nodup, fun w => ?_⟩, fun w => ⟨fun hd => ?_, fun st hd => ?_⟩⟩
  · rw [hI.mem]
    exact and_iff_left (hfree w)
  · exact (hI.log _ hd w).1 rfl
  · exact (hI.log _ hd w).2 st rfl

/-- One worker takes a task, blocks in it, is woken and waits again. -/
def blockingRound : List (Input ℕ) :=
  [.schedule, .tau, .removed (some 0), .sent true, .switched (.report (eventWord 32 .block)),
    .tau, .tau, .removed none, .recv (eventWord 32 .wake), .tau,
    .switched (.report (eventWord 32 .wait)), .tau]

theorem pending_eq_waiting_blockingRound : ∃ t,
    Run (Guarded step SingleEvents) twoWorkers blockingRound t ∧ t.pending.items = [64, 32] ∧
      ∀ w, w ∈ t.pending.items ↔ t.states.get? w = some .waiting := by
  obtain ⟨t, hrun, hitems, hret⟩ : ∃ t, Run (Guarded step SingleEvents) twoWorkers blockingRound t ∧
      t.pending.items = [64, 32] ∧ t.control.AtReturn :=
    ⟨_, run_trace (by decide +kernel), by decide +kernel, by decide +kernel⟩
  refine ⟨t, hrun, hitems, ((pending_eq_waiting _ t twoWorkers_postRegistration _ hrun).1
    fun v hv => ?_).2⟩
  rw [hv] at hret
  exact hret

end Server

end Umcg.Attempt2
