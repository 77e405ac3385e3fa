import Umcg.Attempt2.Calls
import Umcg.Attempt2.Idle
import Umcg.Attempt2.Registration

/-!
# How a worker becomes `Waiting`, `Blocked` or the target of a switch

In the registration loop and after it the pending workers are `Waiting`, each of them once. The loop
makes a worker `Waiting` that it has switched to; later a worker becomes `Waiting` when its `WAIT`
is handled, and leaves `Blocked` only by its `WAKE`. The scheduler switches to a worker that it has
sent a task to, or that is woken.

## Main results

* `Server.QueueInv.move`, `Server.QueueInv.registerMove` : pending workers are `Waiting`.
* `Server.RegisterMove.adds` : the registration loop adds the worker it has switched to.
* `Server.Move.waiting`, `Server.Move.blocked`, `Server.Move.switching` : the steps of a worker.
-/

namespace Umcg.Attempt2

namespace Server

variable {τ : Type} {s t : Server τ} {i : Input τ} {x : UInt64}

/-! ### The pending queue, in the registration loop and after it -/

/-- The pending workers are `Waiting` and different, and so is the one that has been popped; in the
registration loop all `Waiting` workers are registered, and the server switches to another one. -/
structure QueueInv (s : Server τ) : Prop where
  waiting : ∀ w ∈ s.pending.items, s.states.get? w = some .waiting
  nodup : s.pending.items.Nodup
  popped : ∀ w, s.control = .removeTask w → s.states.get? w = some .waiting ∧ w ∉ s.pending.items
  registered : ∀ r, s.control.registered = some r → ∀ w, s.states.get? w = some .waiting → w ∈ r
  fresh : ∀ r tid, s.control = .registerSwitch r tid → shiftedId tid ∉ r

/-- A `WAIT` is handled of a worker that is `Running` only. -/
theorem ControlOk.waitExpected (h : s.ControlOk) : s.WaitExpected := by
  intro e he hwait
  cases hc : s.control <;> simp only [hc, Control.event, Option.mem_def, reduceCtorEq,
    Option.some.injEq] at he
  subst he
  simp only [ControlOk, hc, hwait, reduceCtorEq, Option.some.injEq, false_or] at h
  exact .inr h.1

theorem QueueInv.move (h : s.QueueInv) (hok : s.ControlOk) (hs : s.control.Serving)
    (hm : Move s i t) : t.QueueInv := by
  have hp : s.PendingWaiting := ⟨hs, h.waiting, h.nodup, h.popped⟩
  have ht := hp.move hok.waitExpected hm
  have hserving := ht.serving
  refine ⟨ht.waiting, ht.nodup, ht.popped, fun r hr => ?_, fun r tid hc => ?_⟩
  · cases hc : t.control <;> simp [hc, Control.registered] at hr
    · simp [hc, Control.Serving] at hserving
    · simp [hc, Control.Serving] at hserving
  · simp [hc, Control.Serving] at hserving

/-- A worker that is not among the `Waiting` ones is registered. -/
private theorem QueueInv.register (h : s.QueueInv) {w : UInt64} {r : List UInt64} {c : Control τ}
    (hw : w ∈ s.states.keys) (hr : ∀ x, s.states.get? x = some .waiting → x ∈ r) (hnew : w ∉ r)
    (hc : c = .registering (r ++ [w]) ∨ c = .eventLoop .ok) :
    QueueInv { (s.setStatus w .waiting).pushPending w with control := c } := by
  have hnot : w ∉ s.pending.items := fun hx => hnew (hr w (h.waiting w hx))
  have hwaiting : ∀ x, ((s.setStatus w .waiting).pushPending w).states.get? x = some .waiting ↔
      x = w ∨ s.states.get? x = some .waiting := by
    intro x
    rw [pushPending_states, setStatus_states, s.states.get?_set hw]
    split_ifs with hx <;> simp [hx]
  have hpending := pushPending_items (s.setStatus w .waiting) w
  refine ⟨fun x hx => (hwaiting x).mpr ?_, ?_, fun x hx => ?_, fun r' hr' x hx => ?_,
    fun r' tid hx => ?_⟩
  · have hmem : x ∈ s.pending.items ++ [w] := by
      rcases hpending with hp | hp
      · exact hp ▸ hx
      · exact List.mem_append_left [w] (hp ▸ hx)
    exact (List.mem_append.mp hmem).symm.imp List.mem_singleton.mp (h.waiting x)
  · rcases hpending with hp | hp
    · change ((s.setStatus w .waiting).pushPending w).pending.items.Nodup
      rw [hp]
      exact h.nodup.append (List.nodup_singleton w) (List.disjoint_singleton.mpr hnot)
    · exact hp ▸ h.nodup
  · rcases hc with rfl | rfl <;> cases hx
  · rcases hc with rfl | rfl <;> cases hr'
    exact ((hwaiting x).mp hx).elim (fun hxw => by simp [hxw]) fun hx =>
      List.mem_append_left [w] (hr x hx)
  · rcases hc with rfl | rfl <;> cases hx

theorem QueueInv.registerMove (h : s.QueueInv) (hm : RegisterMove s i t) : t.QueueInv := by
  cases hm with
  | waitedAgain hc => exact h
  | @waitedWake r a hc ha he hnew =>
    refine ⟨h.waiting, h.nodup, by simp, ?_, ?_⟩
    · rintro _ ⟨⟩
      exact h.registered r (by rw [hc]; rfl)
    · rintro _ _ ⟨⟩
      exact hnew
  | @skipped r tid a hc ha =>
    refine ⟨h.waiting, h.nodup, by simp, ?_, by simp⟩
    rintro _ ⟨⟩
    exact h.registered r (by rw [hc]; rfl)
  | @registered r tid a st hc ha hw =>
    have hcontrol := registerNext_control ((s.setStatus (shiftedId tid) .waiting).pushPending
      (shiftedId tid)) (r ++ [shiftedId tid])
    obtain ⟨c, hc'⟩ := registerNext_eq ((s.setStatus (shiftedId tid) .waiting).pushPending
      (shiftedId tid)) (r ++ [shiftedId tid])
    rw [hc'] at hcontrol ⊢
    exact h.register (s.states.mem_keys_of_get? hw) (h.registered r (by rw [hc]; rfl))
      (h.fresh r tid hc) hcontrol

/-- The worker has become `Waiting` or pending between `s` and `t`. -/
def Adds (s t : Server τ) (x : UInt64) : Prop :=
  t.states.get? x = some .waiting ∧ s.states.get? x ≠ some .waiting ∨
    x ∈ t.pending.items ∧ x ∉ s.pending.items

private theorem not_adds (hst : t.states = s.states) (hp : t.pending = s.pending) :
    ¬ s.Adds t x := by
  simp [Adds, hst, hp]

/-- The registration loop adds the worker that it has switched to. -/
theorem RegisterMove.adds (hm : RegisterMove s i t) (hx : s.Adds t x) :
    ∃ r tid a, s.control = .registerSwitch r tid ∧ i = .switched a ∧ a.ret = 0 ∧
      x = shiftedId tid := by
  cases hm with
  | waitedAgain | waitedWake | skipped => exact absurd hx (not_adds rfl rfl)
  | @registered r tid a st hc ha hw =>
    refine ⟨r, tid, a, hc, rfl, ha, ?_⟩
    by_contra hne
    obtain ⟨c, hc'⟩ := registerNext_eq ((s.setStatus (shiftedId tid) .waiting).pushPending
      (shiftedId tid)) (r ++ [shiftedId tid])
    rw [hc'] at hx
    rcases hx with ⟨hwait, hnot⟩ | ⟨hmem, hnot⟩
    · exact hnot (by simpa [hne] using hwait)
    · rcases pushPending_items (s.setStatus (shiftedId tid) .waiting) (shiftedId tid) with hp | hp
      · have hmem' : x ∈ s.pending.items ++ [shiftedId tid] := hp ▸ hmem
        exact hnot ((List.mem_append.mp hmem').resolve_right (by simpa using hne))
      · exact hnot (hp ▸ hmem)

/-! ### Waiting and blocked workers -/

/-- A worker becomes `Waiting` when its `WAIT` is handled. -/
theorem Move.waiting (hok : s.ControlOk) (hm : Move s i t)
    (hx : t.states.get? x = some .waiting) : s.states.get? x = some .waiting ∨
      ∃ e d c, s.control = .handleEvent e d c ∧ eventType e = some .wait ∧ workerId e = x := by
  have hset {w : UInt64} {st : WorkerStatus} (hk : w ∈ s.states.keys) (hst : st ≠ .waiting)
      (h : (s.states.set w st).get? x = some .waiting) : s.states.get? x = some .waiting := by
    rw [s.states.get?_set hk] at h
    split_ifs at h with hxw
    · simp [hst] at h
    · exact h
  cases hm
  case dispatch hc _ _ =>
    simp only [ControlOk, hc] at hok
    exact .inl (hset (s.states.mem_keys_of_get? hok) (by simp) hx)
  case runningFull w _ hc _ _ =>
    simp only [ControlOk, hc] at hok
    simp only [pushPending_states, setStatus_states, diagnose_states, Table.set_set] at hx
    rw [s.states.get?_set (s.states.mem_keys_of_get? hok)] at hx
    split_ifs at hx with hxw
    · exact .inl (hxw ▸ hok)
    · exact .inl hx
  case block hw | wake hw => exact .inl (hset (s.states.mem_keys_of_get? hw) (by simp) hx)
  case wait e d c hc he hw =>
    by_cases hxw : workerId e = x
    · exact .inr ⟨e, d, c, hc, he, hxw⟩
    · simp only [ret_states, pushPending_states, popRunning_states, setStatus_states] at hx
      rw [s.states.get?_set_of_ne (Ne.symm hxw)] at hx
      exact .inl hx
  all_goals exact .inl (by simpa using hx)

/-- The worker is `Blocked`, or the server is about to handle its `BLOCK`. -/
def Down (s : Server τ) (x : UInt64) : Prop :=
  s.states.get? x = some .blocked ∨
    ∃ e d c, s.control = .handleEvent e d c ∧ eventType e = some .block ∧ workerId e = x

/-- Only a `WAKE` of the worker makes it leave `Blocked`. -/
theorem Move.blocked (hok : s.ControlOk) (hm : Move s i t) (hx : s.Down x)
    (hwake : ∀ e d c, s.control = .handleEvent e d c → eventType e = some .wake →
      workerId e ≠ x) : t.states.get? x = some .blocked := by
  have hset {w : UInt64} {st st' : WorkerStatus} (hw : s.states.get? w = some st)
      (hst : st ≠ .blocked) (hb : s.states.get? x = some .blocked) :
      (s.states.set w st').get? x = some .blocked := by
    rw [s.states.get?_set_of_ne, hb]
    rintro rfl
    simp [hw, hst] at hb
  rcases hx with hb | ⟨e, d, c, hc, he, rfl⟩
  · cases hm
    case dispatch hc _ _ | runningFull hc _ _ =>
      simp only [ControlOk, hc] at hok
      simpa using hset hok (by simp) hb
    case block hw | wait hw => simpa using hset hw (by simp) hb
    case wake e d c hc he hw =>
      have hne := hwake e d c hc he
      simpa [hne.symm] using hb
    all_goals simpa using hb
  · simp only [ControlOk, hc, he, reduceCtorEq, Option.some.injEq, false_or] at hok
    have hkey := s.states.mem_keys_of_get? hok.1
    cases hm
    case block hc' _ _ =>
      cases hc.symm.trans hc'
      exact s.states.get?_set_self hkey
    all_goals simp_all

/-- A context switch is issued to a worker that a task has been sent to or that is woken. -/
theorem Move.switching (hok : s.ControlOk) (hm : Move s i t)
    (hx : t.control.switching = some x) : (∃ task, s.control = .sendTask x task) ∨
      ∃ e d c, s.control = .handleEvent e d c ∧ eventType e = some .wake ∧ workerId e = x := by
  cases hm
  case sentOk task hc =>
    cases hx
    exact .inl ⟨task, hc⟩
  case wake e d c hc he hw =>
    cases hx
    exact .inr ⟨e, d, c, hc, he, rfl⟩
  case switchedBack a _ => cases h : a.reported <;> simp [h, nextEvent, Control.switching] at hx
  case switchedSilent hc _ =>
    simp only [ControlOk, hc] at hok
    simp [ret, resume_switching (hok.2 _ _ rfl)] at hx
  case block hc _ _ | wait hc _ _ | waitUnexpected hc _ _ _ | ignored hc _ | invalid hc _ =>
    simp only [ControlOk, hc] at hok
    simp [ret, resume_switching hok.2] at hx
  all_goals simp_all [Control.switching]

end Server

end Umcg.Attempt2
