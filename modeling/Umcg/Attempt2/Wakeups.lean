import Umcg.Attempt2.Parked

/-!
# No wake-up is lost

A worker that has blocked is taken for blocked by its server from the moment its `BLOCK` arrives
until its `WAKE` is handled. In between either the worker is still in its system call, or its
`WAKE` is on its way, or is being handled (`Machine.WakesKept`). With what is known about the
statuses, the parked workers and the pending queue this is one invariant of the machine after
registration, `Machine.Sound`: the kernel that `Machine` describes reports one event of the worker
for each context switch, which is what the statements about the pending queue need.

## Main results

* `Machine.Registered.sound` : the invariant holds when registration is over and every worker is
  inside of `Wait`.
* `Machine.Sound.step` : every step keeps it.
-/

namespace Umcg.Attempt2

namespace Server

variable {τ : Type} {s t : Server τ} {i : Input τ} {x : UInt64}

/-- A worker that its server takes for blocked after a step was taken for blocked before it and is
not being woken, or a `BLOCK` of the worker has arrived. -/
theorem Move.down (hok : s.ControlOk) (hm : Move s i t)
    (hrecv : ∀ e, i = .recv e → eventType e ≠ some .block)
    (hrep : ∀ a, i = .switched a → ∀ e ∈ a.reported, eventType e = some .block → workerId e ≠ x)
    (hx : t.Down x) : s.Down x ∧
      ∀ e d c, s.control = .handleEvent e d c → eventType e = some .wake → workerId e ≠ x := by
  have hset {w : UInt64} {st : WorkerStatus} (hst : st ≠ .blocked)
      (h : (s.states.set w st).get? x = some .blocked) :
      s.states.get? x = some .blocked ∧ w ≠ x := by
    by_cases hk : w = x
    · subst hk
      by_cases hmem : w ∈ s.states.keys
      · rw [s.states.get?_set_self hmem] at h
        simp [hst] at h
      · simp [Table.get?, hmem] at h
    · rw [s.states.get?_set_of_ne (Ne.symm hk)] at h
      exact ⟨h, hk⟩
  rcases hx with hb | ⟨e, d, c, hc, he, hid⟩
  · cases hm
    case dispatch hc _ _ => exact ⟨.inl (hset (by simp) hb).1, by simp [hc]⟩
    case runningFull hc _ _ =>
      simp only [pushPending_states, setStatus_states, diagnose_states, Table.set_set] at hb
      exact ⟨.inl (hset (by simp) hb).1, by simp [hc]⟩
    case block e d c hc he hw =>
      by_cases hid : workerId e = x
      · refine ⟨.inr ⟨e, d, c, hc, he, hid⟩, ?_⟩
        rintro e' d' c' hc' he'
        cases hc.symm.trans hc'
        simp [he] at he'
      · rw [ret_states, setStatus_states, s.states.get?_set_of_ne (Ne.symm hid)] at hb
        refine ⟨.inl hb, ?_⟩
        rintro e' d' c' hc' he'
        cases hc.symm.trans hc'
        simp [he] at he'
    case wake e d c hc he hw =>
      obtain ⟨hb, hid⟩ := hset (by simp) hb
      refine ⟨.inl hb, ?_⟩
      rintro e' d' c' hc' -
      cases hc.symm.trans hc'
      exact hid
    case wait e d c hc he hw =>
      simp only [ret_states, pushPending_states, popRunning_states, setStatus_states] at hb
      refine ⟨.inl (hset (by simp) hb).1, ?_⟩
      rintro e' d' c' hc' he'
      cases hc.symm.trans hc'
      simp [he] at he'
    case ignored e d c hc he =>
      refine ⟨.inl hb, ?_⟩
      rintro e' d' c' hc' he' rfl
      cases hc.symm.trans hc'
      simp [he', show s.states.get? (workerId e) = some .blocked from hb] at he
    case waitUnexpected e d c _ hc he _ _ =>
      refine ⟨.inl (by simpa using hb), ?_⟩
      rintro e' d' c' hc' he'
      cases hc.symm.trans hc'
      simp [he] at he'
    case invalid e d c hc he =>
      refine ⟨.inl hb, ?_⟩
      rintro e' d' c' hc' he'
      cases hc.symm.trans hc'
      exact absurd he' he.2.1
    all_goals exact ⟨.inl (by simpa using hb), by simp_all⟩
  · rcases hm.event_of_handleEvent hok hc with rfl | ⟨a, rfl, ha⟩
    · exact absurd he (hrecv e rfl)
    · exact absurd hid (hrep a rfl e ha he)

end Server

namespace Machine

variable {τ : Type} {m m' : Machine τ} {w : UInt64}

/-- Registration is over: the workers of the server are `Waiting`, and all of them are inside of
`Wait`. -/
structure Registered (m : Machine τ) : Prop where
  server : m.server.PostRegistration
  ids : ∀ w ∈ m.server.states.keys, workerId w = w
  parked : ∀ w ∈ m.server.states.keys, m.Parked w
  atRest : ∀ w, (m.worker w).AtRest
  others : ∀ w ∉ m.server.states.keys, m.park w = .unregistered
  inbox : m.inbox = []

namespace Registered

theorem park_eq (h : m.Registered) (w : UInt64) : m.park w = .ready ∨ m.park w = .unregistered := by
  by_cases hw : w ∈ m.server.states.keys
  · exact .inl (h.parked w hw).1
  · exact .inr (h.others w hw)

theorem control_eq (h : m.Registered) : ∃ r, m.server.control = .eventLoop r := by
  have hret := h.server.control
  cases hc : m.server.control <;> simp_all [Control.AtReturn]

theorem idleInv (h : m.Registered) : m.IdleInv := by
  obtain ⟨r, hr⟩ := h.control_eq
  refine ⟨h.server.pendingInv.control, h.ids, by simp [h.inbox], fun w hw => ?_,
    fun hs => absurd h.server.serving hs, fun w => (h.atRest w).tasksOk,
    fun w _ => .inl (h.atRest w), by simp [hr], by simp [hr]⟩
  rcases h.park_eq w with hp | hp <;> simp [hp] at hw

theorem parkInv (h : m.Registered) : m.ParkInv := by
  obtain ⟨r, hr⟩ := h.control_eq
  have hpending : ∀ w, w ∈ m.server.pending.items ↔ m.server.states.get? w = some .waiting := by
    intro w
    rw [h.server.pending.mem_iff, h.server.get?_eq_waiting]
  refine ⟨⟨fun w => (hpending w).mp, h.server.pendingInv.nodup, by simp [hr],
    by simp [hr, Control.registered], by simp [hr]⟩,
    fun w hw => h.parked w (m.server.states.mem_keys_of_get? hw), by simp [hr], by simp [hr],
    by simp [hr, Control.switching], fun w hw => ?_, by simp [h.inbox], by simp [h.inbox],
    by simp [hr]⟩
  rcases h.park_eq w with hp | hp <;> simp [hp] at hw

end Registered

/-- The `WAKE` of the worker is being handled. -/
def Waking (s : Server τ) (w : UInt64) : Prop :=
  ∃ e d c, s.control = .handleEvent e d c ∧ eventType e = some .wake ∧ workerId e = w

/-- A worker that its server takes for blocked is blocked, or its `WAKE` is on its way, or is being
handled. -/
def WakesKept (m : Machine τ) : Prop := ∀ w, m.server.Down w →
  m.park w = .blocked ∨ eventWord w .wake ∈ m.inbox ∨ Waking m.server w

/-- The server, its workers and the kernel agree about the workers, the pending queue and the events
on their way. -/
structure Sound (m : Machine τ) : Prop where
  idle : m.IdleInv
  park : m.ParkInv
  pending : m.server.PendingInv
  wakes : m.WakesKept

theorem Registered.sound (h : m.Registered) : m.Sound := by
  refine ⟨h.idleInv, h.parkInv, h.server.pendingInv, fun w hw => ?_⟩
  obtain ⟨r, hr⟩ := h.control_eq
  rcases hw with hw | ⟨e, d, c, hc, -⟩
  · obtain ⟨hkey, hval⟩ := (Table.get?_eq_some_iff _).mp hw
    cases hval.symm.trans (h.server.waiting w hkey)
  · cases hr.symm.trans hc

/-- What a step of the machine is for the server: the kernel answers a context switch by a failure,
or by one event of the worker, and only a `WAKE` is routed. -/
theorem IdleInv.server_step (h : m.IdleInv) (hp : m.server.PendingInv) {x : MachineStep τ}
    (hstep : m.step x = some m') : m'.server = m.server ∨
      ∃ i, m.server.SingleEvents i ∧ m.server.step i = some m'.server := by
  cases move_of_step hstep with
  | @server i t hi ht =>
    refine .inr ⟨i, ?_, ht⟩
    cases i with
    | switched a => exact absurd rfl (hi.1 a)
    | recv e => exact absurd rfl (hi.2 e)
    | _ => trivial
  | sent _ _ ht => exact .inr ⟨.sent true, trivial, ht⟩
  | sendFailed _ ht => exact .inr ⟨.sent false, trivial, ht⟩
  | @recv e _ he ht => exact .inr ⟨.recv e, h.wakes e he, ht⟩
  | failed _ _ ht => exact .inr ⟨.switched .failure, fun _ _ => .inl (by decide), ht⟩
  | @stopped _ w ev _ _ t hw _ ht =>
    refine .inr ⟨.switched (.report (eventWord w ev)), fun v hv => .inr ?_, ht⟩
    cases hc : m.server.control <;> simp only [hc, Control.target, Option.mem_def, reduceCtorEq,
      Option.some.injEq] at hv
    subst hv
    obtain rfl : _ = w := by simpa [hc, Control.switching] using (onCpu_eq_some hw).1
    have hrun := hp.control
    simp only [Server.ControlOk, hc] at hrun
    have hid := h.ids _ (m.server.states.mem_keys_of_get? hrun.1)
    exact ⟨SwitchAnswer.report_reported (ne_zero_of_eventType (eventType_eventWord hid ev)),
      workerId_eventWord hid ev⟩
  | resumed | registered | refused | worker | waitError | unblocked => exact .inl rfl

theorem IdleInv.pendingInv_step (h : m.IdleInv) (hp : m.server.PendingInv) {x : MachineStep τ}
    (hstep : m.step x = some m') : m'.server.PendingInv := by
  rcases h.server_step hp hstep with heq | ⟨i, hi, ht⟩
  · exact heq ▸ hp
  · exact hp.move hi (Server.move_of_step hp.serving ht)

/-- A server that has left its registration loop registers no worker. -/
theorem reachesWait_of_serving (hs : m.server.control.Serving) (x : MachineStep τ) :
    m.ReachesWait x := by
  have hr : m.server.control.registered = none := by
    cases hc : m.server.control <;> simp_all [Control.registered, Control.Serving]
  cases x with
  | stop k => exact hr
  | exit => exact hr
  | _ => trivial

/-- The worker that the server has switched to is `Running`. -/
private theorem Sound.running_of_switching (h : m.Sound)
    (hsw : m.server.control.switching = some w) :
    m.server.states.get? w = some .running ∧ ∀ e d c, m.server.control ≠ .handleEvent e d c := by
  have hok := h.idle.control
  have hs := h.pending.serving
  cases hc : m.server.control <;> simp_all [Control.switching, Server.ControlOk, Control.Serving]

private theorem Sound.not_down_of_switching (h : m.Sound)
    (hsw : m.server.control.switching = some w) : ¬ m.server.Down w := by
  obtain ⟨hrun, hnot⟩ := h.running_of_switching hsw
  rintro (hb | ⟨e, d, c, hc, -⟩)
  · simp [hrun] at hb
  · exact hnot e d c hc

/-- A step of the server alone, other than the receipt of an event. -/
private theorem WakesKept.setServer (h : m.WakesKept) {i : Input τ} {t : Server τ}
    (hok : m.server.ControlOk) (hm : Server.Move m.server i t) (hrecv : ∀ e, i ≠ .recv e)
    (hrep : ∀ a, i = .switched a → a.reported = []) : (m.setServer t).WakesKept := by
  intro x hx
  obtain ⟨hdown, hnot⟩ := hm.down hok (fun e he => absurd he (hrecv e))
    (fun a ha e he => by simp [hrep a ha] at he) hx
  rcases h x hdown with hp | hp | ⟨e, d, c, hc, he, hid⟩
  · exact .inl hp
  · exact .inr (.inl hp)
  · exact absurd hid (hnot e d c hc he)

/-- The oldest event is received; its worker has a channel. -/
private theorem WakesKept.recv (h : m.Sound) {e : UInt64} (he : e ∈ m.inbox) {t : Server τ}
    (ht : m.server.step (.recv e) = some t) :
    WakesKept { m.setServer t with inbox := m.inbox.erase e } := by
  have hm := Server.move_of_step h.pending.serving ht
  have hkey : ∀ x, m.server.Down x → x ∈ m.server.states.keys := by
    rintro x (hx | ⟨e', d, c, hc, -⟩)
    · exact m.server.states.mem_keys_of_get? hx
    · simp [Server.step, hc] at ht
  intro x hx
  obtain ⟨hdown, hnot⟩ :=
    hm.down h.idle.control (by rintro _ ⟨⟩; simp [h.idle.wakes e he]) (by simp) hx
  cases hm with
  | unmanaged hc hw => exact absurd (h.pending.channels _ (hkey _ (h.park.inbox e he).2.2)) hw
  | recv hc hw =>
    by_cases hid : workerId e = x
    · exact .inr (.inr ⟨e, 0, _, rfl, h.idle.wakes e he, hid⟩)
    · rcases h.wakes x hdown with hp | hp | ⟨e', d, c, hc', he', hid'⟩
      · exact .inl hp
      · refine .inr (.inl ((List.mem_erase_of_ne ?_).mpr hp))
        rintro rfl
        exact hid (workerId_eventWord (h.idle.ids x (hkey x hdown)) _)
      · exact absurd hid' (hnot e' d c hc' he')

/-- The running worker stops. When it is blocked, its server learns so. -/
private theorem WakesKept.stopped (h : m.Sound) {x : MachineStep τ} {ev : UmcgEventType}
    {k : WorkerThread τ} {p : Park} {t : Server τ} (hw : m.onCpu = some w)
    (hx : Stops (m.worker w) x ev k p)
    (ht : m.server.step (.switched (.report (eventWord w ev))) = some t) :
    (((m.setWorker w k).setPark w p).setServer t).WakesKept := by
  have hm := Server.move_of_step h.pending.serving ht
  have hsw := (onCpu_eq_some hw).1
  have hid := h.idle.ids w (m.server.states.mem_keys_of_get? (h.running_of_switching hsw).1)
  have hreported : (SwitchAnswer.report (eventWord w ev)).reported = [eventWord w ev] :=
    SwitchAnswer.report_reported (ne_zero_of_eventType (eventType_eventWord hid ev))
  intro y hy
  by_cases hblock : y = w ∧ ev = .block
  · obtain ⟨rfl, hev⟩ := hblock
    refine .inl ((Function.update_self ..).trans ?_)
    cases hx with
    | stop kind =>
      cases kind with
      | block => rfl
      | preempt => cases hev
    | wait | exit => cases hev
  · -- the event that arrives is not a `BLOCK` of this worker
    obtain ⟨hdown, -⟩ := hm.down h.idle.control (by simp) (by
      rintro _ ⟨⟩ e he hb rfl
      rw [hreported] at he
      obtain rfl := List.mem_singleton.mp he
      rw [eventType_eventWord hid] at hb
      exact hblock ⟨workerId_eventWord hid _, Option.some.inj hb⟩) hy
    have hyw : y ≠ w := fun heq => h.not_down_of_switching hsw (heq ▸ hdown)
    rcases h.wakes y hdown with hp | hp | ⟨e, d, c, hc, -⟩
    · exact .inl ((Function.update_of_ne hyw _ _).trans hp)
    · exact .inr (.inl hp)
    · exact absurd hc ((h.running_of_switching hsw).2 e d c)

/-- The kernel's view of a worker changes that its server does not take for blocked, or that is not
blocked. -/
private theorem WakesKept.setPark (h : m.WakesKept) {p : Park}
    (hw : m.server.Down w → m.park w ≠ .blocked) : (m.setPark w p).WakesKept := by
  intro x hx
  rcases h x hx with hp | hp
  · by_cases hxw : x = w
    · subst hxw
      exact absurd hp (hw hx)
    · exact .inl ((Function.update_of_ne hxw _ _).trans hp)
  · exact .inr hp

private theorem WakesKept.unblocked (h : m.WakesKept) :
    WakesKept { m.setPark w .ready with inbox := m.inbox ++ [eventWord w .wake] } := by
  intro x hx
  by_cases hxw : x = w
  · subst hxw
    exact .inr (.inl (List.mem_append_right _ (List.mem_singleton_self _)))
  · rcases h x hx with hp | hp | hp
    · exact .inl ((Function.update_of_ne hxw _ _).trans hp)
    · exact .inr (.inl (List.mem_append_left _ hp))
    · exact .inr (.inr hp)

/-- Every step keeps the wake-ups. -/
private theorem WakesKept.step (h : m.Sound) {x : MachineStep τ} (hstep : m.step x = some m') :
    m'.WakesKept := by
  have hserver {i : Input τ} {t : Server τ} (ht : m.server.step i = some t)
      (hrecv : ∀ e, i ≠ .recv e) (hrep : ∀ a, i = .switched a → a.reported = []) :
      (m.setServer t).WakesKept :=
    h.wakes.setServer h.idle.control (Server.move_of_step h.pending.serving ht) hrecv hrep
  cases move_of_step hstep with
  | server hi ht => exact hserver ht hi.2 fun a ha => absurd ha (hi.1 a)
  | sent _ _ ht | sendFailed _ ht => exact hserver ht (by simp) (by simp)
  | recv he ht => exact .recv h he ht
  | failed _ _ ht => exact hserver ht (by simp) (by rintro _ ⟨⟩; rfl)
  | resumed hsw => exact h.wakes.setPark fun hd => absurd hd (h.not_down_of_switching hsw)
  | registered hp => exact h.wakes.setPark fun _ => by simp [hp]
  | stopped hw hx ht => exact .stopped h hw hx ht
  | unblocked => exact h.wakes.unblocked
  | refused | worker | waitError => exact h.wakes

theorem Sound.step (h : m.Sound) {x : MachineStep τ} (hstep : m.step x = some m') : m'.Sound where
  idle := h.idle.step (reachesWait_of_serving h.pending.serving x).registersInWait hstep
  park := h.park.step h.idle (reachesWait_of_serving h.pending.serving x) hstep
  pending := h.idle.pendingInv_step h.pending hstep
  wakes := .step h hstep

end Machine

end Umcg.Attempt2
