import Umcg.Attempt2.Statuses

/-!
# A worker that is registered as `Waiting` is parked in `Wait`

The registration loop switches to a new worker so that it runs until its first `Wait`, and counts it
as `Waiting` when the switch returns zero. What the switch has reported is not looked at. If the
worker blocks in another system call before that, the switch returns zero all the same: the server
takes a blocked worker for one that waits. Its next context switch to the worker fails, and the
`WAKE` of the worker finds it `Running` and is dropped.

Under `Machine.ReachesWait`, which excludes just this, `Machine.ParkInv` holds in every state of
every run, in the registration loop and after it: a worker that is `Waiting` is switchable and
inside of `Wait`, a blocked worker is `Blocked` in the table as soon as its `BLOCK` is handled, and
an event on its way to the server is the only `WAKE` of a worker that is `Blocked`.

## Main results

* `Machine.ParkInv.step` : every step keeps the agreement of the server and the kernel.
* `Machine.parked_of_waiting` : what it says about registration, switches and `WAKE`s.
-/

namespace Umcg.Attempt2

namespace Machine

variable {τ : Type} {m m' : Machine τ} {w : UInt64}

/-- The worker is inside of `Wait`, and a context switch can run it. -/
def Parked (m : Machine τ) (w : UInt64) : Prop := m.park w = .ready ∧ (m.worker w).pc = .waiting

/-- The server and the kernel agree about every worker. -/
structure ParkInv (m : Machine τ) : Prop where
  queue : m.server.QueueInv
  parked : ∀ w, m.server.states.get? w = some .waiting → m.Parked w
  sending : ∀ w task, m.server.control = .sendTask w task → m.Parked w
  waited : ∀ e d c, m.server.control = .handleEvent e d c → eventType e = some .wait →
    m.Parked (workerId e)
  switching : m.server.control.Serving → ∀ w, m.server.control.switching = some w →
    m.park w = .ready ∨ m.park w = .running
  blocked : ∀ w, m.park w = .blocked → m.server.Down w
  /-- An event on its way is the `WAKE` of a worker that is switchable again. -/
  inbox : ∀ e ∈ m.inbox, e = eventWord (workerId e) .wake ∧ m.park (workerId e) = .ready ∧
    m.server.Down (workerId e)
  once : m.inbox.Nodup
  woken : ∀ e d c, m.server.control = .handleEvent e d c → eventType e = some .wake →
    m.park (workerId e) = .ready ∧ ∀ e' ∈ m.inbox, workerId e' ≠ workerId e

theorem Initial.parkInv (h : m.Initial) (hp : m.server.pending.items = []) : m.ParkInv := by
  have hnot : ∀ w st, m.server.states.get? w = some st → st = .initializing := by
    intro w st hw
    obtain ⟨hk, hv⟩ := (Table.get?_eq_some_iff _).mp hw
    exact hv.symm.trans (h.initializing w hk)
  refine ⟨⟨by simp [hp], by simp [hp], by simp [h.control], fun r _ w hw => ?_,
    by simp [h.control]⟩, fun w hw => ?_, by simp [h.control], by simp [h.control],
    by simp [h.control, Control.Serving], by simp [h.park], by simp [h.inbox], by simp [h.inbox],
    by simp [h.control]⟩
  · cases hnot w _ hw
  · cases hnot w _ hw

/-- Outside of `handle_event` a worker that is down is `Blocked`. -/
private theorem blocked_of_down {s : Server τ} (h : s.Down w)
    (hc : ∀ e d c, s.control ≠ .handleEvent e d c) : s.states.get? w = some .blocked := by
  rcases h with h | ⟨e, d, c, h, -⟩
  · exact h
  · exact absurd h (hc e d c)

/-- The scheduler switches to a worker that is `Running`. -/
private theorem IdleInv.running_of_ctxSwitch (h : m.IdleInv) {site : Site}
    (hc : m.server.control = .ctxSwitch w site) : m.server.states.get? w = some .running := by
  have hok := h.control
  simp only [Server.ControlOk, hc] at hok
  exact hok.1

/-- In the registration loop no worker is down. -/
private theorem IdleInv.not_down (h : m.IdleInv) (hs : ¬ m.server.control.Serving) (x : UInt64) :
    ¬ m.server.Down x := by
  intro hx
  have hb := blocked_of_down hx fun e d c hc => hs (by rw [hc]; trivial)
  exact h.registering hs x (.inr hb)

/-- A step of the serving server outside of a context switch and not the receipt of an event. -/
private theorem ParkInv.setServer (h : m.ParkInv) (hidle : m.IdleInv)
    (hs : m.server.control.Serving) {i : Input τ} {t : Server τ} (hm : Server.Move m.server i t)
    (hi : ∀ a, i ≠ .switched a) (hr : ∀ e, i ≠ .recv e) : (m.setServer t).ParkInv := by
  have hevent : ∀ {e d c}, t.control ≠ .handleEvent e d c := by
    intro e d c hc
    rcases hm.event_of_handleEvent hidle.control hc with rfl | ⟨a, rfl, -⟩
    · exact hr e rfl
    · exact hi a rfl
  refine ⟨h.queue.move hidle.control hs hm, fun w hw => ?_, fun w task hc => ?_,
    fun e d c hc => absurd hc hevent, fun _ w hw => .inl ?_, fun w hw => ?_, fun e he => ?_, h.once,
    fun e d c hc => absurd hc hevent⟩
  · rcases hm.waiting hidle.control hw with hw | ⟨e, d, c, hc, he, rfl⟩
    · exact h.parked w hw
    · exact h.waited e d c hc he
  · exact h.parked w (hm.waiting_of_sendTask hidle.control hc)
  · rcases hm.switching hidle.control hw with ⟨task, hc⟩ | ⟨e, d, c, hc, he, rfl⟩
    · exact (h.sending w task hc).1
    · exact (h.woken e d c hc he).1
  · refine .inl (hm.blocked hidle.control (h.blocked w hw) fun e d c hc he heq => ?_)
    have hready := (h.woken e d c hc he).1
    rw [heq] at hready
    cases hready.symm.trans hw
  · obtain ⟨hword, hready, hdown⟩ := h.inbox e he
    exact ⟨hword, hready, .inl (hm.blocked hidle.control hdown fun e' d c hc he' heq =>
      (h.woken e' d c hc he').2 e he heq.symm)⟩

/-- The server does not rely on the worker being parked. -/
structure Unused (m : Machine τ) (w : UInt64) : Prop where
  status : m.server.states.get? w ≠ some .waiting
  sending : ∀ task, m.server.control ≠ .sendTask w task
  waited : ∀ e d c, m.server.control = .handleEvent e d c → eventType e = some .wait →
    workerId e ≠ w

private theorem ParkInv.unused (h : m.ParkInv) (hw : ¬ m.Parked w) : m.Unused w where
  status hst := hw (h.parked w hst)
  sending task hc := hw (h.sending w task hc)
  waited e d c hc he heq := hw (heq ▸ h.waited e d c hc he)

/-- Whatever the server relies on is kept when only an unused worker changes. -/
private theorem ParkInv.keeps (h : m.ParkInv) (hw : m.Unused w) {P : UInt64 → Prop}
    (hP : ∀ x, x ≠ w → m.Parked x → P x) :
    (∀ x, m.server.states.get? x = some .waiting → P x) ∧
      (∀ x task, m.server.control = .sendTask x task → P x) ∧
      ∀ e d c, m.server.control = .handleEvent e d c → eventType e = some .wait →
        P (workerId e) := by
  refine ⟨fun x hx => hP x ?_ (h.parked x hx), fun x task hc => hP x ?_ (h.sending x task hc),
    fun e d c hc he => hP _ (hw.waited e d c hc he) (h.waited e d c hc he)⟩
  · rintro rfl
    exact hw.status hx
  · rintro rfl
    exact hw.sending task hc

/-- A step of the thread of an unused worker. -/
private theorem ParkInv.setWorker (h : m.ParkInv) (hw : m.Unused w) (k : WorkerThread τ) :
    (m.setWorker w k).ParkInv := by
  obtain ⟨hparked, hsending, hwaited⟩ := h.keeps hw (P := (m.setWorker w k).Parked)
    fun x hx hp => ⟨hp.1, by simpa [Machine.setWorker, hx] using hp.2⟩
  exact { h with parked := hparked, sending := hsending, waited := hwaited }

/-- A message is sent to a worker. -/
private theorem ParkInv.setTasks (h : m.ParkInv) {k : WorkerThread τ}
    (hk : k.pc = (m.worker w).pc) : (m.setWorker w k).ParkInv := by
  have hparked : ∀ x, m.Parked x → (m.setWorker w k).Parked x := by
    intro x hx
    refine ⟨hx.1, ?_⟩
    by_cases hxw : x = w
    · subst hxw
      simpa [Machine.setWorker] using hk.trans hx.2
    · simpa [Machine.setWorker, hxw] using hx.2
  exact { h with
    parked := fun x hx => hparked x (h.parked x hx)
    sending := fun x task hc => hparked x (h.sending x task hc)
    waited := fun e d c hc he => hparked _ (h.waited e d c hc he) }

/-- The kernel's view of an unused worker changes that has no event on its way. -/
private theorem ParkInv.setPark (h : m.ParkInv) (hw : m.Unused w) {p : Park}
    (hp : p = .ready ∨ p = .running) (hinbox : ∀ e ∈ m.inbox, workerId e ≠ w)
    (hwoken : ∀ e d c, m.server.control = .handleEvent e d c → eventType e = some .wake →
      workerId e ≠ w) : (m.setPark w p).ParkInv := by
  have hne {x : UInt64} (hx : x ≠ w) : (m.setPark w p).park x = m.park x := by
    simp [Machine.setPark, hx]
  obtain ⟨hparked, hsending, hwaited⟩ := h.keeps hw (P := (m.setPark w p).Parked)
    fun x hx hpark => ⟨(hne hx).trans hpark.1, hpark.2⟩
  refine ⟨h.queue, hparked, hsending, hwaited, fun hs x hx => ?_, fun x hx => ?_, fun e he => ?_,
    h.once, fun e d c hc he => ?_⟩
  · by_cases hxw : x = w
    · subst hxw
      simpa [Machine.setPark] using hp
    · rw [hne hxw]
      exact h.switching hs x hx
  · by_cases hxw : x = w
    · subst hxw
      rcases hp with rfl | rfl <;> simp [Machine.setPark] at hx
    · exact h.blocked x (by rwa [hne hxw] at hx)
  · obtain ⟨hword, hready, hdown⟩ := h.inbox e he
    exact ⟨hword, (hne (hinbox e he)).trans hready, hdown⟩
  · obtain ⟨hready, hothers⟩ := h.woken e d c hc he
    exact ⟨(hne (hwoken e d c hc he)).trans hready, hothers⟩

/-- A worker that the kernel holds in another way than as switchable has no event on its way. -/
private theorem ParkInv.setPark_of_ne_ready (h : m.ParkInv) (hw : m.park w ≠ .ready) {p : Park}
    (hp : p = .ready ∨ p = .running) : (m.setPark w p).ParkInv := by
  refine h.setPark (h.unused fun hpark => hw hpark.1) hp (fun e he heq => hw ?_)
    fun e d c hc he heq => hw ?_
  · exact heq ▸ (h.inbox e he).2.1
  · exact heq ▸ (h.woken e d c hc he).1

/-! ### The end of a context switch -/

/-- The event of a context switch is handled next. -/
private theorem control_of_report {s t : Server τ} {site : Site} {e : UInt64}
    (hc : s.control = .ctxSwitch w site) (he : e ≠ 0)
    (ht : s.step (.switched (.report e)) = some t) : ∃ d c, t.control = .handleEvent e d c := by
  simp only [Server.step, hc, Option.some.injEq] at ht
  subst ht
  cases site with
  | trySchedule => exact ⟨0, .trySchedule [], by
      simp [Server.switched, SwitchAnswer.report_reported he, Server.nextEvent]⟩
  | handleEvent d c => exact ⟨d + 1, c, by
      simp [Server.switched, SwitchAnswer.report_reported he]⟩

/-- A context switch of the scheduler to `w` returns; `k` and `p` are what it left of the worker. -/
private theorem ParkInv.endCtxSwitch (h : m.ParkInv) (hidle : m.IdleInv) {site : Site}
    (hc : m.server.control = .ctxSwitch w site) {k : WorkerThread τ} {p : Park} {a : SwitchAnswer}
    {t : Server τ} (ht : m.server.step (.switched a) = some t)
    (hev : ∀ e ∈ a.reported, ∃ ev, e = eventWord w ev ∧ ev ≠ .wake ∧
      (ev = .wait → p = .ready ∧ k.pc = .waiting))
    (hblock : p = .blocked → a = .report (eventWord w .block)) :
    ParkInv ⟨t, Function.update m.worker w k, Function.update m.park w p, m.inbox⟩ := by
  have hs : m.server.control.Serving := by simp [hc, Control.Serving]
  have hm := Server.move_of_step hs ht
  have hrunning := hidle.running_of_ctxSwitch hc
  have hid := hidle.ids w (m.server.states.mem_keys_of_get? hrunning)
  obtain ⟨hnone, hstates⟩ := hm.not_switching hidle.control
  have hdown : ∀ x, m.server.Down x → x ≠ w ∧ t.Down x := by
    intro x hx
    have hb := blocked_of_down hx (by simp [hc])
    refine ⟨?_, .inl (hstates ▸ hb)⟩
    rintro rfl
    simp [hrunning] at hb
  have hparked : ∀ x, m.server.states.get? x = some .waiting →
      Parked ⟨t, Function.update m.worker w k, Function.update m.park w p, m.inbox⟩ x := by
    intro x hx
    have hxw : x ≠ w := by
      rintro rfl
      simp [hrunning] at hx
    simpa [Parked, hxw] using h.parked x hx
  -- the event that is handled next has been reported by the switch
  have hevent : ∀ e d c, t.control = .handleEvent e d c → ∃ ev, e = eventWord w ev ∧ ev ≠ .wake ∧
      (ev = .wait → p = .ready ∧ k.pc = .waiting) := by
    intro e d c hc'
    rcases hm.event_of_handleEvent hidle.control hc' with he | ⟨a', ha', hmem⟩
    · cases he
    · cases ha'
      exact hev e hmem
  refine ⟨h.queue.move hidle.control hs hm, fun x hx => hparked x (hstates ▸ hx),
    fun x task hc' => hparked x (hm.waiting_of_sendTask hidle.control hc'),
    fun e d c hc' he => ?_, fun _ x hx => absurd hx (by simp [hnone]), fun x hx => ?_,
    fun e he => ?_, h.once, fun e d c hc' he => ?_⟩
  · obtain ⟨ev, rfl, -, hwait⟩ := hevent e d c hc'
    rw [eventType_eventWord hid, Option.some.injEq] at he
    simpa [Parked, workerId_eventWord hid] using hwait he
  · by_cases hxw : x = w
    · subst hxw
      obtain rfl := hblock (by simpa using hx)
      have hne := ne_zero_of_eventType (eventType_eventWord hid .block)
      obtain ⟨d, c, hc'⟩ := control_of_report hc hne ht
      exact .inr ⟨_, d, c, hc', eventType_eventWord hid _, workerId_eventWord hid _⟩
    · exact (hdown x (h.blocked x (by simpa [hxw] using hx))).2
  · obtain ⟨hword, hready, hd⟩ := h.inbox e he
    obtain ⟨hew, hd'⟩ := hdown _ hd
    exact ⟨hword, by simpa [hew] using hready, hd'⟩
  · obtain ⟨ev, rfl, hne, -⟩ := hevent e d c hc'
    rw [eventType_eventWord hid, Option.some.injEq] at he
    exact absurd he hne

/-- A context switch of the registration loop to `w` returns. -/
private theorem ParkInv.endRegisterSwitch (h : m.ParkInv) (hidle : m.IdleInv)
    (hs : ¬ m.server.control.Serving) {k : WorkerThread τ} {p : Park} {a : SwitchAnswer}
    {t : Server τ} (hm : Server.RegisterMove m.server (.switched a) t) (hp : p ≠ .blocked)
    (hother : ∀ x, x ≠ w → t.states.get? x = some .waiting →
      m.server.states.get? x = some .waiting)
    (hself : t.states.get? w = some .waiting → p = .ready ∧ k.pc = .waiting) :
    ParkInv ⟨t, Function.update m.worker w k, Function.update m.park w p, m.inbox⟩ := by
  have hnot := hidle.not_down hs
  have hcontrol : (∃ r, t.control = .registering r) ∨ t.control = .eventLoop .ok := by
    cases hm with
    | skipped => exact .inl ⟨_, rfl⟩
    | registered => exact (Server.registerNext_control _ _).imp_left fun hc => ⟨_, hc⟩
  have hcontrol' : (∀ x task, t.control ≠ .sendTask x task) ∧
      (∀ e d c, t.control ≠ .handleEvent e d c) ∧ t.control.switching = none := by
    rcases hcontrol with ⟨r, hc⟩ | hc <;> simp [hc, Control.switching]
  refine ⟨h.queue.registerMove hm, fun x hx => ?_, fun x task hc => absurd hc (hcontrol'.1 x task),
    fun e d c hc => absurd hc (hcontrol'.2.1 e d c), fun _ x hx => ?_, fun x hx => ?_,
    fun e he => absurd (h.inbox e he).2.2 (hnot _), h.once,
    fun e d c hc => absurd hc (hcontrol'.2.1 e d c)⟩
  · by_cases hxw : x = w
    · subst hxw
      simpa [Parked] using hself hx
    · simpa [Parked, hxw] using h.parked x (hother x hxw hx)
  · cases hcontrol'.2.2.symm.trans hx
  · by_cases hxw : x = w
    · subst hxw
      simp [hp] at hx
    · exact absurd (h.blocked x (by simpa [hxw] using hx)) (hnot x)

/-! ### The steps -/

/-- A new worker runs until its first `Wait`: the context switch of the registration loop is not
ended by another event. -/
def ReachesWait (m : Machine τ) : MachineStep τ → Prop
  | .stop _ | .exit => m.server.control.registered = none
  | _ => True

instance (m : Machine τ) : (x : MachineStep τ) → Decidable (m.ReachesWait x)
  | .stop _ | .exit => inferInstanceAs (Decidable (_ = none))
  | .server _ | .send | .recv _ | .fail | .resume | .register _ | .refuse _ | .worker _ _ | .wait
  | .waitError | .unblock _ => .isTrue trivial

theorem ReachesWait.registersInWait {x : MachineStep τ} (h : m.ReachesWait x) :
    m.RegistersInWait x := by
  cases x with
  | stop k =>
    intro r tid hc
    simp [ReachesWait, hc, Control.registered] at h
  | _ => trivial

/-- Outside of the registration loop the running worker is the target of the scheduler's switch. -/
private theorem ctxSwitch_of_onCpu (hw : m.onCpu = some w)
    (hr : m.server.control.registered = none) : ∃ site, m.server.control = .ctxSwitch w site := by
  have hsw := (onCpu_eq_some hw).1
  cases hc : m.server.control <;> simp only [hc, Control.switching, reduceCtorEq,
    Option.some.injEq] at hsw
  · simp [hc, Control.registered] at hr
  · subst hsw
    exact ⟨_, rfl⟩

/-- What the context switch of a worker that stops reports. -/
private theorem Stops.event {k k' : WorkerThread τ} {x : MachineStep τ} {ev : UmcgEventType}
    {p : Park} (hx : Stops k x ev k' p) : ev ≠ .wake ∧
      (ev = .wait → p = .ready ∧ k'.pc = .waiting) ∧ (p = .blocked → ev = .block) := by
  cases hx with
  | stop kind => cases kind <;> simp [StopKind.event, StopKind.park]
  | wait hk =>
    cases WorkerThread.move_of_step hk with
    | wait => simp
    | called hx => exact hx.elim
  | exit hk => simp

/-- The context switch ends because the running worker stopped. -/
private theorem ParkInv.stopped (h : m.ParkInv) (hidle : m.IdleInv) {x : MachineStep τ}
    {ev : UmcgEventType} {k : WorkerThread τ} {p : Park} {t : Server τ} (hok : m.ReachesWait x)
    (hw : m.onCpu = some w) (hx : Stops (m.worker w) x ev k p)
    (ht : m.server.step (.switched (.report (eventWord w ev))) = some t) :
    (((m.setWorker w k).setPark w p).setServer t).ParkInv := by
  obtain ⟨hwake, hwait, hblock⟩ := hx.event
  cases hr : m.server.control.registered with
  | none =>
    obtain ⟨site, hc⟩ := ctxSwitch_of_onCpu hw hr
    have hkey := m.server.states.mem_keys_of_get? (hidle.running_of_ctxSwitch hc)
    have hne := ne_zero_of_eventType (eventType_eventWord (hidle.ids w hkey) ev)
    refine h.endCtxSwitch hidle hc ht (fun e he => ⟨ev, ?_, hwake, hwait⟩)
      fun hp => by rw [hblock hp]
    rw [SwitchAnswer.report_reported hne] at he
    exact List.mem_singleton.mp he
  | some r =>
    have hs : ¬ m.server.control.Serving := by
      cases hc : m.server.control <;> simp_all [Control.registered, Control.Serving]
    have hm := Server.registerMove_of_step hs ht
    cases hx with
    | stop | exit => cases hok.symm.trans hr
    | wait hk =>
      refine h.endRegisterSwitch hidle hs hm (by simp) (fun x hx hwaiting => ?_)
        fun _ => hwait rfl
      have hsw := (onCpu_eq_some hw).1
      cases hm with
      | skipped => exact hwaiting
      | @registered r tid a st hc ha hst =>
        have htid : x ≠ shiftedId tid := by
          simp only [hc, Control.switching, Option.some.injEq] at hsw
          exact hsw ▸ hx
        simpa [htid] using hwaiting

/-- The `Wait` of the registration loop returns. -/
private theorem ParkInv.registerWaited (h : m.ParkInv) (hidle : m.IdleInv) {a : SwitchAnswer}
    {t : Server τ} (hm : Server.RegisterMove m.server (.waited a) t) :
    (m.setServer t).ParkInv := by
  have hqueue := h.queue.registerMove hm
  cases hm with
  | waitedAgain hc => exact h
  | waitedWake hc ha he hnew =>
    have hnot := hidle.not_down (by simp [hc, Control.Serving])
    exact ⟨hqueue, h.parked, by simp [Machine.setServer], by simp [Machine.setServer],
      by simp [Machine.setServer, Control.Serving],
      fun w hw => absurd (h.blocked w hw) (hnot w), fun e he => absurd (h.inbox e he).2.2 (hnot _),
      h.once, by simp [Machine.setServer]⟩

/-- The server goes on, or `Wait` or `remove_task` returns. -/
private theorem ParkInv.server (h : m.ParkInv) (hidle : m.IdleInv) {x : Input τ} {t : Server τ}
    (hx : ∀ a, x ≠ .switched a) (hr : ∀ e, x ≠ .recv e) (ht : m.server.step x = some t) :
    (m.setServer t).ParkInv := by
  by_cases hs : m.server.control.Serving
  · exact h.setServer hidle hs (Server.move_of_step hs ht) hx hr
  · have hm := Server.registerMove_of_step hs ht
    cases x with
    | waited a => exact h.registerWaited hidle hm
    | switched a => exact absurd rfl (hx a)
    | _ => cases hm

private theorem ParkInv.sent (h : m.ParkInv) (hidle : m.IdleInv) {task : τ} {k : WorkerThread τ}
    {t : Server τ} (hk : (m.worker w).send (.function task) = some k)
    (ht : m.server.step (.sent true) = some t) : ((m.setWorker w k).setServer t).ParkInv := by
  have hpc : k.pc = (m.worker w).pc := by
    simp only [WorkerThread.send] at hk
    split at hk <;> cases hk
    rfl
  exact (h.server hidle (by simp) (by simp) ht).setTasks hpc

private theorem ParkInv.recv (h : m.ParkInv) (hidle : m.IdleInv) {e : UInt64} (he : e ∈ m.inbox)
    {t : Server τ} (ht : m.server.step (.recv e) = some t) :
    ParkInv { m.setServer t with inbox := m.inbox.erase e } := by
  have hc : ∃ r, m.server.control = .eventLoop r := by
    cases hc : m.server.control <;> simp [Server.step, hc] at ht
    exact ⟨_, rfl⟩
  obtain ⟨r, hc⟩ := hc
  have hs : m.server.control.Serving := by simp [hc, Control.Serving]
  have hm := Server.move_of_step hs ht
  have hqueue := h.queue.move hidle.control hs hm
  obtain ⟨hword, hready, -⟩ := h.inbox e he
  -- every worker that is down is `Blocked` in the table, which does not change
  have hstates : t.states = m.server.states := by cases hm <;> rfl
  have hdown : ∀ x, m.server.Down x → t.Down x := fun x hx =>
    .inl (hstates ▸ blocked_of_down hx (by simp [hc]))
  have hcontrol : t.control = .handleEvent e 0 .runEventLoop ∨ t.control = .eventLoop r := by
    cases hm with
    | recv => exact .inl rfl
    | unmanaged => exact .inr hc
  have hevent : ∀ e' d c, t.control = .handleEvent e' d c → e' = e := by
    intro e' d c hc'
    rcases hcontrol with hct | hct <;> cases hct.symm.trans hc'
    rfl
  refine ⟨hqueue, fun x hx => h.parked x (hstates ▸ hx), fun x task hc' => ?_,
    fun e' d c hc' hwait => ?_, fun _ x hx => ?_, fun x hx => hdown x (h.blocked x hx),
    fun e' he' => ?_, h.once.erase e, fun e' d c hc' _ => ?_⟩
  · rcases hcontrol with hct | hct <;> cases hct.symm.trans hc'
  · rw [hevent e' d c hc', hidle.wakes e he] at hwait
    cases hwait
  · rcases hcontrol with hct | hct <;> simp [Machine.setServer, hct, Control.switching] at hx
  · obtain ⟨hword', hready', hd⟩ := h.inbox e' (List.mem_of_mem_erase he')
    exact ⟨hword', hready', hdown _ hd⟩
  · rw [hevent e' d c hc']
    refine ⟨hready, fun e'' he'' heq => h.once.not_mem_erase (a := e) ?_⟩
    have hsame : e'' = e := by
      rw [(h.inbox e'' (List.mem_of_mem_erase he'')).1, heq]
      exact hword.symm
    exact hsame ▸ he''

private theorem ParkInv.failed (h : m.ParkInv) (hidle : m.IdleInv) {t : Server τ}
    (hsw : m.server.control.switching = some w)
    (ht : m.server.step (.switched .failure) = some t) : (m.setServer t).ParkInv := by
  have hend : ParkInv ⟨t, Function.update m.worker w (m.worker w),
      Function.update m.park w (m.park w), m.inbox⟩ := by
    cases hc : m.server.control <;> simp only [hc, Control.switching, reduceCtorEq,
      Option.some.injEq] at hsw
    case ctxSwitch w' site =>
      subst hsw
      refine h.endCtxSwitch hidle hc ht (by simp [SwitchAnswer.failure, SwitchAnswer.reported])
        fun hb => ?_
      have hdown := blocked_of_down (h.blocked w' hb) (by simp [hc])
      simp [hidle.running_of_ctxSwitch hc] at hdown
    case registerSwitch r tid =>
      have hs : ¬ m.server.control.Serving := by simp [hc, Control.Serving]
      have hm := Server.registerMove_of_step hs ht
      have hstates : t.states = m.server.states := by
        cases hm with
        | skipped => rfl
        | registered _ ha => cases ha
      exact h.endRegisterSwitch hidle hs hm (fun hb => hidle.not_down hs w (h.blocked w hb))
        (fun x _ hx => hstates ▸ hx) fun hw => h.parked w (hstates ▸ hw)
  simp only [Function.update_eq_self] at hend
  exact hend

private theorem ParkInv.resumed (h : m.ParkInv) (hidle : m.IdleInv)
    (hsw : m.server.control.switching = some w) : (m.setPark w .running).ParkInv := by
  -- the worker is neither `Waiting` nor `Blocked`
  have hstatus : m.server.states.get? w ≠ some .waiting ∧
      m.server.states.get? w ≠ some .blocked := by
    cases hc : m.server.control <;> simp only [hc, Control.switching, reduceCtorEq,
      Option.some.injEq] at hsw
    case ctxSwitch w' site =>
      subst hsw
      simp [hidle.running_of_ctxSwitch hc]
    case registerSwitch r tid =>
      subst hsw
      refine ⟨fun hw => h.queue.fresh r tid hc ?_, fun hw => ?_⟩
      · exact h.queue.registered r (by rw [hc]; rfl) _ hw
      · exact hidle.registering (by simp [hc, Control.Serving]) _ (.inr hw)
  have hcontrol : (∀ x task, m.server.control ≠ .sendTask x task) ∧
      ∀ e d c, m.server.control ≠ .handleEvent e d c := by
    cases hc : m.server.control <;> simp [hc, Control.switching] at hsw ⊢
  refine h.setPark ⟨hstatus.1, hcontrol.1 w, fun e d c hc => absurd hc (hcontrol.2 e d c)⟩
    (.inr rfl) (fun e he heq => hstatus.2 ?_) fun e d c hc => absurd hc (hcontrol.2 e d c)
  exact blocked_of_down (heq ▸ (h.inbox e he).2.2) hcontrol.2

/-- The thread of a worker that is not running leaves `Wait` by none of its own steps. -/
private theorem ParkInv.workerStep (h : m.ParkInv) {x : WorkerInput} {k : WorkerThread τ}
    (hx : m.park w = .running ∨ x = .done) (hk : (m.worker w).step .attempt2 x = some k) :
    (m.setWorker w k).ParkInv := by
  refine h.setWorker (h.unused fun hp => ?_) k
  rcases hx with hx | rfl
  · cases hp.1.symm.trans hx
  · cases WorkerThread.move_of_step hk with
    | called hx => exact hx.elim
    | done hpc => rcases hpc with hpc | hpc <;> cases hp.2.symm.trans hpc

private theorem ParkInv.unblocked (h : m.ParkInv) (hidle : m.IdleInv)
    (hw : w ∈ m.server.states.keys) (hp : m.park w = .blocked) :
    ParkInv { m.setPark w .ready with inbox := m.inbox ++ [eventWord w .wake] } := by
  have hid := hidle.ids w hw
  have hnew : ∀ e ∈ m.inbox, workerId e ≠ w := by
    rintro e he rfl
    cases (h.inbox e he).2.1.symm.trans hp
  have hready := h.setPark_of_ne_ready (w := w) (p := .ready) (by simp [hp]) (.inl rfl)
  have hone : workerId (eventWord w .wake) = w := workerId_eventWord hid _
  refine { hready with inbox := fun e he => ?_, once := ?_, woken := fun e d c hc he => ?_ }
  · rcases List.mem_append.mp he with he | he
    · exact hready.inbox e he
    · rw [List.mem_singleton.mp he, hone]
      exact ⟨rfl, by simp [Machine.setPark], h.blocked w hp⟩
  · refine h.once.append (List.nodup_singleton _) ?_
    rw [List.disjoint_singleton]
    exact fun he => hnew _ he hone
  · obtain ⟨hr, hothers⟩ := h.woken e d c hc he
    refine ⟨(hready.woken e d c hc he).1, fun e' he' => ?_⟩
    rcases List.mem_append.mp he' with he' | he'
    · exact hothers e' he'
    · rw [List.mem_singleton.mp he', hone]
      rintro rfl
      cases hr.symm.trans hp

/-- Every step keeps the agreement of the server and the kernel. -/
theorem ParkInv.step (h : m.ParkInv) (hidle : m.IdleInv) {x : MachineStep τ}
    (hok : m.ReachesWait x) (hstep : m.step x = some m') : m'.ParkInv := by
  cases move_of_step hstep with
  | server hi ht => exact h.server hidle hi.1 hi.2 ht
  | sent hc hk ht => exact h.sent hidle hk ht
  | sendFailed hc ht => exact h.server hidle (by simp) (by simp) ht
  | recv he ht => exact h.recv hidle he ht
  | failed hsw hp ht => exact h.failed hidle hsw ht
  | resumed hsw hp => exact h.resumed hidle hsw
  | registered hp => exact h.setPark_of_ne_ready (by simp [hp]) (.inl rfl)
  | refused hp => exact h.setWorker (h.unused fun hpark => by cases hpark.1.symm.trans hp) _
  | worker hx hk => exact h.workerStep hx hk
  | waitError hw =>
    exact h.setWorker (h.unused fun hpark => by cases hpark.1.symm.trans (onCpu_eq_some hw).2) _
  | stopped hw hx ht => exact h.stopped hidle hok hw hx ht
  | unblocked hw hp => exact h.unblocked hidle hw hp

/-- In the registration loop a worker is added by its own `Wait`. -/
theorem ReachesWait.adds {x : MachineStep τ} (hok : m.ReachesWait x)
    (hs : ¬ m.server.control.Serving) (hstep : m.step x = some m')
    (hw : m.server.Adds m'.server w) : x = .wait ∧ m.onCpu = some w := by
  have hsame : ¬ m.server.Adds m.server w := by simp [Server.Adds]
  have hr : m.server.control.registered ≠ none := by
    cases hc : m.server.control <;> simp [hc, Control.registered, Control.Serving] at hs ⊢
  have hserver {i : Input τ} {t : Server τ} (ht : m.server.step i = some t)
      (hadd : m.server.Adds t w) := (Server.registerMove_of_step hs ht).adds hadd
  cases move_of_step hstep with
  | server hi ht =>
    obtain ⟨r, tid, a, -, rfl, -⟩ := hserver ht hw
    exact absurd rfl (hi.1 a)
  | sent hc | sendFailed hc => simp [hc, Control.Serving] at hs
  | recv he ht =>
    obtain ⟨r, tid, a, -, hi, -⟩ := hserver ht hw
    cases hi
  | failed hsw hp ht =>
    obtain ⟨r, tid, a, -, hi, ha, -⟩ := hserver ht hw
    cases hi
    cases ha
  | stopped hv hx ht =>
    obtain ⟨r, tid, a, hc, -, -, rfl⟩ := hserver ht hw
    cases hx with
    | stop | exit => exact absurd hok hr
    | wait =>
      have hsw := (onCpu_eq_some hv).1
      rw [hc] at hsw
      exact ⟨rfl, hv.trans hsw.symm⟩
  | resumed | registered | refused | worker | waitError | unblocked => exact absurd hw hsame

/-- A received event is the `WAKE` of a worker that is `Blocked`. -/
theorem ParkInv.blocked_of_recv (h : m.ParkInv) (hidle : m.IdleInv) {e : UInt64}
    (hstep : m.step (.recv e) = some m') :
    eventType e = some .wake ∧ m.server.states.get? (workerId e) = some .blocked := by
  simp only [Machine.step] at hstep
  split_ifs at hstep with he
  obtain ⟨t, ht, rfl⟩ := Option.map_eq_some_iff.mp hstep
  refine ⟨hidle.wakes e he, blocked_of_down (h.inbox e he).2.2 fun e' d c hc => ?_⟩
  simp [Server.step, hc] at ht

/-- When every new worker runs until its first `Wait`, then in every run

* in the registration loop a worker becomes `Waiting` and pending only by its own `Wait`;
* a worker that is `Waiting` or pending is inside of `Wait`, and a context switch can run it;
* the scheduler's context switch is to a worker that is switchable or that it has resumed;
* every event that is received is the `WAKE` of a worker that is `Blocked`. -/
theorem parked_of_waiting (m m' : Machine τ) (h₀ : m.Initial)
    (hpending : m.server.pending.items = []) (l : List (MachineStep τ))
    (hrun : Run (Guarded Machine.step Machine.ReachesWait) m l m') :
    (∀ x m'' w, Guarded Machine.step Machine.ReachesWait m' x m'' →
      ¬ m'.server.control.Serving → m'.server.Adds m''.server w →
      x = .wait ∧ m'.onCpu = some w) ∧
    (∀ w, m'.server.states.get? w = some .waiting ∨ w ∈ m'.server.pending.items →
      m'.Parked w) ∧
    (∀ w site, m'.server.control = .ctxSwitch w site →
      m'.park w = .ready ∨ m'.park w = .running) ∧
    ∀ e m'', m'.step (.recv e) = some m'' →
      eventType e = some .wake ∧ m'.server.states.get? (workerId e) = some .blocked := by
  obtain ⟨hidle, h⟩ : m'.IdleInv ∧ m'.ParkInv :=
    hrun.invariant (I := fun m => m.IdleInv ∧ m.ParkInv) ⟨h₀.idleInv, h₀.parkInv hpending⟩
      fun _ _ _ h hs => ⟨h.1.step hs.1.registersInWait hs.2, h.2.step h.1 hs.1 hs.2⟩
  refine ⟨fun x m'' w hx hs hw => ReachesWait.adds hx.1 hs hx.2 hw, fun w hw => ?_,
    fun w site hc => ?_, fun e m'' hx => h.blocked_of_recv hidle hx⟩
  · exact h.parked w (hw.elim id (h.queue.waiting w))
  · exact h.switching (by rw [hc]; trivial) w (by rw [hc]; rfl)

theorem parked_of_waiting_taskRound :
    ∃ m, Run (Guarded Machine.step Machine.ReachesWait) oneWorker taskRound m ∧
      m.server.pending.items = [32] ∧ m.Parked 32 := by
  have hrun : Run (Guarded Machine.step Machine.ReachesWait) oneWorker taskRound _ :=
    run_trace (by decide +kernel)
  refine ⟨_, hrun, by decide +kernel, ?_⟩
  exact (parked_of_waiting oneWorker _ oneWorker_initial rfl _ hrun).2.1 32
    (.inr (by decide +kernel))

/-- The new worker blocks before it has polled its channel, and is registered as `Waiting` all the
same. It is given a task, but the context switch to it can only fail, and leaves it `Running`: its
`WAKE` then does not find it `Blocked`. -/
theorem registered_blocked :
    ∃ m₁ m₂ m₃, Run (Guarded Machine.step fun _ _ => True) oneWorker
        [.register 32, .server (.waited (.report (eventWord 32 .wake))), .resume,
          .worker 32 (.registered 0), .stop .block] m₁ ∧
      m₁.server.control = .eventLoop .ok ∧ m₁.server.states.get? 32 = some .waiting ∧
      m₁.server.pending.items = [32] ∧ m₁.park 32 = .blocked ∧
      Run (Guarded Machine.step fun _ _ => True) m₁
        [.server .schedule, .server .tau, .server (.removed (some 7)), .send] m₂ ∧
      m₂.server.control = .ctxSwitch 32 .trySchedule ∧ m₂.park 32 = .blocked ∧
      m₂.resume = none ∧
      Run (Guarded Machine.step fun _ _ => True) m₂
        [.fail, .server .tau, .unblock 32, .recv (eventWord 32 .wake)] m₃ ∧
      m₃.server.control = .handleEvent (eventWord 32 .wake) 0 .runEventLoop ∧
      m₃.server.states.get? 32 = some .running :=
  ⟨_, _, _, run_trace (by decide +kernel), by decide +kernel, by decide +kernel,
    by decide +kernel, by decide +kernel, run_trace (by decide +kernel), by decide +kernel,
    by decide +kernel, by decide +kernel, run_trace (by decide +kernel), by decide +kernel,
    by decide +kernel⟩

end Machine

end Umcg.Attempt2
