import Umcg.Attempt2.Machine
import Umcg.Attempt2.PendingQueue

/-!
# A task is sent to an idle worker only

Three parties keep a view of a worker: the server its status, the worker thread its point in
`Worker::start`, and the channel between them holds the tasks that were sent and not yet taken. A
worker that the server counts as `Waiting` should have an empty channel and be outside of any task.

The weak point is the registration loop. It sets the status to `Waiting` after every context switch
that returned zero, whatever event was reported. If that switch stopped the worker between its
empty poll and its `Wait`, the next task is sent, the resumed worker calls `Wait` with the task in
its channel, and the server counts it as `Waiting` again. Under `Machine.RegistersInWait`, which
excludes just this, the three views agree in every state of every run.

## Main results

* `Machine.IdleInv.step` : every step keeps the agreement of the three views.
* `Machine.idle_of_waiting` : it holds in every state of every run.
-/

namespace Umcg.Attempt2

namespace Server

variable {τ : Type} {s t : Server τ} {i : Input τ} {w : UInt64}

/-- The server counts `w` as running a task. -/
def IsBusy (s : Server τ) (w : UInt64) : Prop :=
  s.states.get? w = some .running ∨ s.states.get? w = some .blocked

private theorem isBusy_congr (h : t.states = s.states) : t.IsBusy w ↔ s.IsBusy w := by
  rw [IsBusy, IsBusy, h]

private theorem isBusy_set {a : WorkerStatus} (x : UInt64) (hw : w ∈ s.states.keys)
    (h : t.states = s.states.set w a) :
    t.IsBusy x ↔ if x = w then a = .running ∨ a = .blocked else s.IsBusy x := by
  rw [IsBusy, h, s.states.get?_set hw]
  split_ifs <;> simp [IsBusy]

/-- A busy worker stays busy until its `WAIT` is handled. -/
theorem Move.isBusy (hok : s.ControlOk) (hm : Move s i t) {x : UInt64} (hx : s.IsBusy x) :
    t.IsBusy x ∨ ∃ e d c, s.control = .handleEvent e d c ∧ eventType e = some .wait ∧
      workerId e = x := by
  cases hm
  case dispatch w _ _ hc _ _ =>
    simp only [ControlOk, hc] at hok
    left
    rw [isBusy_set x (s.states.mem_keys_of_get? hok) rfl]
    split_ifs <;> simp [hx]
  case runningFull w _ hc _ _ =>
    simp only [ControlOk, hc] at hok
    left
    rw [isBusy_set (a := .waiting) x (s.states.mem_keys_of_get? hok) (by simp)]
    split_ifs with h
    · subst h
      simp [IsBusy, hok] at hx
    · exact hx
  case block e _ _ hc he hw =>
    left
    rw [isBusy_set x (s.states.mem_keys_of_get? hw) rfl]
    split_ifs <;> simp [hx]
  case wake e _ _ hc he hw =>
    left
    rw [isBusy_set x (s.states.mem_keys_of_get? hw) rfl]
    split_ifs <;> simp [hx]
  case wait e d c hc he hw =>
    by_cases h : workerId e = x
    · exact .inr ⟨e, d, c, hc, he, h⟩
    · left
      rw [isBusy_set (a := .waiting) x (s.states.mem_keys_of_get? hw) (by simp)]
      simpa [Ne.symm h] using hx
  all_goals exact .inl ((isBusy_congr (by simp)).mpr hx)

private theorem resume_ne {c : Caller} (h : c.Last) (r : Outcome) :
    (∀ x task, (resume r c : Control τ) ≠ .sendTask x task) ∧
      ∀ e d c', (resume r c : Control τ) ≠ .handleEvent e d c' := by
  rcases resume_of_last (τ := τ) h r with hr | ⟨r', hr⟩ <;> simp [hr]

/-- The return of the last event of a buffer starts no context switch. -/
theorem resume_switching {c : Caller} (h : c.Last) (r : Outcome) :
    (resume r c : Control τ).switching = none := by
  rcases resume_of_last (τ := τ) h r with hr | ⟨r', hr⟩ <;> simp [hr, Control.switching]

/-- A task is sent to a worker that was `Waiting`. -/
theorem Move.waiting_of_sendTask (hok : s.ControlOk) (hm : Move s i t) {x : UInt64} {task : τ}
    (ht : t.control = .sendTask x task) : s.states.get? x = some .waiting := by
  cases hm
  case dispatch w _ _ hc _ _ =>
    simp only [ControlOk, hc] at hok
    cases ht
    exact hok
  case switchedBack a _ =>
    cases h : a.reported <;> simp [h, nextEvent] at ht
  case switchedSilent hc _ =>
    simp only [ControlOk, hc] at hok
    exact absurd ht ((resume_ne (hok.2 _ _ rfl) _).1 x task)
  case block hc _ _ | wait hc _ _ | waitUnexpected hc _ _ _ | ignored hc _ | invalid hc _ =>
    simp only [ControlOk, hc] at hok
    exact absurd ht ((resume_ne hok.2 _).1 x task)
  all_goals simp_all

/-- The event that is handled after a step was received or reported in that step. -/
theorem Move.event_of_handleEvent (hok : s.ControlOk) (hm : Move s i t) {e : UInt64} {d : ℕ}
    {c : Caller} (ht : t.control = .handleEvent e d c) :
    i = .recv e ∨ ∃ a, i = .switched a ∧ e ∈ a.reported := by
  cases hm
  case recv => cases ht; exact .inl rfl
  case switchedBack a _ =>
    refine .inr ⟨a, rfl, ?_⟩
    cases h : a.reported <;> simp only [h, nextEvent, reduceCtorEq, Control.handleEvent.injEq] at ht
    simp [ht.1]
  case switchedNested a _ _ _ _ _ ha =>
    cases ht
    exact .inr ⟨a, rfl, by simp [ha]⟩
  case switchedSilent hc _ =>
    simp only [ControlOk, hc] at hok
    exact absurd ht ((resume_ne (hok.2 _ _ rfl) _).2 e d c)
  case block hc _ _ | wait hc _ _ | waitUnexpected hc _ _ _ | ignored hc _ | invalid hc _ =>
    simp only [ControlOk, hc] at hok
    exact absurd ht ((resume_ne hok.2 _).2 e d c)
  all_goals simp_all

/-- Only the return of a context switch finds the thread in one. -/
theorem Move.switching_eq_none (hm : Move s i t) (hi : ∀ a, i ≠ .switched a) :
    s.control.switching = none := by
  cases hm
  case switchedBack | switchedSilent | switchedNested => exact absurd rfl (hi _)
  all_goals simp_all [Control.switching]

/-- After the return of a context switch the thread is in none. -/
theorem Move.not_switching {a : SwitchAnswer} (hok : s.ControlOk) (hm : Move s (.switched a) t) :
    t.control.switching = none ∧ t.states = s.states := by
  cases hm with
  | switchedBack hc => cases h : a.reported <;> simp [nextEvent, Control.switching]
  | switchedSilent hc _ =>
    simp only [ControlOk, hc] at hok
    exact ⟨resume_switching (hok.2 _ _ rfl) .ok, rfl⟩
  | switchedNested hc ha => exact ⟨rfl, rfl⟩

end Server

namespace Machine

variable {τ : Type} {m : Machine τ} {w : UInt64}

/-- The three views of every worker agree. -/
structure IdleInv (m : Machine τ) : Prop where
  control : m.server.ControlOk
  ids : ∀ w ∈ m.server.states.keys, workerId w = w
  wakes : ∀ e ∈ m.inbox, eventType e = some .wake
  running : ∀ w, m.park w = .running → m.server.control.switching = some w
  registering : ¬ m.server.control.Serving → ∀ w, ¬ m.server.IsBusy w
  tasks : ∀ w, (m.worker w).TasksOk
  /-- A worker without a task has none; it is on its way to `Wait` only while it runs. -/
  free : ∀ w, ¬ m.server.IsBusy w → (m.worker w).AtRest ∨
    m.park w = .running ∧ (m.worker w).task_rx = [] ∧ (m.worker w).pc.inTask = false
  handing : ∀ w task, m.server.control = .sendTask w task → (m.worker w).AtRest
  waited : ∀ e d c, m.server.control = .handleEvent e d c → eventType e = some .wait →
    (m.worker (workerId e)).AtRest

theorem Initial.idleInv (h : m.Initial) : m.IdleInv := by
  have hrest : ∀ w, (m.worker w).AtRest := fun w => by simp [h.worker w, WorkerThread.AtRest,
    WorkerPc.inTask, WorkerPc.isIdle]
  refine ⟨by simp [Server.ControlOk, h.control], h.ids, by simp [h.inbox], by simp [h.park],
    fun _ w hw => ?_, fun w => (hrest w).tasksOk, fun w _ => .inl (hrest w), fun w _ _ => hrest w,
    fun e _ _ _ _ => hrest _⟩
  rcases hw with hw | hw <;> obtain ⟨hk, hv⟩ := Table.get?_eq_some_iff _ |>.mp hw <;>
    simp [h.initializing w hk] at hv

/-- While the server is in no context switch, no worker runs. -/
theorem IdleInv.not_running (h : m.IdleInv) (hc : m.server.control.switching = none) (w : UInt64) :
    m.park w ≠ .running := fun hp => by
  have := h.running w hp
  simp [hc] at this

/-- A worker without a task is at rest whenever it does not run. -/
theorem IdleInv.atRest (h : m.IdleInv) (hw : ¬ m.server.IsBusy w) (hp : m.park w ≠ .running) :
    (m.worker w).AtRest := (h.free w hw).resolve_right fun hr => hp hr.1

/-- A step of the serving server outside of a context switch. -/
theorem IdleInv.setServer (h : m.IdleInv) {x : Input τ} {t : Server τ}
    (hm : Server.Move m.server x t) (hs : m.server.control.Serving)
    (hx : ∀ a, x ≠ .switched a) (hwake : ∀ e, x = .recv e → eventType e = some .wake) :
    (m.setServer t).IdleInv := by
  have hnone := h.not_running (hm.switching_eq_none hx)
  have hi : m.server.SingleEvents x := by
    cases x with
    | recv e => exact hwake e rfl
    | switched a => exact absurd rfl (hx a)
    | _ => trivial
  refine ⟨h.control.move hi hm, ?_, h.wakes, fun w hp => absurd hp (hnone w),
    fun hn => absurd (hm.serving hs) hn, h.tasks, fun w hw => .inl ?_, fun w task ht => ?_,
    fun e d c ht he => ?_⟩
  · change ∀ w ∈ t.states.keys, _
    rw [hm.fixed.1]
    exact h.ids
  · by_cases hb : m.server.IsBusy w
    · rcases hm.isBusy h.control hb with hb | ⟨e, d, c, hc, he, rfl⟩
      · exact absurd hb hw
      · exact h.waited e d c hc he
    · exact h.atRest hb (hnone w)
  · have hwait := hm.waiting_of_sendTask h.control ht
    exact h.atRest (by simp [Server.IsBusy, hwait]) (hnone w)
  · rcases hm.event_of_handleEvent h.control ht with rfl | ⟨a, rfl, -⟩
    · simp [hwake e rfl] at he
    · exact absurd rfl (hx a)

/-- A control outside of the scheduler's work on a task. -/
private theorem controlOk_of_loop {s : Server τ}
    (hc : (∃ r, s.control = .registering r) ∨ ∃ r, s.control = .eventLoop r) : s.ControlOk := by
  rcases hc with ⟨r, hc⟩ | ⟨r, hc⟩ <;> simp [Server.ControlOk, hc]

/-- A context switch of the registration loop returns. -/
private theorem IdleInv.endRegisterSwitch (h : m.IdleInv)
    (hsw : m.server.control.switching = some w) (hs : ¬ m.server.control.Serving)
    {k : WorkerThread τ} {p : Park} {a : SwitchAnswer} {t : Server τ} (hk : k.AtRest)
    (hp : p ≠ .running) (ht : m.server.step (.switched a) = some t) :
    IdleInv ⟨t, Function.update m.worker w k, Function.update m.park w p, m.inbox⟩ := by
  have hother : ∀ x, x ≠ w → m.park x ≠ .running := by
    intro x hx hr
    have := h.running x hr
    simp [hsw, Ne.symm hx] at this
  have hpark : ∀ x, Function.update m.park w p x ≠ .running := by
    intro x
    by_cases hx : x = w
    · simpa [hx] using hp
    · simpa [hx] using hother x hx
  have hrest : ∀ x, (Function.update m.worker w k x).AtRest := by
    intro x
    by_cases hx : x = w
    · simpa [hx] using hk
    · simpa [hx] using h.atRest (h.registering hs x) (hother x hx)
  -- the loop goes on or is left, and no status becomes a busy one
  have hloop : ((∃ r, t.control = .registering r) ∨ ∃ r, t.control = .eventLoop r) ∧
      t.states.keys = m.server.states.keys ∧ ∀ x, ¬ t.IsBusy x := by
    cases Server.registerMove_of_step hs ht with
    | skipped hc ha => exact ⟨.inl ⟨_, rfl⟩, rfl, h.registering hs⟩
    | @registered r tid a st hc ha hw =>
      refine ⟨(Server.registerNext_control _ _).imp (fun hc => ⟨_, hc⟩) fun hc => ⟨_, hc⟩,
        by simp, fun x hx => ?_⟩
      rw [Server.isBusy_set (a := .waiting) x (m.server.states.mem_keys_of_get? hw) (by simp)] at hx
      split_ifs at hx
      · simp at hx
      · exact h.registering hs x hx
  obtain ⟨hc, hkeys, hfree⟩ := hloop
  refine ⟨controlOk_of_loop hc, hkeys ▸ h.ids, h.wakes, fun x hx => absurd hx (hpark x),
    fun _ => hfree, fun x => (hrest x).tasksOk, fun x _ => .inl (hrest x), fun x _ _ => hrest x,
    fun e _ _ _ _ => hrest _⟩

/-- A context switch of the scheduler to `w` returns. -/
private theorem IdleInv.endCtxSwitch (h : m.IdleInv) {site : Site}
    (hc : m.server.control = .ctxSwitch w site) {k : WorkerThread τ} {p : Park} {a : SwitchAnswer}
    {t : Server τ} (hk : k.TasksOk) (hp : p ≠ .running)
    (ha : a = .failure ∨ ∃ ev, a = .report (eventWord w ev) ∧ (ev = .wait → k.AtRest))
    (ht : m.server.step (.switched a) = some t) :
    IdleInv ⟨t, Function.update m.worker w k, Function.update m.park w p, m.inbox⟩ := by
  have hs : m.server.control.Serving := by simp [hc, Control.Serving]
  have hm := Server.move_of_step hs ht
  have hok := h.control
  simp only [Server.ControlOk, hc] at hok
  have hid := h.ids w (m.server.states.mem_keys_of_get? hok.1)
  have hreported : ∀ ev, (SwitchAnswer.report (eventWord w ev)).reported = [eventWord w ev] :=
    fun ev => SwitchAnswer.report_reported (ne_zero_of_eventType (eventType_eventWord hid ev))
  have hi : m.server.SingleEvents (.switched a) := by
    intro w' hw'
    obtain rfl : w = w' := by simpa [hc, Control.target] using hw'
    rcases ha with rfl | ⟨ev, rfl, -⟩
    · exact .inl (by decide)
    · exact .inr ⟨hreported ev, workerId_eventWord hid ev⟩
  have hother : ∀ x, x ≠ w → m.park x ≠ .running := by
    intro x hx hr
    have := h.running x hr
    simp [hc, Control.switching, Ne.symm hx] at this
  have hbusy : m.server.IsBusy w := .inl hok.1
  obtain ⟨-, hstates⟩ := hm.not_switching h.control
  -- every worker but `w` is where it was
  have hfree : ∀ x, ¬ m.server.IsBusy x → (Function.update m.worker w k x).AtRest := by
    intro x hx
    have hxw : x ≠ w := by
      rintro rfl
      exact hx hbusy
    simpa [hxw] using h.atRest hx (hother x hxw)
  refine ⟨h.control.move hi hm, ?_, h.wakes, fun x hx => absurd hx ?_,
    fun hn => absurd (hm.serving hs) hn, fun x => ?_, fun x hx => .inl (hfree x ?_),
    fun x task hx => hfree x ?_, fun e d c hx he => ?_⟩
  · change ∀ w ∈ t.states.keys, _
    rw [hstates]
    exact h.ids
  · by_cases hxw : x = w
    · simpa [hxw] using hp
    · simpa [hxw] using hother x hxw
  · by_cases hxw : x = w
    · simpa [hxw] using hk
    · simpa [hxw] using h.tasks x
  · rwa [← Server.isBusy_congr hstates]
  · simp [Server.IsBusy, hm.waiting_of_sendTask h.control hx]
  · rcases hm.event_of_handleEvent h.control hx with hr | ⟨a', ha', hmem⟩
    · cases hr
    · cases ha'
      rcases ha with rfl | ⟨ev, rfl, hrest⟩
      · simp [SwitchAnswer.failure, SwitchAnswer.reported] at hmem
      · rw [hreported, List.mem_singleton] at hmem
        subst hmem
        rw [eventType_eventWord hid, Option.some.injEq] at he
        simpa [workerId_eventWord hid] using hrest he

/-- A context switch returns; `k` and `p` are what it left of the worker. -/
private theorem IdleInv.endSwitch (h : m.IdleInv) (hsw : m.server.control.switching = some w)
    {k : WorkerThread τ} {p : Park} {a : SwitchAnswer} {t : Server τ} (hk : k.TasksOk)
    (hp : p ≠ .running)
    (ha : a = .failure ∨ ∃ ev, a = .report (eventWord w ev) ∧ (ev = .wait → k.AtRest))
    (hreg : ¬ m.server.control.Serving → k.AtRest) (ht : m.server.step (.switched a) = some t) :
    IdleInv ⟨t, Function.update m.worker w k, Function.update m.park w p, m.inbox⟩ := by
  by_cases hs : m.server.control.Serving
  · cases hc : m.server.control <;> simp only [hc, Control.switching, reduceCtorEq] at hsw
    case ctxSwitch w' site =>
      cases hsw
      exact h.endCtxSwitch hc hk hp ha ht
    case registerSwitch => simp [hc, Control.Serving] at hs
  · exact h.endRegisterSwitch hsw hs (hreg hs) hp ht

/-- The kernel's view of a worker changes from outside of `running` to outside of it. -/
private theorem IdleInv.setPark (h : m.IdleInv) {p : Park} (hw : m.park w ≠ .running)
    (hp : p = .running → m.server.control.switching = some w) : (m.setPark w p).IdleInv := by
  refine ⟨h.control, h.ids, h.wakes, fun x hx => ?_, h.registering, h.tasks, fun x hx => ?_,
    h.handing, h.waited⟩
  · by_cases hxw : x = w
    · subst hxw
      exact hp (by simpa [Machine.setPark] using hx)
    · exact h.running x (by simpa [Machine.setPark, hxw] using hx)
  · by_cases hxw : x = w
    · subst hxw
      exact .inl (h.atRest hx hw)
    · simpa [Machine.setPark, hxw] using h.free x hx

/-- A step of the thread of a worker. -/
private theorem IdleInv.setWorker (h : m.IdleInv) {k : WorkerThread τ} (hk : k.TasksOk)
    (hfree : (m.worker w).task_rx = [] → (m.worker w).pc.inTask = false →
      k.task_rx = [] ∧ k.pc.inTask = false)
    (hrest : m.park w ≠ .running → (m.worker w).AtRest → k.AtRest) :
    (m.setWorker w k).IdleInv := by
  -- a worker runs only while the server is in a context switch
  have hparked : m.server.control.switching = none →
      ∀ x, (m.worker x).AtRest → (Function.update m.worker w k x).AtRest := by
    intro hc x hx
    by_cases hxw : x = w
    · subst hxw
      simpa using hrest (h.not_running hc x) hx
    · simpa [hxw] using hx
  refine ⟨h.control, h.ids, h.wakes, h.running, h.registering, fun x => ?_, fun x hx => ?_,
    fun x task hx => hparked ?_ x (h.handing x task hx),
    fun e d c hx he => hparked ?_ _ (h.waited e d c hx he)⟩
  · by_cases hxw : x = w
    · simpa [Machine.setWorker, hxw] using hk
    · simpa [Machine.setWorker, hxw] using h.tasks x
  · by_cases hxw : x = w
    · subst hxw
      simp only [Machine.setWorker, Function.update_self]
      by_cases hp : m.park x = .running
      · have hrx : (m.worker x).task_rx = [] ∧ (m.worker x).pc.inTask = false :=
          (h.free x hx).elim (fun hr => ⟨hr.1, hr.2.1⟩) And.right
        exact .inr ⟨hp, hfree hrx.1 hrx.2⟩
      · exact .inl (hrest hp (h.atRest hx hp))
    · simpa [Machine.setWorker, hxw] using h.free x hx
  · change m.server.control = _ at hx
    simp [hx, Control.switching]
  · change m.server.control = _ at hx
    simp [hx, Control.switching]

/-- The server sends the task it holds. -/
private theorem IdleInv.sent (h : m.IdleInv) {task : τ} {k : WorkerThread τ} {t : Server τ}
    (hc : m.server.control = .sendTask w task)
    (hk : (m.worker w).send (.function task) = some k) (ht : m.server.step (.sent true) = some t) :
    ((m.setWorker w k).setServer t).IdleInv := by
  have hs : m.server.control.Serving := by simp [hc, Control.Serving]
  have hm := Server.move_of_step hs ht
  have hk' := (h.handing w task hc).send hk
  have ht' := h.setServer hm hs (by simp) (by simp)
  have hc' : t.control = .ctxSwitch w .trySchedule := by cases hm; simp_all
  have hbusy : t.IsBusy w := by
    have hok := ht'.control
    simp only [Server.ControlOk, Machine.setServer, hc'] at hok
    exact .inl hok.1
  refine ⟨ht'.control, ht'.ids, ht'.wakes, ht'.running, ht'.registering, fun x => ?_,
    fun x hx => ?_, fun x task hx => ?_, fun e d c hx => ?_⟩
  · by_cases hxw : x = w
    · simpa [Machine.setWorker, Machine.setServer, hxw] using hk'
    · simpa [Machine.setWorker, Machine.setServer, hxw] using h.tasks x
  · have hxw : x ≠ w := by
      rintro rfl
      exact hx hbusy
    simpa [Machine.setWorker, Machine.setServer, hxw] using ht'.free x hx
  · simp [Machine.setServer, hc'] at hx
  · simp [Machine.setServer, hc'] at hx

/-- The `Wait` of the registration loop returns. -/
private theorem IdleInv.registerWaited (h : m.IdleInv) {a : SwitchAnswer} {t : Server τ}
    (hm : Server.RegisterMove m.server (.waited a) t) : (m.setServer t).IdleInv := by
  cases hm with
  | waitedAgain hc => exact h
  | waitedWake hc ha he hnew =>
    have hnone := h.not_running (by simp [hc, Control.switching])
    have hs : ¬ m.server.control.Serving := by simp [hc, Control.Serving]
    have hrest : ∀ x, (m.worker x).AtRest := fun x => h.atRest (h.registering hs x) (hnone x)
    exact ⟨by simp [Server.ControlOk, Machine.setServer], h.ids, h.wakes,
      fun x hx => absurd hx (hnone x), fun _ => h.registering hs, h.tasks,
      fun x _ => .inl (hrest x), fun x _ _ => hrest x, fun e _ _ _ _ => hrest _⟩

/-- The server goes on, or `Wait` or `remove_task` returns. -/
private theorem IdleInv.server (h : m.IdleInv) {x : Input τ} {t : Server τ}
    (hx : ∀ a, x ≠ .switched a) (hwake : ∀ e, x = .recv e → eventType e = some .wake)
    (ht : m.server.step x = some t) : (m.setServer t).IdleInv := by
  by_cases hs : m.server.control.Serving
  · exact h.setServer (Server.move_of_step hs ht) hs hx hwake
  · have hm := Server.registerMove_of_step hs ht
    cases x with
    | waited a => exact h.registerWaited hm
    | switched a => exact absurd rfl (hx a)
    | _ => cases hm

/-- No context switch of the registration loop stops a worker between its empty poll and its
`Wait`. -/
def RegistersInWait (m : Machine τ) : MachineStep τ → Prop
  | .stop _ => ∀ r tid, m.server.control = .registerSwitch r tid →
      (m.worker (shiftedId tid)).pc.isIdle = false
  | _ => True

instance (m : Machine τ) (x : MachineStep τ) : Decidable (m.RegistersInWait x) :=
  match x with
  | .stop _ =>
    match h : m.server.control with
    | .registerSwitch r tid =>
      decidable_of_iff ((m.worker (shiftedId tid)).pc.isIdle = false)
        ⟨fun h' _ _ hc => by cases h.symm.trans hc; exact h', fun h' => h' r tid h⟩
    | .registering _ | .eventLoop _ | .popPending | .removeTask _ | .sendTask _ _
    | .ctxSwitch _ _ | .handleEvent _ _ _ =>
      .isTrue fun _ _ hc => by simp [h] at hc
  | .server _ | .send | .recv _ | .fail | .resume | .register _ | .refuse _ | .worker _ _ | .wait
  | .waitError | .exit | .unblock _ => .isTrue trivial

/-- In the registration loop the worker that runs has no task. -/
private theorem IdleInv.free_of_registering (h : m.IdleInv) (hs : ¬ m.server.control.Serving) :
    (m.worker w).task_rx = [] ∧ (m.worker w).pc.inTask = false :=
  (h.free w (h.registering hs w)).elim (fun hr => ⟨hr.1, hr.2.1⟩) And.right

/-- A worker that stops in the registration loop is at rest. -/
private theorem IdleInv.atRest_of_stops (h : m.IdleInv) {x : MachineStep τ} {ev : UmcgEventType}
    {k : WorkerThread τ} {p : Park} (hok : m.RegistersInWait x) (hw : m.onCpu = some w)
    (hx : Stops (m.worker w) x ev k p) (hs : ¬ m.server.control.Serving) : k.AtRest := by
  have hfree := h.free_of_registering hs (w := w)
  cases hx with
  | stop kind =>
    have hsw := (onCpu_eq_some hw).1
    cases hc : m.server.control <;> simp only [hc, Control.switching, reduceCtorEq] at hsw
    case ctxSwitch => simp [hc, Control.Serving] at hs
    case registerSwitch r tid =>
      cases hsw
      exact ⟨hfree.1, hfree.2, hok r tid hc⟩
  | wait hk => exact (h.tasks w).atRest_of_wait (WorkerThread.move_of_step hk)
  | exit hk => exact WorkerThread.atRest_of_leave hfree.1 hfree.2 hk

/-- The context switch ends because the running worker stopped. -/
private theorem IdleInv.stopped (h : m.IdleInv) {x : MachineStep τ} {ev : UmcgEventType}
    {k : WorkerThread τ} {p : Park} {t : Server τ} (hok : m.RegistersInWait x)
    (hw : m.onCpu = some w) (hx : Stops (m.worker w) x ev k p)
    (ht : m.server.step (.switched (.report (eventWord w ev))) = some t) :
    (((m.setWorker w k).setPark w p).setServer t).IdleInv := by
  have hreg := h.atRest_of_stops hok hw hx
  have htasks : k.TasksOk ∧ p ≠ .running ∧ (ev = .wait → k.AtRest) := by
    cases hx with
    | stop kind =>
      exact ⟨h.tasks w, by cases kind <;> simp [StopKind.park],
        by cases kind <;> simp [StopKind.event]⟩
    | wait hk =>
      have hrest := (h.tasks w).atRest_of_wait (WorkerThread.move_of_step hk)
      exact ⟨hrest.tasksOk, by simp, fun _ => hrest⟩
    | exit hk => exact ⟨(h.tasks w).leave hk, by simp, by simp⟩
  exact h.endSwitch (onCpu_eq_some hw).1 htasks.1 htasks.2.1 (.inr ⟨ev, rfl, htasks.2.2⟩) hreg ht

/-- Every step keeps the agreement of the three views. -/
theorem IdleInv.step (h : m.IdleInv) {x : MachineStep τ} (hok : m.RegistersInWait x)
    {m' : Machine τ} (hstep : m.step x = some m') : m'.IdleInv := by
  cases move_of_step hstep with
  | server hi ht => exact h.server hi.1 (fun e he => absurd he (hi.2 e)) ht
  | sent hc hk ht => exact h.sent hc hk ht
  | sendFailed hc ht => exact h.server (by simp) (by simp) ht
  | @recv e t he ht =>
    have hwake := h.wakes e he
    have ht' := h.server (by simp) (by rintro _ ⟨⟩; exact hwake) ht
    exact { ht' with wakes := fun e' he' => h.wakes e' (List.mem_of_mem_erase he') }
  | @failed w t hsw hp ht =>
    have hend := h.endSwitch hsw (h.tasks w) hp (.inl rfl)
      (fun hs => h.atRest (h.registering hs w) hp) ht
    simp only [Function.update_eq_self] at hend
    exact hend
  | resumed hsw hp => exact h.setPark (by simp [hp]) fun _ => hsw
  | registered hp => exact h.setPark (by simp [hp]) (by simp)
  | @refused w k hp hk =>
    have hm := WorkerThread.move_of_step hk
    exact h.setWorker ((h.tasks w).step hm) hm.free fun _ hr => hr.step (by simp) hm
  | @worker w x k hx hk =>
    have hm := WorkerThread.move_of_step hk
    refine h.setWorker ((h.tasks w).step hm) hm.free fun hp hr => hr.step ?_ hm
    rintro b rfl
    simp [hp] at hx
  | @waitError w k k' hw hk hk' =>
    have hrest := ((h.tasks w).atRest_of_wait (WorkerThread.move_of_step hk)).step (by simp)
      (WorkerThread.move_of_step hk')
    exact h.setWorker hrest.tasksOk (fun _ _ => ⟨hrest.1, hrest.2.1⟩) fun _ _ => hrest
  | stopped hw hx ht => exact h.stopped hok hw hx ht
  | @unblocked w hw hp =>
    have ht' := h.setPark (w := w) (p := .ready) (by simp [hp]) (by simp)
    refine { ht' with wakes := fun e he => ?_ }
    rcases List.mem_append.mp he with he | he
    · exact h.wakes e he
    · rw [List.mem_singleton.mp he]
      exact eventType_eventWord (h.ids w hw) _

/-- When no context switch of the registration loop stops a worker between its empty poll and its
`Wait`, then in every state of every run a worker with status `Waiting` has an empty channel and is
outside of any task; no channel holds more than one task, and none while the worker executes
one. -/
theorem idle_of_waiting {m m' : Machine τ} {l : List (MachineStep τ)} (h₀ : m.Initial)
    (hrun : Run (Guarded Machine.step Machine.RegistersInWait) m l m') (w : UInt64) :
    (m'.server.states.get? w = some .waiting →
      (m'.worker w).task_rx = [] ∧ (m'.worker w).pc.inTask = false) ∧
    (m'.worker w).task_rx.length ≤ 1 ∧
    ∀ task, (m'.worker w).pc = .executing task → (m'.worker w).task_rx = [] := by
  have h : m'.IdleInv := hrun.invariant h₀.idleInv fun _ _ _ h hs => h.step hs.1 hs.2
  refine ⟨fun hw => ?_, (h.tasks w).one, fun task hpc => (h.tasks w).taken (by simp [hpc,
    WorkerPc.inTask])⟩
  have hfree : ¬ m'.server.IsBusy w := by simp [Server.IsBusy, hw]
  exact (h.free w hfree).elim (fun hr => ⟨hr.1, hr.2.1⟩) And.right

/-- A server of one worker, at the start of its registration loop. -/
def oneWorker : Machine ℕ where
  server :=
    { states := .const [32] (by decide) .initializing
      channels := [32]
      pending := .empty 1
      running := .empty 1
      control := .registering []
      log := [] }
  worker _ := ⟨[], .starting⟩
  park _ := .unregistered
  inbox := []

theorem oneWorker_initial : oneWorker.Initial where
  control := rfl
  initializing _ _ := rfl
  ids w hw := by
    rw [List.mem_singleton.mp hw]
    decide
  worker _ := rfl
  park _ := rfl
  inbox := rfl

/-- The worker registers and polls its empty channel, and the registration loop has switched
to it. -/
def registration : List (MachineStep ℕ) :=
  [.register 32, .server (.waited (.report (eventWord 32 .wake))), .resume,
    .worker 32 (.registered 0), .worker 32 (.poll true)]

/-- A task is given to the worker, which is resumed. -/
def giveTask (task : ℕ) : List (MachineStep ℕ) :=
  [.server .schedule, .server .tau, .server (.removed (some task)), .send, .resume]

/-- A worker that waits, gets a task, blocks in it, is woken, returns from it and waits. -/
def taskRound : List (MachineStep ℕ) :=
  registration ++ [MachineStep.wait] ++ giveTask 7 ++
    [MachineStep.worker 32 (.waited 0), .worker 32 (.poll true), .stop .block, .server .tau,
      .server .tau, .unblock 32, .recv (eventWord 32 .wake), .server .tau, .resume,
      .worker 32 .returned, .wait, .server .tau]

theorem idle_of_waiting_taskRound :
    ∃ m, Run (Guarded Machine.step Machine.RegistersInWait) oneWorker taskRound m ∧
      m.server.states.get? 32 = some .waiting ∧ (m.worker 32).task_rx = [] ∧
      (m.worker 32).pc.inTask = false := by
  have hrun : Run (Guarded Machine.step Machine.RegistersInWait) oneWorker taskRound _ :=
    run_trace (by decide +kernel)
  refine ⟨_, hrun, by decide +kernel, ?_⟩
  exact (idle_of_waiting oneWorker_initial hrun 32).1 (by decide +kernel)

/-- The worker is preempted between its empty poll and its `Wait`, and registration ends. The task
it is given then is still in its channel when it calls `Wait`: the server counts it as `Waiting`
and sends it a second one. -/
theorem queued_task_of_waiting :
    ∃ m₁ m₂ m₃, Run (Guarded Machine.step fun _ _ => True) oneWorker
        (registration ++ [.stop .preempt]) m₁ ∧
      m₁.server.control = .eventLoop .ok ∧
      Run (Guarded Machine.step fun _ _ => True) m₁ (giveTask 7 ++ [.wait, .server .tau]) m₂ ∧
      m₂.server.states.get? 32 = some .waiting ∧ (m₂.worker 32).task_rx = [.function 7] ∧
      Run (Guarded Machine.step fun _ _ => True) m₂
        [.server .tau, .server (.removed (some 8)), .send] m₃ ∧
      (m₃.worker 32).task_rx = [.function 7, .function 8] :=
  ⟨_, _, _, run_trace (by decide +kernel), by decide +kernel, run_trace (by decide +kernel),
    by decide +kernel, by decide +kernel, run_trace (by decide +kernel), by decide +kernel⟩

end Machine

end Umcg.Attempt2
