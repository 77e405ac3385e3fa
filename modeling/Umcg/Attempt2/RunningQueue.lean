import Umcg.Attempt2.PendingQueue

/-!
# Which workers the running queue holds

On a `WAIT` the running queue loses its front, not the worker that waits. `Tracked` carries beside
the server the busy workers in the order in which they became busy: the queue as it would be if
each worker left it when it waits. The two agree as long as the worker that waits is the one that
has been busy for the longest time (`Tracked.OldestWaits`); a worker that blocks in its task and
is overtaken by one that does not is enough to break this.

## Main results

* `Tracked.OrderInv.step` : every such step keeps the running queue equal to the order.
* `Tracked.running_eq_busy` : the running queue in every state.
* `Tracked.running_overtaken` : the queue after a worker has been overtaken.
-/

namespace Umcg.Attempt2

variable {τ : Type}

namespace Server

variable {s t : Server τ} {w : UInt64} {order : List UInt64}

/-- The worker is `Running` or `Blocked`. -/
def isBusy (s : Server τ) (w : UInt64) : Bool := (s.states.get? w).any WorkerStatus.busy

/-- The busy workers in the order in which they became busy, when it was `order` before. -/
def busyOrder (s : Server τ) (order : List UInt64) : List UInt64 :=
  order.filter s.isBusy ++ s.states.keys.filter fun w => s.isBusy w && !order.contains w

theorem isBusy_iff : s.isBusy w = true ↔
    s.states.get? w = some .running ∨ s.states.get? w = some .blocked := by
  unfold isBusy
  cases s.states.get? w with
  | none => simp
  | some st => cases st <;> simp [WorkerStatus.busy]

theorem mem_keys_of_isBusy (h : s.isBusy w = true) : w ∈ s.states.keys := by
  rcases isBusy_iff.mp h with h | h <;> exact s.states.mem_keys_of_get? h

theorem mem_busyOrder : w ∈ s.busyOrder order ↔ s.isBusy w = true := by
  unfold busyOrder
  by_cases hw : w ∈ order
  · simp [hw]
  · simpa [hw] using mem_keys_of_isBusy

theorem nodup_busyOrder (h : order.Nodup) : (s.busyOrder order).Nodup := by
  refine (h.filter _).append (s.states.nodup.filter _) ?_
  intro w hw hw'
  simp only [List.mem_filter, Bool.and_eq_true, Bool.not_eq_true', List.contains_eq_mem,
    decide_eq_false_iff_not] at hw hw'
  exact hw'.2.2 hw.1

theorem busyOrder_of_isBusy_eq (hmem : ∀ w, w ∈ order ↔ s.isBusy w = true)
    (h : ∀ w, t.isBusy w = s.isBusy w) : t.busyOrder order = order := by
  have hold : order.filter t.isBusy = order :=
    List.filter_eq_self.mpr fun w hw => (h w).trans ((hmem w).mp hw)
  have hnew : (t.states.keys.filter fun w => t.isBusy w && !order.contains w) = [] := by
    refine List.filter_eq_nil_iff.mpr fun w _ hw => ?_
    simp only [h, Bool.and_eq_true, Bool.not_eq_true', List.contains_eq_mem,
      decide_eq_false_iff_not] at hw
    exact hw.2 ((hmem w).mpr hw.1)
  rw [busyOrder, hold, hnew, List.append_nil]

/-- A worker that becomes busy comes last. -/
theorem busyOrder_of_start (hmem : ∀ w, w ∈ order ↔ s.isBusy w = true)
    (hw : s.isBusy w = false) (hkey : w ∈ t.states.keys)
    (h : ∀ x, t.isBusy x = (s.isBusy x || x == w)) : t.busyOrder order = order ++ [w] := by
  have hold : order.filter t.isBusy = order := by
    refine List.filter_eq_self.mpr fun x hx => ?_
    rw [h, (hmem x).mp hx, Bool.true_or]
  have hnew : (t.states.keys.filter fun x => t.isBusy x && !order.contains x) = [w] := by
    have hiff : ∀ x ∈ t.states.keys, (t.isBusy x && !order.contains x) = (x == w) := by
      intro x _
      by_cases hx : x ∈ order
      · have hne : x ≠ w := fun he => by simp [← he, (hmem x).mp hx] at hw
        simp [hx, hne]
      · have hfree : s.isBusy x = false := by simpa [hmem x] using hx
        simp [h, hx, hfree]
    rw [List.filter_congr hiff, List.filter_beq, List.count_eq_one_of_mem t.states.nodup hkey]
    rfl
  rw [busyOrder, hold, hnew]

/-- A worker that stops being busy leaves the order. -/
theorem busyOrder_of_stop (hmem : ∀ w, w ∈ order ↔ s.isBusy w = true)
    (h : ∀ x, t.isBusy x = (s.isBusy x && x != w)) :
    t.busyOrder order = order.filter (· != w) := by
  have hold : order.filter t.isBusy = order.filter (· != w) := by
    refine List.filter_congr fun x hx => ?_
    rw [h, (hmem x).mp hx, Bool.true_and]
  have hnew : (t.states.keys.filter fun x => t.isBusy x && !order.contains x) = [] := by
    refine List.filter_eq_nil_iff.mpr fun x _ hx => ?_
    simp only [h, Bool.and_eq_true, Bool.not_eq_true', List.contains_eq_mem,
      decide_eq_false_iff_not] at hx
    exact hx.2 ((hmem x).mpr hx.1.1)
  rw [busyOrder, hold, hnew, List.append_nil]

/-- The status of one worker decides about that worker only. -/
theorem isBusy_of_states (hw : w ∈ s.states.keys) (st : WorkerStatus)
    (ht : t.states = s.states.set w st) (x : UInt64) :
    t.isBusy x = if x = w then st.busy else s.isBusy x := by
  unfold isBusy
  rw [ht, s.states.get?_set hw]
  split_ifs <;> rfl

/-- What a step does to the running queue and to the busy workers: nothing, or a worker starts
and is pushed, or one waits and the front is popped. -/
theorem Move.busy {i : Input τ} (hm : Move s i t)
    (hpop : ∀ w, s.control = .removeTask w → s.states.get? w = some .waiting) :
    (t.running.items = s.running.items ∧ ∀ x, t.isBusy x = s.isBusy x) ∨
    (∃ w ∈ t.states.keys, s.isBusy w = false ∧ t.running.items = s.running.items ++ [w] ∧
      ∀ x, t.isBusy x = (s.isBusy x || x == w)) ∨
    ∃ e d c, s.control = .handleEvent e d c ∧ eventType e = some .wait ∧
      t.running.items = s.running.items.tail ∧
      ∀ x, t.isBusy x = (s.isBusy x && x != workerId e) := by
  have hset {w : UInt64} {st : WorkerStatus} (hw : s.states.get? w = some st)
      (st' : WorkerStatus) (hst : st.busy = st'.busy) {u : Server τ}
      (hu : u.states = s.states.set w st') (x : UInt64) : u.isBusy x = s.isBusy x := by
    rw [isBusy_of_states (s.states.mem_keys_of_get? hw) st' hu]
    split_ifs with hx
    · simp [isBusy, hx, hw, hst]
    · rfl
  cases hm with
  | schedule | recv | unmanaged | popEmpty | popUnknown | popWaiting | noChannel | sentOk
  | sendFailed | switchedBack | switchedSilent | switchedNested | ignored | invalid =>
    exact .inl ⟨rfl, fun x => rfl⟩
  | popCritical | noTask | waitUnexpected => exact .inl ⟨by simp, fun x => by simp [isBusy]⟩
  | @dispatch w task q hc hw hq =>
    have hwait := hpop w hc
    refine .inr (.inl ⟨w, s.states.mem_keys_of_get? hwait, by simp [isBusy, hwait,
      WorkerStatus.busy], (BoundedQueue.push_eq_some_iff.mp hq).2.2, fun x => ?_⟩)
    rw [isBusy_of_states (s.states.mem_keys_of_get? hwait) .running rfl]
    by_cases hx : x = w <;> simp [hx, WorkerStatus.busy]
  | @runningFull w task hc hw hq =>
    exact .inl ⟨by simp, hset (hpop w hc) .waiting rfl (by simp)⟩
  | block hc he hw => exact .inl ⟨rfl, hset hw .blocked rfl rfl⟩
  | wake hc he hw => exact .inl ⟨rfl, hset hw .running rfl rfl⟩
  | @wait e d c hc he hw =>
    refine .inr (.inr ⟨e, d, c, hc, he, by simp, fun x => ?_⟩)
    rw [isBusy_of_states (s.states.mem_keys_of_get? hw) .waiting (by simp)]
    by_cases hx : x = workerId e <;> simp [hx, WorkerStatus.busy]

/-- The surroundings of the server: a switch to `w` succeeds and reports one event of `w`, `BLOCK`
or `WAIT`, and the routed events are `WAKE`s of `Blocked` workers. -/
def BusyEvents (s : Server τ) : Input τ → Prop
  | .recv e => eventType e = some .wake ∧ s.states.get? (workerId e) = some .blocked
  | .switched a => ∀ w ∈ s.control.target, a.ret = 0 ∧ a.ReportsOnly w ∧
      (eventType a.first = some .block ∨ eventType a.first = some .wait)
  | _ => True

instance (s : Server τ) : (i : Input τ) → Decidable (s.BusyEvents i)
  | .recv _ => inferInstanceAs (Decidable (_ ∧ _))
  | .switched a =>
    Option.decidableForallMem (p := fun w => a.ret = 0 ∧ a.ReportsOnly w ∧
      (eventType a.first = some .block ∨ eventType a.first = some .wait)) s.control.target
  | .waited _ | .schedule | .tau | .removed _ | .sent _ => inferInstanceAs (Decidable True)

theorem BusyEvents.singleEvents {i : Input τ} (h : s.BusyEvents i) : s.SingleEvents i := by
  cases i with
  | recv e => exact h.1
  | switched a => exact fun w hw => .inr (h w hw).2.1
  | _ => trivial

/-- The event that is about to be handled has just been routed or reported by a switch. -/
theorem Move.of_handleEvent {i : Input τ} {e : UInt64} {d : ℕ} {c : Caller} (hm : Move s i t)
    (hok : s.ControlOk) (ht : t.control = .handleEvent e d c) : t.states = s.states ∧
      (i = .recv e ∨ ∃ a w site, i = .switched a ∧ s.control = .ctxSwitch w site ∧
        a.reported.head? = some e) := by
  have hresume : ∀ {r : Outcome} {c' : Caller}, c'.Last → resume r c' ≠ (.handleEvent e d c :
      Control τ) := by
    intro r c' hc' he
    rcases resume_of_last (τ := τ) hc' r with hr | ⟨r', hr⟩ <;> simp [hr] at he
  cases hm with
  | recv =>
    cases ht
    exact ⟨rfl, .inl rfl⟩
  | @switchedBack w a hc =>
    cases ha : a.reported with
    | nil => simp [ha, nextEvent] at ht
    | cons e' l =>
      rw [ha] at ht
      cases ht
      exact ⟨rfl, .inr ⟨a, w, _, rfl, hc, by rw [ha]; rfl⟩⟩
  | switchedNested hc ha =>
    cases ht
    exact ⟨rfl, .inr ⟨_, _, _, rfl, hc, by rw [ha]; rfl⟩⟩
  | switchedSilent hc =>
    simp only [ControlOk, hc] at hok
    exact absurd ht (hresume (hok.2 _ _ rfl))
  | block hc | wait hc | waitUnexpected hc | ignored hc | invalid hc =>
    simp only [ControlOk, hc] at hok
    exact absurd ht (hresume hok.2)
  | unmanaged hc | popUnknown hc => exact absurd (hc.symm.trans ht) (by simp)
  | popCritical hc => exact absurd (hc.symm.trans (by simpa using ht)) (by simp)
  | _ => cases ht

end Server

/-- A server, and its busy workers in the order in which they became busy. -/
structure Tracked (τ : Type) where
  server : Server τ
  order : List UInt64

namespace Tracked

variable {x y : Tracked τ} {i : Input τ}

/-- A step of the server; the order follows the statuses. -/
def step (x : Tracked τ) (i : Input τ) : Option (Tracked τ) :=
  (x.server.step i).map fun t => ⟨t, t.busyOrder x.order⟩

/-- The order is only recorded: every run of the server is the run of a tracked one. -/
theorem exists_run {ok : Server τ → Input τ → Prop} {s t : Server τ} {l : List (Input τ)}
    (h : Run (Guarded Server.step ok) s l t) (order : List UInt64) :
    ∃ order', Run (Guarded step fun x i => ok x.server i) ⟨s, order⟩ l ⟨t, order'⟩ := by
  induction h with
  | nil => exact ⟨order, .nil⟩
  | snoc _ hstep ih =>
    obtain ⟨order', hrun⟩ := ih
    exact ⟨_, hrun.snoc ⟨hstep.1, by simp only [step, hstep.2]; rfl⟩⟩

/-- A worker that reports `WAIT` has been busy for longer than any other worker. -/
def OldestWaits (x : Tracked τ) : Input τ → Prop
  | .switched a => ∀ w ∈ x.server.control.target, eventType a.first = some .wait →
      x.order.head? = some w
  | _ => True

instance (x : Tracked τ) : (i : Input τ) → Decidable (x.OldestWaits i)
  | .switched a =>
    Option.decidableForallMem (p := fun w => eventType a.first = some .wait →
      x.order.head? = some w) x.server.control.target
  | .recv _ | .waited _ | .schedule | .tau | .removed _ | .sent _ =>
    inferInstanceAs (Decidable True)

/-- The running queue is the list of the busy workers in the order in which they became busy. -/
structure OrderInv (x : Tracked τ) : Prop where
  serving : x.server.control.Serving
  control : x.server.ControlOk
  items : x.server.running.items = x.order
  nodup : x.order.Nodup
  mem : ∀ w, w ∈ x.order ↔ x.server.isBusy w = true
  front : ∀ e d c, x.server.control = .handleEvent e d c → eventType e = some .wait →
    x.order.head? = some (workerId e)

theorem orderInv_of_postRegistration {s : Server τ} (h : s.PostRegistration) :
    OrderInv ⟨s, []⟩ where
  serving := h.serving
  control := h.pendingInv.control
  items := h.running
  nodup := List.nodup_nil
  mem w := by
    have hfree : s.isBusy w = false := by
      by_contra hw
      have hkey := Server.mem_keys_of_isBusy (by simpa using hw)
      simp [Server.isBusy, h.get?_eq_waiting.mpr hkey, WorkerStatus.busy] at hw
    simp [hfree]
  front e d c hc := by
    have hret : (Control.handleEvent e d c : Control τ).AtReturn := hc ▸ h.control
    exact hret.elim

/-- A `WAIT` that is about to be handled is of the worker that has been busy the longest. -/
private theorem OrderInv.front_step (h : OrderInv x) (hi : x.server.BusyEvents i)
    (ho : x.OldestWaits i) {t : Server τ} (hm : Server.Move x.server i t) {e : UInt64} {d : ℕ}
    {c : Caller} (ht : t.control = .handleEvent e d c) (he : eventType e = some .wait) :
    (t.busyOrder x.order).head? = some (workerId e) := by
  obtain ⟨hst, hfrom⟩ := hm.of_handleEvent h.control ht
  rw [Server.busyOrder_of_isBusy_eq h.mem fun w => by simp [Server.isBusy, hst]]
  rcases hfrom with rfl | ⟨a, w, site, rfl, hc, ha⟩
  · simp [hi.1] at he
  · have hw : w ∈ x.server.control.target := by simp [hc, Control.target]
    obtain ⟨-, ⟨hrep, hid⟩, -⟩ := hi w hw
    obtain rfl : a.first = e := by simpa [hrep] using ha
    rw [hid]
    exact ho w hw he

/-- The running queue follows the order: a worker that starts is pushed at the back, and the
worker that waits is the front. -/
private theorem OrderInv.items_step (h : OrderInv x) {t : Server τ}
    (hm : Server.Move x.server i t) : t.running.items = t.busyOrder x.order := by
  have hok := h.control
  have hpop : ∀ w, x.server.control = .removeTask w →
      x.server.states.get? w = some .waiting := by
    intro w hc
    simpa [Server.ControlOk, hc] using hok
  rcases hm.busy hpop with ⟨hrun, hsame⟩ | ⟨w, hkey, hw, hrun, hstart⟩ |
    ⟨e, d, c, hc, he, hrun, hstop⟩
  · rw [hrun, h.items, Server.busyOrder_of_isBusy_eq h.mem hsame]
  · rw [hrun, h.items, Server.busyOrder_of_start h.mem hw hkey hstart]
  · rw [hrun, h.items, Server.busyOrder_of_stop h.mem hstop]
    obtain ⟨l, hl⟩ := List.head?_eq_some_iff.mp (h.front e d c hc he)
    have hnot : workerId e ∉ l := (List.nodup_cons.mp (hl ▸ h.nodup)).1
    have hrest : l.filter (· != workerId e) = l :=
      List.filter_eq_self.mpr fun w hw => by simpa using ne_of_mem_of_not_mem hw hnot
    simp [hl, hrest]

theorem OrderInv.step (h : OrderInv x) (hi : x.server.BusyEvents i) (ho : x.OldestWaits i)
    (hstep : x.step i = some y) : OrderInv y := by
  obtain ⟨t, ht, rfl⟩ := Option.map_eq_some_iff.mp hstep
  have hm := Server.move_of_step h.serving ht
  exact ⟨hm.serving h.serving, h.control.move hi.singleEvents hm, h.items_step hm,
    Server.nodup_busyOrder h.nodup, fun _ => Server.mem_busyOrder,
    fun _ _ _ hc he => h.front_step hi ho hm hc he⟩

/-- In every run in which a worker that reports `WAIT` is always the one that has been busy the
longest, the running queue holds in every state, so at every return of either function, nested or
not, exactly the workers that are `Running` or `Blocked`, each once. -/
theorem running_eq_busy (s : Server τ) (h₀ : s.PostRegistration) (l : List (Input τ))
    (x : Tracked τ)
    (h : Run (Guarded step fun x i => x.server.BusyEvents i ∧ x.OldestWaits i) ⟨s, []⟩ l x) :
    x.server.running.items.Nodup ∧
      ∀ w, w ∈ x.server.running.items ↔
        x.server.states.get? w = some .running ∨ x.server.states.get? w = some .blocked := by
  have hI : OrderInv x := h.invariant (orderInv_of_postRegistration h₀)
    fun _ _ _ hI ⟨⟨hi, ho⟩, hstep⟩ => hI.step hi ho hstep
  exact ⟨hI.items ▸ hI.nodup, fun w => by rw [hI.items, hI.mem, Server.isBusy_iff]⟩

/-- Both workers take a task and block; the first one is woken and waits, then the second one. -/
def inOrder : List (Input ℕ) :=
  [.schedule, .tau, .removed (some 0), .sent true, .switched (.report (eventWord 32 .block)),
    .tau, .tau, .removed (some 1), .sent true, .switched (.report (eventWord 64 .block)),
    .tau, .tau, .recv (eventWord 32 .wake), .tau, .switched (.report (eventWord 32 .wait)), .tau]

theorem running_eq_busy_inOrder : ∃ x,
    Run (Guarded step fun x i => x.server.BusyEvents i ∧ x.OldestWaits i)
      ⟨Server.twoWorkers, []⟩ inOrder x ∧ x.server.running.items = [64] ∧
      ∀ w, w ∈ x.server.running.items ↔
        x.server.states.get? w = some .running ∨ x.server.states.get? w = some .blocked := by
  have hrun : Run (Guarded step fun x i => x.server.BusyEvents i ∧ x.OldestWaits i)
      ⟨Server.twoWorkers, []⟩ inOrder _ := run_trace (by decide +kernel)
  refine ⟨_, hrun, by decide +kernel, ?_⟩
  exact (running_eq_busy _ Server.twoWorkers_postRegistration _ _ hrun).2

/-- The first worker blocks in its task, and the second one finishes its task before that. -/
def overtaken : List (Input ℕ) :=
  [.schedule, .tau, .removed (some 0), .sent true, .switched (.report (eventWord 32 .block)),
    .tau, .tau, .removed (some 1), .sent true, .switched (.report (eventWord 64 .wait)),
    .tau, .tau, .removed none]

/-- A worker that finishes before one that started earlier takes that one out of the running
queue and stays in it. -/
theorem running_overtaken : ∃ t,
    Run (Guarded Server.step Server.BusyEvents) Server.twoWorkers overtaken t ∧
      t.control.AtReturn ∧ t.running.items = [64] ∧
      t.states.get? 32 = some .blocked ∧ t.states.get? 64 = some .waiting := by
  have hrun : Run (Guarded Server.step Server.BusyEvents) Server.twoWorkers overtaken _ :=
    run_trace (by decide +kernel)
  exact ⟨_, hrun, by decide +kernel, by decide +kernel, by decide +kernel, by decide +kernel⟩

end Tracked

end Umcg.Attempt2
