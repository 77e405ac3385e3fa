import Mathlib.Algebra.GroupWithZero.Nat
import Umcg.Pool.Idle
import Umcg.Pool.RunServer

/-!
# The steps inside of a call of `run_server`

A call of `try_schedule_tasks` or `handle_umcg_event` is a sequence of steps of the thread of the
server, with a context switch between some of them. `Server.rank` bounds the number of these steps:
a `WAKE` that `run_server` handles leads to one context switch, and a context switch reports one
event, which is not a `WAKE`. While the switch is under way, the worker may take any number of steps
of its own.

The rest of the module is about the steps of a `Machine` that are made inside of a call
(`MachineStep.inside`): what they are for the thread of the server, and that they do not look at the
events that are on their way.

## Main results

* `Server.Move.rank_lt` : every step of the thread lowers the rank.
* `Server.Move.switching_of_status` : a blocked worker is set to `Running` only to switch to it.
* `Machine.server_of_inside` : a step inside of a call is one of the thread, or leaves it alone.
* `Machine.IdleAt.switchesWell` : `try_schedule_tasks` does not fail when it can start its tasks.
-/

namespace Umcg.Pool

/-! ### How long a call of a server can go on -/

/-- A bound for the steps of the thread in `handle_umcg_event`, which makes a context switch for a
`WAKE`. -/
def handleRank (event : UInt64) : ℕ := if eventType event = some .wake then 8 else 2

theorem handleRank_le (e : UInt64) : handleRank e ≤ 8 := by
  unfold handleRank
  split_ifs <;> omega

theorem handleRank_pos (e : UInt64) : 1 < handleRank e := by
  unfold handleRank
  split_ifs <;> omega

/-- A bound for the steps of the caller after its callee has returned. -/
def Frame.rank : Frame → ℕ
  | .switchEvents rest => 1 + (rest.map handleRank).sum
  | .scheduled _ | .wakeRunning _ | .wakeBlocked => 1

/-- A bound for the steps of the function on top of the stack. -/
def Control.rank {τ : Type} : Control τ → ℕ
  | .loop _ => 0
  | .schedule => 8
  | .handle e => handleRank e
  | .assign _ _ _ => 7
  | .switching _ => 5
  | .ret _ => 1

namespace Server

variable {τ : Type} {s t : Server τ} {i : Input} {tid : Int32}

/-- A bound for the steps of the call that is under way, when every context switch reports one event
that is not a `WAKE`. -/
def rank (s : Server τ) : ℕ := s.control.rank + (s.stack.map Frame.rank).sum

theorem Move.rank_lt (hm : Move s i t) (hcall : i ≠ .schedule ∧ ∀ e, i ≠ .event e)
    (hreport : ∀ a errno, i = .switched a errno → a.ret = 0 →
      (a.reported.map handleRank).sum ≤ 2) : t.rank < s.rank := by
  cases hm with
  | callSchedule => exact absurd rfl hcall.1
  | callHandle => exact absurd rfl (hcall.2 _)
  | noWorker hc | noTask hc | take hc | failedSchedule hc | failedWake hc | switchFailed hc =>
    simp [rank, hc, Control.rank, requeue]
  | sentSchedule hc | sentWake hc =>
    simp only [rank, hc, Control.rank, List.map_cons, List.sum_cons, Frame.rank]
    omega
  | @block e hc | @wakeDone e hc | @wakeNoTask e id hc | @ignored e hc | @wait e w hc | @exit e hc
  | @invalid e hc =>
    have := handleRank_pos e
    simpa [rank, hc, Control.rank] using this
  | wakeTake hc he => simp [rank, hc, Control.rank, handleRank, he]
  | wakeBlocked hc he =>
    simp only [rank, hc, Control.rank, handleRank, he, List.map_cons, List.sum_cons, Frame.rank]
    simp only [if_pos]
    omega
  | @switched tid a errno hc ha =>
    have := hreport a errno rfl ha
    simp only [rank, hc, Control.rank, List.map_cons, List.sum_cons, Frame.rank]
    omega
  | returned hc | eventsDone hc hs | scheduled hc hs | scheduleFailed hc hs | woken hc hs
  | wakeFailed hc hs | resumed hc hs => simp [rank, *, Control.rank, Frame.rank]
  | nextEvent hc hs | eventFailed hc hs =>
    simp only [rank, hc, hs, ret, Control.rank, List.map_cons, List.sum_cons, Frame.rank]
    omega

/-! ### Who sets a blocked worker to `Running` -/

theorem mem_keys_of_status {st : WorkerStatus} (h : s.status tid = some st) :
    tid ∈ s.workers.keys := by
  obtain ⟨w, hw, -⟩ := Option.map_eq_some_iff.mp h
  exact s.workers.mem_keys_of_get? hw

/-- A record that is updated to another status than `Running` is not `Running`. -/
private theorem not_running_of_update {st : WorkerStatus} {v : Int32} (hst : st ≠ .running)
    (hb : s.status tid = some .blocked)
    (hr : (if tid = v then (s.status tid).map fun _ => st else s.status tid) = some .running) :
    False := by
  split_ifs at hr
  · simp [hb, hst] at hr
  · simp [hb] at hr

/-- A blocked worker is set to `Running` only for its `WAKE`, and then the server switches to it. -/
theorem Move.switching_of_status (hm : Move s i t) (hb : s.status tid = some .blocked)
    (hr : t.status tid = some .running) : t.control = .switching tid := by
  have hsame : t.status tid ≠ s.status tid := by simp [hb, hr]
  cases hm with
  | callSchedule | callHandle | noWorker | noTask | ignored | invalid | sentSchedule | sentWake
  | switchFailed | switched | returned | nextEvent | eventsDone | eventFailed | scheduled | woken
  | resumed => exact absurd rfl hsame
  | @take v task q hc hw hq =>
    have hst := (status_updateWorkerStatus_eq s v .running (some task.id) tid).symm.trans hr
    split_ifs at hst with hv
    · subst hv
      simp [status_of_waitingWorker hw] at hb
    · exact absurd (hr.trans hst.symm) hsame
  | block hc he =>
    exact (not_running_of_update (by simp) hb
      ((status_updateWorkerStatusKeepTask_eq s _ _ tid).symm.trans hr)).elim
  | wakeDone | wakeNoTask | wait | exit | scheduleFailed | wakeFailed | failedSchedule
  | failedWake =>
    exact (not_running_of_update (by simp) hb
      ((status_updateWorkerStatus_eq s _ _ _ tid).symm.trans hr)).elim
  | @wakeTake e id task q hc he hw =>
    by_cases hv : tid = workerTid e
    · subst hv
      simp [status, hw] at hb
    · have hst := status_updateWorkerStatus_eq (s.updateWorkerStatus (workerTid e) .waiting none)
        (workerTid e) .running (some task.id) tid
      rw [if_neg hv] at hst
      have hst' := status_updateWorkerStatus_eq s (workerTid e) .waiting none tid
      rw [if_neg hv] at hst'
      exact absurd (hst.trans hst') hsame
  | @wakeBlocked e current hc he hw =>
    have hst := (status_updateWorkerStatus_eq s (workerTid e) .running current tid).symm.trans hr
    split_ifs at hst with hv
    · rw [hv]
    · exact absurd (hr.trans hst.symm) hsame

end Server

/-! ### The steps inside of a call -/

namespace MachineStep

variable {τ : Type}

/-- A step inside of a call of `run_server`, or of a worker thread. -/
def inside : MachineStep τ → Bool
  | .schedule | .recv _ | .submit _ | .unblock _ => false
  | .tau | .send | .fail _ | .resume | .worker _ _ | .stop _ | .wait | .waitError | .exit => true

/-- A step of the thread of the server, or the end of its context switch. -/
def ofServer : MachineStep τ → Bool
  | .tau | .send | .fail _ | .stop _ | .wait | .exit => true
  | .schedule | .recv _ | .submit _ | .unblock _ | .resume | .worker _ _ | .waitError => false

/-- What a step of the machine is for the thread of the server. -/
inductive Answers : MachineStep τ → Input → Prop
  | tau : Answers .tau .tau
  | sent {ok : Bool} : Answers .send (.sent ok)
  | failed {errno : Int} : Answers (.fail errno) (.switched .failure errno)
  | stopped {k : StopKind} {tid : Int32} :
      Answers (.stop k) (.switched (.report (eventOf tid k.event)) 0)
  | waits {tid : Int32} : Answers .wait (.switched (.report (eventOf tid .wait)) 0)
  | exits {tid : Int32} : Answers .exit (.switched (.report (eventOf tid .exit)) 0)

theorem Answers.not_call {a : MachineStep τ} {i : Input} (h : a.Answers i) :
    i ≠ .schedule ∧ ∀ e, i ≠ .event e := by
  cases h <;> simp

/-- A context switch reports one event, which is not a `WAKE`. -/
theorem Answers.reported_le {a : MachineStep τ} {i : Input} (h : a.Answers i) (b : SwitchAnswer)
    (errno : Int) (hi : i = .switched b errno) (hret : b.ret = 0) :
    (b.reported.map handleRank).sum ≤ 2 := by
  have hreport : ∀ (tid : Int32) (t : UmcgEventType), t ≠ .wake →
      ((SwitchAnswer.report (eventOf tid t)).reported.map handleRank).sum ≤ 2 := by
    intro tid t ht
    simp [reported_eventOf, handleRank, ht]
  cases h with
  | tau | sent => cases hi
  | failed =>
    cases hi
    cases hret
  | @stopped k =>
    cases hi
    exact hreport _ _ (by cases k <;> simp [StopKind.event])
  | waits | exits =>
    cases hi
    exact hreport _ _ (by simp)

end MachineStep

namespace Machine

variable {τ : Type} {m m' : Machine τ} {a : MachineStep τ} {p : Position}

theorem server_of_inside (ha : a.inside = true) (h : m.step a = some m') :
    a.ofServer = false ∧ m'.server = m.server ∨
      a.ofServer = true ∧ ∃ i, a.Answers i ∧ m.server.step i = some m'.server := by
  cases move_of_step h with
  | schedule | recv | submit | unblocked => cases ha
  | tau ht => exact .inr ⟨rfl, _, .tau, ht⟩
  | sent _ _ ht | sentNothing _ ht | sendFailed _ _ ht => exact .inr ⟨rfl, _, .sent, ht⟩
  | failed _ _ ht => exact .inr ⟨rfl, _, .failed, ht⟩
  | resumed | worker | waitError => exact .inl ⟨rfl, rfl⟩
  | stopped _ hx ht =>
    cases hx with
    | stop => exact .inr ⟨rfl, _, .stopped, ht⟩
    | wait => exact .inr ⟨rfl, _, .waits, ht⟩
    | exit => exact .inr ⟨rfl, _, .exits, ht⟩

/-- The events that are on their way do not matter inside of a call. -/
theorem step_inbox (ha : a.inside = true) (h : m.step a = some m') (inbox : List UInt64) :
    Machine.step { m with inbox := inbox } a = some { m' with inbox := inbox } := by
  have hmap : ∀ {o : Option (Server τ)} {k k' : Machine τ}, o.map k.setServer = some k' →
      o.map (Machine.setServer { k with inbox := inbox }) = some { k' with inbox := inbox } := by
    rintro (_ | s) k k' hk <;> cases hk
    rfl
  have hcpu : Machine.onCpu { m with inbox := inbox } = m.onCpu := rfl
  cases a with
  | schedule | recv | submit | unblock => cases ha
  | tau => exact hmap h
  | send =>
    simp only [step, send] at h ⊢
    split at h <;> try cases h
    split at h
    · split at h
      · exact hmap h
      · exact hmap h
    · exact hmap h
  | fail errno =>
    simp only [step, fail] at h ⊢
    split at h <;> try cases h
    split_ifs at h ⊢
    exact hmap h
  | resume =>
    simp only [step, resume] at h ⊢
    split at h <;> try cases h
    split_ifs at h ⊢
    cases h
    rfl
  | worker tid x =>
    simp only [step, workerStep] at h ⊢
    split_ifs at h ⊢
    obtain ⟨k, hk, rfl⟩ := Option.map_eq_some_iff.mp h
    exact Option.map_eq_some_iff.mpr ⟨k, hk, rfl⟩
  | stop k =>
    simp only [step, hcpu] at h ⊢
    split at h
    · exact hmap h
    · cases h
  | wait =>
    simp only [step, hcpu] at h ⊢
    split at h
    · obtain ⟨k, hk, h⟩ := Option.bind_eq_some_iff.mp h
      exact Option.bind_eq_some_iff.mpr ⟨k, hk, hmap h⟩
    · cases h
  | waitError =>
    simp only [step, hcpu] at h ⊢
    split at h
    · obtain ⟨k, hk, rfl⟩ := Option.map_eq_some_iff.mp h
      exact Option.map_eq_some_iff.mpr ⟨k, hk, rfl⟩
    · cases h
  | exit =>
    simp only [step, hcpu] at h ⊢
    split at h
    · obtain ⟨k, hk, h⟩ := Option.bind_eq_some_iff.mp h
      exact Option.bind_eq_some_iff.mpr ⟨k, hk, hmap h⟩
    · cases h

/-- The invariant does not depend on the guards and on the task queue. -/
theorem IdleAt.congr (h : m.IdleAt p) (hc : m'.server.control = m.server.control)
    (hs : m'.server.stack = m.server.stack) (hst : m'.server.status = m.server.status)
    (hthread : m'.thread = m.thread) (hpark : m'.park = m.park) (hinbox : m'.inbox = m.inbox) :
    m'.IdleAt p := by
  obtain ⟨s, thread, park, inbox⟩ := m'
  dsimp only at hc hs hst hthread hpark hinbox
  subst hthread hpark hinbox
  have hasleep : ∀ v, m.Asleep p v → Machine.Asleep ⟨s, m.thread, m.park, m.inbox⟩ p v :=
    fun v => Or.imp_left fun hv => (congrFun hst v).trans hv
  refine ⟨h.server.congr hc hs, ?_, h.running, h.tasks,
    fun v hv => h.free v ((congrFun hst v).symm.trans hv), h.nodup, fun e he => ?_,
    fun v hv => ⟨(h.blocked v hv).1, hasleep v (h.blocked v hv).2⟩⟩
  · have hok := h.ok
    cases p with
    | outside | returning => trivial
    | _ => simpa only [PosOk, hst] using hok
  · obtain ⟨v, rfl, hready, hv⟩ := h.wakes e he
    exact ⟨v, rfl, hready, hasleep v hv⟩

/-- Under `StartsTasks` a context switch that is made to start a task succeeds and reports an event
that is known. -/
theorem IdleAt.switchesWell (h : m.IdleAt p) (hok : m.StartsTasks a) {i : Input}
    (ha : a.Answers i) {s : Server τ} (hstep : m.server.step i = some s) :
    m.server.SwitchesWell i := by
  have hcaught : ∀ {b errno}, m.server.step (.switched b errno) = some s →
      m.server.startsTask = false → m.server.stack.any Frame.catches = true := by
    intro b errno hb hstart
    obtain ⟨tid, hc⟩ : ∃ tid, m.server.control = .switching tid := by
      simp only [Server.step] at hb
      split at hb
      · exact ⟨_, ‹_›⟩
      · cases hb
    obtain ⟨start, rfl⟩ := h.server.eq_inside hc
    obtain rfl := start_eq_false h.server hstart
    simp [h.server.1, Frame.caller, Frame.catches]
  have hknown : ∀ (tid : Int32) (t : UmcgEventType), t = .block ∨ t = .wait ∨ t = .exit →
      m.server.SwitchesWell (.switched (.report (eventOf tid t)) 0) := by
    rintro tid t ht -
    refine ⟨rfl, fun e he => ?_⟩
    rw [reported_eventOf, List.mem_singleton] at he
    rcases ht with rfl | rfl | rfl <;> simp [he, knownEvent]
  cases ha with
  | tau | sent => trivial
  | failed => exact fun hnot => absurd (hcaught hstep hok) (by simp [hnot])
  | @stopped k tid =>
    cases k with
    | block => exact hknown tid .block (.inl rfl)
    | preempt => exact fun hnot => absurd (hcaught hstep hok) (by simp [hnot])
  | waits => exact hknown _ .wait (.inr (.inl rfl))
  | exits => exact hknown _ .exit (.inr (.inr rfl))

end Machine

end Umcg.Pool
