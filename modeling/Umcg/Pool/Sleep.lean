import Umcg.Pool.Idle
import Umcg.Pool.RunServer

/-!
# Work that is left when a server goes to sleep

`run_server` calls `try_schedule_tasks` once before each `Wait`, and one call hands out at most one
task. So the server can go to sleep although a worker is `Waiting` and a task is queued: when there
were two of each, when a task is added while the call is under way, when the send fails, and when
the context switch of the call reports a `WAIT` or a `WAKE`.

`Runner.OneIsEnough` excludes these cases for the calls at the head of the loop. Then each of them
leaves the queue empty, or leaves no worker `Waiting` unless it returns an error
(`Server.NothingLeft`), and nothing but a new task changes this before the next `Wait`.

## Main results

* `Server.NothingLeft.enter` : what the look at the pool and at the queue leaves.
* `Server.NothingLeft.move` : the rest of the call leaves nothing else.
* `Runner.no_sleep_on_work` : the server does not go to sleep on available work.
-/

namespace Umcg.Pool

/-- The event makes no worker `Waiting`. -/
def quietEvent (event : UInt64) : Bool :=
  eventType event ≠ some .wait && eventType event ≠ some .wake

/-- The rest of the caller makes no worker `Waiting`, unless it is returned an error. -/
def Frame.Quiet : Frame → Prop
  | .switchEvents rest => ∀ e ∈ rest, quietEvent e = true
  | .scheduled _ => True
  | .wakeRunning _ | .wakeBlocked => False

namespace Control

variable {τ : Type}

/-- The call is about to return an error, or has returned one. -/
def failed : Control τ → Bool
  | .ret (.err _) | .loop (.err _) => true
  | _ => false

/-- `try_schedule_tasks` has looked at the queue and has not returned yet. -/
def underWay : Control τ → Bool
  | .loop _ | .schedule => false
  | _ => true

end Control

namespace Server

variable {τ : Type} {s t : Server τ} {i : Input} {tid : Int32}

/-- The workers that are `Waiting`. -/
def idleWorkers (s : Server τ) : List Int32 :=
  s.workers.keys.filter fun tid => (s.workers.value tid).status = .waiting

theorem mem_idleWorkers : tid ∈ s.idleWorkers ↔ s.status tid = some .waiting := by
  unfold idleWorkers status
  rw [List.mem_filter]
  by_cases hk : tid ∈ s.workers.keys
  · simp [hk, s.workers.get?_of_mem hk]
  · simp [hk, s.workers.get?_eq_none_iff.mpr hk]

theorem waitingWorker_eq_none (h : s.waitingWorker = none) (tid : Int32) :
    s.status tid ≠ some .waiting := by
  intro htid
  obtain ⟨hk, hst⟩ := List.mem_filter.mp (mem_idleWorkers.mpr htid)
  exact List.find?_eq_none.mp h tid hk hst

/-! ### What one call leaves -/

/-- An answer after which one hand-out was enough: at the look at the pool and the queue at most one
worker is `Waiting` or at most one task is queued, and while another task is queued, the send
succeeds and the context switch reports neither a `WAIT` nor a `WAKE`. -/
def OneIsEnough (s : Server τ) : Input → Prop
  | .tau =>
    match s.control with
    | .schedule => s.idleWorkers.length ≤ 1 ∨ s.queue.waiting.length ≤ 1
    | _ => True
  | .sent ok => ok = true ∨ s.queue.waiting = []
  | .switched a _ => s.queue.waiting = [] ∨ ∀ e ∈ a.reported, quietEvent e = true
  | .schedule | .event _ => True

instance (s : Server τ) : (i : Input) → Decidable (s.OneIsEnough i)
  | .tau => by
    unfold OneIsEnough
    dsimp only
    split <;> infer_instance
  | .sent _ => inferInstanceAs (Decidable (_ ∨ _))
  | .switched a _ =>
    have : Decidable (∀ e ∈ a.reported, quietEvent e = true) :=
      List.decidableBAll (fun e => quietEvent e = true) a.reported
    inferInstanceAs (Decidable (_ ∨ _))
  | .schedule | .event _ => inferInstanceAs (Decidable True)

/-- No worker is `Waiting`, and none will be before the call returns, unless it returns an error. -/
structure Busy (s : Server τ) : Prop where
  schedule : s.control ≠ .schedule
  handle : ∀ e, s.control = .handle e → quietEvent e = true
  assign : ∀ tid task, s.control ≠ .assign tid task .wake
  stack : ∀ f ∈ s.stack, f.Quiet
  status : s.control.failed = false → ∀ tid, s.status tid ≠ some .waiting

/-- No task is queued, or no worker is there for it. -/
def NothingLeft (s : Server τ) : Prop := s.queue.waiting = [] ∨ s.Busy

/-- A worker that gets another status than `Waiting`. -/
private theorem status_ne_of_update (s : Server τ) {st : WorkerStatus} (hst : st ≠ .waiting)
    (task : Option ℕ) (h : ∀ v, v ≠ tid → s.status v ≠ some .waiting) (v : Int32) :
    (s.updateWorkerStatus tid st task).status v ≠ some .waiting := by
  rw [status_updateWorkerStatus_eq]
  split_ifs with hv
  · cases s.status v <;> simp [hst]
  · exact h v hv

/-- `try_schedule_tasks` looks at the pool and at the queue. -/
theorem NothingLeft.enter (hc : s.control = .schedule) (hs : s.stack = [])
    (hi : s.OneIsEnough i) (hm : Move s i t) : t.NothingLeft := by
  cases hm
  case noWorker hw =>
    exact .inr ⟨by simp, by simp, by simp, by simp [hs], fun _ => waitingWorker_eq_none hw⟩
  case noTask hw hq => exact .inl (TaskQueue.getNextTask_eq_none_iff.mp hq)
  case take tid task q _ hw hq =>
    have hwaiting := TaskQueue.waiting_of_getNextTask hq
    simp only [OneIsEnough, hc] at hi
    rcases hi with hone | hone
    · -- the worker was the only one
      refine .inr ⟨by simp, by simp, by simp, by simp [hs], fun _ =>
        status_ne_of_update _ (by simp) _ fun v hv hst => hv ?_⟩
      have hv' : v ∈ s.idleWorkers := mem_idleWorkers.mpr hst
      have htid : tid ∈ s.idleWorkers := mem_idleWorkers.mpr (status_of_waitingWorker hw)
      obtain ⟨a, ha⟩ := List.length_eq_one_iff.mp
        (Nat.le_antisymm hone (List.length_pos_of_mem htid))
      rw [ha, List.mem_singleton] at hv' htid
      exact hv'.trans htid.symm
    · -- the task was the only one
      rw [hwaiting] at hone
      exact .inl (List.length_eq_zero_iff.mp (Nat.le_zero.mp (Nat.le_of_succ_le_succ hone)))
  all_goals simp_all

/-- `try_schedule_tasks` is called by `run_server` only. -/
theorem Move.control_ne_schedule (hi : i ≠ .schedule) (hm : Move s i t) :
    t.control ≠ .schedule := by
  cases hm with
  | callSchedule => exact absurd rfl hi
  | _ => simp

/-- No step of the thread adds a task to an empty queue. -/
theorem Move.waiting_eq_nil (hm : Move s i t) (h : s.queue.waiting = []) :
    t.queue.waiting = [] := by
  cases hm with
  | take hc hw hq =>
    have hwaiting := TaskQueue.waiting_of_getNextTask hq
    simp [h] at hwaiting
  | wakeTake hc he hw hq =>
    have hwaiting := TaskQueue.waiting_of_getNextTask hq
    simp [h] at hwaiting
  | @failedSchedule tid _ _ _ hc ha | @failedWake tid _ _ _ hc ha =>
    have hq := requeue_queue s tid (TaskEntry.assignTask_eq_error ha).2.1
    exact (congrArg TaskQueue.waiting hq).trans h
  | _ => exact h

theorem Busy.move (h : s.Busy) (hq : s.queue.waiting ≠ []) (hi : s.OneIsEnough i)
    (hcall : i ≠ .schedule ∧ ∀ e, i ≠ .event e) (hm : Move s i t) : t.Busy := by
  have htop {f : Frame} {stack : List Frame} (hs : s.stack = f :: stack) :
      f.Quiet ∧ ∀ f' ∈ stack, f'.Quiet := List.forall_mem_cons.mp (hs ▸ h.stack)
  have hquiet {e : UInt64} (hc : s.control = .handle e) :
      eventType e ≠ some .wait ∧ eventType e ≠ some .wake := by
    simpa [quietEvent] using h.handle e hc
  -- a step that returns or goes on with the same workers
  have hgo {u : Server τ} (hst : u.status = s.status) (hf : s.control.failed = false)
      (hstack : ∀ f ∈ u.stack, f.Quiet)
      (hc : u.control = .ret .ok ∨ u.control = .loop .ok ∨ ∃ tid, u.control = .switching tid) :
      u.Busy := by
    have hnone : ∀ tid, u.status tid ≠ some .waiting := hst ▸ h.status hf
    rcases hc with hc | hc | ⟨tid, hc⟩ <;>
      exact ⟨by simp [hc], by simp [hc], by simp [hc], hstack, fun _ => hnone⟩
  -- a step that returns an error
  have herr {u : Server τ} (hc : ∃ e, u.control = .ret (.err e) ∨ u.control = .loop (.err e))
      (hstack : ∀ f ∈ u.stack, f.Quiet) : u.Busy := by
    obtain ⟨e, hc | hc⟩ := hc <;>
      exact ⟨by simp [hc], by simp [hc], by simp [hc], hstack, by simp [hc, Control.failed]⟩
  cases hm
  case callSchedule => exact absurd rfl hcall.1
  case callHandle => exact absurd rfl (hcall.2 _)
  case noWorker hc _ | noTask hc _ _ | take hc _ _ => exact absurd hc h.schedule
  case sentWake hc _ | failedWake hc _ => exact absurd hc (h.assign _ _)
  case wakeDone hc he _ | wakeNoTask hc he _ _ | wakeTake hc he _ _ | wakeBlocked hc he _ =>
    exact absurd he (hquiet hc).2
  case wait hc he _ _ => exact absurd he (hquiet hc).1
  case ignored hc he =>
    rcases he with ⟨he, -⟩ | ⟨he, -⟩
    · exact absurd he (hquiet hc).2
    · exact absurd he (hquiet hc).1
  case block e hc he =>
    have hnone := h.status (by simp [hc, Control.failed])
    refine ⟨by simp, by simp, by simp, h.stack, fun _ v => ?_⟩
    change (s.updateWorkerStatusKeepTask (workerTid e) .blocked).status v ≠ some .waiting
    rw [status_updateWorkerStatusKeepTask_eq]
    split_ifs
    · cases s.status v <;> simp
    · exact hnone v
  case exit e hc he =>
    have hnone := h.status (by simp [hc, Control.failed])
    exact ⟨by simp, by simp, by simp, h.stack, fun _ =>
      status_ne_of_update s (by simp) _ fun v _ => hnone v⟩
  case invalid => exact herr ⟨_, .inl rfl⟩ h.stack
  case switchFailed => exact herr ⟨_, .inl rfl⟩ h.stack
  case sentSchedule tid _ _ hc _ =>
    exact hgo rfl (by simp [hc, Control.failed]) (List.forall_mem_cons.mpr ⟨trivial, h.stack⟩)
      (.inr (.inr ⟨_, rfl⟩))
  case failedSchedule hc ha =>
    obtain ⟨rfl, -⟩ := TaskEntry.assignTask_eq_error ha
    exact absurd hi (by simp [OneIsEnough, hq])
  case switched a _ hc _ =>
    exact hgo rfl (by simp [hc, Control.failed])
      (List.forall_mem_cons.mpr ⟨hi.resolve_left hq, h.stack⟩) (.inl rfl)
  case returned r hc hs =>
    cases r with
    | ok => exact hgo rfl (by simp [hc, Control.failed]) h.stack (.inr (.inl rfl))
    | err e => exact herr ⟨e, .inr rfl⟩ h.stack
  case nextEvent e rest stack hc hs =>
    obtain ⟨hevents, hstack⟩ := htop hs
    obtain ⟨he, hrest⟩ := List.forall_mem_cons.mp hevents
    refine ⟨by simp, fun e' he' => ?_, by simp, List.forall_mem_cons.mpr ⟨hrest, hstack⟩,
      fun _ => h.status (by simp [hc, Control.failed])⟩
    cases he'
    exact he
  case eventsDone hc hs | scheduled hc hs =>
    exact hgo rfl (by simp [hc, Control.failed]) (htop hs).2 (.inl rfl)
  case eventFailed hs | scheduleFailed hs => exact herr ⟨_, .inl rfl⟩ (htop hs).2
  case woken hs | wakeFailed hs | resumed hs => exact (htop hs).1.elim

/-- The rest of the call. -/
theorem NothingLeft.move (h : s.NothingLeft) (hi : s.OneIsEnough i)
    (hcall : i ≠ .schedule ∧ ∀ e, i ≠ .event e) (hm : Move s i t) : t.NothingLeft := by
  by_cases hq : s.queue.waiting = []
  · exact .inl (hm.waiting_eq_nil hq)
  · exact .inr ((h.resolve_left hq).move hq hi hcall hm)

end Server

namespace Runner

variable {τ : Type} {x y : Runner τ} {a : RunInput τ}

/-! ### The loop -/

/-- At the head of the loop one hand-out is enough, and no task is added while it is under way. -/
def OneIsEnough (x : Runner τ) : RunInput τ → Prop
  | .server i => x.pc = .scheduling none → x.server.OneIsEnough i
  | .addTask _ _ => x.pc = .scheduling none → x.server.control.underWay = false
  | _ => True

instance (x : Runner τ) : (a : RunInput τ) → Decidable (x.OneIsEnough a)
  | .server i => inferInstanceAs (Decidable (_ → x.server.OneIsEnough i))
  | .addTask _ _ => inferInstanceAs (Decidable (_ → _ = false))
  | .registered _ | .started _ | .elapsed | .waitedWorker _ _ | .waited _ _ _ | .tau
  | .addShutdown => inferInstanceAs (Decidable True)

/-- The call at the head of the loop has returned `Ok`, and the server is about to call `Wait`. -/
def AtWait (x : Runner τ) : Prop := x.pc = .scheduling none ∧ x.server.control = .loop .ok

/-- The only way into `Wait`. -/
theorem atWait_of_step (h : x.step .tau = some y) (hy : y.pc = .waiting) :
    x.AtWait ∧ y.server = x.server := by
  cases move_of_step h with
  | wait hpc hc => exact ⟨⟨hpc, hc⟩, rfl⟩
  | _ => simp [ret] at hy

/-- While the call at the head of the loop is under way, it leaves nothing. -/
structure SleepInv (x : Runner τ) : Prop where
  stack : ∀ r, x.server.control = .loop r → x.server.stack = []
  entry : x.server.control = .schedule → x.server.stack = []
  underWay : x.pc = .scheduling none → x.server.control.underWay = true → x.server.NothingLeft

theorem new_sleepInv (id total_workers : ℕ) : (new id total_workers : Runner τ).SleepInv :=
  ⟨fun _ _ => rfl, fun _ => rfl, by simp [new]⟩

/-- A call of `try_schedule_tasks` or of `handle_umcg_event` goes on. -/
private theorem SleepInv.nothingLeft (h : x.SleepInv) {i : Input} {t : Server τ}
    (hpc : x.pc = .scheduling none) (hok : x.server.OneIsEnough i)
    (hi : i ≠ .schedule ∧ ∀ e, i ≠ .event e) (hm : Server.Move x.server i t) : t.NothingLeft := by
  cases hu : x.server.control.underWay with
  | true => exact (h.underWay hpc hu).move hok hi hm
  | false =>
    cases hc : x.server.control <;> simp only [hc, Control.underWay, Bool.true_eq_false] at hu
    case schedule => exact .enter hc (h.entry hc) hok hm
    case loop r => cases hm <;> simp_all

theorem SleepInv.move (h : x.SleepInv) (hok : x.OneIsEnough a) (hm : x.Move a y) :
    y.SleepInv := by
  -- a step to a point outside of the call at the head of the loop
  have hout {z : Runner τ} (hc : z.server.control = x.server.control)
      (hs : z.server.stack = x.server.stack) (hpc : z.pc ≠ .scheduling none) : z.SleepInv :=
    ⟨hc ▸ hs ▸ h.stack, hc ▸ hs ▸ h.entry, fun hz => absurd hz hpc⟩
  cases hm with
  | server hpc hi hm =>
    exact ⟨fun r hc => hm.stack_of_loop hc, fun hc => absurd hc (hm.control_ne_schedule hi.1),
      fun hpc' _ => h.nothingLeft hpc' (hok hpc') hi hm⟩
  | addTask =>
    refine ⟨h.stack, h.entry, fun hpc hu => ?_⟩
    cases (hok hpc).symm.trans hu
  | addShutdown => exact ⟨h.stack, h.entry, h.underWay⟩
  | schedule hpc hc | handled hpc hc =>
    exact ⟨by simp, fun _ => h.stack _ hc, fun _ hu => by simp [Control.underWay] at hu⟩
  | firstEvent | nextEvent => exact ⟨by simp, by simp, by simp⟩
  | notReady => exact h
  | registered | ready => exact hout rfl rfl (nextWorker_pc_ne _ _ (by simp) (by simp))
  | registerFailed | started | elapsed | waitFailed | waitError | noEvents | leave | wait | again
  | scheduleFailed | shutdown => exact hout rfl rfl (by simp [ret])

/-- The call at the head of the loop has left nothing when it returns, and only a new task changes
this before `Wait`. -/
theorem SleepInv.atWait (h : x.SleepInv) (hok : x.OneIsEnough a) (hm : x.Move a y)
    (ha : ∀ id task, a ≠ .addTask id task) (hx : x.AtWait → x.server.NothingLeft)
    (hy : y.AtWait) : y.server.NothingLeft := by
  obtain ⟨hpc', hc'⟩ := hy
  cases hm with
  | server hpc hi hm => exact h.nothingLeft hpc' (hok hpc') hi hm
  | addTask => exact absurd rfl (ha _ _)
  | addShutdown => exact hx ⟨hpc', hc'⟩
  | notReady hpc => cases hpc.symm.trans hpc'
  | registered | ready => exact absurd hpc' (nextWorker_pc_ne _ _ (by simp) (by simp))
  | schedule => cases hc'
  | _ => simp [ret] at hpc'

/-- When one hand-out at the head of the loop is enough in every round, a server does not go to
sleep on available work: if a call has returned to `run_server` and no task has been added since,
then at the next `Wait` no worker is `Waiting` or neither queue holds a task. -/
theorem no_sleep_on_work (id total_workers : ℕ) (x y z u : Runner τ) (l l' : List (RunInput τ))
    (a : RunInput τ) (r : Outcome)
    (hrun : Run (Guarded step OneIsEnough) (new id total_workers) l x)
    (hreturn : Guarded step OneIsEnough x a y) (hx : ∀ r, x.server.control ≠ .loop r)
    (hy : y.server.control = .loop r) (hrest : Run (Guarded step OneIsEnough) y l' z)
    (hnone : ∀ b ∈ l', ∀ k task, b ≠ .addTask k task) (hwait : z.step .tau = some u)
    (hu : u.pc = .waiting) :
    ¬ ((∃ tid, u.server.status tid = some .waiting) ∧
      (u.server.queue.pending.items ≠ [] ∨ u.server.queue.preempted.items ≠ [])) := by
  have hI : x.SleepInv := hrun.invariant (new_sleepInv id total_workers) fun _ _ _ h hs =>
    h.move hs.1 (move_of_step hs.2)
  have hadd : ∀ k task, a ≠ .addTask k task := by
    rintro k task rfl
    cases hreturn.2
    exact hx r hy
  have hret : y.SleepInv ∧ (y.AtWait → y.server.NothingLeft) :=
    ⟨hI.move hreturn.1 (move_of_step hreturn.2), hI.atWait hreturn.1 (move_of_step hreturn.2) hadd
      fun hw => absurd hw.2 (hx _)⟩
  obtain ⟨-, hleft⟩ := hrest.invariant_of_labels
    (I := fun x => x.SleepInv ∧ (x.AtWait → x.server.NothingLeft)) hnone hret
    fun _ _ _ h ha hs => ⟨h.1.move hs.1 (move_of_step hs.2),
      h.1.atWait hs.1 (move_of_step hs.2) ha h.2⟩
  obtain ⟨hz, hserver⟩ := atWait_of_step hwait hu
  rintro ⟨⟨tid, htid⟩, hqueue⟩
  rw [hserver] at htid hqueue
  rcases hleft hz with hnil | hbusy
  · obtain ⟨hpre, hpend⟩ := List.append_eq_nil_iff.mp hnil
    exact hqueue.elim (· hpend) (· hpre)
  · exact hbusy.status (by simp [hz.2, Control.failed]) tid htid

/-- The workers register and two tasks are added. `try_schedule_tasks` gives the first one to the
worker 7, which blocks, and is about to return. -/
def firstOfTwo (tids : List Int32) : List (RunInput ℕ) :=
  [RunInput.registered 0] ++
    tids.flatMap (fun tid => [.started tid, .waitedWorker 0 (eventOf tid .wake)]) ++
    [RunInput.addTask 1 0, .addTask 2 0, .tau, .server .tau, .server (.sent true),
      .server (.switched (.report (eventOf 7 .block)) 0), .server .tau, .server .tau, .server .tau,
      .server .tau]

theorem no_sleep_on_work_oneWorker : ∃ x y z u : Runner ℕ,
    Run (Guarded step OneIsEnough) (new 0 1) (firstOfTwo [7]) x ∧
      Guarded step OneIsEnough x (.server .tau) y ∧ y.server.control = .loop .ok ∧
      Run (Guarded step OneIsEnough) y [.addShutdown] z ∧ z.step .tau = some u ∧
      u.pc = .waiting ∧ u.server.queue.pending.items ≠ [] ∧
      ¬ ((∃ tid, u.server.status tid = some .waiting) ∧
        (u.server.queue.pending.items ≠ [] ∨ u.server.queue.preempted.items ≠ [])) := by
  obtain ⟨x, y, z, u, hrun, hx, hreturn, hy, hrest, hwait, hu, hqueue⟩ : ∃ x y z u : Runner ℕ,
      Run (Guarded step OneIsEnough) (new 0 1) (firstOfTwo [7]) x ∧
      x.server.control = .ret .ok ∧ Guarded step OneIsEnough x (.server .tau) y ∧
      y.server.control = .loop .ok ∧ Run (Guarded step OneIsEnough) y [.addShutdown] z ∧
      z.step .tau = some u ∧ u.pc = .waiting ∧ u.server.queue.pending.items ≠ [] :=
    ⟨_, _, _, _, run_of_trace rfl, rfl, ⟨by decide +kernel, rfl⟩, rfl, run_of_trace rfl, rfl, rfl,
      by decide +kernel⟩
  exact ⟨x, y, z, u, hrun, hreturn, hy, hrest, hwait, hu, hqueue,
    no_sleep_on_work 0 1 x y z u _ _ _ .ok hrun hreturn (by simp [hx]) hy hrest (by simp) hwait hu⟩

/-- With two workers the server goes to sleep although the second one is `Waiting` and the second
task is queued. -/
theorem sleep_on_work_twoWorkers : ∃ x y u : Runner ℕ,
    Run (Guarded step fun _ _ => True) (new 0 2) (firstOfTwo [7, 9]) x ∧
      x.server.control = .ret .ok ∧ x.step (.server .tau) = some y ∧
      y.server.control = .loop .ok ∧ y.step .tau = some u ∧ u.pc = .waiting ∧
      u.server.status 9 = some .waiting ∧ u.server.queue.pending.items = [.new 2 0] :=
  ⟨_, _, _, run_of_trace rfl, rfl, rfl, rfl, rfl, rfl, rfl, rfl⟩

end Runner

end Umcg.Pool
