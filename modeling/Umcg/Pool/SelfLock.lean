import Umcg.Pool.Bookkeeping

/-!
# When the server thread locks a mutex that it owns

The `WAKE` of a worker that is recorded as running, with a task, while tasks are queued, is handled
inside of

`if let Some((worker, tx)) = self.worker_pool.workers.lock().unwrap().get(..).map(..)`,

and the guard of the scrutinee lives to the end of the body. In the body the thread locks the pool
again on every path but one: the send succeeds, and the context switch succeeds without an event.

While a call runs, tasks are added to the queue at any point: the thread releases the queue before
every send and every context switch, and the worker that it has switched to, or any other thread,
calls `add_task`. So what is queued does not protect a call. What does is that no worker is recorded
with a task (`Server.Calm`), which nothing in the calls changes. Otherwise the kernel can lead every
context switch there, by reporting a `BLOCK` and two `WAKE`s of a worker with a task.

## Main results

* `Server.Safe.step` : from a calm state no step locks an owned mutex.
* `Server.neverRelocks_iff` : for each of the three functions, the states of the pool from which no
  answer of the kernel, no failure of a send and no added task makes the thread lock a mutex that it
  owns.
-/

namespace Umcg.Pool

/-- A call of one of the three functions. -/
inductive Call
  | handleUmcgEvent (event : UInt64)
  | contextSwitchWorker (worker_tid : Int32)
  | trySchedule
  deriving DecidableEq, Repr

/-- What happens inside of a call: all but the calls of `run_server`. -/
def Input.IsAnswer : Input → Prop
  | .schedule | .event _ => False
  | _ => True

instance (i : Input) : Decidable i.IsAnswer :=
  match i with
  | .schedule | .event _ => .isFalse id
  | .tau | .sent _ | .switched _ _ => .isTrue trivial

namespace Server

variable {τ : Type} {s t : Server τ} {i : Input} {tid : Int32}

/-- The thread, which owns no mutex, calls a function. -/
def enter (s : Server τ) (c : Call) : Server τ :=
  { s with
    guards := .none
    stack := []
    control :=
      match c with
      | .handleUmcgEvent e => .handle e
      | .contextSwitchWorker tid => .switching tid
      | .trySchedule => .schedule }

/-- What happens while a call runs: the thread goes on, and other threads add tasks. -/
def DuringCall (_ : Server τ) : PoolInput τ → Prop
  | .startWorker _ | .workerReady _ => False
  | .addTask _ _ => True
  | .input i => i.IsAnswer

instance (s : Server τ) : (x : PoolInput τ) → Decidable (s.DuringCall x)
  | .startWorker _ | .workerReady _ => .isFalse id
  | .addTask _ _ => .isTrue trivial
  | .input i => inferInstanceAs (Decidable i.IsAnswer)

/-- No worker is recorded with a task. -/
def Calm (s : Server τ) : Prop := ∀ tid w, s.workers.get? tid = some w → w.current_task = none

/-- The states in which a call can end with the thread waiting for itself. -/
def Hazard (s : Server τ) : Call → Prop
  | .handleUmcgEvent e => eventType e = some .wake ∧
      ((∃ id, s.workers.get? (workerTid e) = some ⟨.running, some id⟩) ∨
        (∃ c, s.workers.get? (workerTid e) = some ⟨.blocked, c⟩) ∧ ¬ s.Calm)
  | .contextSwitchWorker _ => ¬ s.Calm
  | .trySchedule => s.waitingWorker ≠ none

/-! ### Calls that are safe -/

/-- What the records of the workers become keeps the state calm: each loses its task or keeps
it. -/
private theorem Calm.of (h : s.Calm)
    (hw : ∀ tid w, t.workers.get? tid = some w →
      w.current_task = none ∨ ∃ v, s.workers.get? tid = some v ∧ w.current_task = v.current_task) :
    t.Calm := by
  intro tid w htid
  rcases hw tid w htid with hnone | ⟨v, hv, hsame⟩
  · exact hnone
  · exact hsame.trans (h tid v hv)

/-- The thread is inside of a call in a calm state, with no guard alive; neither the call nor one of
its callers hands over a task. -/
structure Safe (s : Server τ) : Prop where
  guards : s.guards = .none
  calm : s.Calm
  wakeRunning : ∀ tid, .wakeRunning tid ∉ s.stack
  scheduled : ∀ tid, .scheduled tid ∉ s.stack
  schedule : s.control ≠ .schedule
  assign : ∀ tid task site, s.control ≠ .assign tid task site

private theorem calm_updateWorkerStatus (h : s.Calm) (st : WorkerStatus) {task : Option ℕ}
    (htask : task = none ∨ ∃ st', s.workers.get? tid = some ⟨st', task⟩) :
    (s.updateWorkerStatus tid st task).Calm := by
  refine h.of fun v w hv => ?_
  rw [updateWorkerStatus_get?] at hv
  split_ifs at hv with hvt
  · obtain ⟨w', hw', rfl⟩ := Option.map_eq_some_iff.mp hv
    rcases htask with hnone | ⟨st', hst⟩
    · exact .inl hnone
    · exact .inr ⟨⟨st', task⟩, hvt ▸ hst, rfl⟩
  · exact .inr ⟨w, hv, rfl⟩

private theorem calm_updateWorkerStatusKeepTask (h : s.Calm) (st : WorkerStatus) :
    (s.updateWorkerStatusKeepTask tid st).Calm := by
  refine h.of fun v w hv => ?_
  rw [updateWorkerStatusKeepTask_get?] at hv
  split_ifs at hv with hvt
  · obtain ⟨w', hw', rfl⟩ := Option.map_eq_some_iff.mp hv
    exact .inr ⟨w', hw', rfl⟩
  · exact .inr ⟨w, hv, rfl⟩

/-- From a calm state no step locks an owned mutex. -/
theorem Safe.step (h : Safe s) (hi : i.IsAnswer) (hm : Move s i t) : Safe t := by
  have hwake {f fs} (hs : s.stack = f :: fs) (tid : Int32) : .wakeRunning tid ∉ fs := fun ht =>
    h.wakeRunning tid (hs ▸ List.mem_cons_of_mem _ ht)
  have hsched {f fs} (hs : s.stack = f :: fs) (tid : Int32) : .scheduled tid ∉ fs := fun ht =>
    h.scheduled tid (hs ▸ List.mem_cons_of_mem _ ht)
  cases hm
  case callSchedule | callHandle => exact hi.elim
  case noWorker hc _ | noTask hc _ _ | take hc _ _ => exact absurd hc h.schedule
  case sentSchedule hc _ | sentWake hc _ | failedSchedule hc _ | failedWake hc _ =>
    exact absurd hc (h.assign _ _ _)
  case woken hs | wakeFailed hs => exact absurd (hs ▸ List.mem_cons_self) (h.wakeRunning _)
  case scheduled hs | scheduleFailed hs =>
    exact absurd (hs ▸ List.mem_cons_self) (h.scheduled _)
  case wakeNoTask hw _ | wakeTake hw _ => cases h.calm _ _ hw
  case block =>
    exact ⟨by simp [h.guards], calm_updateWorkerStatusKeepTask h.calm _, h.wakeRunning, h.scheduled,
      by simp, by simp⟩
  case wakeDone | wait =>
    exact ⟨by simp [h.guards], calm_updateWorkerStatus (s := s.readWorkers) h.calm _ (.inl rfl),
      h.wakeRunning, h.scheduled, by simp, by simp⟩
  case wakeBlocked hw =>
    exact ⟨by simp [h.guards],
      calm_updateWorkerStatus (s := s.readWorkers) h.calm _ (.inr ⟨_, hw⟩),
      fun tid => by simpa using h.wakeRunning tid, fun tid => by simpa using h.scheduled tid,
      by simp, by simp⟩
  case ignored =>
    exact ⟨by simp [h.guards], h.calm, h.wakeRunning, h.scheduled, by simp, by simp⟩
  case exit =>
    exact ⟨by simp [h.guards], calm_updateWorkerStatus h.calm _ (.inl rfl), h.wakeRunning,
      h.scheduled, by simp, by simp⟩
  case invalid | switchFailed | returned =>
    exact ⟨h.guards, h.calm, h.wakeRunning, h.scheduled, by simp, by simp⟩
  case switched =>
    exact ⟨h.guards, h.calm, fun tid => by simpa using h.wakeRunning tid,
      fun tid => by simpa using h.scheduled tid, by simp, by simp⟩
  case nextEvent hs =>
    exact ⟨h.guards, h.calm, fun tid => by simpa using hwake hs tid,
      fun tid => by simpa using hsched hs tid, by simp, by simp⟩
  case eventsDone hs | eventFailed hs | resumed hs =>
    exact ⟨h.guards, h.calm, hwake hs, hsched hs, by simp, by simp⟩

/-- The call is about to return to `run_server`, or has returned. -/
structure Done (s : Server τ) : Prop where
  guards : s.guards = .none
  stack : s.stack = []
  control : (∃ r, s.control = .ret r) ∨ ∃ r, s.control = .loop r

private theorem Done.step (h : Done s) (hi : i.IsAnswer) (hm : Move s i t) : Done t := by
  have hstack := h.stack
  rcases h.control with ⟨r, hr⟩ | ⟨r, hr⟩
  · cases hm
    case returned => exact ⟨h.guards, hstack, .inr ⟨_, rfl⟩⟩
    all_goals simp_all
  · cases hm
    case callSchedule | callHandle => exact hi.elim
    all_goals simp_all

private theorem Calm.safe_enter (h : s.Calm) {c : Call} (hc : c ≠ .trySchedule) :
    Safe (s.enter c) := by
  refine ⟨rfl, h, by simp [enter], by simp [enter], ?_, fun tid task site => ?_⟩ <;>
    cases c <;> simp_all [enter]

/-- `try_schedule_tasks` without a waiting worker. -/
private theorem done_of_schedule (hn : ¬ s.Hazard .trySchedule)
    (hm : Move (s.enter .trySchedule) i t) : Done t := by
  have hnone : (s.enter .trySchedule).waitingWorker = none := not_not.mp hn
  have hguards : (s.enter .trySchedule).guards = .none := rfl
  cases hm
  case noWorker => exact ⟨by simp [hguards], rfl, .inl ⟨_, rfl⟩⟩
  case noTask hw _ | take hw _ => cases hnone.symm.trans hw
  all_goals simp_all [enter]

/-- The first step of `handle_umcg_event` in a state without hazard. -/
private theorem safe_or_done_of_handle {e : UInt64} (hn : ¬ s.Hazard (.handleUmcgEvent e))
    (hi : i.IsAnswer) (hm : Move (s.enter (.handleUmcgEvent e)) i t) : Safe t ∨ Done t := by
  by_cases hcalm : s.Calm
  · exact .inl ((hcalm.safe_enter (by simp)).step hi hm)
  have hguards : (s.enter (.handleUmcgEvent e)).guards = .none := rfl
  cases hm
  case block | wakeDone | ignored | wait | exit | invalid =>
    exact .inr ⟨by simp [hguards], rfl, .inl ⟨_, rfl⟩⟩
  case wakeNoTask hc he hw _ | wakeTake hc he hw _ =>
    cases hc
    exact absurd ⟨he, .inl ⟨_, hw⟩⟩ hn
  case wakeBlocked hc he hw =>
    cases hc
    exact absurd ⟨he, .inr ⟨⟨_, hw⟩, hcalm⟩⟩ hn
  all_goals simp_all [enter]

/-! ### Calls that are not -/

/-- The states that the thread can reach before the call returns. -/
def Reaches (s t : Server τ) : Prop := ∃ l, Run (Guarded stepPool DuringCall) s l t

private theorem Reaches.cons {u : Server τ} (hi : i.IsAnswer) (hst : s.step i = some t)
    (h : Reaches t u) : Reaches s u := by
  obtain ⟨l, hl⟩ := h
  exact ⟨.input i :: l, Run.cons ⟨hi, hst⟩ hl⟩

/-- Another thread sees to it that a task is queued. -/
private theorem exists_queued [Inhabited τ] (hcap : 0 < s.queue.pending.cap) :
    ∃ q : TaskQueue τ, q.waiting ≠ [] ∧ 0 < q.pending.cap ∧
      ∀ u, Reaches { s with queue := q } u → Reaches s u := by
  by_cases hq : s.queue.waiting = []
  · have hnil : s.queue.pending.items = [] := (List.append_eq_nil_iff.mp hq).2
    refine ⟨s.queue.enqueue (.new 0 default), ?_, ?_, fun u ⟨l, hl⟩ => ?_⟩
    · rw [TaskQueue.waiting_enqueue_new, if_pos (by rwa [hnil])]
      simp
    · rwa [TaskQueue.enqueue_cap]
    · exact ⟨.addTask 0 default :: l, Run.cons ⟨trivial, rfl⟩ hl⟩
  · exact ⟨s.queue, hq, hcap, fun _ hu => hu⟩

/-- A context switch reports an event, which is handled. -/
private theorem Reaches.report {u : Server τ} {a : SwitchAnswer} {e : UInt64} {rest : List UInt64}
    (hc : s.control = .switching tid) (ha : a.ret = 0) (hr : a.reported = e :: rest)
    (h : Reaches { s with stack := .switchEvents rest :: s.stack, control := .handle e } u) :
    Reaches s u := by
  have h₁ : s.step (.switched a 0) = some { s with
      stack := .switchEvents (e :: rest) :: s.stack, control := .ret .ok } := by
    simp [step, hc, switched, ha, hr]
  exact .cons (i := .switched a 0) trivial h₁ (.cons (i := .tau) trivial rfl h)

/-- A reported `BLOCK` is handled, and then the next event of the buffer. -/
private theorem Reaches.block {u : Server τ} {e e' : UInt64} {rest : List UInt64}
    {stack : List Frame} (hc : s.control = .handle e) (he : eventType e = some .block)
    (hs : s.stack = .switchEvents (e' :: rest) :: stack)
    (h : Reaches { s.updateWorkerStatusKeepTask (workerTid e) .blocked with
      stack := .switchEvents rest :: stack, control := .handle e' } u) : Reaches s u := by
  have h₁ : s.step .tau = some ((s.updateWorkerStatusKeepTask (workerTid e) .blocked).ret .ok) := by
    simp [step, hc, handleEvent, he]
  refine .cons (i := .tau) trivial h₁ (.cons (i := .tau) trivial ?_ h)
  simp [step, resume, hs]

/-- The `WAKE` of a blocked worker is handled. -/
private theorem Reaches.wakeBlocked {u : Server τ} {e : UInt64} {c : Option ℕ}
    (hc : s.control = .handle e) (he : eventType e = some .wake)
    (hw : s.workers.get? (workerTid e) = some ⟨.blocked, c⟩)
    (h : Reaches { s.readWorkers.updateWorkerStatus (workerTid e) .running c with
      stack := .wakeBlocked :: s.stack, control := .switching (workerTid e) } u) :
    Reaches s u := by
  refine .cons (i := .tau) trivial ?_ h
  simp [step, hc, handleEvent, he, hw]

/-- In the body of the `if let`: the context switch fails. -/
private theorem relocks_of_assign {task : TaskEntry τ} (hc : s.control = .assign tid task .wake)
    (hg : .workers ∈ s.guards.owned) : ∃ t, s.Reaches t ∧ t.guards.relocked = true := by
  have h₁ : s.step (.sent true) = some { s with
      stack := .wakeRunning tid :: s.stack, control := .switching tid } := by
    simp [step, hc, assigned, TaskEntry.assignTask_true]
  refine ⟨_, .cons (i := .sent true) trivial h₁ (.cons (i := .switched .failure 0) trivial rfl
    (.cons (i := .tau) trivial rfl ⟨[], .nil⟩)), ?_⟩
  simp [switched, SwitchAnswer.failure, resume, hg]

/-- The `WAKE` of a running worker with a task, before which a task is queued. -/
private theorem relocks_of_wakeRunning [Inhabited τ] {e : UInt64} {id : ℕ}
    (hc : s.control = .handle e) (he : eventType e = some .wake)
    (hw : s.workers.get? (workerTid e) = some ⟨.running, some id⟩)
    (hcap : 0 < s.queue.pending.cap) : ∃ t, s.Reaches t ∧ t.guards.relocked = true := by
  have hk := s.workers.mem_keys_of_get? hw
  obtain ⟨q₀, hq₀, -, hreach⟩ := exists_queued hcap
  obtain ⟨⟨task, q⟩, hnext⟩ : ∃ x, (q₀.removeInProgress id).getNextTask = some x := by
    refine Option.ne_none_iff_exists'.mp fun hnone => hq₀ ?_
    simpa using TaskQueue.getNextTask_eq_none_iff.mp hnone
  obtain ⟨t, ht, htc, htg⟩ : ∃ t, { s with queue := q₀ }.step .tau = some t ∧
      t.control = .assign (workerTid e) task .wake ∧ .workers ∈ t.guards.owned := by
    refine ⟨{ s with queue := q₀ }.handleEvent e, by simp only [step, hc], ?_⟩
    simp [handleEvent, he, hw, wakeRunning, hnext, take_workers, hk]
  obtain ⟨u, hu, hrelocked⟩ := relocks_of_assign htc htg
  exact ⟨u, hreach u (.cons (i := .tau) trivial ht hu), hrelocked⟩

/-- A context switch reports a `BLOCK` and a `WAKE` of a worker with a task; it is resumed, and
that switch reports another `WAKE`. -/
private theorem relocks_of_switching [Inhabited τ] (hc : s.control = .switching tid)
    (hn : ¬ s.Calm) (hcap : 0 < s.queue.pending.cap) :
    ∃ t, s.Reaches t ∧ t.guards.relocked = true := by
  simp only [Calm, not_forall] at hn
  obtain ⟨v, ⟨st, current⟩, hv, htask⟩ := hn
  obtain ⟨id, rfl⟩ := Option.ne_none_iff_exists'.mp htask
  have hid := workerId_shiftedId v
  have htid := workerTid_eventWord v
  have hne : ∀ ev, eventWord (shiftedId v) ev ≠ 0 := fun ev =>
    ne_zero_of_eventType (eventType_eventWord hid ev)
  have hblock := eventType_eventWord hid .block
  have hwake := eventType_eventWord hid .wake
  -- the state in which the second `WAKE` is handled
  have hlast : ∀ {u : Server τ}, u.control = .switching v → u.queue = s.queue →
      u.workers.get? v = some ⟨.running, some id⟩ →
      ∃ t, u.Reaches t ∧ t.guards.relocked = true := by
    intro u huc huq huv
    obtain ⟨t, ht, hrelocked⟩ := relocks_of_wakeRunning
      (s := { u with stack := .switchEvents [] :: u.stack,
                     control := .handle (eventWord (shiftedId v) .wake) })
      rfl hwake (by rw [htid]; exact huv) (by rwa [← huq] at hcap)
    exact ⟨t, .report (a := .report (eventWord (shiftedId v) .wake)) huc rfl
      (SwitchAnswer.report_reported (hne _)) ht, hrelocked⟩
  obtain ⟨t, ht, hrelocked⟩ := hlast
    (u := { (s.updateWorkerStatusKeepTask v .blocked).readWorkers.updateWorkerStatus v .running
        (some id) with
      stack := .wakeBlocked :: .switchEvents [] :: s.stack, control := .switching v }) rfl rfl
    (by simp [updateWorkerStatus_get?, updateWorkerStatusKeepTask_get?, hv])
  refine ⟨t, ?_, hrelocked⟩
  have hboth : (⟨0, eventWord (shiftedId v) .block, eventWord (shiftedId v) .wake⟩ :
      SwitchAnswer).reported = [eventWord (shiftedId v) .block, eventWord (shiftedId v) .wake] := by
    simp [SwitchAnswer.reported, hne]
  refine .report hc rfl hboth (.block rfl hblock rfl ?_)
  refine .wakeBlocked (c := some id) rfl hwake ?_ ?_
  · rw [htid, htid]
    change (s.updateWorkerStatusKeepTask v .blocked).workers.get? v = _
    simp [updateWorkerStatusKeepTask_get?, hv]
  · rw [htid, htid]
    exact ht

/-- `handle_umcg_event` on the `WAKE` of a blocked worker. -/
private theorem relocks_of_wakeBlocked [Inhabited τ] {e : UInt64} {current : Option ℕ}
    (he : eventType e = some .wake)
    (hw : s.workers.get? (workerTid e) = some ⟨.blocked, current⟩) (hn : ¬ s.Calm)
    (hcap : 0 < s.queue.pending.cap) :
    ∃ t, (s.enter (.handleUmcgEvent e)).Reaches t ∧ t.guards.relocked = true := by
  have hn' : ¬ ((s.enter (.handleUmcgEvent e)).readWorkers.updateWorkerStatus (workerTid e)
      .running current).Calm := by
    refine fun h => hn (h.of fun v w hv => .inr ?_)
    rw [updateWorkerStatus_get?]
    split_ifs with hvt
    · subst hvt
      obtain rfl : ⟨.blocked, current⟩ = w := Option.some.inj (hw.symm.trans hv)
      exact ⟨⟨.running, current⟩, by simp [enter, hw], rfl⟩
    · exact ⟨w, hv, rfl⟩
  obtain ⟨t, ht, hrelocked⟩ := relocks_of_switching
    (s := { (s.enter (.handleUmcgEvent e)).readWorkers.updateWorkerStatus (workerTid e)
        .running current with
      stack := [.wakeBlocked], control := .switching (workerTid e) }) rfl hn' hcap
  exact ⟨t, .wakeBlocked rfl he hw ht, hrelocked⟩

/-- `try_schedule_tasks` with a waiting worker, for which a task is queued. -/
private theorem relocks_of_schedule [Inhabited τ] (hw : s.waitingWorker ≠ none)
    (hcap : 0 < s.queue.pending.cap) :
    ∃ t, (s.enter .trySchedule).Reaches t ∧ t.guards.relocked = true := by
  obtain ⟨tid, htid⟩ := Option.ne_none_iff_exists'.mp hw
  have hk : tid ∈ s.workers.keys := List.mem_of_find?_eq_some htid
  obtain ⟨q₀, hq₀, hcap₀, hreach⟩ := exists_queued (s := s.enter .trySchedule) hcap
  obtain ⟨⟨task, q⟩, hnext⟩ : ∃ x, q₀.getNextTask = some x :=
    Option.ne_none_iff_exists'.mp fun hnone => hq₀ (TaskQueue.getNextTask_eq_none_iff.mp hnone)
  obtain ⟨v, hv⟩ : ∃ v : Server τ, v = { s.enter .trySchedule with queue := q₀ } := ⟨_, rfl⟩
  obtain ⟨u, hu⟩ : ∃ u : Server τ, u = (v.readWorkers.lock .taskQueue).take tid task q := ⟨_, rfl⟩
  have h₁ : v.step .tau =
      some { u.unlock .taskQueue with control := .assign tid task .schedule } := by
    have hw' : v.waitingWorker = some tid := by rw [hv]; exact htid
    have hnext' : v.queue.getNextTask = some (task, q) := by rw [hv]; exact hnext
    have hc' : v.control = .schedule := by rw [hv]; rfl
    subst hu
    simp only [step, hc', trySchedule, hw', lock_queue, readWorkers_queue, hnext']
  have h₂ : step { u.unlock .taskQueue with control := .assign tid task .schedule } (.sent true) =
      some { u.unlock .taskQueue with
        stack := .scheduled tid :: u.stack, control := .switching tid } := by
    simp [step, assigned, TaskEntry.assignTask_true]
  -- the worker has the task that it is sent, so the state is not calm any more
  have hn : ¬ u.Calm := fun hnone => by
    have := hnone tid ⟨.running, some task.id⟩ (by
      simp [hu, hv, take_workers, updateWorkerStatus_get?, enter, s.workers.get?_of_mem hk])
    simp at this
  have hcap' : 0 < u.queue.pending.cap := by
    rw [hu, take_queue]
    exact (TaskQueue.cap_of_getNextTask hnext).symm ▸ hcap₀
  obtain ⟨t, ht, hrelocked⟩ := relocks_of_switching
    (s := { u.unlock .taskQueue with
      stack := .scheduled tid :: u.stack, control := .switching tid }) rfl hn hcap'
  refine ⟨t, hreach t ?_, hrelocked⟩
  rw [← hv]
  exact .cons (i := .tau) trivial h₁ (.cons (i := .sent true) trivial h₂ ht)

private theorem relocks_of_hazard [Inhabited τ] {c : Call} (h : s.Hazard c)
    (hcap : 0 < s.queue.pending.cap) :
    ∃ t, (s.enter c).Reaches t ∧ t.guards.relocked = true := by
  cases c with
  | handleUmcgEvent e =>
    obtain ⟨he, ⟨id, hw⟩ | ⟨⟨current, hw⟩, hcalm⟩⟩ := h
    · exact relocks_of_wakeRunning rfl he hw hcap
    · exact relocks_of_wakeBlocked he hw hcalm hcap
  | contextSwitchWorker tid => exact relocks_of_switching rfl h hcap
  | trySchedule => exact relocks_of_schedule h hcap

/-- Whatever has happened to the queue, the call has not begun, or it is safe, or it is over. -/
def Clear (s : Server τ) (c : Call) (t : Server τ) : Prop :=
  (∃ q, t = { s with queue := q }.enter c) ∨ Safe t ∨ Done t

/-- A task that is added changes the queue only. -/
private theorem Clear.addTask {c : Call} {t : Server τ} (h : s.Clear c t)
    (q : TaskQueue τ) : s.Clear c { t with queue := q } := by
  rcases h with ⟨q', rfl⟩ | h | h
  · exact .inl ⟨q, rfl⟩
  · exact .inr (.inl ⟨h.guards, h.calm, h.wakeRunning, h.scheduled, h.schedule, h.assign⟩)
  · exact .inr (.inr ⟨h.guards, h.stack, h.control⟩)

theorem Clear.step {c : Call} {u v : Server τ} {x : PoolInput τ} (h : s.Clear c u)
    (hn : ¬ s.Hazard c) (hx : DuringCall u x) (hstep : stepPool u x = some v) : s.Clear c v := by
  cases x with
  | startWorker | workerReady => exact hx.elim
  | addTask id task =>
    cases hstep
    exact h.addTask _
  | input i =>
    have hm := move_of_step hstep
    right
    rcases h with ⟨q, rfl⟩ | h | h
    · cases c with
      | handleUmcgEvent e => exact safe_or_done_of_handle (s := { s with queue := q }) hn hx hm
      | contextSwitchWorker tid =>
        have hcalm : { s with queue := q }.Calm := not_not.mp hn
        exact .inl ((hcalm.safe_enter (by simp)).step hx hm)
      | trySchedule => exact .inr (done_of_schedule (s := { s with queue := q }) hn hm)
    · exact .inl (h.step hx hm)
    · exact .inr (h.step hx hm)

theorem Clear.relocked {c : Call} {t : Server τ} (h : s.Clear c t) :
    t.guards.relocked = false := by
  rcases h with ⟨q, rfl⟩ | h | h
  · rfl
  · rw [h.guards]
    rfl
  · rw [h.guards]
    rfl

/-- For every state of the pool and the queue and every call: whatever the kernel answers, whichever
sends fail and whatever tasks are added while the call runs, the thread never locks a mutex that it
owns, if and only if the state is not a hazard for the call. An empty queue has room for a task, as
an `ArrayQueue` has. -/
theorem neverRelocks_iff [Inhabited τ] (s : Server τ) (c : Call)
    (hcap : 0 < s.queue.pending.cap) :
    (∀ l t, Run (Guarded stepPool DuringCall) (s.enter c) l t → t.guards.relocked = false) ↔
      ¬ s.Hazard c := by
  constructor
  · intro h hazard
    obtain ⟨t, ⟨l, hl⟩, hrelocked⟩ := relocks_of_hazard hazard hcap
    simp [h l t hl] at hrelocked
  · intro hn l t hrun
    have hclear : s.Clear c t := hrun.invariant (I := s.Clear c) (.inl ⟨s.queue, rfl⟩)
      fun _ _ _ h hs => h.step hn hs.1 hs.2
    exact hclear.relocked

/-- A worker with the task 1, and another task in the queue. -/
def oneBusy : Server ℕ where
  workers := oneRecord ⟨.running, some 1⟩
  queue := TaskQueue.new.enqueue (.new 2 20)
  guards := .none
  stack := []
  control := .loop .ok

/-- `handle_umcg_event` on the `WAIT` of the busy worker is safe. -/
theorem neverRelocks_iff_oneBusy : 0 < oneBusy.queue.pending.cap ∧
    ∀ l t, Run (Guarded stepPool DuringCall)
      (oneBusy.enter (.handleUmcgEvent (eventWord (shiftedId 7) .wait))) l t →
        t.guards.relocked = false := by
  have hcap : 0 < oneBusy.queue.pending.cap := by decide
  have hn : ¬ oneBusy.Hazard (.handleUmcgEvent (eventWord (shiftedId 7) .wait)) := fun h =>
    absurd h.1 (by decide)
  exact ⟨hcap, (neverRelocks_iff oneBusy _ hcap).mpr hn⟩

/-- The next task is sent, and the context switch to the worker succeeds and reports its `WAIT`. -/
def nextTaskWaits : List (PoolInput ℕ) :=
  [.input .tau, .input (.sent true),
    .input (.switched (.report (eventWord (shiftedId 7) .wait)) 0), .input .tau, .input .tau]

/-- The `WAKE` of a running worker, the answers to the send and to the switch being successes: the
`WAIT` of the worker is handled while the guard of the `if let` is alive. -/
theorem relocks_nextTaskWaits :
    ∃ t, Run (Guarded stepPool DuringCall)
        (oneBusy.enter (.handleUmcgEvent (eventWord (shiftedId 7) .wake))) nextTaskWaits t ∧
      t.guards.relocked = true :=
  ⟨_, run_trace (by decide +kernel), by decide +kernel⟩

end Server

end Umcg.Pool
