import Umcg.Pool.Server

/-!
# What a step of the server thread of `lib.rs` can do

`Server.Move` lists the steps of the thread case by case: the point of control, the branch that is
taken and the resulting state. `Server.move_of_step` says that nothing else happens. The workers of
the pool never change (`Server.Move.keys`), and neither do the capacities of the queues.
-/

namespace Umcg.Pool

namespace Guards

variable (g : Guards) (m : Mutex)

@[simp] theorem lock_owned : (g.lock m).owned = m :: g.owned := rfl
@[simp] theorem lock_relocked : (g.lock m).relocked = (g.relocked || m ∈ g.owned) := rfl
@[simp] theorem unlock_owned : (g.unlock m).owned = g.owned.erase m := rfl
@[simp] theorem unlock_relocked : (g.unlock m).relocked = g.relocked := rfl

@[simp] theorem none_lock_unlock : (Guards.none.lock m).unlock m = Guards.none := by
  cases m <;> rfl

@[simp] theorem none_lock_lock_unlock_unlock : (((Guards.none.lock .taskQueue).lock
    .workers).unlock .workers).unlock .taskQueue = Guards.none := rfl

end Guards

namespace Server

variable {τ : Type} {s t : Server τ} {i : Input} {tid : Int32}

/-! ### Fields of the elementary updates -/

section Fields

variable (s : Server τ) (m : Mutex) (tid : Int32) (st : WorkerStatus) (task : Option ℕ)
  (r : Outcome)

@[simp] theorem lock_workers : (s.lock m).workers = s.workers := rfl
@[simp] theorem lock_queue : (s.lock m).queue = s.queue := rfl
@[simp] theorem lock_stack : (s.lock m).stack = s.stack := rfl
@[simp] theorem lock_control : (s.lock m).control = s.control := rfl
@[simp] theorem lock_guards : (s.lock m).guards = s.guards.lock m := rfl

@[simp] theorem unlock_workers : (s.unlock m).workers = s.workers := rfl
@[simp] theorem unlock_queue : (s.unlock m).queue = s.queue := rfl
@[simp] theorem unlock_stack : (s.unlock m).stack = s.stack := rfl
@[simp] theorem unlock_control : (s.unlock m).control = s.control := rfl
@[simp] theorem unlock_guards : (s.unlock m).guards = s.guards.unlock m := rfl

@[simp] theorem ret_workers : (s.ret r).workers = s.workers := rfl
@[simp] theorem ret_queue : (s.ret r).queue = s.queue := rfl
@[simp] theorem ret_stack : (s.ret r).stack = s.stack := rfl
@[simp] theorem ret_control : (s.ret r).control = .ret r := rfl
@[simp] theorem ret_guards : (s.ret r).guards = s.guards := rfl

@[simp] theorem readWorkers_workers : s.readWorkers.workers = s.workers := rfl
@[simp] theorem readWorkers_queue : s.readWorkers.queue = s.queue := rfl
@[simp] theorem readWorkers_stack : s.readWorkers.stack = s.stack := rfl

@[simp] theorem readWorkers_guards :
    s.readWorkers.guards = (s.guards.lock .workers).unlock .workers := rfl

theorem updateWorkerStatus_workers : (s.updateWorkerStatus tid st task).workers =
    if tid ∈ s.workers.keys then s.workers.set tid ⟨st, task⟩ else s.workers := rfl

@[simp] theorem updateWorkerStatus_queue : (s.updateWorkerStatus tid st task).queue = s.queue := rfl
@[simp] theorem updateWorkerStatus_stack : (s.updateWorkerStatus tid st task).stack = s.stack := rfl

@[simp] theorem updateWorkerStatus_control :
    (s.updateWorkerStatus tid st task).control = s.control := rfl

@[simp] theorem updateWorkerStatus_guards : (s.updateWorkerStatus tid st task).guards =
    (s.guards.lock .workers).unlock .workers := rfl

@[simp] theorem updateWorkerStatus_keys :
    (s.updateWorkerStatus tid st task).workers.keys = s.workers.keys := by
  rw [updateWorkerStatus_workers]
  split_ifs <;> rfl

@[simp] theorem updateWorkerStatusKeepTask_queue :
    (s.updateWorkerStatusKeepTask tid st).queue = s.queue := rfl

@[simp] theorem updateWorkerStatusKeepTask_stack :
    (s.updateWorkerStatusKeepTask tid st).stack = s.stack := rfl

@[simp] theorem updateWorkerStatusKeepTask_guards : (s.updateWorkerStatusKeepTask tid st).guards =
    (s.guards.lock .workers).unlock .workers := rfl

@[simp] theorem take_queue (e : TaskEntry τ) (q : TaskQueue τ) :
    (s.take tid e q).queue = q.markInProgress e.id tid := rfl

@[simp] theorem take_stack (e : TaskEntry τ) (q : TaskQueue τ) :
    (s.take tid e q).stack = s.stack := rfl

@[simp] theorem take_guards (e : TaskEntry τ) (q : TaskQueue τ) :
    (s.take tid e q).guards = (s.guards.lock .workers).unlock .workers := rfl

theorem take_workers (e : TaskEntry τ) (q : TaskQueue τ) :
    (s.take tid e q).workers = (s.updateWorkerStatus tid .running (some e.id)).workers := rfl

end Fields

/-- The record of a worker after an update of its status. -/
theorem updateWorkerStatus_get? (s : Server τ) (tid : Int32) (st : WorkerStatus)
    (task : Option ℕ) (v : Int32) : (s.updateWorkerStatus tid st task).workers.get? v =
      if v = tid then (s.workers.get? v).map fun _ => ⟨st, task⟩ else s.workers.get? v := by
  rw [updateWorkerStatus_workers]
  by_cases hk : tid ∈ s.workers.keys
  · rw [if_pos hk, s.workers.get?_set hk]
    split_ifs with hv
    · rw [hv, s.workers.get?_of_mem hk, Option.map_some]
    · rfl
  · rw [if_neg hk]
    split_ifs with hv
    · rw [hv, s.workers.get?_eq_none_iff.mpr hk, Option.map_none]
    · rfl

/-- The record of a worker after an update of its status that keeps the task. -/
theorem updateWorkerStatusKeepTask_get? (s : Server τ) (tid : Int32) (st : WorkerStatus)
    (v : Int32) : (s.updateWorkerStatusKeepTask tid st).workers.get? v =
      if v = tid then (s.workers.get? v).map fun w => { w with status := st }
      else s.workers.get? v := by
  unfold updateWorkerStatusKeepTask
  dsimp only [lock_workers, unlock_workers]
  cases hw : s.workers.get? tid with
  | some w =>
    dsimp only
    rw [s.workers.get?_set (s.workers.mem_keys_of_get? hw)]
    split_ifs with hv
    · rw [hv, hw, Option.map_some]
    · rfl
  | none =>
    dsimp only
    split_ifs with hv
    · rw [hv, hw, Option.map_none]
    · rfl

@[simp] theorem updateWorkerStatusKeepTask_keys (s : Server τ) (tid : Int32)
    (st : WorkerStatus) : (s.updateWorkerStatusKeepTask tid st).workers.keys = s.workers.keys := by
  unfold updateWorkerStatusKeepTask
  dsimp only [lock_workers, unlock_workers]
  split <;> rfl

/-! ### The cases of a step -/

/-- The steps of the thread of a server. -/
inductive Move (s : Server τ) : Input → Server τ → Prop
  | callSchedule {r : Outcome} (hc : s.control = .loop r) :
      Move s .schedule { s with control := .schedule }
  | callHandle {r : Outcome} {e : UInt64} (hc : s.control = .loop r) :
      Move s (.event e) { s with control := .handle e }
  | noWorker (hc : s.control = .schedule) (hw : s.waitingWorker = none) :
      Move s .tau (s.readWorkers.ret .ok)
  | noTask {tid : Int32} (hc : s.control = .schedule) (hw : s.waitingWorker = some tid)
      (hq : s.queue.getNextTask = none) :
      Move s .tau (((s.readWorkers.lock .taskQueue).unlock .taskQueue).ret .ok)
  | take {tid : Int32} {task : TaskEntry τ} {q : TaskQueue τ} (hc : s.control = .schedule)
      (hw : s.waitingWorker = some tid) (hq : s.queue.getNextTask = some (task, q)) :
      Move s .tau { ((s.readWorkers.lock .taskQueue).take tid task q).unlock .taskQueue with
        control := .assign tid task .schedule }
  | block {e : UInt64} (hc : s.control = .handle e) (he : eventType e = some .block) :
      Move s .tau ((s.updateWorkerStatusKeepTask (workerTid e) .blocked).ret .ok)
  | wakeDone {e : UInt64} (hc : s.control = .handle e) (he : eventType e = some .wake)
      (hw : s.workers.get? (workerTid e) = some ⟨.running, none⟩) :
      Move s .tau ((s.readWorkers.updateWorkerStatus (workerTid e) .waiting none).ret .ok)
  | wakeNoTask {e : UInt64} {id : ℕ} (hc : s.control = .handle e)
      (he : eventType e = some .wake)
      (hw : s.workers.get? (workerTid e) = some ⟨.running, some id⟩)
      (hq : s.queue.waiting = []) :
      Move s .tau
        ((({ (s.readWorkers.updateWorkerStatus (workerTid e) .waiting none).lock .taskQueue with
            queue := s.queue.removeInProgress id }).unlock .taskQueue).ret .ok)
  | wakeTake {e : UInt64} {id : ℕ} {task : TaskEntry τ} {q : TaskQueue τ}
      (hc : s.control = .handle e) (he : eventType e = some .wake)
      (hw : s.workers.get? (workerTid e) = some ⟨.running, some id⟩)
      (hq : (s.queue.removeInProgress id).getNextTask = some (task, q)) :
      Move s .tau
        { ((((s.readWorkers.updateWorkerStatus (workerTid e) .waiting none).lock
            .taskQueue).take (workerTid e) task q).unlock .taskQueue).lock .workers with
          control := .assign (workerTid e) task .wake }
  | wakeBlocked {e : UInt64} {current : Option ℕ} (hc : s.control = .handle e)
      (he : eventType e = some .wake)
      (hw : s.workers.get? (workerTid e) = some ⟨.blocked, current⟩) :
      Move s .tau { s.readWorkers.updateWorkerStatus (workerTid e) .running current with
        stack := .wakeBlocked :: s.stack, control := .switching (workerTid e) }
  | ignored {e : UInt64} (hc : s.control = .handle e)
      (he : eventType e = some .wake ∧ (∀ c, s.workers.get? (workerTid e) ≠ some ⟨.running, c⟩ ∧
          s.workers.get? (workerTid e) ≠ some ⟨.blocked, c⟩) ∨
        eventType e = some .wait ∧ ∀ w, s.workers.get? (workerTid e) = some w →
          w.status = .waiting) :
      Move s .tau (s.readWorkers.ret .ok)
  | wait {e : UInt64} {w : Worker} (hc : s.control = .handle e) (he : eventType e = some .wait)
      (hw : s.workers.get? (workerTid e) = some w) (hst : w.status ≠ .waiting) :
      Move s .tau ((s.readWorkers.updateWorkerStatus (workerTid e) .waiting none).ret .ok)
  | exit {e : UInt64} (hc : s.control = .handle e) (he : eventType e = some .exit) :
      Move s .tau ((s.updateWorkerStatus (workerTid e) .completed none).ret .ok)
  | invalid {e : UInt64} (hc : s.control = .handle e)
      (he : eventType e ≠ some .block ∧ eventType e ≠ some .wake ∧ eventType e ≠ some .wait ∧
        eventType e ≠ some .exit) :
      Move s .tau (s.ret (.err (.invalidWorkerEvent (workerTid e).toInt64.toUInt64 e)))
  | sentSchedule {tid : Int32} {task : TaskEntry τ} {ok : Bool}
      (hc : s.control = .assign tid task .schedule) (ha : task.assignTask ok = .ok ()) :
      Move s (.sent ok) { s with stack := .scheduled tid :: s.stack, control := .switching tid }
  | sentWake {tid : Int32} {task : TaskEntry τ} {ok : Bool}
      (hc : s.control = .assign tid task .wake) (ha : task.assignTask ok = .ok ()) :
      Move s (.sent ok) { s with stack := .wakeRunning tid :: s.stack, control := .switching tid }
  | failedSchedule {tid : Int32} {task failed : TaskEntry τ} {ok : Bool}
      (hc : s.control = .assign tid task .schedule) (ha : task.assignTask ok = .error failed) :
      Move s (.sent ok) ((s.requeue tid failed).ret .ok)
  | failedWake {tid : Int32} {task failed : TaskEntry τ} {ok : Bool}
      (hc : s.control = .assign tid task .wake) (ha : task.assignTask ok = .error failed) :
      Move s (.sent ok) (((s.requeue tid failed).unlock .workers).ret .ok)
  | switchFailed {tid : Int32} {a : SwitchAnswer} {errno : Int} (hc : s.control = .switching tid)
      (ha : a.ret ≠ 0) : Move s (.switched a errno) (s.ret (.err (.systemError errno)))
  | switched {tid : Int32} {a : SwitchAnswer} {errno : Int} (hc : s.control = .switching tid)
      (ha : a.ret = 0) : Move s (.switched a errno)
        { s with stack := .switchEvents a.reported :: s.stack, control := .ret .ok }
  | returned {r : Outcome} (hc : s.control = .ret r) (hs : s.stack = []) :
      Move s .tau { s with control := .loop r }
  | nextEvent {e : UInt64} {rest : List UInt64} {stack : List Frame} (hc : s.control = .ret .ok)
      (hs : s.stack = .switchEvents (e :: rest) :: stack) :
      Move s .tau { s with stack := .switchEvents rest :: stack, control := .handle e }
  | eventsDone {stack : List Frame} (hc : s.control = .ret .ok)
      (hs : s.stack = .switchEvents [] :: stack) : Move s .tau ({ s with stack := stack }.ret .ok)
  | eventFailed {err : ServerError} {rest : List UInt64} {stack : List Frame}
      (hc : s.control = .ret (.err err)) (hs : s.stack = .switchEvents rest :: stack) :
      Move s .tau ({ s with stack := stack }.ret (.err err))
  | scheduled {tid : Int32} {stack : List Frame} (hc : s.control = .ret .ok)
      (hs : s.stack = .scheduled tid :: stack) : Move s .tau ({ s with stack := stack }.ret .ok)
  | scheduleFailed {err : ServerError} {tid : Int32} {stack : List Frame}
      (hc : s.control = .ret (.err err)) (hs : s.stack = .scheduled tid :: stack) :
      Move s .tau
        (({ s with stack := stack }.updateWorkerStatus tid .waiting none).ret (.err err))
  | woken {tid : Int32} {stack : List Frame} (hc : s.control = .ret .ok)
      (hs : s.stack = .wakeRunning tid :: stack) :
      Move s .tau (({ s with stack := stack }.unlock .workers).ret .ok)
  | wakeFailed {err : ServerError} {tid : Int32} {stack : List Frame}
      (hc : s.control = .ret (.err err)) (hs : s.stack = .wakeRunning tid :: stack) :
      Move s .tau ((({ s with stack := stack }.updateWorkerStatus tid .waiting none).unlock
        .workers).ret .ok)
  | resumed {r : Outcome} {stack : List Frame} (hc : s.control = .ret r)
      (hs : s.stack = .wakeBlocked :: stack) : Move s .tau ({ s with stack := stack }.ret .ok)

private theorem move_trySchedule (hc : s.control = .schedule) : Move s .tau s.trySchedule := by
  unfold trySchedule
  dsimp only
  split
  · exact .noWorker hc ‹_›
  · split
    · exact .noTask hc ‹_› ‹_›
    · exact .take hc ‹_› ‹_›

private theorem move_wakeRunning {e : UInt64} {current : Option ℕ} (hc : s.control = .handle e)
    (he : eventType e = some .wake)
    (hw : s.workers.get? (workerTid e) = some ⟨.running, current⟩) :
    Move s .tau (s.readWorkers.wakeRunning (workerTid e) current) := by
  have hk : workerTid e ∈ s.workers.keys := s.workers.mem_keys_of_get? hw
  cases current with
  | none => exact .wakeDone hc he hw
  | some id =>
    unfold wakeRunning
    dsimp only
    split
    · rename_i hq
      have := TaskQueue.getNextTask_eq_none_iff.mp hq
      exact .wakeNoTask hc he hw this
    · rw [if_pos (by simpa [take_workers] using hk)]
      exact .wakeTake hc he hw ‹_›

private theorem move_handleEvent {e : UInt64} (hc : s.control = .handle e) :
    Move s .tau (s.handleEvent e) := by
  unfold handleEvent
  dsimp only
  split
  · exact .block hc ‹_›
  · rename_i he
    split
    · exact move_wakeRunning hc he ‹_›
    · exact .wakeBlocked hc he ‹_›
    · rename_i hr hb
      exact .ignored hc (.inl ⟨he, fun c => ⟨hr c, hb c⟩⟩)
  · rename_i he
    split
    · rename_i w hw
      split_ifs with hst
      · exact .wait hc he hw hst
      · exact .ignored hc (.inr ⟨he, fun w' h => by cases hw.symm.trans h; exact not_not.mp hst⟩)
    · rename_i hw
      exact .ignored hc (.inr ⟨he, fun w h => by cases hw.symm.trans h⟩)
  · exact .exit hc ‹_›
  · rename_i h₁ h₂ h₃ h₄
    exact .invalid hc ⟨h₁, h₂, h₃, h₄⟩

private theorem move_assigned {task : TaskEntry τ} {site : Site} {ok : Bool}
    (hc : s.control = .assign tid task site) :
    Move s (.sent ok) (s.assigned tid task ok site) := by
  unfold assigned
  split
  · exact .sentSchedule hc ‹_›
  · exact .sentWake hc ‹_›
  · exact .failedSchedule hc ‹_›
  · exact .failedWake hc ‹_›

private theorem move_switched {a : SwitchAnswer} {errno : Int} (hc : s.control = .switching tid) :
    Move s (.switched a errno) (s.switched a errno) := by
  unfold switched
  split_ifs with ha
  · exact .switchFailed hc ha
  · exact .switched hc (not_not.mp ha)

private theorem move_resume {r : Outcome} (hc : s.control = .ret r) :
    Move s .tau (s.resume r) := by
  unfold resume
  split
  · exact .returned hc ‹_›
  · split
    · exact .nextEvent hc ‹_›
    · exact .eventsDone hc ‹_›
    · exact .eventFailed hc ‹_›
  · dsimp only
    split
    · exact .scheduled hc ‹_›
    · exact .scheduleFailed hc ‹_›
  · dsimp only
    split
    · exact .woken hc ‹_›
    · exact .wakeFailed hc ‹_›
  · exact .resumed hc ‹_›

/-- Every step of the thread is one of the cases of `Move`. -/
theorem move_of_step (h : s.step i = some t) : Move s i t := by
  cases i with
  | schedule =>
    simp only [step] at h
    split at h <;> cases h
    exact .callSchedule ‹_›
  | event e =>
    simp only [step] at h
    split at h <;> cases h
    exact .callHandle ‹_›
  | tau =>
    simp only [step] at h
    split at h <;> cases h
    · exact move_trySchedule ‹_›
    · exact move_handleEvent ‹_›
    · exact move_resume ‹_›
  | sent ok =>
    simp only [step] at h
    split at h <;> cases h
    exact move_assigned ‹_›
  | switched a errno =>
    simp only [step] at h
    split at h <;> cases h
    exact move_switched ‹_›

/-- No step changes the workers of the pool. -/
theorem Move.keys (h : Move s i t) : t.workers.keys = s.workers.keys := by
  cases h <;> simp [take_workers, requeue]

end Server

end Umcg.Pool
