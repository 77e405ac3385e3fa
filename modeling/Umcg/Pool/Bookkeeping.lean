import Umcg.Pool.Transitions

/-!
# The records of the worker pool

A server of `lib.rs` writes down twice who works on what: in the worker pool, where the record of a
worker has a status and the id of its current task, and in the map `in_progress` of the task queue.
The functions of the server are called here in any order (`Server.stepPool`): `initialize_workers`
starts a worker or finds it ready, tasks are added, and `try_schedule_tasks` and
`handle_umcg_event` run with any answers.

The pool is right: a worker has a task exactly when it is `Running` or `Blocked`, and no two workers
have the same one. This rests on where the ids come from. A record gets an id only from the front of
the task queue, and the entry of a failed send, which could bring an id back, has lost its closure
and is not queued again. `Agrees` says it of the records and of the ids that are still queued.

The map is always empty. `mark_in_progress` changes an entry of the map, and nothing ever adds one.

## Main results

* `Server.Move.agrees` : every step keeps the records and the queue in agreement.
* `Server.current_task_iff` : the status and the task of every worker, in every state.
* `Server.in_progress_eq_nil` : no task is ever in `in_progress`.
* `Server.in_progress_idle` : so the map is right as long as no task is taken from the queue.
-/

namespace Umcg.Pool

/-! ### Records and queued ids -/

/-- The task of a worker, when the pool has a record of it. -/
def currentTask (r : Int32 → Option Worker) (tid : Int32) : Option ℕ :=
  (r tid).bind Worker.current_task

/-- The records `r` of the workers and the ids `ids` of the queued tasks agree: a worker has a task
exactly when it is busy, and no id is found in two places. -/
structure Agrees (r : Int32 → Option Worker) (ids : List ℕ) : Prop where
  busy : ∀ tid w, r tid = some w → w.current_task.isSome = w.status.busy
  inj : ∀ tid tid' id, currentTask r tid = some id → currentTask r tid' = some id → tid = tid'
  nodup : ids.Nodup
  queued : ∀ tid id, currentTask r tid = some id → id ∉ ids

namespace Agrees

variable {r r' : Int32 → Option Worker} {ids : List ℕ} {tid : Int32} {id : ℕ}

/-- No worker gets a task. -/
private theorem mono (h : Agrees r ids)
    (hbusy : ∀ v w, r' v = some w → w.current_task.isSome = w.status.busy)
    (hcur : ∀ v id, currentTask r' v = some id → currentTask r v = some id) : Agrees r' ids where
  busy := hbusy
  inj v v' id hv hv' := h.inj v v' id (hcur v id hv) (hcur v' id hv')
  nodup := h.nodup
  queued v id hv := h.queued v id (hcur v id hv)

/-- The task of a worker after the record of `tid` has changed. -/
private theorem currentTask_of_map {f : Worker → Worker} {v : Int32}
    (hr : ∀ v, r' v = if v = tid then (r v).map f else r v) (hv : currentTask r' v = some id) :
    (v = tid ∧ ∃ w, r v = some w ∧ (f w).current_task = some id) ∨
      v ≠ tid ∧ currentTask r v = some id := by
  unfold currentTask at hv ⊢
  rw [hr] at hv
  split_ifs at hv with heq
  · obtain ⟨w', hw', hid⟩ := Option.bind_eq_some_iff.mp hv
    obtain ⟨w, hw, rfl⟩ := Option.map_eq_some_iff.mp hw'
    exact .inl ⟨heq, w, hw, hid⟩
  · exact .inr ⟨heq, hv⟩

/-- The record of `tid` changes, and the worker keeps its task or loses it. -/
theorem update (h : Agrees r ids) (tid : Int32) (f : Worker → Worker)
    (hr : ∀ v, r' v = if v = tid then (r v).map f else r v)
    (hf : ∀ w, r tid = some w → (f w).current_task.isSome = (f w).status.busy)
    (htask : ∀ w, r tid = some w →
      (f w).current_task = none ∨ (f w).current_task = w.current_task) : Agrees r' ids := by
  refine h.mono (fun v w hw => ?_) fun v id hv => ?_
  · rw [hr] at hw
    split_ifs at hw with hv
    · obtain ⟨w', hw', rfl⟩ := Option.map_eq_some_iff.mp hw
      exact hf w' (hv ▸ hw')
    · exact h.busy v w hw
  · rcases currentTask_of_map hr hv with ⟨rfl, w, hw, hid⟩ | ⟨-, hid⟩
    · rcases htask w hw with hnone | hsame
      · simp [hnone] at hid
      · simpa [currentTask, hw, hsame] using hid
    · exact hid

/-- A worker gets the task in front of the queue. -/
theorem take (h : Agrees r (id :: ids)) (tid : Int32)
    (hr : ∀ v, r' v = if v = tid then (r v).map fun _ => ⟨.running, some id⟩ else r v) :
    Agrees r' ids := by
  obtain ⟨hnot, hnodup⟩ := List.nodup_cons.mp h.nodup
  have hcur : ∀ v id', currentTask r' v = some id' →
      v = tid ∧ id' = id ∨ v ≠ tid ∧ currentTask r v = some id' := by
    intro v id' hv
    rcases currentTask_of_map hr hv with ⟨heq, w, -, hid⟩ | hold
    · exact .inl ⟨heq, (Option.some.inj hid).symm⟩
    · exact .inr hold
  have hfresh : ∀ v, currentTask r v ≠ some id := fun v hv =>
    h.queued v id hv List.mem_cons_self
  refine ⟨fun v w hw => ?_, fun v v' id' hv hv' => ?_, hnodup, fun v id' hv => ?_⟩
  · rw [hr] at hw
    split_ifs at hw
    · obtain ⟨w', -, rfl⟩ := Option.map_eq_some_iff.mp hw
      rfl
    · exact h.busy v w hw
  · rcases hcur v id' hv with ⟨rfl, rfl⟩ | ⟨-, hv⟩ <;>
      rcases hcur v' _ hv' with ⟨rfl, heq⟩ | ⟨-, hv'⟩
    · rfl
    · exact absurd hv' (hfresh v')
    · exact absurd (heq ▸ hv) (hfresh v)
    · exact h.inj v v' id' hv hv'
  · rcases hcur v id' hv with ⟨-, rfl⟩ | ⟨-, hv⟩
    · exact hnot
    · exact fun hmem => h.queued v id' hv (List.mem_cons_of_mem id hmem)

/-- A new worker has no task. -/
theorem insert (h : Agrees r ids) (st : WorkerStatus) (hst : st.busy = false)
    (hr : ∀ v, r' v = if v = tid then some ⟨st, none⟩ else r v) : Agrees r' ids := by
  refine h.mono (fun v w hw => ?_) fun v id hv => ?_
  · rw [hr] at hw
    split_ifs at hw
    · cases hw
      exact hst.symm
    · exact h.busy v w hw
  · unfold currentTask at hv ⊢
    rw [hr] at hv
    split_ifs at hv
    · simp at hv
    · exact hv

/-- A task with a new id is queued. -/
theorem enqueue (h : Agrees r ids) (hids : id ∉ ids) (hr : ∀ v, currentTask r v ≠ some id) :
    Agrees r (ids ++ [id]) := by
  refine ⟨h.busy, h.inj, h.nodup.append (List.nodup_singleton id) ?_, fun v id' hv => ?_⟩
  · simpa [List.disjoint_singleton] using hids
  · rw [List.mem_append, List.mem_singleton]
    rintro (hmem | rfl)
    · exact h.queued v id' hv hmem
    · exact hr v hv

end Agrees

/-! ### The functions of a server in any order -/

/-- The control is at an event that is about to be handled. -/
def Control.handled {τ : Type} : Control τ → Option UInt64
  | .handle e => some e
  | _ => none

/-- A call made by `initialize_workers`, `add_task`, or a step of the thread in one of the functions
that `run_server` calls in its loop. -/
inductive PoolInput (τ : Type)
  /-- `initialize_workers` has started the thread `tid` and adds its record. -/
  | startWorker (tid : Int32)
  /-- `initialize_workers` has found the worker `tid` ready. -/
  | workerReady (tid : Int32)
  /-- `add_task`, with the id that `TaskEntry::new` draws. -/
  | addTask (id : ℕ) (task : τ)
  | input (i : Input)
  deriving DecidableEq, Repr

namespace Server

variable {τ : Type} {s t : Server τ} {i : Input} {tid : Int32}

/-- `Server::new`. -/
def new : Server τ where
  workers := .const [] List.nodup_nil ⟨.initializing, none⟩
  queue := .new
  guards := .none
  stack := []
  control := .loop .ok

/-- `WorkerPool::add_worker`, with the record that `Worker::new` makes. -/
def addWorker (s : Server τ) (tid : Int32) : Server τ :=
  { s.lock .workers with workers := s.workers.insert tid ⟨.initializing, none⟩ }.unlock .workers

/-- `initialize_workers`, from the start of a worker thread to the wait for its registration. -/
def startWorker (s : Server τ) (tid : Int32) : Server τ :=
  (s.addWorker tid).updateWorkerStatus tid .registering none

/-- `initialize_workers`, after the wait for the registration of a worker. -/
def workerReady (s : Server τ) (tid : Int32) : Server τ :=
  s.updateWorkerStatus tid .waiting none

/-- A step of a server whose functions are called in any order. -/
def stepPool (s : Server τ) : PoolInput τ → Option (Server τ)
  | .startWorker tid =>
    match s.control with
    | .loop _ => some (s.startWorker tid)
    | _ => none
  | .workerReady tid =>
    match s.control with
    | .loop _ => some (s.workerReady tid)
    | _ => none
  | .addTask id task => some (s.addTask (.new id task))
  | .input i => s.step i

/-- The ids of the queued tasks. -/
def queuedIds (s : Server τ) : List ℕ := s.queue.waiting.map TaskEntry.id

/-- Thread ids and task ids are not used twice, and a `BLOCK` is of a worker that is recorded
`Running`. -/
def BlocksRunning (s : Server τ) : PoolInput τ → Prop
  | .startWorker tid => tid ∉ s.workers.keys
  | .addTask id _ => id ∉ s.queuedIds ∧
      ∀ tid ∈ s.workers.keys, (s.workers.value tid).current_task ≠ some id
  | .input .tau => ∀ e ∈ s.control.handled, eventType e = some .block →
      ∀ w ∈ s.workers.get? (workerTid e), w.status = .running
  | _ => True

instance (s : Server τ) : (i : PoolInput τ) → Decidable (s.BlocksRunning i)
  | .startWorker _ => inferInstanceAs (Decidable (¬ _))
  | .addTask id _ =>
    have : Decidable (∀ tid ∈ s.workers.keys, (s.workers.value tid).current_task ≠ some id) :=
      List.decidableBAll (fun tid => (s.workers.value tid).current_task ≠ some id) s.workers.keys
    inferInstanceAs (Decidable (_ ∧ _))
  | .input .tau =>
    have (e : UInt64) : Decidable (∀ w ∈ s.workers.get? (workerTid e), w.status = .running) :=
      Option.decidableForallMem (p := fun w : Worker => w.status = .running) _
    Option.decidableForallMem (p := fun e => eventType e = some .block →
      ∀ w ∈ s.workers.get? (workerTid e), w.status = .running) s.control.handled
  | .workerReady _ | .input .schedule | .input (.event _) | .input (.sent _)
  | .input (.switched _ _) => inferInstanceAs (Decidable True)

/-! ### The worker pool -/

/-- The records of a server and its queue agree. -/
def Bookkept (s : Server τ) : Prop := Agrees s.workers.get? s.queuedIds

/-- A worker is set to a status without a task. -/
private theorem Bookkept.idle (h : s.Bookkept) (st : WorkerStatus) (hst : st.busy = false)
    (hw : ∀ v, t.workers.get? v = (s.updateWorkerStatus tid st none).workers.get? v)
    (hq : t.queuedIds = s.queuedIds) : t.Bookkept := by
  unfold Bookkept
  rw [hq]
  refine Agrees.update h tid (fun _ => ⟨st, none⟩) (fun v => ?_) (fun _ _ => hst.symm)
    fun _ _ => .inl rfl
  rw [hw, updateWorkerStatus_get?]

/-- Nothing changes in the pool. -/
private theorem Bookkept.congr (h : s.Bookkept) (hw : t.workers = s.workers)
    (hq : t.queuedIds = s.queuedIds) : t.Bookkept := by
  unfold Bookkept
  rw [hw, hq]
  exact h

theorem requeue_queue (s : Server τ) (tid : Int32) {failed : TaskEntry τ}
    (h : failed.state = .completed) : (s.requeue tid failed).queue = s.queue := by
  simp [requeue, TaskQueue.enqueue_completed h]

/-- Every step keeps the records and the queue in agreement. -/
theorem Move.agrees (h : s.Bookkept) (hi : s.BlocksRunning (.input i)) (hm : Move s i t) :
    t.Bookkept := by
  cases hm with
  | callSchedule | callHandle | noWorker | noTask | ignored | invalid | sentSchedule | sentWake
  | switchFailed | switched | returned | nextEvent | eventsDone | eventFailed | scheduled | woken
  | resumed => exact h.congr rfl rfl
  | @take tid task q hc hw hq =>
    have hids : s.queuedIds = task.id :: q.waiting.map TaskEntry.id := by
      simp [queuedIds, TaskQueue.waiting_of_getNextTask hq]
    have hagrees : Agrees s.workers.get? (task.id :: q.waiting.map TaskEntry.id) := hids ▸ h
    refine hagrees.take tid fun v => ?_
    exact updateWorkerStatus_get? s tid .running (some task.id) v
  | @block e hc he =>
    have hrun := hi e (by rw [hc]; rfl) he
    refine Agrees.update h _ (fun w => { w with status := .blocked })
      (updateWorkerStatusKeepTask_get? s _ _) (fun w hw => ?_) fun _ _ => .inr rfl
    have hbusy := h.busy _ w hw
    rw [hrun w hw] at hbusy
    exact hbusy
  | wakeDone hc he hw => exact h.idle .waiting rfl (fun _ => rfl) rfl
  | wakeNoTask hc he hw hq => exact h.idle .waiting rfl (fun _ => rfl) rfl
  | @wakeTake e id task q hc he hw hq =>
    have hids : s.queuedIds = task.id :: q.waiting.map TaskEntry.id := by
      have hwaiting := TaskQueue.waiting_of_getNextTask hq
      rw [TaskQueue.waiting_removeInProgress] at hwaiting
      simp [queuedIds, hwaiting]
    have hidle : (s.updateWorkerStatus (workerTid e) .waiting none).Bookkept :=
      h.idle .waiting rfl (fun _ => rfl) rfl
    have hagrees : Agrees (s.updateWorkerStatus (workerTid e) .waiting none).workers.get?
        (task.id :: q.waiting.map TaskEntry.id) := hids ▸ hidle
    refine hagrees.take (workerTid e) fun v => ?_
    exact updateWorkerStatus_get? _ (workerTid e) .running (some task.id) v
  | @wakeBlocked e current hc he hw =>
    refine Agrees.update h _ (fun _ => ⟨.running, current⟩)
      (updateWorkerStatus_get? s (workerTid e) .running current) (fun _ _ => ?_) fun w hw' => ?_
    · exact h.busy _ ⟨.blocked, current⟩ hw
    · cases hw.symm.trans hw'
      exact .inr rfl
  | wait hc he hw hst => exact h.idle .waiting rfl (fun _ => rfl) rfl
  | exit hc he => exact h.idle .completed rfl (fun _ => rfl) rfl
  | @failedSchedule tid _ _ _ hc ha | @failedWake tid _ _ _ hc ha =>
    have hq := requeue_queue s tid (TaskEntry.assignTask_eq_error ha).2.1
    exact h.idle .waiting rfl (fun _ => rfl) (congrArg (fun q => q.waiting.map TaskEntry.id) hq)
  | scheduleFailed hc hs => exact h.idle .waiting rfl (fun _ => rfl) rfl
  | wakeFailed hc hs => exact h.idle .waiting rfl (fun _ => rfl) rfl

theorem startWorker_get? (s : Server τ) (tid v : Int32) : (s.startWorker tid).workers.get? v =
    if v = tid then some ⟨.registering, none⟩ else s.workers.get? v := by
  have hadd : (s.addWorker tid).workers.get? v =
      if v = tid then some ⟨.initializing, none⟩ else s.workers.get? v := s.workers.get?_insert tid
  unfold startWorker
  rw [updateWorkerStatus_get?, hadd]
  split_ifs <;> rfl

theorem keys_startWorker (s : Server τ) {tid : Int32} (htid : tid ∉ s.workers.keys) :
    (s.startWorker tid).workers.keys = s.workers.keys ++ [tid] := by
  unfold startWorker
  rw [updateWorkerStatus_keys]
  exact s.workers.keys_insert_of_notMem htid

theorem queuedIds_addTask (s : Server τ) (id : ℕ) (task : τ) :
    (s.addTask (.new id task)).queuedIds = s.queuedIds ++ [id] ∨
      (s.addTask (.new id task)).queuedIds = s.queuedIds := by
  unfold queuedIds addTask
  rw [TaskQueue.waiting_enqueue_new]
  split_ifs
  · exact .inl (by simp [TaskEntry.new])
  · exact .inr rfl

theorem Bookkept.stepPool (h : s.Bookkept) {x : PoolInput τ} (hx : s.BlocksRunning x)
    (hstep : s.stepPool x = some t) : t.Bookkept := by
  cases x with
  | startWorker tid =>
    simp only [Server.stepPool] at hstep
    split at hstep <;> cases hstep
    exact Agrees.insert h .registering rfl (s.startWorker_get? tid)
  | workerReady tid =>
    simp only [Server.stepPool] at hstep
    split at hstep <;> cases hstep
    exact h.idle .waiting rfl (fun _ => rfl) rfl
  | addTask id task =>
    cases hstep
    have hfree : ∀ v, currentTask s.workers.get? v ≠ some id := by
      intro v hv
      obtain ⟨w, hw, hid⟩ := Option.bind_eq_some_iff.mp hv
      obtain ⟨hk, rfl⟩ := s.workers.get?_eq_some_iff.mp hw
      exact hx.2 v hk hid
    unfold Bookkept
    rcases s.queuedIds_addTask id task with hq | hq <;> rw [hq]
    · exact Agrees.enqueue h hx.1 hfree
    · exact h
  | input i => exact Move.agrees h hx (move_of_step hstep)

theorem new_bookkept : (new : Server τ).Bookkept where
  busy _ _ hw := by cases hw
  inj _ _ _ hv _ := by cases hv
  nodup := List.nodup_nil
  queued _ _ hv := by cases hv

/-- From the creation of a server on, in every state of every run: a worker has a current task
exactly when it is `Running` or `Blocked`, and no two workers have the same one. -/
theorem current_task_iff (s : Server τ) (l : List (PoolInput τ))
    (h : Run (Guarded stepPool BlocksRunning) new l s) :
    (∀ tid w, s.workers.get? tid = some w →
      (w.current_task.isSome ↔ w.status = .running ∨ w.status = .blocked)) ∧
    ∀ tid tid' w w' id, s.workers.get? tid = some w → s.workers.get? tid' = some w' →
      w.current_task = some id → w'.current_task = some id → tid = tid' := by
  have hI : s.Bookkept := h.invariant new_bookkept fun _ _ _ hI hs => hI.stepPool hs.1 hs.2
  refine ⟨fun tid w hw => ?_, fun tid tid' w w' id hw hw' hid hid' => ?_⟩
  · rw [hI.busy tid w hw]
    cases w.status <;> simp [WorkerStatus.busy]
  · exact hI.inj tid tid' id (by simp [currentTask, hw, hid]) (by simp [currentTask, hw', hid'])

/-- Two workers are started. The first one takes a task and blocks in it, and the second one takes
the other task. -/
def twoTasks : List (PoolInput ℕ) :=
  [.startWorker 7, .workerReady 7, .startWorker 9, .workerReady 9, .addTask 1 0, .addTask 2 0,
    .input .schedule, .input .tau, .input (.sent true),
    .input (.switched (.report (eventWord (shiftedId 7) .block)) 0), .input .tau, .input .tau,
    .input .tau, .input .tau, .input .tau, .input .schedule, .input .tau]

theorem current_task_iff_twoTasks : ∃ s,
    Run (Guarded stepPool BlocksRunning) (new : Server ℕ) twoTasks s ∧
      s.workers.get? 7 = some ⟨.blocked, some 1⟩ ∧ s.workers.get? 9 = some ⟨.running, some 2⟩ ∧
      ∀ tid w, s.workers.get? tid = some w →
        (w.current_task.isSome ↔ w.status = .running ∨ w.status = .blocked) := by
  have hrun : Run (Guarded stepPool BlocksRunning) (new : Server ℕ) twoTasks _ :=
    run_trace (by decide +kernel)
  exact ⟨_, hrun, by decide +kernel, by decide +kernel, (current_task_iff _ _ hrun).1⟩

/-! ### The map of the tasks in progress -/

/-- Every task of a worker is in the map, as a task that runs on that worker, and the map has no
other entries. -/
def InProgressMatches (s : Server τ) : Prop :=
  (∀ tid w id, s.workers.get? tid = some w → w.current_task = some id →
    ∃ entry ∈ s.queue.in_progress, entry.id = id ∧
      ∃ preempted blocked st, entry.state = .running tid preempted blocked st) ∧
  ∀ entry ∈ s.queue.in_progress, ∃ tid w, s.workers.get? tid = some w ∧
    w.current_task = some entry.id

theorem getNextTask_in_progress {q q' : TaskQueue τ} {task : TaskEntry τ}
    (h : q.getNextTask = some (task, q')) : q'.in_progress = q.in_progress := by
  unfold TaskQueue.getNextTask at h
  split at h
  · cases h
    rfl
  · obtain ⟨⟨t', p⟩, -, he⟩ := Option.map_eq_some_iff.mp h
    cases he
    rfl

/-- No step adds an entry to the map. -/
theorem Move.in_progress (hm : Move s i t) (h : s.queue.in_progress = []) :
    t.queue.in_progress = [] := by
  have htake {tid : Int32} {task : TaskEntry τ} {q q' : TaskQueue τ}
      (hq : q.getNextTask = some (task, q')) (hnil : q.in_progress = []) :
      (q'.markInProgress task.id tid).in_progress = [] := by
    simp [TaskQueue.markInProgress, getNextTask_in_progress hq, hnil]
  cases hm with
  | take hc hw hq => exact htake hq h
  | wakeTake hc he hw hq => exact htake hq (by simp [TaskQueue.removeInProgress, h])
  | wakeNoTask => simp [TaskQueue.removeInProgress, h]
  | @failedSchedule tid _ _ _ hc ha | @failedWake tid _ _ _ hc ha =>
    have hq := requeue_queue s tid (TaskEntry.assignTask_eq_error ha).2.1
    exact (congrArg TaskQueue.in_progress hq).trans h
  | _ => exact h

/-- No task is ever in the map. -/
theorem in_progress_eq_nil {ok : Server τ → PoolInput τ → Prop} {l : List (PoolInput τ)}
    (h : Run (Guarded stepPool ok) new l s) : s.queue.in_progress = [] := by
  refine h.invariant (I := fun s => s.queue.in_progress = []) rfl ?_
  rintro s x t hs ⟨-, hstep⟩
  cases x with
  | startWorker | workerReady =>
    simp only [stepPool] at hstep
    split at hstep <;> cases hstep
    exact hs
  | addTask =>
    cases hstep
    exact hs
  | input i => exact (move_of_step hstep).in_progress hs

/-- So the map is right exactly when no worker has a task. -/
theorem inProgressMatches_iff (h : s.queue.in_progress = []) : s.InProgressMatches ↔
    ∀ tid w, s.workers.get? tid = some w → w.current_task = none := by
  constructor
  · intro hmatch tid w hw
    by_contra hne
    obtain ⟨id, hid⟩ := Option.ne_none_iff_exists'.mp hne
    obtain ⟨entry, hmem, -⟩ := hmatch.1 tid w id hw hid
    simp [h] at hmem
  · intro hnone
    refine ⟨fun tid w id hw hid => ?_, fun entry hmem => ?_⟩
    · simp [hnone tid w hw] at hid
    · simp [h] at hmem

/-- Control is at the entry of `try_schedule_tasks`. -/
def atSchedule (s : Server τ) : Bool :=
  match s.control with
  | .schedule => true
  | _ => false

/-- When `try_schedule_tasks` is called, no worker is waiting or no task is queued. -/
def NothingToSchedule (s : Server τ) : PoolInput τ → Prop
  | .input .tau => s.atSchedule = true → s.waitingWorker = none ∨ s.queue.waiting.isEmpty
  | _ => True

instance (s : Server τ) : (x : PoolInput τ) → Decidable (s.NothingToSchedule x)
  | .input .tau => inferInstanceAs (Decidable (_ → _ ∨ _))
  | .startWorker _ | .workerReady _ | .addTask _ _ | .input .schedule | .input (.event _)
  | .input (.sent _) | .input (.switched _ _) => inferInstanceAs (Decidable True)

/-- No worker has a task. -/
def Unoccupied (s : Server τ) : Prop :=
  ∀ tid w, s.workers.get? tid = some w → w.current_task = none

/-- The record of one worker is replaced by one without a task. -/
private theorem Unoccupied.update (h : s.Unoccupied) (f : Worker → Worker)
    (ht : ∀ v, t.workers.get? v = if v = tid then (s.workers.get? v).map f else s.workers.get? v)
    (hf : ∀ w, s.workers.get? tid = some w → (f w).current_task = none) : t.Unoccupied := by
  intro v w hw
  rw [ht] at hw
  split_ifs at hw with hv
  · obtain ⟨w', hw', rfl⟩ := Option.map_eq_some_iff.mp hw
    exact hf w' (hv ▸ hw')
  · exact h v w hw

/-- A worker without a task gets one only from `try_schedule_tasks`. -/
theorem Move.unoccupied (hm : Move s i t) (h : s.Unoccupied)
    (hi : s.NothingToSchedule (.input i)) : t.Unoccupied := by
  cases hm with
  | take hc hw hq =>
    rcases hi (by simp [atSchedule, hc]) with hnone | hempty
    · cases hw.symm.trans hnone
    · simp [TaskQueue.waiting_of_getNextTask hq] at hempty
  | wakeNoTask hc he hw | wakeTake hc he hw => exact absurd (h _ _ hw) (by simp)
  | block => exact h.update _ (updateWorkerStatusKeepTask_get? s _ _) fun w hw => h _ w hw
  | wakeBlocked hc he hw =>
    have hnone := h _ _ hw
    exact h.update _ (updateWorkerStatus_get? s _ _ _) fun _ _ => hnone
  | wakeDone | wait | exit | scheduleFailed | wakeFailed | failedSchedule | failedWake =>
    exact h.update _ (updateWorkerStatus_get? s _ _ _) fun _ _ => rfl
  | _ => exact h

/-- In every run in which `try_schedule_tasks` never finds both a waiting worker and a task, the map
of the tasks in progress agrees with the worker pool. -/
theorem in_progress_idle (s : Server τ) (l : List (PoolInput τ))
    (h : Run (Guarded stepPool NothingToSchedule) new l s) : s.InProgressMatches := by
  refine (inProgressMatches_iff (in_progress_eq_nil h)).mpr ?_
  refine h.invariant (I := Unoccupied) (fun _ _ hw => by cases hw) ?_
  rintro s x t hs ⟨hx, hstep⟩
  cases x with
  | startWorker tid =>
    simp only [stepPool] at hstep
    split at hstep <;> cases hstep
    intro v w hw
    rw [startWorker_get?] at hw
    split_ifs at hw
    · cases hw
      rfl
    · exact hs v w hw
  | workerReady tid =>
    simp only [stepPool] at hstep
    split at hstep <;> cases hstep
    exact hs.update _ (updateWorkerStatus_get? s tid .waiting none) fun _ _ => rfl
  | addTask =>
    cases hstep
    exact hs
  | input i => exact (move_of_step hstep).unoccupied hs hx

/-- A task is added while the only worker is still registering. -/
def earlyTask : List (PoolInput ℕ) :=
  [.startWorker 7, .addTask 1 0, .input .schedule, .input .tau, .input .tau, .workerReady 7]

theorem in_progress_idle_earlyTask : ∃ s,
    Run (Guarded stepPool NothingToSchedule) (new : Server ℕ) earlyTask s ∧
      s.workers.get? 7 = some ⟨.waiting, none⟩ ∧ s.InProgressMatches := by
  have hrun : Run (Guarded stepPool NothingToSchedule) (new : Server ℕ) earlyTask _ :=
    run_trace (by decide +kernel)
  exact ⟨_, hrun, by decide +kernel, in_progress_idle _ _ hrun⟩

/-- The worker takes the task and blocks in it, and `try_schedule_tasks` returns. -/
def oneDispatch : List (PoolInput ℕ) :=
  [.startWorker 7, .workerReady 7, .addTask 1 0, .input .schedule, .input .tau,
    .input (.sent true), .input (.switched (.report (eventWord (shiftedId 7) .block)) 0),
    .input .tau, .input .tau, .input .tau, .input .tau, .input .tau]

/-- The first task that is dispatched is not in the map. -/
theorem in_progress_oneDispatch : ∃ s,
    Run (Guarded stepPool BlocksRunning) (new : Server ℕ) oneDispatch s ∧
      s.control = .loop .ok ∧ s.workers.get? 7 = some ⟨.blocked, some 1⟩ ∧
      s.queue.in_progress = [] ∧ ¬ s.InProgressMatches := by
  obtain ⟨s, hrun, hc, hw⟩ : ∃ s,
      Run (Guarded stepPool BlocksRunning) (new : Server ℕ) oneDispatch s ∧
        s.control = .loop .ok ∧ s.workers.get? 7 = some ⟨.blocked, some 1⟩ :=
    ⟨_, run_trace (by decide +kernel), by decide +kernel, by decide +kernel⟩
  have hnil := in_progress_eq_nil hrun
  refine ⟨s, hrun, hc, hw, hnil, fun hmatch => ?_⟩
  have hnone := (inProgressMatches_iff hnil).mp hmatch 7 _ hw
  cases hnone

end Server

end Umcg.Pool
