import Umcg.Base

/-!
# Worker threads

A worker thread registers with UMCG, polls its channel, runs the task it finds there, calls
`Wait` and polls again; when a shutdown message arrives, or no sender is left, it unregisters and
ends. The two programs have the same loop (`Worker::start` and `WorkerThread::start`); they
differ in what they do when a system call fails (`WorkerLoop`). Neither catches a panic: a task that
panics takes its thread down with it, and the kernel unregisters the thread when it is freed.

`WorkerThread` is what is in the channel of such a thread and the point it has reached, and
`WorkerThread.step` is one step. Between two steps lies a system call, a call of the task, or a
receive: the kernel may take the thread off its processor there. `Park` is what the kernel knows
about the thread.
-/

namespace Umcg

/-- The messages of a worker's channel: `WorkerTask` in `attempt2.rs`, `Task` in `lib.rs`. -/
inductive WorkerTask (τ : Type)
  | function (task : τ)
  | shutdown
  deriving DecidableEq, Repr

/-- The point a worker thread has reached. -/
inductive WorkerPc (τ : Type)
  /-- In the call of `RegisterWorker`. -/
  | starting
  /-- At `try_recv`. -/
  | polling
  /-- In `task()`. -/
  | executing (task : τ)
  /-- The task has returned, the thread is about to call `Wait`. -/
  | signaling
  /-- The channel was empty, the thread is about to call `Wait`. -/
  | idle
  /-- In the call of `Wait`. -/
  | waiting
  /-- The loop is left, the thread is about to unregister. -/
  | leaving
  /-- An assertion has failed, or a task has panicked, while the thread is a UMCG worker. -/
  | panicking
  /-- No longer (or never) a UMCG worker, about to return. -/
  | unregistered
  /-- The thread has ended and its receiver is dropped. -/
  | exited
  deriving DecidableEq, Repr

/-- A worker: the messages in its channel and the point its thread has reached. -/
structure WorkerThread (τ : Type) where
  task_rx : List (WorkerTask τ)
  pc : WorkerPc τ
  deriving DecidableEq, Repr

/-- What a worker thread meets at a point of its loop. -/
inductive WorkerInput
  /-- `RegisterWorker` returns. -/
  | registered (ret : Int)
  /-- `try_recv`; `connected` says that a sender is left. -/
  | poll (connected : Bool)
  /-- `task()` returns. -/
  | returned
  /-- `task()` panics. -/
  | panicked
  /-- The thread calls `Wait`. -/
  | wait
  /-- `Wait` returns. -/
  | waited (ret : Int)
  /-- `Unregister` returns. -/
  | unregistered (ret : Int)
  /-- The thread ends. -/
  | done
  deriving DecidableEq, Repr

/-- A system call of the thread, other than the start of `Wait`, returns. -/
def WorkerInput.IsCall : WorkerInput → Prop
  | registered _ | waited _ | unregistered _ => True
  | _ => False

/-- The two worker loops. -/
inductive WorkerLoop
  /-- `Worker::start` of `attempt2.rs`: a failed `Wait` ends the loop, a failed `Unregister` is
  logged. -/
  | attempt2
  /-- `WorkerThread::start` of `lib.rs`: both are asserted to succeed. -/
  | lib
  deriving DecidableEq, Repr

namespace WorkerLoop

variable {τ : Type}

/-- After a `Wait` that failed. -/
def waitFailed : WorkerLoop → WorkerPc τ
  | attempt2 => .leaving
  | lib => .panicking

/-- After an `Unregister` that failed. -/
def unregisterFailed : WorkerLoop → WorkerPc τ
  | attempt2 => .unregistered
  | lib => .panicking

end WorkerLoop

namespace WorkerPc

variable {τ : Type}

/-- In the middle of a task: in `task()`, or between its return and `Wait`. -/
def inTask : WorkerPc τ → Bool
  | executing _ | signaling => true
  | _ => false

/-- Between an empty poll and `Wait`. -/
def isIdle : WorkerPc τ → Bool
  | idle => true
  | _ => false

end WorkerPc

namespace WorkerThread

variable {τ : Type}

/-- `match self.task_rx.try_recv()`. -/
def poll (connected : Bool) : List (WorkerTask τ) → WorkerThread τ
  | [] => ⟨[], if connected then .idle else .leaving⟩
  | .function task :: rest => ⟨rest, .executing task⟩
  | .shutdown :: rest => ⟨rest, .leaving⟩

/-- One step of a worker thread. -/
def step (f : WorkerLoop) (k : WorkerThread τ) : WorkerInput → Option (WorkerThread τ)
  | .registered ret =>
    match k.pc with
    | .starting => some { k with pc := if ret = 0 then .polling else .unregistered }
    | _ => none
  | .poll connected =>
    match k.pc with
    | .polling => some (poll connected k.task_rx)
    | _ => none
  | .returned =>
    match k.pc with
    | .executing _ => some { k with pc := .signaling }
    | _ => none
  | .panicked =>
    match k.pc with
    | .executing _ => some { k with pc := .panicking }
    | _ => none
  | .wait =>
    match k.pc with
    | .signaling | .idle => some { k with pc := .waiting }
    | _ => none
  | .waited ret =>
    match k.pc with
    | .waiting => some { k with pc := if ret = 0 then .polling else f.waitFailed }
    | _ => none
  | .unregistered ret =>
    match k.pc with
    | .leaving => some { k with pc := if ret = 0 then .unregistered else f.unregisterFailed }
    | _ => none
  | .done =>
    match k.pc with
    | .unregistered | .panicking => some ⟨[], .exited⟩
    | _ => none

/-- The last step of a thread as a UMCG worker: `Unregister`, or the end of a thread that panics. -/
def leave (f : WorkerLoop) (k : WorkerThread τ) : Option (WorkerThread τ) :=
  match k.pc with
  | .panicking => k.step f .done
  | _ => k.step f (.unregistered 0)

/-- `tx.send(..)`: it succeeds as long as the receiver has not been dropped. -/
def send (k : WorkerThread τ) (m : WorkerTask τ) : Option (WorkerThread τ) :=
  match k.pc with
  | .exited => none
  | _ => some { k with task_rx := k.task_rx ++ [m] }

/-- The thread is in its call of `RegisterWorker`. -/
def isStarting (k : WorkerThread τ) : Bool :=
  match k.pc with
  | .starting => true
  | _ => false

/-- The task in execution. -/
def executing (k : WorkerThread τ) : Option τ :=
  match k.pc with
  | .executing task => some task
  | _ => none

/-- The tasks in the channel, oldest first. -/
def queued (k : WorkerThread τ) : List τ :=
  k.task_rx.filterMap fun m =>
    match m with
    | .function task => some task
    | .shutdown => none

variable {f : WorkerLoop} {k k' : WorkerThread τ} {x : WorkerInput}

/-! ### The cases of a step -/

/-- The steps of a worker thread. -/
inductive Move (k : WorkerThread τ) : WorkerInput → WorkerThread τ → Prop
  | poll {c : Bool} (hpc : k.pc = .polling) : Move k (.poll c) (poll c k.task_rx)
  | returned {t : τ} (hpc : k.pc = .executing t) : Move k .returned { k with pc := .signaling }
  | panicked {t : τ} (hpc : k.pc = .executing t) : Move k .panicked { k with pc := .panicking }
  | wait (hpc : k.pc = .signaling ∨ k.pc = .idle) : Move k .wait { k with pc := .waiting }
  | called {x : WorkerInput} {pc : WorkerPc τ} (hx : x.IsCall)
      (hpc : k.pc = .starting ∨ k.pc = .waiting ∨ k.pc = .leaving)
      (hpc' : pc = .polling ∨ pc = .leaving ∨ pc = .unregistered ∨ pc = .panicking) :
      Move k x { k with pc := pc }
  | done (hpc : k.pc = .unregistered ∨ k.pc = .panicking) : Move k .done ⟨[], .exited⟩

/-- Every step of a worker thread is one of the cases of `Move`. -/
theorem move_of_step (h : k.step f x = some k') : k.Move x k' := by
  cases x with
  | poll c =>
    simp only [step] at h
    split at h <;> cases h
    exact .poll ‹_›
  | returned =>
    simp only [step] at h
    split at h <;> cases h
    exact .returned ‹_›
  | panicked =>
    simp only [step] at h
    split at h <;> cases h
    exact .panicked ‹_›
  | wait =>
    simp only [step] at h
    split at h <;> cases h
    · exact .wait (.inl ‹_›)
    · exact .wait (.inr ‹_›)
  | done =>
    simp only [step] at h
    split at h <;> cases h
    · exact .done (.inl ‹_›)
    · exact .done (.inr ‹_›)
  | registered ret =>
    simp only [step] at h
    split at h <;> cases h
    exact .called trivial (.inl ‹_›) (by split_ifs <;> simp)
  | waited ret =>
    simp only [step] at h
    split at h <;> cases h
    exact .called trivial (.inr (.inl ‹_›))
      (by cases f <;> split_ifs <;> simp [WorkerLoop.waitFailed])
  | unregistered ret =>
    simp only [step] at h
    split at h <;> cases h
    exact .called trivial (.inr (.inr ‹_›))
      (by cases f <;> split_ifs <;> simp [WorkerLoop.unregisterFailed])

/-! ### The tasks of a thread -/

/-- What a step of a worker thread does with the tasks, when the thread neither panics nor ends. -/
theorem Move.tasks (h : k.Move x k') (hx : x ≠ .done) (hpanic : x ≠ .panicked) :
    (∃ c t, x = .poll c ∧ k.executing = none ∧ k'.executing = some t ∧
      k.queued = t :: k'.queued) ∨
    (∃ t, x = .returned ∧ k.executing = some t ∧ k'.executing = none ∧ k'.queued = k.queued) ∨
    x ≠ .returned ∧ (∀ c, x = .poll c → k'.executing = none) ∧ k'.executing = k.executing ∧
      k'.queued = k.queued := by
  obtain ⟨rx, pc⟩ := k
  cases h with
  | poll hpc =>
    cases hpc
    rcases rx with _ | ⟨t | _, rest⟩
    · exact .inr (.inr (by rename_i c; cases c <;> simp [WorkerThread.poll, executing, queued]))
    · exact .inl ⟨_, t, rfl, rfl, rfl, rfl⟩
    · exact .inr (.inr (by simp [WorkerThread.poll, executing, queued]))
  | returned hpc =>
    cases hpc
    exact .inr (.inl ⟨_, rfl, rfl, rfl, rfl⟩)
  | panicked => exact absurd rfl hpanic
  | wait hpc =>
    refine .inr (.inr ⟨by simp, by simp, ?_, rfl⟩)
    rcases hpc with hpc | hpc <;> cases hpc <;> rfl
  | called hcall hpc hpc' =>
    refine .inr (.inr ⟨by rintro rfl; exact hcall, by rintro c rfl; exact hcall.elim, ?_, rfl⟩)
    rcases hpc with hpc | hpc | hpc <;> cases hpc <;> rcases hpc' with rfl | rfl | rfl | rfl <;> rfl
  | done => exact absurd rfl hx

/-- A task that panics is no longer in execution. -/
theorem Move.tasks_of_panicked (h : k.Move .panicked k') :
    (∃ t, k.executing = some t) ∧ k'.executing = none ∧ k'.queued = k.queued := by
  cases h with
  | panicked hpc => exact ⟨⟨_, by rw [executing, hpc]⟩, rfl, rfl⟩
  | called hx => exact hx.elim

/-- A thread that ends is not executing a task and drops its channel. -/
theorem Move.tasks_of_done (h : k.Move .done k') :
    k.executing = none ∧ k'.executing = none ∧ k'.queued = [] := by
  cases h with
  | called hx => exact hx.elim
  | done hpc => exact ⟨by rcases hpc with hpc | hpc <;> simp [executing, hpc], rfl, rfl⟩

/-- The receiver lives until the thread ends. -/
theorem Move.pc_ne_exited (h : k.Move x k') (hx : x ≠ .done) : k'.pc ≠ .exited := by
  cases h with
  | @poll c hpc =>
    rcases k.task_rx with _ | ⟨t | _, rest⟩ <;> cases c <;> simp [WorkerThread.poll]
  | called hcall hpc hpc' => rcases hpc' with rfl | rfl | rfl | rfl <;> simp
  | done => exact absurd rfl hx
  | _ => simp

/-- A send to a live receiver appends the task to the channel. -/
theorem send_eq_some (hk : k.pc ≠ .exited) (t : τ) : ∃ k', k.send (.function t) = some k' ∧
    k'.queued = k.queued ++ [t] ∧ k'.executing = k.executing ∧ k'.pc = k.pc := by
  obtain ⟨rx, pc⟩ := k
  cases pc <;> first
    | exact absurd rfl hk
    | exact ⟨_, rfl, by simp [queued], rfl, rfl⟩

/-- A message other than a task leaves the tasks of the thread alone. -/
theorem send_shutdown (k : WorkerThread τ) : ((k.send .shutdown).getD k).queued = k.queued ∧
    ((k.send .shutdown).getD k).executing = k.executing := by
  obtain ⟨rx, pc⟩ := k
  cases pc <;> exact ⟨by simp [send, queued], rfl⟩

/-! ### Threads without a task -/

/-- The channel is empty, and the next poll comes before the next `Wait`. -/
def AtRest (k : WorkerThread τ) : Prop :=
  k.task_rx = [] ∧ k.pc.inTask = false ∧ k.pc.isIdle = false

/-- At most one task is in the channel, and none while the thread is on its way to `Wait`. -/
structure TasksOk (k : WorkerThread τ) : Prop where
  one : k.task_rx.length ≤ 1
  taken : k.pc.inTask = true ∨ k.pc.isIdle = true → k.task_rx = []

theorem AtRest.tasksOk (h : k.AtRest) : k.TasksOk where
  one := by simp [h.1]
  taken _ := h.1

theorem TasksOk.step (h : k.TasksOk) (hm : k.Move x k') : k'.TasksOk := by
  cases hm with
  | @poll c hpc =>
    have hone := h.one
    rcases hrx : k.task_rx with _ | ⟨_ | _, rest⟩ <;> simp only [hrx] at hone
    · exact ⟨by simp [WorkerThread.poll], fun _ => rfl⟩
    · have hrest : rest = [] := by simpa using hone
      exact ⟨by simp [WorkerThread.poll, hrest], fun _ => hrest⟩
    · have hrest : rest = [] := by simpa using hone
      exact ⟨by simp [WorkerThread.poll, hrest], fun _ => hrest⟩
  | returned hpc => exact ⟨h.one, fun _ => h.taken (.inl (by rw [hpc]; rfl))⟩
  | panicked => exact ⟨h.one, by simp [WorkerPc.inTask, WorkerPc.isIdle]⟩
  | wait hpc => exact ⟨h.one, by simp [WorkerPc.inTask, WorkerPc.isIdle]⟩
  | called hx hpc hpc' =>
    refine ⟨h.one, ?_⟩
    rcases hpc' with rfl | rfl | rfl | rfl <;> simp [WorkerPc.inTask, WorkerPc.isIdle]
  | done => exact ⟨by simp, fun _ => rfl⟩

theorem TasksOk.leave (h : k.TasksOk) (hk : k.leave f = some k') : k'.TasksOk := by
  unfold WorkerThread.leave at hk
  split at hk <;> exact h.step (move_of_step hk)

/-- A thread without a task and with an empty channel does not get into a task. -/
theorem Move.free (hm : k.Move x k') (hrx : k.task_rx = []) (hpc : k.pc.inTask = false) :
    k'.task_rx = [] ∧ k'.pc.inTask = false := by
  cases hm with
  | @poll c => cases c <;> simp [hrx, WorkerThread.poll, WorkerPc.inTask]
  | returned h | panicked h => simp [h, WorkerPc.inTask] at hpc
  | wait => exact ⟨hrx, rfl⟩
  | called hx h h' => exact ⟨hrx, by rcases h' with rfl | rfl | rfl | rfl <;> rfl⟩
  | done => exact ⟨rfl, rfl⟩

/-- Only a poll takes a thread at rest on its way to `Wait`. -/
theorem AtRest.step (h : k.AtRest) (hx : ∀ b, x ≠ .poll b) (hm : k.Move x k') : k'.AtRest := by
  obtain ⟨hrx, hpc, -⟩ := h
  obtain ⟨hrx', hpc'⟩ := hm.free hrx hpc
  refine ⟨hrx', hpc', ?_⟩
  cases hm with
  | poll => exact absurd rfl (hx _)
  | called hx h h' => rcases h' with rfl | rfl | rfl | rfl <;> rfl
  | _ => rfl

/-- A thread without a task leaves at rest. -/
theorem atRest_of_leave (hrx : k.task_rx = []) (hpc : k.pc.inTask = false)
    (hk : k.leave f = some k') : k'.AtRest := by
  unfold leave at hk
  split at hk
  all_goals
    have hm := move_of_step hk
    obtain ⟨hrx', hpc'⟩ := hm.free hrx hpc
    refine ⟨hrx', hpc', ?_⟩
    cases hm with
    | called hx h h' => rcases h' with rfl | rfl | rfl | rfl <;> rfl
    | _ => rfl

theorem AtRest.send (h : k.AtRest) {m : WorkerTask τ} (hk : k.send m = some k') : k'.TasksOk := by
  obtain ⟨rx, pc⟩ := k
  obtain ⟨hrx, hpc, hidle⟩ := h
  obtain rfl : rx = [] := hrx
  have hk' : k' = ⟨[m], pc⟩ := by cases pc <;> simp_all [WorkerThread.send]
  subst hk'
  exact ⟨Nat.le_refl 1, fun hp => by simp_all⟩

/-- A thread calls `Wait` with what its last poll left in the channel. -/
theorem TasksOk.atRest_of_wait (h : k.TasksOk) (hm : k.Move .wait k') : k'.AtRest := by
  cases hm with
  | wait hpc =>
    refine ⟨h.taken ?_, rfl, rfl⟩
    rcases hpc with hpc | hpc <;> simp [hpc, WorkerPc.inTask, WorkerPc.isIdle]
  | called hx => exact hx.elim

end WorkerThread

/-- What the kernel knows about a worker thread. -/
inductive Park
  /-- Not a UMCG worker, or no longer. -/
  | unregistered
  /-- Stopped; a context switch can run it. -/
  | ready
  /-- Running in place of the server that has switched to it. -/
  | running
  /-- In a system call that blocks. -/
  | blocked
  deriving DecidableEq, Repr

/-- How the kernel stops a running worker outside of `Wait`. -/
inductive StopKind
  | block
  | preempt
  deriving DecidableEq, Repr

namespace StopKind

/-- The event that is reported. -/
def event : StopKind → UmcgEventType
  | block => .block
  | preempt => .preempt

/-- A blocked worker is not switchable, a preempted one is. -/
def park : StopKind → Park
  | block => .blocked
  | preempt => .ready

end StopKind

end Umcg
