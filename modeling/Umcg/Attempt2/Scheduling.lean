import Umcg.Attempt2.Transitions

/-!
# `try_schedule_tasks` and the task queue

`Scheduler` is a server together with the task queue that it shares with other threads. Tasks are
added at any time, and other servers take tasks out of the queue. An `add_task` while the server is
inside of its `CtxSwitch`, by the worker that it has switched to or by any other thread, is a step
of its own (`SchedulerStep.submit`): the server looks at the queue again before it returns.

The first half is about one hand-over: `remove_task` has returned a task for a worker that was
popped from the pending queue. It can fail in three places, because the worker has no channel,
because the running queue is full and because the receiver of the channel is gone. The second place
puts the worker back, the others do not, and none of them puts the task back
(`Scheduler.handOver_iff`).

The second half is about the return of a whole call. There are two ways out of its loop besides an
error, an empty pending queue and an empty task queue (`Server.Move.fromCall`), so nothing is left
to schedule, whatever happened inside of the call.

## Main results

* `Scheduler.handOver_iff` : when a removed task is handed over or given back.
* `Server.Move.fromCall` : the ways out of a call of `try_schedule_tasks`.
* `Scheduler.work_conserving` : what holds when the call returns.
-/

namespace Umcg.Attempt2

variable {τ : Type}

/-- A server and the task queue from which it takes its tasks. -/
structure Scheduler (τ : Type) where
  server : Server τ
  tasks : BoundedQueue τ

/-- The steps of the threads that use the queue. -/
inductive SchedulerStep (τ : Type)
  /-- A step of the server other than `remove_task()`. -/
  | server (x : Input τ)
  /-- `remove_task()` of the server. -/
  | remove
  /-- `add_task` of any thread while the server is inside of its `CtxSwitch`, first of all of the
  worker that it has switched to. -/
  | submit (task : τ)
  /-- `add_task` of another thread at any other time. -/
  | add (task : τ)
  /-- `remove_task()` of another server. -/
  | take
  deriving DecidableEq, Repr

namespace Scheduler

/-- `add_task`: a task that finds the queue full is dropped. -/
def addTask (s : Scheduler τ) (task : τ) : Scheduler τ :=
  { s with tasks := (s.tasks.push task).getD s.tasks }

/-- One step. -/
def step (s : Scheduler τ) : SchedulerStep τ → Option (Scheduler τ)
  | .server (.removed _) => none
  | .server x => (s.server.step x).map fun t => { s with server := t }
  | .remove =>
    match s.tasks.pop with
    | some (task, q) => (s.server.step (.removed (some task))).map fun t => ⟨t, q⟩
    | none => (s.server.step (.removed none)).map fun t => { s with server := t }
  | .submit task => if s.server.control.target = none then none else some (s.addTask task)
  | .add task => if s.server.control.target = none then some (s.addTask task) else none
  | .take => some { s with tasks := (s.tasks.pop.map Prod.snd).getD s.tasks }

variable {s t u v : Scheduler τ} {a : SchedulerStep τ} {l : List (SchedulerStep τ)} {w : UInt64}
  {task : τ} {q : BoundedQueue τ}

/-- A step of the server other than `remove_task()`. -/
theorem server_of_step {x : Input τ} (h : s.step (.server x) = some t) :
    s.server.step x = some t.server ∧ t.tasks = s.tasks ∧ ∀ o, x ≠ .removed o := by
  cases x with
  | removed o => cases h
  | _ =>
    obtain ⟨r, hr, rfl⟩ := Option.map_eq_some_iff.mp h
    exact ⟨hr, rfl, by simp⟩

/-- `remove_task()` of the server. -/
theorem server_of_remove (h : s.step .remove = some t) :
    (s.tasks.items = [] ∧ t.tasks = s.tasks ∧ s.server.step (.removed none) = some t.server) ∨
      ∃ task, s.tasks.pop = some (task, t.tasks) ∧
        s.server.step (.removed (some task)) = some t.server := by
  simp only [step] at h
  split at h
  · rename_i task q hq
    obtain ⟨r, hr, rfl⟩ := Option.map_eq_some_iff.mp h
    exact .inr ⟨task, hq, hr⟩
  · obtain ⟨r, hr, rfl⟩ := Option.map_eq_some_iff.mp h
    exact .inl ⟨BoundedQueue.pop_eq_none_iff.mp ‹_›, rfl, hr⟩

/-- `add_task` while the server is inside of its `CtxSwitch`. -/
theorem eq_of_submit (h : s.step (.submit task) = some t) :
    s.server.control.target ≠ none ∧ t = s.addTask task := by
  simp only [step] at h
  split_ifs at h with htarget
  exact ⟨htarget, (Option.some.inj h).symm⟩

/-- `add_task` at any other time. -/
theorem eq_of_add (h : s.step (.add task) = some t) :
    s.server.control.target = none ∧ t = s.addTask task := by
  simp only [step] at h
  split_ifs at h with htarget
  exact ⟨htarget, (Option.some.inj h).symm⟩

theorem mem_tasks_addTask {k : τ} (h : k ∈ (s.addTask task).tasks.items) :
    k ∈ s.tasks.items ∨ k = task := by
  unfold addTask at h
  cases hpush : s.tasks.push task with
  | none =>
    rw [hpush] at h
    exact .inl h
  | some q =>
    rw [hpush, Option.getD_some, (BoundedQueue.push_eq_some_iff.mp hpush).2.2] at h
    simpa using h

/-! ### One hand-over -/

/-- A step of another thread, which does not have `task`. -/
def Foreign (task : τ) : SchedulerStep τ → Prop
  | .submit k | .add k => k ≠ task
  | .take => True
  | .server _ | .remove => False

/-- In `s` the server takes `task` out of the queue, and in `v` it goes on; `alive` says that the
receiver of the worker's channel is there. Other threads run before the send. -/
inductive HandOver (s : Scheduler τ) (task : τ) (alive : Bool) : Scheduler τ → Prop
  | atOnce {t : Scheduler τ} (hremove : s.step .remove = some t)
      (hc : t.server.control = .popPending) : HandOver s task alive t
  | send {t u v : Scheduler τ} {l : List (SchedulerStep τ)} (hremove : s.step .remove = some t)
      (hothers : Run (Guarded step fun _ => Foreign task) t l u)
      (hsend : u.step (.server (.sent alive)) = some v) : HandOver s task alive v

/-- The task has been sent to the worker, and the server switches to it. -/
def Delivered (v : Scheduler τ) (w : UInt64) : Prop := v.server.control = .ctxSwitch w .trySchedule

/-- The task is in the queue again, the worker is `Waiting` and pending again, and the running
queue is as it was. -/
structure Undone (s v : Scheduler τ) (w : UInt64) (task : τ) : Prop where
  task : task ∈ v.tasks.items
  status : v.server.states.get? w = some .waiting
  pending : w ∈ v.server.pending.items
  running : v.server.running = s.server.running

/-- The other threads neither touch the server nor bring the task back. -/
theorem others_frame (h : Run (Guarded step fun _ => Foreign task) t l u)
    (ht : task ∉ t.tasks.items) : u.server = t.server ∧ task ∉ u.tasks.items := by
  refine h.invariant (I := fun u => u.server = t.server ∧ task ∉ u.tasks.items) ⟨rfl, ht⟩ ?_
  rintro u a v ⟨hserver, hnot⟩ ⟨ha, hstep⟩
  cases a with
  | server x => exact ha.elim
  | remove => exact ha.elim
  | submit k =>
    obtain ⟨-, rfl⟩ := eq_of_submit hstep
    exact ⟨hserver, fun hmem => (mem_tasks_addTask hmem).elim hnot (Ne.symm ha)⟩
  | add k =>
    obtain ⟨-, rfl⟩ := eq_of_add hstep
    exact ⟨hserver, fun hmem => (mem_tasks_addTask hmem).elim hnot (Ne.symm ha)⟩
  | take =>
    cases hstep
    refine ⟨hserver, ?_⟩
    dsimp only
    cases hpop : u.tasks.pop with
    | none => exact hnot
    | some p =>
      rw [(BoundedQueue.pop_eq_some_iff.mp hpop).1, List.mem_cons, not_or] at hnot
      exact hnot.2

/-- After a removal the thread is at the send if the worker has a channel and the running queue has
room, and otherwise it has gone on. -/
theorem remove_cases (hc : s.server.control = .removeTask w) (hq : s.tasks.pop = some (task, q))
    (h : s.step .remove = some t) : t.tasks = q ∧
      if w ∈ s.server.channels ∧ s.server.running.items.length < s.server.running.cap then
        t.server.control = .sendTask w task
      else t.server.control = .popPending := by
  rcases server_of_remove h with ⟨hnil, -, -⟩ | ⟨task', hq', hstep⟩
  · rw [BoundedQueue.pop_eq_none_iff.mpr hnil] at hq
    cases hq
  · rw [hq] at hq'
    cases hq'
    refine ⟨rfl, ?_⟩
    have hm := Server.move_of_step (by simp [hc, Control.Serving]) hstep
    generalize t.server = r at hm
    cases hm with
    | noChannel hc' hw =>
      cases hc.symm.trans hc'
      simp [hw]
    | dispatch hc' hw hpush =>
      cases hc.symm.trans hc'
      simp [hw, (BoundedQueue.push_eq_some_iff.mp hpush).1]
    | runningFull hc' hw hpush =>
      cases hc.symm.trans hc'
      simp [BoundedQueue.push_eq_none_iff.mp hpush]

/-- Let the server take a task out of the queue for the worker `w` and go on. Either the task has
been handed over, or the task is in the queue again and the worker and the running queue are as they
were, if and only if `w` has a channel, the running queue has room and the receiver of the channel
is alive. The task was in the queue once: it has an id of its own. -/
theorem handOver_iff (s v : Scheduler τ) (w : UInt64) (task : τ) (q : BoundedQueue τ)
    (alive : Bool) (hc : s.server.control = .removeTask w) (hq : s.tasks.pop = some (task, q))
    (honce : task ∉ q.items) (h : HandOver s task alive v) :
    v.Delivered w ∨ Undone s v w task ↔
      w ∈ s.server.channels ∧ s.server.running.items.length < s.server.running.cap ∧
        alive = true := by
  cases h with
  | atOnce hremove hpop =>
    obtain ⟨htasks, hcontrol⟩ := remove_cases hc hq hremove
    have hfail : ¬ (w ∈ s.server.channels ∧
        s.server.running.items.length < s.server.running.cap) := by
      intro hroom
      rw [if_pos hroom, hpop] at hcontrol
      cases hcontrol
    refine ⟨fun hor => ?_, fun hroom => absurd ⟨hroom.1, hroom.2.1⟩ hfail⟩
    rcases hor with hdel | hundone
    · cases hpop.symm.trans hdel
    · exact absurd (htasks ▸ hundone.task) honce
  | @send t u _ l hremove hothers hsend =>
    obtain ⟨htasks, hcontrol⟩ := remove_cases hc hq hremove
    obtain ⟨hserver, hnot⟩ := others_frame hothers (htasks ▸ honce)
    obtain ⟨hstep, hsame, -⟩ := server_of_step hsend
    have hroom : w ∈ s.server.channels ∧
        s.server.running.items.length < s.server.running.cap := by
      by_contra hfail
      rw [if_neg hfail] at hcontrol
      simp [Server.step, hserver, hcontrol] at hstep
    rw [if_pos hroom, ← hserver] at hcontrol
    simp only [Server.step, hcontrol, Option.some.injEq] at hstep
    cases alive with
    | true => exact iff_of_true (.inl (by rw [Delivered, ← hstep]; rfl)) ⟨hroom.1, hroom.2, rfl⟩
    | false =>
      refine iff_of_false ?_ (by simp)
      rintro (hdel | hundone)
      · rw [Delivered, ← hstep] at hdel
        cases hdel
      · exact hnot (hsame ▸ hundone.task)

/-- The first worker of two has been popped, and there is one task. -/
def oneTask (server : Server ℕ) : Scheduler ℕ where
  server := { server with
    pending := ⟨2, [64], by decide⟩
    control := .removeTask 32 }
  tasks := ⟨2, [7], by decide⟩

/-- The same with queues of capacity one; the second worker is running and fills its queue. -/
def oneTaskFull : Scheduler ℕ where
  server := { Server.twoWorkers with
    states := Server.twoWorkers.states.set 64 .running
    pending := .empty 1
    running := ((BoundedQueue.empty 1).push 64).getD (.empty 1)
    control := .removeTask 32 }
  tasks := ⟨2, [7], by decide⟩

theorem handOver_iff_twoWorkers : ∃ v, HandOver (oneTask .twoWorkers) 7 true v ∧
    (v.Delivered 32 ∨ Undone (oneTask .twoWorkers) v 32 7) := by
  obtain ⟨t, v, hremove, hsend⟩ : ∃ t v, (oneTask .twoWorkers).step .remove = some t ∧
      t.step (.server (.sent true)) = some v := ⟨_, _, rfl, rfl⟩
  have h : HandOver (oneTask .twoWorkers) 7 true v := .send hremove .nil hsend
  exact ⟨v, h, (handOver_iff _ v 32 7 (.empty 2) true rfl rfl (by simp) h).mpr (by decide)⟩

/-- In the three places where a hand-over fails the task is lost. Without a channel the worker is
`Waiting` and in no queue, after a failed send it counts as running; a full running queue brings it
back. -/
theorem handOver_loses_task : ∃ v₁ v₂ v₃,
    HandOver (oneTask { Server.twoWorkers with channels := [64] }) 7 true v₁ ∧
    (v₁.tasks.items = [] ∧ v₁.server.states.get? 32 = some .waiting ∧
      v₁.server.pending.items = [64] ∧ v₁.server.running.items = []) ∧
    HandOver oneTaskFull 7 true v₂ ∧
    (v₂.tasks.items = [] ∧ v₂.server.states.get? 32 = some .waiting ∧
      v₂.server.pending.items = [32] ∧ v₂.server.running.items = [64]) ∧
    HandOver (oneTask .twoWorkers) 7 false v₃ ∧
    (v₃.tasks.items = [] ∧ v₃.server.states.get? 32 = some .running ∧
      v₃.server.pending.items = [64] ∧ v₃.server.running.items = [32]) := by
  obtain ⟨v₁, h₁, hv₁⟩ : ∃ v₁,
      HandOver (oneTask { Server.twoWorkers with channels := [64] }) 7 true v₁ ∧
      (v₁.tasks.items = [] ∧ v₁.server.states.get? 32 = some .waiting ∧
        v₁.server.pending.items = [64] ∧ v₁.server.running.items = []) :=
    ⟨_, .atOnce rfl rfl, by decide +kernel⟩
  obtain ⟨v₂, h₂, hv₂⟩ : ∃ v₂,
      HandOver oneTaskFull 7 true v₂ ∧
      (v₂.tasks.items = [] ∧ v₂.server.states.get? 32 = some .waiting ∧
        v₂.server.pending.items = [32] ∧ v₂.server.running.items = [64]) :=
    ⟨_, .atOnce rfl rfl, by decide +kernel⟩
  obtain ⟨v₃, h₃, hv₃⟩ : ∃ v₃, HandOver (oneTask .twoWorkers) 7 false v₃ ∧
      (v₃.tasks.items = [] ∧ v₃.server.states.get? 32 = some .running ∧
        v₃.server.pending.items = [64] ∧ v₃.server.running.items = [32]) :=
    ⟨_, .send rfl .nil rfl, by decide +kernel⟩
  exact ⟨v₁, v₂, v₃, h₁, hv₁, h₂, hv₂, h₃, hv₃⟩

end Scheduler

/-! ### The return of a call -/

/-- `handle_event` returns an error for the event. -/
def UnknownEvent (event : UInt64) : Prop :=
  eventType event ≠ some .block ∧ eventType event ≠ some .wake ∧ eventType event ≠ some .wait

/-- The step belongs to a call: it neither starts one nor is it one of the registration. -/
def Input.InCall : Input τ → Prop
  | .schedule | .recv _ | .waited _ => False
  | .tau | .removed _ | .sent _ | .switched _ => True

instance : (i : Input τ) → Decidable i.InCall
  | .schedule | .recv _ | .waited _ => .isFalse id
  | .tau | .removed _ | .sent _ | .switched _ => .isTrue trivial

namespace Control

/-- Control is in a call of `try_schedule_tasks` or after its return, and all events that the call
has still to handle satisfy `P`. -/
def FromCall (P : UInt64 → Prop) : Control τ → Prop
  | handleEvent e _ (.trySchedule rest) => P e ∧ ∀ e' ∈ rest, P e'
  | ctxSwitch _ (.handleEvent _ (.trySchedule rest)) => ∀ e ∈ rest, P e
  | handleEvent _ _ .runEventLoop | ctxSwitch _ (.handleEvent _ .runEventLoop) => False
  | registering _ | registerSwitch _ _ => False
  | _ => True

variable {P Q : UInt64 → Prop} {c : Control τ}

theorem FromCall.mono (h : c.FromCall P) (hPQ : ∀ e, P e → Q e) : c.FromCall Q := by
  cases c with
  | handleEvent e d caller =>
    cases caller with
    | runEventLoop => exact h
    | trySchedule rest => exact ⟨hPQ e h.1, fun e' he' => hPQ e' (h.2 e' he')⟩
  | ctxSwitch w site =>
    rcases site with _ | ⟨d, _ | rest⟩
    · trivial
    · exact h
    · exact fun e he => hPQ e (h e he)
  | _ => exact h

theorem FromCall.serving (h : c.FromCall P) : c.Serving := by
  cases c with
  | registering | registerSwitch => exact h
  | _ => trivial

end Control

namespace Server

variable {s t : Server τ} {i : Input τ} {P : UInt64 → Prop}

/-- What is known of a call after a step of it: `P` of the events it has still to handle, and why it
has returned if it has. -/
structure Outcomes (P : UInt64 → Prop) (i : Input τ) (t : Server τ) : Prop where
  fromCall : t.control.FromCall P
  ok : t.control = .eventLoop .ok → t.pending.items = [] ∨ i = .removed none
  err : ∀ e, t.control = .eventLoop (.err e) → ∃ event, P event ∧ UnknownEvent event

/-- The call has not returned. -/
private theorem Outcomes.of_ne (h : t.control.FromCall P) (hne : ∀ r, t.control ≠ .eventLoop r) :
    Outcomes P i t := ⟨h, fun hc => absurd hc (hne _), fun _ hc => absurd hc (hne _)⟩

/-- The call handles the next event of its buffer, or goes on at the head of its loop. -/
private theorem Outcomes.nextEvent {rest : List UInt64} (h : ∀ e ∈ rest, P e)
    (hc : t.control = Server.nextEvent rest) : Outcomes P i t := by
  cases rest with
  | nil => exact .of_ne (by rw [hc]; trivial) (by simp [hc, Server.nextEvent])
  | cons e rest =>
    refine .of_ne ?_ (by simp [hc, Server.nextEvent])
    rw [hc]
    exact ⟨h e List.mem_cons_self, fun e' he' => h e' (List.mem_cons_of_mem e he')⟩

/-- The steps of a call of `try_schedule_tasks` and its ways out: an empty pending queue, an empty
task queue, and an event of unknown type. -/
theorem Move.fromCall (h : s.control.FromCall P) (hi : i.InCall)
    (hP : ∀ a, i = .switched a → ∀ e ∈ a.reported, P e) (hm : Move s i t) : Outcomes P i t := by
  cases hm with
  | schedule | recv | unmanaged => exact hi.elim
  | popEmpty hc hq => exact ⟨trivial, fun _ => .inl hq, by simp⟩
  | noTask hc => exact ⟨trivial, fun _ => .inr rfl, by simp⟩
  | popUnknown hc => exact .of_ne h (by simp [hc])
  | popCritical hc =>
    refine .of_ne ?_ (by simp [hc])
    simp only [pushPending_control, diagnose_control]
    exact h
  | popWaiting | noChannel | dispatch | runningFull | sentOk | sendFailed =>
    exact .of_ne trivial (by simp)
  | switchedBack hc => exact .nextEvent (hP _ rfl) rfl
  | @switchedSilent w a d caller hc ha =>
    rw [hc] at h
    cases caller with
    | runEventLoop => exact h.elim
    | trySchedule rest => exact .nextEvent h rfl
  | @switchedNested w a d caller e rest hc ha =>
    rw [hc] at h
    cases caller with
    | runEventLoop => exact h.elim
    | trySchedule rest' => exact .of_ne ⟨hP _ rfl e (by simp [ha]), h⟩ (by simp)
  | @wake e d caller hc he hw =>
    rw [hc] at h
    cases caller with
    | runEventLoop => exact h.elim
    | trySchedule rest => exact .of_ne h.2 (by simp)
  | @block _ _ caller hc _ _ | @wait _ _ caller hc _ _ | @waitUnexpected _ _ caller _ hc _ _ _
  | @ignored _ _ caller hc _ =>
    rw [hc] at h
    cases caller with
    | runEventLoop => exact h.elim
    | trySchedule rest => exact .nextEvent h.2 rfl
  | @invalid e d caller hc he =>
    rw [hc] at h
    cases caller with
    | runEventLoop => exact h.elim
    | trySchedule rest => exact ⟨trivial, by simp [resume], fun _ _ => ⟨e, h.1, he⟩⟩

end Server

namespace Scheduler

variable {s t u : Scheduler τ} {a : SchedulerStep τ} {l : List (SchedulerStep τ)}

/-- The server is inside of one call; other threads are free. -/
def InCall (_ : Scheduler τ) : SchedulerStep τ → Prop
  | .server x => x.InCall
  | .remove | .submit _ | .add _ | .take => True

instance (s : Scheduler τ) : (a : SchedulerStep τ) → Decidable (s.InCall a)
  | .server x => inferInstanceAs (Decidable x.InCall)
  | .remove | .submit _ | .add _ | .take => .isTrue trivial

/-- No other thread has added a task since the last `remove_task()` of the server. Tasks that were
added while the server was inside of its `CtxSwitch` do not count. -/
def settled (l : List (SchedulerStep τ)) : Bool :=
  l.foldl (fun b a =>
    match a with
    | .add _ => false
    | .remove => true
    | .server _ | .submit _ | .take => b) true

/-- A context switch of the call has reported the event. -/
def Reported (l : List (SchedulerStep τ)) (event : UInt64) : Prop :=
  ∃ a, .server (.switched a) ∈ l ∧ event ∈ a.reported

theorem Reported.append (l' : List (SchedulerStep τ)) {event : UInt64} (h : Reported l event) :
    Reported (l ++ l') event := by
  obtain ⟨a, ha, he⟩ := h
  exact ⟨a, List.mem_append_left l' ha, he⟩

/-- What is known of the call after the steps `l`. -/
structure CallInv (l : List (SchedulerStep τ)) (t : Scheduler τ) : Prop where
  fromCall : t.server.control.FromCall (Reported l)
  ok : t.server.control = .eventLoop .ok →
    t.server.pending.items = [] ∨ (settled l = true → t.tasks.items = [])
  err : ∀ e, t.server.control = .eventLoop (.err e) →
    ∃ event, Reported l event ∧ UnknownEvent event

/-- A step of the server in the call. -/
private theorem CallInv.move {x : Input τ} (h : CallInv l s) (hx : x.InCall)
    (hm : Server.Move s.server x t.server)
    (hP : ∀ b, x = .switched b → a = .server (.switched b))
    (hnone : x = .removed none → t.tasks.items = []) : CallInv (l ++ [a]) t := by
  have hout := hm.fromCall (h.fromCall.mono fun _ => Reported.append [a]) hx fun b hb e he =>
    ⟨b, List.mem_append_right l (by simp [hP b hb]), he⟩
  exact ⟨hout.fromCall, fun hc => (hout.ok hc).imp_right fun hr _ => hnone hr, hout.err⟩

/-- A step of another thread. -/
private theorem CallInv.other (h : CallInv l s) (hserver : t.server = s.server)
    (htasks : settled (l ++ [a]) = true → s.tasks.items = [] → t.tasks.items = [])
    (hsettled : settled (l ++ [a]) = true → settled l = true) : CallInv (l ++ [a]) t := by
  refine ⟨hserver ▸ h.fromCall.mono fun _ => Reported.append [a], fun hc => ?_, fun e hc => ?_⟩
  · rw [hserver] at hc ⊢
    exact (h.ok hc).imp_right fun hr hs => htasks hs (hr (hsettled hs))
  · obtain ⟨event, hrep, hun⟩ := h.err e (hserver ▸ hc)
    exact ⟨event, hrep.append [a], hun⟩

/-- Every step of the call, and of the other threads during it, keeps what is known. -/
theorem CallInv.step (h : CallInv l s) (ha : s.InCall a) (hstep : s.step a = some t) :
    CallInv (l ++ [a]) t := by
  cases a with
  | server x =>
    obtain ⟨hx, -, hne⟩ := server_of_step hstep
    refine h.move ha (Server.move_of_step h.fromCall.serving hx) (fun b hb => by rw [hb])
      fun hr => absurd hr (hne none)
  | remove =>
    rcases server_of_remove hstep with ⟨hnil, htasks, hx⟩ | ⟨task, hpop, hx⟩
    · exact h.move (x := .removed none) trivial (Server.move_of_step h.fromCall.serving hx)
        (by simp) fun _ => htasks ▸ hnil
    · exact h.move (x := .removed (some task)) trivial
        (Server.move_of_step h.fromCall.serving hx) (by simp) (by simp)
  | submit k =>
    -- The server is inside of a switch, so the call has not returned.
    obtain ⟨htarget, rfl⟩ := eq_of_submit hstep
    have hne (r : Outcome) : s.server.control ≠ .eventLoop r := fun hc => by
      rw [hc] at htarget
      exact htarget rfl
    exact ⟨h.fromCall.mono fun _ => Reported.append _, fun hc => absurd hc (hne _),
      fun _ hc => absurd hc (hne _)⟩
  | add k =>
    obtain ⟨-, rfl⟩ := eq_of_add hstep
    exact h.other rfl (by simp [settled]) (by simp [settled])
  | take =>
    cases hstep
    refine h.other rfl (fun _ hnil => ?_) (by simp [settled])
    simp [BoundedQueue.pop_eq_none_iff.mpr hnil, hnil]

/-- Let `try_schedule_tasks` run from the head of its loop, with any tasks in the queue and whatever
the kernel, the workers and the other threads do. When it has returned `Ok` and no other thread has
added a task since its last `remove_task`, then the task queue is empty or no worker is pending;
tasks added during its context switches, by the worker that it has switched to or by any other
thread, are free. It returns an error only if a context switch of the call has reported an event
that is not a `BLOCK`, a `WAKE` or a `WAIT`. -/
theorem work_conserving (s t : Scheduler τ) (l : List (SchedulerStep τ))
    (hc : s.server.control = .popPending) (hrun : Run (Guarded step InCall) s l t) (r : Outcome)
    (hret : t.server.control = .eventLoop r) :
    (r = .ok → settled l = true → t.tasks.items = [] ∨ t.server.pending.items = []) ∧
      ∀ e, r = .err e → ∃ a, .server (.switched a) ∈ l ∧ ∃ event ∈ a.reported,
        eventType event ≠ some .block ∧ eventType event ≠ some .wake ∧
          eventType event ≠ some .wait := by
  have hI : CallInv l t := by
    refine hrun.history (I := CallInv) ⟨?_, by simp [hc], by simp [hc]⟩ fun _ _ _ _ hI hs =>
      hI.step hs.1 hs.2
    rw [hc]
    trivial
  constructor
  · rintro rfl hs
    exact (hI.ok hret).symm.imp_left fun h => h hs
  · rintro e rfl
    obtain ⟨event, ⟨a, ha, he⟩, hun⟩ := hI.err e hret
    exact ⟨a, ha, event, he, hun⟩

/-- The first worker submits a second task and waits again; the second worker takes that task,
submits a third one and blocks; the first worker takes the third one, submits a fourth one and
blocks too. Then no worker is pending, and the last task was added after the last removal. -/
def nestedSubmission : List (SchedulerStep ℕ) :=
  [.server .tau, .remove, .server (.sent true), .submit 8,
    .server (.switched (.report (eventWord 32 .wait))), .server .tau, .server .tau, .remove,
    .server (.sent true), .submit 9, .server (.switched (.report (eventWord 64 .block))),
    .server .tau, .server .tau, .remove, .server (.sent true), .submit 10,
    .server (.switched (.report (eventWord 32 .block))), .server .tau, .server .tau]

/-- Two workers are pending, and there is one task. -/
def oneTaskForTwo : Scheduler ℕ where
  server := { Server.twoWorkers with control := .popPending }
  tasks := ⟨2, [7], by decide⟩

theorem work_conserving_nestedSubmission : ∃ t,
    Run (Guarded step InCall) oneTaskForTwo nestedSubmission t ∧
      t.tasks.items = [10] ∧ (t.tasks.items = [] ∨ t.server.pending.items = []) := by
  have hrun : Run (Guarded step InCall) oneTaskForTwo nestedSubmission _ :=
    run_trace (by decide +kernel)
  exact ⟨_, hrun, by decide +kernel,
    (work_conserving _ _ _ rfl hrun .ok (by decide +kernel)).1 rfl (by decide)⟩

end Scheduler

end Umcg.Attempt2
