import Umcg.Pool.Machine

/-!
# A worker that the pool records as `Waiting` is idle

The pool of `lib.rs` sets a worker back to `Waiting` when its `WAIT` is handled, and also when the
context switch that was to start its task has failed or has reported an event that
`handle_umcg_event` does not know (`PREEMPT`). By then the task has been sent, so the worker has it
in its channel, or is in the middle of it. Under `Machine.StartsTasks`, which excludes just this, a
`Waiting` worker has an empty channel and is outside of any task in every state of every run.

With the events of this kernel the stack of calls has at most two frames. `Position` says where
the server is, and `Server.At` what that means for its control and its stack. Of the positions the
invariant `Machine.IdleAt` needs to know which worker the server is busy with.

## Main results

* `Machine.IdleAt.step` : every step leads from a position with the invariant to another one.
* `Machine.waiting_is_idle` : a `Waiting` worker is idle in every state of every run.
-/

namespace Umcg.Pool

/-- Where the server is, and the worker it deals with there. The flag `start` says that the context
switch was made by `try_schedule_tasks`, to start a task. -/
inductive Position
  /-- Outside of any context switch. -/
  | outside
  /-- At the `WAKE` of `tid`. -/
  | waking (tid : Int32)
  /-- At the send of a task to `tid`. -/
  | giving (tid : Int32)
  /-- In a context switch to `tid`. -/
  | inside (tid : Int32) (start : Bool)
  /-- A context switch to `tid` has reported the event `t`, which is not handled yet. -/
  | reported (tid : Int32) (t : UmcgEventType) (start : Bool)
  /-- On the way back from a context switch to `tid`. -/
  | returning (tid : Int32) (start : Bool)

/-- The caller of `context_switch_worker`. -/
def Frame.caller (start : Bool) (tid : Int32) : Frame :=
  if start then .scheduled tid else .wakeBlocked

namespace Server

variable {τ : Type} {s t : Server τ} {tid : Int32} {start : Bool} {p : Position}

/-- The status of a worker of the pool. -/
def status (s : Server τ) (tid : Int32) : Option WorkerStatus :=
  (s.workers.get? tid).map Worker.status

/-- The control and the stack at a position. -/
def At (s : Server τ) : Position → Prop
  | .outside => s.stack = [] ∧
      ((∃ r, s.control = .loop r) ∨ s.control = .schedule ∨ ∃ r, s.control = .ret r)
  | .waking tid => s.stack = [] ∧ s.control = .handle (eventOf tid .wake)
  | .giving tid => s.stack = [] ∧ ∃ task, s.control = .assign tid task .schedule
  | .inside tid start => s.stack = [.caller start tid] ∧ s.control = .switching tid
  | .reported tid t start =>
      s.stack = [.switchEvents [eventOf tid t], .caller start tid] ∧ s.control = .ret .ok ∨
      s.stack = [.switchEvents [], .caller start tid] ∧ s.control = .handle (eventOf tid t)
  | .returning tid start => ∃ r, s.control = .ret r ∧ (start = true → r = .ok) ∧
      (s.stack = [.switchEvents [], .caller start tid] ∨ s.stack = [.caller start tid])

/-- `context_switch_worker` was called to start a task that has just been assigned. -/
def startsTask (s : Server τ) : Bool :=
  match s.stack with
  | .scheduled _ :: _ | .wakeRunning _ :: _ => true
  | _ => false

theorem At.congr (h : s.At p) (hc : t.control = s.control) (hs : t.stack = s.stack) : t.At p := by
  cases p <;> simpa only [At, hc, hs] using h

theorem status_updateWorkerStatus_eq (s : Server τ) (tid : Int32) (st : WorkerStatus)
    (task : Option ℕ) (v : Int32) : (s.updateWorkerStatus tid st task).status v =
      if v = tid then (s.status v).map fun _ => st else s.status v := by
  unfold status
  rw [updateWorkerStatus_get?]
  split_ifs
  · rw [Option.map_map, Option.map_map]
    rfl
  · rfl

theorem status_updateWorkerStatusKeepTask_eq (s : Server τ) (tid : Int32) (st : WorkerStatus)
    (v : Int32) : (s.updateWorkerStatusKeepTask tid st).status v =
      if v = tid then (s.status v).map fun _ => st else s.status v := by
  unfold status
  rw [updateWorkerStatusKeepTask_get?]
  split_ifs
  · rw [Option.map_map, Option.map_map]
    rfl
  · rfl

/-- Updating the record of a worker that has one. -/
private theorem ite_map_status {a : WorkerStatus} (hst : s.status tid = some a)
    (st : WorkerStatus) (v : Int32) :
    (if v = tid then (s.status v).map fun _ => st else s.status v) =
      if v = tid then some st else s.status v := by
  split_ifs with hv
  · rw [hv, hst]
    rfl
  · rfl

theorem status_updateWorkerStatus {a : WorkerStatus} (hst : s.status tid = some a)
    (st : WorkerStatus) (task : Option ℕ) (v : Int32) :
    (s.updateWorkerStatus tid st task).status v = if v = tid then some st else s.status v :=
  (s.status_updateWorkerStatus_eq tid st task v).trans (ite_map_status hst st v)

theorem status_updateWorkerStatusKeepTask {a : WorkerStatus} (hst : s.status tid = some a)
    (st : WorkerStatus) (v : Int32) :
    (s.updateWorkerStatusKeepTask tid st).status v = if v = tid then some st else s.status v :=
  (s.status_updateWorkerStatusKeepTask_eq tid st v).trans (ite_map_status hst st v)

/-! ### The steps of the server, position by position -/

theorem At.eq_outside {r : Outcome} (h : s.At p) (hc : s.control = .loop r) : p = .outside := by
  cases p <;> simp_all [At]

theorem At.eq_giving {task : TaskEntry τ} {site : Site} (h : s.At p)
    (hc : s.control = .assign tid task site) : p = .giving tid ∧ site = .schedule := by
  cases p <;> simp_all [At]

theorem At.eq_inside (h : s.At p) (hc : s.control = .switching tid) :
    ∃ start, p = .inside tid start := by
  cases p <;> simp_all [At]

theorem status_of_waitingWorker (hw : s.waitingWorker = some tid) :
    s.status tid = some .waiting := by
  have hfound := List.find?_some hw
  have hk : tid ∈ s.workers.keys := List.mem_of_find?_eq_some hw
  simpa [status, s.workers.get?_of_mem hk] using hfound

theorem At.eq_waking {e : UInt64} (h : s.At p) (hc : s.control = .handle e) (hs : s.stack = []) :
    ∃ tid, p = .waking tid ∧ e = eventOf tid .wake := by
  cases p <;> simp_all [At]

/-- `try_schedule_tasks` returns, or takes a task for a waiting worker. -/
theorem At.tau_outside (h : s.At .outside) (ht : s.step .tau = some t) :
    (t.At .outside ∧ t.status = s.status) ∨
      ∃ tid, t.At (.giving tid) ∧ s.status tid = some .waiting ∧
        ∀ v, t.status v = if v = tid then some .running else s.status v := by
  obtain ⟨hs, hc⟩ := h
  have hm := move_of_step ht
  cases hm
  case noWorker | noTask => exact .inl ⟨⟨hs, .inr (.inr ⟨_, rfl⟩)⟩, rfl⟩
  case take tid task q hc hw hq =>
    have hst := status_of_waitingWorker hw
    exact .inr ⟨tid, ⟨hs, task, rfl⟩, hst, status_updateWorkerStatus hst .running (some task.id)⟩
  case returned => exact .inl ⟨⟨hs, .inl ⟨_, rfl⟩⟩, rfl⟩
  all_goals simp_all

/-- The `WAKE` of a blocked worker is handled. -/
theorem At.tau_waking (h : s.At (.waking tid)) (hst : s.status tid = some .blocked)
    (ht : s.step .tau = some t) : t.At (.inside tid false) ∧
      ∀ v, t.status v = if v = tid then some .running else s.status v := by
  obtain ⟨hs, hc⟩ := h
  obtain ⟨⟨st, current⟩, hw, hst'⟩ := Option.map_eq_some_iff.mp hst
  obtain rfl : st = .blocked := hst'
  have ht' : t = { s.readWorkers.updateWorkerStatus tid .running current with
      stack := .wakeBlocked :: s.stack, control := .switching tid } := by
    simpa [step, hc, handleEvent, hw] using ht.symm
  subst ht'
  exact ⟨⟨by simp [hs, Frame.caller], rfl⟩, status_updateWorkerStatus hst .running current⟩

/-- The status of a running worker after its event. -/
def statusAfter : UmcgEventType → WorkerStatus
  | .block => .blocked
  | .wait => .waiting
  | .exit => .completed
  | _ => .running

/-- The event of a running worker is handled. -/
theorem At.tau_reported {ev : UmcgEventType} (h : s.At (.reported tid ev start))
    (hst : s.status tid = some .running)
    (hev : ev = .block ∨ ev = .wait ∨ ev = .exit ∨ ev = .preempt ∧ start = false)
    (ht : s.step .tau = some t) :
    (t.At (.reported tid ev start) ∧ t.status = s.status) ∨ t.At (.returning tid start) ∧
      ∀ v, t.status v = if v = tid then some (statusAfter ev) else s.status v := by
  rcases h with ⟨hs, hc⟩ | ⟨hs, hc⟩
  · have ht' : t = { s with stack := [.switchEvents [], .caller start tid],
                            control := .handle (eventOf tid ev) } := by
      simpa [step, hc, resume, hs] using ht.symm
    subst ht'
    exact .inl ⟨.inr ⟨rfl, rfl⟩, rfl⟩
  · right
    have ht' : t = s.handleEvent (eventOf tid ev) := by simpa [step, hc] using ht.symm
    subst ht'
    obtain ⟨⟨st, current⟩, hw, hst'⟩ := Option.map_eq_some_iff.mp hst
    obtain rfl : st = .running := hst'
    rcases hev with rfl | rfl | rfl | ⟨rfl, rfl⟩
    · have hres : s.handleEvent (eventOf tid .block) =
          (s.updateWorkerStatusKeepTask tid .blocked).ret .ok := by simp [handleEvent]
      rw [hres]
      exact ⟨⟨.ok, rfl, fun _ => rfl, .inl hs⟩, status_updateWorkerStatusKeepTask hst .blocked⟩
    · have hres : s.handleEvent (eventOf tid .wait) =
          (s.readWorkers.updateWorkerStatus tid .waiting none).ret .ok := by
        simp [handleEvent, hw]
      rw [hres]
      exact ⟨⟨.ok, rfl, fun _ => rfl, .inl hs⟩, status_updateWorkerStatus hst .waiting none⟩
    · have hres : s.handleEvent (eventOf tid .exit) =
          (s.updateWorkerStatus tid .completed none).ret .ok := by simp [handleEvent]
      rw [hres]
      exact ⟨⟨.ok, rfl, fun _ => rfl, .inl hs⟩, status_updateWorkerStatus hst .completed none⟩
    · have hres : s.handleEvent (eventOf tid .preempt) =
          s.ret (.err (.invalidWorkerEvent tid.toInt64.toUInt64 (eventOf tid .preempt))) := by
        simp [handleEvent]
      rw [hres]
      refine ⟨⟨_, rfl, by simp, .inl hs⟩, fun v => ?_⟩
      change s.status v = _
      split_ifs with hv
      · rw [hv, hst]; rfl
      · rfl

/-- The callers return. -/
theorem At.tau_returning (h : s.At (.returning tid start)) (ht : s.step .tau = some t) :
    (t.At (.returning tid start) ∨ t.At .outside) ∧ t.status = s.status := by
  obtain ⟨r, hc, hr, hs | hs⟩ := h
  · have ht' : t = { s with stack := [.caller start tid] }.ret r := by
      cases r <;> simpa [step, hc, resume, hs, ret] using ht.symm
    subst ht'
    exact ⟨.inl ⟨r, rfl, hr, .inr rfl⟩, rfl⟩
  · have ht' : t = { s with stack := [] }.ret .ok := by
      cases start with
      | true =>
        obtain rfl := hr rfl
        simpa [step, hc, resume, hs, Frame.caller] using ht.symm
      | false => simpa [step, hc, resume, hs, Frame.caller] using ht.symm
    subst ht'
    exact ⟨.inr ⟨rfl, .inr (.inr ⟨_, rfl⟩)⟩, rfl⟩

/-- The task has been sent, or the entry had no closure to send. -/
theorem At.sent_true (h : s.At (.giving tid)) (ht : s.step (.sent true) = some t) :
    t.At (.inside tid true) ∧ t.status = s.status := by
  obtain ⟨hs, task, hc⟩ := h
  have ht' : t = { s with stack := [.scheduled tid], control := .switching tid } := by
    simpa [step, hc, assigned, TaskEntry.assignTask_true, hs] using ht.symm
  subst ht'
  exact ⟨⟨rfl, rfl⟩, rfl⟩

/-- The send has failed. -/
theorem At.sent_false (h : s.At (.giving tid)) (hst : s.status tid = some .running)
    (hf : ∀ task, s.control = .assign tid task .schedule → task.closure ≠ none)
    (ht : s.step (.sent false) = some t) :
    t.At .outside ∧ ∀ v, t.status v = if v = tid then some .waiting else s.status v := by
  obtain ⟨hs, task, hc⟩ := h
  have hclosure := hf task hc
  have ht' : t = (s.requeue tid { task with state := .completed }).ret .ok := by
    obtain ⟨id, st⟩ := task
    cases st <;> simp [TaskEntry.closure] at hclosure
    simpa [step, hc, assigned, TaskEntry.assignTask] using ht.symm
  subst ht'
  exact ⟨⟨hs, .inr (.inr ⟨_, rfl⟩)⟩, status_updateWorkerStatus hst .waiting none⟩

/-- The context switch has failed. -/
theorem At.switch_failed {errno : Int} (h : s.At (.inside tid false))
    (ht : s.step (.switched .failure errno) = some t) :
    t.At (.returning tid false) ∧ t.status = s.status := by
  obtain ⟨hs, hc⟩ := h
  have ht' : t = s.ret (.err (.systemError errno)) := by
    simpa [step, hc, switched, SwitchAnswer.failure] using ht.symm
  subst ht'
  exact ⟨⟨_, rfl, by simp, .inr hs⟩, rfl⟩

/-- The context switch has reported an event of the worker. -/
theorem At.switch_reported {ev : UmcgEventType} (h : s.At (.inside tid start))
    (ht : s.step (.switched (.report (eventOf tid ev)) 0) = some t) :
    t.At (.reported tid ev start) ∧ t.status = s.status := by
  obtain ⟨hs, hc⟩ := h
  have ht' : t = { s with stack := .switchEvents [eventOf tid ev] :: s.stack,
                          control := .ret .ok } := by
    have hret : (SwitchAnswer.report (eventOf tid ev)).ret = 0 := rfl
    simpa [step, hc, switched, hret, reported_eventOf] using ht.symm
  subst ht'
  exact ⟨.inl ⟨by rw [hs], rfl⟩, rfl⟩

end Server

namespace Machine

variable {τ : Type} {m m' : Machine τ} {p : Position} {tid : Int32}

/-- The `BLOCK` of `tid` has been reported, and its `WAKE` has not been received. -/
def Asleep (m : Machine τ) (p : Position) (tid : Int32) : Prop :=
  m.server.status tid = some .blocked ∨ ∃ start, p = .reported tid .block start

/-- What holds for the worker that the server deals with. -/
def PosOk (m : Machine τ) : Position → Prop
  | .outside | .returning _ _ => True
  | .waking tid => m.server.status tid = some .blocked ∧ m.park tid = .ready ∧
      eventOf tid .wake ∉ m.inbox
  | .giving tid => m.server.status tid = some .running ∧ (m.thread tid).AtRest
  | .inside tid _ => m.server.status tid = some .running
  | .reported tid ev start => m.server.status tid = some .running ∧ m.park tid ≠ .running ∧
      (ev = .wait → (m.thread tid).AtRest) ∧
      (ev = .block ∨ ev = .wait ∨ ev = .exit ∨ ev = .preempt ∧ start = false)

/-- The server is at the position `p`, and the pool, the threads and the kernel agree about every
worker. -/
structure IdleAt (m : Machine τ) (p : Position) : Prop where
  server : m.server.At p
  ok : m.PosOk p
  running : ∀ tid, m.park tid = .running → ∃ start, p = .inside tid start
  tasks : ∀ tid, (m.thread tid).TasksOk
  free : ∀ tid, m.server.status tid = some .waiting → (m.thread tid).AtRest
  nodup : m.inbox.Nodup
  wakes : ∀ e ∈ m.inbox, ∃ tid, e = eventOf tid .wake ∧ m.park tid = .ready ∧ m.Asleep p tid
  blocked : ∀ tid, m.park tid = .blocked → eventOf tid .wake ∉ m.inbox ∧ m.Asleep p tid

theorem Initial.idleAt (h : m.Initial) : m.IdleAt .outside := by
  have hrest : ∀ tid, (m.thread tid).AtRest := fun tid => by
    simp [h.thread tid, WorkerThread.AtRest, WorkerPc.inTask, WorkerPc.isIdle]
  have hpark : ∀ tid, m.park tid ≠ .running ∧ m.park tid ≠ .blocked := fun tid => by
    rw [h.park]
    split_ifs <;> simp
  exact ⟨⟨h.stack, .inl h.control⟩, trivial, fun tid ht => absurd ht (hpark tid).1,
    fun tid => (hrest tid).tasksOk, fun tid _ => hrest tid, by simp [h.inbox], by simp [h.inbox],
    fun tid ht => absurd ht (hpark tid).2⟩

/-- A worker that the pool does not count as running is not running. -/
theorem IdleAt.not_running (h : m.IdleAt p) (hst : m.server.status tid ≠ some .running) :
    m.park tid ≠ .running := by
  intro hp
  obtain ⟨start, rfl⟩ := h.running tid hp
  exact hst h.ok

/-- The server takes a step that changes at most the status of `tid`, which is not asleep. -/
private theorem IdleAt.setServer (h : m.IdleAt p) {t : Server τ} {q : Position}
    {st : Option WorkerStatus} (hat : t.At q) (hok : (m.setServer t).PosOk q)
    (hst : ∀ v, t.status v = if v = tid then st else m.server.status v)
    (hp : ∀ v start, p ≠ .inside v start) (hfree : st = some .waiting → (m.thread tid).AtRest)
    (hasleep : m.park tid = .blocked ∨ eventOf tid .wake ∈ m.inbox → m.Asleep p tid →
      st = some .blocked ∨ ∃ start, q = .reported tid .block start)
    (hblock : ∀ v start, p = .reported v .block start → v = tid) : (m.setServer t).IdleAt q := by
  have hasleep' : ∀ v, m.park v = .blocked ∨ eventOf v .wake ∈ m.inbox → m.Asleep p v →
      (m.setServer t).Asleep q v := by
    intro v hmark hv
    by_cases hvt : v = tid
    · subst hvt
      exact (hasleep hmark hv).imp (by simp [hst, ·]) id
    · rcases hv with hv | ⟨start, hv⟩
      · exact .inl (by simpa [hst, hvt] using hv)
      · exact absurd (hblock v start hv) hvt
  refine ⟨hat, hok, fun v hv => ?_, h.tasks, fun v hv => ?_, h.nodup, fun e he => ?_,
    fun v hv => ⟨(h.blocked v hv).1, hasleep' v (.inl hv) (h.blocked v hv).2⟩⟩
  · obtain ⟨start, rfl⟩ := h.running v hv
    exact absurd rfl (hp v start)
  · by_cases hvt : v = tid
    · subst hvt
      exact hfree (by simpa [hst] using hv)
    · exact h.free v (by simpa [hst, hvt] using hv)
  · obtain ⟨v, rfl, hpark, hv⟩ := h.wakes e he
    exact ⟨v, rfl, hpark, hasleep' v (.inr he) hv⟩

/-- The server takes a step, outside of a context switch, that changes no status. -/
private theorem IdleAt.setServer_same (h : m.IdleAt p) {t : Server τ} {q : Position}
    (hat : t.At q) (hok : (m.setServer t).PosOk q) (hst : t.status = m.server.status)
    (hp : ∀ v start, p ≠ .inside v start)
    (hblock : ∀ v start, p = .reported v .block start → q = p) : (m.setServer t).IdleAt q := by
  have hasleep : ∀ v, m.Asleep p v → (m.setServer t).Asleep q v := by
    rintro v (hv | ⟨start, hv⟩)
    · exact .inl (by rw [← hv]; exact congrFun hst v)
    · exact .inr ⟨start, (hblock v start hv).trans hv⟩
  refine ⟨hat, hok, fun v hv => ?_, h.tasks, fun v hv => h.free v ((congrFun hst v) ▸ hv),
    h.nodup, fun e he => ?_, fun v hv => ⟨(h.blocked v hv).1, hasleep v (h.blocked v hv).2⟩⟩
  · obtain ⟨start, rfl⟩ := h.running v hv
    exact absurd rfl (hp v start)
  · obtain ⟨v, rfl, hpark, hv⟩ := h.wakes e he
    exact ⟨v, rfl, hpark, hasleep v hv⟩

private theorem IdleAt.tau (h : m.IdleAt p) {t : Server τ} (ht : m.server.step .tau = some t) :
    ∃ q, (m.setServer t).IdleAt q := by
  cases p with
  | outside =>
    rcases h.server.tau_outside ht with ⟨hat, hst⟩ | ⟨tid, hat, hwait, hst⟩
    · exact ⟨.outside, h.setServer_same hat trivial hst (by simp) (by simp)⟩
    · refine ⟨.giving tid, h.setServer hat ⟨by simp [hst], h.free tid hwait⟩ hst
        (by simp) (by simp) (fun _ hsleep => ?_) (by simp)⟩
      simp [Asleep, hwait] at hsleep
  | waking tid =>
    obtain ⟨hst, hready, hnot⟩ := h.ok
    obtain ⟨hat, hst'⟩ := h.server.tau_waking hst ht
    refine ⟨.inside tid false, h.setServer hat (by simp [PosOk, hst']) hst'
      (by simp) (by simp) (fun hmark => ?_) (by simp)⟩
    simp [hready, hnot] at hmark
  | giving tid =>
    obtain ⟨-, task, hc⟩ := h.server
    simp [Server.step, hc] at ht
  | inside tid start =>
    obtain ⟨-, hc⟩ := h.server
    simp [Server.step, hc] at ht
  | reported tid ev start =>
    obtain ⟨hst, hpark, hwait, hev⟩ := h.ok
    rcases h.server.tau_reported hst hev ht with ⟨hat, hst'⟩ | ⟨hat, hst'⟩
    · refine ⟨.reported tid ev start, h.setServer_same hat ?_ hst' (by simp) (by simp)⟩
      exact ⟨(congrFun hst' tid).trans hst, hpark, hwait, hev⟩
    · refine ⟨.returning tid start, h.setServer hat trivial hst' (by simp) (fun hafter => ?_)
        (fun _ hsleep => .inl ?_) (by simp)⟩
      · cases ev <;> simp_all [Server.statusAfter]
      · rcases hsleep with hsleep | ⟨_, hsleep⟩
        · simp [hst] at hsleep
        · cases hsleep
          rfl
  | returning tid start =>
    obtain ⟨hat | hat, hst⟩ := h.server.tau_returning ht
    · exact ⟨_, h.setServer_same hat trivial hst (by simp) (by simp)⟩
    · exact ⟨_, h.setServer_same hat trivial hst (by simp) (by simp)⟩

/-- An event that the `Wait` of `run_server` has returned. -/
private theorem IdleAt.recv (h : m.IdleAt p) {e : UInt64} (he : e ∈ m.inbox) {t : Server τ}
    (ht : m.server.step (.event e) = some t) :
    ∃ q, IdleAt { m.setServer t with inbox := m.inbox.erase e } q := by
  obtain ⟨r, hc⟩ : ∃ r, m.server.control = .loop r := by
    simp only [Server.step] at ht
    split at ht
    · exact ⟨_, ‹_›⟩
    · cases ht
  obtain rfl := h.server.eq_outside hc
  obtain rfl : t = { m.server with control := .handle e } := by
    simpa [Server.step, hc] using ht.symm
  obtain ⟨tid, rfl, hready, hsleep⟩ := h.wakes e he
  have hst : m.server.status tid = some .blocked := by simpa [Asleep] using hsleep
  have hasleep : ∀ v, m.Asleep .outside v →
      Machine.Asleep { m.setServer { m.server with control := .handle (eventOf tid .wake) } with
        inbox := m.inbox.erase (eventOf tid .wake) } (.waking tid) v := fun v hv =>
    .inl (show m.server.status v = _ by simpa [Asleep] using hv)
  refine ⟨.waking tid, ⟨h.server.1, rfl⟩, ⟨hst, hready, ?_⟩, fun v hv => ?_, h.tasks, h.free,
    h.nodup.erase _, fun e' he' => ?_, fun v hv => ?_⟩
  · exact fun hmem => ((List.Nodup.mem_erase_iff h.nodup).mp hmem).1 rfl
  · obtain ⟨start, hq⟩ := h.running v hv
    cases hq
  · obtain ⟨v, rfl, hpark, hv⟩ := h.wakes e' (List.mem_of_mem_erase he')
    exact ⟨v, rfl, hpark, hasleep v hv⟩
  · exact ⟨fun hmem => (h.blocked v hv).1 (List.mem_of_mem_erase hmem),
      hasleep v (h.blocked v hv).2⟩

/-- The `WAKE` of a worker that runs is not on its way. -/
private theorem IdleAt.wake_not_mem (h : m.IdleAt p) (hp : m.park tid = .running) :
    eventOf tid .wake ∉ m.inbox := by
  intro hmem
  obtain ⟨v, hv, hready, -⟩ := h.wakes _ hmem
  obtain rfl := tid_eq_of_eventOf hv
  simp [hp] at hready

/-- The worker that runs stops, and the context switch reports it; `k` and `pk` are what is left of
the worker. -/
private theorem IdleAt.stopped (h : m.IdleAt p) (hcpu : m.onCpu = some tid)
    {k : WorkerThread τ} {pk : Park} {ev : UmcgEventType} (hk : k.TasksOk) (hpk : pk ≠ .running)
    (hwait : ev = .wait → k.AtRest) (hblock : pk = .blocked → ev = .block)
    (hev : ∀ start, p = .inside tid start →
      ev = .block ∨ ev = .wait ∨ ev = .exit ∨ ev = .preempt ∧ start = false) {t : Server τ}
    (ht : m.server.step (.switched (.report (eventOf tid ev)) 0) = some t) :
    ∃ q, (((m.setThread tid k).setPark tid pk).setServer t).IdleAt q := by
  obtain ⟨hc, hrun⟩ := onCpu_eq_some hcpu
  obtain ⟨start, rfl⟩ := h.server.eq_inside hc
  obtain ⟨hat, hst⟩ := h.server.switch_reported ht
  have hrunning : m.server.status tid = some .running := h.ok
  have hasleep : ∀ v, m.Asleep (.inside tid start) v →
      Machine.Asleep (((m.setThread tid k).setPark tid pk).setServer t) (.reported tid ev start)
        v := by
    rintro v (hv | ⟨_, hv⟩)
    · exact .inl ((congrFun hst v).trans hv)
    · cases hv
  refine ⟨.reported tid ev start, hat, ⟨(congrFun hst tid).trans hrunning, ?_, fun hw => ?_,
    hev start rfl⟩, fun v hv => ?_, fun v => ?_, fun v hv => ?_, h.nodup, fun e he => ?_,
    fun v hv => ?_⟩
  · simpa using hpk
  · simpa using hwait hw
  · by_cases hvt : v = tid
    · subst hvt
      exact absurd (by simpa using hv) hpk
    · obtain ⟨_, hq⟩ := h.running v (by simpa [hvt] using hv)
      cases hq
      exact absurd rfl hvt
  · by_cases hvt : v = tid
    · subst hvt
      simpa using hk
    · simpa [hvt] using h.tasks v
  · have hv' : m.server.status v = some .waiting := (congrFun hst v).symm.trans hv
    have hvt : v ≠ tid := by
      rintro rfl
      simp [hrunning] at hv'
    simpa [hvt] using h.free v hv'
  · obtain ⟨v, rfl, hready, hv⟩ := h.wakes e he
    have hvt : v ≠ tid := by
      rintro rfl
      exact h.wake_not_mem hrun he
    exact ⟨v, rfl, by simpa [hvt] using hready, hasleep v hv⟩
  · by_cases hvt : v = tid
    · subst hvt
      obtain rfl := hblock (by simpa using hv)
      exact ⟨h.wake_not_mem hrun, .inr ⟨start, rfl⟩⟩
    · have hv' : m.park v = .blocked := by
        simpa [hvt] using hv
      exact ⟨(h.blocked v hv').1, hasleep v (h.blocked v hv').2⟩

/-- A step of the thread `tid`, which runs or has ended as a UMCG worker. -/
private theorem IdleAt.setThread (h : m.IdleAt p) {k : WorkerThread τ} (hk : k.TasksOk)
    (hrest : m.park tid ≠ .running → (m.thread tid).AtRest → k.AtRest) :
    (m.setThread tid k).IdleAt p := by
  have hrest' : ∀ v, m.park v ≠ .running → (m.thread v).AtRest →
      ((m.setThread tid k).thread v).AtRest := by
    intro v hv hr
    by_cases hvt : v = tid
    · subst hvt
      simpa using hrest hv hr
    · simpa [hvt] using hr
  refine ⟨h.server, ?_, h.running, fun v => ?_, fun v hv => ?_, h.nodup, h.wakes, h.blocked⟩
  · have hok := h.ok
    cases p with
    | giving v =>
      refine ⟨hok.1, hrest' v (fun hv => ?_) hok.2⟩
      obtain ⟨_, hq⟩ := h.running v hv
      cases hq
    | reported v ev start =>
      exact ⟨hok.1, hok.2.1, fun hw => hrest' v hok.2.1 (hok.2.2.1 hw), hok.2.2.2⟩
    | _ => exact hok
  · by_cases hvt : v = tid
    · subst hvt
      simpa using hk
    · simpa [hvt] using h.tasks v
  · replace hv : m.server.status v = some .waiting := hv
    exact hrest' v (h.not_running (by simp [hv])) (h.free v hv)

/-- A context switch that starts a task neither fails nor is answered `PREEMPT`. -/
def StartsTasks (m : Machine τ) : MachineStep τ → Prop
  | .fail _ | .stop .preempt => m.server.startsTask = false
  | _ => True

instance (m : Machine τ) (x : MachineStep τ) : Decidable (m.StartsTasks x) :=
  match x with
  | .fail _ | .stop .preempt => inferInstanceAs (Decidable (_ = _))
  | .stop .block | .schedule | .recv _ | .tau | .submit _ | .send | .resume | .worker _ _ | .wait
  | .waitError | .exit | .unblock _ => .isTrue trivial

/-- A context switch that does not start a task was made for a `WAKE`. -/
theorem start_eq_false {start : Bool} (h : m.server.At (.inside tid start))
    (hs : m.server.startsTask = false) : start = false := by
  cases start with
  | false => rfl
  | true =>
    unfold Server.startsTask at hs
    simp [h.1, Frame.caller] at hs

/-- The send returns, and the server switches to the worker. -/
private theorem IdleAt.sentSame (h : m.IdleAt (.giving tid)) {t : Server τ}
    (ht : m.server.step (.sent true) = some t) : (m.setServer t).IdleAt (.inside tid true) := by
  obtain ⟨hat, hst'⟩ := h.server.sent_true ht
  exact h.setServer_same hat ((congrFun hst' tid).trans h.ok.1) hst' (by simp) (by simp)

private theorem IdleAt.sent (h : m.IdleAt (.giving tid)) {f : τ} {k : WorkerThread τ}
    {t : Server τ} (hk : (m.thread tid).send (.function f) = some k)
    (ht : m.server.step (.sent true) = some t) :
    ((m.setThread tid k).setServer t).IdleAt (.inside tid true) := by
  have ht' := h.sentSame ht
  have hstt : t.status tid = some .running := ht'.ok
  refine ⟨ht'.server, ht'.ok, ht'.running, fun v => ?_, fun v hv => ?_, ht'.nodup, ht'.wakes,
    ht'.blocked⟩
  · by_cases hvt : v = tid
    · simpa [hvt] using h.ok.2.send hk
    · simpa [hvt] using h.tasks v
  · have hvt : v ≠ tid := by
      rintro rfl
      simp [hstt] at hv
    simpa [hvt] using ht'.free v hv

private theorem IdleAt.sendFailed (h : m.IdleAt (.giving tid)) {task : TaskEntry τ} {site : Site}
    {t : Server τ} (hc : m.server.control = .assign tid task site) (hf : task.closure ≠ none)
    (ht : m.server.step (.sent false) = some t) : (m.setServer t).IdleAt .outside := by
  obtain ⟨hst, hrest⟩ := h.ok
  obtain ⟨hat, hst'⟩ := h.server.sent_false hst (fun task' hc' => by
    cases hc.symm.trans hc'
    exact hf) ht
  refine h.setServer hat trivial hst' (by simp) (fun _ => hrest) ?_ (by simp)
  intro _ hsleep
  simp [Asleep, hst] at hsleep

private theorem IdleAt.failed (h : m.IdleAt p) {errno : Int} (hok : m.server.startsTask = false)
    (hc : m.server.control = .switching tid) (hp : m.park tid ≠ .running) {t : Server τ}
    (ht : m.server.step (.switched .failure errno) = some t) : ∃ q, (m.setServer t).IdleAt q := by
  obtain ⟨start, rfl⟩ := h.server.eq_inside hc
  obtain rfl := start_eq_false h.server hok
  obtain ⟨hat, hst⟩ := h.server.switch_failed ht
  have hasleep : ∀ v, m.Asleep (.inside tid false) v →
      (m.setServer t).Asleep (.returning tid false) v := by
    rintro v (hv | ⟨_, hv⟩)
    · exact .inl ((congrFun hst v).trans hv)
    · cases hv
  refine ⟨.returning tid false, hat, trivial, fun v hv => ?_, h.tasks,
    fun v hv => h.free v ((congrFun hst v).symm.trans hv), h.nodup, fun e he => ?_,
    fun v hv => ⟨(h.blocked v hv).1, hasleep v (h.blocked v hv).2⟩⟩
  · obtain ⟨_, hq⟩ := h.running v hv
    cases hq
    exact absurd hv hp
  · obtain ⟨v, rfl, hready, hv⟩ := h.wakes e he
    exact ⟨v, rfl, hready, hasleep v hv⟩

private theorem IdleAt.resumed (h : m.IdleAt p) (hc : m.server.control = .switching tid) :
    ∃ q, (m.setPark tid .running).IdleAt q := by
  obtain ⟨start, rfl⟩ := h.server.eq_inside hc
  have hrunning : m.server.status tid = some .running := h.ok
  refine ⟨.inside tid start, h.server, h.ok, fun v hv => ?_, h.tasks, h.free, h.nodup,
    fun e he => ?_, fun v hv => ?_⟩
  · by_cases hvt : v = tid
    · exact ⟨start, by rw [hvt]⟩
    · exact h.running v (by simpa [hvt] using hv)
  · obtain ⟨v, rfl, hready, hv⟩ := h.wakes e he
    have hvt : v ≠ tid := by
      rintro rfl
      simp [Asleep, hrunning] at hv
    exact ⟨v, rfl, by simpa [hvt] using hready, hv⟩
  · by_cases hvt : v = tid
    · simp [hvt] at hv
    · exact h.blocked v (by simpa [hvt] using hv)

private theorem IdleAt.unblock (h : m.IdleAt p) (hb : m.park tid = .blocked) :
    IdleAt { m.setPark tid .ready with inbox := m.inbox ++ [eventOf tid .wake] } p := by
  obtain ⟨hnot, hsleep⟩ := h.blocked tid hb
  have hne : ∀ v, v ≠ tid → eventOf v .wake ≠ eventOf tid .wake := fun v hv he =>
    hv (tid_eq_of_eventOf he)
  refine ⟨h.server, ?_, fun v hv => ?_, h.tasks, h.free, ?_, fun e he => ?_, fun v hv => ?_⟩
  · have hok := h.ok
    cases p with
    | waking v =>
      have hready := hok.2.1
      have hvt : v ≠ tid := by
        rintro rfl
        simp [hb] at hready
      exact ⟨hok.1, by simpa [hvt] using hok.2.1, by simpa [hne v hvt] using hok.2.2⟩
    | reported v ev start =>
      refine ⟨hok.1, ?_, hok.2.2⟩
      by_cases hvt : v = tid
      · simp [hvt]
      · simpa [hvt] using hok.2.1
    | _ => exact hok
  · by_cases hvt : v = tid
    · simp [hvt] at hv
    · exact h.running v (by simpa [hvt] using hv)
  · exact h.nodup.append (List.nodup_singleton _) (List.disjoint_singleton.mpr hnot)
  · rcases List.mem_append.mp he with hold | hnew
    · obtain ⟨v, rfl, hready, hv⟩ := h.wakes e hold
      have hvt : v ≠ tid := by
        rintro rfl
        exact hnot hold
      exact ⟨v, rfl, by simpa [hvt] using hready, hv⟩
    · exact ⟨tid, List.mem_singleton.mp hnew, by simp, hsleep⟩
  · have hvt : v ≠ tid := by
      rintro rfl
      simp at hv
    have hv' := h.blocked v (by simpa [hvt] using hv)
    exact ⟨by simpa [hne v hvt] using hv'.1, hv'.2⟩

/-- Every step leads from a position with the invariant to another one. -/
theorem IdleAt.step (h : m.IdleAt p) {x : MachineStep τ} (hok : m.StartsTasks x)
    (hstep : m.step x = some m') : ∃ q, m'.IdleAt q := by
  cases move_of_step hstep with
  | schedule ht =>
    simp only [Server.step] at ht
    split at ht <;> cases ht
    obtain rfl := h.server.eq_outside ‹_›
    exact ⟨.outside, h.setServer_same ⟨h.server.1, .inr (.inl rfl)⟩ trivial rfl (by simp)
      (by simp)⟩
  | recv he ht => exact h.recv he ht
  | tau ht => exact h.tau ht
  | submit =>
    refine ⟨p, h.server.congr rfl rfl, ?_, h.running, h.tasks, h.free, h.nodup, h.wakes,
      h.blocked⟩
    have hpos := h.ok
    cases p <;> exact hpos
  | sent hc hk ht =>
    obtain ⟨rfl, rfl⟩ := h.server.eq_giving hc
    exact ⟨_, h.sent hk ht⟩
  | sentNothing hc ht =>
    obtain ⟨rfl, rfl⟩ := h.server.eq_giving hc
    exact ⟨_, h.sentSame ht⟩
  | sendFailed hc hf ht =>
    obtain ⟨rfl, rfl⟩ := h.server.eq_giving hc
    exact ⟨_, h.sendFailed hc hf ht⟩
  | failed hc hp ht => exact h.failed hok hc hp ht
  | resumed hc hp => exact h.resumed hc
  | @worker tid x k hx hk =>
    have hm := WorkerThread.move_of_step hk
    refine ⟨p, h.setThread ((h.tasks tid).step hm) fun hp hr => hr.step ?_ hm⟩
    rintro b rfl
    simp [hp] at hx
  | @waitError tid k k' hcpu hk hk' =>
    have hrest := ((h.tasks tid).atRest_of_wait (WorkerThread.move_of_step hk)).step (by simp)
      (WorkerThread.move_of_step hk')
    exact ⟨p, h.setThread hrest.tasksOk fun _ _ => hrest⟩
  | @stopped _ tid _ _ _ _ hcpu hx ht =>
    cases hx with
    | stop kind =>
      refine h.stopped hcpu (h.tasks tid) (by cases kind <;> simp [StopKind.park])
        (by cases kind <;> simp [StopKind.event])
        (by cases kind <;> simp [StopKind.event, StopKind.park]) ?_ ht
      rintro start rfl
      cases kind with
      | block => exact .inl rfl
      | preempt => exact .inr (.inr (.inr ⟨rfl, start_eq_false h.server hok⟩))
    | wait hk =>
      have hrest := (h.tasks tid).atRest_of_wait (WorkerThread.move_of_step hk)
      exact h.stopped hcpu hrest.tasksOk (by simp) (fun _ => hrest) (by simp) (by simp) ht
    | exit hk =>
      exact h.stopped hcpu ((h.tasks tid).leave hk) (by simp) (by simp) (by simp) (by simp)
        ht
  | unblocked hp => exact ⟨p, h.unblock hp⟩

/-- When every context switch that starts a task succeeds and is not answered `PREEMPT`, then in
every state of every run a worker that the pool records as `Waiting` has an empty channel and is
outside of any task; and so is a worker that a task is sent to. -/
theorem waiting_is_idle {m m' : Machine τ} {l : List (MachineStep τ)} (h₀ : m.Initial)
    (hrun : Run (Guarded Machine.step Machine.StartsTasks) m l m') (tid : Int32) :
    (m'.server.status tid = some .waiting →
      (m'.thread tid).task_rx = [] ∧ (m'.thread tid).pc.inTask = false) ∧
    ∀ task site, m'.server.control = .assign tid task site →
      (m'.thread tid).task_rx = [] ∧ (m'.thread tid).pc.inTask = false := by
  obtain ⟨p, h⟩ : ∃ p, m'.IdleAt p := hrun.invariant (I := fun m => ∃ p, m.IdleAt p)
    ⟨_, h₀.idleAt⟩ fun _ _ _ ⟨_, h⟩ hs => h.step hs.1 hs.2
  refine ⟨fun hw => ⟨(h.free tid hw).1, (h.free tid hw).2.1⟩, fun task site hc => ?_⟩
  obtain ⟨rfl, -⟩ := h.server.eq_giving hc
  exact ⟨h.ok.2.1, h.ok.2.2.1⟩

/-- A server of one worker, after `initialize_workers`. -/
def oneWorker : Machine ℕ where
  server :=
    { workers := Server.oneRecord ⟨.waiting, none⟩
      queue := .new
      guards := .none
      stack := []
      control := .loop .ok }
  thread _ := ⟨[], .starting⟩
  park tid := if tid = 7 then .ready else .unregistered
  inbox := []

theorem oneWorker_initial : oneWorker.Initial where
  control := ⟨_, rfl⟩
  stack := rfl
  workers tid w hw := ((Table.get?_eq_some_iff _).mp hw).2.symm
  thread _ := rfl
  park tid := by simp [oneWorker, Server.oneRecord, Table.const]
  inbox := rfl

/-- A task is submitted and sent to the worker, which the server switches to. -/
def giveTask (id task : ℕ) : List (MachineStep ℕ) :=
  [.submit (.new id task), .schedule, .tau, .send]

/-- The worker takes its first task, blocks in it, is woken, returns from it and waits. -/
def taskRound : List (MachineStep ℕ) :=
  giveTask 1 10 ++ [MachineStep.resume, .worker 7 (.registered 0), .worker 7 (.poll true),
    .stop .block, .tau, .tau, .tau, .tau, .tau, .unblock 7, .recv (eventOf 7 .wake), .tau, .resume,
    .worker 7 .returned, .wait, .tau, .tau]

theorem waiting_is_idle_taskRound :
    ∃ m, Run (Guarded Machine.step Machine.StartsTasks) oneWorker taskRound m ∧
      m.server.status 7 = some .waiting ∧ (m.thread 7).task_rx = [] ∧
      (m.thread 7).pc.inTask = false := by
  have hrun : Run (Guarded Machine.step Machine.StartsTasks) oneWorker taskRound _ :=
    run_trace (by decide +kernel)
  refine ⟨_, hrun, by decide +kernel, ?_⟩
  exact (waiting_is_idle oneWorker_initial hrun 7).1 (by decide +kernel)

/-- The context switch that starts the task 10 fails: the worker is `Waiting` with the task in its
channel, and is sent the task 20. Or the switch runs the worker and reports `PREEMPT`: the worker
is `Waiting` in the middle of the task. -/
theorem waiting_with_a_task :
    (∃ m₁ m₂, Run (Guarded Machine.step fun _ _ => True) oneWorker
        (giveTask 1 10 ++ [.fail 11, .tau, .tau]) m₁ ∧
      m₁.server.status 7 = some .waiting ∧ (m₁.thread 7).task_rx = [.function 10] ∧
      Run (Guarded Machine.step fun _ _ => True) m₁ (giveTask 2 20) m₂ ∧
      (m₂.thread 7).task_rx = [.function 10, .function 20] ∧
      m₂.server.guards.relocked = false) ∧
    ∃ m, Run (Guarded Machine.step fun _ _ => True) oneWorker
        (giveTask 1 10 ++ [.resume, .worker 7 (.registered 0), .worker 7 (.poll true),
          .stop .preempt, .tau, .tau, .tau, .tau]) m ∧
      m.server.status 7 = some .waiting ∧ (m.thread 7).pc = .executing 10 ∧
      m.server.guards.relocked = false :=
  ⟨⟨_, _, run_trace (by decide +kernel), by decide +kernel, by decide +kernel,
      run_trace (by decide +kernel), by decide +kernel, by decide +kernel⟩,
    _, run_trace (by decide +kernel), by decide +kernel, by decide +kernel, by decide +kernel⟩

end Machine

end Umcg.Pool
