import Umcg.Attempt2.Transitions
import Umcg.WorkerThread

/-!
# A server, its workers and the kernel

`Machine` puts one server thread, from its registration loop on, together with the threads of its
workers and with what the UMCG kernel module knows about them. A worker runs only while a context
switch of the server to it is under way. The switch either fails without running the worker, or
runs it from where it stopped until it blocks, waits, exits or is preempted, and reports exactly
that event. A worker that has blocked becomes switchable again after an arbitrary delay, and then
a `WAKE` is routed to its server.

The task queue is shared with other servers and with the submitters, so what `remove_task` returns
is arbitrary here; so is what `Wait` returns in the registration loop. A routed event may be
received at any later time.

`Machine.Move` lists the steps case by case, and `Machine.move_of_step` says that nothing else
happens. A worker that stops, in whatever way, is the one case `Move.stopped`.
-/

namespace Umcg.Attempt2

/-- One server, its workers, the kernel's view of them and the events routed to the server. -/
structure Machine (τ : Type) where
  server : Server τ
  worker : UInt64 → WorkerThread τ
  park : UInt64 → Park
  inbox : List UInt64

/-- The steps of the threads and of the kernel. -/
inductive MachineStep (τ : Type)
  /-- The server goes on by itself, or `Wait` or `remove_task` returns. -/
  | server (x : Input τ)
  /-- The server sends the task it holds. -/
  | send
  /-- The server receives a routed event. -/
  | recv (event : UInt64)
  /-- The context switch of the server fails without running the worker. -/
  | fail
  /-- The context switch runs the worker. -/
  | resume
  /-- `RegisterWorker` makes the thread of `w` a UMCG worker. -/
  | register (w : UInt64)
  /-- `RegisterWorker` fails. -/
  | refuse (w : UInt64)
  /-- A step of the thread of `w` that does not end the context switch. -/
  | worker (w : UInt64) (x : WorkerInput)
  /-- The running worker blocks or is preempted. -/
  | stop (k : StopKind)
  /-- The running worker calls `Wait`. -/
  | wait
  /-- The running worker calls `Wait`, which fails at once. -/
  | waitError
  /-- The running worker unregisters, or its thread ends. -/
  | exit
  /-- The system call of the blocked worker `w` is over. -/
  | unblock (w : UInt64)
  deriving DecidableEq, Repr

namespace Machine

variable {τ : Type}

/-- Replace the server. -/
def setServer (m : Machine τ) (s : Server τ) : Machine τ := { m with server := s }

/-- Replace the worker `w`. -/
def setWorker (m : Machine τ) (w : UInt64) (k : WorkerThread τ) : Machine τ :=
  { m with worker := Function.update m.worker w k }

/-- Replace what the kernel knows about `w`. -/
def setPark (m : Machine τ) (w : UInt64) (p : Park) : Machine τ :=
  { m with park := Function.update m.park w p }

/-- The context switch to `w` returns and reports the event `t`. -/
def report (m : Machine τ) (w : UInt64) (t : UmcgEventType) : Option (Machine τ) :=
  (m.server.step (.switched (.report (eventWord w t)))).map m.setServer

/-- The worker that runs: the one that the server has switched to. -/
def onCpu (m : Machine τ) : Option UInt64 :=
  match m.server.control.switching with
  | some w => if m.park w = .running then some w else none
  | none => none

/-- The server sends the task it holds. -/
def send (m : Machine τ) : Option (Machine τ) :=
  match m.server.control with
  | .sendTask w task =>
    match (m.worker w).send (.function task) with
    | some k => (m.server.step (.sent true)).map (m.setWorker w k).setServer
    | none => (m.server.step (.sent false)).map m.setServer
  | _ => none

/-- The context switch of the server fails. -/
def fail (m : Machine τ) : Option (Machine τ) :=
  match m.server.control.switching with
  | some w =>
    if m.park w = .running then none
    else (m.server.step (.switched .failure)).map m.setServer
  | none => none

/-- The context switch of the server runs the worker, if it is switchable. -/
def resume (m : Machine τ) : Option (Machine τ) :=
  match m.server.control.switching with
  | some w => if m.park w = .ready then some (m.setPark w .running) else none
  | none => none

/-- The steps of a running worker between its system calls, and the end of a thread that is no
longer a UMCG worker. A sender to the channel is left: the server holds one. -/
def workerStep (m : Machine τ) (w : UInt64) (x : WorkerInput) : Option (Machine τ) :=
  let enabled : Bool :=
    match x with
    | .registered ret => ret = 0 && m.park w = .running
    | .poll connected => connected && m.park w = .running
    | .returned | .panicked | .waited _ => m.park w = .running
    | .done => m.park w = .unregistered
    | .wait | .unregistered _ => false
  if enabled then ((m.worker w).step .attempt2 x).map (m.setWorker w) else none

/-- One step of the machine. -/
def step (m : Machine τ) : MachineStep τ → Option (Machine τ)
  | .server (.recv _) | .server (.sent _) | .server (.switched _) => none
  | .server x => (m.server.step x).map m.setServer
  | .send => m.send
  | .recv e =>
    if e ∈ m.inbox then
      (m.server.step (.recv e)).map fun s => { m.setServer s with inbox := m.inbox.erase e }
    else none
  | .fail => m.fail
  | .resume => m.resume
  | .register w =>
    if w ∈ m.server.states.keys ∧ (m.worker w).isStarting ∧ m.park w = .unregistered then
      some (m.setPark w .ready)
    else none
  | .refuse w =>
    if m.park w = .unregistered then
      ((m.worker w).step .attempt2 (.registered (-1))).map (m.setWorker w)
    else none
  | .worker w x => m.workerStep w x
  | .stop k =>
    match m.onCpu with
    | some w => (m.setPark w k.park).report w k.event
    | none => none
  | .wait =>
    match m.onCpu with
    | some w => ((m.worker w).step .attempt2 .wait).bind fun k =>
        ((m.setWorker w k).setPark w .ready).report w .wait
    | none => none
  | .waitError =>
    match m.onCpu with
    | some w => (((m.worker w).step .attempt2 .wait).bind fun k =>
        k.step .attempt2 (.waited (-1))).map (m.setWorker w)
    | none => none
  | .exit =>
    match m.onCpu with
    | some w => ((m.worker w).leave .attempt2).bind fun k =>
        ((m.setWorker w k).setPark w .unregistered).report w .exit
    | none => none
  | .unblock w =>
    if w ∈ m.server.states.keys ∧ m.park w = .blocked then
      some { m.setPark w .ready with inbox := m.inbox ++ [eventWord w .wake] }
    else none

variable {m m' : Machine τ} {w : UInt64}

theorem onCpu_eq_some (h : m.onCpu = some w) :
    m.server.control.switching = some w ∧ m.park w = .running := by
  unfold onCpu at h
  split at h
  · split_ifs at h with hp
    cases h
    exact ⟨‹_›, hp⟩
  · cases h

/-! ### The cases of a step -/

/-- A running worker stops: the step, the event that its context switch reports, and what is left
of its thread and of the kernel's view of it. -/
inductive Stops (k : WorkerThread τ) :
    MachineStep τ → UmcgEventType → WorkerThread τ → Park → Prop
  | stop (kind : StopKind) : Stops k (.stop kind) kind.event k kind.park
  | wait {k' : WorkerThread τ} (hk : k.step .attempt2 .wait = some k') :
      Stops k .wait .wait k' .ready
  | exit {k' : WorkerThread τ} (hk : k.leave .attempt2 = some k') :
      Stops k .exit .exit k' .unregistered

/-- The steps of the machine. -/
inductive Move (m : Machine τ) : MachineStep τ → Machine τ → Prop
  | server {i : Input τ} {t : Server τ} (hi : (∀ a, i ≠ .switched a) ∧ ∀ e, i ≠ .recv e)
      (ht : m.server.step i = some t) : Move m (.server i) (m.setServer t)
  | sent {w : UInt64} {task : τ} {k : WorkerThread τ} {t : Server τ}
      (hc : m.server.control = .sendTask w task)
      (hk : (m.worker w).send (.function task) = some k)
      (ht : m.server.step (.sent true) = some t) : Move m .send ((m.setWorker w k).setServer t)
  | sendFailed {w : UInt64} {task : τ} {t : Server τ} (hc : m.server.control = .sendTask w task)
      (ht : m.server.step (.sent false) = some t) : Move m .send (m.setServer t)
  | recv {e : UInt64} {t : Server τ} (he : e ∈ m.inbox) (ht : m.server.step (.recv e) = some t) :
      Move m (.recv e) { m.setServer t with inbox := m.inbox.erase e }
  | failed {w : UInt64} {t : Server τ} (hsw : m.server.control.switching = some w)
      (hp : m.park w ≠ .running) (ht : m.server.step (.switched .failure) = some t) :
      Move m .fail (m.setServer t)
  | resumed {w : UInt64} (hsw : m.server.control.switching = some w) (hp : m.park w = .ready) :
      Move m .resume (m.setPark w .running)
  | registered {w : UInt64} (hp : m.park w = .unregistered) :
      Move m (.register w) (m.setPark w .ready)
  | refused {w : UInt64} {k : WorkerThread τ} (hp : m.park w = .unregistered)
      (hk : (m.worker w).step .attempt2 (.registered (-1)) = some k) :
      Move m (.refuse w) (m.setWorker w k)
  | worker {w : UInt64} {x : WorkerInput} {k : WorkerThread τ}
      (hx : m.park w = .running ∨ x = .done) (hk : (m.worker w).step .attempt2 x = some k) :
      Move m (.worker w x) (m.setWorker w k)
  | waitError {w : UInt64} {k k' : WorkerThread τ} (hw : m.onCpu = some w)
      (hk : (m.worker w).step .attempt2 .wait = some k)
      (hk' : k.step .attempt2 (.waited (-1)) = some k') : Move m .waitError (m.setWorker w k')
  | stopped {x : MachineStep τ} {w : UInt64} {ev : UmcgEventType} {k : WorkerThread τ} {p : Park}
      {t : Server τ} (hw : m.onCpu = some w) (hx : Stops (m.worker w) x ev k p)
      (ht : m.server.step (.switched (.report (eventWord w ev))) = some t) :
      Move m x (((m.setWorker w k).setPark w p).setServer t)
  | unblocked {w : UInt64} (hw : w ∈ m.server.states.keys) (hp : m.park w = .blocked) :
      Move m (.unblock w) { m.setPark w .ready with inbox := m.inbox ++ [eventWord w .wake] }

private theorem move_send (h : m.send = some m') : m.Move .send m' := by
  unfold send at h
  split at h
  · split at h <;> obtain ⟨t, ht, rfl⟩ := Option.map_eq_some_iff.mp h
    · exact .sent ‹_› ‹_› ht
    · exact .sendFailed ‹_› ht
  · cases h

private theorem move_workerStep {x : WorkerInput} (h : m.workerStep w x = some m') :
    m.Move (.worker w x) m' := by
  simp only [workerStep] at h
  split_ifs at h with hx
  obtain ⟨k, hk, rfl⟩ := Option.map_eq_some_iff.mp h
  refine .worker ?_ hk
  cases x <;> simp_all

private theorem move_stop {kind : StopKind} (h : m.step (.stop kind) = some m') :
    m.Move (.stop kind) m' := by
  simp only [step] at h
  split at h
  · rename_i w hw
    obtain ⟨t, ht, rfl⟩ := Option.map_eq_some_iff.mp h
    have hself : m.setWorker w (m.worker w) = m := by simp [setWorker]
    simpa only [hself] using Move.stopped hw (.stop kind) ht
  · cases h

/-- Every step of the machine is one of the cases of `Move`. -/
theorem move_of_step {x : MachineStep τ} (h : m.step x = some m') : m.Move x m' := by
  cases x with
  | server x =>
    cases x <;> simp only [step, reduceCtorEq] at h <;>
      obtain ⟨t, ht, rfl⟩ := Option.map_eq_some_iff.mp h <;> exact .server (by simp) ht
  | send => exact move_send h
  | recv e =>
    simp only [step] at h
    split_ifs at h with he
    obtain ⟨t, ht, rfl⟩ := Option.map_eq_some_iff.mp h
    exact .recv he ht
  | fail =>
    simp only [step, fail] at h
    split at h
    · split_ifs at h with hp
      obtain ⟨t, ht, rfl⟩ := Option.map_eq_some_iff.mp h
      exact .failed ‹_› hp ht
    · cases h
  | resume =>
    simp only [step, resume] at h
    split at h
    · split_ifs at h with hp
      cases h
      exact .resumed ‹_› hp
    · cases h
  | register w =>
    simp only [step] at h
    split_ifs at h with hw
    cases h
    exact .registered hw.2.2
  | refuse w =>
    simp only [step] at h
    split_ifs at h with hp
    obtain ⟨k, hk, rfl⟩ := Option.map_eq_some_iff.mp h
    exact .refused hp hk
  | worker w x => exact move_workerStep h
  | stop kind => exact move_stop h
  | wait =>
    simp only [step] at h
    split at h
    · obtain ⟨k, hk, h⟩ := Option.bind_eq_some_iff.mp h
      obtain ⟨t, ht, rfl⟩ := Option.map_eq_some_iff.mp h
      exact .stopped ‹_› (.wait hk) ht
    · cases h
  | waitError =>
    simp only [step] at h
    split at h
    · obtain ⟨k', hk, rfl⟩ := Option.map_eq_some_iff.mp h
      obtain ⟨k, hk, hk'⟩ := Option.bind_eq_some_iff.mp hk
      exact .waitError ‹_› hk hk'
    · cases h
  | exit =>
    simp only [step] at h
    split at h
    · obtain ⟨k, hk, h⟩ := Option.bind_eq_some_iff.mp h
      obtain ⟨t, ht, rfl⟩ := Option.map_eq_some_iff.mp h
      exact .stopped ‹_› (.exit hk) ht
    · cases h
  | unblock w =>
    simp only [step] at h
    split_ifs at h with hw
    cases h
    exact .unblocked hw.1 hw.2

/-! ### What a step does to the kernel's view of a worker -/

private theorem setPark_of_ne {x : UInt64} {p : Park} (h : x ≠ w) :
    (m.setPark w p).park x = m.park x := by simp [setPark, h]

/-- The kernel's view of `w` changes when `w` registers, when its server switches to it, when it
stops while it runs, and at the end of the system call it is blocked in. -/
theorem park_of_step {x : MachineStep τ} (h : m.step x = some m') (w : UInt64) :
    m'.park w = m.park w ∨ x = .register w ∨ x = .resume ∧ m'.park w = .running ∨
      m.onCpu = some w ∧ ((∃ k, x = .stop k) ∨ x = .wait ∨ x = .exit) ∨
      x = .unblock w ∧ m.park w = .blocked ∧ m'.park w = .ready := by
  cases move_of_step h with
  | server | sent | sendFailed | recv | failed | refused | worker | waitError => exact .inl rfl
  | @resumed v =>
    by_cases hv : w = v
    · exact .inr (.inr (.inl ⟨rfl, by simp [setPark, hv]⟩))
    · exact .inl (setPark_of_ne hv)
  | @registered v =>
    by_cases hv : w = v
    · exact .inr (.inl (by rw [hv]))
    · exact .inl (setPark_of_ne hv)
  | @stopped _ v _ k _ _ hw hx =>
    by_cases hv : w = v
    · refine .inr (.inr (.inr (.inl ⟨hv ▸ hw, ?_⟩)))
      cases hx with
      | stop kind => exact .inl ⟨kind, rfl⟩
      | wait => exact .inr (.inl rfl)
      | exit => exact .inr (.inr rfl)
    · exact .inl (setPark_of_ne (m := m.setWorker v k) hv)
  | @unblocked v hw hp =>
    by_cases hv : w = v
    · exact .inr (.inr (.inr (.inr ⟨by rw [hv], hv ▸ hp, by simp [setPark, hv]⟩)))
    · exact .inl (setPark_of_ne hv)

theorem blocked_of_unblock (h : m.step (.unblock w) = some m') : m.park w = .blocked := by
  cases move_of_step h with
  | unblocked hw hp => exact hp
  | stopped hw hx => cases hx

/-- The server is at the start of its registration loop; its workers are about to register. -/
structure Initial (m : Machine τ) : Prop where
  control : m.server.control = .registering []
  initializing : ∀ w ∈ m.server.states.keys, m.server.states.value w = .initializing
  ids : ∀ w ∈ m.server.states.keys, workerId w = w
  worker : ∀ w, m.worker w = ⟨[], .starting⟩
  park : ∀ w, m.park w = .unregistered
  inbox : m.inbox = []

end Machine

end Umcg.Attempt2
