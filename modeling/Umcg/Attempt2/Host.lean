import Umcg.Attempt2.Machine
import Umcg.Attempt2.Routing
import Umcg.Klib.Delivery

/-!
# The whole program on the kernel module

`Host` puts the threads of the program on the UMCG kernel module: any number of server threads, the
thread of the routing server, the worker threads and the shared task queue, from the end of the
registration on. A thread reaches another one through the kernel, through a channel or through the
task queue, and in no other way. A system call is two steps, the call and the return from it, and
between them the kernel may do anything it can do: block, preempt and wake the workers, deliver
events, or interrupt the routing server.

Three things are left out. A task returns: it does not panic, which would take its thread out of the
loop. Signals do not reach the servers. And the threads write no log, so that the lock of the
standard output, on which a server and its worker can block each other, is not there.

`Host.Move` lists the steps case by case, and `Host.move_of_step` says that nothing else happens.

`Host.machine` is what one server sees of it. Its own thread is taken to be where it will be once it
has looked at the answer of its last context switch. The kernel's records of its workers are reduced
to `Park`, and the events on their way to the server, wherever they are, are its inbox.
-/

namespace Umcg

namespace Klib

/-- What `libc::syscall` returns; the error number is in `errno`. -/
def Sysreturn.toInt : Sysreturn → Int
  | value n => n
  | error _ => -1

/-- The answer of a context switch; the buffer was filled with zeros. -/
def Answer.switchAnswer (a : Answer) : SwitchAnswer :=
  ⟨a.ret.toInt, a.events.getD 0 0, a.events.getD 1 0⟩

/-- `WaitResult`. -/
inductive WaitResult
  | events (ret : Int)
  | processForwarded
  | timeout
  | resourceBusy
  deriving DecidableEq, Repr

/-- `umcg_wait_retry_timeout`, after its system call. -/
def umcgWaitRetryTimeout : Sysreturn → WaitResult
  | .value n => .events n
  | .error .etimedout => .timeout
  | .error .eagain => .resourceBusy
  | .error .eintr => .processForwarded
  | .error _ => .events (-1)

/-- The events that the routing server finds in its buffer. -/
def Answer.batch (a : Answer) : List UInt64 :=
  match umcgWaitRetryTimeout a.ret with
  | .events ret => if ret = 0 then a.events.takeWhile (· ≠ 0) else []
  | .processForwarded | .timeout | .resourceBusy => []

/-- What a worker in this status is to its server. -/
def Status.park : Status → Park
  | .running | .paused => .running
  | .blocked => .blocked
  | .idle _ | .runnable | .waiting => .ready

/-- What the thread `t` is to a server. -/
def Kernel.park (k : Kernel) (t : Int32) : Park :=
  ((k.status t).map Status.park).getD .unregistered

end Klib

namespace Attempt2

open Klib

/-- The ids of the threads of the servers and of the routing server. -/
structure Threads where
  server : ℕ → Int32
  router : Int32

/-- The kernel module, the routing server with the channels and the servers, the worker threads and
the task queue. -/
structure Host (τ : Type) where
  kernel : Kernel
  routing : Routing τ
  worker : Int32 → WorkerThread τ
  tasks : BoundedQueue τ

/-- The steps of the threads and of the kernel. -/
inductive HostStep (τ : Type)
  /-- `TaskHandle::submit`. -/
  | submit (task : τ)
  /-- The server `i` goes on by itself. -/
  | server (i : ℕ) (x : Input τ)
  /-- `remove_task()` by the server `i`. -/
  | remove (i : ℕ)
  /-- `tx.send(..)` by the server `i`. -/
  | send (i : ℕ)
  /-- `event_consumer.try_recv()` by the server `i`. -/
  | recv (i : ℕ)
  /-- The server `i` calls `CtxSwitch`. -/
  | switch (i : ℕ) (now : ℕ) (memory : Bool)
  /-- The context switch of the server `i` returns. -/
  | switched (i : ℕ)
  /-- The routing server calls `Wait`. -/
  | routerWait (abs_timeout : UInt64) (now : ℕ) (memory : Bool)
  /-- The `Wait` of the routing server returns. -/
  | routerWaited
  /-- The routing server routes the next event of its batch. -/
  | route
  /-- The worker thread `t` polls its channel, or returns from a task. -/
  | worker (t : Int32) (x : WorkerInput)
  /-- The worker thread `t` calls `Wait`. -/
  | workerWait (t : Int32) (now : ℕ) (memory : Bool)
  /-- The `Wait` of the worker thread `t` returns. -/
  | workerWaited (t : Int32)
  /-- The kernel calls back. -/
  | callback (c : Kernel.Call)
  deriving DecidableEq, Repr

namespace Host

variable {τ : Type}

/-- Replace the state of the kernel module. -/
def setKernel (h : Host τ) (k : Kernel) : Host τ := { h with kernel := k }

/-- Replace the routing server and the servers. -/
def setRouting (h : Host τ) (r : Routing τ) : Host τ := { h with routing := r }

/-- Replace the worker thread `t`. -/
def setWorker (h : Host τ) (t : Int32) (k : WorkerThread τ) : Host τ :=
  { h with worker := Function.update h.worker t k }

/-- A step of the thread of the server `i`. -/
def serverStep (h : Host τ) (i : ℕ) (x : Input τ) : Option (Host τ) :=
  if i < h.routing.server_senders then (h.routing.step (.server i x)).map h.setRouting else none

/-- `remove_task()` and what the server `i` does with its result. -/
def remove (h : Host τ) (i : ℕ) : Option (Host τ) :=
  match h.tasks.pop with
  | none => h.serverStep i (.removed none)
  | some (task, q) => { h with tasks := q }.serverStep i (.removed (some task))

/-- The server `i` sends the task it holds. -/
def send (h : Host τ) (i : ℕ) : Option (Host τ) :=
  match (h.routing.server i).control with
  | .sendTask w task =>
    match (h.worker (workerTid w)).send (.function task) with
    | some k => (h.setWorker (workerTid w) k).serverStep i (.sent true)
    | none => h.serverStep i (.sent false)
  | _ => none

/-- The calls of the kernel module that no thread of the program makes. Signals do not reach the
servers, which sleep in context switches. -/
def isCallback (th : Threads) : Kernel.Call → Bool
  | .pause _ | .syscallPause _ | .scheduleReturn _ _ => true
  | .timedOut s | .nullify s => s = th.router
  | _ => false

section Blockq

variable [Blockq]

/-- The thread `t` makes a system call. -/
def ctl (h : Host τ) (t : Int32) (a : Kernel.Args) (now : ℕ) (memory : Bool) : Option (Host τ) :=
  (h.kernel.step (.ctl t a now memory)).map h.setKernel

/-- The thread `t` goes on after its system call. -/
def resume (h : Host τ) (t : Int32) : Option (Host τ) :=
  (h.kernel.step (.resume t)).map h.setKernel

/-- The `Wait` of the routing server has returned. -/
def routerWaited (h : Host τ) (a : Answer) : Option (Host τ) :=
  match umcgWaitRetryTimeout a.ret with
  | .events ret =>
    if ret = 0 then (h.routing.step (.batch a.events)).map h.setRouting else some h
  | .processForwarded | .timeout | .resourceBusy => some h

/-- A step of the worker thread `t` between its system calls; a sender to its channel is left. -/
def workerStep (h : Host τ) (t : Int32) (x : WorkerInput) : Option (Host τ) :=
  ((h.worker t).step .attempt2 x).map (h.setWorker t)

/-- One step of the program. -/
def step (th : Threads) (h : Host τ) : HostStep τ → Option (Host τ)
  | .submit task => some { h with tasks := (h.tasks.push task).getD h.tasks }
  | .server i .schedule => h.serverStep i .schedule
  | .server i .tau => h.serverStep i .tau
  | .server _ _ => none
  | .remove i => h.remove i
  | .send i => h.send i
  | .recv i =>
    if i < h.routing.server_senders then (h.routing.recv i).map h.setRouting else none
  | .switch i now memory =>
    match (h.routing.server i).control with
    | .ctxSwitch w _ =>
      if i < h.routing.server_senders then h.ctl (th.server i) (.ctxSwitch (workerTid w)) now memory
      else none
    | _ => none
  | .switched i =>
    match h.kernel.answer (th.server i) with
    | some a => (h.resume (th.server i)).bind fun h => h.serverStep i (.switched a.switchAnswer)
    | none => none
  | .routerWait abs_timeout now memory =>
    if h.routing.events = [] ∧ h.routing.panicked = false then
      h.ctl th.router (.serverWait abs_timeout 10 10) now memory
    else none
  | .routerWaited =>
    match h.kernel.answer th.router with
    | some a => (h.resume th.router).bind fun h => h.routerWaited a
    | none => none
  | .route => h.routing.route.map h.setRouting
  | .worker t x =>
    if h.kernel.status t = some .running ∧ h.kernel.answer t = none ∧
        (x = .poll true ∨ x = .returned) then h.workerStep t x
    else none
  | .workerWait t now memory =>
    if h.kernel.worker t = none then none
    else (h.workerStep t .wait).bind fun h => h.ctl t .workerWait now memory
  | .workerWaited t =>
    if h.kernel.worker t = none then none
    else
      match h.kernel.answer t with
      | some a => (h.resume t).bind fun h => h.workerStep t (.waited a.ret.toInt)
      | none => none
  | .callback c => if isCallback th c then (h.kernel.step c).map h.setKernel else none

/-! ### The cases of a step -/

/-- Replace the server `i`. -/
def setServer (h : Host τ) (i : ℕ) (s : Server τ) : Host τ :=
  h.setRouting { h.routing with server := Function.update h.routing.server i s }

/-- The thread `t` has looked at the answer of its system call. -/
def setResumed (h : Host τ) (t : Int32) : Host τ :=
  h.setKernel { h.kernel with answer := Function.update h.kernel.answer t none }

/-- The steps of the program. -/
inductive Move (th : Threads) (h : Host τ) : HostStep τ → Host τ → Prop
  | submit (task : τ) :
      Move th h (.submit task) { h with tasks := (h.tasks.push task).getD h.tasks }
  | server {i : ℕ} {x : Input τ} {s : Server τ} (hi : i < h.routing.server_senders)
      (hx : x = .schedule ∨ x = .tau) (hs : (h.routing.server i).step x = some s) :
      Move th h (.server i x) (h.setServer i s)
  | noTask {i : ℕ} {s : Server τ} (hi : i < h.routing.server_senders) (hq : h.tasks.pop = none)
      (hs : (h.routing.server i).step (.removed none) = some s) :
      Move th h (.remove i) (h.setServer i s)
  | removed {i : ℕ} {task : τ} {q : BoundedQueue τ} {s : Server τ}
      (hi : i < h.routing.server_senders) (hq : h.tasks.pop = some (task, q))
      (hs : (h.routing.server i).step (.removed (some task)) = some s) :
      Move th h (.remove i) ({ h with tasks := q }.setServer i s)
  | sent {i : ℕ} {w : UInt64} {task : τ} {k : WorkerThread τ} {s : Server τ}
      (hi : i < h.routing.server_senders)
      (hctl : (h.routing.server i).control = .sendTask w task)
      (hk : (h.worker (workerTid w)).send (.function task) = some k)
      (hs : (h.routing.server i).step (.sent true) = some s) :
      Move th h (.send i) ((h.setWorker (workerTid w) k).setServer i s)
  | sendFailed {i : ℕ} {w : UInt64} {task : τ} {s : Server τ} (hi : i < h.routing.server_senders)
      (hctl : (h.routing.server i).control = .sendTask w task)
      (hk : (h.worker (workerTid w)).send (.function task) = none)
      (hs : (h.routing.server i).step (.sent false) = some s) :
      Move th h (.send i) (h.setServer i s)
  | recv {i : ℕ} {e : UInt64} {q : BoundedQueue UInt64} {s : Server τ}
      (hi : i < h.routing.server_senders) (hq : (h.routing.channel i).pop = some (e, q))
      (hs : (h.routing.server i).step (.recv e) = some s) :
      Move th h (.recv i) (h.setRouting { h.routing with
        channel := Function.update h.routing.channel i q
        server := Function.update h.routing.server i s
        received := Function.update h.routing.received i (h.routing.received i ++ [e]) })
  | switch {i : ℕ} {w : UInt64} {site : Site} {now : ℕ} {memory : Bool} {k : Kernel}
      (hi : i < h.routing.server_senders)
      (hctl : (h.routing.server i).control = .ctxSwitch w site)
      (hk : h.kernel.step (.ctl (th.server i) (.ctxSwitch (workerTid w)) now memory) = some k) :
      Move th h (.switch i now memory) (h.setKernel k)
  | switched {i : ℕ} {a : Answer} {s : Server τ} (hi : i < h.routing.server_senders)
      (hans : h.kernel.answer (th.server i) = some a) (ht : h.kernel.Executing (th.server i))
      (hs : (h.routing.server i).step (.switched a.switchAnswer) = some s) :
      Move th h (.switched i) ((h.setResumed (th.server i)).setServer i s)
  | routerWait {abs_timeout : UInt64} {now : ℕ} {memory : Bool} {k : Kernel}
      (hevents : h.routing.events = [])
      (hk : h.kernel.step (.ctl th.router (.serverWait abs_timeout 10 10) now memory) = some k) :
      Move th h (.routerWait abs_timeout now memory) (h.setKernel k)
  | batch {a : Answer} (hans : h.kernel.answer th.router = some a)
      (hbatch : a.batch = a.events.takeWhile (· ≠ 0)) (hevents : h.routing.events = []) :
      Move th h .routerWaited ((h.setResumed th.router).setRouting { h.routing with
        events := a.events.takeWhile (· ≠ 0)
        batches := h.routing.batches ++ [a.events.takeWhile (· ≠ 0)] })
  | noBatch {a : Answer} (hans : h.kernel.answer th.router = some a) (hbatch : a.batch = []) :
      Move th h .routerWaited (h.setResumed th.router)
  | route {r : Routing τ} (hr : h.routing.route = some r) : Move th h .route (h.setRouting r)
  | worker {t : Int32} {x : WorkerInput} {w : Worker} {k : WorkerThread τ}
      (ht : h.kernel.worker t = some w) (hw : w.status = .running)
      (hx : x = .poll true ∨ x = .returned) (hk : (h.worker t).step .attempt2 x = some k) :
      Move th h (.worker t x) (h.setWorker t k)
  | workerWait {t : Int32} {now : ℕ} {memory : Bool} {w : Worker} {k : WorkerThread τ}
      {k' : Kernel} (ht : h.kernel.worker t = some w)
      (hk : (h.worker t).step .attempt2 .wait = some k)
      (hk' : h.kernel.step (.ctl t .workerWait now memory) = some k') :
      Move th h (.workerWait t now memory) ((h.setWorker t k).setKernel k')
  | workerWaited {t : Int32} {w : Worker} {a : Answer} {k : WorkerThread τ}
      (ht : h.kernel.worker t = some w) (hans : h.kernel.answer t = some a)
      (hw : w.status.onCpu = true)
      (hk : (h.worker t).step .attempt2 (.waited a.ret.toInt) = some k) :
      Move th h (.workerWaited t) ((h.setResumed t).setWorker t k)
  | callback {c : Kernel.Call} {k : Kernel} (hcall : isCallback th c = true)
      (hk : h.kernel.step c = some k) : Move th h (.callback c) (h.setKernel k)

end Blockq

variable {th : Threads} {h h' : Host τ} {i : ℕ} {t : Int32}

private theorem serverStep_eq_some {x : Input τ} (hx : ∀ e, x ≠ .recv e)
    (hstep : h.serverStep i x = some h') : i < h.routing.server_senders ∧
      ∃ s, (h.routing.server i).step x = some s ∧ h' = h.setServer i s := by
  unfold serverStep at hstep
  split_ifs at hstep with hi
  obtain ⟨r, hr, rfl⟩ := Option.map_eq_some_iff.mp hstep
  have hr' : ((h.routing.server i).step x).map
      (fun s => { h.routing with server := Function.update h.routing.server i s }) = some r := by
    cases x with
    | recv e => exact absurd rfl (hx e)
    | _ => exact hr
  obtain ⟨s, hs, rfl⟩ := Option.map_eq_some_iff.mp hr'
  exact ⟨hi, s, hs, rfl⟩

private theorem resume_eq_some [Blockq] [Blockq.AtOnce] (hstep : h.resume t = some h') :
    h.kernel.Executing t ∧ h' = h.setResumed t := by
  obtain ⟨k, hk, rfl⟩ := Option.map_eq_some_iff.mp hstep
  cases Kernel.move_of_step hk with
  | resumed ht => exact ⟨ht, rfl⟩

private theorem move_remove [Blockq] (hstep : h.remove i = some h') : Move th h (.remove i) h' := by
  unfold remove at hstep
  split at hstep
  · obtain ⟨hi, s, hs, rfl⟩ := serverStep_eq_some (by simp) hstep
    exact .noTask hi ‹_› hs
  · obtain ⟨hi, s, hs, rfl⟩ := serverStep_eq_some (by simp) hstep
    exact .removed hi ‹_› hs

private theorem move_send [Blockq] (hstep : h.send i = some h') : Move th h (.send i) h' := by
  unfold send at hstep
  split at hstep
  · split at hstep
    · obtain ⟨hi, s, hs, rfl⟩ := serverStep_eq_some (by simp) hstep
      exact .sent hi ‹_› ‹_› hs
    · obtain ⟨hi, s, hs, rfl⟩ := serverStep_eq_some (by simp) hstep
      exact .sendFailed hi ‹_› ‹_› hs
  · cases hstep

private theorem move_routerWaited [Blockq] {a : Answer} (hans : h.kernel.answer th.router = some a)
    (hstep : (h.setResumed th.router).routerWaited a = some h') : Move th h .routerWaited h' := by
  unfold routerWaited at hstep
  split at hstep <;> rename_i hret
  · split_ifs at hstep with hzero
    · obtain ⟨r, hr, rfl⟩ := Option.map_eq_some_iff.mp hstep
      simp only [Routing.step] at hr
      split_ifs at hr with hempty
      cases hr
      exact .batch hans (by simp [Answer.batch, hret, hzero]) hempty.1
    · cases hstep
      exact .noBatch hans (by simp [Answer.batch, hret, hzero])
  all_goals
    cases hstep
    exact .noBatch hans (by simp [Answer.batch, hret])

/-- Every step of the program is one of the cases of `Move`. -/
theorem move_of_step [Blockq] [Blockq.AtOnce] {x : HostStep τ} (hstep : step th h x = some h') :
    Move th h x h' := by
  cases x with
  | submit task =>
    cases hstep
    exact .submit task
  | server i x =>
    cases x with
    | schedule =>
      obtain ⟨hi, s, hs, rfl⟩ := serverStep_eq_some (by simp) hstep
      exact .server hi (.inl rfl) hs
    | tau =>
      obtain ⟨hi, s, hs, rfl⟩ := serverStep_eq_some (by simp) hstep
      exact .server hi (.inr rfl) hs
    | _ => cases hstep
  | remove i => exact move_remove hstep
  | send i => exact move_send hstep
  | recv i =>
    simp only [step] at hstep
    split_ifs at hstep with hi
    obtain ⟨r, hr, rfl⟩ := Option.map_eq_some_iff.mp hstep
    unfold Routing.recv at hr
    split at hr
    · obtain ⟨s, hs, rfl⟩ := Option.map_eq_some_iff.mp hr
      exact .recv hi ‹_› hs
    · cases hr
  | switch i now memory =>
    simp only [step] at hstep
    split at hstep
    · split_ifs at hstep with hi
      obtain ⟨k, hk, rfl⟩ := Option.map_eq_some_iff.mp hstep
      exact .switch hi ‹_› hk
    · cases hstep
  | switched i =>
    simp only [step] at hstep
    split at hstep
    · obtain ⟨h₁, h₁', hstep⟩ := Option.bind_eq_some_iff.mp hstep
      obtain ⟨ht, rfl⟩ := resume_eq_some h₁'
      obtain ⟨hi, s, hs, rfl⟩ := serverStep_eq_some (by simp) hstep
      exact .switched hi ‹_› ht hs
    · cases hstep
  | routerWait abs_timeout now memory =>
    simp only [step] at hstep
    split_ifs at hstep with hready
    obtain ⟨k, hk, rfl⟩ := Option.map_eq_some_iff.mp hstep
    exact .routerWait hready.1 hk
  | routerWaited =>
    simp only [step] at hstep
    split at hstep
    · obtain ⟨h₁, h₁', hstep⟩ := Option.bind_eq_some_iff.mp hstep
      obtain ⟨-, rfl⟩ := resume_eq_some h₁'
      exact move_routerWaited ‹_› hstep
    · cases hstep
  | route =>
    obtain ⟨r, hr, rfl⟩ := Option.map_eq_some_iff.mp hstep
    exact .route hr
  | worker t x =>
    simp only [step] at hstep
    split_ifs at hstep with hx
    obtain ⟨w, ht, hw⟩ := Option.map_eq_some_iff.mp hx.1
    obtain ⟨k, hk, rfl⟩ := Option.map_eq_some_iff.mp hstep
    exact .worker ht hw hx.2.2 hk
  | workerWait t now memory =>
    simp only [step] at hstep
    split_ifs at hstep with ht
    obtain ⟨w, ht⟩ := Option.ne_none_iff_exists'.mp ht
    obtain ⟨h₁, h₁', hstep⟩ := Option.bind_eq_some_iff.mp hstep
    obtain ⟨k, hk, rfl⟩ := Option.map_eq_some_iff.mp h₁'
    obtain ⟨k', hk', rfl⟩ := Option.map_eq_some_iff.mp hstep
    exact .workerWait ht hk hk'
  | workerWaited t =>
    simp only [step] at hstep
    split_ifs at hstep with ht
    obtain ⟨w, ht⟩ := Option.ne_none_iff_exists'.mp ht
    split at hstep
    · obtain ⟨h₁, h₁', hstep⟩ := Option.bind_eq_some_iff.mp hstep
      obtain ⟨hexec, rfl⟩ := resume_eq_some h₁'
      obtain ⟨k, hk, rfl⟩ := Option.map_eq_some_iff.mp hstep
      exact .workerWaited ht ‹_› (hexec.onCpu w ht) hk
    · cases hstep
  | callback c =>
    simp only [step] at hstep
    split_ifs at hstep with hcall
    obtain ⟨k, hk, rfl⟩ := Option.map_eq_some_iff.mp hstep
    exact .callback hcall hk

/-- The routing of an event concerns the batch and the channels only. -/
theorem route_fixed {r r' : Routing τ} (hr : r.route = some r') :
    r'.server_senders = r.server_senders ∧ r'.worker_to_server = r.worker_to_server ∧
      r'.server = r.server ∧ r'.received = r.received := by
  unfold Routing.route at hr
  split at hr
  · cases hr
  · split at hr
    · cases hr
      exact ⟨rfl, rfl, rfl, rfl⟩
    · split_ifs at hr
      · split at hr <;> cases hr
        exact ⟨rfl, rfl, rfl, rfl⟩
      · cases hr
        exact ⟨rfl, rfl, rfl, rfl⟩

/-- No step changes the servers that there are, or the owner of a worker. -/
theorem Move.fixed [Blockq] {x : HostStep τ} (hm : Move th h x h') :
    h'.routing.server_senders = h.routing.server_senders ∧
      h'.routing.worker_to_server = h.routing.worker_to_server := by
  cases hm with
  | route hr => exact ⟨(route_fixed hr).1, (route_fixed hr).2.1⟩
  | _ => exact ⟨rfl, rfl⟩

/-! ### The view of one server -/

/-- The server `i` after it has looked at the answer of its last context switch. -/
def thread (th : Threads) (h : Host τ) (i : ℕ) : Server τ :=
  match h.kernel.answer (th.server i) with
  | some a => ((h.routing.server i).step (.switched a.switchAnswer)).getD (h.routing.server i)
  | none => h.routing.server i

/-- The events that the routing server has fetched and not looked at, and those that it has not
fetched. -/
def inKernel (th : Threads) (k : Kernel) : List UInt64 :=
  ((k.answer th.router).map Answer.batch).getD [] ++ k.pending

/-- The worker with the id `w` is one of the server `i`. -/
def owns (h : Host τ) (i : ℕ) (w : UInt64) : Bool := h.routing.worker_to_server w = some i

/-- The machine of the server `i`. -/
def machine (th : Threads) (h : Host τ) (i : ℕ) : Machine τ where
  server := h.thread th i
  worker w := if h.owns i w then h.worker (workerTid w) else ⟨[], .starting⟩
  park w := if h.owns i w then h.kernel.park (workerTid w) else .unregistered
  inbox := (h.routing.channel i).items ++
    (h.routing.events ++ inKernel th h.kernel).filter fun e => h.owns i (workerId e)

end Host

end Attempt2

end Umcg
