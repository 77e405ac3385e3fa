import Umcg.Base
import Umcg.Foundation.Run

/-!
# The UMCG kernel module

The kernel module implements the system call `umcg_ctl` and hooks into the context callbacks of
the threads that have registered as workers. `Kernel` is its state: the tree of the registered
workers, the list of the idle ones, which is the queue of the events that no context switch
reports, and the two kinds of block queue in which servers sleep, the one of the module (for
`Wait`) and the one of each thread (for `CtxSwitch`, and for a `Wait` for one worker).

A thread is named by its thread id, and its record is what the tree holds under that name. A
server that sleeps in a context switch has given the worker two pointers: `server_event`, into the
closure of its action, and `server_bq`, its block queue. A pointer into a closure is the thread
with the number of the context switch, so that a store through it can be told to hit a closure
that is gone (`Kernel.corrupt`).

Every function of the module is one definition here. The entry points are called one after the
other (`Kernel.step`): by threads that make the system call, by the scheduler when a worker thread
enters a system call, blocks in it or is about to return to user mode, and by timers. When these
calls are possible follows from the status: a worker executes only while it is `running` or
`paused`. What is left out are the debug messages, and the callbacks that are saved and restored.

Two things are assumed. A call of an entry point is atomic: no other call comes between the stores
that it makes, although the module takes its lock only for single accesses to the tree and to the
list, and a worker is `idle` before it is in the list. And the block queues, whose code is not part
of the module, are a parameter (`Blockq`). What the results need of them is `Blockq.AtOnce`: a
wake-up runs the action of a sleeping thread before it returns to the waker, whose view of the state
it therefore shares. In which order the threads of a queue are woken is left open.
-/

namespace Umcg.Klib

/-- `enum umcg_worker_status`; an idle worker may have the flag `UMCG_WORKER_TIMEOUT`. -/
inductive Status
  | idle (timeout : Bool)
  | runnable
  | running
  | paused
  | blocked
  | waiting
  deriving DecidableEq, Repr

namespace Status

/-- The worker executes, in place of the server that has switched to it. -/
def onCpu : Status → Bool
  | running | paused => true
  | _ => false

def isIdle : Status → Bool
  | idle _ => true
  | _ => false

end Status

/-- The error numbers of the module. -/
inductive Errno
  | eagain
  | efault
  | eintr
  | einval
  | enomem
  | erestartsys
  | esrch
  | etimedout
  deriving DecidableEq, Repr

/-- `sysreturn`: a value, or a negative error number. -/
inductive Sysreturn
  | value (n : ℕ)
  | error (e : Errno)
  deriving DecidableEq, Repr

/-- `if (rv > 0) rv = 0;`. -/
def Sysreturn.clear : Sysreturn → Sysreturn
  | value _ => value 0
  | error e => error e

/-- `struct umcg_worker`. The value that the system call of the thread returns is kept here while
the thread sleeps in a call of `umcg_ctl`. -/
structure Worker where
  id : UInt64
  status : Status
  start_time : ℕ
  event : UmcgEventType
  server_bq : Option Int32
  server_event : Option (Int32 × ℕ)
  /-- The timer is registered. -/
  tmr : Bool
  sysret : Option Sysreturn
  deriving DecidableEq, Repr

/-- The action of a thread that sleeps in a block queue, with its bound variables. The buffer of a
server is given by the number of words that can be written to it and by `event_sz`. -/
inductive Action
  /-- `umcg_server_wait_worker_bh`. -/
  | waitWorker (worker : Int32)
  /-- `umcg_server_wait_bh`. -/
  | wait (timeout : ℕ) (room event_sz : ℕ)
  /-- `umcg_server_ctx_switch_bh`, of the context switch number `closure`. -/
  | ctxSwitch (closure : ℕ) (event : UInt64) (room event_sz : ℕ)
  deriving DecidableEq, Repr

/-- The thread sleeps in `umcg.server_bq`. -/
def Action.isWait : Action → Bool
  | wait _ _ _ => true
  | _ => false

/-- What a call has returned, and the words it has written from the start of the buffer on. -/
structure Answer where
  ret : Sysreturn
  events : List UInt64
  deriving DecidableEq, Repr

/-- The state of the module. -/
structure Kernel where
  /-- `UMCG_PREEMPT_INTERVAL`. -/
  preempt_interval : ℕ
  /-- The threads of the process. -/
  alive : Int32 → Bool
  /-- `umcg.workers`. -/
  worker : Int32 → Option Worker
  idle_workers : List Int32
  wake_idle_server : Bool
  /-- The threads that sleep in `umcg.server_bq`, the first to be woken first. -/
  server_bq : List Int32
  /-- The actions of the threads that sleep in a block queue. -/
  action : Int32 → Option Action
  /-- The references that workers hold to the block queue of a thread. -/
  refs : Int32 → Int
  /-- The calls that have returned, until their threads go on. -/
  answer : Int32 → Option Answer
  /-- The number of context switches so far. -/
  closures : ℕ
  /-- A store has gone through a pointer that is not valid, or a record that is in the list of the
  idle workers has been freed. -/
  corrupt : Bool

namespace Kernel

/-- The module after `init`. -/
def init (preempt_interval : ℕ) : Kernel where
  preempt_interval := preempt_interval
  alive _ := false
  worker _ := none
  idle_workers := []
  wake_idle_server := false
  server_bq := []
  action _ := none
  refs _ := 0
  answer _ := none
  closures := 0
  corrupt := false

/-- Write the record of the worker `t`. -/
def set (k : Kernel) (t : Int32) (w : Worker) : Kernel :=
  { k with worker := Function.update k.worker t (some w) }

/-- The thread `t` falls asleep with the action `a`. -/
def sleep (k : Kernel) (t : Int32) (a : Action) : Kernel :=
  { k with action := Function.update k.action t (some a) }

/-- The call of `t` returns. -/
def ret (k : Kernel) (t : Int32) (r : Sysreturn) (events : List UInt64) : Kernel :=
  { k with answer := Function.update k.answer t (some ⟨r, events⟩) }

/-- The action of `s` does not block: `s` leaves its block queue, and its call returns. -/
def finish (k : Kernel) (s : Int32) (r : Sysreturn) (events : List UInt64) : Kernel :=
  { k with
    action := Function.update k.action s none
    server_bq := k.server_bq.erase s
    answer := Function.update k.answer s (some ⟨r, events⟩) }

/-- `blockq_reserve` and `blockq_release` on the block queue of `s`. -/
def addRefs (k : Kernel) (s : Int32) (n : Int) : Kernel :=
  { k with refs := Function.update k.refs s (k.refs s + n) }

/-! ### The actions of sleeping servers -/

/-- What the loop of `umcg_server_get_events` leaves: the records, the list, the words it has
written, the rest of `event_sz` and `rv`, which counts the words. -/
structure Fetch where
  worker : Int32 → Option Worker
  idle_workers : List Int32
  words : List UInt64
  event_sz : ℕ
  rv : Sysreturn

/-- The loop of `umcg_server_get_events`. -/
def fetch (room : ℕ) (worker : Int32 → Option Worker) :
    List Int32 → List UInt64 → ℕ → Fetch
  | [], words, sz => ⟨worker, [], words, sz, .value words.length⟩
  | t :: l, words, sz =>
    if sz ≤ 1 then ⟨worker, t :: l, words, sz, .value words.length⟩
    else
      match worker t with
      | none => ⟨worker, t :: l, words, sz, .value words.length⟩
      | some w =>
        let runnable := Function.update worker t (some { w with status := .runnable })
        if room ≤ words.length then
          ⟨worker, t :: l, words, sz, if words = [] then .error .efault else .value words.length⟩
        -- the compare-and-swap fails when the timer of the worker has expired
        else if w.event = .wait ∧ w.status ≠ .idle false then
          if room ≤ words.length + 1 then
            ⟨worker, t :: l, words ++ [eventWord w.id w.event], sz - 1,
              if words = [] then .error .efault else .value (words.length + 1)⟩
          else
            fetch room runnable l
              (words ++ [eventWord w.id w.event, eventWord w.id .timeout]) (sz - 2)
        else fetch room runnable l (words ++ [eventWord w.id w.event]) (sz - 1)

/-- `umcg_server_get_events`: the words end with a zero if there is room for it. -/
def serverGetEvents (k : Kernel) (room event_sz : ℕ) : Kernel × Sysreturn × List UInt64 :=
  let f := fetch room k.worker k.idle_workers [] event_sz
  ({ k with worker := f.worker, idle_workers := f.idle_workers }, f.rv,
    if 0 < f.event_sz ∧ f.words.length < room then f.words ++ [0] else f.words)

/-- `umcg_server_wait_bh`, called by `blockq_check` or after a wake-up; `none` if the server has
to block. -/
def serverWaitBh (k : Kernel) (room event_sz : ℕ) : Kernel × Option Answer :=
  match k.serverGetEvents room event_sz with
  | (k, .value 0, events) =>
    if k.wake_idle_server then ({ k with wake_idle_server := false }, some ⟨.value 0, events⟩)
    else (k, none)
  | (k, rv, events) => (k, some ⟨rv.clear, events⟩)

/-- `umcg_server_ctx_switch_bh` of the server `s`, after `event` was stored. -/
def serverCtxSwitchBh (k : Kernel) (s : Int32) (event : UInt64) (room event_sz : ℕ) : Kernel :=
  if event = 0 then k
  else if room = 0 then k.finish s (.error .efault) []
  else if 1 < event_sz then
    let (k, rv, events) := k.serverGetEvents (room - 1) (event_sz - 1)
    k.finish s rv.clear (event :: events)
  else k.finish s (.value 0) [event]

/-- `umcg_server_wait_worker_bh` of the server `s`. -/
def serverWaitWorkerBh (k : Kernel) (s worker : Int32) : Kernel :=
  match k.worker worker with
  | some w => if w.status = .blocked then k else k.finish s (.value 0) []
  | none => k.finish s (.value 0) []

/-- The action of the thread `s` is run while `s` sleeps. -/
def runAction (k : Kernel) (s : Int32) : Kernel :=
  match k.action s with
  | some (.waitWorker t) => k.serverWaitWorkerBh s t
  | some (.wait _ room event_sz) =>
    match k.serverWaitBh room event_sz with
    | (k, some a) => k.finish s a.ret a.events
    | (k, none) => k
  | some (.ctxSwitch _ event room event_sz) => k.serverCtxSwitchBh s event room event_sz
  | none => k

/-- The action `a` of the thread `t` is run for the first time, and `t` sleeps if it has to
block. -/
def checkAction (k : Kernel) (t : Int32) : Action → Kernel
  | .waitWorker worker => (k.sleep t (.waitWorker worker)).serverWaitWorkerBh t worker
  | .wait timeout room event_sz =>
    match k.serverWaitBh room event_sz with
    | (k, some answer) => k.ret t answer.ret answer.events
    | (k, none) => { k.sleep t (.wait timeout room event_sz) with server_bq := k.server_bq ++ [t] }
  | .ctxSwitch closure event room event_sz =>
    (k.sleep t (.ctxSwitch closure event room event_sz)).serverCtxSwitchBh t event room event_sz

end Kernel

/-! ### Block queues -/

/-- A block queue: the one of the module, or that of a thread. -/
inductive Queue
  | server
  | thread (t : Int32)
  deriving DecidableEq, Repr

/-- The threads that sleep in a block queue. -/
def Kernel.sleepers (k : Kernel) : Queue → List Int32
  | .server => k.server_bq
  | .thread t => if (k.action t).any (!·.isWait) then [t] else []

/-- The operations of the block queues that the module uses. -/
class Blockq where
  /-- `blockq_check` and `blockq_check_timeout`: the thread `t` is about to sleep with an action. -/
  check (k : Kernel) (t : Int32) (a : Action) : Kernel
  /-- `blockq_wake_one`; the Boolean says that there was a thread to wake. -/
  wakeOne (k : Kernel) (q : Queue) : Kernel × Bool

/-- Actions are run at once. A thread runs its action before it sleeps, and a wake-up runs the
action of one of the threads of the queue; if the action does not block, the thread leaves the queue
and its call returns. -/
class Blockq.AtOnce [Blockq] : Prop where
  check_eq (k : Kernel) (t : Int32) (a : Action) : check k t a = k.checkAction t a
  wakeOne_empty (k : Kernel) (q : Queue) (h : k.sleepers q = []) : wakeOne k q = (k, false)
  wakeOne_runs (k : Kernel) (q : Queue) (h : k.sleepers q ≠ []) :
    ∃ s ∈ k.sleepers q, wakeOne k q = (k.runAction s, true)

namespace Fifo

/-- Block queues that wake their threads in the order in which these have come. -/
scoped instance blockq : Blockq where
  check k t a := k.checkAction t a
  wakeOne k q :=
    match k.sleepers q with
    | [] => (k, false)
    | s :: _ => (k.runAction s, true)

instance atOnce : Blockq.AtOnce where
  check_eq _ _ _ := rfl
  wakeOne_empty k q h := by simp [Blockq.wakeOne, h]
  wakeOne_runs k q h := by
    obtain ⟨s, l, hs⟩ := List.exists_cons_of_ne_nil h
    exact ⟨s, by simp [hs], by simp [Blockq.wakeOne, hs]⟩

end Fifo

namespace Kernel

variable [Blockq]

/-! ### Events -/

/-- `blockq_wake_one(&umcg.server_bq)`. -/
def wakeServer (k : Kernel) : Kernel × Bool := Blockq.wakeOne k .server

/-- `blockq_wake_one` on the block queue of the thread `s`. -/
def wakeThread (k : Kernel) (s : Int32) : Kernel := (Blockq.wakeOne k (.thread s)).1

/-- `umcg_worker_event_idle` for the worker `t` with the record `w`. -/
def workerEventIdle (k : Kernel) (t : Int32) (w : Worker) (event : UmcgEventType) : Kernel :=
  let k := k.set t { w with event := event }
  { k with idle_workers := k.idle_workers ++ [t] }.wakeServer.1

/-- `*worker->server_event = worker->id | event`. -/
def storeEvent (k : Kernel) (w : Worker) (event : UmcgEventType) : Kernel :=
  match w.server_event with
  | some (s, closure) =>
    match k.action s with
    | some (.ctxSwitch c _ room event_sz) =>
      if c = closure then k.sleep s (.ctxSwitch c (eventWord w.id event) room event_sz)
      else { k with corrupt := true }
    | _ => { k with corrupt := true }
  | none => { k with corrupt := true }

/-- `blockq_wake_one(bq); blockq_release(bq);`. -/
def wakeAndRelease (k : Kernel) : Option Int32 → Kernel
  | some s => (k.wakeThread s).addRefs s (-1)
  | none => { k with corrupt := true }

/-- `umcg_worker_event_to_server`. -/
def workerEventToServer (k : Kernel) (w : Worker) (event : UmcgEventType) : Kernel :=
  (k.storeEvent w event).wakeAndRelease w.server_bq

/-! ### The callbacks of a worker thread -/

/-- `umcg_worker_timeout`: the timer of `t` has expired. -/
def workerTimeout (k : Kernel) (t : Int32) : Kernel :=
  match k.worker t with
  | none => k
  | some w =>
    let w := { w with tmr := false }
    match w.status with
    | .waiting =>
      let w := { w with status := .idle false, sysret := some (.error .etimedout) }
      k.workerEventIdle t w .timeout
    | .idle false => k.set t { w with status := .idle true, sysret := some (.error .etimedout) }
    | _ => k.set t w

/-- `umcg_syscall_pause`: the system call of `t` blocks. -/
def syscallPause (k : Kernel) (t : Int32) : Kernel :=
  match k.worker t with
  | none => k
  | some w =>
    if w.status = .paused then
      let k := k.set t { w with status := .blocked, server_bq := none }
      (k.storeEvent w .block).wakeAndRelease w.server_bq
    else k

/-- `umcg_worker_pause`: the thread `t` enters a system call. -/
def workerPause (k : Kernel) (t : Int32) : Kernel :=
  match k.worker t with
  | none => k
  | some w => k.set t { w with status := .paused }

/-- `umcg_worker_schedule_return`: the thread `t` is about to return to user mode. -/
def workerScheduleReturn (k : Kernel) (t : Int32) (now : ℕ) : Kernel :=
  match k.worker t with
  | none => k
  | some w =>
    if w.status = .blocked then
      let w := { w with status := .idle false }
      let k := k.set t w
      let k := if w.server_bq.isSome then k.wakeAndRelease w.server_bq else k
      k.workerEventIdle t w .wake
    else if w.start_time + k.preempt_interval ≤ now then
      let w := { w with status := .runnable }
      (k.set t w).workerEventToServer w .preempt
    else k.set t { w with status := .running }

/-! ### The system call -/

/-- `UmcgCmd`, `enum umcg_cmd`. -/
inductive UmcgCmd
  | registerWorker
  | registerServer
  | unregister
  | wake
  | wait
  | ctxSwitch
  deriving DecidableEq, Repr

/-- The arguments of `umcg_ctl`. The pointer `events` is given by the number of words that can be
written from it on; `none` is the null pointer. A command that is not known has no `UmcgCmd`. -/
structure Args where
  flags : UInt64
  cmd : Option UmcgCmd
  next_tid : Int32
  abs_timeout : UInt64
  events : Option ℕ
  event_sz : Int32
  deriving DecidableEq, Repr

namespace Args

/-- The `int event_sz` of `umcg_ctl`, as the `u64` that the functions it calls get. -/
def size (a : Args) : ℕ := a.event_sz.toInt64.toUInt64.toNat

/-- `next_tid || events || event_sz`. -/
def hasTarget (a : Args) : Bool := a.next_tid ≠ 0 || a.events.isSome || a.event_sz ≠ 0

/-! The arguments with which a worker thread registers, waits and unregisters, and with which a
server waits, waits for one worker and switches. A switch has a buffer of `EVENT_BUFFER_SIZE`
words. -/

def registerWorker (worker_id : UInt64) : Args := ⟨0, some .registerWorker, 0, worker_id, none, 0⟩

def workerWait : Args := ⟨0, some .wait, 0, 0, none, 0⟩

def unregister : Args := ⟨0, some .unregister, 0, 0, none, 0⟩

def serverWait (abs_timeout : UInt64) (room : ℕ) (event_sz : Int32) : Args :=
  ⟨0, some .wait, 0, abs_timeout, some room, event_sz⟩

def waitFor (worker_tid : Int32) : Args := ⟨0, some .wait, worker_tid, 0, none, 0⟩

def ctxSwitch (worker_tid : Int32) : Args := ⟨0, some .ctxSwitch, worker_tid, 0, some 2, 2⟩

end Args

/-- `umcg_register_worker`; `memory` says that `allocate` succeeds. -/
def registerWorker (k : Kernel) (t : Int32) (id : UInt64) (memory : Bool) : Kernel :=
  if id &&& workerEventMask ≠ 0 then k.ret t (.error .einval) []
  else if !memory then k.ret t (.error .enomem) []
  else
    match k.worker t with
    | some _ => k.ret t (.error .einval) []
    | none =>
      let w := ⟨id, .idle false, 0, .wake, none, none, false, some (.value 0)⟩
      let k := k.set t w
      { k with idle_workers := k.idle_workers ++ [t] }.wakeServer.1

/-- `umcg_unregister` of the thread `t`. The record is freed without a look at the list of the
idle workers. -/
def unregister (k : Kernel) (t : Int32) : Kernel :=
  match k.worker t with
  | none => k
  | some w =>
    let k := { k with worker := Function.update k.worker t none }
    let k := k.workerEventToServer w .exit
    { k with corrupt := k.corrupt || t ∈ k.idle_workers }

/-- `umcg_wait`. -/
def wait (k : Kernel) (t : Int32) (a : Args) (memory : Bool) : Kernel :=
  match k.worker t with
  | none =>
    if a.next_tid ≠ 0 then
      if a.abs_timeout ≠ 0 ∨ a.events.isSome ∨ a.event_sz ≠ 0 then k.ret t (.error .einval) []
      else if !k.alive a.next_tid then k.ret t (.error .esrch) []
      else
        match k.worker a.next_tid with
        | none => k.ret t (.error .einval) []
        | some next =>
          if !memory then k.ret t (.error .enomem) []
          else
            let k := (k.set a.next_tid { next with server_bq := some t }).addRefs t 1
            Blockq.check k t (.waitWorker a.next_tid)
    else if a.size < 2 then k.ret t (.error .einval) []
    else
      let room := a.events.getD 0
      if a.abs_timeout = 1 then
        match k.serverGetEvents room a.size with
        | (k, .value 0, events) => k.ret t (.error .etimedout) events
        | (k, rv, events) => k.ret t rv.clear events
      else if !memory then k.ret t (.error .enomem) []
      else Blockq.check k t (.wait a.abs_timeout.toNat room a.size)
  | some w =>
    if a.next_tid ≠ 0 ∨ a.events.isSome ∨ a.event_sz ≠ 0 then k.ret t (.error .einval) []
    else
      let w := { w with
        status := .waiting, tmr := w.tmr || a.abs_timeout ≠ 0, sysret := some (.value 0) }
      (k.set t w).workerEventToServer w .wait

/-- The target `t` of a context switch runs: its timer is removed, and it returns from the call it
sleeps in. -/
def run (k : Kernel) (t : Int32) (next : Worker) (now : ℕ) : Kernel :=
  { k.set t { next with status := .running, tmr := false, start_time := now, sysret := none } with
    answer :=
      match next.sysret with
      | some r => Function.update k.answer t (some ⟨r, []⟩)
      | none => k.answer }

/-- `umcg_ctx_switch`. -/
def ctxSwitch (k : Kernel) (t : Int32) (a : Args) (now : ℕ) (memory : Bool) : Kernel :=
  if !k.alive a.next_tid then k.ret t (.error .esrch) []
  else
    match k.worker a.next_tid with
    | none => k.ret t (.error .einval) []
    | some next =>
      match k.worker t with
      | none =>
        if a.abs_timeout ≠ 0 ∨ a.size = 0 then k.ret t (.error .einval) []
        else if !memory then k.ret t (.error .enomem) []
        else if next.status ≠ .runnable ∧ next.status ≠ .waiting then k.ret t (.error .einval) []
        else
          let next := { next with server_event := some (t, k.closures), server_bq := some t }
          let k := (k.run a.next_tid next now).addRefs t 1
          Blockq.check { k with closures := k.closures + 1 } t
            (.ctxSwitch k.closures 0 (a.events.getD 0) a.size)
      | some w =>
        if next.status ≠ .runnable then k.ret t (.error .einval) []
        else
          let w' := { w with
            status := .idle false, tmr := w.tmr || a.abs_timeout ≠ 0, sysret := some (.value 0) }
          let next := { next with server_event := w.server_event, server_bq := w.server_bq }
          (k.run a.next_tid next now).workerEventIdle t w' .wait

/-- `umcg_ctl`. -/
def ctl (k : Kernel) (t : Int32) (a : Args) (now : ℕ) (memory : Bool) : Kernel :=
  match a.cmd with
  | some .registerWorker =>
    if a.flags ≠ 0 ∨ a.hasTarget then k.ret t (.error .einval) []
    else k.registerWorker t a.abs_timeout memory
  | some .registerServer =>
    if a.flags ≠ 0 ∨ a.abs_timeout ≠ 0 ∨ a.hasTarget then k.ret t (.error .einval) []
    else k.ret t (.value 0) []
  | some .unregister =>
    if a.flags ≠ 0 ∨ a.abs_timeout ≠ 0 ∨ a.hasTarget then k.ret t (.error .einval) []
    else (k.unregister t).ret t (.value 0) []
  | some .wake =>
    if a.flags ≠ 0 ∨ a.abs_timeout ≠ 0 ∨ a.hasTarget then k.ret t (.error .einval) []
    else
      match { k with wake_idle_server := true }.wakeServer with
      | (k, true) => k.ret t (.value 0) []
      | (k, false) =>
        if k.wake_idle_server then
          { k with wake_idle_server := false }.ret t (.error .eagain) []
        else k.ret t (.value 0) []
  | some .wait =>
    if a.flags &&& ~~~1 ≠ 0 then k.ret t (.error .einval) [] else k.wait t a memory
  | some .ctxSwitch =>
    if a.flags ≠ 0 then k.ret t (.error .einval) [] else k.ctxSwitch t a now memory
  | none => k.ret t (.error .einval) []

/-! ### The calls of the entry points -/

/-- The calls of the module. -/
inductive Call
  /-- The thread `t` makes the system call at the time `now`. -/
  | ctl (t : Int32) (a : Args) (now : ℕ) (memory : Bool)
  /-- The thread `t` goes on with the answer of its call. -/
  | resume (t : Int32)
  /-- The worker `t` enters a system call. -/
  | pause (t : Int32)
  /-- The system call of the worker `t` blocks. -/
  | syscallPause (t : Int32)
  /-- The worker `t` is about to return to user mode. -/
  | scheduleReturn (t : Int32) (now : ℕ)
  /-- The timer of the worker `t` expires. -/
  | timeout (t : Int32)
  /-- The `Wait` of the server `s` times out. -/
  | timedOut (s : Int32)
  /-- The sleep of the server `s` is interrupted by a signal. -/
  | nullify (s : Int32)
  /-- The process gets the thread `t`. -/
  | spawn (t : Int32)
  /-- The thread `t` ends. -/
  | exit (t : Int32)
  deriving DecidableEq, Repr

/-- The thread `t` executes: it is in no block queue, and as a worker it is on a processor. -/
def executes (k : Kernel) (t : Int32) : Bool :=
  k.alive t && (k.action t).isNone &&
    match k.worker t with
    | some w => w.status.onCpu
    | none => true

/-- The status of the worker `t`. -/
def status (k : Kernel) (t : Int32) : Option Status := (k.worker t).map Worker.status

/-- `BLOCKQ_ACTION_NULLIFY`. -/
def nullified : Action → Errno
  | .wait timeout _ _ => if timeout ≠ 0 then .eintr else .erestartsys
  | .waitWorker _ | .ctxSwitch _ _ _ _ => .erestartsys

/-- One call of the module. A thread is in one call at a time; a worker thread makes its calls
while it is `paused`, that is, in a system call. -/
def step (k : Kernel) : Call → Option Kernel
  | .ctl t a now memory =>
    if k.executes t ∧ k.answer t = none ∧ k.status t ≠ some .running then
      some (k.ctl t a now memory)
    else none
  | .resume t =>
    if k.executes t ∧ (k.answer t).isSome ∧ k.status t ≠ some .paused then
      some { k with answer := Function.update k.answer t none }
    else none
  | .pause t =>
    if k.status t = some .running ∧ k.answer t = none then some (k.workerPause t) else none
  | .syscallPause t =>
    if k.status t = some .paused ∧ k.answer t = none then some (k.syscallPause t) else none
  | .scheduleReturn t now =>
    match k.status t with
    | some .running | some .paused | some .blocked => some (k.workerScheduleReturn t now)
    | _ => none
  | .timeout t =>
    match k.worker t with
    | some w => if w.tmr then some (k.workerTimeout t) else none
    | none => none
  | .timedOut s =>
    match k.action s with
    | some (.wait timeout _ _) =>
      if timeout ≠ 0 then some (k.finish s (.error .etimedout) []) else none
    | _ => none
  | .nullify s =>
    match k.action s with
    | some a => some (k.finish s (.error (nullified a)) [])
    | none => none
  | .spawn t => if k.alive t then none else some { k with alive := Function.update k.alive t true }
  | .exit t =>
    -- a thread that ends as a worker is unregistered when it is freed
    if k.alive t ∧ k.action t = none then
      let k := k.unregister t
      some { k with
        alive := Function.update k.alive t false, answer := Function.update k.answer t none }
    else none

end Kernel

end Umcg.Klib
