import Umcg.Base
import Umcg.Foundation.BoundedQueue
import Umcg.Foundation.Run
import Umcg.Foundation.Table

/-!
# The server thread of `attempt2`

`Server` is the data of one scheduling server together with the point its thread has reached.
The thread alone writes its status table and its worker queues, so between two interactions
with its surroundings (a removal from the shared task queue, a send on a channel, a system
call, the receipt of an event) it is a function of that data. The interactions are the points
of control, and what comes back at such a point is an `Input`:

* `Control.registering`, `Control.registerSwitch`: the registration loop of `start_server`, in
  its `Wait` and in its context switch;
* `Control.eventLoop`: in `run_event_loop`, with the result of the last call it made;
* `Control.popPending`: at the head of the loop of `try_schedule_tasks`;
* `Control.removeTask`, `Control.sendTask`: at `remove_task()` and at `tx.send(..)`, with the
  task that has been removed;
* `Control.ctxSwitch`: inside a context switch, made by `try_schedule_tasks` or by
  `handle_event`;
* `Control.handleEvent`: at the entry of `handle_event`.

A nested `handle_event` is in tail position: its caller returns what it returns. So a call
needs no stack, only its depth and the function that made the outermost call (`Caller`).

`Server.step` is one step of the thread. Of the log only the lines about a lost worker or task
are kept (`Diagnostic`).
-/

namespace Umcg.Attempt2

/-- The log lines about a worker or a task that is not where it should be. -/
inductive Diagnostic
  /-- `CRITICAL: Worker {} was in pending queue but had status {:?}`. -/
  | critical (worker_id : UInt64) (status : WorkerStatus)
  /-- A push to the pending queue failed. -/
  | pendingFull (worker_id : UInt64)
  /-- `Failed to add worker {} to running queue`. -/
  | runningFull (worker_id : UInt64)
  /-- `Failed to send task {} to worker {}`. -/
  | sendFailed (worker_id : UInt64)
  /-- `Received event for unmanaged worker {}, this should not happen!`. -/
  | unmanaged (worker_id : UInt64)
  deriving DecidableEq, Repr

/-- Who made the outermost call of `handle_event`: `run_event_loop`, or `try_schedule_tasks`
with the events of its switch buffer that it has not handled yet. -/
inductive Caller
  | runEventLoop
  | trySchedule (rest : List UInt64)
  deriving DecidableEq, Repr

/-- The two places that make a context switch to a worker after registration. -/
inductive Site
  | trySchedule
  | handleEvent (depth : ℕ) (caller : Caller)
  deriving DecidableEq, Repr

/-- The point the thread of a server has reached. -/
inductive Control (τ : Type)
  | registering (registered : List UInt64)
  | registerSwitch (registered : List UInt64) (worker_tid : Int32)
  | eventLoop (last : Outcome)
  | popPending
  | removeTask (worker_id : UInt64)
  | sendTask (worker_id : UInt64) (task : τ)
  | ctxSwitch (worker_id : UInt64) (site : Site)
  | handleEvent (event : UInt64) (depth : ℕ) (caller : Caller)
  deriving DecidableEq, Repr

/-- A server: its status table, the keys of its channel map, its worker queues, its control
and the diagnostics it has logged. -/
structure Server (τ : Type) where
  states : Table UInt64 WorkerStatus
  channels : List UInt64
  pending : BoundedQueue UInt64
  running : BoundedQueue UInt64
  control : Control τ
  log : List Diagnostic

/-- What the surroundings of the thread do at a point of control. -/
inductive Input (τ : Type)
  /-- The `Wait` of the registration loop returns. -/
  | waited (a : SwitchAnswer)
  /-- `run_event_loop` calls `try_schedule_tasks`. -/
  | schedule
  /-- `run_event_loop` receives an event from its channel. -/
  | recv (event : UInt64)
  /-- The thread goes on by itself. -/
  | tau
  /-- `remove_task()` returns. -/
  | removed (task : Option τ)
  /-- `tx.send(..)` returns; `ok` says that the receiver was alive. -/
  | sent (ok : Bool)
  /-- A context switch returns. -/
  | switched (a : SwitchAnswer)
  deriving DecidableEq, Repr

namespace Server

variable {τ : Type}

/-- A line of the log. -/
def diagnose (s : Server τ) (d : Diagnostic) : Server τ := { s with log := s.log ++ [d] }

/-- `self.worker_queues.pending.push(worker_id)`; a failure is only logged. -/
def pushPending (s : Server τ) (w : UInt64) : Server τ :=
  match s.pending.push w with
  | some q => { s with pending := q }
  | none => s.diagnose (.pendingFull w)

/-- `let _ = self.worker_queues.running.pop()`: whichever worker is at the front leaves. -/
def popRunning (s : Server τ) : Server τ :=
  { s with running := (s.running.pop.map Prod.snd).getD s.running }

/-- `*status = st`, for a worker of the table. -/
def setStatus (s : Server τ) (w : UInt64) (st : WorkerStatus) : Server τ :=
  { s with states := s.states.set w st }

/-- `try_schedule_tasks` after a context switch: handle the next event of the buffer, or go
back to the head of the loop. -/
def nextEvent : List UInt64 → Control τ
  | [] => .popPending
  | e :: rest => .handleEvent e 0 (.trySchedule rest)

/-- Where the thread goes on when the outermost call of `handle_event` returns `r`. An error
makes `try_schedule_tasks` return it at once (`?`). -/
def resume (r : Outcome) : Caller → Control τ
  | .runEventLoop => .eventLoop r
  | .trySchedule rest =>
    match r with
    | .ok => nextEvent rest
    | .err e => .eventLoop (.err e)

/-- `handle_event` returns `r`. -/
def ret (s : Server τ) (r : Outcome) (caller : Caller) : Server τ :=
  { s with control := resume r caller }

/-- `handle_event`, up to its return or to the context switch of a woken worker. -/
def handleEvent (s : Server τ) (event : UInt64) (depth : ℕ) (caller : Caller) : Server τ :=
  let w := workerId event
  match eventType event with
  | some .block =>
    match s.states.get? w with
    | some .running => (s.setStatus w .blocked).ret .ok caller
    | _ => s.ret .ok caller
  | some .wake =>
    match s.states.get? w with
    | some .blocked =>
      { s.setStatus w .running with control := .ctxSwitch w (.handleEvent depth caller) }
    | _ => s.ret .ok caller
  | some .wait =>
    match s.states.get? w with
    | some .running =>
      ((s.setStatus w .waiting).popRunning.pushPending w).ret .ok caller
    -- an unexpected WAIT leaves the status alone, but the worker is still pushed
    | some _ => (s.pushPending w).ret .ok caller
    | none => s.ret .ok caller
  | _ => s.ret (.err (.invalidWorkerEvent w event)) caller

/-- The head of the loop of `try_schedule_tasks`, up to `remove_task`. -/
def popPending (s : Server τ) : Server τ :=
  match s.pending.pop with
  | none => { s with control := .eventLoop .ok }
  | some (w, q) =>
    let s := { s with pending := q }
    match s.states.get? w with
    | none => s
    | some .waiting => { s with control := .removeTask w }
    | some st => (s.diagnose (.critical w st)).pushPending w

/-- `try_schedule_tasks` after `remove_task`, up to the send on the worker's channel. Without a
channel, and when the running queue is full, the removed task is dropped. -/
def removeTask (s : Server τ) (w : UInt64) : Option τ → Server τ
  | some task =>
    if w ∈ s.channels then
      let s := s.setStatus w .running
      match s.running.push w with
      | some q => { s with running := q, control := .sendTask w task }
      | none =>
        let s := (s.diagnose (.runningFull w)).setStatus w .waiting
        { s.pushPending w with control := .popPending }
    else { s with control := .popPending }
  | none => { s.pushPending w with control := .eventLoop .ok }

/-- `try_schedule_tasks` after the send; after a failure the loop goes on with the next
worker. -/
def sendTask (s : Server τ) (w : UInt64) : Bool → Server τ
  | true => { s with control := .ctxSwitch w .trySchedule }
  | false => { s.diagnose (.sendFailed w) with control := .popPending }

/-- A context switch returns: `try_schedule_tasks` handles every event of the buffer,
`handle_event` only the first. Neither looks at the return value. -/
def switched (s : Server τ) (a : SwitchAnswer) : Site → Server τ
  | .trySchedule => { s with control := nextEvent a.reported }
  | .handleEvent depth caller =>
    match a.reported with
    | [] => s.ret .ok caller
    | e :: _ => { s with control := .handleEvent e (depth + 1) caller }

/-- `while registered_workers.len() < self.states.len()`. -/
def registerNext (s : Server τ) (registered : List UInt64) : Server τ :=
  if registered.length < s.states.keys.length then { s with control := .registering registered }
  else { s with control := .eventLoop .ok }

/-- The registration loop after `Wait`. -/
def waited (s : Server τ) (registered : List UInt64) (a : SwitchAnswer) : Server τ :=
  if a.ret ≠ 0 then s
  else if eventType a.first = some .wake then
    if shiftedId (workerTid a.first) ∈ registered then s
    else { s with control := .registerSwitch registered (workerTid a.first) }
  else s

/-- The registration loop after its context switch. What the switch reported is not looked
at. -/
def registerSwitched (s : Server τ) (registered : List UInt64) (worker_tid : Int32)
    (a : SwitchAnswer) : Server τ :=
  let w := shiftedId worker_tid
  if a.ret = 0 then
    match s.states.get? w with
    | some _ => ((s.setStatus w .waiting).pushPending w).registerNext (registered ++ [w])
    | none => { s with control := .registering registered }
  else { s with control := .registering registered }

/-- `run_event_loop` on an event from its channel. -/
def recv (s : Server τ) (event : UInt64) : Server τ :=
  if workerId event ∈ s.channels then { s with control := .handleEvent event 0 .runEventLoop }
  else s.diagnose (.unmanaged (workerId event))

/-- One step of the thread of a server. -/
def step (s : Server τ) : Input τ → Option (Server τ)
  | .waited a =>
    match s.control with
    | .registering registered => some (s.waited registered a)
    | _ => none
  | .schedule =>
    match s.control with
    | .eventLoop _ => some { s with control := .popPending }
    | _ => none
  | .recv event =>
    match s.control with
    | .eventLoop _ => some (s.recv event)
    | _ => none
  | .tau =>
    match s.control with
    | .popPending => some s.popPending
    | .handleEvent event depth caller => some (s.handleEvent event depth caller)
    | _ => none
  | .removed task =>
    match s.control with
    | .removeTask w => some (s.removeTask w task)
    | _ => none
  | .sent ok =>
    match s.control with
    | .sendTask w _ => some (s.sendTask w ok)
    | _ => none
  | .switched a =>
    match s.control with
    | .ctxSwitch _ site => some (s.switched a site)
    | .registerSwitch registered tid => some (s.registerSwitched registered tid a)
    | _ => none

end Server

end Umcg.Attempt2
