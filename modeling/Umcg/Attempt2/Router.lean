import Umcg.Base
import Umcg.Foundation.BoundedQueue
import Umcg.Foundation.Run
import Umcg.Foundation.Table

/-!
# The event queues of the `ServerRouter`

A `ServerRouter` assigns workers to servers and keeps one bounded queue of events for each server.
`forward_event` looks up the queue of a worker's server and appends the event, and it is meant to
return `QueueFull` when there is no room. But `push_event`, which it calls, logs the result of the
push and returns `Ok` in any case. So `forward_event` is right exactly as long as it meets no full
queue (`ServerRouter.truthful_iff`).

`RouterHistory` follows a router through calls of any number of threads; each access of a queue is
atomic. While no call meets a full queue, what was in the queue of a server at the beginning
and what was forwarded to it since is what has been popped from it and what is in it
(`RouterHistory.Conserved`).

## Main results

* `ServerRouter.truthful_iff` : when a call of `forward_event` tells the truth.
* `RouterHistory.Conserved.step` : every call keeps the law of the queues.
* `RouterHistory.forward_event_truthful` : both, over every sequence of calls.
-/

namespace Umcg.Attempt2

/-- `ServerQueue::push_event`: the result of the push is only logged. -/
def pushEvent (events : BoundedQueue UInt64) (event : UInt64) :
    Except UInt64 Unit × BoundedQueue UInt64 :=
  (.ok (), (events.push event).getD events)

/-- `ServerRouter`: the server of each worker, and the event queue of each server. -/
structure ServerRouter where
  worker_assignments : UInt64 → Option ℕ
  server_queues : Table ℕ (BoundedQueue UInt64)

namespace ServerRouter

/-- `ServerRouter::new`. -/
def new (server_count queue_capacity : ℕ) : ServerRouter where
  worker_assignments _ := none
  server_queues := .const (List.range server_count) List.nodup_range (.empty queue_capacity)

/-- `register_worker`. -/
def registerWorker (r : ServerRouter) (worker_id : UInt64) (server_id : ℕ) : ServerRouter :=
  { r with worker_assignments := Function.update r.worker_assignments worker_id (some server_id) }

/-- `forward_event`. -/
def forwardEvent (r : ServerRouter) (worker_id event : UInt64) : Outcome × ServerRouter :=
  match r.worker_assignments worker_id with
  | some server_id =>
    match r.server_queues.get? server_id with
    | some queue =>
      match pushEvent queue event with
      | (.ok (), queue) =>
        (.ok, { r with server_queues := r.server_queues.set server_id queue })
      | (.error _, queue) =>
        (.err .queueFull, { r with server_queues := r.server_queues.set server_id queue })
    | none => (.err .noServerFound, r)
  | none => (.err .noServerFound, r)

/-- `pop_event` on the queue of `server_id`. -/
def popEvent (r : ServerRouter) (server_id : ℕ) : Option UInt64 × ServerRouter :=
  match r.server_queues.get? server_id with
  | some queue =>
    match queue.pop with
    | some (event, queue) =>
      (some event, { r with server_queues := r.server_queues.set server_id queue })
    | none => (none, r)
  | none => (none, r)

/-- The events in the queue of the server `i`. -/
def contents (r : ServerRouter) (i : ℕ) : List UInt64 :=
  match r.server_queues.get? i with
  | some queue => queue.items
  | none => []

/-- `r'` is `r` with the event at the back of the queue of the server `i`. -/
structure Appended (r r' : ServerRouter) (i : ℕ) (event : UInt64) : Prop where
  back : ∃ q q', r.server_queues.get? i = some q ∧ r'.server_queues.get? i = some q' ∧
    q'.items = q.items ++ [event] ∧ q'.cap = q.cap
  others : ∀ j, j ≠ i → r'.server_queues.get? j = r.server_queues.get? j

/-- The result of `forward_event` says what has happened to the event. -/
structure Truthful (r : ServerRouter) (worker_id event : UInt64) : Prop where
  ok : (r.forwardEvent worker_id event).1 = .ok ↔
    ∃ i, r.worker_assignments worker_id = some i ∧
      r.Appended (r.forwardEvent worker_id event).2 i event
  queueFull : ∀ i q, r.worker_assignments worker_id = some i → r.server_queues.get? i = some q →
    q.cap ≤ q.items.length → r.forwardEvent worker_id event = (.err .queueFull, r)
  noServerFound : (∀ i, r.worker_assignments worker_id = some i → r.server_queues.get? i = none) →
    r.forwardEvent worker_id event = (.err .noServerFound, r)

/-- The queue of the worker's server, if there is one, is not full. -/
def HasRoom (r : ServerRouter) (worker_id : UInt64) : Prop :=
  ∀ i ∈ r.worker_assignments worker_id, ∀ q ∈ r.server_queues.get? i, q.items.length < q.cap

instance (r : ServerRouter) (worker_id : UInt64) : Decidable (r.HasRoom worker_id) :=
  have (i : ℕ) : Decidable (∀ q ∈ r.server_queues.get? i, q.items.length < q.cap) :=
    Option.decidableForallMem (p := fun q : BoundedQueue UInt64 => q.items.length < q.cap) _
  Option.decidableForallMem (p := fun i => ∀ q ∈ r.server_queues.get? i, q.items.length < q.cap) _

variable {r r' : ServerRouter} {w e : UInt64} {i j : ℕ} {q q' : BoundedQueue UInt64}

/-- A worker without a server. -/
theorem forwardEvent_of_none
    (h : ∀ i, r.worker_assignments w = some i → r.server_queues.get? i = none) :
    r.forwardEvent w e = (.err .noServerFound, r) := by
  unfold forwardEvent
  split
  · rename_i i hi
    rw [h i hi]
  · rfl

/-- A worker with a server: the result is `Ok`, whether there is room for the event or not. -/
theorem forwardEvent_of_some (hi : r.worker_assignments w = some i)
    (hq : r.server_queues.get? i = some q) : r.forwardEvent w e =
      (.ok, { r with server_queues := r.server_queues.set i ((q.push e).getD q) }) := by
  unfold forwardEvent
  rw [hi]
  dsimp only
  rw [hq]
  rfl

/-- A worker has a server with a queue, or not. -/
theorem forwardEvent_cases (r : ServerRouter) (w : UInt64) :
    (∀ i, r.worker_assignments w = some i → r.server_queues.get? i = none) ∨
      ∃ i q, r.worker_assignments w = some i ∧ r.server_queues.get? i = some q := by
  cases hi : r.worker_assignments w with
  | none => exact .inl (by simp)
  | some i =>
    cases hq : r.server_queues.get? i with
    | none => exact .inl (by simpa using hq)
    | some q => exact .inr ⟨i, q, rfl, hq⟩

theorem contents_of_get? (h : r.server_queues.get? i = some q) : r.contents i = q.items := by
  simp [contents, h]

/-- Only the queue that is overwritten changes. -/
theorem contents_set (h : r.server_queues.get? i = some q) (j : ℕ) :
    contents { r with server_queues := r.server_queues.set i q' } j =
      if j = i then q'.items else r.contents j := by
  unfold contents
  rw [Table.get?_set _ (r.server_queues.mem_keys_of_get? h)]
  split_ifs <;> rfl

/-- With room the event is at the back of the queue, and the other queues are unchanged. -/
theorem appended_of_push (hq : r.server_queues.get? i = some q) (hpush : q.push e = some q') :
    r.Appended { r with server_queues := r.server_queues.set i q' } i e := by
  obtain ⟨-, hcap, hitems⟩ := BoundedQueue.push_eq_some_iff.mp hpush
  have hkey := r.server_queues.mem_keys_of_get? hq
  exact ⟨⟨q, q', hq, r.server_queues.get?_set_self hkey, hitems, hcap⟩,
    fun j hj => r.server_queues.get?_set_of_ne hj⟩

theorem HasRoom.push (h : r.HasRoom w) (hi : r.worker_assignments w = some i)
    (hq : r.server_queues.get? i = some q) (e : UInt64) : ∃ q', q.push e = some q' := by
  cases hpush : q.push e with
  | some q' => exact ⟨q', rfl⟩
  | none => exact absurd (h i hi q hq) (Nat.not_lt.mpr (BoundedQueue.push_eq_none_iff.mp hpush))

/-- The result of `forward_event` says what has happened to the event if and only if the call meets
no full queue. -/
theorem truthful_iff (r : ServerRouter) (w e : UInt64) : r.Truthful w e ↔ r.HasRoom w := by
  constructor
  · intro h i hi q hq
    by_contra hfull
    have herr := h.queueFull i q hi hq (Nat.not_lt.mp hfull)
    rw [forwardEvent_of_some hi hq] at herr
    cases congrArg Prod.fst herr
  · intro h
    rcases forwardEvent_cases r w with hnone | ⟨i, q, hi, hq⟩
    · have hres := forwardEvent_of_none (e := e) hnone
      refine ⟨?_, fun i q hi hq => ?_, fun _ => hres⟩
      · rw [hres]
        refine ⟨fun hok => (nomatch hok), ?_⟩
        rintro ⟨i, hi, ⟨q, -, hq, -⟩, -⟩
        rw [hnone i hi] at hq
        cases hq
      · rw [hnone i hi] at hq
        cases hq
    · obtain ⟨q', hpush⟩ := h.push hi hq e
      have hres := forwardEvent_of_some (e := e) hi hq
      rw [hpush, Option.getD_some] at hres
      refine ⟨?_, fun j q₁ hj hq₁ hfull => ?_, fun hnone => ?_⟩
      · rw [hres]
        exact ⟨fun _ => ⟨i, hi, appended_of_push hq hpush⟩, fun _ => rfl⟩
      · exact absurd (h j hj q₁ hq₁) (Nat.not_lt.mpr hfull)
      · rw [hnone i hi] at hq
        cases hq

end ServerRouter

/-- A router, the events whose forwarding to a server has returned `Ok` and the events that have
been popped from its queue, in the order of the calls. -/
structure RouterHistory where
  router : ServerRouter
  forwarded : ℕ → List UInt64
  popped : ℕ → List UInt64

/-- The calls of the threads that share a router. -/
inductive RouterCall
  | registerWorker (worker_id : UInt64) (server_id : ℕ)
  | forwardEvent (worker_id event : UInt64)
  | popEvent (server_id : ℕ)
  deriving DecidableEq, Repr

namespace RouterHistory

/-- Before the first call. -/
def start (r : ServerRouter) : RouterHistory := ⟨r, fun _ => [], fun _ => []⟩

/-- One call. -/
def step (h : RouterHistory) : RouterCall → Option RouterHistory
  | .registerWorker w i => some { h with router := h.router.registerWorker w i }
  | .forwardEvent w e =>
    let (result, router) := h.router.forwardEvent w e
    match result, h.router.worker_assignments w with
    | .ok, some i => some { h with
        router := router, forwarded := Function.update h.forwarded i (h.forwarded i ++ [e]) }
    | _, _ => some { h with router := router }
  | .popEvent i =>
    match h.router.popEvent i with
    | (some e, router) => some { h with
        router := router, popped := Function.update h.popped i (h.popped i ++ [e]) }
    | (none, router) => some { h with router := router }

/-- No event is forwarded to a full queue. -/
def RoomToForward (h : RouterHistory) : RouterCall → Prop
  | .forwardEvent w _ => h.router.HasRoom w
  | _ => True

instance (h : RouterHistory) : (c : RouterCall) → Decidable (h.RoomToForward c)
  | .forwardEvent w _ => inferInstanceAs (Decidable (h.router.HasRoom w))
  | .registerWorker _ _ | .popEvent _ => inferInstanceAs (Decidable True)

/-- What was in the queue of each server and has been forwarded to it has been popped or is in the
queue, in this order. -/
def Conserved (r : ServerRouter) (h : RouterHistory) : Prop :=
  ∀ i, r.contents i ++ h.forwarded i = h.popped i ++ h.router.contents i

variable {r : ServerRouter} {h h' : RouterHistory} {c : RouterCall}

private theorem Conserved.forwardEvent (hI : Conserved r h) {w e : UInt64}
    (hroom : h.router.HasRoom w) (hstep : h.step (.forwardEvent w e) = some h') :
    Conserved r h' := by
  rcases ServerRouter.forwardEvent_cases h.router w with hnone | ⟨i, q, hi, hq⟩
  · simp only [step, ServerRouter.forwardEvent_of_none hnone, Option.some.injEq] at hstep
    subst hstep
    exact hI
  · obtain ⟨q', hpush⟩ := hroom.push hi hq e
    obtain ⟨-, -, hitems⟩ := BoundedQueue.push_eq_some_iff.mp hpush
    simp only [step, ServerRouter.forwardEvent_of_some hi hq, hi, hpush, Option.getD_some,
      Option.some.injEq] at hstep
    subst hstep
    intro j
    rw [ServerRouter.contents_set hq]
    by_cases hj : j = i
    · subst hj
      have hIj := hI j
      rw [ServerRouter.contents_of_get? hq] at hIj
      simp [hitems, ← hIj, ← List.append_assoc]
    · simpa [hj] using hI j

private theorem Conserved.popEvent (hI : Conserved r h) {i : ℕ}
    (hstep : h.step (.popEvent i) = some h') : Conserved r h' := by
  cases hq : h.router.server_queues.get? i with
  | none =>
    simp only [step, ServerRouter.popEvent, hq, Option.some.injEq] at hstep
    subst hstep
    exact hI
  | some q =>
    cases hpop : q.pop with
    | none =>
      simp only [step, ServerRouter.popEvent, hq, hpop, Option.some.injEq] at hstep
      subst hstep
      exact hI
    | some p =>
      obtain ⟨e, q'⟩ := p
      obtain ⟨hitems, -⟩ := BoundedQueue.pop_eq_some_iff.mp hpop
      simp only [step, ServerRouter.popEvent, hq, hpop, Option.some.injEq] at hstep
      subst hstep
      intro j
      rw [ServerRouter.contents_set hq]
      by_cases hj : j = i
      · subst hj
        have hIj := hI j
        rw [ServerRouter.contents_of_get? hq, hitems] at hIj
        simpa using hIj
      · simpa [hj] using hI j

/-- A call that meets no full queue keeps the law of the queues. -/
theorem Conserved.step (hI : Conserved r h) (hroom : h.RoomToForward c)
    (hstep : h.step c = some h') : Conserved r h' := by
  cases c with
  | registerWorker w i =>
    cases hstep
    exact hI
  | forwardEvent w e => exact hI.forwardEvent hroom hstep
  | popEvent i => exact hI.popEvent hstep

/-- In every state of the router, the result of `forward_event` says what has happened to the event
if and only if the call meets no full queue. Over every sequence of calls that meet none, the events
popped from the queue of a server are, in order, a prefix of what was in it at the beginning and the
events whose forwarding to it returned `Ok`. -/
theorem forward_event_truthful (r : ServerRouter) (l : List RouterCall) (h : RouterHistory)
    (hrun : Run (Guarded step RoomToForward) (start r) l h) :
    (∀ w e, r.Truthful w e ↔ r.HasRoom w) ∧
      ∀ i, h.popped i <+: r.contents i ++ h.forwarded i := by
  have hI : Conserved r h := hrun.invariant (fun i => by simp [start]) fun _ _ _ hI hs =>
    hI.step hs.1 hs.2
  refine ⟨r.truthful_iff, fun i => ?_⟩
  rw [hI i]
  exact List.prefix_append _ _

/-- One server with a queue of one event, and one worker of it. -/
def smallRouter : ServerRouter := (ServerRouter.new 1 1).registerWorker 32 0

/-- The consumer takes each event before the next one is forwarded. -/
theorem forward_event_truthful_inTurn :
    ∃ h, Run (Guarded step RoomToForward) (start smallRouter)
        [.forwardEvent 32 33, .popEvent 0, .forwardEvent 32 34, .popEvent 0] h ∧
      h.popped 0 = [33, 34] ∧ h.popped 0 <+: smallRouter.contents 0 ++ h.forwarded 0 := by
  have hrun : Run (Guarded step RoomToForward) (start smallRouter)
      [.forwardEvent 32 33, .popEvent 0, .forwardEvent 32 34, .popEvent 0] _ :=
    run_trace (by decide +kernel)
  exact ⟨_, hrun, by decide +kernel, (forward_event_truthful smallRouter _ _ hrun).2 0⟩

/-- The second event is forwarded to a full queue: the call returns `Ok` and the event is lost, so
that what is popped is not a prefix of what was forwarded. -/
theorem forward_event_loses : ∃ h₁ h₂,
    Run (Guarded step fun _ _ => True) (start smallRouter) [.forwardEvent 32 33] h₁ ∧
      h₁.router.contents 0 = [33] ∧ (h₁.router.forwardEvent 32 34).1 = .ok ∧
      (h₁.router.forwardEvent 32 34).2.contents 0 = [33] ∧
      Run (Guarded step fun _ _ => True) h₁
        [.forwardEvent 32 34, .popEvent 0, .forwardEvent 32 35, .popEvent 0] h₂ ∧
      h₂.forwarded 0 = [33, 34, 35] ∧ h₂.popped 0 = [33, 35] ∧
      ¬ h₂.popped 0 <+: smallRouter.contents 0 ++ h₂.forwarded 0 :=
  ⟨_, _, run_trace (by decide +kernel), by decide +kernel, by decide +kernel, by decide +kernel,
    run_trace (by decide +kernel), by decide +kernel, by decide +kernel, by decide +kernel⟩

end RouterHistory

end Umcg.Attempt2
