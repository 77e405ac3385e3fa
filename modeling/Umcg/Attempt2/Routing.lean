import Umcg.Attempt2.Setup
import Umcg.Attempt2.Transitions

/-!
# Events are routed to the owner, once and in order

The `EventRoutingServer` waits for batches of events, cuts each at its first zero and sends every
event to the channel of the server that `worker_to_server` gives for its worker. The channels are
bounded: a send to a full one blocks. `Routing` is that thread together with the channels and the
servers that receive from them; next to the program's data it keeps the batches and the streams
the servers have received.

After a set-up that has finished the index into `worker_to_server` never fails, and at every
moment what a server has received, what is in its channel and what of the current batch is still
to be routed to it make up, in this order, the events of its own workers.

## Main results

* `RoutingInv.step` : every step keeps the law of the streams.
* `Routing.events_routed_to_owner` : set-up and routing together.
-/

namespace Umcg.Attempt2

namespace Server

variable {τ : Type} {s t : Server τ} {i : Input τ} {w : UInt64}

private theorem unmanaged_mem_pushPending {v : UInt64} :
    Diagnostic.unmanaged w ∈ (s.pushPending v).log ↔ Diagnostic.unmanaged w ∈ s.log := by
  unfold pushPending
  split
  · rfl
  · simp [diagnose]

/-- The line about an unmanaged worker is written only for an event of a worker without a
channel. -/
theorem Move.unmanaged_log (h : Move s i t) (hw : Diagnostic.unmanaged w ∈ t.log) :
    Diagnostic.unmanaged w ∈ s.log ∨ ∃ e, i = .recv e ∧ workerId e ∉ s.channels := by
  cases h
  case unmanaged e _ hch => exact .inr ⟨e, rfl, hch⟩
  all_goals
    refine .inl ?_
    simpa [unmanaged_mem_pushPending, diagnose, ret, popRunning, setStatus] using hw

end Server

/-- The routing server, the channels to the servers and the servers. -/
structure Routing (τ : Type) where
  worker_to_server : UInt64 → Option ℕ
  /-- The servers with an entry in `server_senders` are those below this number. -/
  server_senders : ℕ
  /-- What is left of the current batch. -/
  events : List UInt64
  channel : ℕ → BoundedQueue UInt64
  server : ℕ → Server τ
  /-- The index into `worker_to_server` has failed. -/
  panicked : Bool
  /-- The batches so far, each cut at its first zero. -/
  batches : List (List UInt64)
  received : ℕ → List UInt64

/-- The steps of the routing server and of the servers. -/
inductive RoutingStep (τ : Type)
  /-- `Wait` returns a buffer of events. -/
  | batch (buffer : List UInt64)
  /-- The next event of the batch is routed. -/
  | route
  /-- The server `s` takes an event from its channel. -/
  | recv (s : ℕ)
  /-- Any other step of the server `s`. -/
  | server (s : ℕ) (x : Input τ)

namespace Routing

variable {τ : Type}

/-- One event of the batch. -/
def route (r : Routing τ) : Option (Routing τ) :=
  match r.events with
  | [] => none
  | e :: rest =>
    match r.worker_to_server (workerId e) with
    | none => some { r with events := [], panicked := true }
    | some s =>
      if s < r.server_senders then
        match (r.channel s).push e with
        | some q => some { r with channel := Function.update r.channel s q, events := rest }
        -- the send blocks
        | none => none
      else some { r with events := rest }

/-- `event_consumer.try_recv()` and what `run_event_loop` does with the event. -/
def recv (r : Routing τ) (s : ℕ) : Option (Routing τ) :=
  match (r.channel s).pop with
  | some (e, q) => ((r.server s).step (.recv e)).map fun t => { r with
      channel := Function.update r.channel s q
      server := Function.update r.server s t
      received := Function.update r.received s (r.received s ++ [e]) }
  | none => none

/-- One step. -/
def step (r : Routing τ) : RoutingStep τ → Option (Routing τ)
  | .batch buffer =>
    if r.events = [] ∧ r.panicked = false then
      let events := buffer.takeWhile (· ≠ 0)
      some { r with events := events, batches := r.batches ++ [events] }
    else none
  | .route => r.route
  | .recv s => r.recv s
  | .server _ (.recv _) => none
  | .server s x =>
    ((r.server s).step x).map fun t => { r with server := Function.update r.server s t }

/-- The kernel returns events of spawned workers only. -/
def ForSpawned (d : Demo) (_ : Routing τ) : RoutingStep τ → Prop
  | .batch buffer => ∀ e ∈ buffer.takeWhile (· ≠ 0),
      ∃ s < d.server_count, ∃ j < d.worker_count, d.id s j = workerId e
  | _ => True

instance (d : Demo) (r : Routing τ) : (a : RoutingStep τ) → Decidable (r.ForSpawned d a)
  | .batch buffer => List.decidableBAll (fun e => ∃ s < d.server_count, ∃ j < d.worker_count,
      d.id s j = workerId e) (buffer.takeWhile (· ≠ 0))
  | .route | .recv _ | .server _ _ => inferInstanceAs (Decidable True)

/-- The routing server has just been started with the maps of the set-up `u`, and the servers are
in their event loops. -/
structure Initial (d : Demo) (u : Setup) (r : Routing τ) : Prop where
  worker_to_server : r.worker_to_server = u.worker_to_server
  server_senders : r.server_senders = d.server_count
  events : r.events = []
  channel : ∀ s, (r.channel s).items = []
  server : ∀ s, (r.server s).control.Serving
  channels : ∀ s w, w ∈ (r.server s).channels ↔ w ∈ u.channels s
  log : ∀ s, (r.server s).log = []
  panicked : r.panicked = false
  batches : r.batches = []
  received : ∀ s, r.received s = []

/-- The events of the workers of the server `s`. -/
def own (u : Setup) (s : ℕ) (l : List UInt64) : List UInt64 := l.filter (workerId · ∈ u.states s)

end Routing

/-- The law of the streams. -/
structure RoutingInv {τ : Type} (d : Demo) (u : Setup) (r : Routing τ) : Prop where
  worker_to_server : r.worker_to_server = u.worker_to_server
  server_senders : r.server_senders = d.server_count
  known : ∀ e ∈ r.events, ∃ s < d.server_count, r.worker_to_server (workerId e) = some s
  panicked : r.panicked = false
  stream : ∀ s, r.received s ++ (r.channel s).items ++ Routing.own u s r.events =
    Routing.own u s r.batches.flatten
  inChannel : ∀ s, ∀ e ∈ (r.channel s).items, workerId e ∈ u.channels s
  server : ∀ s, (r.server s).control.Serving
  channels : ∀ s w, w ∈ (r.server s).channels ↔ w ∈ u.channels s
  log : ∀ s w, Diagnostic.unmanaged w ∉ (r.server s).log

namespace RoutingInv

variable {τ : Type} {d : Demo} {u : Setup} {r r' : Routing τ}

theorem initial (h : r.Initial d u) : RoutingInv d u r where
  worker_to_server := h.worker_to_server
  server_senders := h.server_senders
  known := by simp [h.events]
  panicked := h.panicked
  stream s := by simp [h.received, h.channel, h.events, h.batches, Routing.own]
  inChannel := by simp [h.channel]
  server := h.server
  channels := h.channels
  log := by simp [h.log]

theorem batch (h : RoutingInv d u r) (hmaps : u.MapsAgree d) {buffer : List UInt64}
    (hok : r.ForSpawned d (.batch buffer)) (hr : r.step (.batch buffer) = some r') :
    RoutingInv d u r' := by
  simp only [Routing.step] at hr
  split_ifs at hr with he
  cases hr
  refine { h with known := fun e he => ?_, stream := fun s => ?_ }
  · obtain ⟨s, hs, j, hj, hid⟩ := hok e he
    refine ⟨s, hs, ?_⟩
    change r.worker_to_server _ = _
    rw [h.worker_to_server, ← hid]
    exact hmaps.complete s j hs hj
  · have := h.stream s
    rw [he.1] at this
    simp only [Routing.own, List.filter_nil, List.append_nil] at this
    simp [Routing.own, List.flatten_append, ← this]

/-- An event is appended to the stream of the owner of its worker and to no other. -/
theorem route (h : RoutingInv d u r) (hmaps : u.MapsAgree d) (hr : r.route = some r') :
    RoutingInv d u r' := by
  unfold Routing.route at hr
  split at hr
  · cases hr
  · rename_i e rest he
    obtain ⟨s, hs, hw⟩ := h.known e (he ▸ List.mem_cons_self)
    have hsender : s < r.server_senders := h.server_senders ▸ hs
    simp only [hw, hsender, if_true] at hr
    rw [h.worker_to_server] at hw
    split at hr <;> cases hr
    rename_i q hq
    obtain ⟨-, -, hitems⟩ := BoundedQueue.push_eq_some_iff.mp hq
    refine { h with
      known := fun e' he' => h.known e' (he ▸ List.mem_cons_of_mem e he')
      stream := fun s' => ?_
      inChannel := fun s' e' he' => ?_ }
    · have hstream := h.stream s'
      rw [he] at hstream
      by_cases hs' : s' = s
      · subst hs'
        have hown : workerId e ∈ u.states s' := (hmaps.states_iff _ _).mp hw
        simpa [Routing.own, hown, hitems] using hstream
      · have hown : workerId e ∉ u.states s' := by
          rw [← hmaps.states_iff, hw, Option.some.injEq]
          exact Ne.symm hs'
        simpa [Routing.own, hown, Function.update_of_ne hs'] using hstream
    · by_cases hs' : s' = s
      · subst hs'
        simp only [Function.update_self, hitems, List.mem_append, List.mem_singleton] at he'
        rcases he' with he' | rfl
        · exact h.inChannel s' e' he'
        · exact (hmaps.channels_iff _ _).mp hw
      · simp only [Function.update_of_ne hs'] at he'
        exact h.inChannel s' e' he'

/-- A step of the server `s` that writes no line about an unmanaged worker. -/
private theorem setServer (h : RoutingInv d u r) {s : ℕ} {x : Input τ} {t : Server τ}
    (hm : Server.Move (r.server s) x t)
    (hx : ∀ e, x = .recv e → workerId e ∈ (r.server s).channels) :
    RoutingInv d u { r with server := Function.update r.server s t } := by
  refine { h with server := fun s' => ?_, channels := fun s' => ?_, log := fun s' w hw => ?_ } <;>
    by_cases hs : s' = s
  · subst hs
    simpa using hm.serving (h.server s')
  · simpa [Function.update_of_ne hs] using h.server s'
  · subst hs
    simpa [hm.fixed.2.1] using h.channels s'
  · simpa [Function.update_of_ne hs] using h.channels s'
  · subst hs
    simp only [Function.update_self] at hw
    rcases hm.unmanaged_log hw with hw | ⟨e, he, hch⟩
    · exact h.log s' w hw
    · exact hch (hx e he)
  · simp only [Function.update_of_ne hs] at hw
    exact h.log s' w hw

theorem recv (h : RoutingInv d u r) {s : ℕ} (hr : r.recv s = some r') : RoutingInv d u r' := by
  unfold Routing.recv at hr
  split at hr
  · rename_i e q hq
    obtain ⟨t, ht, rfl⟩ := Option.map_eq_some_iff.mp hr
    obtain ⟨hitems, -⟩ := BoundedQueue.pop_eq_some_iff.mp hq
    have hch : workerId e ∈ (r.server s).channels :=
      (h.channels s _).mpr (h.inChannel s e (hitems ▸ List.mem_cons_self))
    have hset := h.setServer (Server.move_of_step (h.server s) ht) (by simpa using hch)
    refine { hset with stream := fun s' => ?_, inChannel := fun s' e' he' => ?_ } <;>
      by_cases hs : s' = s
    · subst hs
      have := h.stream s'
      rw [hitems] at this
      simpa using this
    · simpa [Function.update_of_ne hs] using h.stream s'
    · subst hs
      simp only [Function.update_self] at he'
      exact h.inChannel s' e' (hitems ▸ List.mem_cons_of_mem e he')
    · simp only [Function.update_of_ne hs] at he'
      exact h.inChannel s' e' he'
  · cases hr

/-- Every step keeps the law of the streams. -/
theorem step (h : RoutingInv d u r) (hmaps : u.MapsAgree d) {a : RoutingStep τ}
    (hok : r.ForSpawned d a) (hr : r.step a = some r') : RoutingInv d u r' := by
  cases a with
  | batch buffer => exact h.batch hmaps hok hr
  | route => exact h.route hmaps hr
  | recv s => exact h.recv hr
  | server s x =>
    have hserver : (∀ e, x ≠ .recv e) → ((r.server s).step x).map
        (fun t => { r with server := Function.update r.server s t }) = some r' →
        RoutingInv d u r' := by
      intro hx hr
      obtain ⟨t, ht, rfl⟩ := Option.map_eq_some_iff.mp hr
      exact h.setServer (Server.move_of_step (h.server s) ht) fun e he => absurd he (hx e)
    cases x with
    | recv e => cases hr
    | _ => exact hserver (by simp) hr

end RoutingInv

/-- When the set-up loop has finished, the four maps agree and know every worker. From then on,
for all batches of events of spawned workers, the index into `worker_to_server` never fails, the
stream of each server is the restriction of the concatenated batches to its own workers (received,
in the channel, or still to be routed, in this order), and no server meets an unmanaged worker. -/
theorem Routing.events_routed_to_owner {τ : Type} (d : Demo) {u : Setup} {l : List SetupStep}
    (hsetup : Run (Guarded (Setup.step d) fun _ _ => True) (.new d) l u)
    (hfinished : u.main = .finished) :
    u.MapsAgree d ∧ ∀ (r r' : Routing τ) (l' : List (RoutingStep τ)), r.Initial d u →
      Run (Guarded Routing.step (Routing.ForSpawned d)) r l' r' →
        r'.panicked = false ∧
        (∀ s, r'.received s ++ (r'.channel s).items ++ Routing.own u s r'.events =
          Routing.own u s r'.batches.flatten) ∧
        ∀ s w, Diagnostic.unmanaged w ∉ (r'.server s).log := by
  have hmaps := (SetupInv.run hsetup).mapsAgree hfinished
  refine ⟨hmaps, fun r r' l' h₀ h => ?_⟩
  have hI : RoutingInv d u r' :=
    h.invariant (.initial h₀) fun _ _ _ hI ⟨hok, hstep⟩ => hI.step hmaps hok hstep
  exact ⟨hI.panicked, hI.stream, hI.log⟩

/-- Two servers with one worker each. -/
def twoServersDemo : Demo where
  server_count := 2
  worker_count := 1
  id s _ := if s = 0 then 32 else 64
  id_inj s j s' j' hs hj hs' hj' h := by
    refine ⟨?_, by omega⟩
    split_ifs at h
    · omega
    · cases h
    · cases h
    · omega

/-- The workers are slow: the main thread is past the spawn before the worker registers. -/
def twoServersSetup : List SetupStep :=
  [.main fun _ => true, .main fun _ => true, .worker 0 0, .worker 0 0, .worker 0 0,
    .main fun _ => true, .main fun _ => true, .main fun _ => false, .main fun _ => true,
    .main fun _ => true, .main fun _ => true, .worker 1 0, .worker 1 0, .worker 1 0,
    .main fun _ => true, .main fun _ => true, .main fun _ => true]

/-- The maps after this set-up. -/
def twoServersMaps : Setup :=
  (trace (Setup.step twoServersDemo) (fun _ _ => True) (.new twoServersDemo)
    twoServersSetup).getD (.new twoServersDemo)

/-- The routing server and the two servers as the set-up leaves them. -/
def twoServersRouting : Routing ℕ where
  worker_to_server := twoServersMaps.worker_to_server
  server_senders := 2
  events := []
  channel _ := .empty 4
  server s := { Server.twoWorkers with
    channels :=
      match s with
      | 0 => [32]
      | 1 => [64]
      | _ => [] }
  panicked := false
  batches := []
  received _ := []

theorem twoServersRouting_initial : twoServersRouting.Initial twoServersDemo twoServersMaps where
  worker_to_server := rfl
  server_senders := rfl
  events := rfl
  channel _ := rfl
  server _ := trivial
  channels s w := by
    match s with
    | 0 =>
      change w ∈ [32] ↔ w ∈ insert 32 (∅ : Finset UInt64)
      simp
    | 1 =>
      change w ∈ [64] ↔ w ∈ insert 64 (∅ : Finset UInt64)
      simp
    | s + 2 =>
      change w ∈ [] ↔ w ∈ (∅ : Finset UInt64)
      simp
  log _ := rfl
  panicked := rfl
  batches := rfl
  received _ := rfl

/-- One batch for both servers, cut at its first zero. -/
def oneBatch : List (RoutingStep ℕ) :=
  [.batch [eventWord 32 .wake, eventWord 64 .wake, 0, 7], .route, .route, .recv 1, .recv 0]

theorem events_routed_to_owner_twoServers :
    Run (Guarded (Setup.step twoServersDemo) fun _ _ => True) (.new twoServersDemo)
      twoServersSetup twoServersMaps ∧ twoServersMaps.worker_to_server 64 = some 1 ∧
    ∃ r, Run (Guarded Routing.step (Routing.ForSpawned twoServersDemo)) twoServersRouting
        oneBatch r ∧
      r.received 0 = [eventWord 32 .wake] ∧ r.received 1 = [eventWord 64 .wake] ∧
      r.panicked = false := by
  have hsetup : Run (Guarded (Setup.step twoServersDemo) fun _ _ => True) (.new twoServersDemo)
    twoServersSetup twoServersMaps := run_of_trace rfl
  have hrun : Run (Guarded Routing.step (Routing.ForSpawned twoServersDemo)) twoServersRouting
    oneBatch _ := run_trace (by decide +kernel)
  refine ⟨hsetup, rfl, _, hrun, by decide +kernel, by decide +kernel, ?_⟩
  exact ((Routing.events_routed_to_owner twoServersDemo hsetup rfl).2 _ _ oneBatch
    twoServersRouting_initial hrun).1

end Umcg.Attempt2
