import Umcg.Attempt2.Views

/-!
# The program refines the machine of each server

`Machine` is what the properties of a server are proved about: one server, its workers, and a kernel
that runs the worker a server has switched to and answers with exactly one event. Here this kernel
is not assumed. Each step of the program, with the kernel module under it and any number of servers
beside each other, is for each server one step of its own machine or nothing, and keeps the
invariant `Consistent`.

## Main results

* `Host.Refines` : what a step of the program is for the servers.
* `Host.refines_step` : every step of the program is like that.
-/

namespace Umcg

/-- A worker that calls `Wait` stops. -/
theorem Klib.Kernel.step_workerWait [Blockq] {k k' : Kernel} {t : Int32} {w : Worker}
    {now : ℕ} {memory : Bool} (ht : k.worker t = some w)
    (hk : k.step (.ctl t .workerWait now memory) = some k') : w.status.onCpu = true ∧
      ∃ tmr, k' = k.stop t w .wait (some { w with
        status := .waiting, tmr := tmr, sysret := some (.value 0) }) := by
  simp only [step] at hk
  split_ifs at hk with hx
  refine ⟨(executing_of_executes hx.1).onCpu w ht, w.tmr, ?_⟩
  cases hk
  simp [ctl, wait, Args.workerWait, ht]
  rfl

namespace Attempt2

open Klib

variable {τ : Type} {th : Threads}

namespace Host

variable {h h' : Host τ} {k' : Kernel} {i j : ℕ} {t : Int32} {w : Worker}

/-- One step of the program keeps the invariant, and it is one step or nothing for each server. -/
structure Refines (th : Threads) (h h' : Host τ) : Prop where
  consistent : Consistent th h'.kernel h'.routing
  server_senders : h'.routing.server_senders = h.routing.server_senders
  simulates : Simulates th h h'

/-- A step after something that no server sees. -/
theorem Refines.of_same {h₁ : Host τ} (hr : Refines th h₁ h')
    (hn : h₁.routing.server_senders = h.routing.server_senders)
    (hs : ∀ i < h.routing.server_senders, h₁.machine th i = h.machine th i) : Refines th h h' where
  consistent := hr.consistent
  server_senders := hr.server_senders.trans hn
  simulates i hi := by
    rw [← hs i hi]
    exact hr.simulates i (hn ▸ hi)

/-- The view of a server whose thread goes on. -/
theorem machine_setServer (hans : h.kernel.answer (th.server i) = none) (s : Server τ) :
    (h.setServer i s).machine th i = (h.machine th i).setServer s := by
  refine Machine.eq_of_fields ?_ (fun _ => rfl) (fun _ => rfl) rfl
  simp [machine, thread, setServer, setRouting, hans, Machine.setServer]

section Consistent

variable (hc : Consistent th h.kernel h.routing)

include hc

/-! ### The threads of the servers -/

/-- A server whose thread goes on without the answer of a context switch is awake and has none. -/
theorem awake_of_move (hi : i < h.routing.server_senders) {x : Input τ} {s : Server τ}
    (hm : Server.Move (h.routing.server i) x s) (hx : ∀ a, x ≠ .switched a) :
    h.kernel.action (th.server i) = none ∧ h.kernel.answer (th.server i) = none :=
  ⟨hc.action_of_switching_eq_none hi (hm.switching_eq_none hx),
    hc.answer_of_switching_eq_none hi (hm.switching_eq_none hx)⟩

/-- The thread of the server `i` goes on, and at most the threads of its own workers with it. -/
theorem refines_server (hi : i < h.routing.server_senders) {x : Input τ} {s : Server τ}
    (hs : (h.routing.server i).step x = some s) (hx : ∀ a, x ≠ .switched a)
    (hk : h'.kernel = h.kernel)
    (hr : h'.routing = { h.routing with server := Function.update h.routing.server i s })
    (hw : ∀ j v, j ≠ i → h.owns j v = true → h'.worker (workerTid v) = h.worker (workerTid v))
    (hy : ∃ y, (h.machine th i).step y = some (h'.machine th i)) : Refines th h h' := by
  have hm := Server.move_of_step (hc.serving i) hs
  obtain ⟨ha, hans⟩ := awake_of_move hc hi hm hx
  refine ⟨?_, by rw [hr], .of_one hy fun j hj hji => ?_⟩
  · rw [hk, hr]
    exact hc.setServer hi hm ha hans
  · refine machine_congr ?_ (by rw [hr]) (hw j · hji) (fun _ _ => by rw [hk]) ?_
    · simp only [thread, hk, hr, Function.update_of_ne hji]
    · exact inbox_congr (by rw [hr]) (by rw [hr]) (by rw [hk, hr])

/-- The server goes on by itself, or `remove_task()` returns. -/
theorem refines_setServer (hi : i < h.routing.server_senders) {x : Input τ} {s : Server τ}
    (hx : x = .schedule ∨ x = .tau ∨ ∃ o, x = .removed o)
    (hs : (h.routing.server i).step x = some s) : Refines th h (h.setServer i s) := by
  have hsw : ∀ a, x ≠ .switched a := by rcases hx with rfl | rfl | ⟨o, rfl⟩ <;> simp
  obtain ⟨-, hans⟩ := awake_of_move hc hi (Server.move_of_step (hc.serving i) hs) hsw
  refine refines_server hc hi hs hsw rfl rfl (fun _ _ _ _ => rfl) ⟨.server x, ?_⟩
  have hm : (h.machine th i).server.step x = some s := by
    rw [← hs]
    exact congrArg (Server.step · x) (thread_of_none hans)
  rw [machine_setServer hans]
  rcases hx with rfl | rfl | ⟨o, rfl⟩ <;> simp [Machine.step, hm]

/-- The threads of two workers are different. -/
theorem workerTid_inj {u v : UInt64} (hu : h.owns i u = true) (hv : h.owns j v = true)
    (htid : workerTid u = workerTid v) : u = v := by
  rw [← (hc.layout.owner u i (owner_of_owns hu)).2, htid,
    (hc.layout.owner v j (owner_of_owns hv)).2]

/-- The view of a server after something has happened to the thread of its worker. -/
theorem machine_setWorker {v : UInt64} (hv : h.owns i v = true) (k : WorkerThread τ) :
    (h.setWorker (workerTid v) k).machine th i = (h.machine th i).setWorker v k := by
  refine Machine.eq_of_fields rfl (fun u => ?_) (fun _ => rfl) rfl
  change (if h.owns i u then Function.update h.worker (workerTid v) k (workerTid u) else _) =
    Function.update (h.machine th i).worker v k u
  by_cases huv : u = v
  · subst huv
    simp [hv]
  · rw [Function.update_of_ne huv]
    change _ = if h.owns i u then h.worker (workerTid u) else _
    split_ifs with hu
    · exact Function.update_of_ne (fun htid => huv (workerTid_inj hc hu hv htid)) _ _
    · rfl

/-- The other servers see nothing of it. -/
theorem worker_setWorker_of_ne {u v : UInt64} (hv : h.owns i v = true) (k : WorkerThread τ)
    (hji : j ≠ i) (hu : h.owns j u = true) :
    (h.setWorker (workerTid v) k).worker (workerTid u) = h.worker (workerTid u) := by
  refine Function.update_of_ne (fun htid => hji ?_) _ _
  obtain rfl := workerTid_inj hc hu hv htid
  exact Option.some.inj ((owner_of_owns hu).symm.trans (owner_of_owns hv))

/-- The server that sends a task is awake, and the task is for one of its own workers. -/
theorem send_to_own (hi : i < h.routing.server_senders) {v : UInt64} {task : τ}
    (hctl : (h.routing.server i).control = .sendTask v task) :
    h.owns i v = true ∧ h.kernel.answer (th.server i) = none ∧
      (h.machine th i).server = h.routing.server i ∧
      (h.machine th i).worker v = h.worker (workerTid v) := by
  have hkey : v ∈ (h.routing.server i).states.keys := by simpa [Server.Keyed, hctl] using hc.keyed i
  have hans := hc.answer_of_switching_eq_none hi (by simp [hctl, Control.switching])
  have hown := (hc.layout.keys i hi v).mp hkey
  exact ⟨by simp [owns, hown], hans, thread_of_none hans, by simp [machine, owns, hown]⟩

theorem refines_sent (hi : i < h.routing.server_senders) {v : UInt64} {task : τ}
    {k : WorkerThread τ} {s : Server τ} (hctl : (h.routing.server i).control = .sendTask v task)
    (hk : (h.worker (workerTid v)).send (.function task) = some k)
    (hs : (h.routing.server i).step (.sent true) = some s) :
    Refines th h ((h.setWorker (workerTid v) k).setServer i s) := by
  obtain ⟨hown, hans, hserver, hw⟩ := send_to_own hc hi hctl
  refine refines_server hc hi hs (by simp) rfl rfl
    (fun j u hji hu => worker_setWorker_of_ne hc hown k hji hu) ⟨.send, ?_⟩
  rw [machine_setServer (h := h.setWorker (workerTid v) k) hans, machine_setWorker hc hown]
  simp only [Machine.step, Machine.send, hserver, hctl, hw, hk]
  exact congrArg (Option.map _) hs

theorem refines_sendFailed (hi : i < h.routing.server_senders) {v : UInt64} {task : τ}
    {s : Server τ} (hctl : (h.routing.server i).control = .sendTask v task)
    (hk : (h.worker (workerTid v)).send (.function task) = none)
    (hs : (h.routing.server i).step (.sent false) = some s) :
    Refines th h (h.setServer i s) := by
  obtain ⟨hown, hans, hserver, hw⟩ := send_to_own hc hi hctl
  refine refines_server hc hi hs (by simp) rfl rfl (fun _ _ _ _ => rfl) ⟨.send, ?_⟩
  rw [machine_setServer hans]
  simp only [Machine.step, Machine.send, hserver, hctl, hw, hk]
  exact congrArg (Option.map _) hs

/-- The server receives the oldest event of its channel. -/
theorem refines_recv (hi : i < h.routing.server_senders) {e : UInt64} {q : BoundedQueue UInt64}
    {s : Server τ} (hq : (h.routing.channel i).pop = some (e, q))
    (hs : (h.routing.server i).step (.recv e) = some s) (received : ℕ → List UInt64) :
    Refines th h (h.setRouting { h.routing with
      channel := Function.update h.routing.channel i q
      server := Function.update h.routing.server i s
      received := received }) := by
  have hm := Server.move_of_step (hc.serving i) hs
  obtain ⟨ha, hans⟩ := awake_of_move hc hi hm (by simp)
  have hset := hc.setServer hi hm ha hans
  refine ⟨{ hset with layout := { hset.layout with } }, rfl, .of_one (i := i) ⟨.recv e, ?_⟩
    fun j hj hji => ?_⟩
  · have hinbox : (h.machine th i).inbox = e :: (q.items ++ (h.routing.events ++
        inKernel th h.kernel).filter fun e => h.owns i (workerId e)) := by
      simp [machine, (BoundedQueue.pop_eq_some_iff.mp hq).1]
    have hserver : (h.machine th i).server = h.routing.server i := thread_of_none hans
    simp only [Machine.step, hinbox, List.mem_cons_self, if_true, hserver, hs, Option.map_some,
      List.erase_cons_head, Option.some.injEq]
    refine Machine.eq_of_fields ?_ (fun _ => rfl) (fun _ => rfl) ?_
    · simp [machine, thread, setRouting, hans, Machine.setServer]
    · change _ = (Function.update h.routing.channel i q i).items ++ _
      rw [Function.update_self]
      rfl
  · refine machine_congr ?_ rfl (fun _ _ => rfl) (fun _ _ => rfl) (inbox_congr rfl ?_ rfl)
    · simp [thread, setRouting, Function.update_of_ne hji]
    · simp [setRouting, Function.update_of_ne hji]

/-- The context switch of a server returns: its thread goes to where its server is already
seen. -/
theorem thread_switched (hi : i < h.routing.server_senders) {a : Answer} {s : Server τ}
    (hans : h.kernel.answer (th.server i) = some a)
    (hs : (h.routing.server i).step (.switched a.switchAnswer) = some s)
    (hj : j < h.routing.server_senders) :
    ((h.setResumed (th.server i)).setServer i s).thread th j = h.thread th j := by
  by_cases hji : j = i
  · subst hji
    rw [thread_of_some hans hs]
    simp [thread, setServer, setRouting, setResumed, setKernel]
  · have hne : th.server j ≠ th.server i := fun heq => hji (hc.layout.injective j hj i hi heq)
    simp only [thread, setServer, setRouting, setResumed, setKernel, Function.update_of_ne hne,
      Function.update_of_ne hji]

theorem refines_switched (hi : i < h.routing.server_senders) {a : Answer} {s : Server τ}
    (hans : h.kernel.answer (th.server i) = some a) (ht : h.kernel.Executing (th.server i))
    (hs : (h.routing.server i).step (.switched a.switchAnswer) = some s) :
    Refines th h ((h.setResumed (th.server i)).setServer i s) := by
  refine ⟨(hc.resume (th.server i)).setServer hi (Server.move_of_step (hc.serving i) hs) ht.action
    (Function.update_self ..), rfl, fun j hj => .inl ?_⟩
  refine machine_congr (thread_switched hc hi hans hs hj) rfl (fun _ _ => rfl) (fun _ _ => rfl)
    (inbox_congr rfl rfl ?_)
  simp only [setServer, setRouting, setResumed, setKernel, inKernel,
    Function.update_of_ne (hc.layout.router i hi).symm]
  rfl

/-! ### Context switches -/

/-- A call of `CtxSwitch` by a server is refused, or runs the worker that its thread wants to
run. -/
theorem switch_cases [Blockq] [Blockq.AtOnce] (hi : i < h.routing.server_senders) {v : UInt64}
    {site : Site} (hctl : (h.routing.server i).control = .ctxSwitch v site) {now : ℕ}
    {memory : Bool}
    (hk : h.kernel.step (.ctl (th.server i) (.ctxSwitch (workerTid v)) now memory) = some k') :
    (h.routing.server i).control.switching = some v ∧ h.kernel.action (th.server i) = none ∧
      h.kernel.answer (th.server i) = none ∧
      ((∃ e, k' = h.kernel.ret (th.server i) (.error e) []) ∨
        ∃ w, h.kernel.worker (workerTid v) = some w ∧
          (w.status = .runnable ∨ w.status = .waiting) ∧ w.id = v ∧
          h.routing.worker_to_server v = some i ∧
          k' = h.kernel.switchTo (th.server i) (workerTid v) w now 2 2) := by
  have hkey : v ∈ (h.routing.server i).states.keys := by simpa [Server.Keyed, hctl] using hc.keyed i
  have hown := (hc.layout.keys i hi v).mp hkey
  have hsw : (h.routing.server i).control.switching = some v := by simp [hctl, Control.switching]
  cases Kernel.move_of_step hk with
  | ctl ht hans hk =>
    refine ⟨hsw, ht.action, hans, ?_⟩
    cases hk with
    | refused e => exact .inl ⟨e, rfl⟩
    | @switched w hcmd hs hw hst hsz =>
      exact .inr ⟨w, hw, hst, (hc.owned _ w hw).1.trans (hc.layout.owner v i hown).2, hown, rfl⟩
    | waited _ ht' | handedOver _ ht' => simp [hc.server i hi] at ht'
    | accepted hcmd => rcases hcmd with hcmd | hcmd <;> cases hcmd
    | fetched hcmd | flagged hcmd | slept hcmd | waitedFor _ hcmd | registered hcmd
    | unregistered hcmd | woke hcmd | wokeNone hcmd => cases hcmd

/-- The server calls `CtxSwitch`. -/
theorem refines_switch [Blockq] [Blockq.AtOnce] (hi : i < h.routing.server_senders) {v : UInt64}
    {site : Site} (hctl : (h.routing.server i).control = .ctxSwitch v site) {now : ℕ}
    {memory : Bool}
    (hk : h.kernel.step (.ctl (th.server i) (.ctxSwitch (workerTid v)) now memory) = some k') :
    Refines th h (h.setKernel k') := by
  obtain ⟨hsw, ha, hans, ⟨e, rfl⟩ | ⟨w, hw, hst, rfl, hown, rfl⟩⟩ := switch_cases hc hi hctl hk
  · exact ⟨(hc.refuse hi hsw ha e).1, rfl, simulates_refuse hc hi hsw ha hans e⟩
  · exact ⟨(hc.switchTo hown hsw ha hans hw hst now).1, rfl,
      simulates_switchTo hc hw hown hsw ha hans hst now⟩

/-! ### The routing server -/

/-- A call of the kernel module that no server sees. -/
theorem refines_silent [Blockq] [Blockq.AtOnce] {c : Kernel.Call} (hk : h.kernel.step c = some k')
    (hp : h.kernel.Proper c) (hs : Silent th h.kernel k') : Refines th h (h.setKernel k') where
  consistent := hc.silent hs (hc.kernel.step hp hk) (hc.quiet.step hc.kernel hp hk)
  server_senders := rfl
  simulates _ hi := .inl (machine_silent hc.layout hi hs)

theorem refines_routerWait [Blockq] [Blockq.AtOnce] {abs_timeout : UInt64} {now : ℕ} {memory : Bool}
    (hk : h.kernel.step (.ctl th.router (.serverWait abs_timeout 10 10) now memory) = some k') :
    Refines th h (h.setKernel k') := by
  cases Kernel.move_of_step hk with
  | ctl ht hans hm =>
    have hp : h.kernel.Proper (.ctl th.router (.serverWait abs_timeout 10 10) now memory) :=
      fun _ hnext => absurd rfl hnext
    exact refines_silent hc hk hp (Silent.routerWait hc.kernel hans hc.router hm)

omit hc in
/-- The batch of the routing server moves on, and stays in its order. -/
theorem order_batch {a : Answer} (hans : h.kernel.answer th.router = some a)
    {events : List UInt64} (hevents : h.routing.events ++ a.batch = events) :
    events ++ inKernel th (h.setResumed th.router).kernel =
      h.routing.events ++ inKernel th h.kernel := by
  simp [inKernel, setResumed, setKernel, hans, ← hevents]
  rfl

/-- The `Wait` of the routing server returns. -/
theorem refines_batch {a : Answer} (hans : h.kernel.answer th.router = some a)
    {events : List UInt64} (hevents : h.routing.events ++ a.batch = events)
    (batches : List (List UInt64)) : Refines th h ((h.setResumed th.router).setRouting
      { h.routing with events := events, batches := batches }) := by
  have horder := order_batch hans hevents
  refine ⟨{ hc.resume th.router with layout := { hc.layout with }, known := ?_ }, rfl,
    fun j hj => .inl ?_⟩
  · have hknown := hc.known
    rw [← horder] at hknown
    exact hknown
  · refine machine_congr ?_ rfl (fun _ _ => rfl) (fun _ _ => rfl) (inbox_congr rfl rfl horder)
    simp only [thread, setRouting, setResumed, setKernel,
      Function.update_of_ne (hc.layout.router j hj)]

/-- The routing server finds the owner of every event, and sends the event to it. -/
theorem route_cases {r : Routing τ} (hr : h.routing.route = some r) :
    ∃ e rest i q, h.routing.events = e :: rest ∧ h.routing.worker_to_server (workerId e) = some i ∧
      i < h.routing.server_senders ∧ (h.routing.channel i).push e = some q ∧
      r = { h.routing with channel := Function.update h.routing.channel i q, events := rest } := by
  unfold Routing.route at hr
  split at hr
  · cases hr
  rename_i e rest he
  obtain ⟨i, hi⟩ := hc.known e (List.mem_append_left _ (he ▸ List.mem_cons_self))
  have hin := (hc.layout.owner _ _ hi).1
  simp only [hi, hin, if_true] at hr
  split at hr
  · cases hr
    exact ⟨e, rest, i, _, he, hi, hin, ‹_›, rfl⟩
  · cases hr

/-- An event that is routed stays on its way to its server. -/
theorem inbox_route {r : Routing τ} (hr : h.routing.route = some r) (j : ℕ) :
    ((h.setRouting r).machine th j).inbox = (h.machine th j).inbox := by
  obtain ⟨e, rest, i, q, he, hi, hin, hq, rfl⟩ := route_cases hc hr
  have hitems := (BoundedQueue.push_eq_some_iff.mp hq).2.2
  change (Function.update h.routing.channel i q j).items ++ (rest ++ _).filter _ =
    (h.routing.channel j).items ++ (h.routing.events ++ _).filter _
  rw [he, List.cons_append, List.filter_cons]
  by_cases hji : j = i
  · subst hji
    have hown : h.owns j (workerId e) = true := by simp [owns, hi]
    rw [Function.update_self, hitems, if_pos hown, List.append_assoc]
    rfl
  · have hown : ¬ h.owns j (workerId e) = true := by simp [owns, hi, Ne.symm hji]
    rw [Function.update_of_ne hji, if_neg hown]
    rfl

theorem refines_route {r : Routing τ} (hr : h.routing.route = some r) :
    Refines th h (h.setRouting r) := by
  have hinbox := inbox_route hc hr
  obtain ⟨e, rest, i, q, he, hi, hin, hq, rfl⟩ := route_cases hc hr
  refine ⟨{ hc with layout := { hc.layout with }, known := fun e' he' => hc.known e' ?_ }, rfl,
    fun j hj => .inl (machine_congr rfl rfl (fun _ _ => rfl) (fun _ _ => rfl) (hinbox j))⟩
  rw [he]
  exact List.mem_cons_of_mem _ he'


/-- A worker that executes, and the server that owns it. -/
theorem machine_setWorker_of_record (ht : h.kernel.worker t = some w)
    (hi : h.routing.worker_to_server w.id = some i) (u : WorkerThread τ) :
    (h.setWorker t u).machine th i = (h.machine th i).setWorker w.id u := by
  have hown : h.owns i w.id = true := by simp [owns, hi]
  rw [← machine_setWorker hc hown,
    (hc.layout.workerTid_eq_iff hi t).mpr (hc.owned t w ht).1]

/-- A worker thread that executes goes on. -/
theorem refines_worker (ht : h.kernel.worker t = some w) (hw : w.status.onCpu = true)
    {x : WorkerInput} (hx : x = .poll true ∨ x = .returned ∨ ∃ ret, x = .waited ret)
    {u : WorkerThread τ} (hu : (h.worker t).step .attempt2 x = some u) :
    Refines th h (h.setWorker t u) := by
  obtain ⟨-, i, hi⟩ := hc.owned t w ht
  refine ⟨hc, rfl, .of_one (i := i) ⟨.worker w.id x, ?_⟩ fun j hj hji => ?_⟩
  · have hrun : (h.machine th i).park w.id = .running := by
      rw [(machine_worker hc ht hi).2]
      cases hst : w.status <;> simp_all [Status.onCpu, Status.park]
    rw [machine_setWorker_of_record hc ht hi]
    rcases hx with rfl | rfl | ⟨ret, rfl⟩ <;>
      simp [Machine.step, Machine.workerStep, hrun, (machine_worker hc ht hi).1, hu]
  · exact machine_other hc ht hi hji rfl (fun y hy => Function.update_of_ne hy _ _) (fun _ _ => rfl)
      rfl rfl

/-- A worker thread goes on after its `Wait`. -/
theorem refines_workerWaited (ht : h.kernel.worker t = some w) (hw : w.status.onCpu = true)
    {ret : Int} {u : WorkerThread τ} (hu : (h.worker t).step .attempt2 (.waited ret) = some u) :
    Refines th h ((h.setResumed t).setWorker t u) := by
  have hr := refines_worker (h := h.setResumed t) (hc.resume t) ht hw (.inr (.inr ⟨_, rfl⟩)) hu
  refine hr.of_same rfl fun i hi => machine_setKernel
    (Function.update_of_ne (hc.ne_server ht hi) _ _) (fun _ _ => rfl) ?_
  simp only [inKernel, Function.update_of_ne (hc.ne_router ht)]
  rfl

/-- A worker thread calls `Wait`. -/
theorem refines_workerWait [Blockq] [Blockq.AtOnce] {now : ℕ} {memory : Bool}
    (ht : h.kernel.worker t = some w) {u : WorkerThread τ}
    (hu : (h.worker t).step .attempt2 .wait = some u)
    (hk : h.kernel.step (.ctl t .workerWait now memory) = some k') :
    Refines th h ((h.setWorker t u).setKernel k') := by
  obtain ⟨hw, tmr, rfl⟩ := Kernel.step_workerWait ht hk
  obtain ⟨-, i, hi⟩ := hc.owned t w ht
  exact ⟨(hc.stop ht hw hi (.wait tmr)).1, rfl, simulates_wait hc ht hw hu (.wait tmr) rfl⟩

/-! ### The kernel -/

/-- The system call of a blocked worker is over: the worker is posted, and the routing server may be
woken. -/
theorem woken_cases [Blockq] [Blockq.AtOnce] (ht : h.kernel.worker t = some w)
    (hst : w.status = .blocked) (now : ℕ) :
    h.kernel.CanPost t { w with status := .idle false, event := .wake } ∧
      Silent th (h.kernel.post t { w with status := .idle false, event := .wake })
        (h.kernel.workerEventIdle t { w with status := .idle false } .wake) ∧
      h.kernel.workerScheduleReturn t now =
        h.kernel.workerEventIdle t { w with status := .idle false } .wake := by
  obtain ⟨k, hinv, hp, hcase, hk⟩ := hc.kernel.woken_eq ht hst now
  obtain rfl : k = h.kernel := by
    rcases hcase with rfl | ⟨s, hs, -⟩
    · rfl
    · rcases hc.asleep s _ hs with ⟨_, _, _, _, _, ha⟩ | ⟨_, _, ha⟩ <;> cases ha
  have hpost := (hc.post ht hp).1
  refine ⟨hp, Silent.wakeServer hpost.kernel hpost.quiet fun s ts room sz ha => ?_, hk⟩
  rcases hpost.asleep s _ ha with ⟨_, _, _, _, _, ha⟩ | ⟨hs, _, ha⟩ <;> cases ha
  exact ⟨hs, rfl, rfl⟩

theorem refines_woken [Blockq] [Blockq.AtOnce] (ht : h.kernel.worker t = some w)
    (hst : w.status = .blocked) (now : ℕ) :
    Refines th h (h.setKernel (h.kernel.workerScheduleReturn t now)) := by
  obtain ⟨hp, hwake, hk⟩ := woken_cases hc ht hst now
  have hpost := (hc.post ht hp).1
  rw [hk]
  refine ⟨hpost.silent hwake (hc.kernel.workerEventIdle hp) hpost.quiet.wakeServer, rfl,
    fun i hi => ?_⟩
  have hsame := machine_silent (h := h.setKernel (h.kernel.post t
    { w with status := .idle false, event := .wake })) hc.layout hi hwake
  rcases simulates_post hc ht hst hp i hi with hm | ⟨y, hm⟩
  · exact .inl (hsame.trans hm)
  · exact .inr ⟨y, hm.trans (congrArg some hsame.symm)⟩

/-- The kernel interrupts no server inside of a context switch. -/
theorem proper_callback [Blockq] [Blockq.AtOnce] {c : Kernel.Call} (hcall : isCallback th c = true)
    (hk : h.kernel.step c = some k') : h.kernel.Proper c := by
  cases Kernel.move_of_step hk with
  | @nullified s a hs =>
    obtain rfl : s = th.router := by simpa [isCallback] using hcall
    rcases hc.asleep _ a hs with ⟨j, hj, heq, -⟩ | ⟨-, ts, rfl⟩
    · exact absurd heq.symm (hc.layout.router j hj)
    · simp [Kernel.Proper, hs, Action.isWait]
  | ctl | resumed | expired | spawned | exited => cases hcall
  | _ => trivial

/-- The kernel calls back. -/
theorem refines_callback [Blockq] [Blockq.AtOnce] {c : Kernel.Call} (hcall : isCallback th c = true)
    (hk : h.kernel.step c = some k') : Refines th h (h.setKernel k') := by
  cases Kernel.move_of_step hk with
  | @paused t w ht hw =>
    have hcpu : w.status.onCpu = true := by simp [hw, Status.onCpu]
    exact refines_silent hc hk trivial (.set hc.kernel ht rfl rfl hcpu rfl rfl)
  | returned ht hw => exact refines_silent hc hk trivial (.set hc.kernel ht rfl rfl hw rfl rfl)
  | @blocked t w ht hw =>
    have hcpu : w.status.onCpu = true := by simp [hw, Status.onCpu]
    obtain ⟨-, i, hi⟩ := hc.owned t w ht
    exact ⟨(hc.stop ht hcpu hi .block).1, rfl, simulates_stop hc ht hcpu .block .block rfl⟩
  | @preempted t _ w ht hw =>
    obtain ⟨-, i, hi⟩ := hc.owned t w ht
    exact ⟨(hc.stop ht hw hi .preempt).1, rfl, simulates_stop hc ht hw .preempt .preempt rfl⟩
  | woken ht hw => exact refines_woken hc ht hw _
  | timedOut hs =>
    obtain rfl : _ = th.router := by simpa [isCallback] using hcall
    exact refines_silent hc hk trivial (.finish hc.quiet (by simp [hs]) _)
  | @nullified s a hs =>
    have hp := proper_callback hc hcall hk
    obtain rfl : s = th.router := by simpa [isCallback] using hcall
    exact refines_silent hc hk hp (.finish hc.quiet (by simp [hs]) _)
  | ctl | resumed | expired | spawned | exited => cases hcall

/-- Every step of the program keeps the invariant, and it is one step or nothing for each server. -/
theorem refines_step [Blockq] [Blockq.AtOnce] {x : HostStep τ} (hstep : step th h x = some h') :
    Refines th h h' := by
  cases move_of_step hstep with
  | submit task => exact ⟨hc, rfl, fun _ _ => .inl rfl⟩
  | server hi hx hs => exact refines_setServer hc hi (hx.imp_right .inl) hs
  | noTask hi _ hs => exact refines_setServer hc hi (.inr (.inr ⟨_, rfl⟩)) hs
  | @removed i _ q s hi _ hs =>
    have hr := refines_setServer (h := { h with tasks := q }) hc hi (.inr (.inr ⟨_, rfl⟩)) hs
    exact hr.of_same rfl fun _ _ => rfl
  | sent hi hctl hk hs => exact refines_sent hc hi hctl hk hs
  | sendFailed hi hctl hk hs => exact refines_sendFailed hc hi hctl hk hs
  | recv hi hq hs => exact refines_recv hc hi hq hs _
  | switch hi hctl hk => exact refines_switch hc hi hctl hk
  | switched hi hans ht hs => exact refines_switched hc hi hans ht hs
  | routerWait _ hk => exact refines_routerWait hc hk
  | batch hans hbatch hevents => exact refines_batch hc hans (by rw [hevents, hbatch]; rfl) _
  | noBatch hans hbatch =>
    exact refines_batch hc hans (by rw [hbatch, List.append_nil]) h.routing.batches
  | route hr => exact refines_route hc hr
  | worker ht hw hx hk =>
    exact refines_worker hc ht (by simp [hw, Status.onCpu]) (hx.imp_right .inl) hk
  | workerWait ht hk hk' => exact refines_workerWait hc ht hk hk'
  | workerWaited ht _ hw hk => exact refines_workerWaited hc ht hw hk
  | callback hcall hk => exact refines_callback hc hcall hk

end Consistent

end Host

end Attempt2

end Umcg
