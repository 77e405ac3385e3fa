import Umcg.Attempt2.Consistent
import Umcg.Attempt2.Idle
import Umcg.WorkerIds

/-!
# What the servers see of the kernel's steps

Each server has its own view of the program (`Host.machine`). A step concerns the view of the server
that owns the worker or makes the call, and there it is one step of the machine; the others see
nothing of it (`Host.Simulates`). The lemmas here are about the steps of the kernel that end or
begin a context switch, and about the event of a worker whose system call is over.
-/

namespace Umcg.Attempt2

open Klib

variable {τ : Type} {th : Threads}

theorem Machine.eq_of_fields {m m' : Machine τ} (hs : m.server = m'.server)
    (hw : ∀ w, m.worker w = m'.worker w) (hp : ∀ w, m.park w = m'.park w)
    (hi : m.inbox = m'.inbox) : m = m' := by
  obtain ⟨s, w, p, l⟩ := m
  obtain ⟨s', w', p', l'⟩ := m'
  obtain rfl : s = s' := hs
  obtain rfl : w = w' := funext hw
  obtain rfl : p = p' := funext hp
  obtain rfl : l = l' := hi
  rfl

/-- A thread in a context switch takes any answer. -/
theorem Server.step_switched {s : Server τ} {w : UInt64} (hs : s.control.Serving)
    (hc : s.control.switching = some w) (a : SwitchAnswer) :
    ∃ t, s.step (.switched a) = some t := by
  cases h : s.control <;> simp_all [Control.switching, Control.Serving, Server.step]

/-- The worker of a thread. -/
theorem Layout.workerTid_eq_iff {r : Routing τ} (h : Layout th r) {w : UInt64} {i : ℕ}
    (hw : r.worker_to_server w = some i) (t : Int32) : workerTid w = t ↔ w = shiftedId t := by
  constructor
  · rintro rfl
    exact (h.owner w i hw).2.symm
  · rintro rfl
    exact workerTid_shiftedId t

namespace Host

variable {h g : Host τ} {k' : Kernel} {i j : ℕ} {t : Int32} {w : Worker}

theorem thread_of_none (hans : h.kernel.answer (th.server i) = none) :
    h.thread th i = h.routing.server i := by simp [thread, hans]

theorem thread_of_some {a : Answer} (hans : h.kernel.answer (th.server i) = some a) {s : Server τ}
    (hs : (h.routing.server i).step (.switched a.switchAnswer) = some s) : h.thread th i = s := by
  simp [thread, hans, hs]

theorem owns_congr (hr : g.routing.worker_to_server = h.routing.worker_to_server) (i : ℕ) :
    g.owns i = h.owns i := by
  funext w
  rw [owns, owns, hr]

theorem owner_of_owns {w : UInt64} (hw : h.owns i w = true) :
    h.routing.worker_to_server w = some i := by simpa [owns] using hw

/-- The events on their way to a server. -/
theorem inbox_congr (hr : g.routing.worker_to_server = h.routing.worker_to_server)
    (hchannel : (g.routing.channel i).items = (h.routing.channel i).items)
    (hevents : g.routing.events ++ inKernel th g.kernel =
      h.routing.events ++ inKernel th h.kernel) :
    (g.machine th i).inbox = (h.machine th i).inbox := by
  simp only [machine, hchannel, hevents, owns_congr hr]

/-- The view of a server depends on its own thread and on its own workers. -/
theorem machine_congr (hthread : g.thread th i = h.thread th i)
    (howns : g.routing.worker_to_server = h.routing.worker_to_server)
    (hworker : ∀ w, h.owns i w = true → g.worker (workerTid w) = h.worker (workerTid w))
    (hpark : ∀ w, h.owns i w = true → g.kernel.park (workerTid w) = h.kernel.park (workerTid w))
    (hinbox : (g.machine th i).inbox = (h.machine th i).inbox) :
    g.machine th i = h.machine th i := by
  refine Machine.eq_of_fields hthread (fun w => ?_) (fun w => ?_) hinbox <;>
    simp only [machine, owns_congr howns] <;> split_ifs with hw
  · exact hworker w hw
  · rfl
  · exact hpark w hw
  · rfl

/-- A step of the kernel that no server sees. -/
theorem machine_silent (hl : Layout th h.routing) (hi : i < h.routing.server_senders)
    (hk : Silent th h.kernel k') : (h.setKernel k').machine th i = h.machine th i := by
  refine machine_congr ?_ rfl (fun _ _ => rfl) (fun w _ => hk.park _) ?_
  · simp only [thread, setKernel, (hk.others _ (hl.router i hi)).2]
  · exact inbox_congr rfl rfl (by rw [setKernel, hk.events])

/-- One step of the program is, for each server, a step of its machine or nothing. -/
def Simulates (th : Threads) (h g : Host τ) : Prop :=
  ∀ i < h.routing.server_senders, g.machine th i = h.machine th i ∨
    ∃ y, (h.machine th i).step y = some (g.machine th i)

/-- The step concerns the server `i` alone. -/
theorem Simulates.of_one (hi : ∃ y, (h.machine th i).step y = some (g.machine th i))
    (hne : ∀ j < h.routing.server_senders, j ≠ i → g.machine th j = h.machine th j) :
    Simulates th h g := by
  intro j hj
  by_cases hji : j = i
  · subst hji
    exact .inr hi
  · exact .inl (hne j hj hji)

theorem inbox_setKernel (k : Kernel) : ((h.setKernel k).machine th i).inbox =
    (h.routing.channel i).items ++
      (h.routing.events ++ inKernel th k).filter fun e => h.owns i (workerId e) := rfl

/-- The view of a server whose answer and whose workers stay as they are. -/
theorem machine_setKernel (hans : k'.answer (th.server i) = h.kernel.answer (th.server i))
    (hpark : ∀ u, h.owns i u = true → k'.park (workerTid u) = h.kernel.park (workerTid u))
    (hin : inKernel th k' = inKernel th h.kernel) :
    (h.setKernel k').machine th i = h.machine th i := by
  refine machine_congr ?_ rfl (fun _ _ => rfl) hpark ?_
  · simp only [thread, setKernel, hans]
  · exact inbox_congr rfl rfl (by rw [setKernel, hin])

section Consistent

variable (hc : Consistent th h.kernel h.routing)

include hc

/-! ### A worker and its server -/

/-- The thread `t` and its worker, as the server that owns it sees them. -/
theorem machine_worker (ht : h.kernel.worker t = some w)
    (hi : h.routing.worker_to_server w.id = some i) :
    (h.machine th i).worker w.id = h.worker t ∧ (h.machine th i).park w.id = w.status.park := by
  have htid : workerTid w.id = t :=
    (hc.layout.workerTid_eq_iff hi t).mpr (hc.owned t w ht).1
  simp [machine, owns, hi, htid, Kernel.park_eq ht]

/-- The thread `t` is the thread of no other worker. -/
theorem workerTid_ne (ht : h.kernel.worker t = some w) {v : UInt64} (hv : h.owns j v = true)
    (hne : v ≠ w.id) : workerTid v ≠ t := fun htid =>
  hne (((hc.layout.workerTid_eq_iff (owner_of_owns hv) t).mp htid).trans (hc.owned t w ht).1.symm)

/-- The owner of the thread `t` sees what happens to it. -/
theorem worker_update (ht : h.kernel.worker t = some w)
    (hi : h.routing.worker_to_server w.id = some i)
    (hr : g.routing.worker_to_server = h.routing.worker_to_server) {x : WorkerThread τ}
    (hx : g.worker = Function.update h.worker t x) (u : UInt64) :
    (g.machine th i).worker u = Function.update (h.machine th i).worker w.id x u := by
  have htid : workerTid w.id = t := (hc.layout.workerTid_eq_iff hi t).mpr (hc.owned t w ht).1
  simp only [machine, owns_congr hr, hx]
  by_cases hu : u = w.id
  · subst hu
    simp [owns, hi, htid]
  · rw [Function.update_of_ne hu]
    split_ifs with hown
    · exact Function.update_of_ne (workerTid_ne hc ht hown hu) _ _
    · rfl

theorem park_update (ht : h.kernel.worker t = some w)
    (hi : h.routing.worker_to_server w.id = some i)
    (hr : g.routing.worker_to_server = h.routing.worker_to_server)
    (hk : ∀ x, x ≠ t → g.kernel.park x = h.kernel.park x) (u : UInt64) :
    (g.machine th i).park u =
      Function.update (h.machine th i).park w.id (g.kernel.park t) u := by
  have htid : workerTid w.id = t := (hc.layout.workerTid_eq_iff hi t).mpr (hc.owned t w ht).1
  simp only [machine, owns_congr hr]
  by_cases hu : u = w.id
  · subst hu
    simp [owns, hi, htid]
  · rw [Function.update_of_ne hu]
    split_ifs with hown
    · exact hk _ (workerTid_ne hc ht hown hu)
    · rfl

/-- The other servers see nothing of it. -/
theorem machine_other (ht : h.kernel.worker t = some w)
    (hi : h.routing.worker_to_server w.id = some i) (hji : j ≠ i)
    (hr : g.routing.worker_to_server = h.routing.worker_to_server)
    (hworker : ∀ x, x ≠ t → g.worker x = h.worker x)
    (hpark : ∀ x, x ≠ t → g.kernel.park x = h.kernel.park x)
    (hthread : g.thread th j = h.thread th j)
    (hinbox : (g.machine th j).inbox = (h.machine th j).inbox) :
    g.machine th j = h.machine th j := by
  have hne : ∀ v, h.owns j v = true → workerTid v ≠ t := by
    intro v hv
    refine workerTid_ne hc ht hv ?_
    rintro rfl
    exact hji (Option.some.inj ((owner_of_owns hv).symm.trans hi))
  exact machine_congr hthread hr (fun v hv => hworker _ (hne v hv)) (fun v hv => hpark _ (hne v hv))
    hinbox

/-- The thread of a server is where it is, or where the answer of its context switch takes it. -/
theorem thread_cases (hi : i < h.routing.server_senders) :
    h.kernel.answer (th.server i) = none ∧ h.thread th i = h.routing.server i ∨
      ∃ a, Server.Move (h.routing.server i) (.switched a) (h.thread th i) := by
  cases hans : h.kernel.answer (th.server i) with
  | none => exact .inl ⟨rfl, thread_of_none hans⟩
  | some a =>
    obtain ⟨x, hx, -⟩ := hc.answered i hi a hans
    obtain ⟨s, hs⟩ := Server.step_switched (hc.serving i) hx a.switchAnswer
    rw [thread_of_some hans hs]
    exact .inr ⟨_, Server.move_of_step (hc.serving i) hs⟩

theorem thread_keys (hi : i < h.routing.server_senders) :
    (h.thread th i).states.keys = (h.routing.server i).states.keys := by
  rcases thread_cases hc hi with ⟨-, hs⟩ | ⟨a, hm⟩
  · rw [hs]
  · exact hm.fixed.1

/-! ### Context switches -/

/-- A worker stops. -/
theorem machine_stop [Blockq] [Blockq.AtOnce] (ht : h.kernel.worker t = some w)
    (hw : w.status.onCpu = true) (hi : h.routing.worker_to_server w.id = some i)
    {event : UmcgEventType} {v : Worker} (hv : Stops w event (some v)) (x : WorkerThread τ)
    (hk : g.kernel = h.kernel.stop t w event (some v)) (hr : g.routing = h.routing)
    (hx : g.worker = Function.update h.worker t x) :
    (h.machine th i).onCpu = some w.id ∧
    (∃ s, (h.machine th i).server.step (.switched (.report (eventWord w.id event))) = some s ∧
      g.machine th i =
        (((h.machine th i).setWorker w.id x).setPark w.id v.status.park).setServer s) ∧
    ∀ j < h.routing.server_senders, j ≠ i → g.machine th j = h.machine th j := by
  obtain ⟨-, hworker, hanswer, hkernel⟩ := hc.stop ht hw hi hv
  obtain ⟨c, hrep⟩ := hc.represents ht hw hi
  have hin := (hc.layout.owner _ _ hi).1
  have hsw := (hc.running t w i ht hw hi).2
  have hthread : h.thread th i = h.routing.server i :=
    thread_of_none (hc.quiet _ (by simp [hrep.action]))
  have hpark : ∀ y, y ≠ t → g.kernel.park y = h.kernel.park y := fun y hy =>
    Kernel.park_congr (by rw [hk, hworker, Function.update_of_ne hy])
  have hpark' : g.kernel.park t = v.status.park :=
    Kernel.park_eq (by rw [hk, hworker, Function.update_self])
  have hinbox : ∀ j, (g.machine th j).inbox = (h.machine th j).inbox :=
    fun j => inbox_congr (by rw [hr]) (by rw [hr]) (by rw [hk, hkernel, hr])
  refine ⟨?_, ?_, fun j hj hji => ?_⟩
  · have hrun : (h.machine th i).park w.id = .running := by
      rw [(machine_worker hc ht hi).2]
      cases hst : w.status <;> simp_all [Status.onCpu, Status.park]
    have hctl : (h.machine th i).server.control.switching = some w.id := by
      change (h.thread th i).control.switching = _
      rw [hthread, hsw]
    simp [Machine.onCpu, hctl, hrun]
  · obtain ⟨s, hs⟩ := Server.step_switched (hc.serving i) hsw (.report (eventWord w.id event))
    refine ⟨s, by change (h.thread th i).step _ = _; rw [hthread, hs], ?_⟩
    refine Machine.eq_of_fields ?_ (worker_update hc ht hi (by rw [hr]) hx) (fun u => ?_) (hinbox i)
    · refine thread_of_some (a := ⟨.value 0, [eventWord w.id event, 0]⟩) ?_ (by rw [hr]; exact hs)
      rw [hk, hanswer, Function.update_self]
    · rw [park_update hc ht hi (by rw [hr]) hpark, hpark']
      rfl
  · refine machine_other hc ht hi hji (by rw [hr])
      (fun y hy => by rw [hx, Function.update_of_ne hy]) hpark ?_ (hinbox j)
    have hne : th.server j ≠ th.server i := fun heq => hji (hc.layout.injective j hj i hin heq)
    simp only [thread, hk, hanswer, Function.update_of_ne hne, hr]

/-- The kernel blocks or preempts a worker. -/
theorem simulates_stop [Blockq] [Blockq.AtOnce] (ht : h.kernel.worker t = some w)
    (hw : w.status.onCpu = true) (kind : StopKind) {v : Worker} (hv : Stops w kind.event (some v))
    (hpark : v.status.park = kind.park) :
    Simulates th h (h.setKernel (h.kernel.stop t w kind.event (some v))) := by
  obtain ⟨-, i, hi⟩ := hc.owned t w ht
  obtain ⟨hcpu, ⟨s, hs, hm⟩, hne⟩ := machine_stop hc ht hw hi hv (h.worker t)
    (g := h.setKernel (h.kernel.stop t w kind.event (some v))) rfl rfl
    (Function.update_eq_self t h.worker).symm
  refine .of_one ⟨.stop kind, ?_⟩ hne
  have hself : (h.machine th i).setWorker w.id (h.worker t) = h.machine th i := by
    rw [← (machine_worker hc ht hi).1, Machine.setWorker, Function.update_eq_self]
  rw [hm, hself, hpark]
  simp [Machine.step, hcpu, Machine.report, Machine.setPark, hs]

/-- A worker calls `Wait`. -/
theorem simulates_wait [Blockq] [Blockq.AtOnce] (ht : h.kernel.worker t = some w)
    (hw : w.status.onCpu = true) {x : WorkerThread τ}
    (hx : (h.worker t).step .attempt2 .wait = some x) {v : Worker} (hv : Stops w .wait (some v))
    (hpark : v.status.park = .ready) :
    Simulates th h ((h.setWorker t x).setKernel (h.kernel.stop t w .wait (some v))) := by
  obtain ⟨-, i, hi⟩ := hc.owned t w ht
  obtain ⟨hcpu, ⟨s, hs, hm⟩, hne⟩ := machine_stop hc ht hw hi hv x
    (g := (h.setWorker t x).setKernel (h.kernel.stop t w .wait (some v))) rfl rfl rfl
  refine .of_one ⟨.wait, ?_⟩ hne
  rw [hm, hpark]
  simp [Machine.step, hcpu, (machine_worker hc ht hi).1, hx, Machine.report, Machine.setPark,
    Machine.setWorker, hs]

/-- The context switch of a server fails at once. -/
theorem simulates_refuse (hi : i < h.routing.server_senders) {x : UInt64}
    (hsw : (h.routing.server i).control.switching = some x)
    (ha : h.kernel.action (th.server i) = none) (hans : h.kernel.answer (th.server i) = none)
    (e : Errno) : Simulates th h (h.setKernel (h.kernel.ret (th.server i) (.error e) [])) := by
  obtain ⟨-, hin⟩ := hc.refuse hi hsw ha e
  have hthread : h.thread th i = h.routing.server i := thread_of_none hans
  obtain ⟨s, hs⟩ := Server.step_switched (hc.serving i) hsw .failure
  refine .of_one (i := i) ⟨.fail, ?_⟩ fun j hj hji => ?_
  · -- no worker runs for a server that is awake
    have hp : (h.machine th i).park x ≠ .running := by
      simp only [machine]
      split_ifs with hown
      · cases hw : h.kernel.worker (workerTid x) with
        | none => simp [Kernel.park_none hw]
        | some w =>
          have hid : w.id = x :=
            (hc.owned _ w hw).1.trans (hc.layout.owner _ _ (owner_of_owns hown)).2
          have hcpu := hc.not_running ha hw (hid ▸ owner_of_owns hown)
          rw [Kernel.park_eq hw]
          cases hst : w.status <;> simp_all [Status.onCpu, Status.park]
      · simp
    have hctl : (h.machine th i).server.control.switching = some x := by
      change (h.thread th i).control.switching = _
      rw [hthread, hsw]
    have hstep : (h.machine th i).server.step (.switched .failure) = some s := by
      change (h.thread th i).step _ = _
      rw [hthread, hs]
    simp only [Machine.step, Machine.fail, hctl, if_neg hp, hstep, Option.map_some,
      Option.some.injEq]
    refine Machine.eq_of_fields ?_ (fun _ => rfl) (fun _ => rfl) ?_
    · have hans' : (h.setKernel (h.kernel.ret (th.server i) (.error e) [])).kernel.answer
          (th.server i) = some ⟨.error e, []⟩ := Function.update_self ..
      exact (thread_of_some hans' hs).symm
    · refine Eq.symm (inbox_congr rfl rfl ?_)
      rw [setKernel, hin]
  · exact machine_setKernel (Function.update_of_ne
      (fun heq => hji (hc.layout.injective j hj i hi heq)) _ _) (fun _ _ => rfl) hin

/-- The context switch of a server runs the worker. -/
theorem simulates_switchTo (ht : h.kernel.worker t = some w)
    (hi : h.routing.worker_to_server w.id = some i)
    (hsw : (h.routing.server i).control.switching = some w.id)
    (ha : h.kernel.action (th.server i) = none) (hans : h.kernel.answer (th.server i) = none)
    (hst : w.status = .runnable ∨ w.status = .waiting) (now : ℕ) :
    Simulates th h (h.setKernel (h.kernel.switchTo (th.server i) t w now 2 2)) := by
  obtain ⟨-, hin⟩ := hc.switchTo hi hsw ha hans ht hst now
  have hthread : h.thread th i = h.routing.server i := thread_of_none hans
  have hpark : ∀ y, y ≠ t → (h.kernel.switchTo (th.server i) t w now 2 2).park y =
      h.kernel.park y := fun y hy => Kernel.park_congr (Function.update_of_ne hy _ _)
  have hanswer : ∀ j < h.routing.server_senders,
      (h.kernel.switchTo (th.server i) t w now 2 2).answer (th.server j) =
        h.kernel.answer (th.server j) := fun j hj =>
    (Kernel.touches_run h.kernel t _ now _ (hc.ne_server ht hj)).2
  have hinbox : ∀ j, ((h.setKernel (h.kernel.switchTo (th.server i) t w now 2 2)).machine
      th j).inbox = (h.machine th j).inbox :=
    fun j => inbox_congr rfl rfl (by rw [setKernel, hin])
  have hthread' : ∀ j < h.routing.server_senders,
      (h.setKernel (h.kernel.switchTo (th.server i) t w now 2 2)).thread th j = h.thread th j := by
    intro j hj
    simp only [thread, setKernel, hanswer j hj]
  refine .of_one (i := i) ⟨.resume, ?_⟩ fun j hj hji =>
    machine_other hc ht hi hji rfl (fun _ _ => rfl) hpark (hthread' j hj) (hinbox j)
  have hctl : (h.machine th i).server.control.switching = some w.id := by
    change (h.thread th i).control.switching = _
    rw [hthread, hsw]
  have hp : (h.machine th i).park w.id = .ready := by
    rw [(machine_worker hc ht hi).2]
    rcases hst with hst | hst <;> rw [hst] <;> rfl
  simp only [Machine.step, Machine.resume, hctl, hp, if_true, Option.some.injEq]
  refine Machine.eq_of_fields (hthread' i (hc.layout.owner _ _ hi).1).symm (fun _ => rfl)
    (fun u => ?_) (hinbox i).symm
  have hpark' : (h.kernel.switchTo (th.server i) t w now 2 2).park t = .running := by
    simp [Kernel.park, Kernel.status, Kernel.switchTo, Kernel.run, Kernel.sleep, Kernel.addRefs,
      Kernel.set, Status.park]
  rw [park_update (g := h.setKernel (h.kernel.switchTo (th.server i) t w now 2 2)) hc ht hi rfl
    hpark u, setKernel, hpark']
  rfl

/-- The system call of a blocked worker is over. -/
theorem simulates_post (ht : h.kernel.worker t = some w) (hst : w.status = .blocked)
    (hp : h.kernel.CanPost t { w with status := .idle false, event := .wake }) :
    Simulates th h
      (h.setKernel (h.kernel.post t { w with status := .idle false, event := .wake })) := by
  obtain ⟨-, i, hi⟩ := hc.owned t w ht
  obtain ⟨-, hin⟩ := hc.post ht hp
  have hid : workerId (eventWord w.id .wake) = w.id := workerId_eventWord (hc.kernel.ids t w ht) _
  have hpark : ∀ y, y ≠ t → (h.kernel.post t { w with
      status := .idle false, event := .wake }).park y = h.kernel.park y :=
    fun y hy => Kernel.park_congr (Function.update_of_ne hy _ _)
  have hpark' : (h.kernel.post t { w with status := .idle false, event := .wake }).park t =
      .ready := by
    simp [Kernel.park, Kernel.status, Kernel.post, Kernel.set, Status.park]
  refine .of_one (i := i) ⟨.unblock w.id, ?_⟩ fun j hj hji =>
    machine_other hc ht hi hji rfl (fun _ _ => rfl) hpark rfl ?_
  · have hkey : w.id ∈ (h.machine th i).server.states.keys := by
      change w.id ∈ (h.thread th i).states.keys
      rw [thread_keys hc (hc.layout.owner _ _ hi).1]
      exact (hc.layout.keys i (hc.layout.owner _ _ hi).1 _).mpr hi
    have hblocked : (h.machine th i).park w.id = .blocked := by
      rw [(machine_worker hc ht hi).2, hst]
      rfl
    simp only [Machine.step, hkey, hblocked, true_and, if_true, Option.some.injEq]
    refine Machine.eq_of_fields rfl (fun _ => rfl) (fun u => ?_) ?_
    · rw [park_update (g := h.setKernel (h.kernel.post t { w with
        status := .idle false, event := .wake })) hc ht hi rfl hpark u, setKernel, hpark']
      rfl
    · have hown : h.owns i (workerId (eventWord w.id .wake)) = true := by simp [owns, hid, hi]
      rw [inbox_setKernel, hin]
      simp [machine, hown]
  · have hown : h.owns j (workerId (eventWord w.id .wake)) = false := by
      simp [owns, hid, hi, Ne.symm hji]
    rw [inbox_setKernel, hin]
    simp [machine, hown]

end Consistent

end Host

end Umcg.Attempt2
