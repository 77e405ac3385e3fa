import Umcg.Attempt2.Silent
import Umcg.Klib.Switches

/-!
# How the kernel and the program belong together

A server thread and the kernel keep two views of one context switch: the control of the thread, and
its sleep, its answer and the record of the worker. `Consistent` says how the two agree. A worker
executes only for the server that owns it, which sleeps and whose thread is in the context switch to
this worker. The answer of a context switch is a failure, or exactly one event of the worker that
the thread has switched to. Every event on its way is one of a worker that `worker_to_server` knows.

One lemma for each kind of step says that the step keeps the invariant, and what it does to the
records, to the answers and to the events on their way.
-/

namespace Umcg.Attempt2

open Klib

/-! ### The worker that a server is busy with -/

namespace Server

variable {τ : Type} {s t : Server τ} {i : Input τ}

/-- The worker that the thread is busy with is one of the table. -/
def Keyed (s : Server τ) : Prop :=
  match s.control with
  | .removeTask w | .sendTask w _ | .ctxSwitch w _ => w ∈ s.states.keys
  | _ => True

private theorem keyed_resume {r : Outcome} {c : Caller} (h : s.control = resume r c) :
    s.Keyed := by
  unfold Keyed
  rw [h]
  rcases c with _ | _ | _
  · trivial
  · cases r <;> trivial
  · cases r <;> trivial

theorem Keyed.move (h : s.Keyed) (hm : Move s i t) : t.Keyed := by
  cases hm
  case popWaiting hw => exact s.states.mem_keys_of_get? hw
  case dispatch hc _ _ => simpa [Keyed, hc] using h
  case sentOk hc => simpa [Keyed, hc] using h
  case wake hw => exact s.states.mem_keys_of_get? hw
  case switchedBack a _ => cases ha : a.reported <;> trivial
  case switchedSilent | block | wait | waitUnexpected | ignored | invalid => exact keyed_resume rfl
  case unmanaged hc _ | popUnknown hc _ _ => simp [Keyed, hc]
  case popCritical hc _ _ _ => simp [Keyed, hc]
  all_goals trivial

end Server

/-! ### The invariant -/

/-- The threads have different ids, and every worker belongs to one server. -/
structure Layout {τ : Type} (th : Threads) (r : Routing τ) : Prop where
  injective : ∀ i < r.server_senders, ∀ j < r.server_senders, th.server i = th.server j → i = j
  router : ∀ i < r.server_senders, th.server i ≠ th.router
  owner : ∀ w i, r.worker_to_server w = some i →
    i < r.server_senders ∧ shiftedId (workerTid w) = w
  keys : ∀ i < r.server_senders, ∀ w,
    w ∈ (r.server i).states.keys ↔ r.worker_to_server w = some i

theorem Layout.setServer {τ : Type} {th : Threads} {r : Routing τ} (h : Layout th r) {i : ℕ}
    {x : Input τ} {s : Server τ} (hm : Server.Move (r.server i) x s) :
    Layout th { r with server := Function.update r.server i s } := by
  refine { h with keys := fun j hj w => ?_ }
  by_cases hji : j = i
  · subst hji
    simpa [hm.fixed.1] using h.keys j hj w
  · simpa [Function.update_of_ne hji] using h.keys j hj w

/-- How the kernel, the routing server and the servers belong together. -/
structure Consistent {τ : Type} (th : Threads) (k : Kernel) (r : Routing τ) : Prop where
  layout : Layout th r
  kernel : k.Inv
  quiet : k.Quiet
  serving : ∀ i, (r.server i).control.Serving
  keyed : ∀ i, (r.server i).Keyed
  server : ∀ i < r.server_senders, k.worker (th.server i) = none
  router : k.worker th.router = none
  owned : ∀ t w, k.worker t = some w → w.id = shiftedId t ∧ ∃ i, r.worker_to_server w.id = some i
  running : ∀ t w i, k.worker t = some w → w.status.onCpu = true →
    r.worker_to_server w.id = some i →
      w.server_bq = some (th.server i) ∧ (r.server i).control.switching = some w.id
  asleep : ∀ s a, k.action s = some a →
    (∃ i < r.server_senders, s = th.server i ∧ ∃ c e, a = .ctxSwitch c e 2 2) ∨
      s = th.router ∧ ∃ ts, a = .wait ts 10 10
  answered : ∀ i < r.server_senders, ∀ a, k.answer (th.server i) = some a →
    ∃ w, (r.server i).control.switching = some w ∧
      ((∃ e, a = ⟨.error e, []⟩) ∨ ∃ event, a = ⟨.value 0, [eventWord w event, 0]⟩)
  /-- The `Wait` of a worker returns zero. -/
  waited : ∀ t w, k.worker t = some w → (∀ ret ∈ w.sysret, ret = .value 0) ∧
    ∀ a ∈ k.answer t, a = ⟨.value 0, []⟩
  known : ∀ e ∈ r.events ++ Host.inKernel th k, ∃ i, r.worker_to_server (workerId e) = some i
  panicked : r.panicked = false

namespace Consistent

variable {τ : Type} {th : Threads} {k k' : Kernel} {r r' : Routing τ} {i : ℕ} {t : Int32}
  {w : Worker}

/-- The server threads and the routing server are not workers. -/
theorem ne_server (h : Consistent th k r) (ht : k.worker t = some w) (hi : i < r.server_senders) :
    th.server i ≠ t := by
  rintro rfl
  simp [h.server i hi] at ht

theorem ne_router (h : Consistent th k r) (ht : k.worker t = some w) : th.router ≠ t := by
  rintro rfl
  simp [h.router] at ht

/-- A step of the kernel that no server sees. -/
theorem silent (h : Consistent th k r) (hk : Silent th k k') (hinv : k'.Inv) (hq : k'.Quiet) :
    Consistent th k' r where
  layout := h.layout
  kernel := hinv
  quiet := hq
  serving := h.serving
  keyed := h.keyed
  server i hi := by
    by_contra hne
    obtain ⟨w, hw⟩ := Option.ne_none_iff_exists'.mp hne
    obtain ⟨v, hv, -⟩ := hk.record _ _ hw
    simp [h.server i hi] at hv
  router := by
    by_contra hne
    obtain ⟨w, hw⟩ := Option.ne_none_iff_exists'.mp hne
    obtain ⟨v, hv, -⟩ := hk.record _ _ hw
    simp [h.router] at hv
  owned t w hw := by
    obtain ⟨v, hv, hid, -⟩ := hk.record _ _ hw
    rw [hid]
    exact h.owned t v hv
  running t w i hw hcpu hi := by
    obtain ⟨v, hv, hid, -, hv'⟩ := hk.record _ _ hw
    rw [hid] at hi ⊢
    obtain ⟨hcpu', hbq⟩ := hv' hcpu
    rw [hbq]
    exact h.running t v i hv hcpu' hi
  asleep s a ha := by
    by_cases hs : s = th.router
    · subst hs
      rcases hk.router a ha with ha | ha
      · exact h.asleep _ a ha
      · exact .inr ⟨rfl, ha⟩
    · exact h.asleep s a ((hk.others s hs).1 ▸ ha)
  answered i hi a ha := h.answered i hi a ((hk.others _ (h.layout.router i hi)).2 ▸ ha)
  waited t w hw := by
    obtain ⟨v, hv, -, hret, -⟩ := hk.record _ _ hw
    rw [hret, (hk.others t (ne_router h hv).symm).2]
    exact h.waited t v hv
  known := by
    rw [hk.events]
    exact h.known
  panicked := h.panicked

/-! ### Servers and their workers -/

/-- A worker that executes does so for its server, whose context switch has a buffer of two
words. -/
theorem represents (h : Consistent th k r) (ht : k.worker t = some w)
    (hw : w.status.onCpu = true) (hi : r.worker_to_server w.id = some i) :
    ∃ c, k.Represents (th.server i) t w c := by
  obtain ⟨s, c, room, sz, hbq, -, ha⟩ := h.kernel.attached t w ht hw
  obtain rfl : s = th.server i :=
    Option.some.inj (hbq.symm.trans (h.running t w i ht hw hi).1)
  rcases h.asleep _ _ ha with ⟨j, -, -, c', e, hj⟩ | ⟨-, ts, hr⟩
  · cases hj
    exact ⟨c, ht, hw, hbq, ha⟩
  · cases hr

/-- A server that has no worker executing is awake. -/
theorem action_of_switching_eq_none (h : Consistent th k r) (hi : i < r.server_senders)
    (hc : (r.server i).control.switching = none) : k.action (th.server i) = none := by
  by_contra hne
  obtain ⟨a, ha⟩ := Option.ne_none_iff_exists'.mp hne
  rcases h.asleep _ a ha with ⟨j, -, -, c, e, rfl⟩ | ⟨hs, -⟩
  · obtain ⟨t, w, ht, hw, hbq⟩ := h.kernel.switching _ _ _ _ _ ha
    obtain ⟨-, j', hj'⟩ := h.owned t w ht
    obtain ⟨hbq', hsw⟩ := h.running t w j' ht hw hj'
    obtain rfl : i = j' := h.layout.injective i hi j' (h.layout.owner _ _ hj').1
      (Option.some.inj (hbq.symm.trans hbq'))
    simp [hc] at hsw
  · exact h.layout.router i hi hs

theorem answer_of_switching_eq_none (h : Consistent th k r) (hi : i < r.server_senders)
    (hc : (r.server i).control.switching = none) : k.answer (th.server i) = none := by
  by_contra hne
  obtain ⟨a, ha⟩ := Option.ne_none_iff_exists'.mp hne
  obtain ⟨w, hw, -⟩ := h.answered i hi a ha
  simp [hc] at hw

/-- No worker executes for a server that is awake. -/
theorem not_running (h : Consistent th k r) (ha : k.action (th.server i) = none)
    (ht : k.worker t = some w) (hi : r.worker_to_server w.id = some i) :
    w.status.onCpu = false := by
  by_contra hcpu
  obtain ⟨c, hrep⟩ := h.represents ht (by simpa using hcpu) hi
  simp [hrep.action] at ha

/-! ### Steps of the kernel that a server sees -/

/-- The pending events after the record of a worker that is not idle has changed. -/
theorem inKernel_update (h : Consistent th k r) (ht : k.worker t = some w)
    (hw : w.status.isIdle = false) {o : Option Worker}
    (hworker : k'.worker = Function.update k.worker t o)
    (hidle : k'.idle_workers = k.idle_workers) (hans : k'.answer th.router = k.answer th.router) :
    Host.inKernel th k' = Host.inKernel th k := by
  have hpending : k'.pending = k.pending := by
    rw [Kernel.pending, hidle, hworker]
    refine Kernel.pendingWords_congr fun x hx => Function.update_of_ne ?_ _ _
    rintro rfl
    obtain ⟨v, hv, hv'⟩ := (h.kernel.mem_idle x).mp hx
    obtain rfl : w = v := Option.some.inj (ht.symm.trans hv)
    simp [hw] at hv'
  rw [Host.inKernel, Host.inKernel, hpending, hans]

/-- A new record of the worker `t`. -/
theorem owned_update (h : Consistent th k r) (ht : k.worker t = some w) {v : Worker}
    (hid : v.id = w.id) (x : Int32) (u : Worker)
    (hu : Function.update k.worker t (some v) x = some u) :
    u.id = shiftedId x ∧ ∃ i, r.worker_to_server u.id = some i := by
  rcases update_eq_some hu with ⟨rfl, ⟨⟩⟩ | ⟨-, hu⟩
  · rw [hid]
    exact h.owned _ w ht
  · exact h.owned x u hu

/-- What the `Wait`s of the workers return, after the worker `t` has got a new record. -/
theorem waited_update (h : Consistent th k r) {v : Worker}
    (hworker : k'.worker = Function.update k.worker t (some v))
    (hret : ∀ ret ∈ v.sysret, ret = .value 0) (hself : ∀ a ∈ k'.answer t, a = ⟨.value 0, []⟩)
    (hans : ∀ x u, k.worker x = some u → x ≠ t → k'.answer x = k.answer x) (x : Int32) (u : Worker)
    (hu : k'.worker x = some u) : (∀ ret ∈ u.sysret, ret = .value 0) ∧
      ∀ a ∈ k'.answer x, a = ⟨.value 0, []⟩ := by
  rw [hworker] at hu
  rcases update_eq_some hu with ⟨rfl, ⟨⟩⟩ | ⟨hx, hu⟩
  · exact ⟨hret, hself⟩
  · rw [hans x u hu hx]
    exact h.waited x u hu

/-- A worker stops: its event is the answer of the context switch of its server. -/
theorem stop [Blockq] [Blockq.AtOnce] (h : Consistent th k r) (ht : k.worker t = some w)
    (hw : w.status.onCpu = true) (hi : r.worker_to_server w.id = some i) {event : UmcgEventType}
    {v : Worker} (hv : Stops w event (some v)) :
    Consistent th (k.stop t w event (some v)) r ∧
      (k.stop t w event (some v)).worker = Function.update k.worker t (some v) ∧
      (k.stop t w event (some v)).answer = Function.update k.answer (th.server i)
        (some ⟨.value 0, [eventWord w.id event, 0]⟩) ∧
      Host.inKernel th (k.stop t w event (some v)) = Host.inKernel th k := by
  obtain ⟨c, hrep⟩ := h.represents ht hw hi
  obtain ⟨hcpu, -⟩ := hv.record (h.kernel.ids t w ht) v rfl
  have hid : v.id = w.id := by cases hv <;> rfl
  have hidle : w.status.isIdle = false := by
    cases hst : w.status <;> simp_all [Status.onCpu, Status.isIdle]
  have hin := (h.layout.owner _ _ hi).1
  have hinv := h.kernel.stop ht hw hv
  have hquiet := h.quiet.stop h.kernel ht hw event (some v)
  have hk := hrep.stop_eq h.kernel event (some v)
  have hanswer : (k.stop t w event (some v)).answer = Function.update k.answer (th.server i)
      (some ⟨.value 0, [eventWord w.id event, 0]⟩) := by rw [hk]; rfl
  have haction : ∀ s a, (k.stop t w event (some v)).action s = some a → k.action s = some a := by
    intro s a ha
    rw [hk] at ha
    rcases update_eq_some ha with ⟨-, ⟨⟩⟩ | ⟨hs, ha⟩
    exact (Function.update_of_ne hs _ _).symm.trans ha
  have hworker : (k.stop t w event (some v)).worker = Function.update k.worker t (some v) := by
    rw [hk]; rfl
  have hkernel : Host.inKernel th (k.stop t w event (some v)) = Host.inKernel th k := by
    refine h.inKernel_update ht hidle hworker (by rw [hk]; rfl) ?_
    rw [hanswer]
    exact Function.update_of_ne (h.layout.router i hin).symm _ _
  have hworkers : ∀ x u, k.worker x = some u →
      (k.stop t w event (some v)).answer x = k.answer x := fun x u hu => by
    rw [hanswer, Function.update_of_ne (h.ne_server hu hin).symm]
  have hret : ∀ ret ∈ v.sysret, ret = .value 0 := by
    cases hv with
    | block | preempt => exact (h.waited t w ht).1
    | wait tmr => simp
  refine ⟨⟨h.layout, hinv, hquiet, h.serving, h.keyed, fun j hj => ?_, ?_, ?_, ?_,
    fun s a ha => h.asleep s a (haction s a ha), fun j hj a ha => ?_,
    h.waited_update hworker hret ?_ (fun x u hu _ => hworkers x u hu), ?_, h.panicked⟩,
    hworker, hanswer, hkernel⟩
  · rw [hworker, Function.update_of_ne (h.ne_server ht hj)]
    exact h.server j hj
  · rw [hworker, Function.update_of_ne (h.ne_router ht)]
    exact h.router
  · rw [hworker]
    exact h.owned_update ht hid
  · intro x u j hu hcpu' hj
    rw [hworker] at hu
    rcases update_eq_some hu with ⟨-, ⟨⟩⟩ | ⟨-, hu⟩
    · simp [hcpu] at hcpu'
    · exact h.running x u j hu hcpu' hj
  · rw [hanswer] at ha
    rcases update_eq_some ha with ⟨hs, ⟨⟩⟩ | ⟨-, ha⟩
    · obtain rfl := h.layout.injective j hj i hin hs
      exact ⟨w.id, (h.running t w j ht hw hi).2, .inr ⟨event, rfl⟩⟩
    · exact h.answered j hj a ha
  · rw [hworkers t w ht]
    exact (h.waited t w ht).2
  · rw [hkernel]
    exact h.known

/-- A server switches to the worker that its thread wants to run. -/
theorem switchTo (h : Consistent th k r) (hi : r.worker_to_server w.id = some i)
    (hc : (r.server i).control.switching = some w.id) (hs : k.action (th.server i) = none)
    (hans : k.answer (th.server i) = none) (ht : k.worker t = some w)
    (hst : w.status = .runnable ∨ w.status = .waiting) (now : ℕ) :
    Consistent th (k.switchTo (th.server i) t w now 2 2) r ∧
      Host.inKernel th (k.switchTo (th.server i) t w now 2 2) = Host.inKernel th k := by
  have hin := (h.layout.owner _ _ hi).1
  have hinv := h.kernel.switchTo (h.server i hin) hs ht hst now 2 2
  have hrun : Kernel.Touches t k (k.run t { w with
      server_event := some (th.server i, k.closures), server_bq := some (th.server i) } now) :=
    Kernel.touches_run k t _ now
  have hquiet : (k.switchTo (th.server i) t w now 2 2).Quiet := by
    refine (h.quiet.change hrun (.inl (h.kernel.action_of_worker ht))).change
      (Kernel.touches_sleep _ (th.server i) _) (.inr ?_)
    exact (hrun _ (h.ne_server ht hin)).2.trans hans
  have hanswer : ∀ x, x ≠ t → (k.switchTo (th.server i) t w now 2 2).answer x = k.answer x :=
    fun x hx => (hrun x hx).2
  have hkernel : Host.inKernel th (k.switchTo (th.server i) t w now 2 2) = Host.inKernel th k :=
    h.inKernel_update ht (by rcases hst with hst | hst <;> rw [hst] <;> rfl) rfl rfl
      (hanswer _ (h.ne_router ht))
  refine ⟨⟨h.layout, hinv, hquiet, h.serving, h.keyed, fun j hj => ?_, ?_,
    h.owned_update ht (v := { w with
      server_event := some (th.server i, k.closures), server_bq := some (th.server i),
      status := .running, tmr := false, start_time := now, sysret := none }) rfl, ?_, ?_,
    fun j hj a ha => ?_, h.waited_update rfl (by simp) ?_ (fun x _ _ hx => hanswer x hx), ?_,
    h.panicked⟩, hkernel⟩
  · exact (Function.update_of_ne (h.ne_server ht hj) _ _).trans (h.server j hj)
  · exact (Function.update_of_ne (h.ne_router ht) _ _).trans h.router
  · intro x u j hu hcpu hj
    rcases update_eq_some hu with ⟨-, ⟨⟩⟩ | ⟨-, hu⟩
    · obtain rfl : i = j := Option.some.inj (hi.symm.trans hj)
      exact ⟨rfl, hc⟩
    · exact h.running x u j hu hcpu hj
  · intro s a ha
    rcases update_eq_some ha with ⟨rfl, ⟨⟩⟩ | ⟨-, ha⟩
    · exact .inl ⟨i, hin, rfl, _, _, rfl⟩
    · exact h.asleep s a ha
  · exact h.answered j hj a ((hanswer _ (h.ne_server ht hj)).symm.trans ha)
  · -- the worker gets what its `Wait` has left for it
    intro a ha
    rcases Kernel.mem_answer_run now ha with ⟨ret, hret, rfl⟩ | ha
    · rw [(h.waited t w ht).1 ret hret]
    · exact (h.waited t w ht).2 a ha
  · rw [hkernel]
    exact h.known

/-- The context switch of a server fails at once. -/
theorem refuse (h : Consistent th k r) (hi : i < r.server_senders) {x : UInt64}
    (hc : (r.server i).control.switching = some x) (hs : k.action (th.server i) = none)
    (e : Errno) : Consistent th (k.ret (th.server i) (.error e) []) r ∧
      Host.inKernel th (k.ret (th.server i) (.error e) []) = Host.inKernel th k := by
  have hkernel : Host.inKernel th (k.ret (th.server i) (.error e) []) = Host.inKernel th k := by
    unfold Host.inKernel
    rw [(Kernel.touches_ret k (th.server i) _ _ _ (h.layout.router i hi).symm).2]
    rfl
  refine ⟨{ h with
    kernel := h.kernel.ret _ _ _
    quiet := h.quiet.ret hs _ _
    answered := fun j hj a ha => ?_
    waited := fun t w ht => ?_
    known := by rw [hkernel]; exact h.known }, hkernel⟩
  · rcases update_eq_some ha with ⟨hj', ⟨⟩⟩ | ⟨-, ha⟩
    · obtain rfl := h.layout.injective j hj i hi hj'
      exact ⟨x, hc, .inl ⟨e, rfl⟩⟩
    · exact h.answered j hj a ha
  · rw [(Kernel.touches_ret k (th.server i) _ _ _ (h.ne_server ht hi).symm).2]
    exact h.waited t w ht

/-- A thread goes on after its system call. -/
theorem resume (h : Consistent th k r) (x : Int32) :
    Consistent th { k with answer := Function.update k.answer x none } r where
  layout := h.layout
  kernel := h.kernel.congr rfl rfl rfl rfl rfl
  quiet := h.quiet.change (s := x) (fun _ hy => ⟨rfl, Function.update_of_ne hy _ _⟩)
    (.inr (Function.update_self ..))
  serving := h.serving
  keyed := h.keyed
  server := h.server
  router := h.router
  owned := h.owned
  running := h.running
  asleep := h.asleep
  answered j hj a ha := by
    rcases update_eq_some ha with ⟨-, ⟨⟩⟩ | ⟨-, ha⟩
    exact h.answered j hj a ha
  waited t w ht := by
    refine ⟨(h.waited t w ht).1, fun a ha => ?_⟩
    rcases update_eq_some (Option.mem_def.mp ha) with ⟨-, ⟨⟩⟩ | ⟨-, ha⟩
    exact (h.waited t w ht).2 a ha
  known e he := by
    refine h.known e ?_
    rcases List.mem_append.mp he with he | he
    · exact List.mem_append_left _ he
    · rcases List.mem_append.mp he with he | he
      · refine List.mem_append_right _ (List.mem_append_left _ ?_)
        by_cases hx : th.router = x
        · simp [hx] at he
        · simpa [hx] using he
      · exact List.mem_append_right _ (List.mem_append_right _ he)
  panicked := h.panicked

/-- The system call of a blocked worker is over, and the worker joins the idle ones. -/
theorem post (h : Consistent th k r) (ht : k.worker t = some w)
    (hp : k.CanPost t { w with status := .idle false, event := .wake }) :
    Consistent th (k.post t { w with status := .idle false, event := .wake }) r ∧
      Host.inKernel th (k.post t { w with status := .idle false, event := .wake }) =
        Host.inKernel th k ++ [eventWord w.id .wake] := by
  have hkernel : Host.inKernel th (k.post t { w with status := .idle false, event := .wake }) =
      Host.inKernel th k ++ [eventWord w.id .wake] := by
    have hidle : Kernel.pendingWords (Function.update k.worker t
        (some { w with status := .idle false, event := .wake })) k.idle_workers = k.pending := by
      refine Kernel.pendingWords_congr fun x hx => Function.update_of_ne ?_ _ _
      rintro rfl
      obtain ⟨v, hv, hv'⟩ := (h.kernel.mem_idle x).mp hx
      simp [(hp.stopped v hv).1] at hv'
    have hpending : (k.post t { w with status := .idle false, event := .wake }).pending =
        k.pending ++ [eventWord w.id .wake] := by
      refine (Kernel.pendingWords_append _ _ _).trans ?_
      rw [← hidle]
      simp [Kernel.post, Kernel.set, Kernel.pendingWords, Kernel.eventWords]
    rw [Host.inKernel, hpending, ← List.append_assoc]
    rfl
  refine ⟨{ h with
    kernel := h.kernel.post hp
    quiet := h.quiet.congr rfl rfl
    server := fun j hj => (Function.update_of_ne (h.ne_server ht hj) _ _).trans (h.server j hj)
    router := (Function.update_of_ne (h.ne_router ht) _ _).trans h.router
    owned := h.owned_update ht rfl
    running := fun x u j hu hcpu hj => ?_
    waited := h.waited_update rfl (h.waited t w ht).1 (h.waited t w ht).2 fun _ _ _ _ => rfl
    known := fun e he => ?_ }, hkernel⟩
  · rcases update_eq_some hu with ⟨-, ⟨⟩⟩ | ⟨-, hu⟩
    · cases hcpu
    · exact h.running x u j hu hcpu hj
  · rw [hkernel, ← List.append_assoc] at he
    rcases List.mem_append.mp he with he | he
    · exact h.known e he
    · rw [List.mem_singleton.mp he, workerId_eventWord (h.kernel.ids t w ht)]
      exact (h.owned t w ht).2

/-! ### Steps of the routing server and of the servers -/

/-- The thread of a server that is awake goes on. -/
theorem setServer (h : Consistent th k r) (hi : i < r.server_senders) {x : Input τ} {s : Server τ}
    (hm : Server.Move (r.server i) x s) (ha : k.action (th.server i) = none)
    (hans : k.answer (th.server i) = none) :
    Consistent th k { r with server := Function.update r.server i s } where
  layout := h.layout.setServer hm
  kernel := h.kernel
  quiet := h.quiet
  serving j := by
    by_cases hji : j = i
    · subst hji
      simpa using hm.serving (h.serving j)
    · simpa [Function.update_of_ne hji] using h.serving j
  keyed j := by
    by_cases hji : j = i
    · subst hji
      simpa using (h.keyed j).move hm
    · simpa [Function.update_of_ne hji] using h.keyed j
  server := h.server
  router := h.router
  owned := h.owned
  running t w j ht hw hj := by
    have hji : j ≠ i := by
      rintro rfl
      simp [h.not_running ha ht hj] at hw
    simpa [Function.update_of_ne hji] using h.running t w j ht hw hj
  asleep := h.asleep
  answered j hj a hj' := by
    have hji : j ≠ i := by
      rintro rfl
      simp [hans] at hj'
    simpa [Function.update_of_ne hji] using h.answered j hj a hj'
  waited := h.waited
  known := h.known
  panicked := h.panicked

end Consistent

end Umcg.Attempt2
