import Umcg.Attempt2.Host
import Umcg.Klib.Answers

/-!
# What the kernel does without the servers

Of the calls of the kernel module, some concern no server: the routing server calls `Wait`, sleeps
in it and returns from it, and a worker enters and leaves system calls that do not block. For the
servers nothing happens then (`Silent`): their sleep and their answers stay as they are, the records
of the workers change within one `Park`, and no event gets lost between the list of the idle workers
and the buffer of the routing server, nor does their order change.
-/

namespace Umcg

namespace Klib

variable {k k' : Kernel} {s t : Int32} {w : Worker} {n : ℕ}

theorem Answer.batch_value (events : List UInt64) :
    (⟨.value 0, events⟩ : Answer).batch = events.takeWhile (· ≠ 0) := rfl

theorem Answer.batch_error (e : Errno) (events : List UInt64) :
    (⟨.error e, events⟩ : Answer).batch = [] := by
  cases e <;> rfl

namespace Kernel

theorem park_eq (h : k.worker t = some w) : k.park t = w.status.park := by
  simp [park, status, h]

theorem park_none (h : k.worker t = none) : k.park t = .unregistered := by
  simp [park, status, h]

theorem park_congr (h : k'.worker t = k.worker t) : k'.park t = k.park t := by
  rw [park, park, status, status, h]

theorem Inv.park_takeIdle (h : k.Inv) (n : ℕ) (t : Int32) : (k.takeIdle n).park t = k.park t := by
  by_cases ht : t ∈ k.idle_workers.take n
  · obtain ⟨w, hw, hidle⟩ := (h.mem_idle t).mp (List.mem_of_mem_take ht)
    have hw' : (k.takeIdle n).worker t = some { w with status := .runnable } := by
      simp [Kernel.takeIdle, setRunnable, ht, hw]
    rw [park_eq hw, park_eq hw']
    cases hst : w.status <;> simp_all [Status.isIdle, Status.park]
  · exact park_congr (setRunnable_of_notMem ht)

/-- The routing server fetches the events of idle workers: none is lost. -/
theorem Inv.fetch_router (h : k.Inv) {rv : Sysreturn} {events : List UInt64}
    (hget : k.serverGetEvents 10 10 = (k.takeIdle n, rv, events)) :
    ∃ m, rv = .value m ∧ events.takeWhile (· ≠ 0) ++ (k.takeIdle n).pending = k.pending ∧
      (m = 0 → events.takeWhile (· ≠ 0) = []) := by
  obtain ⟨n', events', hget', hlaw, -⟩ := h.getEvents (Nat.le_refl 10)
  rw [hget] at hget'
  simp only [Prod.mk.injEq] at hget'
  obtain ⟨hk, rfl, rfl⟩ := hget'
  rw [← hk] at hlaw
  refine ⟨_, rfl, hlaw, fun hm => ?_⟩
  have hrest := h.pending_takeIdle n'
  rw [List.length_eq_zero_iff.mp hm, List.nil_append, ← hk] at hrest
  rw [hrest] at hlaw
  exact List.append_left_eq_self.mp hlaw

end Kernel

end Klib

namespace Attempt2

open Klib

variable {τ : Type} {th : Threads}

/-- A call of the kernel module that no server sees: the routing server falls asleep, is woken or
gets events, and the records of the workers change within one `Park`. -/
structure Silent (th : Threads) (k k' : Kernel) : Prop where
  record : ∀ t r', k'.worker t = some r' → ∃ r, k.worker t = some r ∧ r'.id = r.id ∧
    r'.sysret = r.sysret ∧
    (r'.status.onCpu = true → r.status.onCpu = true ∧ r'.server_bq = r.server_bq)
  park : ∀ t, k'.park t = k.park t
  others : Kernel.Touches th.router k k'
  router : ∀ a, k'.action th.router = some a →
    k.action th.router = some a ∨ ∃ ts, a = .wait ts 10 10
  events : Host.inKernel th k' = Host.inKernel th k

namespace Silent

variable {k k' : Kernel} {t : Int32} {w w' : Worker} {n : ℕ}

/-- Something happens to the routing server, and its buffer stays as it is. -/
theorem of_router (hw : k'.worker = k.worker) (hi : k'.idle_workers = k.idle_workers)
    (hothers : Kernel.Touches th.router k k')
    (hrouter : ∀ a, k'.action th.router = some a →
      k.action th.router = some a ∨ ∃ ts, a = .wait ts 10 10)
    (hbatch : ((k'.answer th.router).map Answer.batch).getD [] =
      ((k.answer th.router).map Answer.batch).getD []) : Silent th k k' where
  record t r h := ⟨r, by rwa [hw] at h, rfl, rfl, fun hr => ⟨hr, rfl⟩⟩
  park t := Kernel.park_congr (by rw [hw])
  others := hothers
  router := hrouter
  events := by
    rw [Host.inKernel, Host.inKernel, Kernel.pending, Kernel.pending, hw, hi, hbatch]

theorem trans {k'' : Kernel} (h : Silent th k k') (h' : Silent th k' k'') : Silent th k k'' where
  record t r'' hr'' := by
    obtain ⟨r', hr', hid', hret', hcpu'⟩ := h'.record t r'' hr''
    obtain ⟨r, hr, hid, hret, hcpu⟩ := h.record t r' hr'
    exact ⟨r, hr, hid'.trans hid, hret'.trans hret, fun hc =>
      ⟨(hcpu (hcpu' hc).1).1, (hcpu' hc).2.trans (hcpu (hcpu' hc).1).2⟩⟩
  park t := (h'.park t).trans (h.park t)
  others x hx := ⟨(h'.others x hx).1.trans (h.others x hx).1,
    (h'.others x hx).2.trans (h.others x hx).2⟩
  router a ha := by
    rcases h'.router a ha with ha | ha
    · exact h.router a ha
    · exact .inr ha
  events := h'.events.trans h.events

/-- The worker `t` enters or leaves a system call. -/
theorem set (hinv : k.Inv) (ht : k.worker t = some w) (hid : w'.id = w.id)
    (hret : w'.sysret = w.sysret) (hw : w.status.onCpu = true) (hw' : w'.status.onCpu = true)
    (hbq : w'.server_bq = w.server_bq) : Silent th k (k.set t w') where
  record x r hr := by
    rcases update_eq_some hr with ⟨rfl, ⟨⟩⟩ | ⟨-, hr⟩
    · exact ⟨w, ht, hid, hret, fun _ => ⟨hw, hbq⟩⟩
    · exact ⟨r, hr, rfl, rfl, fun h => ⟨h, rfl⟩⟩
  park x := by
    by_cases hx : x = t
    · subst hx
      rw [Kernel.park_eq ht, Kernel.park_eq (w := w') (Function.update_self ..)]
      cases h : w.status <;> cases h' : w'.status <;> simp_all [Status.onCpu, Status.park]
    · exact Kernel.park_congr (Function.update_of_ne hx _ _)
  others _ _ := ⟨rfl, rfl⟩
  router a ha := .inl ha
  events := by
    have hpending : (k.set t w').pending = k.pending := by
      refine Kernel.pendingWords_congr fun x hx => Function.update_of_ne ?_ _ _
      rintro rfl
      obtain ⟨v, hv, hidle⟩ := (hinv.mem_idle x).mp hx
      obtain rfl : w = v := Option.some.inj (ht.symm.trans hv)
      cases h : w.status <;> simp_all [Status.onCpu, Status.isIdle]
    rw [Host.inKernel, Host.inKernel, hpending]
    rfl

/-- The routing server has fetched events, and has them in its buffer. -/
theorem fetch (hinv : k.Inv) {rv : Sysreturn} {events : List UInt64}
    (hget : k.serverGetEvents 10 10 = (k.takeIdle n, rv, events)) (hans : k.answer th.router = none)
    (hw : k'.worker = (k.takeIdle n).worker) (hi : k'.idle_workers = (k.takeIdle n).idle_workers)
    (hothers : Kernel.Touches th.router k k')
    (hrouter : ∀ a, k'.action th.router = some a →
      k.action th.router = some a ∨ ∃ ts, a = .wait ts 10 10)
    (hbatch : ((k'.answer th.router).map Answer.batch).getD [] = events.takeWhile (· ≠ 0)) :
    Silent th k k' where
  record t r hr := by
    rw [hw] at hr
    obtain ⟨v, hv, hid, hcase⟩ := Kernel.setRunnable_eq_some hr
    refine ⟨v, hv, by rw [hid], by rw [hid], fun hcpu => ?_⟩
    rcases hcase with ⟨-, hst⟩ | ⟨-, rfl⟩
    · simp [hst, Status.onCpu] at hcpu
    · exact ⟨hcpu, rfl⟩
  park t := (Kernel.park_congr (by rw [hw])).trans (hinv.park_takeIdle n t)
  others := hothers
  router := hrouter
  events := by
    obtain ⟨m, rfl, hlaw, -⟩ := hinv.fetch_router hget
    have hpending : k'.pending = (k.takeIdle n).pending := by
      rw [Kernel.pending, hw, hi]
      rfl
    rw [Host.inKernel, Host.inKernel, hpending, hbatch, hlaw, hans]
    rfl

/-- What the routing server finds in its buffer. -/
theorem batch_of_fetch (hinv : k.Inv) {rv r : Sysreturn} {events : List UInt64}
    (hget : k.serverGetEvents 10 10 = (k.takeIdle n, rv, events))
    (hr : r = rv.clear ∨ rv = .value 0) :
    (⟨r, events⟩ : Answer).batch = events.takeWhile (· ≠ 0) := by
  obtain ⟨m, rfl, -, hm⟩ := hinv.fetch_router hget
  rcases hr with rfl | hr
  · rfl
  · have hnil := hm (Sysreturn.value.inj hr)
    rw [hnil]
    cases r with
    | error e => exact Answer.batch_error e events
    | value v =>
      simp only [Answer.batch, umcgWaitRetryTimeout, hnil, ite_self]

/-- The call of `Wait` by the routing server. -/
theorem routerWait [Blockq] (hinv : k.Inv) (hans : k.answer th.router = none)
    (hs : k.worker th.router = none) {abs_timeout : UInt64} {now : ℕ}
    (hk : k.CtlMove th.router (.serverWait abs_timeout 10 10) now k') : Silent th k k' := by
  cases hk with
  | refused e =>
    exact of_router rfl rfl (Kernel.touches_ret _ _ _ _) (fun _ => .inl)
      (by simp [Kernel.ret, hans, Answer.batch_error])
  | fetched _ _ hget hr =>
    exact fetch hinv hget hans rfl rfl (Kernel.touches_ret (k.takeIdle _) _ _ _) (fun _ => .inl)
      (by simpa [Kernel.ret] using batch_of_fetch hinv hget hr)
  | @flagged events _ _ _ hget =>
    refine of_router rfl rfl (Kernel.touches_ret { k with wake_idle_server := false } _ _ _)
      (fun _ => .inl) ?_
    rw [← Kernel.takeIdle_zero k] at hget
    obtain ⟨m, hm, -, hnil⟩ := hinv.fetch_router hget
    have hbatch : (⟨.value 0, events⟩ : Answer).batch = [] :=
      (Answer.batch_value events).trans (hnil (Sysreturn.value.inj hm).symm)
    simp [Kernel.ret, hans, hbatch]
  | slept =>
    refine of_router rfl rfl (Kernel.touches_sleep k _ _) (fun a ha => .inr ?_) rfl
    change Function.update k.action th.router (some _) th.router = some a at ha
    rw [Function.update_self] at ha
    exact ⟨_, (Option.some.inj ha).symm⟩
  | waitedFor _ _ hnext => exact absurd rfl hnext
  | waited _ ht => simp [hs] at ht
  | accepted hcmd => rcases hcmd with hcmd | hcmd <;> cases hcmd
  | registered hcmd | unregistered hcmd | woke hcmd | wokeNone hcmd | switched hcmd
  | handedOver hcmd => cases hcmd

/-- The sleep of the routing server ends with an error. -/
theorem finish (hq : k.Quiet) (hs : k.action th.router ≠ none) (e : Errno) :
    Silent th k (k.finish th.router (.error e) []) := by
  refine of_router rfl rfl (Kernel.touches_finish _ _ _ _) (fun a ha => ?_) ?_
  · simp [Kernel.finish] at ha
  · simp [Kernel.finish, hq _ hs, Answer.batch_error]

/-- A wake-up of the idle servers, of which the routing server is the only one. -/
theorem wakeServer [Blockq] [Blockq.AtOnce] (hinv : k.Inv) (hq : k.Quiet)
    (hidle : ∀ s ts room sz, k.action s = some (.wait ts room sz) →
      s = th.router ∧ room = 10 ∧ sz = 10) : Silent th k k.wakeServer.1 := by
  by_cases hbq : k.server_bq = []
  · rw [Kernel.wakeServer_of_nil hbq]
    exact of_router rfl rfl (fun _ _ => ⟨rfl, rfl⟩) (fun _ => .inl) rfl
  · obtain ⟨s, hs, hwake⟩ := Kernel.wakeServer_of_ne_nil hbq
    obtain ⟨ts, room, sz, ha⟩ := (hinv.mem_bq s).mp hs
    obtain ⟨rfl, rfl, rfl⟩ := hidle s ts room sz ha
    have hans := hq th.router (by simp [ha])
    simp only [hwake, Kernel.runAction, ha]
    obtain ⟨n, hk, -⟩ := Kernel.serverGetEvents_takes k 10 10
    obtain ⟨rv, events, hget⟩ : ∃ rv events, k.serverGetEvents 10 10 = (k.takeIdle n, rv, events) :=
      ⟨_, _, Prod.ext hk rfl⟩
    obtain ⟨m, rfl, -, hm⟩ := hinv.fetch_router hget
    -- its `Wait` returns with the events that it has fetched, or with none
    have hreturn : ∀ u : Kernel, u.worker = (k.takeIdle n).worker →
        u.idle_workers = (k.takeIdle n).idle_workers → u.action = k.action →
        u.answer = k.answer → Silent th k (u.finish th.router (.value 0) events) := by
      intro u hw hi ha' hans'
      refine fetch hinv hget hans hw hi (fun x hx => ?_) (fun a ha => ?_) ?_
      · have := Kernel.touches_finish u th.router (.value 0) events x hx
        rwa [ha', hans'] at this
      · simp [Kernel.finish] at ha
      · simp [Kernel.finish, Answer.batch_value]
    cases m with
    | succ m =>
      have hbh : k.serverWaitBh 10 10 = (k.takeIdle n, some ⟨.value 0, events⟩) := by
        simp [Kernel.serverWaitBh, hget, Sysreturn.clear]
      rw [hbh]
      exact hreturn _ rfl rfl rfl rfl
    | zero =>
      cases hflag : (k.takeIdle n).wake_idle_server with
      | true =>
        have hbh : k.serverWaitBh 10 10 = ({ k.takeIdle n with wake_idle_server := false },
            some ⟨.value 0, events⟩) := by
          simp [Kernel.serverWaitBh, hget, hflag]
        rw [hbh]
        exact hreturn _ rfl rfl rfl rfl
      | false =>
        have hbh : k.serverWaitBh 10 10 = (k.takeIdle n, none) := by
          simp [Kernel.serverWaitBh, hget, hflag]
        rw [hbh]
        exact fetch hinv hget hans rfl rfl (fun _ _ => ⟨rfl, rfl⟩) (fun _ => .inl)
          (by rw [hm rfl]; simp [Kernel.takeIdle, hans])

end Silent

end Attempt2

end Umcg
