import Umcg.Klib.Invariant

/-!
# Safety of the kernel module

Every call of the module keeps the invariant, as long as it is one of those that `Kernel.Proper`
allows, so the invariant holds after every sequence of such calls, made by any threads in any order.
As everywhere, a call is one step, and a wake-up runs the action it wakes at once
(`Blockq.AtOnce`).
-/

namespace Umcg.Klib

/-- A server may wait for this worker: it does not execute, and no other server waits for it. -/
def Worker.awaitable (w : Worker) : Bool :=
  !w.status.onCpu && (w.status ≠ .blocked || w.server_bq.isNone)

namespace Kernel

/-- The calls for which the module is made. A signal interrupts the sleep of an idle server only; a
thread that ends as a worker executes; and a server waits for one worker only if this worker does
not execute and no other server waits for it. -/
def Proper (k : Kernel) : Call → Prop
  | .ctl _ a _ _ => a.cmd = some .wait → a.next_tid ≠ 0 →
      (k.worker a.next_tid).all Worker.awaitable = true
  | .nullify s => (k.action s).all Action.isWait = true
  | .exit t => (k.worker t).all (·.status.onCpu) = true
  | _ => True

instance (k : Kernel) : (c : Call) → Decidable (k.Proper c)
  | .ctl _ a _ _ => inferInstanceAs (Decidable (a.cmd = some .wait → a.next_tid ≠ 0 →
      (k.worker a.next_tid).all Worker.awaitable = true))
  | .nullify s => inferInstanceAs (Decidable ((k.action s).all Action.isWait = true))
  | .exit t => inferInstanceAs (Decidable ((k.worker t).all (·.status.onCpu) = true))
  | .resume _ | .pause _ | .syscallPause _ | .scheduleReturn _ _ | .timeout _ | .timedOut _
  | .spawn _ => inferInstanceAs (Decidable True)

variable {k k' : Kernel} {t s : Int32} {w : Worker}

theorem Inv.ret (h : k.Inv) (t : Int32) (r : Sysreturn) (events : List UInt64) :
    (k.ret t r events).Inv := h.congr rfl rfl rfl rfl rfl

/-- A thread that has a record does not sleep in a block queue, and a server waits for it only while
it is blocked. -/
theorem Inv.action_of_worker (h : k.Inv) (ht : k.worker t = some w) : k.action t = none := by
  by_contra ha
  simp [h.server t ha] at ht

theorem Inv.not_waitWorker (h : k.Inv) (ht : ∀ w, k.worker t = some w → w.status ≠ .blocked)
    (s : Int32) : k.action s ≠ some (.waitWorker t) := by
  intro ha
  obtain ⟨w, hw, hb, -⟩ := h.waitingFor s t ha
  exact ht w hw hb

theorem Inv.notMem_bq (h : k.Inv) (ha : ∀ ts room sz, k.action s ≠ some (.wait ts room sz)) :
    s ∉ k.server_bq := by
  intro hmem
  obtain ⟨ts, room, sz, hs⟩ := (h.mem_bq s).mp hmem
  exact ha ts room sz hs

/-! ### Workers and servers without a wake-up -/

/-- A worker that may join the idle ones and has no server waiting for it. -/
theorem Inv.canPost (h : k.Inv) (hid : workerId w.id = w.id) (hw : w.status.isIdle = true)
    (ha : k.action t = none)
    (ht : ∀ v, k.worker t = some v → v.status = .runnable ∨ v.status = .waiting) :
    k.CanPost t w where
  idle := hw
  id := hid
  stopped v hv := by rcases ht v hv with hst | hst <;> simp [hst, Status.isIdle, Status.onCpu]
  awake := ha
  unheld := h.not_waitWorker fun v hv => by rcases ht v hv with hst | hst <;> simp [hst]

/-- What the timer of `t` does. -/
theorem Inv.workerTimeout_eq [Blockq] (h : k.Inv) (ht : k.worker t = some w) :
    (k.CanPost t { w with
        tmr := false, status := .idle false, sysret := some (.error .etimedout), event := .timeout }
      ∧ w.status = .waiting ∧ k.workerTimeout t = k.workerEventIdle t { w with
        tmr := false, status := .idle false, sysret := some (.error .etimedout) } .timeout) ∨
      w.status = .idle false ∧ k.workerTimeout t = k.set t { w with
        tmr := false, status := .idle true, sysret := some (.error .etimedout) } ∨
      w.status ≠ .waiting ∧ w.status ≠ .idle false ∧
        k.workerTimeout t = k.set t { w with tmr := false } := by
  simp only [workerTimeout, ht]
  cases hst : w.status with
  | waiting =>
    refine .inl ⟨h.canPost (h.ids t w ht) rfl (h.action_of_worker ht) fun v hv => .inr ?_, rfl, rfl⟩
    rwa [← Option.some.inj (ht.symm.trans hv)]
  | idle timeout =>
    cases timeout with
    | false => exact .inr (.inl ⟨rfl, rfl⟩)
    | true => exact .inr (.inr ⟨by simp, by simp, rfl⟩)
  | _ => exact .inr (.inr ⟨by simp, by simp, rfl⟩)

/-- What `umcg_register_worker` checks makes a worker id. -/
theorem workerId_of_and_mask {id : UInt64} (h : id &&& workerEventMask = 0) : workerId id = id := by
  apply UInt64.eq_of_toBitVec_eq
  apply BitVec.eq_of_getLsbD_eq
  intro i hi
  by_cases hlt : i < 5
  · have hmask : workerEventMask.toBitVec = 31#64 := rfl
    have hbit := congrArg (fun x : UInt64 => x.toBitVec.getLsbD i) h
    have htest : Nat.testBit 31 i = true := by
      simpa [hlt] using Nat.testBit_two_pow_sub_one 5 i
    simp only [UInt64.toBitVec_and, BitVec.getLsbD_and, hmask, BitVec.getLsbD_ofNat, htest, hi,
      decide_true, Bool.and_true] at hbit
    simp [workerId, workerIdShift, hlt, hbit]
  · have hsub : 5 + (i - 5) = i := by omega
    simp [workerId, workerIdShift, hlt, hi, hsub]

/-- The record of a worker that registers. -/
def newWorker (id : UInt64) : Worker :=
  ⟨id, .idle false, 0, .wake, none, none, false, some (.value 0)⟩

theorem Inv.canRegister (h : k.Inv) (ha : k.action t = none) (ht : k.worker t = none) {id : UInt64}
    (hid : id &&& workerEventMask = 0) : k.CanPost t (newWorker id) :=
  h.canPost (workerId_of_and_mask hid) rfl ha (by simp [ht])

/-- A `Wait` for the worker `t`. When it is not blocked, the server does not sleep, but leaves its
block queue in the record all the same. -/
theorem Inv.waitFor (h : k.Inv) (hs : k.worker s = none) (hs' : k.action s = none)
    (ht : k.worker t = some w) (hw : w.awaitable = true) : (k.waitFor s t w).Inv := by
  obtain ⟨hcpu, hbq⟩ : w.status.onCpu = false ∧ (w.status = .blocked → w.server_bq = none) := by
    simpa [Worker.awaitable, ← imp_iff_not_or] using hw
  simp only [Kernel.waitFor, serverWaitWorkerBh, sleep, addRefs, set, Function.update_self]
  split_ifs with hst
  · exact (h.sleepWaitWorker hs hs' ht hst (hbq hst)).congr rfl rfl rfl rfl rfl
  · have hset : (k.set t { w with server_bq := some s }).Inv :=
      h.update ht rfl rfl .rfl (by simp [hcpu, hst]) rfl
    refine hset.congr rfl rfl ?_ ?_ rfl
    · exact List.erase_of_not_mem (h.notMem_bq (by simp [hs']))
    · simp [finish, set, ← hs']

theorem Inv.switchTo (h : k.Inv) (hs : k.worker s = none) (hs' : k.action s = none)
    (ht : k.worker t = some w) (hst : w.status = .runnable ∨ w.status = .waiting)
    (now room sz : ℕ) : (k.switchTo s t w now room sz).Inv :=
  (h.attach (c := k.closures) ht hst hs hs' (w := { w with
    server_event := some (s, k.closures), server_bq := some s, status := .running, tmr := false,
    start_time := now, sysret := none }) rfl rfl rfl rfl room sz).congr rfl rfl rfl rfl rfl

/-- A worker that switches to another one hands its server over to it. In between the server is
free: this is the end of one context switch and the start of another one. -/
theorem Inv.handOver_eq [Blockq] (h : k.Inv) (ht : k.worker t = some w)
    (hw : w.status.onCpu = true)
    {n : Int32} {next : Worker} (hn : k.worker n = some next) (hst : next.status = .runnable)
    (now : ℕ) (tmr : Bool) :
    ((k.run n { next with server_event := w.server_event, server_bq := w.server_bq } now).set t
        { w with status := .runnable }).Inv ∧
      ((k.run n { next with server_event := w.server_event, server_bq := w.server_bq } now).set t
        { w with status := .runnable }).CanPost t { w with
          status := .idle false, tmr := tmr, sysret := some (.value 0), event := .wait } ∧
      k.handOver t w n next now tmr =
        ((k.run n { next with server_event := w.server_event, server_bq := w.server_bq } now).set t
          { w with status := .runnable }).workerEventIdle t
            { w with status := .idle false, tmr := tmr, sysret := some (.value 0) } .wait := by
  obtain ⟨s, c, room, sz, hs, he, ha⟩ := h.attached t w ht hw
  have hnt : n ≠ t := by
    rintro rfl
    obtain rfl : w = next := Option.some.inj (ht.symm.trans hn)
    simp [hst, Status.onCpu] at hw
  have hst' : s ≠ t := by
    rintro rfl
    simp [h.server s (by simp [ha])] at ht
  have hfree := h.release ⟨w, ht, hs, .inl hw⟩ (o := some { w with status := .runnable }) (by
    rintro u ⟨⟩
    exact ⟨rfl, rfl, by simp, h.ids t w ht⟩)
  have hattach := hfree.attach (t := n) (s := s) (v := next) (c := c) (w := { next with
      server_event := w.server_event, server_bq := w.server_bq, status := .running, tmr := false,
      start_time := now, sysret := none })
    (update_keeps hn hnt) (.inl hst)
    (by simpa [hst'] using h.server s (by simp [ha])) (Function.update_self ..) rfl hs he rfl
    room sz
  have hrun : ((k.run n { next with server_event := w.server_event, server_bq := w.server_bq }
      now).set t { w with status := .runnable }).Inv := by
    refine hattach.congr ?_ rfl rfl ?_ rfl
    · exact Function.update_comm hnt ..
    · simp only [run, set, Function.update_idem]
      rw [← ha, Function.update_eq_self]
  refine ⟨hrun, hrun.canPost (h.ids t w ht) rfl (h.action_of_worker ht) fun v hv => .inl ?_, ?_⟩
  · obtain rfl : { w with status := .runnable } = v := by simpa [set] using hv
    rfl
  · rw [workerEventIdle_set]
    rfl

theorem onCpu_of_proper (hc : k.Proper (.exit t)) :
    ∀ w, k.worker t = some w → w.status.onCpu = true := by
  intro w hw
  simpa [Proper, hw] using hc

section AtOnce

variable [Blockq] [Blockq.AtOnce]

/-! ### Events -/

theorem Inv.workerEventIdle (h : k.Inv) {event : UmcgEventType}
    (hp : k.CanPost t { w with event := event }) : (k.workerEventIdle t w event).Inv :=
  (h.post hp).wakeServer

/-- A worker that stops is attached to the context switch that it ends. -/
theorem Inv.stop_eq (h : k.Inv) (ht : k.worker t = some w) (hw : w.status.onCpu = true)
    (event : UmcgEventType) (o : Option Worker) : ∃ s c room sz n r events,
      w.server_bq = some s ∧ k.action s = some (.ctxSwitch c 0 room sz) ∧
      k.stop t w event o =
        ((({ k with worker := Function.update k.worker t o }.sleep s
          (.ctxSwitch c (eventWord w.id event) room sz)).takeIdle n).finish s r
            events).addRefs s (-1) := by
  obtain ⟨s, c, room, sz, hs, he, ha⟩ := h.attached t w ht hw
  obtain ⟨n, r, events, hk⟩ := workerEventToServer_cases
    (k := { k with worker := Function.update k.worker t o }) (h.ids t w ht) hs he ha event
  exact ⟨s, c, room, sz, n, r, events, hs, ha, hk⟩

theorem Inv.stop (h : k.Inv) (ht : k.worker t = some w) (hw : w.status.onCpu = true)
    {event : UmcgEventType} {o : Option Worker} (ho : Stops w event o) :
    (k.stop t w event o).Inv := by
  obtain ⟨s, c, room, sz, n, r, events, hs, ha, hk⟩ := h.stop_eq ht hw event o
  rw [hk]
  refine ((h.release ⟨w, ht, hs, .inl hw⟩ (ho.record (h.ids t w ht))).takeIdle n).congr rfl rfl
    ?_ ?_ rfl
  · exact List.erase_of_not_mem (h.notMem_bq (by simp [ha]))
  · exact Function.update_idem ..

/-! ### The callbacks -/

theorem Inv.workerTimeout (h : k.Inv) (ht : k.worker t = some w) : (k.workerTimeout t).Inv := by
  rcases h.workerTimeout_eq ht with ⟨hp, -, hk⟩ | ⟨hst, hk⟩ | ⟨-, -, hk⟩ <;> rw [hk]
  · exact h.workerEventIdle hp
  · exact h.update ht (by simp [hst, Status.isIdle]) (by simp [hst, Status.onCpu])
      (by simp [hst]) (by simp) rfl
  · exact h.update ht rfl rfl .rfl (fun _ => ⟨rfl, rfl⟩) rfl

/-- The server `s`, which waits for the worker `t`, returns: `t` is not blocked any longer. -/
def endWait (k : Kernel) (s t : Int32) (w : Worker) : Kernel :=
  ((k.set t { w with status := .runnable }).finish s (.value 0) []).addRefs s (-1)

/-- The system call of a blocked worker is over: a server that waits for the worker returns, and the
worker joins the idle ones. -/
theorem Inv.woken_eq (h : k.Inv) (ht : k.worker t = some w) (hst : w.status = .blocked) (now : ℕ) :
    ∃ k₁, k₁.Inv ∧ k₁.CanPost t { w with status := .idle false, event := .wake } ∧
      (k₁ = k ∨ ∃ s, k.action s = some (.waitWorker t) ∧ k₁ = k.endWait s t w) ∧
      k.workerScheduleReturn t now =
        k₁.workerEventIdle t { w with status := .idle false } .wake := by
  have hid := h.ids t w ht
  have ha := h.action_of_worker ht
  simp only [workerScheduleReturn, ht, hst, if_true]
  rcases Option.eq_none_or_eq_some w.server_bq with hbq | ⟨s, hbq⟩
  · refine ⟨k, h, ⟨rfl, hid, fun v hv => ?_, ha, fun s hs => ?_⟩, .inl rfl, ?_⟩
    · rw [← Option.some.inj (ht.symm.trans hv), hst]
      exact ⟨rfl, rfl⟩
    · obtain ⟨v, hv, -, hv'⟩ := h.waitingFor s t hs
      rw [← Option.some.inj (ht.symm.trans hv), hbq] at hv'
      cases hv'
    · rw [if_neg (by simp [hbq]), workerEventIdle_set]
  · have hs := h.blocked t w s ht hst hbq
    have hts : t ≠ s := by
      rintro rfl
      simp [ha] at hs
    -- the server that waits for the worker finds that it is not blocked any longer
    have hwake : (k.set t { w with status := .idle false }).wakeAndRelease w.server_bq =
        (k.endWait s t w).set t { w with status := .idle false } := by
      rw [hbq, wakeAndRelease,
        wakeThread_eq (k := k.set t _) (a := .waitWorker t) hs rfl]
      simp [runAction, serverWaitWorkerBh, endWait, set, finish, addRefs, hs]
    have hrel : (k.endWait s t w).Inv := by
      refine (h.release (t := t) (o := some { w with status := .runnable })
        ⟨w, ht, hbq, .inr hst⟩ ?_).congr rfl rfl ?_ rfl rfl
      · rintro u ⟨⟩
        exact ⟨rfl, rfl, by simp, hid⟩
      · exact List.erase_of_not_mem (h.notMem_bq (by simp [hs]))
    refine ⟨k.endWait s t w, hrel, hrel.canPost hid rfl ?_ fun v hv => .inl ?_,
      .inr ⟨s, hs, rfl⟩, ?_⟩
    · simpa [endWait, finish, addRefs, set, hts] using ha
    · obtain rfl : { w with status := .runnable } = v := by
        simpa [endWait, set, finish, addRefs] using hv
      rfl
    · rw [if_pos (by simp [hbq]), hwake, workerEventIdle_set]

theorem Inv.woken (h : k.Inv) (ht : k.worker t = some w) (hst : w.status = .blocked) (now : ℕ) :
    (k.workerScheduleReturn t now).Inv := by
  obtain ⟨k₁, h₁, hp, -, hk⟩ := h.woken_eq ht hst now
  rw [hk]
  exact h₁.workerEventIdle hp

/-! ### The system call -/

theorem Inv.unregister (h : k.Inv) (ht : ∀ w, k.worker t = some w → w.status.onCpu = true) :
    (k.unregister t).Inv := by
  cases hw : k.worker t with
  | none => simpa only [Kernel.unregister, hw] using h
  | some w =>
    have hidle : t ∉ k.idle_workers := by
      intro hmem
      obtain ⟨v, hv, hi⟩ := (h.mem_idle t).mp hmem
      obtain rfl : w = v := Option.some.inj (hw.symm.trans hv)
      have hcpu := ht w hw
      cases hst : w.status <;> simp_all [Status.onCpu, Status.isIdle]
    have hstop := h.stop hw (ht w hw) .exit
    obtain ⟨s, c, room, sz, n, r, events, -, -, hk⟩ := h.stop_eq hw (ht w hw) .exit none
    have hsub : t ∉ (k.stop t w .exit none).idle_workers := by
      rw [hk]
      exact fun hmem => hidle (List.mem_of_mem_drop hmem)
    simp only [Kernel.unregister, hw]
    refine hstop.congr rfl rfl rfl rfl ?_
    have hsafe := hstop.safe
    simp only [Kernel.stop] at hsafe hsub ⊢
    simp [hsafe, hsub]

theorem Inv.handOver (h : k.Inv) (ht : k.worker t = some w) (hw : w.status.onCpu = true)
    {n : Int32} {next : Worker} (hn : k.worker n = some next) (hst : next.status = .runnable)
    (now : ℕ) (tmr : Bool) : (k.handOver t w n next now tmr).Inv := by
  obtain ⟨hrun, hp, hk⟩ := h.handOver_eq ht hw hn hst now tmr
  rw [hk]
  exact hrun.workerEventIdle hp

/-- A call of `umcg_ctl` keeps the invariant. -/
theorem Inv.ctlMove (h : k.Inv) {a : Args} {now : ℕ} (ht : k.Executing t)
    (hwait : a.cmd = some .wait → a.next_tid ≠ 0 →
      (k.worker a.next_tid).all Worker.awaitable = true)
    (hk : k.CtlMove t a now k') : k'.Inv := by
  cases hk with
  | refused | accepted => exact h.ret ..
  | fetched => exact (h.takeIdle _).ret ..
  | flagged => exact h.congr rfl rfl rfl rfl rfl
  | slept _ hs => exact h.sleepWait hs ht.action ..
  | waitedFor hs hcmd hnext hw =>
    have hok := hwait hcmd hnext
    rw [hw, Option.all_some] at hok
    exact h.waitFor hs ht.action hw hok
  | registered _ hs hid => exact (h.post (h.canRegister ht.action hs hid)).wakeServer
  | unregistered => exact (h.unregister ht.onCpu).ret ..
  | woke =>
    exact (Inv.wakeServer (k := { k with wake_idle_server := true })
      (h.congr rfl rfl rfl rfl rfl)).ret ..
  | wokeNone => exact h.congr rfl rfl rfl rfl rfl
  | waited _ hw tmr => exact h.stop hw (ht.onCpu _ hw) (.wait tmr)
  | switched _ hs hw hst => exact h.switchTo hs ht.action hw hst ..
  | handedOver _ hw hn hst tmr => exact h.handOver hw (ht.onCpu _ hw) hn hst now tmr

/-- Every proper call keeps the invariant. -/
theorem Inv.step (h : k.Inv) {c : Call} (hc : k.Proper c) (hk : k.step c = some k') : k'.Inv := by
  cases move_of_step hk with
  | ctl ht _ hk => exact h.ctlMove ht hc hk
  | resumed => exact h.congr rfl rfl rfl rfl rfl
  | paused ht hw =>
    exact h.update ht (by simp [hw, Status.isIdle]) (by simp [hw, Status.onCpu]) (by simp [hw])
      (fun _ => ⟨rfl, rfl⟩) rfl
  | blocked ht hw => exact h.stop ht (by simp [hw, Status.onCpu]) .block
  | preempted ht hw => exact h.stop ht hw .preempt
  | @returned t now w ht hw =>
    refine h.update ht ?_ hw.symm ?_ (fun _ => ⟨rfl, rfl⟩) rfl
    · cases hst : w.status <;> simp_all [Status.onCpu, Status.isIdle]
    · cases hst : w.status <;> simp_all [Status.onCpu]
  | woken ht hw => exact h.woken ht hw _
  | expired ht => exact h.workerTimeout ht
  | timedOut hs => exact h.finishWait hs ..
  | @nullified s a hs =>
    have hwait : a.isWait = true := by simpa [Proper, hs] using hc
    cases a with
    | wait ts room sz => exact h.finishWait hs ..
    | _ => cases hwait
  | spawned => exact h.congr rfl rfl rfl rfl rfl
  | exited => exact (h.unregister (onCpu_of_proper hc)).congr rfl rfl rfl rfl rfl

/-- After every sequence of proper calls the invariant holds. -/
theorem inv_of_run {l : List Call} {n : ℕ} (hrun : Run (Guarded step Proper) (init n) l k) :
    k.Inv :=
  hrun.invariant (init_inv n) fun _ _ _ h hs => h.step hs.1 hs.2

end AtOnce

/-! ### Results -/

open scoped Fifo

/-- The thread 2 registers as a worker, and the server 1 waits for it and switches to it. -/
def firstSwitch : List Call :=
  [.spawn 1, .spawn 2, .ctl 2 (.registerWorker 64) 0 true, .ctl 1 (.serverWait 0 2 2) 0 true,
    .resume 1, .ctl 1 (.ctxSwitch 2) 0 true]

/-- The calls with which the worker `t` blocks, is preempted, waits, unregisters or ends. -/
def Reports (k : Kernel) (t : Int32) : Call → Prop
  | .syscallPause u | .exit u => u = t
  | .scheduleReturn u now =>
    u = t ∧ ∀ w, k.worker t = some w → w.start_time + k.preempt_interval ≤ now
  | .ctl u a _ _ => u = t ∧ a.flags = 0 ∧ a.hasTarget = false ∧
    (a.cmd = some .wait ∨ a.cmd = some .unregister ∧ a.abs_timeout = 0)
  | _ => False

/-- The event of a worker whose context switch is gone is stored into freed memory. -/
theorem corrupt_workerEventToServer [Blockq] [Blockq.AtOnce] (hbq : w.server_bq = some s) {c : ℕ}
    (hevent : w.server_event = some (s, c)) (ha : k.action s = none) (event : UmcgEventType) :
    (k.workerEventToServer w event).corrupt = true := by
  have hcorrupt : k.storeEvent w event = { k with corrupt := true } := by
    simp [storeEvent, hevent, ha]
  rw [workerEventToServer, hcorrupt, hbq, wakeAndRelease,
    wakeThread_of_none (k := { k with corrupt := true }) ha]
  rfl

/-- A worker whose context switch is gone reports an event. -/
theorem corrupt_of_reports [Blockq] [Blockq.AtOnce] (ht : k.worker t = some w)
    (hw : w.status.onCpu = true) (hbq : w.server_bq = some s) {c : ℕ}
    (hevent : w.server_event = some (s, c)) (ha : k.action s = none) {x : Call}
    (hx : k.Reports t x) (hk : k.step x = some k') : k'.corrupt = true := by
  have hunregister : (k.unregister t).corrupt = true := by
    simp only [Kernel.unregister, ht]
    exact (Bool.or_eq_true _ _).mpr (.inl (corrupt_workerEventToServer (k :=
      { k with worker := Function.update k.worker t none }) hbq hevent ha .exit))
  cases x with
  | syscallPause u =>
    obtain rfl : u = t := hx
    simp only [Kernel.step] at hk
    split_ifs at hk with hst
    cases hk
    have hpaused : w.status = .paused := by simpa [status, ht] using hst.1
    simp only [syscallPause, ht, hpaused, if_true]
    exact corrupt_workerEventToServer (k := k.set u _) (w := w) hbq hevent ha .block
  | exit u =>
    obtain rfl : u = t := hx
    simp only [Kernel.step] at hk
    split_ifs at hk
    cases hk
    exact hunregister
  | scheduleReturn u now =>
    obtain ⟨rfl, hnow⟩ := hx
    have hk' : k' = k.workerScheduleReturn u now := by
      simp only [Kernel.step] at hk
      split at hk <;> simp_all
    have hblocked : w.status ≠ .blocked := by
      rintro hst
      simp [hst, Status.onCpu] at hw
    simp only [hk', workerScheduleReturn, ht, if_neg hblocked, if_pos (hnow w ht)]
    exact corrupt_workerEventToServer (k := k.set u _) (w := { w with status := .runnable }) hbq
      hevent ha .preempt
  | ctl u a now memory =>
    obtain ⟨rfl, hflags, htarget, hcmd⟩ := hx
    simp only [Kernel.step] at hk
    split_ifs at hk
    cases hk
    rcases hcmd with hcmd | ⟨hcmd, htimeout⟩
    · have hargs : ¬ (a.next_tid ≠ 0 ∨ a.events.isSome ∨ a.event_sz ≠ 0) := by
        simpa [Args.hasTarget, and_assoc] using htarget
      simp only [ctl, hcmd, hflags, wait, ht, if_neg hargs]
      exact corrupt_workerEventToServer (k := k.set u _) (w := { w with
        status := .waiting, tmr := _, sysret := _ }) hbq hevent ha .wait
    · simpa [ctl, hcmd, hflags, htimeout, htarget, ret] using hunregister
  | _ => cases hx

end Kernel

end Umcg.Klib
