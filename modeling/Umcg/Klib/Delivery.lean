import Mathlib.Data.List.TakeWhile
import Umcg.Klib.Safety

/-!
# Events reach idle servers

The events of idle workers are fetched from the front of the list and written into the buffer of a
server, one word after the other, up to a zero. With a buffer that can be written, nothing is lost
on the way: what was pending is what the server reads and what is pending afterwards
(`Inv.getEvents`). An idle server goes to sleep only when nothing is pending, and each event that
arrives wakes a server. So as long as all buffers can be written, no server sleeps while an event is
pending, in any state of any run (`no_sleep_while_pending`).
-/

namespace Umcg.Klib

namespace Kernel

variable {k k' : Kernel} {t s : Int32} {w : Worker} {room sz n : ℕ}

/-- The words of the events that wait for a server. -/
def pending (k : Kernel) : List UInt64 := pendingWords k.worker k.idle_workers

theorem mem_eventWords (hid : workerId w.id = w.id) {e : UInt64} (he : e ∈ eventWords w) :
    e ≠ 0 ∧ workerId e = w.id := by
  have hword : ∀ ev, eventWord w.id ev ≠ 0 ∧ workerId (eventWord w.id ev) = w.id := fun ev =>
    ⟨ne_zero_of_eventType (eventType_eventWord hid ev), workerId_eventWord hid ev⟩
  unfold eventWords at he
  split_ifs at he
  · rcases List.mem_pair.mp he with rfl | rfl <;> exact hword _
  · rw [List.mem_singleton.mp he]
    exact hword _

theorem pendingWords_append (worker : Int32 → Option Worker) (l l' : List Int32) :
    pendingWords worker (l ++ l') = pendingWords worker l ++ pendingWords worker l' :=
  List.flatMap_append

theorem pendingWords_congr {worker worker' : Int32 → Option Worker} {l : List Int32}
    (h : ∀ t ∈ l, worker' t = worker t) : pendingWords worker' l = pendingWords worker l :=
  List.flatMap_congr fun t ht => by rw [h t ht]

/-- The words of the pending events are words of registered workers. -/
theorem Inv.mem_pendingWords (h : k.Inv) {l : List Int32} {e : UInt64}
    (he : e ∈ pendingWords k.worker l) :
    e ≠ 0 ∧ ∃ t w, k.worker t = some w ∧ workerId e = w.id := by
  obtain ⟨t, -, he⟩ := List.mem_flatMap.mp he
  cases hw : k.worker t with
  | none => simp [hw] at he
  | some w =>
    have hmem := mem_eventWords (h.ids t w hw) (e := e) (by simpa [hw] using he)
    exact ⟨hmem.1, t, w, hw, hmem.2⟩

/-- What was pending has been taken or is pending. -/
theorem Inv.pending_takeIdle (h : k.Inv) (n : ℕ) :
    pendingWords k.worker (k.idle_workers.take n) ++ (k.takeIdle n).pending = k.pending := by
  have hrest : (k.takeIdle n).pending = pendingWords k.worker (k.idle_workers.drop n) :=
    pendingWords_congr fun t ht => setRunnable_of_notMem fun ht' =>
      List.disjoint_take_drop h.idle_nodup (Nat.le_refl n) ht' ht
  rw [hrest, ← pendingWords_append, List.take_append_drop]
  rfl

theorem Inv.worker_ne_none (h : k.Inv) : ∀ t ∈ k.idle_workers, k.worker t ≠ none := by
  intro t ht
  obtain ⟨w, hw, -⟩ := (h.mem_idle t).mp ht
  simp [hw]

/-- With room for `event_sz` words, the server reads, up to the first zero, the words of the workers
that leave the list, and some are left only if the buffer is full up to this zero. -/
theorem Inv.getEvents (h : k.Inv) (hroom : sz ≤ room) :
    ∃ n events, k.serverGetEvents room sz =
        (k.takeIdle n, .value (pendingWords k.worker (k.idle_workers.take n)).length, events) ∧
      events.takeWhile (· ≠ 0) ++ (k.takeIdle n).pending = k.pending ∧
      ((k.takeIdle n).idle_workers ≠ [] →
        sz ≤ (pendingWords k.worker (k.idle_workers.take n)).length + 1) := by
  obtain ⟨n, words, rfl, hget, hrest⟩ := serverGetEvents_words h.idle_nodup h.worker_ne_none hroom
  refine ⟨n, _, hget, ?_, hrest⟩
  have hne : ∀ e ∈ pendingWords k.worker (k.idle_workers.take n), e ≠ 0 :=
    fun e he => (h.mem_pendingWords he).1
  rw [← h.pending_takeIdle n]
  congr 1
  split_ifs
  · rw [List.takeWhile_append_of_pos (by simpa using hne)]
    simp
  · exact List.takeWhile_eq_self_iff.mpr (by simpa using hne)

/-- With room for two words, a server that returns nothing has left nothing, and one that returns
something has left nothing of a single event. -/
theorem Inv.getEvents_idle (h : k.Inv) (hsz : 2 ≤ sz) (hroom : sz ≤ room) :
    ∃ n rv events, k.serverGetEvents room sz = (k.takeIdle n, .value rv, events) ∧
      (rv = 0 ↔ k.idle_workers = []) ∧
      (k.idle_workers.length ≤ 1 → (k.takeIdle n).idle_workers = []) := by
  obtain ⟨n, events, hget, -, hrest⟩ := h.getEvents hroom
  have hnil : k.idle_workers.take n = [] → k.idle_workers = [] := by
    intro htake
    by_contra hne
    have hdrop : k.idle_workers.drop n = k.idle_workers := by
      simpa [htake] using List.take_append_drop n k.idle_workers
    have hlen := hrest (by change k.idle_workers.drop n ≠ []; rwa [hdrop])
    simp only [htake, pendingWords, List.flatMap_nil, List.length_nil] at hlen
    omega
  refine ⟨n, _, events, hget, ⟨fun hrv => hnil ?_, fun hidle => by simp [hidle, pendingWords]⟩,
    fun hlen => ?_⟩
  · -- a worker that is taken gives at least one word
    rcases hl : k.idle_workers.take n with _ | ⟨t, l⟩
    · rfl
    · obtain ⟨w, hw, -⟩ := (h.mem_idle t).mp (List.mem_of_mem_take (hl ▸ List.mem_cons_self))
      rw [hl, List.length_eq_zero_iff] at hrv
      simp [pendingWords, hw, eventWords_ne_nil] at hrv
  · rcases Nat.eq_zero_or_pos n with rfl | hn
    · simpa using hnil (by simp)
    · exact List.drop_eq_nil_of_le (by omega)

/-! ### No server sleeps while an event is pending -/

/-- Every buffer that is passed to `Wait` has room for `event_sz` words. -/
def Mapped : Call → Prop
  | .ctl _ a _ _ => a.cmd = some .wait → a.size ≤ a.events.getD 0
  | _ => True

instance : (c : Call) → Decidable (Mapped c)
  | .ctl _ a _ _ =>
    inferInstanceAs (Decidable (a.cmd = some .wait → a.size ≤ a.events.getD 0))
  | .resume _ | .pause _ | .syscallPause _ | .scheduleReturn _ _ | .timeout _ | .timedOut _
  | .nullify _ | .spawn _ | .exit _ => inferInstanceAs (Decidable True)

/-- No server sleeps while an event is pending or `Wake` was called. -/
structure Awake (k : Kernel) : Prop where
  buffers : ∀ s ts room sz, k.action s = some (.wait ts room sz) → 2 ≤ sz ∧ sz ≤ room
  idle : k.server_bq ≠ [] → k.idle_workers = []
  flag : k.wake_idle_server = false

/-- No server falls asleep and no event arrives. -/
theorem Awake.mono (h : k.Awake)
    (haction : ∀ s ts room sz, k'.action s = some (.wait ts room sz) →
      k.action s = some (.wait ts room sz))
    (hbq : k'.server_bq ≠ [] → k.server_bq ≠ [])
    (hidle : k.idle_workers = [] → k'.idle_workers = [])
    (hflag : k'.wake_idle_server = k.wake_idle_server) : k'.Awake where
  buffers s ts room sz hs := h.buffers s ts room sz (haction s ts room sz hs)
  idle hne := hidle (h.idle (hbq hne))
  flag := hflag.trans h.flag

theorem Awake.congr (h : k.Awake) (ha : k'.action = k.action) (hb : k'.server_bq = k.server_bq)
    (hi : k'.idle_workers = k.idle_workers) (hf : k'.wake_idle_server = k.wake_idle_server) :
    k'.Awake :=
  h.mono (by simp [ha]) (by simp [hb]) (by simp [hi]) hf

theorem init_awake (n : ℕ) : (init n).Awake := by
  constructor <;> simp [init]

/-- A `Wait` for one worker. -/
theorem Awake.waitFor (h : k.Awake) (s t : Int32) (w : Worker) : (k.waitFor s t w).Awake := by
  have hwait : ∀ x a, Function.update k.action s (some (.waitWorker t)) x = some a →
      a.isWait = true → k.action x = some a := by
    intro x a hx ha
    rcases update_eq_some hx with ⟨-, ⟨⟩⟩ | ⟨-, hx⟩
    · cases ha
    · exact hx
  simp only [Kernel.waitFor, serverWaitWorkerBh, sleep, addRefs, set, Function.update_self]
  split_ifs
  · exact h.mono (fun x ts room sz hx => hwait x _ hx rfl) id id rfl
  · refine h.mono (fun x ts room sz hx => ?_) (fun hne hnil => hne (by simp [finish, hnil])) id rfl
    rcases update_eq_some hx with ⟨-, ⟨⟩⟩ | ⟨-, hx⟩
    exact hwait x _ hx rfl

section AtOnce

variable [Blockq] [Blockq.AtOnce]

/-- A wake-up after an event has arrived or the flag was set; `k` is the state before. -/
theorem Awake.wakeServer (h : k.Awake) (hinv : k'.Inv) (haction : k'.action = k.action)
    (hbq : k'.server_bq = k.server_bq)
    (hnew : (∃ t, k'.idle_workers = k.idle_workers ++ [t]) ∧ k'.wake_idle_server = false ∨
      k'.idle_workers = k.idle_workers ∧ k'.server_bq ≠ []) :
    k'.wakeServer.1.Awake := by
  have hbuffers : ∀ s ts room sz, k'.action s = some (.wait ts room sz) → 2 ≤ sz ∧ sz ≤ room := by
    rw [haction]
    exact h.buffers
  by_cases hne : k'.server_bq = []
  · rw [wakeServer_of_nil hne]
    exact ⟨hbuffers, by simp [hne], (hnew.resolve_right (by simp [hne])).2⟩
  · obtain ⟨s, hs, hwake⟩ := wakeServer_of_ne_nil hne
    obtain ⟨ts, room, sz, ha⟩ := (hinv.mem_bq s).mp hs
    obtain ⟨hsz, hroom⟩ := hbuffers s ts room sz ha
    obtain ⟨n, rv, events, hget, hzero, hone⟩ := hinv.getEvents_idle hsz hroom
    have hidle : k.idle_workers = [] := h.idle (hbq ▸ hne)
    have hempty : (k'.takeIdle n).idle_workers = [] := hone (by
      rcases hnew with ⟨⟨t, ht⟩, -⟩ | ⟨ht, -⟩ <;> simp [ht, hidle])
    have hfinish : ∀ (u : Kernel) (r : Sysreturn) (ev : List UInt64), u.action = k'.action →
        u.idle_workers = [] → u.wake_idle_server = false → (u.finish s r ev).Awake := by
      intro u r ev hu hi hf
      refine ⟨fun x ts room sz hx => ?_, fun _ => hi, hf⟩
      rcases update_eq_some hx with ⟨-, ⟨⟩⟩ | ⟨-, hx⟩
      exact hbuffers x ts room sz (hu ▸ hx)
    simp only [hwake, runAction, ha, serverWaitBh, hget]
    rcases rv with _ | rv
    · have hnil : k'.idle_workers = [] := hzero.mp rfl
      by_cases hflag : k'.wake_idle_server = true
      · simp only [takeIdle, hflag, if_true]
        exact hfinish _ _ _ rfl (by simp [hnil]) rfl
      · simp only [takeIdle, hflag]
        exact ⟨hbuffers, fun _ => by simp [hnil], by simp⟩
    · refine hfinish _ _ _ rfl hempty ?_
      rcases hnew with ⟨-, hflag⟩ | ⟨hidle', -⟩
      · exact hflag
      · exact absurd (hzero.mpr (hidle'.trans hidle)) (by simp)

/-- A worker that stops ends the context switch of its server, which may have fetched events. -/
theorem Awake.stop (h : k.Awake) (hinv : k.Inv) (ht : k.worker t = some w)
    (hw : w.status.onCpu = true) (event : UmcgEventType) (o : Option Worker) :
    (k.stop t w event o).Awake := by
  obtain ⟨s, c, room, sz, n, r, events, -, ha, hk⟩ := hinv.stop_eq ht hw event o
  rw [hk]
  refine h.mono (fun x ts room' sz' hx => ?_) (fun hne hnil => hne ?_) (fun hidle => ?_) rfl
  · rcases update_eq_some hx with ⟨-, ⟨⟩⟩ | ⟨hxs, hx⟩
    rcases update_eq_some hx with ⟨-, ⟨⟩⟩ | ⟨-, hx⟩
    exact hx
  · simp [finish, takeIdle, sleep, addRefs, hnil]
  · simp [finish, takeIdle, sleep, addRefs, hidle]

theorem Awake.unregister (h : k.Awake) (hinv : k.Inv)
    (ht : ∀ w, k.worker t = some w → w.status.onCpu = true) : (k.unregister t).Awake := by
  cases hw : k.worker t with
  | none => simpa only [Kernel.unregister, hw] using h
  | some w =>
    simp only [Kernel.unregister, hw]
    exact (h.stop hinv hw (ht w hw) .exit none).congr rfl rfl rfl rfl

/-- A worker joins the idle ones. -/
theorem Awake.workerEventIdle (h : k.Awake) (hinv : k.Inv) {event : UmcgEventType}
    (hp : k.CanPost t { w with event := event }) : (k.workerEventIdle t w event).Awake :=
  h.wakeServer (hinv.post hp) rfl rfl (.inl ⟨⟨t, rfl⟩, h.flag⟩)

/-- A call of `umcg_ctl` with a buffer that can be written. -/
theorem Awake.ctlMove (h : k.Awake) (hinv : k.Inv) {a : Args} {now : ℕ} (ht : k.Executing t)
    (hmapped : a.cmd = some .wait → a.size ≤ a.events.getD 0) (hk : k.CtlMove t a now k') :
    k'.Awake := by
  cases hk with
  | refused | accepted => exact h.congr rfl rfl rfl rfl
  | fetched =>
    exact h.mono (fun _ _ _ _ hx => hx) id (fun hidle => by simp [ret, takeIdle, hidle]) rfl
  | flagged _ _ hflag => simp [h.flag] at hflag
  | slept hcmd hs hsz hflag hget =>
    obtain ⟨n, rv, events, hget', hzero, -⟩ := hinv.getEvents_idle hsz (hmapped hcmd)
    have hidle : k.idle_workers = [] := by
      rw [hget] at hget'
      exact hzero.mp (by simpa using (congrArg (fun x => x.2.1) hget').symm)
    refine ⟨fun x ts room sz hx => ?_, fun _ => hidle, hflag⟩
    rcases update_eq_some hx with ⟨-, ⟨⟩⟩ | ⟨-, hx⟩
    · exact ⟨hsz, hmapped hcmd⟩
    · exact h.buffers x ts room sz hx
  | waitedFor => exact h.waitFor ..
  | registered _ hs hid =>
    exact h.wakeServer (hinv.post (hinv.canRegister ht.action hs hid)) rfl rfl
      (.inl ⟨⟨t, rfl⟩, h.flag⟩)
  | unregistered => exact (h.unregister hinv ht.onCpu).congr rfl rfl rfl rfl
  | woke _ hbq =>
    have hset : ({ k with wake_idle_server := true } : Kernel).Inv :=
      hinv.congr rfl rfl rfl rfl rfl
    exact (h.wakeServer hset rfl rfl (.inr ⟨rfl, hbq⟩)).congr rfl rfl rfl rfl
  | wokeNone => exact h.congr rfl rfl rfl h.flag.symm
  | waited _ hw => exact h.stop hinv hw (ht.onCpu _ hw) _ _
  | switched =>
    refine h.mono (fun x ts room sz hx => ?_) id id rfl
    rcases update_eq_some hx with ⟨-, ⟨⟩⟩ | ⟨-, hx⟩
    exact hx
  | handedOver _ hw hn hst tmr =>
    obtain ⟨hrun, hp, hk⟩ := hinv.handOver_eq hw (ht.onCpu _ hw) hn hst now tmr
    rw [hk]
    refine Awake.workerEventIdle ?_ hrun hp
    exact h.congr rfl rfl rfl rfl

theorem Awake.step (h : k.Awake) (hinv : k.Inv) {c : Call} (hc : k.Proper c) (hm : Mapped c)
    (hk : k.step c = some k') : k'.Awake := by
  have hfinish : ∀ (s : Int32) (r : Sysreturn), (k.finish s r []).Awake := fun s r => by
    refine h.mono (fun x ts room sz hx => ?_) (fun hne hnil => hne (by simp [finish, hnil])) id rfl
    rcases update_eq_some hx with ⟨-, ⟨⟩⟩ | ⟨-, hx⟩
    exact hx
  cases move_of_step hk with
  | ctl ht _ hk => exact h.ctlMove hinv ht hm hk
  | blocked ht hw => exact h.stop hinv ht (by simp [hw, Status.onCpu]) _ _
  | preempted ht hw => exact h.stop hinv ht hw _ _
  | @woken t now w ht hw =>
    obtain ⟨k₁, h₁, hp, hcase, hk⟩ := hinv.woken_eq ht hw now
    rw [hk]
    refine Awake.workerEventIdle ?_ h₁ hp
    rcases hcase with rfl | ⟨s, hs, rfl⟩
    · exact h
    · exact (hfinish s (.value 0)).congr rfl rfl rfl rfl
  | expired ht =>
    rcases hinv.workerTimeout_eq ht with ⟨hp, -, hk⟩ | ⟨-, hk⟩ | ⟨-, -, hk⟩ <;> rw [hk]
    · exact h.workerEventIdle hinv hp
    · exact h.congr rfl rfl rfl rfl
    · exact h.congr rfl rfl rfl rfl
  | timedOut => exact hfinish _ _
  | nullified => exact hfinish _ _
  | exited => exact (h.unregister hinv (onCpu_of_proper hc)).congr rfl rfl rfl rfl
  | _ => exact h.congr rfl rfl rfl rfl

theorem inv_awake_of_run {n : ℕ} {l : List Call}
    (hrun : Run (Guarded step fun k c => k.Proper c ∧ Mapped c) (init n) l k) :
    k.Inv ∧ k.Awake :=
  hrun.invariant (I := fun k => k.Inv ∧ k.Awake) ⟨init_inv n, init_awake n⟩ fun _ _ _ h hs =>
    ⟨h.1.step hs.1.1 hs.2, h.2.step h.1 hs.1.1 hs.1.2 hs.2⟩

end AtOnce

open scoped Fifo

/-- The server 1 sleeps; the first worker wakes it, and the second one finds it gone. -/
def twoWorkers : List Call :=
  [.spawn 1, .spawn 2, .spawn 3, .ctl 1 (.serverWait 0 2 2) 0 true,
    .ctl 2 (.registerWorker 64) 0 true, .ctl 3 (.registerWorker 96) 0 true]

end Kernel

end Umcg.Klib
