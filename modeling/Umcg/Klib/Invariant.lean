import Umcg.Foundation.Table
import Umcg.Klib.Moves

/-!
# The invariant of the kernel module

The status of a worker, the list of the idle workers and the sleeping servers are kept in three
places, and every call of the module changes at least two of them. `Kernel.Inv` says how they
belong together:

* the list holds exactly the workers whose status is `idle`, each once;
* a worker that executes is attached to a server that sleeps in a context switch, by both of its
  pointers, and every server in a context switch has exactly one such worker;
* a server sleeps in a `Wait` for one worker only while this worker is blocked, and then the worker
  has the block queue of this server.

It is kept by every call that `Kernel.Proper` allows: no signal interrupts a context switch, a
thread ends as a worker only while it executes, and no server waits for a worker that executes or
that another server waits for.
-/

namespace Umcg.Klib

namespace Kernel

/-- How the records, the list of the idle workers and the sleeping servers belong together. -/
structure Inv (k : Kernel) : Prop where
  idle_nodup : k.idle_workers.Nodup
  mem_idle : ∀ t, t ∈ k.idle_workers ↔ ∃ w, k.worker t = some w ∧ w.status.isIdle = true
  bq_nodup : k.server_bq.Nodup
  mem_bq : ∀ s, s ∈ k.server_bq ↔ ∃ ts room sz, k.action s = some (.wait ts room sz)
  server : ∀ s, k.action s ≠ none → k.worker s = none
  attached : ∀ t w, k.worker t = some w → w.status.onCpu = true → ∃ s c room sz,
    w.server_bq = some s ∧ w.server_event = some (s, c) ∧
      k.action s = some (.ctxSwitch c 0 room sz)
  switching : ∀ s c e room sz, k.action s = some (.ctxSwitch c e room sz) →
    ∃ t w, k.worker t = some w ∧ w.status.onCpu = true ∧ w.server_bq = some s
  single : ∀ t w t' w', k.worker t = some w → k.worker t' = some w' → w.status.onCpu = true →
    w'.status.onCpu = true → w.server_bq = w'.server_bq → t = t'
  waitingFor : ∀ s t, k.action s = some (.waitWorker t) →
    ∃ w, k.worker t = some w ∧ w.status = .blocked ∧ w.server_bq = some s
  blocked : ∀ t w s, k.worker t = some w → w.status = .blocked → w.server_bq = some s →
    k.action s = some (.waitWorker t)
  ids : ∀ t w, k.worker t = some w → workerId w.id = w.id
  safe : k.corrupt = false

theorem init_inv (n : ℕ) : (init n).Inv := by
  constructor <;> simp [init]

variable {k k' : Kernel} {t s : Int32} {w : Worker}

/-- The invariant does not depend on the rest of the state. -/
theorem Inv.congr (h : k.Inv) (hw : k'.worker = k.worker) (hi : k'.idle_workers = k.idle_workers)
    (hb : k'.server_bq = k.server_bq) (ha : k'.action = k.action) (hc : k'.corrupt = k.corrupt) :
    k'.Inv := by
  obtain ⟨h₁, h₂, h₃, h₄, h₅, h₆, h₇, h₈, h₉, h₁₀, h₁₁, h₁₂⟩ := h
  constructor <;> simp only [hw, hi, hb, ha, hc] <;> assumption

/-- The records after some idle workers were made runnable. -/
theorem setRunnable_eq_some {worker : Int32 → Option Worker} {l : List Int32}
    (h : setRunnable worker l t = some w) : ∃ v, worker t = some v ∧
      w = { v with status := w.status } ∧ (t ∈ l ∧ w.status = .runnable ∨ t ∉ l ∧ w = v) := by
  unfold setRunnable at h
  split_ifs at h with hl
  · obtain ⟨v, hv, rfl⟩ := Option.map_eq_some_iff.mp h
    exact ⟨v, hv, rfl, .inl ⟨hl, rfl⟩⟩
  · exact ⟨w, h, rfl, .inr ⟨hl, rfl⟩⟩

/-- Fetched events: the first idle workers become runnable and leave the list. -/
theorem Inv.takeIdle (h : k.Inv) (n : ℕ) : (k.takeIdle n).Inv := by
  -- only idle workers change, and only to runnable
  have hkeep : ∀ t w, k.worker t = some w → w.status.isIdle = false →
      (k.takeIdle n).worker t = some w := by
    intro t w ht hw
    refine (setRunnable_of_notMem fun hmem => ?_).trans ht
    obtain ⟨v, hv, hidle⟩ := (h.mem_idle t).mp (List.mem_of_mem_take hmem)
    rw [ht] at hv
    cases hv
    simp [hw] at hidle
  have hback : ∀ t w, (k.takeIdle n).worker t = some w → w.status ≠ .runnable →
      k.worker t = some w := by
    intro t w ht hw
    obtain ⟨v, hv, -, ⟨-, hr⟩ | ⟨-, rfl⟩⟩ := setRunnable_eq_some ht
    · exact absurd hr hw
    · exact hv
  have hcpu : ∀ t w, (k.takeIdle n).worker t = some w → w.status.onCpu = true →
      k.worker t = some w := by
    intro t w ht hw
    exact hback t w ht (by rintro hr; simp [hr, Status.onCpu] at hw)
  have hmem : ∀ t, t ∈ k.idle_workers.drop n ↔ t ∈ k.idle_workers ∧ t ∉ k.idle_workers.take n := by
    intro t
    have happend := List.take_append_drop n k.idle_workers
    have hdisj := List.disjoint_take_drop h.idle_nodup (Nat.le_refl n)
    constructor
    · exact fun ht => ⟨List.mem_of_mem_drop ht, fun ht' => hdisj ht' ht⟩
    · rintro ⟨ht, ht'⟩
      rw [← happend] at ht
      exact (List.mem_append.mp ht).resolve_left ht'
  refine ⟨h.idle_nodup.sublist (List.drop_sublist _ _), fun t => ?_, h.bq_nodup, h.mem_bq,
    fun s hs => ?_, fun t w ht hw => h.attached t w (hcpu t w ht hw) hw, fun s c e room sz hs => ?_,
    fun t w t' w' ht ht' hw hw' => h.single t w t' w' (hcpu t w ht hw) (hcpu t' w' ht' hw') hw hw',
    fun s t hs => ?_, fun t w s ht hw => h.blocked t w s (hback t w ht (by simp [hw])) hw,
    fun t w ht => ?_, h.safe⟩
  · change t ∈ k.idle_workers.drop n ↔ _
    rw [hmem, h.mem_idle]
    constructor
    · rintro ⟨⟨w, hw, hidle⟩, ht⟩
      exact ⟨w, (setRunnable_of_notMem ht).trans hw, hidle⟩
    · rintro ⟨w, hw, hidle⟩
      obtain ⟨v, hv, -, ⟨-, hr⟩ | ⟨ht, rfl⟩⟩ := setRunnable_eq_some hw
      · simp [hr, Status.isIdle] at hidle
      · exact ⟨⟨w, hv, hidle⟩, ht⟩
  · simp [Kernel.takeIdle, setRunnable, h.server s hs]
  · obtain ⟨t, w, ht, hw, hbq⟩ := h.switching s c e room sz hs
    refine ⟨t, w, hkeep t w ht ?_, hw, hbq⟩
    cases hst : w.status <;> simp_all [Status.onCpu, Status.isIdle]
  · obtain ⟨w, ht, hw, hbq⟩ := h.waitingFor s t hs
    exact ⟨w, hkeep t w ht (by simp [hw, Status.isIdle]), hw, hbq⟩
  · obtain ⟨v, hv, hvw, -⟩ := setRunnable_eq_some ht
    rw [hvw]
    exact h.ids t v hv

/-- The `Wait` of an idle server returns. -/
theorem Inv.finishWait (h : k.Inv) {ts room sz : ℕ} (ha : k.action s = some (.wait ts room sz))
    (r : Sysreturn) (events : List UInt64) : (k.finish s r events).Inv := by
  have hne : ∀ x a, (k.finish s r events).action x = some a → k.action x = some a ∧ x ≠ s := by
    intro x a hx
    rcases update_eq_some hx with ⟨-, hx⟩ | ⟨hxs, hx⟩
    · cases hx
    · exact ⟨hx, hxs⟩
  have hkeep : ∀ x a, k.action x = some a → (∀ ts room sz, a ≠ .wait ts room sz) →
      (k.finish s r events).action x = some a := by
    intro x a hx hwait
    refine update_keeps hx ?_
    rintro rfl
    rw [ha] at hx
    cases hx
    exact hwait _ _ _ rfl
  refine ⟨h.idle_nodup, h.mem_idle, h.bq_nodup.erase s, fun x => ?_, fun x hx => ?_,
    fun t w ht hw => ?_, fun x c e room sz hx => h.switching x c e room sz (hne x _ hx).1,
    h.single, fun x t hx => h.waitingFor x t (hne x _ hx).1, fun t w x ht hw hx => ?_, h.ids,
    h.safe⟩
  · change x ∈ k.server_bq.erase s ↔ _
    rw [h.bq_nodup.mem_erase_iff, h.mem_bq]
    constructor
    · rintro ⟨hxs, ts, room, sz, hx⟩
      exact ⟨ts, room, sz, update_keeps hx hxs⟩
    · rintro ⟨ts, room, sz, hx⟩
      exact ⟨(hne x _ hx).2, ts, room, sz, (hne x _ hx).1⟩
  · obtain ⟨a, hx⟩ := Option.ne_none_iff_exists'.mp hx
    exact h.server x (by simp [(hne x a hx).1])
  · obtain ⟨x, c, room, sz, hbq, hev, hx⟩ := h.attached t w ht hw
    exact ⟨x, c, room, sz, hbq, hev, hkeep x _ hx (by simp)⟩
  · exact hkeep x _ (h.blocked t w x ht hw hx) (by simp)

/-- A wake-up of the idle servers. -/
theorem Inv.wakeServer [Blockq] [Blockq.AtOnce] (h : k.Inv) : k.wakeServer.1.Inv := by
  rcases wakeServer_cases k with hk | ⟨s, n, flag, r, events, hs, hk⟩
  · rwa [hk]
  · obtain ⟨ts, room, sz, ha⟩ := (h.mem_bq s).mp hs
    rw [hk]
    exact ((h.takeIdle n).finishWait (s := s) ha r events).congr rfl rfl rfl rfl rfl

/-! ### Changes of one record -/

/-- The record of `t` changes within its kind of status. The pointers of a worker that executes or
is blocked do not change. -/
theorem Inv.update (h : k.Inv) {v : Worker} (ht : k.worker t = some v)
    (hidle : w.status.isIdle = v.status.isIdle) (hcpu : w.status.onCpu = v.status.onCpu)
    (hblocked : w.status = .blocked ↔ v.status = .blocked)
    (hptr : w.status.onCpu = true ∨ w.status = .blocked →
      w.server_bq = v.server_bq ∧ w.server_event = v.server_event)
    (hid : w.id = v.id) : (k.set t w).Inv := by
  -- every record has a counterpart with the same kind of status and the same pointers
  have hback : ∀ x u, (k.set t w).worker x = some u → ∃ u', k.worker x = some u' ∧
      u.status.isIdle = u'.status.isIdle ∧ u.status.onCpu = u'.status.onCpu ∧
      (u.status = .blocked ↔ u'.status = .blocked) ∧
      (u.status.onCpu = true ∨ u.status = .blocked →
        u.server_bq = u'.server_bq ∧ u.server_event = u'.server_event) ∧ u.id = u'.id := by
    intro x u hx
    rcases update_eq_some hx with ⟨rfl, ⟨⟩⟩ | ⟨-, hx⟩
    · exact ⟨v, ht, hidle, hcpu, hblocked, hptr, hid⟩
    · exact ⟨u, hx, rfl, rfl, .rfl, fun _ => ⟨rfl, rfl⟩, rfl⟩
  have hforth : ∀ x u', k.worker x = some u' → ∃ u, (k.set t w).worker x = some u ∧
      u.status.isIdle = u'.status.isIdle ∧ u.status.onCpu = u'.status.onCpu ∧
      (u.status = .blocked ↔ u'.status = .blocked) ∧
      (u.status.onCpu = true ∨ u.status = .blocked → u.server_bq = u'.server_bq) := by
    intro x u' hx
    by_cases hxt : x = t
    · subst hxt
      obtain rfl : v = u' := Option.some.inj (ht.symm.trans hx)
      exact ⟨w, Function.update_self .., hidle, hcpu, hblocked, fun hk => (hptr hk).1⟩
    · exact ⟨u', update_keeps hx hxt, rfl, rfl, .rfl, fun _ => rfl⟩
  refine ⟨h.idle_nodup, fun x => (h.mem_idle x).trans ⟨?_, ?_⟩, h.bq_nodup, h.mem_bq,
    fun x hx => ?_, fun x u hx hu => ?_, fun x c e room sz hx => ?_,
    fun x u y u' hx hy hu hu' hxy => ?_, fun x y hx => ?_, fun x u y hx hu huy => ?_,
    fun x u hx => ?_, h.safe⟩
  · rintro ⟨u, hu, hi⟩
    obtain ⟨u', hu', hi', -⟩ := hforth x u hu
    exact ⟨u', hu', hi' ▸ hi⟩
  · rintro ⟨u, hu, hi⟩
    obtain ⟨u', hu', hi', -⟩ := hback x u hu
    exact ⟨u', hu', hi' ▸ hi⟩
  · have hxt : x ≠ t := by
      rintro rfl
      simp [h.server x hx] at ht
    simpa [set, hxt] using h.server x hx
  · obtain ⟨u', hu', -, hc, -, hp, -⟩ := hback x u hx
    obtain ⟨hb, he⟩ := hp (.inl hu)
    rw [hb, he]
    exact h.attached x u' hu' (hc ▸ hu)
  · obtain ⟨y, u, hy, hu, hb⟩ := h.switching x c e room sz hx
    obtain ⟨u', hu', -, hc, -, hb'⟩ := hforth y u hy
    exact ⟨y, u', hu', hc ▸ hu, (hb' (.inl (hc ▸ hu))).trans hb⟩
  · obtain ⟨v₁, hv₁, -, hc₁, -, hp₁, -⟩ := hback x u hx
    obtain ⟨v₂, hv₂, -, hc₂, -, hp₂, -⟩ := hback y u' hy
    exact h.single x v₁ y v₂ hv₁ hv₂ (hc₁ ▸ hu) (hc₂ ▸ hu')
      (by rw [← (hp₁ (.inl hu)).1, ← (hp₂ (.inl hu')).1, hxy])
  · obtain ⟨u, hu, hs, hb⟩ := h.waitingFor x y hx
    obtain ⟨u', hu', -, -, hs', hb'⟩ := hforth y u hu
    exact ⟨u', hu', hs'.mpr hs, (hb' (.inr (hs'.mpr hs))).trans hb⟩
  · obtain ⟨u', hu', -, -, hs, hp, -⟩ := hback x u hx
    exact h.blocked x u' y hu' (hs.mp hu) ((hp (.inr hu)).1 ▸ huy)
  · obtain ⟨u', hu', -, -, -, -, hi⟩ := hback x u hx
    rw [hi]
    exact h.ids x u' hu'

/-- The worker `t` may join the idle ones with the record `w`: it is not one of them, it does not
execute, and no server waits for it. -/
structure CanPost (k : Kernel) (t : Int32) (w : Worker) : Prop where
  idle : w.status.isIdle = true
  id : workerId w.id = w.id
  stopped : ∀ v, k.worker t = some v → v.status.isIdle = false ∧ v.status.onCpu = false
  awake : k.action t = none
  unheld : ∀ s, k.action s ≠ some (.waitWorker t)

theorem Inv.post (h : k.Inv) (hp : k.CanPost t w) : (k.post t w).Inv := by
  obtain ⟨hw, hid, hnew, haction, hfor⟩ := hp
  have ht : t ∉ k.idle_workers := by
    intro hmem
    obtain ⟨v, hv, hi⟩ := (h.mem_idle t).mp hmem
    simp [(hnew v hv).1] at hi
  have hcpu : w.status.onCpu = false ∧ w.status ≠ .blocked := by
    cases hst : w.status <;> simp_all [Status.isIdle, Status.onCpu]
  -- a worker that executes or is blocked is another one
  have hexec : ∀ x u, (k.set t w).worker x = some u → u.status.onCpu = true →
      k.worker x = some u := by
    intro x u hx hu
    rcases update_eq_some hx with ⟨-, ⟨⟩⟩ | ⟨-, hx⟩
    · simp [hcpu.1] at hu
    · exact hx
  have hnodup : (k.idle_workers ++ [t]).Nodup := by
    refine List.nodup_append.mpr ⟨h.idle_nodup, List.nodup_singleton t, ?_⟩
    rintro x hx y hy rfl
    exact ht (List.mem_singleton.mp hy ▸ hx)
  refine ⟨hnodup, fun x => ?_, h.bq_nodup, h.mem_bq, fun x hx => ?_,
    fun x u hx hu => h.attached x u (hexec x u hx hu) hu, fun x c e room sz hx => ?_,
    fun x u y u' hx hy hu hu' => h.single x u y u' (hexec x u hx hu) (hexec y u' hy hu') hu hu',
    fun x y hx => ?_, fun x u y hx hu => ?_, fun x u hx => ?_, h.safe⟩
  · change x ∈ k.idle_workers ++ [t] ↔ ∃ u, (k.set t w).worker x = some u ∧ _
    by_cases hxt : x = t
    · subst hxt
      simp [set, hw]
    · simp [set, hxt, h.mem_idle]
  · have hxt : x ≠ t := by
      rintro rfl
      exact hx haction
    simpa [Kernel.post, set, hxt] using h.server x hx
  · obtain ⟨y, u, hy, hu, hb⟩ := h.switching x c e room sz hx
    refine ⟨y, u, update_keeps hy ?_, hu, hb⟩
    rintro rfl
    simp [(hnew u hy).2] at hu
  · obtain ⟨u, hu, hs, hb⟩ := h.waitingFor x y hx
    refine ⟨u, update_keeps hu ?_, hs, hb⟩
    rintro rfl
    exact hfor x hx
  · rcases update_eq_some hx with ⟨-, ⟨⟩⟩ | ⟨-, hx⟩
    · exact absurd hu hcpu.2
    · exact h.blocked x u y hx hu
  · rcases update_eq_some hx with ⟨-, ⟨⟩⟩ | ⟨-, hx⟩
    · exact hid
    · exact h.ids x u hx

/-! ### Changes of a sleeping server -/

/-- The server `s` sleeps because of the worker `t`: in a context switch, or in a `Wait` for it. -/
def Holds (k : Kernel) (s t : Int32) : Prop :=
  ∃ w, k.worker t = some w ∧ w.server_bq = some s ∧
    (w.status.onCpu = true ∨ w.status = .blocked)

/-- The server that sleeps because of `t` wakes up, and `t` stops, ends or is not blocked any
longer. -/
theorem Inv.release (h : k.Inv) (ht : k.Holds s t) {o : Option Worker}
    (ho : ∀ v, o = some v → v.status.onCpu = false ∧ v.status.isIdle = false ∧
      (v.status = .blocked → v.server_bq = none) ∧ workerId v.id = v.id) :
    { k with worker := Function.update k.worker t o
             action := Function.update k.action s none }.Inv := by
  obtain ⟨w, ht, hs, hw⟩ := ht
  have ha : (∃ c room sz, k.action s = some (.ctxSwitch c 0 room sz)) ∧ w.status.onCpu = true ∨
      k.action s = some (.waitWorker t) := by
    rcases hw with hw | hw
    · obtain ⟨s', c, room, sz, hs', -, ha⟩ := h.attached t w ht hw
      obtain rfl : s = s' := by simpa [hs] using hs'
      exact .inl ⟨⟨c, room, sz, ha⟩, hw⟩
    · exact .inr (h.blocked t w s ht hw hs)
  have hne : ∀ x a, Function.update k.action s none x = some a → k.action x = some a ∧ x ≠ s := by
    intro x a hx
    rcases update_eq_some hx with ⟨-, hx⟩ | ⟨hxs, hx⟩
    · cases hx
    · exact ⟨hx, hxs⟩
  have hcpu : ∀ x u, Function.update k.worker t o x = some u → u.status.onCpu = true →
      x ≠ t ∧ k.worker x = some u := by
    intro x u hx hu
    refine (update_eq_some hx).resolve_left ?_
    rintro ⟨-, hou⟩
    simp [(ho u hou).1] at hu
  refine ⟨h.idle_nodup, fun x => (h.mem_idle x).trans ⟨?_, ?_⟩, h.bq_nodup,
    fun x => (h.mem_bq x).trans ⟨?_, ?_⟩, fun x hx => ?_, fun x u hx hu => ?_,
    fun x c' e room' sz' hx => ?_, fun x u y u' hx hy hu hu' =>
      h.single x u y u' (hcpu x u hx hu).2 (hcpu y u' hy hu').2 hu hu', fun x y hx => ?_,
    fun x u y hx hu huy => ?_, fun x u hx => ?_, h.safe⟩
  · rintro ⟨u, hu, hi⟩
    have hxt : x ≠ t := by
      rintro rfl
      rw [ht] at hu
      cases hu
      cases hst : w.status <;> simp_all [Status.onCpu, Status.isIdle]
    exact ⟨u, update_keeps hu hxt, hi⟩
  · rintro ⟨u, hu, hi⟩
    rcases update_eq_some hu with ⟨-, hou⟩ | ⟨-, hu'⟩
    · simp [(ho u hou).2.1] at hi
    · exact ⟨u, hu', hi⟩
  · rintro ⟨ts, room', sz', hx⟩
    refine ⟨ts, room', sz', update_keeps hx ?_⟩
    rintro rfl
    rcases ha with ⟨⟨c, room, sz, ha⟩, -⟩ | ha <;> simp [ha] at hx
  · rintro ⟨ts, room', sz', hx⟩
    exact ⟨ts, room', sz', (hne x _ hx).1⟩
  · obtain ⟨a, hx⟩ := Option.ne_none_iff_exists'.mp hx
    have hx' := h.server x (by simp [(hne x a hx).1])
    have hxt : x ≠ t := by
      rintro rfl
      simp [hx'] at ht
    simpa [hxt] using hx'
  · obtain ⟨hxt, hx'⟩ := hcpu x u hx hu
    obtain ⟨y, c', room', sz', hb, he, hy⟩ := h.attached x u hx' hu
    refine ⟨y, c', room', sz', hb, he, update_keeps hy ?_⟩
    rintro rfl
    rcases ha with ⟨-, hw⟩ | ha
    · exact hxt (h.single x u t w hx' ht hu hw (hb.trans hs.symm))
    · simp [ha] at hy
  · obtain ⟨hx', hxs⟩ := hne x _ hx
    obtain ⟨y, u, hy, hu, hb⟩ := h.switching x c' e room' sz' hx'
    have hyt : y ≠ t := by
      rintro rfl
      rw [ht] at hy
      cases hy
      exact hxs (by simpa [hs, eq_comm] using hb)
    exact ⟨y, u, update_keeps hy hyt, hu, hb⟩
  · obtain ⟨hx', hxs⟩ := hne x _ hx
    obtain ⟨u, hu, hb, hbq⟩ := h.waitingFor x y hx'
    have hyt : y ≠ t := by
      rintro rfl
      rw [ht] at hu
      cases hu
      exact hxs (by simpa [hs, eq_comm] using hbq)
    exact ⟨u, update_keeps hu hyt, hb, hbq⟩
  · rcases update_eq_some hx with ⟨-, hou⟩ | ⟨hxt, hx'⟩
    · simp [(ho u hou).2.2.1 hu] at huy
    · have hy := h.blocked x u y hx' hu huy
      refine update_keeps hy ?_
      rintro rfl
      rcases ha with ⟨⟨c, room, sz, ha⟩, -⟩ | ha
      · simp [ha] at hy
      · exact hxt (by simpa [ha, eq_comm] using hy)
  · rcases update_eq_some hx with ⟨-, hou⟩ | ⟨-, hx'⟩
    · exact (ho u hou).2.2.2
    · exact h.ids x u hx'

/-- The server `s` switches to the worker `t`. -/
theorem Inv.attach (h : k.Inv) {v : Worker} (ht : k.worker t = some v)
    (hv : v.status = .runnable ∨ v.status = .waiting) (hs : k.worker s = none)
    (hs' : k.action s = none) (hw : w.status.onCpu = true) (hbq : w.server_bq = some s) {c : ℕ}
    (hevent : w.server_event = some (s, c)) (hid : w.id = v.id) (room sz : ℕ) :
    { k.set t w with
      action := Function.update k.action s (some (.ctxSwitch c 0 room sz)) }.Inv := by
  have hst : s ≠ t := by
    rintro rfl
    simp [hs] at ht
  have hwb : w.status ≠ .blocked ∧ w.status.isIdle = false := by
    cases hst : w.status <;> simp_all [Status.onCpu, Status.isIdle]
  have hvb : v.status.onCpu = false ∧ v.status.isIdle = false ∧ v.status ≠ .blocked := by
    rcases hv with hv | hv <;> simp [hv, Status.onCpu, Status.isIdle]
  -- nobody has the block queue of `s`, as `s` is not asleep
  have hfree : ∀ x u, k.worker x = some u → u.status.onCpu = true → u.server_bq ≠ some s := by
    intro x u hx hu hb
    obtain ⟨y, c', room', sz', hb', -, hy⟩ := h.attached x u hx hu
    obtain rfl : s = y := by simpa [hb] using hb'
    simp [hs'] at hy
  have hkeep : ∀ x a, k.action x = some a →
      Function.update k.action s (some (.ctxSwitch c 0 room sz)) x = some a := fun x a hx =>
    update_keeps hx (by rintro rfl; simp [hs'] at hx)
  refine ⟨h.idle_nodup, fun x => (h.mem_idle x).trans ⟨?_, ?_⟩, h.bq_nodup,
    fun x => (h.mem_bq x).trans ⟨?_, ?_⟩, fun x hx => ?_, fun x u hx hu => ?_,
    fun x c' e room' sz' hx => ?_, fun x u y u' hx hy hu hu' hxy => ?_, fun x y hx => ?_,
    fun x u y hx hu huy => ?_, fun x u hx => ?_, h.safe⟩
  · rintro ⟨u, hu, hi⟩
    refine ⟨u, update_keeps hu ?_, hi⟩
    rintro rfl
    rw [ht] at hu
    cases hu
    simp [hvb.2.1] at hi
  · rintro ⟨u, hu, hi⟩
    rcases update_eq_some hu with ⟨-, ⟨⟩⟩ | ⟨-, hu'⟩
    · simp [hwb.2] at hi
    · exact ⟨u, hu', hi⟩
  · rintro ⟨ts, room', sz', hx⟩
    exact ⟨ts, room', sz', hkeep x _ hx⟩
  · rintro ⟨ts, room', sz', hx⟩
    rcases update_eq_some hx with ⟨-, ⟨⟩⟩ | ⟨-, hx'⟩
    · exact ⟨ts, room', sz', hx'⟩
  · obtain ⟨a, hx⟩ := Option.ne_none_iff_exists'.mp hx
    have hx' : k.worker x = none := by
      rcases update_eq_some hx with ⟨rfl, -⟩ | ⟨-, hx'⟩
      · exact hs
      · exact h.server x (by simp [hx'])
    have hxt : x ≠ t := by
      rintro rfl
      simp [hx'] at ht
    simpa [set, hxt] using hx'
  · rcases update_eq_some hx with ⟨-, ⟨⟩⟩ | ⟨-, hx'⟩
    · exact ⟨s, c, room, sz, hbq, hevent, by simp⟩
    · obtain ⟨y, c', room', sz', hb, he, hy⟩ := h.attached x u hx' hu
      exact ⟨y, c', room', sz', hb, he, hkeep y _ hy⟩
  · rcases update_eq_some hx with ⟨rfl, -⟩ | ⟨-, hx'⟩
    · exact ⟨t, w, by simp [set], hw, hbq⟩
    · obtain ⟨y, u, hy, hu, hb⟩ := h.switching x c' e room' sz' hx'
      refine ⟨y, u, update_keeps hy ?_, hu, hb⟩
      rintro rfl
      rw [ht] at hy
      cases hy
      simp [hvb.1] at hu
  · rcases update_eq_some hx with ⟨rfl, ⟨⟩⟩ | ⟨-, hx'⟩ <;>
      rcases update_eq_some hy with ⟨rfl, ⟨⟩⟩ | ⟨-, hy'⟩
    · rfl
    · exact absurd (hxy.symm.trans hbq) (hfree y u' hy' hu')
    · exact absurd (hxy.trans hbq) (hfree x u hx' hu)
    · exact h.single x u y u' hx' hy' hu hu' hxy
  · rcases update_eq_some hx with ⟨-, ⟨⟩⟩ | ⟨-, hx'⟩
    · obtain ⟨u, hu, hb, hbq'⟩ := h.waitingFor x y hx'
      refine ⟨u, update_keeps hu ?_, hb, hbq'⟩
      rintro rfl
      rw [ht] at hu
      cases hu
      exact hvb.2.2 hb
  · rcases update_eq_some hx with ⟨-, ⟨⟩⟩ | ⟨-, hx'⟩
    · exact absurd hu hwb.1
    · exact hkeep y _ (h.blocked x u y hx' hu huy)
  · rcases update_eq_some hx with ⟨-, ⟨⟩⟩ | ⟨-, hx'⟩
    · rw [hid]
      exact h.ids t v ht
    · exact h.ids x u hx'

/-- An idle server falls asleep in `Wait`. -/
theorem Inv.sleepWait (h : k.Inv) (hs : k.worker s = none) (hs' : k.action s = none)
    (ts room sz : ℕ) :
    { k.sleep s (.wait ts room sz) with server_bq := k.server_bq ++ [s] }.Inv := by
  have hbq : s ∉ k.server_bq := by
    intro hmem
    obtain ⟨ts, room, sz, ha⟩ := (h.mem_bq s).mp hmem
    simp [hs'] at ha
  have hkeep : ∀ x a, k.action x = some a →
      Function.update k.action s (some (.wait ts room sz)) x = some a := fun x a hx =>
    update_keeps hx (by rintro rfl; simp [hs'] at hx)
  have hnodup : (k.server_bq ++ [s]).Nodup := by
    refine List.nodup_append.mpr ⟨h.bq_nodup, List.nodup_singleton s, ?_⟩
    rintro x hx y hy rfl
    exact hbq (List.mem_singleton.mp hy ▸ hx)
  refine ⟨h.idle_nodup, h.mem_idle, hnodup, fun x => ?_, fun x hx => ?_, fun x u hx hu => ?_,
    fun x c e room' sz' hx => ?_, h.single, fun x y hx => ?_,
    fun x u y hx hu huy => hkeep y _ (h.blocked x u y hx hu huy), h.ids, h.safe⟩
  · change x ∈ k.server_bq ++ [s] ↔ ∃ ts' room' sz', Function.update k.action s _ x = _
    by_cases hxs : x = s
    · subst hxs
      simp
    · simp [hxs, h.mem_bq]
  · obtain ⟨a, hx⟩ := Option.ne_none_iff_exists'.mp hx
    rcases update_eq_some hx with ⟨rfl, -⟩ | ⟨-, hx'⟩
    · exact hs
    · exact h.server x (by simp [hx'])
  · obtain ⟨y, c, room', sz', hb, he, hy⟩ := h.attached x u hx hu
    exact ⟨y, c, room', sz', hb, he, hkeep y _ hy⟩
  · rcases update_eq_some hx with ⟨-, ⟨⟩⟩ | ⟨-, hx'⟩
    exact h.switching x c e room' sz' hx'
  · rcases update_eq_some hx with ⟨-, ⟨⟩⟩ | ⟨-, hx'⟩
    exact h.waitingFor x y hx'

/-- A server falls asleep in a `Wait` for the blocked worker `t`, for which no other server
waits. -/
theorem Inv.sleepWaitWorker (h : k.Inv) (hs : k.worker s = none) (hs' : k.action s = none)
    (ht : k.worker t = some w) (hw : w.status = .blocked) (hbq : w.server_bq = none) :
    ((k.set t { w with server_bq := some s }).sleep s (.waitWorker t)).Inv := by
  have hkeep : ∀ x a, k.action x = some a →
      Function.update k.action s (some (.waitWorker t)) x = some a := fun x a hx =>
    update_keeps hx (by rintro rfl; simp [hs'] at hx)
  -- the only record that changes is blocked, before and after
  have hback : ∀ x u, (k.set t { w with server_bq := some s }).worker x = some u →
      u.status ≠ .blocked → k.worker x = some u := by
    intro x u hx hu
    rcases update_eq_some hx with ⟨-, ⟨⟩⟩ | ⟨-, hx'⟩
    · exact absurd hw hu
    · exact hx'
  have hforth : ∀ x u, k.worker x = some u → u.status ≠ .blocked →
      (k.set t { w with server_bq := some s }).worker x = some u := by
    intro x u hx hu
    refine update_keeps hx ?_
    rintro rfl
    rw [ht] at hx
    cases hx
    exact hu hw
  have hcpu : ∀ st : Status, st.onCpu = true ∨ st.isIdle = true → st ≠ .blocked := by
    rintro _ h rfl
    simp [Status.onCpu, Status.isIdle] at h
  refine ⟨h.idle_nodup, fun x => (h.mem_idle x).trans ⟨?_, ?_⟩, h.bq_nodup,
    fun x => (h.mem_bq x).trans ⟨?_, ?_⟩, fun x hx => ?_, fun x u hx hu => ?_,
    fun x c e room sz hx => ?_, fun x u y u' hx hy hu hu' =>
      h.single x u y u' (hback x u hx (hcpu _ (.inl hu))) (hback y u' hy (hcpu _ (.inl hu')))
        hu hu',
    fun x y hx => ?_, fun x u y hx hu huy => ?_, fun x u hx => ?_, h.safe⟩
  · rintro ⟨u, hu, hi⟩
    exact ⟨u, hforth x u hu (hcpu _ (.inr hi)), hi⟩
  · rintro ⟨u, hu, hi⟩
    exact ⟨u, hback x u hu (hcpu _ (.inr hi)), hi⟩
  · rintro ⟨ts, room, sz, hx⟩
    exact ⟨ts, room, sz, hkeep x _ hx⟩
  · rintro ⟨ts, room, sz, hx⟩
    rcases update_eq_some hx with ⟨-, ⟨⟩⟩ | ⟨-, hx'⟩
    exact ⟨ts, room, sz, hx'⟩
  · obtain ⟨a, hx⟩ := Option.ne_none_iff_exists'.mp hx
    have hx' : k.worker x = none := by
      rcases update_eq_some hx with ⟨rfl, -⟩ | ⟨-, hx'⟩
      · exact hs
      · exact h.server x (Option.ne_none_iff_exists'.mpr ⟨a, hx'⟩)
    have hxt : x ≠ t := by
      rintro rfl
      simp [hx'] at ht
    simpa [set, sleep, hxt] using hx'
  · obtain ⟨y, c, room, sz, hb, he, hy⟩ := h.attached x u (hback x u hx (hcpu _ (.inl hu))) hu
    exact ⟨y, c, room, sz, hb, he, hkeep y _ hy⟩
  · rcases update_eq_some hx with ⟨-, ⟨⟩⟩ | ⟨-, hx'⟩
    obtain ⟨y, u, hy, hu, hb⟩ := h.switching x c e room sz hx'
    exact ⟨y, u, hforth y u hy (hcpu _ (.inl hu)), hu, hb⟩
  · rcases update_eq_some hx with ⟨rfl, ⟨⟩⟩ | ⟨-, hx'⟩
    · exact ⟨_, Function.update_self .., hw, rfl⟩
    · obtain ⟨u, hu, hb, hb'⟩ := h.waitingFor x y hx'
      refine ⟨u, update_keeps hu ?_, hb, hb'⟩
      rintro rfl
      rw [ht] at hu
      cases hu
      simp [hbq] at hb'
  · rcases update_eq_some hx with ⟨rfl, ⟨⟩⟩ | ⟨-, hx'⟩
    · obtain rfl : s = y := by simpa using huy
      exact Function.update_self ..
    · exact hkeep y _ (h.blocked x u y hx' hu huy)
  · rcases update_eq_some hx with ⟨rfl, ⟨⟩⟩ | ⟨-, hx'⟩
    · exact h.ids x w ht
    · exact h.ids x u hx'

end Kernel

end Umcg.Klib
