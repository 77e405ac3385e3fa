import Umcg.Klib.Kernel

/-!
# Events of the kernel module

An event leaves the module on one of two ways. The events of the idle workers are fetched in the
order of the list, by the `Wait` of an idle server or behind the event of a context switch. The
other events are stored into the context switch that runs the worker, and end it.

This module says what each of the functions on these ways does as a whole: `serverGetEvents` takes
some workers from the front of the list (`Kernel.takeIdle`), `wakeServer` does so for one of the
idle servers, and `workerEventToServer` ends the context switch of an attached worker.
-/

namespace Umcg.Klib

namespace Kernel

/-- The records after the workers of `l` were made runnable. -/
def setRunnable (worker : Int32 → Option Worker) (l : List Int32) (t : Int32) : Option Worker :=
  if t ∈ l then (worker t).map fun w => { w with status := .runnable } else worker t

/-- The first `n` idle workers become runnable. -/
def takeIdle (k : Kernel) (n : ℕ) : Kernel :=
  { k with
    worker := setRunnable k.worker (k.idle_workers.take n)
    idle_workers := k.idle_workers.drop n }

/-- The words that a server gets for the idle worker with the record `w`. -/
def eventWords (w : Worker) : List UInt64 :=
  if w.event = .wait ∧ w.status ≠ .idle false then
    [eventWord w.id w.event, eventWord w.id .timeout]
  else [eventWord w.id w.event]

/-- The words of the workers of `l`. -/
def pendingWords (worker : Int32 → Option Worker) (l : List Int32) : List UInt64 :=
  l.flatMap fun t => ((worker t).map eventWords).getD []

variable {k : Kernel}

@[simp] theorem setRunnable_nil (worker : Int32 → Option Worker) :
    setRunnable worker [] = worker := by
  funext t
  simp [setRunnable]

@[simp] theorem takeIdle_zero (k : Kernel) : k.takeIdle 0 = k := by simp [takeIdle]

theorem setRunnable_of_notMem {worker : Int32 → Option Worker} {l : List Int32} {t : Int32}
    (h : t ∉ l) : setRunnable worker l t = worker t := if_neg h

theorem eventWords_ne_nil (w : Worker) : eventWords w ≠ [] := by
  unfold eventWords
  split_ifs <;> simp

private theorem setRunnable_cons {worker : Int32 → Option Worker} {t : Int32} {w : Worker}
    (l : List Int32) (ht : worker t = some w) :
    setRunnable (Function.update worker t (some { w with status := .runnable })) l =
      setRunnable worker (t :: l) := by
  funext x
  by_cases hx : x = t
  · subst hx
    simp [setRunnable, ht]
  · simp [setRunnable, hx]

/-- The words of the workers behind `t` do not depend on the record of `t`. -/
private theorem pendingWords_update {worker : Int32 → Option Worker} {t : Int32} {l : List Int32}
    (o : Option Worker) (ht : t ∉ l) :
    pendingWords (Function.update worker t o) l = pendingWords worker l := by
  unfold pendingWords
  refine List.flatMap_congr fun x hx => ?_
  have hxt : x ≠ t := by
    rintro rfl
    exact ht hx
  simp [hxt]

/-- What the loop of `umcg_server_get_events` does to the workers: it makes some of them runnable,
from the front of the list on. Every one of them has given a word, and before a failure there was
none. -/
theorem fetch_takes (room : ℕ) (worker : Int32 → Option Worker) (l : List Int32)
    (words : List UInt64) (sz : ℕ) : ∃ n,
      (fetch room worker l words sz).worker = setRunnable worker (l.take n) ∧
      (fetch room worker l words sz).idle_workers = l.drop n ∧
      (∀ m, (fetch room worker l words sz).rv = .value m → words.length + n ≤ m) ∧
      ∀ e, (fetch room worker l words sz).rv = .error e → n = 0 ∧ words = [] := by
  induction l generalizing worker words sz with
  | nil => exact ⟨0, by simp [fetch]⟩
  | cons t l ih =>
    by_cases hsz : sz ≤ 1
    · rw [fetch, if_pos hsz]
      exact ⟨0, by simp⟩
    rw [fetch, if_neg hsz]
    cases hw : worker t with
    | none => exact ⟨0, by simp⟩
    | some w =>
      dsimp only
      by_cases hroom : room ≤ words.length
      · rw [if_pos hroom]
        refine ⟨0, by simp, rfl, ?_⟩
        by_cases hwords : words = [] <;> simp [hwords]
      rw [if_neg hroom]
      by_cases hevent : w.event = .wait ∧ w.status ≠ .idle false
      · rw [if_pos hevent]
        by_cases hroom' : room ≤ words.length + 1
        · rw [if_pos hroom']
          refine ⟨0, by simp, rfl, ?_⟩
          by_cases hwords : words = []
          · simp [hwords]
          · simp only [if_neg hwords, Sysreturn.value.injEq, reduceCtorEq, false_implies,
              implies_true, and_true]
            omega
        rw [if_neg hroom']
        obtain ⟨n, hn, hl, hvalue, herror⟩ := ih
          (Function.update worker t (some { w with status := .runnable }))
          (words ++ [eventWord w.id w.event, eventWord w.id .timeout]) (sz - 2)
        refine ⟨n + 1, hn.trans (setRunnable_cons _ hw), hl, fun m hm => ?_, fun e he => ?_⟩
        · have := hvalue m hm
          simp only [List.length_append, List.length_cons, List.length_nil] at this
          omega
        · exact absurd (herror e he).2 (by simp)
      · rw [if_neg hevent]
        obtain ⟨n, hn, hl, hvalue, herror⟩ := ih
          (Function.update worker t (some { w with status := .runnable }))
          (words ++ [eventWord w.id w.event]) (sz - 1)
        refine ⟨n + 1, hn.trans (setRunnable_cons _ hw), hl, fun m hm => ?_, fun e he => ?_⟩
        · have := hvalue m hm
          simp only [List.length_append, List.length_cons, List.length_nil] at this
          omega
        · exact absurd (herror e he).2 (by simp)

/-- When all the records are there and the buffer has room for `event_sz` words, the loop writes
the words of the workers it takes, one after the other, and it stops at the end of the list or of
the buffer. -/
theorem fetch_words {room : ℕ} {worker : Int32 → Option Worker} {l : List Int32}
    (words : List UInt64) (sz : ℕ) (hl : l.Nodup) (hw : ∀ t ∈ l, worker t ≠ none)
    (hroom : words.length + sz ≤ room) : ∃ n,
      (fetch room worker l words sz).worker = setRunnable worker (l.take n) ∧
      (fetch room worker l words sz).idle_workers = l.drop n ∧
      (fetch room worker l words sz).words = words ++ pendingWords worker (l.take n) ∧
      (fetch room worker l words sz).rv =
        .value (words ++ pendingWords worker (l.take n)).length ∧
      (fetch room worker l words sz).event_sz + (pendingWords worker (l.take n)).length = sz ∧
      (l.drop n ≠ [] → (fetch room worker l words sz).event_sz ≤ 1) := by
  induction l generalizing worker words sz with
  | nil =>
    exact ⟨0, by simp [fetch, pendingWords]⟩
  | cons t l ih =>
    obtain ⟨ht, hl⟩ := List.nodup_cons.mp hl
    obtain ⟨w, hwt⟩ := Option.ne_none_iff_exists'.mp (hw t List.mem_cons_self)
    have hw' : ∀ x ∈ l,
        Function.update worker t (some { w with status := .runnable }) x ≠ none := by
      intro x hx
      by_cases hxt : x = t
      · simp [hxt]
      · simpa [hxt] using hw x (List.mem_cons_of_mem _ hx)
    have hcons : ∀ n, pendingWords worker ((t :: l).take (n + 1)) =
        eventWords w ++ pendingWords worker (l.take n) := by
      simp [pendingWords, hwt]
    have hupd : ∀ o n, pendingWords (Function.update worker t o) (l.take n) =
        pendingWords worker (l.take n) :=
      fun o n => pendingWords_update o fun h => ht (List.mem_of_mem_take h)
    by_cases hsz : sz ≤ 1
    · rw [fetch, if_pos hsz]
      exact ⟨0, by simp [pendingWords, hsz]⟩
    have hlt : ¬ room ≤ words.length := by omega
    have hlt' : ¬ room ≤ words.length + 1 := by omega
    rw [fetch, if_neg hsz, hwt]
    dsimp only
    rw [if_neg hlt, if_neg hlt']
    split_ifs with hevent
    · obtain ⟨n, h₁, h₂, h₃, h₄, h₅, h₆⟩ := ih
        (words ++ [eventWord w.id w.event, eventWord w.id .timeout]) (sz - 2) hl hw'
        (by simp; omega)
      have hwords : eventWords w = [eventWord w.id w.event, eventWord w.id .timeout] :=
        if_pos hevent
      rw [hupd] at h₃ h₄ h₅
      refine ⟨n + 1, h₁.trans (setRunnable_cons _ hwt), h₂, ?_, ?_, ?_, h₆⟩
      · rw [h₃, hcons, hwords, List.append_assoc]
      · rw [h₄, hcons, hwords, List.append_assoc]
      · rw [hcons, hwords]
        simp only [List.length_append, List.length_cons, List.length_nil]
        omega
    · obtain ⟨n, h₁, h₂, h₃, h₄, h₅, h₆⟩ := ih (words ++ [eventWord w.id w.event]) (sz - 1) hl hw'
        (by simp; omega)
      have hwords : eventWords w = [eventWord w.id w.event] := if_neg hevent
      rw [hupd] at h₃ h₄ h₅
      refine ⟨n + 1, h₁.trans (setRunnable_cons _ hwt), h₂, ?_, ?_, ?_, h₆⟩
      · rw [h₃, hcons, hwords, List.append_assoc]
      · rw [h₄, hcons, hwords, List.append_assoc]
      · rw [hcons, hwords]
        simp only [List.length_append, List.length_cons, List.length_nil]
        omega

/-- `umcg_server_get_events` makes some idle workers runnable, from the front of the list on. When
it returns zero or an error, none. -/
theorem serverGetEvents_takes (k : Kernel) (room sz : ℕ) : ∃ n,
    (k.serverGetEvents room sz).1 = k.takeIdle n ∧
      ((k.serverGetEvents room sz).2.1 = .value 0 → n = 0) ∧
      ∀ e, (k.serverGetEvents room sz).2.1 = .error e → n = 0 := by
  obtain ⟨n, hworker, hidle, hvalue, herror⟩ := fetch_takes room k.worker k.idle_workers [] sz
  refine ⟨n, ?_, fun h => ?_, fun e he => (herror e he).1⟩
  · simp only [serverGetEvents, takeIdle, hworker, hidle]
  · simpa using hvalue 0 h

/-- With room for `event_sz` words in the buffer, it writes the words of the workers it takes and a
zero behind them if there is room; workers are left only when the buffer is full up to this
zero. -/
theorem serverGetEvents_words {room sz : ℕ} (hl : k.idle_workers.Nodup)
    (hw : ∀ t ∈ k.idle_workers, k.worker t ≠ none) (hroom : sz ≤ room) :
    ∃ n words, words = pendingWords k.worker (k.idle_workers.take n) ∧
      k.serverGetEvents room sz =
        (k.takeIdle n, .value words.length, if words.length < sz then words ++ [0] else words) ∧
      (k.idle_workers.drop n ≠ [] → sz ≤ words.length + 1) := by
  obtain ⟨n, hworker, hidle, hwords, hrv, hsz, hrest⟩ :=
    fetch_words [] sz hl hw (by simpa using hroom)
  rw [List.nil_append] at hwords hrv
  refine ⟨n, _, rfl, ?_, fun h => ?_⟩
  · have hzero : (0 < (fetch room k.worker k.idle_workers [] sz).event_sz ∧
        (pendingWords k.worker (k.idle_workers.take n)).length < room) ↔
          (pendingWords k.worker (k.idle_workers.take n)).length < sz := by omega
    simp only [serverGetEvents, takeIdle, hworker, hidle, hwords, hrv, hzero]
  · have := hrest h
    omega

/-- `umcg_server_wait_bh` returns with the events it has fetched, or for the flag of `Wake`, or it
blocks and changes nothing. -/
theorem serverWaitBh_cases (k : Kernel) (room sz : ℕ) :
    (∃ n r events, k.serverWaitBh room sz = (k.takeIdle n, some ⟨r, events⟩)) ∨
      (∃ events, k.wake_idle_server = true ∧
        k.serverWaitBh room sz = ({ k with wake_idle_server := false }, some ⟨.value 0, events⟩)) ∨
      k.wake_idle_server = false ∧ k.serverWaitBh room sz = (k, none) := by
  obtain ⟨n, hk, hzero, -⟩ := serverGetEvents_takes k room sz
  obtain ⟨rv, events, hget⟩ : ∃ rv events, k.serverGetEvents room sz = (k.takeIdle n, rv, events) :=
    ⟨_, _, Prod.ext hk rfl⟩
  rw [hget] at hzero
  unfold serverWaitBh
  rw [hget]
  rcases rv with (_ | m) | e
  · obtain rfl := hzero rfl
    cases hflag : k.wake_idle_server
    · exact .inr (.inr ⟨rfl, by simp [hflag]⟩)
    · exact .inr (.inl ⟨events, rfl, by simp [hflag]⟩)
  · exact .inl ⟨n, _, events, rfl⟩
  · exact .inl ⟨n, _, events, rfl⟩

/-- `umcg_server_ctx_switch_bh` with an event returns; it may have fetched events, too. -/
theorem serverCtxSwitchBh_cases (k : Kernel) (s : Int32) {event : UInt64} (room sz : ℕ)
    (h : event ≠ 0) : ∃ n r events,
      k.serverCtxSwitchBh s event room sz = (k.takeIdle n).finish s r events := by
  unfold serverCtxSwitchBh
  rw [if_neg h]
  split_ifs
  · exact ⟨0, _, _, by rw [takeIdle_zero]⟩
  · obtain ⟨n, hk, -⟩ := serverGetEvents_takes k (room - 1) (sz - 1)
    exact ⟨n, _, _, by rw [← hk]⟩
  · exact ⟨0, _, _, by rw [takeIdle_zero]⟩

/-- In a buffer of two words a context switch finds one event, and a zero behind it. -/
theorem serverCtxSwitchBh_two (k : Kernel) (s : Int32) {event : UInt64} (h : event ≠ 0) :
    k.serverCtxSwitchBh s event 2 2 = k.finish s (.value 0) [event, 0] := by
  have hget : k.serverGetEvents 1 1 = (k, .value 0, [0]) := by
    have hfetch : fetch 1 k.worker k.idle_workers [] 1 =
        ⟨k.worker, k.idle_workers, [], 1, .value 0⟩ := by
      cases k.idle_workers <;> simp [fetch]
    simp [serverGetEvents, hfetch]
  simp [serverCtxSwitchBh, h, hget, Sysreturn.clear]

/-- `umcg_server_wait_worker_bh` blocks, or returns zero. -/
theorem serverWaitWorkerBh_cases (k : Kernel) (s t : Int32) :
    k.serverWaitWorkerBh s t = k ∨ k.serverWaitWorkerBh s t = k.finish s (.value 0) [] := by
  unfold serverWaitWorkerBh
  split
  · split_ifs
    · exact .inl rfl
    · exact .inr rfl
  · exact .inr rfl

/-- The action of a thread leaves it where it is, or returns; then it may have fetched events. -/
theorem runAction_cases (k : Kernel) (s : Int32) : k.runAction s = k ∨ ∃ n flag r events,
    k.runAction s = { (k.takeIdle n).finish s r events with wake_idle_server := flag } := by
  unfold runAction
  split
  · rename_i t ha
    refine (serverWaitWorkerBh_cases k s t).imp_right fun h => ?_
    exact ⟨0, k.wake_idle_server, .value 0, [], by rw [h, takeIdle_zero]; rfl⟩
  · rename_i ts room sz ha
    rcases serverWaitBh_cases k room sz with ⟨n, r, events, h⟩ | ⟨events, -, h⟩ | ⟨-, h⟩
    · rw [h]
      exact .inr ⟨n, k.wake_idle_server, r, events, rfl⟩
    · rw [h]
      exact .inr ⟨0, false, .value 0, events, by rw [takeIdle_zero]; rfl⟩
    · rw [h]
      exact .inl rfl
  · rename_i c event room sz ha
    by_cases hevent : event = 0
    · exact .inl (by simp [serverCtxSwitchBh, hevent])
    · obtain ⟨n, r, events, h⟩ := serverCtxSwitchBh_cases k s room sz hevent
      exact .inr ⟨n, k.wake_idle_server, r, events, h⟩
  · exact .inl rfl

/-! ### Wake-ups -/

section AtOnce

variable [Blockq] [Blockq.AtOnce]

theorem wakeServer_of_nil (h : k.server_bq = []) : k.wakeServer = (k, false) :=
  Blockq.AtOnce.wakeOne_empty k .server h

theorem wakeServer_of_ne_nil (h : k.server_bq ≠ []) :
    ∃ s ∈ k.server_bq, k.wakeServer = (k.runAction s, true) :=
  Blockq.AtOnce.wakeOne_runs k .server h

/-- A wake-up of the idle servers: there is none, or one stays where it is, or it returns with the
events it has fetched. -/
theorem wakeServer_cases (k : Kernel) :
    k.wakeServer.1 = k ∨ ∃ s n flag r events, s ∈ k.server_bq ∧
      k.wakeServer.1 = { (k.takeIdle n).finish s r events with wake_idle_server := flag } := by
  by_cases hbq : k.server_bq = []
  · exact .inl (by rw [wakeServer_of_nil hbq])
  · obtain ⟨s, hs, hk⟩ := wakeServer_of_ne_nil hbq
    rw [hk]
    exact (runAction_cases k s).imp_right fun ⟨n, flag, r, events, h⟩ =>
      ⟨s, n, flag, r, events, hs, h⟩

/-- The thread `s` sleeps in its own block queue. -/
theorem wakeThread_eq {s : Int32} {a : Action} (ha : k.action s = some a)
    (hwait : a.isWait = false) : k.wakeThread s = k.runAction s := by
  have hs : k.sleepers (.thread s) = [s] := by simp [sleepers, ha, hwait]
  obtain ⟨s', hs', hk⟩ := Blockq.AtOnce.wakeOne_runs k (.thread s) (by simp [hs])
  obtain rfl : s' = s := by simpa [hs] using hs'
  rw [wakeThread, hk]

theorem wakeThread_of_none {s : Int32} (ha : k.action s = none) : k.wakeThread s = k := by
  rw [wakeThread, Blockq.AtOnce.wakeOne_empty k (.thread s) (by simp [sleepers, ha])]

/-- A worker that is attached to the context switch of `s` ends it with its event. -/
theorem workerEventToServer_eq {w : Worker} {s : Int32} {c : ℕ} {e : UInt64} {room sz : ℕ}
    (hbq : w.server_bq = some s) (hevent : w.server_event = some (s, c))
    (ha : k.action s = some (.ctxSwitch c e room sz)) (event : UmcgEventType) :
    k.workerEventToServer w event =
      ((k.sleep s (.ctxSwitch c (eventWord w.id event) room sz)).serverCtxSwitchBh s
        (eventWord w.id event) room sz).addRefs s (-1) := by
  have hstore : k.storeEvent w event =
      k.sleep s (.ctxSwitch c (eventWord w.id event) room sz) := by
    simp [storeEvent, hevent, ha]
  have hsleep : (k.sleep s (.ctxSwitch c (eventWord w.id event) room sz)).action s =
      some (.ctxSwitch c (eventWord w.id event) room sz) := Function.update_self ..
  rw [workerEventToServer, hstore, hbq, wakeAndRelease, wakeThread_eq hsleep rfl, runAction, hsleep]

/-- It may have fetched events, too. -/
theorem workerEventToServer_cases {w : Worker} {s : Int32} {c : ℕ} {e : UInt64} {room sz : ℕ}
    (hid : workerId w.id = w.id) (hbq : w.server_bq = some s)
    (hevent : w.server_event = some (s, c)) (ha : k.action s = some (.ctxSwitch c e room sz))
    (event : UmcgEventType) : ∃ n r events, k.workerEventToServer w event =
      (((k.sleep s (.ctxSwitch c (eventWord w.id event) room sz)).takeIdle n).finish s r
        events).addRefs s (-1) := by
  have hne : eventWord w.id event ≠ 0 := ne_zero_of_eventType (eventType_eventWord hid event)
  obtain ⟨n, r, events, hk⟩ := serverCtxSwitchBh_cases
    (k.sleep s (.ctxSwitch c (eventWord w.id event) room sz)) s room sz hne
  exact ⟨n, r, events, by rw [workerEventToServer_eq hbq hevent ha, hk]⟩

end AtOnce

/-- A worker that joins the list of the idle ones has a new record. -/
theorem workerEventIdle_set [Blockq] (k : Kernel) (t : Int32) (v w : Worker)
    (event : UmcgEventType) :
    (k.set t v).workerEventIdle t w event = k.workerEventIdle t w event := by
  simp [workerEventIdle, set]

end Kernel

end Umcg.Klib
