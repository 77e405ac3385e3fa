import Umcg.Attempt2.PendingQueue

/-!
# Workers left `Running`

A worker that is `Running` when control is back in `run_event_loop` is lost: it is not in the
pending queue, and `handle_event` ignores a `WAKE` of a `Running` worker. The return value of
a context switch is never looked at, and an event of type `PREEMPT` is an error of
`handle_event` that leaves the statuses alone. So each of the following strands the worker it
concerns (`Input.Strands`): a context switch that fails, one that is answered `PREEMPT`, and a
send to a worker whose receiver is gone.

These are the only ways. `Server.noStrandedWorker_iff` says for every run that no worker is
stranded at a return exactly when none of them has happened. The thread *serves* a `Running`
worker while it sends to it, switches to it or handles its `BLOCK` or `WAIT`
(`Control.Serves`): as long as nothing strands, every `Running` worker is served, and a worker
that is `Running` and not served stays so for ever.
-/

namespace Umcg.Attempt2

variable {τ : Type}

namespace Control

/-- The thread is dealing with the running worker `w`. -/
def Serves (c : Control τ) (w : UInt64) : Prop :=
  match c with
  | sendTask w' _ => w' = w
  | ctxSwitch w' _ => w' = w
  | handleEvent e _ _ => workerId e = w ∧ (eventType e = some .block ∨ eventType e = some .wait)
  | _ => False

end Control

/-- The inputs after which a worker is left `Running`. -/
def Input.Strands : Input τ → Prop
  | .sent ok => ok = false
  | .switched a => a.Failed ∨ eventType a.first = some .preempt
  | _ => False

instance : DecidablePred (Input.Strands (τ := τ))
  | .sent ok => inferInstanceAs (Decidable (ok = false))
  | .switched a => inferInstanceAs (Decidable (a.Failed ∨ eventType a.first = some .preempt))
  | .recv _ | .waited _ | .schedule | .tau | .removed _ => inferInstanceAs (Decidable False)

namespace Server

variable {s t : Server τ} {i : Input τ} {w : UInt64}

/-- The surroundings of the server: a switch to `w` fails without an event, or succeeds with
one of the events of a live worker, `BLOCK`, `WAIT` or `PREEMPT`; only `WAKE` is routed. -/
def LiveEvents (s : Server τ) : Input τ → Prop
  | .recv e => eventType e = some .wake
  | .switched a => ∀ w ∈ s.control.target, a.Failed ∨ a.ret = 0 ∧ a.ReportsOnly w ∧
      (eventType a.first = some .block ∨ eventType a.first = some .wait ∨
        eventType a.first = some .preempt)
  | _ => True

instance (s : Server τ) : (i : Input τ) → Decidable (s.LiveEvents i)
  | .recv e => inferInstanceAs (Decidable (eventType e = some .wake))
  | .switched a => Option.decidableForallMem (p := fun w => a.Failed ∨ a.ret = 0 ∧
      a.ReportsOnly w ∧ (eventType a.first = some .block ∨ eventType a.first = some .wait ∨
        eventType a.first = some .preempt)) s.control.target
  | .waited _ | .schedule | .tau | .removed _ | .sent _ => inferInstanceAs (Decidable True)

theorem LiveEvents.singleEvents (h : s.LiveEvents i) : s.SingleEvents i := by
  cases i with
  | switched a => exact fun w hw => (h w hw).imp id fun h => h.2.1
  | recv e => exact h
  | _ => trivial

/-- What an answer to the switch to `w` can be, and what it strands. -/
theorem LiveEvents.answer {a : SwitchAnswer} {site : Site} (h : s.LiveEvents (.switched a))
    (hc : s.control = .ctxSwitch w site) :
    a.reported = [] ∧ (Input.switched a : Input τ).Strands ∨
    a.reported = [a.first] ∧ workerId a.first = w ∧
      (eventType a.first = some .preempt ∧ (Input.switched a : Input τ).Strands ∨
        (eventType a.first = some .block ∨ eventType a.first = some .wait) ∧
          ¬ (Input.switched a : Input τ).Strands) := by
  rcases h w (by rw [hc]; rfl) with hf | ⟨hr, ⟨ha, hw⟩, hb | hw' | hp⟩
  · exact .inl ⟨hf.2, .inl hf⟩
  · exact .inr ⟨ha, hw, .inr ⟨.inl hb, by simp [Input.Strands, SwitchAnswer.Failed, hr, hb]⟩⟩
  · exact .inr ⟨ha, hw, .inr ⟨.inr hw', by simp [Input.Strands, SwitchAnswer.Failed, hr, hw']⟩⟩
  · exact .inr ⟨ha, hw, .inl ⟨hp, .inr hp⟩⟩

/-- Every worker is `Waiting` and in the pending queue, or `Blocked`. -/
def NoStrandedWorker (s : Server τ) : Prop :=
  ∀ w ∈ s.states.keys, s.states.value w = .waiting ∧ w ∈ s.pending.items ∨
    s.states.value w = .blocked

instance (s : Server τ) : Decidable s.NoStrandedWorker :=
  List.decidableBAll (fun w => s.states.value w = .waiting ∧ w ∈ s.pending.items ∨
    s.states.value w = .blocked) s.states.keys

/-- The worker `w` is `Running` and the thread is not dealing with it. -/
def Stranded (s : Server τ) (w : UInt64) : Prop :=
  s.states.get? w = some .running ∧ ¬ s.control.Serves w

/-- A step that changes only the control, and not which running workers it serves. -/
private theorem stranded_jump {c : Control τ}
    (h : ∀ w, s.states.get? w = some .running → (c.Serves w ↔ s.control.Serves w)) (w : UInt64) :
    Stranded { s with control := c } w ↔ s.Stranded w :=
  and_congr_right fun hw => not_congr (h w hw)

/-- A step after which the thread no longer serves the running worker `w`. -/
private theorem stranded_drop {c : Control τ} (hw : s.states.get? w = some .running)
    (hs : ∀ x, s.control.Serves x ↔ w = x) (hc : ∀ x, ¬ c.Serves x) (x : UInt64) :
    Stranded { s with control := c } x ↔ s.Stranded x ∨ x = w := by
  by_cases hx : x = w
  · simp [Stranded, hx, hw, hc]
  · simp [Stranded, hx, hs, hc, Ne.symm hx]

/-- A status change of the worker `w` that the thread serves whenever it is `Running`. -/
private theorem stranded_setStatus {a b : WorkerStatus} {c : Control τ}
    (hw : s.states.get? w = some a) (hs : ∀ x, s.control.Serves x ↔ a = .running ∧ w = x)
    (hc : ∀ x, c.Serves x ↔ b = .running ∧ w = x) (x : UInt64) :
    Stranded { s.setStatus w b with control := c } x ↔ s.Stranded x := by
  have hkey := s.states.mem_keys_of_get? hw
  by_cases hx : x = w
  · subst hx
    simp [Stranded, s.states.get?_set_self hkey, hw, hs, hc]
  · simp [Stranded, hx, hs, hc, Ne.symm hx]

private theorem not_serves_resume {c : Caller} (h : c.Last) (r : Outcome) (x : UInt64) :
    ¬ (resume r c : Control τ).Serves x := by
  rcases h with rfl | rfl
  · exact id
  · cases r <;> exact id

/-- A step strands one worker if its input is a stranding one, and otherwise none; and it never
rescues one. -/
theorem Move.stranded (hI : PendingInv s) (hi : s.LiveEvents i) (hm : Move s i t) :
    ¬ i.Strands ∧ (∀ x, t.Stranded x ↔ s.Stranded x) ∨
    i.Strands ∧ ∃ w, ∀ x, t.Stranded x ↔ s.Stranded x ∨ x = w := by
  have hok := hI.control
  cases hm with
  | schedule hc => exact .inl ⟨id, stranded_jump (by simp [hc, Control.Serves])⟩
  | recv hc hw =>
    have he : eventType _ = some .wake := hi
    exact .inl ⟨id, stranded_jump (by simp [hc, Control.Serves, he])⟩
  | unmanaged hc hw => exact .inl ⟨id, fun _ => .rfl⟩
  | popEmpty hc hq => exact .inl ⟨id, stranded_jump (by simp [hc, Control.Serves])⟩
  | popUnknown hc hq hw => exact .inl ⟨id, fun _ => .rfl⟩
  | popCritical hc hq hw hst => exact .inl ⟨id, fun _ => by simp [Stranded]⟩
  | popWaiting hc hq hw =>
    exact .inl ⟨id, fun x => by simp [Stranded, hc, Control.Serves]⟩
  | noTask hc => exact .inl ⟨id, fun x => by simp [Stranded, hc, Control.Serves]⟩
  | noChannel hc hw => exact .inl ⟨id, stranded_jump (by simp [hc, Control.Serves])⟩
  | @dispatch w task q hc hw hq =>
    simp only [ControlOk, hc] at hok
    exact .inl ⟨id, stranded_setStatus (c := .sendTask w task) hok
      (by simp [hc, Control.Serves]) (by simp [Control.Serves])⟩
  | @runningFull w task hc hw hq =>
    simp only [ControlOk, hc] at hok
    refine .inl ⟨id, fun x => ?_⟩
    have h := stranded_setStatus (b := .waiting) (c := .popPending) hok
      (by simp [hc, Control.Serves]) (by simp [Control.Serves]) x
    simpa [Stranded] using h
  | sentOk hc => exact .inl ⟨by simp [Input.Strands], stranded_jump (by simp [hc, Control.Serves])⟩
  | @sendFailed w task hc =>
    simp only [ControlOk, hc] at hok
    exact .inr ⟨rfl, w, stranded_drop (c := .popPending) hok (by simp [hc, Control.Serves])
      (by simp [Control.Serves])⟩
  | @switchedBack w a hc =>
    simp only [ControlOk, hc] at hok
    have hserve : ∀ x, s.control.Serves x ↔ w = x := by simp [hc, Control.Serves]
    rcases hi.answer hc with ⟨ha, hst⟩ | ⟨ha, hw, ⟨hp, hst⟩ | ⟨hgood, hst⟩⟩ <;> rw [ha]
    · exact .inr ⟨hst, w, stranded_drop hok.1 hserve (by simp [nextEvent, Control.Serves])⟩
    · exact .inr ⟨hst, w, stranded_drop hok.1 hserve (by simp [nextEvent, Control.Serves, hp])⟩
    · exact .inl ⟨hst, stranded_jump (by simp [nextEvent, hc, Control.Serves, hw, hgood])⟩
  | @switchedSilent w a d c hc ha =>
    simp only [ControlOk, hc] at hok
    have hserve : ∀ x, s.control.Serves x ↔ w = x := by simp [hc, Control.Serves]
    rcases hi.answer hc with ⟨-, hst⟩ | ⟨ha', -⟩
    · exact .inr ⟨hst, w, stranded_drop hok.1 hserve (not_serves_resume (hok.2 _ _ rfl) _)⟩
    · simp [ha] at ha'
  | @switchedNested w a d c e rest hc ha =>
    simp only [ControlOk, hc] at hok
    have hserve : ∀ x, s.control.Serves x ↔ w = x := by simp [hc, Control.Serves]
    rcases hi.answer hc with ⟨ha', -⟩ | ⟨ha', hw, h⟩
    · simp [ha] at ha'
    · obtain ⟨rfl, -⟩ : e = a.first ∧ rest = [] := by simpa [ha] using ha'
      rcases h with ⟨hp, hst⟩ | ⟨hgood, hst⟩
      · exact .inr ⟨hst, w, stranded_drop hok.1 hserve (by simp [Control.Serves, hp])⟩
      · exact .inl ⟨hst, stranded_jump (by simp [hc, Control.Serves, hw, hgood])⟩
  | @block e d c hc he hw =>
    simp only [ControlOk, hc] at hok
    exact .inl ⟨id, stranded_setStatus hw (by simp [hc, Control.Serves, he])
      (by simp [not_serves_resume hok.2])⟩
  | @wake e d c hc he hw =>
    exact .inl ⟨id, stranded_setStatus hw (by simp [hc, Control.Serves, he])
      (by simp [Control.Serves])⟩
  | @wait e d c hc he hw =>
    simp only [ControlOk, hc] at hok
    refine .inl ⟨id, fun x => ?_⟩
    have h := stranded_setStatus (b := .waiting) (c := resume .ok c) hw
      (by simp [hc, Control.Serves, he]) (by simp [not_serves_resume hok.2]) x
    simpa [Stranded, ret] using h
  | waitUnexpected hc he hw hst =>
    simp only [ControlOk, hc, he, hw] at hok
    simp [hst] at hok
  | @ignored e d c hc he =>
    simp only [ControlOk, hc] at hok
    refine .inl ⟨id, stranded_jump fun x hx => ?_⟩
    simp only [hc, not_serves_resume hok.2, false_iff]
    rintro ⟨rfl, hb | hb⟩ <;> simp_all
  | @invalid e d c hc he =>
    simp only [ControlOk, hc] at hok
    refine .inl ⟨id, stranded_jump fun x hx => ?_⟩
    simp only [hc, not_serves_resume hok.2, false_iff]
    simp [Control.Serves, he.1, he.2.2]

/-- No step rescues a stranded worker, whatever event of its worker a context switch reports. -/
theorem Move.keeps_stranded (hI : PendingInv s) (hi : s.SingleEvents i) (hm : Move s i t)
    {x : UInt64} (hx : s.Stranded x) : t.Stranded x := by
  have hlive (h : s.LiveEvents i) : t.Stranded x := by
    rcases hm.stranded hI h with ⟨-, hiff⟩ | ⟨-, w, hiff⟩
    · exact (hiff x).mpr hx
    · exact (hiff x).mpr (.inl hx)
  have hok := hI.control
  -- an answer is about the worker that the thread serves, so not about `x`
  have hne {w : UInt64} {site : Site} (hc : s.control = .ctxSwitch w site) : w ≠ x := by
    simpa [hc, Control.Serves] using hx.2
  cases hm with
  | @switchedBack w a hc =>
    refine ⟨hx.1, ?_⟩
    rcases hi.answer hc with ha | ⟨ha, hw⟩ <;> rw [ha]
    · exact id
    · exact fun h => hne hc (hw.symm.trans h.1)
  | @switchedSilent w a d c hc ha =>
    simp only [ControlOk, hc] at hok
    exact ⟨hx.1, not_serves_resume (hok.2 d c rfl) _ x⟩
  | @switchedNested w a d c e rest hc ha =>
    refine ⟨hx.1, fun h => hne hc ?_⟩
    rcases hi.answer hc with ha' | ⟨ha', hw⟩
    · simp [ha] at ha'
    · obtain ⟨rfl, -⟩ : e = a.first ∧ rest = [] := by simpa [ha] using ha'
      exact hw.symm.trans h.1
  | recv | unmanaged => exact hlive hi
  | _ => exact hlive trivial

/-- A worker whose context switch is answered `PREEMPT` is stranded. -/
theorem Move.stranded_of_preempt (hok : s.ControlOk) {a : SwitchAnswer}
    (hm : Move s (.switched a) t) {site : Site} (hc : s.control = .ctxSwitch w site)
    (ha : a.reported = [a.first]) (he : eventType a.first = some .preempt) : t.Stranded w := by
  simp only [ControlOk, hc] at hok
  cases hm with
  | switchedBack hc' => exact ⟨hok.1, by simp [ha, nextEvent, Control.Serves, he]⟩
  | switchedSilent hc' ha' => simp [ha'] at ha
  | @switchedNested _ _ d c e rest hc' ha' =>
    obtain ⟨rfl, -⟩ : e = a.first ∧ rest = [] := by simpa [ha'] using ha
    exact ⟨hok.1, by simp [Control.Serves, he]⟩

/-- After registration every status is `Waiting`, `Running` or `Blocked`. -/
def StatusOk (s : Server τ) : Prop :=
  ∀ w st, s.states.get? w = some st → st = .waiting ∨ st = .running ∨ st = .blocked

private theorem StatusOk.set (h : s.StatusOk) {a : WorkerStatus}
    (ha : a = .waiting ∨ a = .running ∨ a = .blocked) {x : UInt64} {b : WorkerStatus}
    (hx : (s.states.set w a).get? x = some b) :
    b = .waiting ∨ b = .running ∨ b = .blocked := by
  by_cases hxw : x = w
  · subst hxw
    obtain ⟨-, rfl⟩ := Table.get?_eq_some_iff _ |>.mp hx
    simpa using ha
  · rw [Table.get?_set_of_ne _ hxw] at hx
    exact h x _ hx

theorem StatusOk.move (h : s.StatusOk) (hm : Move s i t) : t.StatusOk := by
  cases hm
  case dispatch | wake => exact fun x st hx => h.set (by simp) hx
  case block => exact fun x st hx => h.set (by simp) hx
  case wait => exact fun x st hx => h.set (a := .waiting) (by simp) (by simpa using hx)
  case runningFull => exact fun x st hx => h.set (a := .waiting) (by simp) (by simpa using hx)
  all_goals exact fun x st hx => h x st (by simpa using hx)

/-- After every run some worker is stranded exactly when a stranding input was performed. -/
theorem stranded_run (h₀ : PostRegistration s) {l : List (Input τ)}
    (h : Run (Guarded step LiveEvents) s l t) :
    PendingInv t ∧ t.StatusOk ∧ ((∃ x, t.Stranded x) ↔ ∃ i ∈ l, i.Strands) := by
  refine h.history (I := fun l t => PendingInv t ∧ t.StatusOk ∧
    ((∃ x, t.Stranded x) ↔ ∃ i ∈ l, i.Strands)) ⟨h₀.pendingInv, ?_, ?_⟩ ?_
  · intro w st hw
    obtain ⟨hk, rfl⟩ := Table.get?_eq_some_iff _ |>.mp hw
    exact .inl (h₀.waiting w hk)
  · simp only [List.not_mem_nil, false_and, exists_false, iff_false, not_exists]
    rintro x ⟨hx, -⟩
    obtain ⟨hk, hx⟩ := Table.get?_eq_some_iff _ |>.mp hx
    simp [h₀.waiting x hk] at hx
  · rintro l s i t ⟨hI, hS, hiff⟩ ⟨hi, hstep⟩
    have hm := move_of_step hI.serving hstep
    refine ⟨hI.move hi.singleEvents hm, hS.move hm, ?_⟩
    simp only [List.mem_append, List.mem_singleton, or_and_right, exists_or, exists_eq_left,
      ← hiff]
    rcases hm.stranded hI hi with ⟨hn, hx⟩ | ⟨hs, w, hx⟩
    · simp [hn, hx]
    · simp only [hs, or_true, iff_true]
      exact ⟨w, (hx w).mpr (.inr rfl)⟩

/-- In `run_event_loop` the thread serves no worker, so the stranded workers are the running
ones. -/
theorem noStrandedWorker_iff_not_exists (hI : PendingInv s) (hS : s.StatusOk)
    (hret : s.control.AtReturn) : s.NoStrandedWorker ↔ ¬ ∃ x, s.Stranded x := by
  obtain ⟨r, hc⟩ : ∃ r, s.control = .eventLoop r := by
    cases hc : s.control <;> simp_all [Control.AtReturn]
  have hstr : ∀ x, s.Stranded x ↔ s.states.get? x = some .running := by
    simp [Stranded, hc, Control.Serves]
  constructor
  · rintro h ⟨x, hx⟩
    obtain ⟨hk, hx⟩ := Table.get?_eq_some_iff _ |>.mp ((hstr x).mp hx)
    simpa [hx] using h x hk
  · intro h w hw
    have hget := s.states.get?_of_mem hw
    rcases hS w _ hget with hst | hst | hst
    · exact .inl ⟨hst, (hI.mem w).mpr ⟨by rw [hget, hst], by simp [hc]⟩⟩
    · exact absurd ⟨w, (hstr w).mpr (by rw [hget, hst])⟩ h
    · exact .inr hst

/-- At every return to `run_event_loop` of every run, each worker is `Waiting` and pending or
`Blocked` exactly when no send and no context switch of the run has failed and no context switch
was answered `PREEMPT`. -/
theorem noStrandedWorker_iff (s t : Server τ) (h₀ : PostRegistration s) (l : List (Input τ))
    (h : Run (Guarded step LiveEvents) s l t) (hret : t.control.AtReturn) :
    t.NoStrandedWorker ↔ ∀ i ∈ l, ¬ i.Strands := by
  obtain ⟨hI, hS, hiff⟩ := stranded_run h₀ h
  rw [noStrandedWorker_iff_not_exists hI hS hret, hiff]
  simp

theorem noStrandedWorker_blockingRound : ∃ t,
    Run (Guarded step LiveEvents) twoWorkers blockingRound t ∧ t.NoStrandedWorker := by
  have hrun : Run (Guarded step LiveEvents) twoWorkers blockingRound _ :=
    run_trace (by decide +kernel)
  refine ⟨_, hrun, ?_⟩
  exact (noStrandedWorker_iff twoWorkers _ twoWorkers_postRegistration blockingRound hrun
    (by decide +kernel)).mpr (by decide +kernel)

/-- A context switch that fails, and one that is answered `PREEMPT`: the first worker is back
in neither queue and stays `Running`, with its task in its channel or half done. -/
theorem stranded_of_failure_and_of_preempt :
    (∃ t, Run (Guarded step LiveEvents) twoWorkers
        [.schedule, .tau, .removed (some 0), .sent true, .switched .failure, .tau,
          .removed none] t ∧
      t.control.AtReturn ∧ t.states.get? 32 = some .running ∧ ¬ t.NoStrandedWorker) ∧
    ∃ t, Run (Guarded step LiveEvents) twoWorkers
        [.schedule, .tau, .removed (some 0), .sent true,
          .switched (.report (eventWord 32 .preempt)), .tau] t ∧
      t.control.AtReturn ∧ t.states.get? 32 = some .running ∧ ¬ t.NoStrandedWorker :=
  ⟨⟨_, run_trace (by decide +kernel), by decide +kernel⟩,
    ⟨_, run_trace (by decide +kernel), by decide +kernel⟩⟩

end Server

end Umcg.Attempt2
