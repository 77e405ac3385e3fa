import Mathlib.Data.List.Basic
import Mathlib.Tactic.Common

/-!
# Runs of labelled systems

A component is a partial step function `step : σ → α → Option σ`: in state `s` the label `a`
(an answer of the environment, a choice of the scheduler) either leads to one next state or
is not possible. An environment assumption is a guard `ok : σ → α → Prop` on the labels that
are taken. `Guarded step ok` is the resulting relation, and `Run R s l t` says that
performing the labels `l` in order leads from `s` to `t`.

* `Run.invariant` : what holds initially and is kept by every step holds after every run.
* `Run.history` : the same for a property of the state and of the labels performed so far.
* `Run.invariant_of_labels` : the same for runs without certain labels.
* `Run.response` : a response that a rank forces.
* `Run.simulate` : runs of a system are matched by runs of another one.
* `trace` : runs of a decidable guard, computed.
-/

namespace Umcg

variable {σ α : Type*}

/-- The steps of `step` whose label satisfies the guard `ok`. -/
def Guarded (step : σ → α → Option σ) (ok : σ → α → Prop) (s : σ) (a : α) (t : σ) : Prop :=
  ok s a ∧ step s a = some t

/-- `Run R s l t`: performing the labels `l`, the oldest first, leads from `s` to `t`. -/
inductive Run (R : σ → α → σ → Prop) (s : σ) : List α → σ → Prop
  | nil : Run R s [] s
  | snoc {l : List α} {t u : σ} {a : α} (h : Run R s l t) (hstep : R t a u) :
      Run R s (l ++ [a]) u

namespace Run

variable {R : σ → α → σ → Prop} {s t u : σ} {l l' : List α} {a : α}

theorem single (h : R s a t) : Run R s [a] t := .snoc .nil h

theorem append (h : Run R s l t) (h' : Run R t l' u) : Run R s (l ++ l') u := by
  induction h' with
  | nil => simpa using h
  | snoc _ hstep ih => simpa only [← List.append_assoc] using ih.snoc hstep

theorem cons (hstep : R s a t) (h : Run R t l u) : Run R s (a :: l) u :=
  (single hstep).append h

/-- A property that holds in the first state and is kept by every step holds after every run. -/
theorem invariant {I : σ → Prop} (h : Run R s l t) (h₀ : I s)
    (hstep : ∀ s a t, I s → R s a t → I t) : I t := by
  induction h with
  | nil => exact h₀
  | snoc _ hs ih => exact hstep _ _ _ ih hs

/-- The invariant rule for a property of the labels performed so far and the state reached. -/
theorem history {I : List α → σ → Prop} (h : Run R s l t) (h₀ : I [] s)
    (hstep : ∀ l s a t, I l s → R s a t → I (l ++ [a]) t) : I l t := by
  induction h with
  | nil => exact h₀
  | snoc _ hs ih => exact hstep _ _ _ _ ih hs

/-- The invariant rule for runs that perform only labels with the property `p`. -/
theorem invariant_of_labels {I : σ → Prop} {p : α → Prop} (h : Run R s l t) (hl : ∀ a ∈ l, p a)
    (h₀ : I s) (hstep : ∀ s a t, I s → p a → R s a t → I t) : I t := by
  induction h with
  | nil => exact h₀
  | snoc _ hs ih =>
    exact hstep _ _ _ (ih fun a ha => hl a (List.mem_append_left _ ha))
      (hl _ (List.mem_append_right _ (List.mem_singleton_self _))) hs

/-- A response rule. While `P` holds, every step is the response `Q`, or keeps `P` and lowers `rank`
by one if it is one of `own`. Then after every run the response has occurred, or `P` still holds and
at most `rank` steps of `own` have been made. -/
theorem response {P : σ → Prop} {Q : σ → α → σ → Prop} (own : α → Bool) (rank : σ → ℕ)
    (h : Run R s l t) (h₀ : P s)
    (hstep : ∀ s a t, P s → R s a t → Q s a t ∨ P t ∧ rank t + (own a).toNat ≤ rank s) :
    (∃ l₁ a l₂ u v, l = l₁ ++ a :: l₂ ∧ Run R s l₁ u ∧ R u a v ∧ Q u a v) ∨
      P t ∧ rank t + l.countP own ≤ rank s := by
  induction h with
  | nil => exact .inr ⟨h₀, by simp⟩
  | @snoc l u v a hrun hs ih =>
    rcases ih with ⟨l₁, b, l₂, u', v', rfl, hl⟩ | ⟨hP, hrank⟩
    · exact .inl ⟨l₁, b, l₂ ++ [a], u', v', by simp, hl⟩
    · rcases hstep u a v hP hs with hQ | ⟨hP', hrank'⟩
      · exact .inl ⟨l, a, [], u, v, rfl, hrun, hs, hQ⟩
      · refine .inr ⟨hP', ?_⟩
        have hcount : (l ++ [a]).countP own = l.countP own + (own a).toNat := by
          cases ha : own a <;> simp [ha]
        omega

/-- The simulation rule. An invariant is kept by every step, and what a step does to the abstract
state `f s` is one abstract step or nothing. Then every run is matched by an abstract run that is
not longer. -/
theorem simulate {ρ β : Type*} {Q : ρ → β → ρ → Prop} {I : σ → Prop} (f : σ → ρ)
    (h : Run R s l t) (h₀ : I s)
    (hstep : ∀ s a t, I s → R s a t → I t ∧ (f t = f s ∨ ∃ b, Q (f s) b (f t))) :
    I t ∧ ∃ l', Run Q (f s) l' (f t) ∧ l'.length ≤ l.length := by
  induction h with
  | nil => exact ⟨h₀, [], .nil, Nat.le_refl 0⟩
  | snoc _ hs ih =>
    obtain ⟨hI, l', hrun, hlen⟩ := ih
    obtain ⟨hI', heq | ⟨b, hb⟩⟩ := hstep _ _ _ hI hs
    · exact ⟨hI', l', heq ▸ hrun, by simp; omega⟩
    · exact ⟨hI', l' ++ [b], hrun.snoc hb, by simpa using hlen⟩

end Run

/-- The run of the labels `l` from `s`, as far as the guard and the step function allow it. -/
def trace (step : σ → α → Option σ) (ok : σ → α → Prop) [∀ s a, Decidable (ok s a)] (s : σ) :
    List α → Option σ
  | [] => some s
  | a :: l => if ok s a then (step s a).bind fun t => trace step ok t l else none

theorem run_of_trace {step : σ → α → Option σ} {ok : σ → α → Prop} [∀ s a, Decidable (ok s a)]
    {s t : σ} {l : List α} (h : trace step ok s l = some t) : Run (Guarded step ok) s l t := by
  induction l generalizing s with
  | nil =>
    cases h
    exact .nil
  | cons a l ih =>
    simp only [trace] at h
    split_ifs at h with hok
    obtain ⟨u, hu, ht⟩ := Option.bind_eq_some_iff.mp h
    exact Run.cons ⟨hok, hu⟩ (ih ht)

/-- The run of the labels `l`, when all of them are possible. -/
theorem run_trace {step : σ → α → Option σ} {ok : σ → α → Prop} [∀ s a, Decidable (ok s a)]
    {s : σ} {l : List α} (h : (trace step ok s l).isSome) :
    Run (Guarded step ok) s l ((trace step ok s l).get h) :=
  run_of_trace (Option.some_get h).symm

end Umcg
