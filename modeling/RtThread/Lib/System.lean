import Mathlib.Algebra.Ring.Nat
import Mathlib.Tactic.Common

/-!
# Labelled systems and their runs

A **system** has initial states and a partial step function; a label names the step and carries its
arguments. `Reach ok` are the states of the runs all of whose steps satisfy `ok`, a condition on the
state before the step and the label.

* `Reach.invariant`: what holds at the start and is kept by every step holds of every reached state;
* `Reach.mono`: a weaker condition reaches more;
* `exists_reach`: the last state of an executed trace is reached.
-/

namespace RtThread

/-- The literals of `Fin 2`, for the runs of two parties. -/
instance neZeroTwo : NeZero 2 := ⟨by decide⟩

/-- The literals of `Fin 3`. -/
instance neZeroThree : NeZero 3 := ⟨by decide⟩

/-- A labelled system with a partial step function. -/
structure System (σ α : Type) where
  init : σ → Prop
  step : σ → α → Option σ

namespace System

variable {σ α : Type} (S : System σ α)

/-- The states reached by steps that satisfy `ok`. -/
inductive Reach (ok : σ → α → Bool) : σ → Prop where
  | init {s : σ} : S.init s → Reach ok s
  | step {s s' : σ} {a : α} : Reach ok s → ok s a = true → S.step s a = some s' → Reach ok s'

/-- Every step is allowed. -/
abbrev anyStep : σ → α → Bool := fun _ _ => true

variable {S} {ok ok' : σ → α → Bool}

/-- **Invariants.** -/
theorem Reach.invariant {I : σ → Prop} (h0 : ∀ s, S.init s → I s)
    (h : ∀ s a s', I s → ok s a = true → S.step s a = some s' → I s') {s : σ}
    (hs : S.Reach ok s) : I s := by
  induction hs with
  | init h => exact h0 _ h
  | step _ hok hst ih => exact h _ _ _ ih hok hst

theorem Reach.mono (hle : ∀ s a, ok s a = true → ok' s a = true) {s : σ} (hs : S.Reach ok s) :
    S.Reach ok' s := by
  induction hs with
  | init h => exact .init h
  | step _ hok hst ih => exact ih.step (hle _ _ hok) hst

variable (S) in
/-- Execute a trace, testing the condition before every step. -/
def run (ok : σ → α → Bool) : σ → List α → Option σ
  | s, [] => some s
  | s, a :: as => if ok s a then (S.step s a).bind fun s' => run ok s' as else none

theorem Reach.run {s s' : σ} (hs : S.Reach ok s) {l : List α} (h : S.run ok s l = some s') :
    S.Reach ok s' := by
  induction l generalizing s with
  | nil => cases h; exact hs
  | cons a l ih =>
    simp only [System.run] at h
    split_ifs at h with hok
    obtain ⟨s₁, h₁, h₂⟩ := Option.bind_eq_some_iff.mp h
    exact ih (hs.step hok h₁) h₂

/-- **A trace that runs to its end reaches its last state.** -/
theorem exists_reach (S : System σ α) (ok : σ → α → Bool) (p : σ → Bool) {s : σ} (hs : S.init s)
    (as : List α) (h : (S.run ok s as).any p = true) : ∃ s', S.Reach ok s' ∧ p s' = true := by
  obtain ⟨s', hs', hp⟩ := (Option.any_eq_true _ _).mp h
  exact ⟨s', (Reach.init hs).run hs', hp⟩

end System

end RtThread
