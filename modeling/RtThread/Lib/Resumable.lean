import Mathlib.Tactic.Common

/-!
# Machines that resume on a growing input

A step looks at the state and the unread input, and says whether the machine goes on or waits for more
input. It is **resumable** when more input changes no step that went on, and a step that waited may be
taken again from the state it left.

* `RunsOn`: steps until the machine waits; `RunsOn.unique`;
* **`RunsOn.resume`**: a run that waits and goes on with more input is a run on all of it;
* `Feeds`, **`Feeds.runs`**: so is a run on pieces, however the input is split.
-/

namespace RtThread

/-- Steps until the machine waits. -/
inductive RunsOn {σ α : Type} (step : σ → List α → σ × List α × Bool) :
    σ → List α → σ → List α → Prop where
  | wait {c c' : σ} {q q' : List α} : step c q = (c', q', false) → RunsOn step c q c' q'
  | go {c c₁ c' : σ} {q q₁ q' : List α} :
    step c q = (c₁, q₁, true) → RunsOn step c₁ q₁ c' q' → RunsOn step c q c' q'

/-- RunsOn on one piece after the other. -/
inductive Feeds {σ α : Type} (step : σ → List α → σ × List α × Bool) :
    σ → List α → List (List α) → σ → List α → Prop where
  | nil {c : σ} {q : List α} : Feeds step c q [] c q
  | cons {c c₁ c' : σ} {p q q₁ q' : List α} {ps : List (List α)} :
    RunsOn step c (q ++ p) c₁ q₁ → Feeds step c₁ q₁ ps c' q' → Feeds step c q (p :: ps) c' q'

/-- A step that goes on is the same with more input, and one that waits keeps the input and may be taken
again from the state it leaves. -/
structure Resumable {σ α : Type} (step : σ → List α → σ × List α × Bool) : Prop where
  go : ∀ {c q c' q'} (p), step c q = (c', q', true) → step c (q ++ p) = (c', q' ++ p, true)
  wait : ∀ {c q c' q'} (p), step c q = (c', q', false) → q' = q ∧ step c (q ++ p) = step c' (q ++ p)

section

variable {σ α : Type} {step : σ → List α → σ × List α × Bool} {c c' c₁ c₂ : σ}
  {p q q' q₁ q₂ : List α} {ps : List (List α)}

theorem RunsOn.unique (h₁ : RunsOn step c q c₁ q₁) (h₂ : RunsOn step c q c₂ q₂) : c₁ = c₂ ∧ q₁ = q₂ := by
  induction h₁ with
  | wait hst =>
    cases h₂ with
    | wait hst' =>
      rw [hst] at hst'
      cases hst'
      exact ⟨rfl, rfl⟩
    | go hst' _ =>
      rw [hst] at hst'
      cases hst'
  | go hst _ ih =>
    cases h₂ with
    | wait hst' =>
      rw [hst] at hst'
      cases hst'
    | go hst' hrun =>
      rw [hst] at hst'
      cases hst'
      exact ih hrun

theorem RunsOn.of_eq (he : step c q = step c' q) (h : RunsOn step c' q c₁ q₁) : RunsOn step c q c₁ q₁ := by
  cases h with
  | wait hst => exact .wait (he.trans hst)
  | go hst hrun => exact .go (he.trans hst) hrun

/-- A machine that waits stays where it is. -/
theorem RunsOn.halted (hr : Resumable step) (h : RunsOn step c q c' q') : step c' q' = (c', q', false) := by
  induction h with
  | wait hst =>
    obtain ⟨rfl, he⟩ := hr.wait [] hst
    rw [List.append_nil] at he
    exact he.symm.trans hst
  | go _ _ ih => exact ih

/-- **A run that goes on with more input.** -/
theorem RunsOn.resume (hr : Resumable step) (h : RunsOn step c q c₁ q₁)
    (h' : RunsOn step c₁ (q₁ ++ p) c₂ q₂) : RunsOn step c (q ++ p) c₂ q₂ := by
  induction h with
  | wait hst =>
    obtain ⟨rfl, he⟩ := hr.wait p hst
    exact h'.of_eq he
  | go hst _ ih => exact .go (hr.go p hst) (ih h')

/-- **A run on pieces is a run on the whole input.** -/
theorem Feeds.runs (hr : Resumable step) (hc : step c q = (c, q, false))
    (h : Feeds step c q ps c' q') : RunsOn step c (q ++ ps.flatten) c' q' := by
  induction h with
  | nil =>
    rw [List.flatten_nil, List.append_nil]
    exact .wait hc
  | cons hrun _ ih =>
    rw [List.flatten_cons, ← List.append_assoc]
    exact hrun.resume hr (ih (hrun.halted hr))

end

end RtThread
