import Mathlib.Data.List.Basic

/-!
# Writers

A writer puts symbols into a sink, and does not look at what the sink does with them: it is given
`put : σ → α → σ` for any `σ`. `Writes f text` says that it puts `text`.

* `Writes.id`, `Writes.put`, `Writes.comp`, `Writes.ite`, `Writes.repeatPut`: the rules.
-/

namespace RtThread

/-- A writer of symbols, for every sink. -/
abbrev Writer (α : Type) := ∀ σ : Type, (σ → α → σ) → σ → σ

/-- The writer puts the symbols of `text` into the sink, in this order. -/
def Writes {α : Type} (f : Writer α) (text : List α) : Prop :=
  ∀ (σ : Type) (put : σ → α → σ) (o : σ), f σ put o = text.foldl put o

/-- The sink that collects the text. -/
def append {α : Type} (l : List α) (a : α) : List α := l ++ [a]

/-- The same symbol, `n` times. -/
def repeatPut {α σ : Type} (put : σ → α → σ) (a : α) : ℕ → σ → σ
  | 0, o => o
  | n + 1, o => repeatPut put a n (put o a)

section

variable {α : Type} {f g : Writer α} {t u : List α}

theorem foldl_append_eq (l t : List α) : t.foldl append l = l ++ t := by
  induction t generalizing l with
  | nil => simp
  | cons a t ih =>
    rw [List.foldl_cons, ih, append, List.append_assoc, List.singleton_append]

namespace Writes

theorem id : Writes (fun _ _ o => o) ([] : List α) := fun _ _ _ => rfl

theorem put (a : α) : Writes (fun _ put o => put o a) [a] := fun _ _ _ => rfl

/-- One writer after the other. -/
theorem comp (hf : Writes f t) (hg : Writes g u) :
    Writes (fun σ put o => g σ put (f σ put o)) (t ++ u) := fun σ put o => by
  show g σ put (f σ put o) = _
  rw [hf σ put o, hg σ put, List.foldl_append]

/-- A writer that depends on a condition. -/
theorem ite (p : Prop) [Decidable p] (hf : Writes f t) (hg : Writes g u) :
    Writes (fun σ put o => if p then f σ put o else g σ put o) (if p then t else u) :=
  fun σ put o => by
    by_cases hp : p
    · simp only [if_pos hp]
      exact hf σ put o
    · simp only [if_neg hp]
      exact hg σ put o

/-- A writer that depends on a condition, or writes nothing. -/
theorem when (p : Prop) [Decidable p] (hf : Writes f t) :
    Writes (fun σ put o => if p then f σ put o else o) (if p then t else []) :=
  hf.ite p .id

theorem repeatPut (a : α) (n : ℕ) :
    Writes (fun _ put o => RtThread.repeatPut put a n o) (List.replicate n a) := fun σ put o => by
  induction n generalizing o with
  | zero => rfl
  | succ n ih => exact ih (put o a)

theorem foldl (l : List α) : Writes (fun _ put o => l.foldl put o) l := fun _ _ _ => rfl

end Writes

end

end RtThread
