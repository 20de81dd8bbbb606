import Mathlib.Data.List.Basic

/-!
# Lists sorted up to a rotation

`CyclicSorted r l`: some rotation of `l` is sorted for `r`, so that `l` goes round once. It is kept
by sublists; an element is appended between the second turn and the first one (`append`), either of
which may be empty.
-/

namespace RtThread

/-- The list is a sorted list cut in two, the later part first. -/
def CyclicSorted {α : Type} (r : α → α → Prop) (l : List α) : Prop :=
  ∃ l₁ l₂, l = l₁ ++ l₂ ∧ (l₂ ++ l₁).Pairwise r

namespace CyclicSorted

variable {α : Type} {r s : α → α → Prop} {l l' l₁ l₂ : List α} {a : α}

theorem of_pairwise (h : l.Pairwise r) : CyclicSorted r l :=
  ⟨l, [], (List.append_nil l).symm, h⟩

theorem sublist (h : CyclicSorted r l) (hs : l'.Sublist l) : CyclicSorted r l' := by
  obtain ⟨l₁, l₂, rfl, hp⟩ := h
  obtain ⟨k₁, k₂, rfl, h1, h2⟩ := List.sublist_append_iff.mp hs
  exact ⟨k₁, k₂, rfl, hp.sublist (h2.append h1)⟩

/-- **One turn or two.** -/
theorem sorted_or_wrapped (h : CyclicSorted r l) :
    l.Pairwise r ∨ ∃ a l₁ l₂ b, l = a :: l₁ ++ (l₂ ++ [b]) ∧
      (l₂ ++ [b] ++ a :: l₁).Pairwise r := by
  obtain ⟨l₁, l₂, rfl, hp⟩ := h
  cases l₁ with
  | nil =>
    rw [List.append_nil] at hp
    exact .inl hp
  | cons a l₁ =>
    rcases List.eq_nil_or_concat l₂ with rfl | ⟨l₂, b, rfl⟩
    · rw [List.append_nil]
      exact .inl hp
    · rw [List.concat_eq_append] at *
      exact .inr ⟨a, l₁, l₂, b, rfl, hp⟩

/-- What follows from the order for two elements in either order holds of every two. -/
theorem pairwise (h : CyclicSorted r l) (hrs : ∀ {a b}, r a b → s a b)
    (hsym : ∀ {a b}, s a b → s b a) : l.Pairwise s := by
  obtain ⟨l₁, l₂, rfl, hp⟩ := h
  exact (hp.imp hrs).perm List.perm_append_comm hsym

/-- **An element is appended** where the first turn comes after it and the second one before it. -/
theorem append (h : (l₂ ++ l₁).Pairwise r) (h1 : ∀ b ∈ l₁, r a b) (h2 : ∀ b ∈ l₂, r b a) :
    CyclicSorted r (l₁ ++ l₂ ++ [a]) := by
  obtain ⟨hp2, hp1, h21⟩ := List.pairwise_append.mp h
  refine ⟨l₁, l₂ ++ [a], List.append_assoc _ _ _, ?_⟩
  rw [List.append_assoc, List.singleton_append]
  refine List.pairwise_append.mpr ⟨hp2, List.pairwise_cons.mpr ⟨h1, hp1⟩, fun b hb c hc => ?_⟩
  rcases List.mem_cons.mp hc with rfl | hc
  · exact h2 b hb
  · exact h21 b hb c hc

end CyclicSorted

end RtThread
