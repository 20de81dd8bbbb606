import Mathlib.Data.List.Infix

/-!
# Common beginnings of lists

* `commonPrefix`, `commonPrefixAll`: of two lists, and of all lists of a list;
* `IsLongestPrefix`: what the latter is (`commonPrefixAll_spec`), and it is the only one (`unique`);
* `commonPrefixAll_concat`: one more list, measured against the first one.
-/

set_option linter.unusedSectionVars false

namespace RtThread

variable {α : Type*} [DecidableEq α] {l m p : List α} {ls : List (List α)}

/-- What two lists have in common at their beginnings. -/
def commonPrefix : List α → List α → List α
  | a :: l, b :: m => if a = b then a :: commonPrefix l m else []
  | _, _ => []

/-- What all the lists have in common at their beginnings. -/
def commonPrefixAll : List (List α) → List α
  | [] => []
  | l :: ls => ls.foldl commonPrefix l

/-- The longest list with which all the lists begin. -/
structure IsLongestPrefix (p : List α) (ls : List (List α)) : Prop where
  common : ∀ l ∈ ls, p <+: l
  longest : ∀ q, (∀ l ∈ ls, q <+: l) → q <+: p

/-! ## Two lists -/

theorem commonPrefix_cons (a b : α) (l m : List α) :
    commonPrefix (a :: l) (b :: m) = if a = b then a :: commonPrefix l m else [] := rfl

theorem commonPrefix_left (l m : List α) : commonPrefix l m <+: l := by
  induction l generalizing m with
  | nil => exact List.prefix_rfl
  | cons a l ih =>
    cases m with
    | nil => exact List.nil_prefix
    | cons b m =>
      rw [commonPrefix_cons]
      split
      · exact (List.cons_prefix_cons).mpr ⟨rfl, ih m⟩
      · exact List.nil_prefix

theorem commonPrefix_comm (l m : List α) : commonPrefix l m = commonPrefix m l := by
  induction l generalizing m with
  | nil => cases m <;> rfl
  | cons a l ih =>
    cases m with
    | nil => rfl
    | cons b m =>
      rw [commonPrefix_cons, commonPrefix_cons]
      by_cases h : a = b
      · rw [if_pos h, if_pos h.symm, h, ih]
      · rw [if_neg h, if_neg (Ne.symm h)]

theorem commonPrefix_right (l m : List α) : commonPrefix l m <+: m := by
  rw [commonPrefix_comm]
  exact commonPrefix_left m l

theorem prefix_commonPrefix (hl : p <+: l) (hm : p <+: m) : p <+: commonPrefix l m := by
  induction p generalizing l m with
  | nil => exact List.nil_prefix
  | cons a p ih =>
    cases l with
    | nil => exact absurd (List.prefix_nil.mp hl) (List.cons_ne_nil a p)
    | cons b l =>
      cases m with
      | nil => exact absurd (List.prefix_nil.mp hm) (List.cons_ne_nil a p)
      | cons c m =>
        obtain ⟨hab, hl⟩ := List.cons_prefix_cons.mp hl
        obtain ⟨hac, hm⟩ := List.cons_prefix_cons.mp hm
        rw [commonPrefix_cons, if_pos (hab.symm.trans hac)]
        exact List.cons_prefix_cons.mpr ⟨hab, ih hl hm⟩

/-- A beginning of the first list has in common with the second at most what all of it has. -/
theorem commonPrefix_take (l m : List α) (n : ℕ) :
    commonPrefix (l.take n) m = l.take (min n (commonPrefix l m).length) := by
  induction l generalizing m n with
  | nil => cases n <;> cases m <;> rfl
  | cons a l ih =>
    cases n with
    | zero =>
      rw [Nat.zero_min]
      cases m <;> rfl
    | succ n =>
      cases m with
      | nil => rfl
      | cons b m =>
        rw [List.take_succ_cons, commonPrefix_cons, commonPrefix_cons]
        split
        · rw [ih, List.length_cons, Nat.succ_min_succ, List.take_succ_cons]
        · rw [List.length_nil, Nat.min_zero, List.take_zero]

/-! ## All lists -/

theorem foldl_commonPrefix (l : List α) (ls : List (List α)) :
    IsLongestPrefix (ls.foldl commonPrefix l) (l :: ls) := by
  induction ls generalizing l with
  | nil =>
    refine ⟨fun m hm => ?_, fun q hq => hq l List.mem_cons_self⟩
    rw [List.mem_singleton.mp hm]
    exact List.prefix_rfl
  | cons k ls ih =>
    have hk := ih (commonPrefix l k)
    have hfirst := hk.common _ List.mem_cons_self
    refine ⟨fun m hm => ?_, fun q hq => hk.longest q fun m hm => ?_⟩
    · rcases List.mem_cons.mp hm with rfl | hm
      · exact hfirst.trans (commonPrefix_left m k)
      · rcases List.mem_cons.mp hm with rfl | hm
        · exact hfirst.trans (commonPrefix_right l m)
        · exact hk.common m (List.mem_cons_of_mem _ hm)
    · rcases List.mem_cons.mp hm with rfl | hm
      · exact prefix_commonPrefix (hq l List.mem_cons_self)
          (hq k (List.mem_cons_of_mem _ List.mem_cons_self))
      · exact hq m (List.mem_cons_of_mem _ (List.mem_cons_of_mem _ hm))

theorem commonPrefixAll_spec (h : ls ≠ []) : IsLongestPrefix (commonPrefixAll ls) ls := by
  cases ls with
  | nil => exact absurd rfl h
  | cons l ls => exact foldl_commonPrefix l ls

theorem IsLongestPrefix.unique {q : List α} (h : IsLongestPrefix p ls) (h' : IsLongestPrefix q ls) :
    p = q :=
  (h'.longest p h.common).eq_of_length_le (h.longest q h'.common).length_le

/-- The lists behind the same beginning. -/
theorem commonPrefixAll_append (d : List α) (h : ls ≠ []) :
    commonPrefixAll (ls.map (d ++ ·)) = d ++ commonPrefixAll ls := by
  have hs := commonPrefixAll_spec h
  have hmap : ls.map (d ++ ·) ≠ [] := fun he => h (List.map_eq_nil_iff.mp he)
  refine (commonPrefixAll_spec hmap).unique ⟨fun l hl => ?_, fun q hq => ?_⟩
  · obtain ⟨m, hm, rfl⟩ := List.mem_map.mp hl
    exact (List.prefix_append_right_inj d).mpr (hs.common m hm)
  · obtain ⟨m, hm⟩ := List.exists_mem_of_ne_nil ls h
    have hq' := fun l hl => hq (d ++ l) (List.mem_map_of_mem hl)
    rcases List.prefix_or_prefix_of_prefix (hq' m hm) (List.prefix_append d m) with hqd | ⟨r, rfl⟩
    · exact hqd.trans (List.prefix_append d _)
    · exact (List.prefix_append_right_inj d).mpr
        (hs.longest r fun l hl => (List.prefix_append_right_inj d).mp (hq' l hl))

/-- **One more list**: the first one, cut off where the new one differs. -/
theorem commonPrefixAll_concat (l m : List α) (ls : List (List α)) :
    commonPrefixAll (l :: ls ++ [m]) =
      l.take (min (commonPrefixAll (l :: ls)).length (commonPrefix l m).length) := by
  have hl : commonPrefixAll (l :: ls) = l.take (commonPrefixAll (l :: ls)).length :=
    List.prefix_iff_eq_take.mp ((foldl_commonPrefix l ls).common l List.mem_cons_self)
  have hfold : commonPrefixAll (l :: ls ++ [m]) = commonPrefix (commonPrefixAll (l :: ls)) m := by
    show (ls ++ [m]).foldl commonPrefix l = _
    rw [List.foldl_append]
    rfl
  rw [hfold, ← commonPrefix_take, ← hl]

end RtThread
