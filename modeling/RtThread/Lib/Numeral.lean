import Mathlib.Data.List.Basic
import Mathlib.Data.Nat.Digits.Defs

/-!
# Numerals

A text of digits is read from left to right; `val` gives the value of a symbol that is a digit.

* `readDigits`: the number a text denotes; `readDigits_append`, `readDigits_mem`, `readDigits_zeros`;
* `readDigits_digits`: the digits of a number denote it, the last one of `Nat.digits` first;
* `strip_zeros`: texts that do not begin with zero are determined with zeros in front.
-/

namespace RtThread

section

variable {α : Type} {val : α → Option ℕ} {base n : ℕ} {z : α} {l m : List α}

/-- The number that `n` becomes when the digits of a text are put behind it. -/
def readDigits (val : α → Option ℕ) (base : ℕ) : List α → ℕ → Option ℕ
  | [], n => some n
  | a :: l, n => (val a).bind fun d => if d < base then readDigits val base l (n * base + d) else none

theorem readDigits_cons (a : α) (l : List α) (n : ℕ) : readDigits val base (a :: l) n =
    (val a).bind fun d => if d < base then readDigits val base l (n * base + d) else none := rfl

theorem readDigits_append (l m : List α) (n : ℕ) :
    readDigits val base (l ++ m) n = (readDigits val base l n).bind (readDigits val base m) := by
  induction l generalizing n with
  | nil => rfl
  | cons a l ih =>
    rw [List.cons_append, readDigits_cons, readDigits_cons]
    cases val a with
    | none => rfl
    | some d =>
      rw [Option.bind_some, Option.bind_some]
      by_cases hd : d < base
      · rw [if_pos hd, if_pos hd]
        exact ih _
      · rw [if_neg hd, if_neg hd]
        rfl

/-- All that is read is digits. -/
theorem readDigits_mem {m : ℕ} (h : readDigits val base l n = some m) : ∀ a ∈ l, val a ≠ none := by
  induction l generalizing n with
  | nil => exact fun a ha => absurd ha List.not_mem_nil
  | cons b l ih =>
    rw [readDigits_cons] at h
    obtain ⟨d, hd, hrest⟩ := Option.bind_eq_some_iff.mp h
    intro a ha
    by_cases hlt : d < base
    · rw [if_pos hlt] at hrest
      rcases List.mem_cons.mp ha with rfl | hin
      · rw [hd]
        exact Option.some_ne_none d
      · exact ih hrest a hin
    · rw [if_neg hlt] at hrest
      exact absurd hrest (by simp)

/-- Zeros in front do not matter. -/
theorem readDigits_zeros (hz : val z = some 0) (hb : 0 < base) (k : ℕ) (l : List α) :
    readDigits val base (List.replicate k z ++ l) 0 = readDigits val base l 0 := by
  induction k with
  | zero => rfl
  | succ k ih =>
    rw [List.replicate_succ, List.cons_append, readDigits_cons, hz, Option.bind_some, if_pos hb,
      Nat.zero_mul]
    exact ih

/-- **The digits of a number denote it.** -/
theorem readDigits_digits {f : ℕ → α} (hb : 2 ≤ base) (hf : ∀ d < base, val (f d) = some d) (n : ℕ) :
    readDigits val base ((Nat.digits base n).map f).reverse 0 = some n := by
  induction n using Nat.strong_induction_on with
  | _ n ih =>
    by_cases h0 : n = 0
    · subst h0
      rw [Nat.digits_zero]
      rfl
    · have hlt : n / base < n := Nat.div_lt_self (Nat.pos_of_ne_zero h0) hb
      have hmod : n % base < base := Nat.mod_lt _ (by omega)
      rw [Nat.digits_def' hb (Nat.pos_of_ne_zero h0), List.map_cons, List.reverse_cons,
        readDigits_append, ih _ hlt, Option.bind_some, readDigits, hf _ hmod, Option.bind_some,
        if_pos hmod, readDigits, Nat.div_add_mod']

/-- The first of the digits is not zero. -/
theorem head?_digits {f : ℕ → α} (hb : 2 ≤ base) (hf : ∀ d < base, f d = z → d = 0) (n : ℕ) :
    ((Nat.digits base n).map f).reverse.head? ≠ some z := by
  induction n using Nat.strong_induction_on with
  | _ n ih =>
    by_cases h0 : n = 0
    · subst h0
      rw [Nat.digits_zero]
      simp
    · have hpos := Nat.pos_of_ne_zero h0
      rw [Nat.digits_def' hb hpos, List.map_cons, List.reverse_cons]
      by_cases hlt : n < base
      · rw [Nat.div_eq_of_lt hlt, Nat.digits_zero, Nat.mod_eq_of_lt hlt]
        intro h
        exact h0 (hf n hlt (Option.some.inj h))
      · have hne : ((Nat.digits base (n / base)).map f).reverse ≠ [] := by
          have hdiv : n / base ≠ 0 := by
            have := Nat.div_pos (Nat.le_of_not_lt hlt) (by omega)
            omega
          simpa using Nat.digits_ne_nil_iff_ne_zero.mpr hdiv
        rw [List.head?_append_of_ne_nil _ hne]
        exact ih _ (Nat.div_lt_self hpos hb)

/-- **Zeros in front can be taken off.** -/
theorem strip_zeros {j k : ℕ} (hl : l.head? ≠ some z) (hm : m.head? ≠ some z)
    (h : List.replicate j z ++ l = List.replicate k z ++ m) : l = m := by
  induction j generalizing k with
  | zero =>
    cases k with
    | zero => exact h
    | succ k =>
      rw [List.replicate_zero, List.nil_append] at h
      rw [h, List.replicate_succ] at hl
      exact absurd rfl hl
  | succ j ih =>
    cases k with
    | zero =>
      rw [List.replicate_zero, List.nil_append] at h
      rw [← h, List.replicate_succ] at hm
      exact absurd rfl hm
    | succ k =>
      rw [List.replicate_succ, List.replicate_succ, List.cons_append, List.cons_append] at h
      exact ih (List.cons.inj h).2

end

end RtThread
