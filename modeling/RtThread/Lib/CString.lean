import Mathlib.Data.List.TakeWhile
import Mathlib.Tactic.Common

/-!
# Strings that end with a NUL

* `cString`: the characters before the NUL; `cString_append`: of a text and its NUL; `cString_split`: what
  stands behind them;
* `CStr`: characters without a NUL; `strncmpEq`: two such strings are compared.
-/

namespace RtThread

/-- The characters of a string in memory. -/
def cString (s : List UInt8) : List UInt8 := s.takeWhile (· ≠ 0)

/-- The characters of a string. -/
structure CStr where
  chars : List UInt8
  no_nul : (0 : UInt8) ∉ chars

/-- `strncmp(s, t, n) == 0`, of the characters of two strings. -/
def strncmpEq (s t : List UInt8) (n : ℕ) : Bool := s.take n = t.take n

theorem strncmpEq_length {s t : List UInt8} : strncmpEq s t s.length = true ↔ s <+: t := by
  rw [strncmpEq, decide_eq_true_eq, List.take_length]
  exact List.prefix_iff_eq_take.symm

theorem cString_cons (c : UInt8) (s : List UInt8) :
    cString (c :: s) = if c ≠ 0 then c :: cString s else [] := by
  by_cases h : c = 0
  · simp [cString, h]
  · simp [cString, h]

theorem cString_take : ∀ {s : List UInt8} {n : ℕ}, n ≤ (cString s).length →
    s.take n = (cString s).take n := by
  intro s
  induction s with
  | nil => intro n _; rfl
  | cons c s ih =>
    intro n hn
    rw [cString_cons] at hn ⊢
    split_ifs at hn ⊢ with h
    · cases n with
      | zero => rfl
      | succ n =>
        rw [List.take_succ_cons, List.take_succ_cons, ih (Nat.le_of_succ_le_succ hn)]
    · obtain rfl : n = 0 := Nat.le_zero.mp hn
      rfl

theorem cString_length_le (l : List UInt8) : (cString l).length ≤ l.length :=
  (List.takeWhile_prefix _).length_le

/-- A list without a NUL is all of its string. -/
theorem cString_eq_self {l : List UInt8} : cString l = l ↔ (0 : UInt8) ∉ l := by
  rw [cString, List.takeWhile_eq_self_iff]
  constructor
  · intro h hmem
    have hne := h 0 hmem
    simp at hne
  · intro h c hc
    simpa using fun e : c = 0 => h (e ▸ hc)

/-- What stands before the first NUL. -/
theorem cString_append {s : List UInt8} (h : (0 : UInt8) ∉ s) (t : List UInt8) :
    cString (s ++ 0 :: t) = s := by
  induction s with
  | nil => rfl
  | cons c s ih =>
    have hc : (0 : UInt8) ≠ c := fun e => h (e ▸ List.mem_cons_self)
    have hs : (0 : UInt8) ∉ s := fun e => h (List.mem_cons_of_mem _ e)
    rw [List.cons_append, cString_cons, if_pos (Ne.symm hc), ih hs]

theorem cString_no_nul (l : List UInt8) : (0 : UInt8) ∉ cString l := by
  intro h
  have hne := List.mem_takeWhile_imp h
  simp at hne

/-- A string with its NUL and what stands behind. -/
theorem cString_split {l : List UInt8} (h : (cString l).length < l.length) :
    ∃ rest, l = cString l ++ 0 :: rest := by
  induction l with
  | nil => exact absurd h (Nat.lt_irrefl 0)
  | cons c l ih =>
    rw [cString_cons] at h ⊢
    by_cases hc : c = 0
    · exact ⟨l, by rw [if_neg (not_not.mpr hc), hc, List.nil_append]⟩
    · rw [if_pos hc] at h ⊢
      obtain ⟨rest, hrest⟩ := ih (Nat.lt_of_succ_lt_succ h)
      exact ⟨rest, by rw [List.cons_append, ← hrest]⟩

/-- Characters without a NUL in front of others. -/
theorem cString_append_text {s : List UInt8} (h : (0 : UInt8) ∉ s) (t : List UInt8) :
    cString (s ++ t) = s ++ cString t := by
  refine List.takeWhile_append_of_pos fun c hc => ?_
  simpa using fun e : c = 0 => h (e ▸ hc)

/-- The string is empty. -/
theorem cString_eq_nil {l : List UInt8} : (0 ∈ l ∧ cString l = []) ↔ l.head? = some 0 := by
  cases l with
  | nil => simp
  | cons c l =>
    rw [cString_cons, List.head?_cons]
    by_cases hc : c = 0 <;> simp [hc]

end RtThread
