import RtThread.Kservice.Vsnprintf
import RtThread.Lib.Numeral

/-!
# What print_number prints

The text of an integer conversion, read back: spaces, the sign, the prefix, zeros, the digits and
spaces again. The width and the precision are counted in 32 bits, in the order in which
`print_number` adjusts `size`.

* `argValue`: the value of an argument; `signText`, `prefixText`: what stands before the digits;
* `NumberShown`: the text shows a value; `NumberFaithful`: the condition under which it does;
* `padding_total`: the characters of padding, by the adjustments of `size`;
* `numberSign_value`, `numberTmp_digits`: the sign and the digits;
* **`print_number_faithful`**: exactly when the text shows the value.
-/

namespace RtThread

/-! ## The text of a value -/

/-- The value of a digit. -/
def digitOf (c : UInt8) : Option ℕ :=
  if isDigit c then some (c.toNat - 48)
  else if chr 'a' ≤ c ∧ c ≤ chr 'f' then some (c.toNat - 97 + 10)
  else if chr 'A' ≤ c ∧ c ≤ chr 'F' then some (c.toNat - 65 + 10)
  else none

/-- The value of the argument of an integer conversion, by its type. -/
def argValue (longlong : Bool) (qualifier : UInt8) (flags : BitVec 8) (args : VaList) : ℤ :=
  if longlong = true ∧ qualifier = chr 'L' then
    if hasFlag flags fmtSign then (args 0).toInt else (args 0).toNat
  else if qualifier = chr 'h' then
    if hasFlag flags fmtSign then (args.arg.truncate 16).toInt else (args.arg.truncate 16).toNat
  else if hasFlag flags fmtSign then args.arg.toInt else args.arg.toNat

/-- What is passed to `print_number`: the argument of an integer conversion, or an unsigned number. -/
def NumberPassed (longlong : Bool) (qualifier : UInt8) (flags : BitVec 8) (args : VaList) (num : ℕ)
    (v : ℤ) : Prop :=
  (num = numberArg longlong qualifier flags args ∧ v = argValue longlong qualifier flags args) ∨
    (¬ hasFlag flags fmtSign ∧ num < 2 ^ numBits longlong ∧ v = num)

/-- The sign of a value. -/
def signText (flags : BitVec 8) (v : ℤ) : List UInt8 :=
  if hasFlag flags fmtSign then
    if v < 0 then [chr '-']
    else if hasFlag flags fmtPlus then [chr '+']
    else if hasFlag flags fmtSpace then [chr ' ']
    else []
  else []

/-- The text is the value in this base, with padding, sign and prefix, and as long as it should be. -/
def NumberShown (text : List UInt8) (v : ℤ) (base : ℕ) (sign pfx : List UInt8) (width precision : ℤ) :
    Prop :=
  ∃ (front zeros back : ℕ) (digits : List UInt8),
    text = List.replicate front (chr ' ') ++ sign ++ pfx ++ List.replicate zeros (chr '0') ++ digits ++
      List.replicate back (chr ' ') ∧
    readDigits digitOf base digits 0 = some v.natAbs ∧ (v ≠ 0 → digits ≠ []) ∧
    (digits.head? = some (chr '0') → digits = [chr '0']) ∧
    (text.length : ℤ) = max width (sign.length + pfx.length + max (digits.length : ℤ) precision)

/-- The number of digits that are printed. -/
def digitCount (base n : ℕ) : ℕ := if n = 0 then 1 else (Nat.digits base n).length

/-- How often `size` is decremented before its last test, besides for the padding. -/
def sizeSteps (flags : BitVec 8) (sign : List UInt8) : ℤ :=
  (if hasFlag flags (fmtZeroPad ||| fmtLeft) then 0 else 1) + sign.length +
    (if hasFlag flags fmtLeft then 0 else 1)

/-- The sign of a 64-bit value is looked for in its low 32 bits. -/
def LowSigned (longlong : Bool) (qualifier : UInt8) (flags : BitVec 8) (v : ℤ) : Prop :=
  longlong = true → qualifier = chr 'L' → hasFlag flags fmtSign →
    (v < 0 → -2 ^ 31 ≤ v) ∧ (0 ≤ v → v % 2 ^ 32 < 2 ^ 31)

/-- `size` does not wrap, or comes round to no padding. -/
def SizeFits (flags : BitVec 8) (sign pfx : List UInt8) (width p : ℤ) : Prop :=
  -2 ^ 31 ≤ width - pfx.length - p - sizeSteps flags sign ∨
    2 ^ 32 + width ≤ sign.length + pfx.length + p

/-- The condition for a faithful conversion. -/
structure NumberFaithful (longlong : Bool) (qualifier : UInt8) (flags : BitVec 8) (v : ℤ) (base : ℕ)
    (width precision : ℤ) : Prop where
  sign : LowSigned longlong qualifier flags v
  digits : precision = 0 → v = 0 ∧
    width ≤ (signText flags v).length + (prefixText flags base).length
  size : SizeFits flags (signText flags v) (prefixText flags base) width
    (max (digitCount base v.natAbs : ℤ) precision)

/-! ## The padding -/

section

variable {size : BitVec 32} {sign : UInt8} {pads right : Prop} [Decidable pads] [Decidable right]

theorem padRest_toInt (size : BitVec 32) : (padRest size).toInt =
    if 0 < size.toInt then -1 else if size.toInt = -2 ^ 31 then 2 ^ 31 - 1 else size.toInt - 1 := by
  unfold padRest
  by_cases h : 0 < size.toInt
  · rw [if_pos h, if_pos h]
    decide
  · rw [if_neg h, if_neg h]
    exact toInt_pred size

/-- The characters of padding. -/
def padding (sign : UInt8) (pads right : Prop) [Decidable pads] [Decidable right]
    (size : BitVec 32) : ℕ :=
  (if pads then (frontSize sign pads size).toInt.toNat else 0) +
    (if right then (midSize sign pads size).toInt.toNat else 0) +
    (backSize sign pads right size).toInt.toNat

/-- How often `size` is decremented before its last test. -/
def steps (sign : UInt8) (pads right : Prop) [Decidable pads] [Decidable right] : ℤ :=
  (if pads then 1 else 0) + (if sign ≠ 0 then 1 else 0) + (if right then 1 else 0)

/-- **The padding**, where `size` does not wrap: as much as is left besides the sign, and none behind the
sign when there is some in front. -/
theorem padding_total (sign : UInt8) (hpads : pads → right)
    (hsize : -2 ^ 31 ≤ size.toInt - steps sign pads right) :
    (padding sign pads right size : ℤ) = max 0 (size.toInt - (if sign ≠ 0 then 1 else 0)) ∧
      (pads → (midSize sign pads size).toInt.toNat = 0) := by
  have hlt := size.toInt_lt
  have hle := size.le_toInt
  by_cases hs : sign = 0 <;> by_cases hp : pads <;> by_cases hr : right <;>
    simp only [steps, padding, frontSize, midSize, backSize, hs, hp, hr, ne_eq,
      not_true_eq_false, not_false_eq_true, if_true, if_false, true_and, false_and, and_true,
      forall_const, false_implies, implies_true, toInt_pred, padRest_toInt,
      apply_ite BitVec.toInt] at hsize hpads ⊢
  all_goals first | split_ifs <;> omega | omega

/-- Where `size` wraps, there is padding without end. -/
theorem padding_wraps (sign : UInt8) (hpads : pads → right)
    (hsize : size.toInt - steps sign pads right < -2 ^ 31) :
    2 ^ 31 - 4 ≤ padding sign pads right size := by
  have hlt := size.toInt_lt
  have hle := size.le_toInt
  by_cases hs : sign = 0 <;> by_cases hp : pads <;> by_cases hr : right <;>
    simp only [steps, padding, frontSize, midSize, backSize, hs, hp, hr, ne_eq,
      not_true_eq_false, not_false_eq_true, if_true, if_false, true_and, false_and,
      forall_const, false_implies, implies_true, toInt_pred, padRest_toInt,
      apply_ite BitVec.toInt] at hsize hpads ⊢
  all_goals first | split_ifs <;> omega | omega

/-- What is left of the width, in 32 bits, without the prefix and `p` digits. -/
theorem left_toInt (flags : BitVec 8) (base : ℕ) (s p : BitVec 32) (hp : 0 ≤ p.toInt) :
    (prefixSize flags base s - p).toInt =
      if -2 ^ 31 ≤ s.toInt - (prefixText flags base).length - p.toInt then
        s.toInt - (prefixText flags base).length - p.toInt
      else s.toInt - (prefixText flags base).length - p.toInt + 2 ^ 32 := by
  have h1 : (1 : BitVec 32).toInt = 1 := by decide
  have h2 : (2 : BitVec 32).toInt = 2 := by decide
  have hs := s.toInt_lt
  have hs' := s.le_toInt
  have hp' := p.toInt_lt
  have hprefix : (prefixSize flags base s).toInt =
      (s.toInt - (prefixText flags base).length).bmod (2 ^ 32) ∧
        (prefixText flags base).length ≤ 2 := by
    have hself : s.toInt = s.toInt.bmod (2 ^ 32) := by
      rw [Int.bmod_def]
      split_ifs <;> omega
    unfold prefixSize prefixText
    by_cases hsp : hasFlag flags fmtSpecial
    · rw [if_pos hsp, if_pos hsp]
      by_cases hb2 : base = 2
      · rw [if_pos (Or.inl hb2), if_pos hb2, BitVec.toInt_sub, h2]
        exact ⟨rfl, le_rfl⟩
      · rw [if_neg hb2]
        by_cases hb8 : base = 8
        · rw [if_pos hb8, if_pos hb8, if_neg (by omega), BitVec.toInt_sub, h1]
          exact ⟨rfl, by decide⟩
        · rw [if_neg hb8, if_neg hb8]
          by_cases hb16 : base = 16
          · rw [if_pos (Or.inr hb16), if_pos hb16, BitVec.toInt_sub, h2]
            exact ⟨rfl, le_rfl⟩
          · rw [if_neg (by omega), if_neg hb16]
            exact ⟨by simpa using hself, by decide⟩
    · rw [if_neg hsp, if_neg hsp]
      exact ⟨by simpa using hself, by decide⟩
  rw [BitVec.toInt_sub, hprefix.1, Int.bmod_def, Int.bmod_def]
  have hle := hprefix.2
  split_ifs <;> omega

/-- The padding of a number that is left-adjusted or not, by what is left of the width. -/
theorem padding_cases (sign : UInt8) (flags : BitVec 8) (base : ℕ) (s p : BitVec 32) (hp : 0 ≤ p.toInt)
    (hpads : pads → right) :
    let e : ℤ := s.toInt - (prefixText flags base).length - p.toInt
    let σ : ℤ := if sign ≠ 0 then 1 else 0
    let size := prefixSize flags base s - p
    (-2 ^ 31 ≤ e - steps sign pads right ∧ (padding sign pads right size : ℤ) = max 0 (e - σ) ∧
        (pads → (midSize sign pads size).toInt.toNat = 0)) ∨
      (e - steps sign pads right < -2 ^ 31 ∧ -2 ^ 31 ≤ e ∧
        2 ^ 31 - 4 ≤ (padding sign pads right size : ℤ)) ∨
      (e < -2 ^ 31 ∧ (padding sign pads right size : ℤ) = max 0 (e + 2 ^ 32 - σ) ∧
        (pads → (midSize sign pads size).toInt.toNat = 0)) := by
  intro e σ size
  have hleft : size.toInt = if -2 ^ 31 ≤ e then e else e + 2 ^ 32 := left_toInt flags base s p hp
  have hsteps : 0 ≤ steps sign pads right ∧ steps sign pads right ≤ 3 := by
    unfold steps
    split_ifs <;> omega
  have hlow := size.le_toInt
  by_cases he : -2 ^ 31 ≤ e
  · rw [if_pos he] at hleft
    by_cases hst : -2 ^ 31 ≤ e - steps sign pads right
    · have h := padding_total sign hpads (hleft.symm ▸ hst)
      rw [hleft] at h
      exact .inl ⟨hst, h⟩
    · have h := padding_wraps sign hpads (by rw [hleft]; exact Int.not_le.mp hst)
      exact .inr (.inl ⟨Int.not_le.mp hst, he, by omega⟩)
  · rw [if_neg he] at hleft
    have hbound : (prefixText flags base).length ≤ 2 := by
      unfold prefixText
      split_ifs <;> simp
    have hs := s.le_toInt
    have hp' := p.toInt_lt
    have h := padding_total sign hpads (by omega : -2 ^ 31 ≤ size.toInt - steps sign pads right)
    rw [hleft] at h
    exact .inr (.inr ⟨Int.not_le.mp he, h⟩)

end

/-! ## The flags -/

section

variable {flags : BitVec 8}

/-- The flags without `ZEROPAD` when the number is left-adjusted. -/
def leftFlags (flags : BitVec 8) : BitVec 8 :=
  if hasFlag flags fmtLeft then flags &&& ~~~fmtZeroPad else flags

theorem leftFlags_and {f : BitVec 8} (hf : ~~~fmtZeroPad &&& f = f) :
    leftFlags flags &&& f = flags &&& f := by
  unfold leftFlags
  by_cases h : hasFlag flags fmtLeft
  · rw [if_pos h, BitVec.and_assoc, hf]
  · rw [if_neg h]

theorem leftFlags_prefixText (base : ℕ) : prefixText (leftFlags flags) base = prefixText flags base := by
  unfold prefixText hasFlag
  rw [leftFlags_and (f := fmtSpecial) (by decide), leftFlags_and (f := fmtLarge) (by decide)]

theorem leftFlags_size (base : ℕ) (size : BitVec 32) :
    prefixSize (leftFlags flags) base size = prefixSize flags base size := by
  unfold prefixSize hasFlag
  rw [leftFlags_and (f := fmtSpecial) (by decide)]

theorem leftFlags_left : hasFlag (leftFlags flags) fmtLeft ↔ hasFlag flags fmtLeft := by
  unfold hasFlag
  rw [leftFlags_and (f := fmtLeft) (by decide)]

theorem leftFlags_pads : hasFlag (leftFlags flags) (fmtZeroPad ||| fmtLeft) ↔
    hasFlag flags (fmtZeroPad ||| fmtLeft) := by
  revert flags
  decide

theorem zeroPad_of_pads (h : hasFlag flags (fmtZeroPad ||| fmtLeft)) (hl : ¬ hasFlag flags fmtLeft) :
    hasFlag (leftFlags flags) fmtZeroPad := by
  revert flags
  decide

theorem left_pads (hl : hasFlag flags fmtLeft) : hasFlag flags (fmtZeroPad ||| fmtLeft) := by
  revert flags
  decide

end

/-! ## The sign and the digits -/

section

variable {longlong : Bool} {qualifier : UInt8} {flags type : BitVec 8} {args : VaList} {num : ℕ} {v : ℤ}

/-- The character for the sign, by whether it is minus. -/
def signChar (flags : BitVec 8) (minus : Prop) [Decidable minus] : UInt8 :=
  if hasFlag flags fmtSign then
    if minus then chr '-'
    else if hasFlag flags fmtPlus then chr '+'
    else if hasFlag flags fmtSpace then chr ' '
    else 0
  else 0

/-- A number of `w` bits is taken for a negative one. -/
def takenMinus (w num : ℕ) : Prop := 2 ^ (w - 1) ≤ num % 2 ^ w

instance (w num : ℕ) : Decidable (takenMinus w num) := inferInstanceAs (Decidable (_ ≤ _))

/-- The absolute value that `print_number` takes. -/
def takenAbs (type : BitVec 8) (w num : ℕ) : ℕ :=
  if hasFlag type fmtSign ∧ takenMinus w num then (2 ^ w - num % 2 ^ w) % 2 ^ w else num

theorem numberSign_eq (type : BitVec 8) (qualifier : UInt8) (num : ℕ) :
    numberSign type qualifier num = (signChar type (takenMinus (signBits qualifier) num),
      takenAbs type (signBits qualifier) num) := by
  unfold numberSign signChar takenAbs
  by_cases hs : hasFlag type fmtSign
  · rw [if_pos hs, if_pos hs]
    by_cases hm : takenMinus (signBits qualifier) num
    · rw [if_pos hm, if_pos (And.intro hs hm)]
      exact if_pos hm
    · rw [if_neg hm, if_neg (fun h : _ ∧ _ => hm h.2)]
      refine (if_neg hm).trans ?_
      split_ifs <;> rfl
  · rw [if_neg hs, if_neg hs, if_neg (fun h : _ ∧ _ => hs h.1)]

/-- The sign is the sign of the value, when it is minus for the negative values. -/
theorem signText_eq (minus : Prop) [Decidable minus] (h : hasFlag flags fmtSign → (minus ↔ v < 0)) :
    (if signChar flags minus ≠ 0 then [signChar flags minus] else []) = signText flags v := by
  unfold signChar signText
  by_cases hs : hasFlag flags fmtSign
  · have hm := h hs
    by_cases hv : v < 0
    · rw [if_pos hs, if_pos hs, if_pos hv, if_pos (hm.mpr hv)]
      rfl
    · rw [if_pos hs, if_pos hs, if_neg hv, if_neg (fun hmin => hv (hm.mp hmin))]
      split_ifs <;> first | rfl | contradiction
  · rw [if_neg hs, if_neg hs]
    rfl

theorem minus_mem_signChar (minus : Prop) [Decidable minus] :
    chr '-' ∈ (if signChar flags minus ≠ 0 then [signChar flags minus] else []) ↔
      hasFlag flags fmtSign ∧ minus := by
  unfold signChar
  by_cases hs : hasFlag flags fmtSign
  · by_cases hm : minus
    · have hne : chr '-' ≠ 0 := by decide
      rw [if_pos hs, if_pos hm, if_pos hne]
      exact iff_of_true List.mem_cons_self ⟨hs, hm⟩
    · have hplus : chr '-' ∉ [chr '+'] := by decide
      have hspace : chr '-' ∉ [chr ' '] := by decide
      rw [if_pos hs, if_neg hm]
      refine iff_of_false ?_ (fun h => hm h.2)
      split_ifs <;> first | assumption | exact List.not_mem_nil | contradiction
  · rw [if_neg hs]
    exact iff_of_false List.not_mem_nil (fun h => hs h.1)

theorem minus_mem_signText : chr '-' ∈ signText flags v ↔ hasFlag flags fmtSign ∧ v < 0 := by
  rw [← signText_eq (v < 0) (fun _ => Iff.rfl)]
  exact minus_mem_signChar (v < 0)

/-- A number that has the bits of a signed one is taken for it. -/
theorem taken_signed {w : ℕ} {x : BitVec w} (hw : 0 < w) (hmod : num % 2 ^ w = x.toNat)
    (hpos : 0 ≤ x.toInt → num = x.toNat) (hs : hasFlag flags fmtSign) :
    (takenMinus w num ↔ x.toInt < 0) ∧ takenAbs flags w num = x.toInt.natAbs := by
  have hpow : 2 ^ w = 2 * 2 ^ (w - 1) := by
    rw [← Nat.pow_succ']
    congr 1
    omega
  have hlt := x.isLt
  have hminus : takenMinus w num ↔ x.toInt < 0 := by
    unfold takenMinus
    rw [hmod, BitVec.toInt_eq_toNat_cond]
    split_ifs <;> omega
  refine ⟨hminus, ?_⟩
  unfold takenAbs
  by_cases hm : takenMinus w num
  · have hneg := hminus.mp hm
    have hx : x.toInt = x.toNat - (2 ^ w : ℕ) := by
      rw [BitVec.toInt_eq_toNat_cond] at hneg ⊢
      split_ifs at hneg ⊢ with h
      · omega
      · rfl
    have hpos' : 0 < x.toNat := by
      unfold takenMinus at hm
      have := Nat.two_pow_pos (w - 1)
      omega
    rw [if_pos ⟨hs, hm⟩, hmod, Nat.mod_eq_of_lt (by omega)]
    omega
  · have hneg : 0 ≤ x.toInt := Int.not_lt.mp fun h => hm (hminus.mpr h)
    rw [if_neg (fun h => hm h.2), hpos hneg]
    rw [BitVec.toInt_eq_toNat_cond] at hneg ⊢
    split_ifs at hneg ⊢ <;> omega

/-- The low 32 bits of a signed number of 64 bits. -/
theorem taken_low {x : BitVec 64} (hs : hasFlag flags fmtSign) :
    (x.toInt < 0 → -2 ^ 31 ≤ x.toInt) ∧ (0 ≤ x.toInt → x.toInt % 2 ^ 32 < 2 ^ 31) ↔
      (takenMinus 32 x.toNat ↔ x.toInt < 0) ∧ takenAbs flags 32 x.toNat = x.toInt.natAbs := by
  have hlt := x.isLt
  obtain ⟨v, hv⟩ : ∃ v : ℤ, v = x.toInt := ⟨_, rfl⟩
  rw [← hv]
  rw [BitVec.toInt_eq_toNat_cond] at hv
  unfold takenAbs
  by_cases hm : takenMinus 32 x.toNat
  · rw [if_pos ⟨hs, hm⟩]
    unfold takenMinus at hm ⊢
    split_ifs at hv
    · refine iff_of_false (fun h => ?_) (fun h => ?_)
      · have := h.2 (by omega)
        omega
      · have := h.1.mp hm
        omega
    · have hmod : (2 ^ 32 - x.toNat % 2 ^ 32) % 2 ^ 32 = 2 ^ 32 - x.toNat % 2 ^ 32 :=
        Nat.mod_eq_of_lt (by omega)
      rw [hmod]
      refine ⟨fun h => ?_, fun h => ⟨fun _ => ?_, fun _ => ?_⟩⟩
      · have := h.1 (by omega)
        exact ⟨iff_of_true hm (by omega), by omega⟩
      all_goals omega
  · rw [if_neg (fun h => hm h.2)]
    unfold takenMinus at hm ⊢
    split_ifs at hv
    · exact iff_of_true ⟨fun _ => by omega, fun _ => by omega⟩ ⟨iff_of_false hm (by omega), by omega⟩
    · refine iff_of_false (fun h => ?_) (fun h => ?_)
      · have := h.1 (by omega)
        omega
      · exact hm (h.1.mpr (by omega))

/-- **The sign and the absolute value** are those of the argument where the low 32 bits of a 64-bit
value have its sign. -/
theorem lowSigned_iff (h : NumberPassed longlong qualifier flags args num v) :
    LowSigned longlong qualifier flags v ↔
      (hasFlag flags fmtSign → (takenMinus (signBits qualifier) num ↔ v < 0)) ∧
        takenAbs flags (signBits qualifier) num = v.natAbs := by
  by_cases hs : hasFlag flags fmtSign
  · rcases h with ⟨hnum, hv⟩ | ⟨hu, -⟩
    · unfold numberArg at hnum
      unfold argValue at hv
      by_cases hl : longlong = true ∧ qualifier = chr 'L'
      · have hw : signBits qualifier = 32 := by rw [hl.2]; decide
        rw [if_pos hl] at hnum hv
        rw [if_pos hs] at hv
        rw [hw, hnum, hv, ← (taken_low hs).trans (and_congr_left' (imp_iff_right hs).symm)]
        exact ⟨fun h => h hl.1 hl.2 hs, fun h _ _ _ => h⟩
      · rw [if_neg hl] at hnum hv
        refine iff_of_true (fun h1 h2 => absurd ⟨h1, h2⟩ hl) ?_
        rw [imp_iff_right hs]
        by_cases hh : qualifier = chr 'h'
        · have hw : signBits qualifier = 16 := if_pos hh
          have hnl : qualifier ≠ chr 'l' := hh ▸ by decide
          have hbits : 2 ^ numBits longlong % 2 ^ 16 = 0 ∧ 2 ^ 16 ≤ 2 ^ numBits longlong := by
            unfold numBits
            split_ifs <;> decide
          have hx : (args.arg.truncate 16).toNat = args.arg.toNat % 2 ^ 16 := by
            rw [BitVec.truncate_eq_setWidth, BitVec.toNat_setWidth]
          rw [if_neg hnl, if_pos hh] at hnum
          rw [if_pos hh, if_pos hs] at hv
          rw [hw, hv]
          refine taken_signed (by decide) ?_ ?_ hs
          · rw [hx, hnum]
            dsimp only
            split_ifs <;> omega
          · intro hpos
            rw [BitVec.toInt_eq_toNat_cond] at hpos
            rw [hx] at hpos ⊢
            rw [hnum]
            refine if_neg fun h => ?_
            have := h.2
            split_ifs at hpos <;> omega
        · have hw : signBits qualifier = 32 := by
            unfold signBits
            rw [if_neg hh, ite_self]
          rw [if_neg hh, ite_self] at hnum
          rw [if_neg hh, if_pos hs] at hv
          rw [hw, hv, hnum]
          exact taken_signed (by decide) (Nat.mod_eq_of_lt args.arg.isLt) (fun _ => rfl) hs
    · exact absurd hs hu
  · have hlow : LowSigned longlong qualifier flags v := fun _ _ hsign => absurd hsign hs
    have habs : takenAbs flags (signBits qualifier) num = num := if_neg (fun h : _ ∧ _ => hs h.1)
    have hval : (num : ℤ) = v := by
      rcases h with ⟨hnum, hv⟩ | ⟨-, -, hv⟩
      · rw [hv, hnum]
        unfold numberArg argValue
        simp only [hs, false_and, if_false]
        by_cases hh : qualifier = chr 'h'
        · have hnl : qualifier ≠ chr 'l' ∧ qualifier ≠ chr 'L' := hh ▸ by decide
          rw [if_neg (fun h : _ ∧ _ => hnl.2 h.2), if_neg hnl.1, if_pos hh,
            if_neg (fun h : _ ∧ _ => hnl.2 h.2), if_pos hh, BitVec.truncate_eq_setWidth,
            BitVec.toNat_setWidth]
        · rw [if_neg hh, if_neg hh, ite_self]
          split_ifs <;> rfl
      · exact hv.symm
    rw [habs]
    exact iff_of_true hlow ⟨fun hsign => absurd hsign hs, by omega⟩

theorem numberSign_left (flags : BitVec 8) (qualifier : UInt8) (num : ℕ) :
    numberSign (leftFlags flags) qualifier num = (signChar flags (takenMinus (signBits qualifier) num),
      takenAbs flags (signBits qualifier) num) := by
  rw [numberSign_eq]
  unfold signChar takenAbs hasFlag
  rw [leftFlags_and (f := fmtSign) (by decide), leftFlags_and (f := fmtPlus) (by decide),
    leftFlags_and (f := fmtSpace) (by decide)]

theorem smallDigits_value : ∀ d < 16, digitOf (smallDigits.getD d 0) = some d := by
  decide

theorem largeDigits_value : ∀ d < 16, digitOf (largeDigits.getD d 0) = some d := by
  decide

theorem digitsLoop_digits {digits tmp : List UInt8} {base n : ℕ} (hb : 2 ≤ base)
    (h : digitsLoop digits base n num = some tmp) :
    tmp = (Nat.digits base num).map (digits.getD · 0) ∧ tmp.length ≤ n := by
  induction n generalizing num tmp with
  | zero =>
    cases num with
    | zero =>
      obtain rfl : [] = tmp := Option.some.inj h
      exact ⟨by rw [Nat.digits_zero]; rfl, Nat.le_refl 0⟩
    | succ num => exact absurd h (by simp [digitsLoop])
  | succ n ih =>
    cases num with
    | zero =>
      obtain rfl : [] = tmp := Option.some.inj h
      exact ⟨by rw [Nat.digits_zero]; rfl, Nat.zero_le _⟩
    | succ num =>
      obtain ⟨rest, hrest, rfl⟩ := Option.map_eq_some_iff.mp h
      have hi := ih hrest
      refine ⟨?_, Nat.succ_le_succ hi.2⟩
      rw [Nat.digits_def' hb (Nat.succ_pos num), List.map_cons, ← hi.1]

/-- **The digits** of a number, the first one not zero unless it is the only one. -/
theorem numberTmp_digits {tmp : List UInt8} {base : ℕ} (hb : 2 ≤ base) (hb' : base ≤ 16)
    (h : numberTmp longlong type num base = some tmp) :
    readDigits digitOf base tmp.reverse 0 = some num ∧ tmp.length = digitCount base num ∧
      tmp.length ≤ 64 ∧ (num ≠ 0 → tmp.reverse.head? ≠ some (chr '0')) ∧
      (num = 0 → tmp = [chr '0']) := by
  have hzero : digitOf (chr '0') = some 0 := by decide
  have htable : ∀ d < base,
      digitOf ((if hasFlag type fmtLarge then largeDigits else smallDigits).getD d 0) = some d := by
    intro d hd
    by_cases hl : hasFlag type fmtLarge
    · rw [if_pos hl]
      exact largeDigits_value d (by omega)
    · rw [if_neg hl]
      exact smallDigits_value d (by omega)
  unfold numberTmp at h
  dsimp only at h
  unfold digitCount
  by_cases h0 : num = 0
  · rw [if_pos h0] at h
    obtain rfl := Option.some.inj h
    rw [if_pos h0, h0]
    refine ⟨?_, rfl, by decide, fun hne => absurd rfl hne, fun _ => rfl⟩
    rw [List.reverse_singleton, readDigits, hzero, Option.bind_some, if_pos (by omega), Nat.zero_mul]
    rfl
  · rw [if_neg h0] at h
    have hloop := digitsLoop_digits hb h
    have hbits : numBits longlong ≤ 64 := by
      unfold numBits
      split_ifs <;> decide
    rw [if_neg h0, hloop.1]
    refine ⟨readDigits_digits hb htable num, List.length_map _, ?_, fun _ => head?_digits hb ?_ num,
      fun h => absurd h h0⟩
    · rw [← hloop.1]
      exact Nat.le_trans hloop.2 hbits
    · intro d hd hz
      have hval := htable d hd
      rw [hz, hzero] at hval
      exact (Option.some.inj hval).symm

end

/-! ## The text -/

section

variable {n₁ n₂ n₃ n₄ front zeros back : ℕ} {sign pfx digits shown : List UInt8} {c : UInt8}

/-- The spaces are taken out of two texts with the same sign and prefix. -/
theorem strip_spaces (hc : c = chr ' ' ∨ c = chr '0') (hd : ∀ a ∈ digits, a ≠ chr ' ')
    (hs : ∀ a ∈ shown, a ≠ chr ' ')
    (h : List.replicate n₁ (chr ' ') ++ sign ++ pfx ++ List.replicate n₂ c ++
        List.replicate n₃ (chr '0') ++ digits ++ List.replicate n₄ (chr ' ') =
      List.replicate front (chr ' ') ++ sign ++ pfx ++ List.replicate zeros (chr '0') ++ shown ++
        List.replicate back (chr ' ')) :
    ∃ k, List.replicate k (chr '0') ++ digits = List.replicate zeros (chr '0') ++ shown := by
  have hspace : ∀ n, (List.replicate n (chr ' ')).filter (fun a => a ≠ chr ' ') = [] := by
    intro n
    exact List.filter_replicate_of_neg (by simp)
  have hzero : ∀ n, (List.replicate n (chr '0')).filter (fun a => a ≠ chr ' ') =
      List.replicate n (chr '0') := by
    intro n
    exact List.filter_replicate_of_pos (by decide)
  have hdigits : digits.filter (fun a => a ≠ chr ' ') = digits :=
    List.filter_eq_self.mpr fun a ha => by simpa using hd a ha
  have hshown : shown.filter (fun a => a ≠ chr ' ') = shown :=
    List.filter_eq_self.mpr fun a ha => by simpa using hs a ha
  have hf := congrArg (List.filter fun a => a ≠ chr ' ') h
  simp only [List.filter_append, hspace, hzero, hdigits, hshown, List.nil_append, List.append_nil,
    List.append_assoc, List.append_cancel_left_eq] at hf
  rcases hc with rfl | rfl
  · rw [hspace, List.nil_append] at hf
    exact ⟨n₃, hf⟩
  · rw [hzero, ← List.append_assoc, List.replicate_append_replicate] at hf
    exact ⟨n₂ + n₃, hf⟩

/-- The parts of the text of a number. -/
theorem numberText_parts (tmp : List UInt8) (sign : UInt8) (base : ℕ) (size precision p : BitVec 32)
    (type : BitVec 8)
    (hp : p = if precision.toInt < tmp.length then BitVec.ofNat 32 tmp.length else precision) :
    ∃ n₁ n₂ n₄ : ℕ, numberText tmp sign base size precision type =
        List.replicate n₁ (chr ' ') ++ (if sign ≠ 0 then [sign] else []) ++ prefixText type base ++
          List.replicate n₂ (if hasFlag type fmtZeroPad then chr '0' else chr ' ') ++
          List.replicate (p.toInt - tmp.length).toNat (chr '0') ++
          (if precision ≠ 0 then tmp.reverse else []) ++ List.replicate n₄ (chr ' ') ∧
      n₁ + n₂ + n₄ = padding sign (¬ hasFlag type (fmtZeroPad ||| fmtLeft)) (¬ hasFlag type fmtLeft)
        (size - p) ∧
      n₂ = if ¬ hasFlag type fmtLeft then
        (midSize sign (¬ hasFlag type (fmtZeroPad ||| fmtLeft)) (size - p)).toInt.toNat else 0 := by
  have hrep : ∀ (q : Prop) (_ : Decidable q) (n : ℕ) (a : UInt8),
      (if q then List.replicate n a else []) = List.replicate (if q then n else 0) a := by
    intro q _ n a
    split_ifs <;> rfl
  refine ⟨_, _, _, ?_, rfl, rfl⟩
  unfold numberText
  dsimp only
  rw [← hp, hrep, hrep]

theorem steps_eq (flags : BitVec 8) (sign : UInt8) :
    steps sign (¬ hasFlag (leftFlags flags) (fmtZeroPad ||| fmtLeft))
      (¬ hasFlag (leftFlags flags) fmtLeft) =
    sizeSteps flags (if sign ≠ 0 then [sign] else []) := by
  have hlen : (if sign ≠ 0 then (1 : ℤ) else 0) = (if sign ≠ 0 then [sign] else []).length := by
    split_ifs <;> rfl
  unfold steps sizeSteps
  rw [hlen]
  simp only [ite_not, leftFlags_pads, leftFlags_left]

/-- The padding, by whether the size fits. -/
theorem sizeFits_padding (flags : BitVec 8) (sign : UInt8) (base : ℕ) (s p : BitVec 32)
    (hp : 1 ≤ p.toInt) :
    let S : List UInt8 := if sign ≠ 0 then [sign] else []
    let pads := ¬ hasFlag (leftFlags flags) (fmtZeroPad ||| fmtLeft)
    let size := prefixSize (leftFlags flags) base s - p
    let total : ℤ := padding sign pads (¬ hasFlag (leftFlags flags) fmtLeft) size
    (SizeFits flags S (prefixText flags base) s.toInt p.toInt →
      total = max 0 (s.toInt - (prefixText flags base).length - p.toInt - S.length) ∧
        (pads → (midSize sign pads size).toInt.toNat = 0)) ∧
    (¬ SizeFits flags S (prefixText flags base) s.toInt p.toInt →
      s.toInt < S.length + (prefixText flags base).length + p.toInt ∧ 0 < total ∧
        (p.toInt = 1 → 2 ≤ total)) := by
  intro S pads size total
  have hlen : (if sign ≠ 0 then (1 : ℤ) else 0) = S.length := by
    dsimp only [S]
    split_ifs <;> rfl
  have hright : pads → ¬ hasFlag (leftFlags flags) fmtLeft :=
    fun hpads hl => hpads (leftFlags_pads.mpr (left_pads (leftFlags_left.mp hl)))
  have hsteps : steps sign pads (¬ hasFlag (leftFlags flags) fmtLeft) = sizeSteps flags S :=
    steps_eq flags sign
  have hbound : 0 ≤ sizeSteps flags S ∧ sizeSteps flags S ≤ 2 + S.length ∧ S.length ≤ 1 := by
    rw [← hsteps, ← Nat.cast_le (α := ℤ), ← hlen]
    unfold steps
    split_ifs <;> simp
  have hpfx : (prefixText flags base).length ≤ 2 := by
    unfold prefixText
    split_ifs <;> simp
  have hs := s.le_toInt
  have hcases := padding_cases sign flags base s p (by omega) hright
  dsimp only at hcases
  rw [hlen, hsteps, ← leftFlags_size] at hcases
  unfold SizeFits
  rcases hcases with ⟨hfit, hN, hmid⟩ | ⟨hst, he, hN⟩ | ⟨he, hN, hmid⟩
  · exact ⟨fun _ => ⟨hN, hmid⟩, fun hno => absurd (Or.inl hfit) hno⟩
  · have htotal : 2 ^ 31 - 4 ≤ total := hN
    refine ⟨fun hfit => ?_, fun _ => ⟨by omega, by omega, fun _ => by omega⟩⟩
    rcases hfit with hfit | hfit <;> omega
  · have htotal : total = max 0 _ := hN
    refine ⟨fun hfit => ⟨by omega, hmid⟩, fun hno => ?_⟩
    have hlarge := not_or.mp hno
    exact ⟨by omega, by omega, fun _ => by omega⟩

end

section

variable {longlong : Bool} {qualifier : UInt8} {flags : BitVec 8} {args : VaList} {num base : ℕ} {v : ℤ}
variable {s precision p : BitVec 32} {tmp text : List UInt8} {n₁ n₂ n₄ : ℕ} {sign : List UInt8}

/-- What `print_number` puts, with `n₁`, `n₂` and `n₄` characters of padding. -/
structure NumberPut (text tmp sign : List UInt8) (flags : BitVec 8) (base n₁ n₂ n₄ : ℕ)
    (s precision p : BitVec 32) : Prop where
  text : text = List.replicate n₁ (chr ' ') ++ sign ++ prefixText flags base ++
    List.replicate n₂ (if hasFlag (leftFlags flags) fmtZeroPad then chr '0' else chr ' ') ++
    List.replicate (p.toInt - tmp.length).toNat (chr '0') ++
    (if precision ≠ 0 then tmp.reverse else []) ++ List.replicate n₄ (chr ' ')
  precision : p.toInt = max (tmp.length : ℤ) precision.toInt
  fits : SizeFits flags sign (prefixText flags base) s.toInt p.toInt →
    (n₁ + n₂ + n₄ : ℤ) = max 0 (s.toInt - (prefixText flags base).length - p.toInt - sign.length) ∧
      (hasFlag (leftFlags flags) fmtZeroPad ∨ n₂ = 0)
  wraps : ¬ SizeFits flags sign (prefixText flags base) s.toInt p.toInt →
    s.toInt < sign.length + (prefixText flags base).length + p.toInt ∧ 0 < (n₁ + n₂ + n₄ : ℤ) ∧
      (p.toInt = 1 → 2 ≤ (n₁ + n₂ + n₄ : ℤ))

theorem numberText_put (flags : BitVec 8) (base : ℕ) (s precision : BitVec 32) (sc : UInt8) (htmp : 0 < tmp.length) (htmp' : tmp.length ≤ 64) :
    ∃ n₁ n₂ n₄ p, NumberPut
      (numberText tmp sc base (prefixSize (leftFlags flags) base s) precision (leftFlags flags)) tmp
      (if sc ≠ 0 then [sc] else []) flags base n₁ n₂ n₄ s precision p := by
  obtain ⟨p, hp⟩ : ∃ p : BitVec 32, p =
    if precision.toInt < tmp.length then BitVec.ofNat 32 tmp.length else precision := ⟨_, rfl⟩
  have hpi : p.toInt = max (tmp.length : ℤ) precision.toInt := by
    have hof : (BitVec.ofNat 32 tmp.length).toInt = tmp.length := by
      rw [BitVec.toInt_eq_toNat_cond, BitVec.toNat_ofNat]
      split_ifs <;> omega
    rw [hp]
    split_ifs with hlt
    · rw [hof]
      omega
    · omega
  have hfits := sizeFits_padding flags sc base s p (by omega)
  obtain ⟨n₁, n₂, n₄, htext, hsum, hmid⟩ := numberText_parts tmp sc base
    (prefixSize (leftFlags flags) base s) precision p (leftFlags flags) hp
  dsimp only at hfits
  rw [← hsum] at hfits
  push_cast at hfits
  rw [leftFlags_prefixText] at htext
  refine ⟨n₁, n₂, n₄, p, htext, hpi, fun h => ?_, hfits.2⟩
  refine ⟨(hfits.1 h).1, ?_⟩
  by_cases hl : hasFlag (leftFlags flags) fmtLeft
  · rw [if_neg (not_not_intro hl)] at hmid
    exact .inr hmid
  · rw [if_pos hl] at hmid
    by_cases hpads : hasFlag (leftFlags flags) (fmtZeroPad ||| fmtLeft)
    · exact .inl (zeroPad_of_pads (leftFlags_pads.mp hpads) (fun h => hl (leftFlags_left.mpr h)))
    · exact .inr (hmid.trans ((hfits.1 h).2 hpads))

theorem not_space_of_read {digits : List UInt8} {n m : ℕ}
    (h : readDigits digitOf base digits n = some m) : ∀ a ∈ digits, a ≠ chr ' ' ∧ a ≠ chr '-' := by
  have hspace : digitOf (chr ' ') = none := by decide
  have hminus : digitOf (chr '-') = none := by decide
  intro a ha
  have hne := readDigits_mem h a ha
  exact ⟨fun h => hne (h ▸ hspace), fun h => hne (h ▸ hminus)⟩

theorem putText_length {front mid zeros back : ℕ} {pfx digits : List UInt8} {c : UInt8} :
    (List.replicate front (chr ' ') ++ sign ++ pfx ++ List.replicate mid c ++
      List.replicate zeros (chr '0') ++ digits ++ List.replicate back (chr ' ')).length =
    front + mid + back + sign.length + pfx.length + zeros + digits.length := by
  simp only [List.length_append, List.length_replicate]
  omega

theorem NumberPut.digits (h : NumberPut text tmp sign flags base n₁ n₂ n₄ s precision p) :
    ∃ digits, text = List.replicate n₁ (chr ' ') ++ sign ++ prefixText flags base ++
        List.replicate n₂ (if hasFlag (leftFlags flags) fmtZeroPad then chr '0' else chr ' ') ++
        List.replicate (p.toInt - tmp.length).toNat (chr '0') ++ digits ++
        List.replicate n₄ (chr ' ') ∧
      (precision.toInt = 0 → digits = []) ∧ (precision.toInt ≠ 0 → digits = tmp.reverse) := by
  have hzero : precision = 0 ↔ precision.toInt = 0 := by
    rw [← BitVec.toInt_inj]
    rfl
  refine ⟨_, h.text, fun h0 => if_neg (not_not_intro (hzero.mpr h0)), fun h0 => if_pos ?_⟩
  exact fun h => h0 (hzero.mp h)

/-- The text shows the value, where the size fits. -/
theorem NumberPut.shown (h : NumberPut text tmp sign flags base n₁ n₂ n₄ s precision p)
    (hread : readDigits digitOf base tmp.reverse 0 = some v.natAbs)
    (hhead : v ≠ 0 → tmp.reverse.head? ≠ some (chr '0')) (hzero : v = 0 → tmp = [chr '0'])
    (hpos : 0 < tmp.length)
    (hprec : precision.toInt = 0 → v = 0 ∧
      s.toInt ≤ sign.length + (prefixText flags base).length)
    (hfit : SizeFits flags sign (prefixText flags base) s.toInt p.toInt) :
    NumberShown text v base sign (prefixText flags base) s.toInt precision.toInt := by
  obtain ⟨hsum, hc⟩ := h.fits hfit
  obtain ⟨digits, htext, hnone, hall⟩ := h.digits
  have hp := h.precision
  have hn : List.replicate n₂ (if hasFlag (leftFlags flags) fmtZeroPad then chr '0' else chr ' ') =
      List.replicate n₂ (chr '0') := by
    rcases hc with hc | hc
    · rw [if_pos hc]
    · rw [hc]
      rfl
  have hlen : (text.length : ℤ) = max s.toInt
      (sign.length + (prefixText flags base).length + max (digits.length : ℤ) precision.toInt) := by
    rw [htext, putText_length]
    push_cast
    rw [hsum]
    by_cases h0 : precision.toInt = 0
    · obtain ⟨hv, hw⟩ := hprec h0
      rw [hzero hv, List.length_singleton] at hp ⊢
      rw [h0] at hp ⊢
      rw [hnone h0, List.length_nil]
      omega
    · rw [hall h0, List.length_reverse]
      omega
  refine ⟨n₁, n₂ + (p.toInt - tmp.length).toNat, n₄, digits, ?_, ?_, ?_, ?_, hlen⟩
  · rw [htext, hn, ← List.replicate_append_replicate]
    simp only [List.append_assoc]
  · by_cases h0 : precision.toInt = 0
    · rw [hnone h0, (hprec h0).1]
      rfl
    · rw [hall h0]
      exact hread
  · intro hv hnil
    have h0 : precision.toInt ≠ 0 := fun h0 => hv (hprec h0).1
    rw [hall h0, List.reverse_eq_nil_iff] at hnil
    rw [hnil] at hpos
    exact Nat.lt_irrefl 0 hpos
  · intro hhd
    have h0 : precision.toInt ≠ 0 := by
      intro h0
      rw [hnone h0] at hhd
      exact absurd hhd (by simp)
    rw [hall h0] at hhd ⊢
    have hv : v = 0 := by
      by_contra hne
      exact hhead hne hhd
    rw [hzero hv]
    rfl

/-- The digits of a text that shows the value denote what has been put. -/
theorem digits_of_shown {n k zeros : ℕ} {digits shown : List UInt8} (hb : 2 ≤ base)
    (hread : readDigits digitOf base tmp.reverse 0 = some n)
    (hhead : n ≠ 0 → tmp.reverse.head? ≠ some (chr '0')) (hzero : n = 0 → tmp = [chr '0'])
    (hnone : precision.toInt = 0 → digits = []) (hall : precision.toInt ≠ 0 → digits = tmp.reverse)
    (hshown : readDigits digitOf base shown 0 = some v.natAbs)
    (hone : shown.head? = some (chr '0') → shown = [chr '0'])
    (heq : List.replicate k (chr '0') ++ digits = List.replicate zeros (chr '0') ++ shown) :
    (precision.toInt = 0 → v = 0) ∧ (precision.toInt ≠ 0 → n = v.natAbs) ∧
      (n = v.natAbs → shown.length ≤ tmp.length) := by
  have hz : digitOf (chr '0') = some 0 := by decide
  have hval : readDigits digitOf base digits 0 = some v.natAbs := by
    rw [← readDigits_zeros hz (by omega) k, heq, readDigits_zeros hz (by omega), hshown]
  have hv0 : precision.toInt = 0 → v = 0 := by
    intro h0
    rw [hnone h0] at hval
    exact Int.natAbs_eq_zero.mp (Option.some.inj hval).symm
  refine ⟨hv0, fun h0 => ?_, fun hn => ?_⟩
  · rw [hall h0, hread] at hval
    exact Option.some.inj hval
  · by_cases hv : v = 0
    · have htmp := hzero (by omega)
      have hmem : ∀ a ∈ shown, a = chr '0' := by
        intro a ha
        have hin : a ∈ List.replicate k (chr '0') ++ digits := heq ▸ List.mem_append_right _ ha
        rcases List.mem_append.mp hin with hin | hin
        · exact List.eq_of_mem_replicate hin
        · by_cases h0 : precision.toInt = 0
          · rw [hnone h0] at hin
            exact absurd hin List.not_mem_nil
          · rw [hall h0, htmp] at hin
            exact List.mem_singleton.mp hin
      rw [htmp, List.length_singleton]
      cases hs : shown with
      | nil => exact Nat.zero_le 1
      | cons a l =>
        rw [hs] at hmem hone
        rw [hone (congrArg some (hmem a List.mem_cons_self))]
        exact Nat.le_refl 1
    · have h0 : precision.toInt ≠ 0 := fun h0 => hv (hv0 h0)
      have hhead' : shown.head? ≠ some (chr '0') := by
        intro h
        rw [hone h, readDigits, hz, Option.bind_some, if_pos (by omega), readDigits,
          Nat.zero_mul] at hshown
        exact hv (Int.natAbs_eq_zero.mp (Option.some.inj hshown).symm)
      rw [hall h0] at heq
      rw [← strip_zeros (hhead (by omega)) hhead' heq, List.length_reverse]

/-- What is known of a text that shows the value. -/
theorem NumberPut.of_shown (h : NumberPut text tmp sign flags base n₁ n₂ n₄ s precision p) {n : ℕ}
    (hb : 2 ≤ base) (hread : readDigits digitOf base tmp.reverse 0 = some n)
    (hhead : n ≠ 0 → tmp.reverse.head? ≠ some (chr '0')) (hzero : n = 0 → tmp = [chr '0'])
    (hshown : NumberShown text v base sign (prefixText flags base) s.toInt precision.toInt) :
    (precision.toInt = 0 → v = 0) ∧ (precision.toInt ≠ 0 → n = v.natAbs) ∧
      (n = v.natAbs →
        (precision.toInt = 0 → s.toInt ≤ sign.length + (prefixText flags base).length) ∧
        SizeFits flags sign (prefixText flags base) s.toInt p.toInt) := by
  obtain ⟨front, zeros, back, shown, htext', hread', -, hone, hlen⟩ := hshown
  obtain ⟨digits, htext, hnone, hall⟩ := h.digits
  have hplain : ∀ a ∈ digits, a ≠ chr ' ' := by
    intro a ha
    by_cases h0 : precision.toInt = 0
    · rw [hnone h0] at ha
      exact absurd ha List.not_mem_nil
    · rw [hall h0] at ha
      exact (not_space_of_read hread a ha).1
  have hchar : ∀ q : Prop, ∀ _ : Decidable q,
      (if q then chr '0' else chr ' ') = chr ' ' ∨ (if q then chr '0' else chr ' ') = chr '0' := by
    intro q _
    split_ifs
    · exact .inr rfl
    · exact .inl rfl
  obtain ⟨k, heq⟩ := strip_spaces (hchar _ _) hplain (fun a ha => (not_space_of_read hread' a ha).1)
    (htext.symm.trans htext')
  obtain ⟨hv0, hn, hle⟩ := digits_of_shown hb hread hhead hzero hnone hall hread' hone heq
  refine ⟨hv0, hn, fun hval => ?_⟩
  have hcount := hle hval
  have hp := h.precision
  rw [htext, putText_length] at hlen
  push_cast at hlen
  have hdigits : (digits.length : ℤ) = if precision.toInt = 0 then 0 else (tmp.length : ℤ) := by
    split_ifs with h0
    · rw [hnone h0]
      rfl
    · rw [hall h0, List.length_reverse]
  have hone' : precision.toInt = 0 → p.toInt = 1 := by
    intro h0
    have hv := hv0 h0
    rw [hzero (by omega), List.length_singleton, h0] at hp
    omega
  refine ⟨fun h0 => ?_, ?_⟩
  · have hp1 := hone' h0
    rw [if_pos h0] at hdigits
    by_cases hfit : SizeFits flags sign (prefixText flags base) s.toInt p.toInt
    · have hsum := (h.fits hfit).1
      omega
    · have hwrap := h.wraps hfit
      omega
  · by_contra hfit
    obtain ⟨hs, hpos, htwo⟩ := h.wraps hfit
    by_cases h0 : precision.toInt = 0
    · have hp1 := hone' h0
      have := htwo hp1
      rw [if_pos h0] at hdigits
      omega
    · rw [if_neg h0] at hdigits
      omega

theorem minus_mem_parts (front mid zeros back : ℕ) {digits : List UInt8} {c : UInt8}
    (hc : c = chr ' ' ∨ c = chr '0') (hd : ∀ a ∈ digits, a ≠ chr '-') :
    chr '-' ∈ List.replicate front (chr ' ') ++ sign ++ prefixText flags base ++
      List.replicate mid c ++ List.replicate zeros (chr '0') ++ digits ++
      List.replicate back (chr ' ') ↔ chr '-' ∈ sign := by
  have hsp : ∀ n, chr '-' ∉ List.replicate n (chr ' ') :=
    fun n h => absurd (List.eq_of_mem_replicate h) (by decide)
  have hz : ∀ n, chr '-' ∉ List.replicate n (chr '0') :=
    fun n h => absurd (List.eq_of_mem_replicate h) (by decide)
  have hmid : chr '-' ∉ List.replicate mid c := by
    rcases hc with rfl | rfl
    · exact hsp mid
    · exact hz mid
  have hpfx : chr '-' ∉ prefixText flags base := by
    unfold prefixText
    split_ifs <;> decide
  have hdigits : chr '-' ∉ digits := fun h => hd _ h rfl
  simp only [List.mem_append, hsp, hz, hmid, hpfx, hdigits, false_or, or_false]

theorem NumberPut.minus_mem (h : NumberPut text tmp sign flags base n₁ n₂ n₄ s precision p) {n : ℕ}
    (hread : readDigits digitOf base tmp.reverse 0 = some n) : chr '-' ∈ text ↔ chr '-' ∈ sign := by
  obtain ⟨digits, htext, hnone, hall⟩ := h.digits
  rw [htext]
  refine minus_mem_parts _ _ _ _ ?_ fun a ha => ?_
  · split_ifs
    · exact .inr rfl
    · exact .inl rfl
  · by_cases h0 : precision.toInt = 0
    · rw [hnone h0] at ha
      exact absurd ha List.not_mem_nil
    · rw [hall h0] at ha
      exact (not_space_of_read hread a ha).2

theorem NumberShown.minus_mem {width prec : ℤ}
    (h : NumberShown text v base sign (prefixText flags base) width prec) :
    chr '-' ∈ text ↔ chr '-' ∈ sign := by
  obtain ⟨front, zeros, back, digits, htext, hread, -⟩ := h
  rw [htext, ← List.append_nil (_ ++ _ ++ prefixText flags base),
    ← (List.replicate_zero : List.replicate 0 (chr ' ') = [])]
  exact minus_mem_parts front 0 zeros back (Or.inl rfl)
    fun a ha => (not_space_of_read hread a ha).2

/-- **What `print_number` prints** is the value with its sign, its prefix and its padding exactly when
the sign of a 64-bit value is that of its low half, the precision is not zero (or the value is, and
needs no padding), and the width that is left after the prefix and the digits fits into 32 bits. -/
theorem print_number_faithful (h : NumberPassed longlong qualifier flags args num v)
    (hb : 2 ≤ base) (hb' : base ≤ 16) :
    ∃ text : List UInt8, (∀ (σ : Type) (put : σ → UInt8 → σ) (o : σ),
        printNumber put longlong num base qualifier s precision flags o = some (text.foldl put o)) ∧
      (NumberShown text v base (signText flags v) (prefixText flags base) s.toInt precision.toInt ↔
        NumberFaithful longlong qualifier flags v base s.toInt precision.toInt) := by
  have hlow := lowSigned_iff h
  have hnum : num < 2 ^ numBits longlong := by
    rcases h with ⟨rfl, -⟩ | ⟨-, hlt, -⟩
    · exact numberArg_lt longlong qualifier flags args
    · exact hlt
  obtain ⟨n, hn⟩ : ∃ n, n = takenAbs flags (signBits qualifier) num := ⟨_, rfl⟩
  obtain ⟨sc, hsc⟩ : ∃ sc, sc = signChar flags (takenMinus (signBits qualifier) num) := ⟨_, rfl⟩
  have hsign : numberSign (leftFlags flags) qualifier num = (sc, n) := by
    rw [hn, hsc]
    exact numberSign_left flags qualifier num
  have hlt : n < 2 ^ numBits longlong := by
    have hs : n = (numberSign (leftFlags flags) qualifier num).2 := by rw [hsign]
    rw [hs]
    exact numberSign_lt hnum
  obtain ⟨tmp, htmp⟩ := numberTmp_isSome (leftFlags flags) hb hlt
  obtain ⟨hread, hcount, hlen, hhead, hzero⟩ := numberTmp_digits hb hb' htmp
  have hpos : 0 < tmp.length := by
    rw [hcount]
    unfold digitCount
    split_ifs with h0
    · exact Nat.one_pos
    · exact List.length_pos_of_ne_nil (Nat.digits_ne_nil_iff_ne_zero.mpr h0)
  refine ⟨numberText tmp sc base (prefixSize (leftFlags flags) base s) precision (leftFlags flags),
    fun σ put o => ?_, ?_⟩
  · have htmp' : numberTmp longlong (leftFlags flags) (numberSign (leftFlags flags) qualifier num).2
        base = some tmp := by
      rw [hsign]
      exact htmp
    have hty : leftFlags flags = if hasFlag flags fmtLeft then flags &&& ~~~fmtZeroPad else flags := rfl
    rw [printNumber_eq put hty htmp' s precision o, hsign]
  · obtain ⟨n₁, n₂, n₄, p, hput⟩ := numberText_put flags base s precision sc hpos hlen
    have hprec := hput.precision
    rw [hcount] at hprec
    refine ⟨fun hshown => ?_, fun hf => ?_⟩
    · have hminus : hasFlag flags fmtSign → (takenMinus (signBits qualifier) num ↔ v < 0) := by
        intro hs
        have hchar : chr '-' ∈ (if sc ≠ 0 then [sc] else []) ↔
            hasFlag flags fmtSign ∧ takenMinus (signBits qualifier) num := by
          rw [hsc]
          exact minus_mem_signChar _
        have hboth := hchar.symm.trans ((hput.minus_mem hread).symm.trans
          (hshown.minus_mem.trans minus_mem_signText))
        exact and_congr_right_iff.mp hboth hs
      have htext := signText_eq (takenMinus (signBits qualifier) num) hminus
      rw [← hsc] at htext
      rw [htext] at hput
      obtain ⟨h0, hne, hfits⟩ := hput.of_shown hb hread hhead hzero hshown
      have hl : LowSigned longlong qualifier flags v := by
        by_cases hp0 : precision.toInt = 0
        · rw [h0 hp0]
          exact fun _ _ _ => ⟨fun h => absurd h (Int.lt_irrefl 0), fun _ => by decide⟩
        · exact hlow.mpr ⟨hminus, hn.symm.trans (hne hp0)⟩
      have hval : n = v.natAbs := hn.trans (hlow.mp hl).2
      rw [hprec, hval] at hfits
      exact ⟨hl, fun hp0 => ⟨h0 hp0, (hfits rfl).1 hp0⟩, (hfits rfl).2⟩
    · obtain ⟨hminus, habs⟩ := hlow.mp hf.sign
      have htext := signText_eq (takenMinus (signBits qualifier) num) hminus
      rw [← hsc] at htext
      rw [htext] at hput
      have hval : n = v.natAbs := hn.trans habs
      rw [hval] at hread hhead hzero hprec
      refine hput.shown hread (fun hv => hhead (by omega)) (fun hv => hzero (by omega)) hpos
        hf.digits ?_
      rw [hprec]
      exact hf.size

/-- `%5d` of -42. -/
theorem print_number_faithful_five : ∃ text : List UInt8,
    (∀ (σ : Type) (put : σ → UInt8 → σ) (o : σ),
      printNumber put false (numberArg false 0 fmtSign fun _ => -42) 10 0 5 (-1) fmtSign o =
        some (text.foldl put o)) ∧
    (NumberShown text (argValue false 0 fmtSign fun _ => -42) 10
        (signText fmtSign (argValue false 0 fmtSign fun _ => -42)) (prefixText fmtSign 10)
        (5 : BitVec 32).toInt (-1 : BitVec 32).toInt ↔
      NumberFaithful false 0 fmtSign (argValue false 0 fmtSign fun _ => -42) 10
        (5 : BitVec 32).toInt (-1 : BitVec 32).toInt) :=
  print_number_faithful (.inl ⟨rfl, rfl⟩) (by decide) (by decide)

/-- `%.0d` of 5 prints nothing. -/
theorem print_number_precision_zero : ¬ ∃ text : List UInt8,
    (∀ (σ : Type) (put : σ → UInt8 → σ) (o : σ),
      printNumber put false (numberArg false 0 fmtSign fun _ => 5) 10 0 (-1) 0 fmtSign o =
        some (text.foldl put o)) ∧
    NumberShown text (argValue false 0 fmtSign fun _ => 5) 10
      (signText fmtSign (argValue false 0 fmtSign fun _ => 5)) (prefixText fmtSign 10)
      (-1 : BitVec 32).toInt (0 : BitVec 32).toInt := by
  rintro ⟨text, hput, front, zeros, back, digits, htext, -, hne, -⟩
  have hnil : printNumber (fun n _ => n + 1) false (numberArg false 0 fmtSign fun _ => 5) 10 0 (-1) 0
      fmtSign 0 = some 0 := by
    decide
  have hlen : text.length = 0 := by
    have h := Option.some.inj ((hput ℕ _ 0).symm.trans hnil)
    simpa using h
  have hdigits : digits = [] := by
    rw [List.eq_nil_of_length_eq_zero hlen] at htext
    have h := congrArg List.length htext
    simp only [List.length_append, List.length_nil] at h
    exact List.eq_nil_of_length_eq_zero (by omega)
  exact hne (by decide) hdigits

end

end RtThread
