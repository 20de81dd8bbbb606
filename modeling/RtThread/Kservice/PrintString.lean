import RtThread.Kservice.Vsnprintf
import RtThread.Lib.CString

/-!
# What the string conversion prints

`%s` counts the characters in `len` up to the field width, and only then looks at the precision.
Nothing stops the count at the precision, and `len` and `field_width` are `int`.

* `strReads`: the bytes that the count looks at;
* `strLoop_eq`, `strReads_eq`: the count is the lesser of the length and the width;
* `StringShown`: the text is the string, cut at the precision and padded to the width;
* `StringFaithful`: the condition under which it is;
* **`string_conversion`**: exactly when the text is the string.
-/

namespace RtThread

/-! ## The conversion in numbers -/

/-- The bytes that `for (len = 0; (len != field_width) && (s[len] != '\0'); len++)` reads. -/
def strReads (fieldWidth : BitVec 32) : List UInt8 → BitVec 32 → ℕ
  | [], len => if len ≠ fieldWidth then 1 else 0
  | c :: s, len =>
    if len ≠ fieldWidth then if c ≠ 0 then strReads fieldWidth s (len + 1) + 1 else 1 else 0

/-- The length that is printed. -/
def stringLen (fieldWidth precision : BitVec 32) (s : List UInt8) : BitVec 32 :=
  let len := strLoop fieldWidth s 0
  if 0 < precision.toInt ∧ precision.toInt < len.toInt then precision else len

/-- The bytes of the argument that are read, by the count and by the copy. -/
def stringReads (fieldWidth precision : BitVec 32) (s : List UInt8) : ℕ :=
  max (strReads fieldWidth s 0) (stringLen fieldWidth precision s).toInt.toNat

/-- The argument of `%s`. -/
def stringArg (strings : BitVec 32 → List UInt8) (sp : FormatSpec) : List UInt8 :=
  if sp.args.arg = 0 then nullString else strings sp.args.arg

/-- The width that is left for the spaces at the end. -/
def stringRest (left : Prop) [Decidable left] (len w : BitVec 32) : BitVec 32 :=
  if left then w else widthRest len w

/-- The text of a string conversion. -/
def stringText (left : Prop) [Decidable left] (w precision : BitVec 32) (s : List UInt8) :
    List UInt8 :=
  let len := stringLen w precision s
  (if left then [] else List.replicate (w.toInt - len.toInt).toNat (chr ' ')) ++
    s.take len.toInt.toNat ++
    List.replicate ((stringRest left len w).toInt - len.toInt).toNat (chr ' ')

/-- The width that is asked for, zero when there is none. -/
def askedWidth (w : BitVec 32) : ℕ := if w = -1 then 0 else w.toNat

/-- The characters that are asked for, all when there is no precision. -/
def askedLength (precision : ℤ) (s : List UInt8) : ℕ :=
  if precision < 0 then (cString s).length else min precision.toNat (cString s).length

/-- The text is the string up to the precision, padded to the width, and the string is not read
beyond the precision. -/
structure StringShown (text : List UInt8) (left : Prop) [Decidable left] (w precision : BitVec 32)
    (s : List UInt8) : Prop where
  text : text =
    (if left then [] else List.replicate (askedWidth w - askedLength precision.toInt s) (chr ' ')) ++
      (cString s).take (askedLength precision.toInt s) ++
      (if left then List.replicate (askedWidth w - askedLength precision.toInt s) (chr ' ') else [])
  reads : 0 ≤ precision.toInt → (stringReads w precision s : ℤ) ≤ precision.toInt

/-- The string is not longer than the width, when there is one. -/
def FitsWidth (w : ℤ) (len : ℕ) : Prop := w = -1 ∨ (0 ≤ w ∧ len ≤ w)

/-- Without a precision the string fits the width and its length is an `int`; with one it is shorter
than the precision and fits the width, or the width is the precision. -/
def StringFaithful (w precision : ℤ) (len : ℕ) : Prop :=
  if precision < 0 then FitsWidth w len ∧ len < 2 ^ 31
  else (len < precision ∧ FitsWidth w len) ∨ w = precision

/-! ## The count -/

section
variable {w precision : BitVec 32} {s : List UInt8} {n : ℕ}

/-- `len != field_width`, for a count below the width. -/
theorem count_ne (hn : n ≤ w.toNat) : BitVec.ofNat 32 n ≠ w ↔ n < w.toNat := by
  have hw := w.isLt
  constructor
  · intro h
    refine lt_of_le_of_ne hn fun e => h (BitVec.eq_of_toNat_eq ?_)
    rw [BitVec.toNat_ofNat, e]
    exact Nat.mod_eq_of_lt hw
  · rintro h rfl
    rw [BitVec.toNat_ofNat, Nat.mod_eq_of_lt (by omega)] at h
    omega

/-- **The count** stops at the width or at the end of the string. -/
theorem strLoop_eq (hn : n ≤ w.toNat) : strLoop w s (BitVec.ofNat 32 n) =
    BitVec.ofNat 32 (n + min (cString s).length (w.toNat - n)) := by
  induction s generalizing n with
  | nil => rw [strLoop]; simp [cString]
  | cons c s ih =>
    rw [strLoop, cString_cons]
    by_cases hlt : n < w.toNat
    · by_cases hc : c = 0
      · rw [if_neg (by simp [hc]), if_neg (by simp [hc])]
        simp
      · rw [if_pos ⟨(count_ne hn).mpr hlt, hc⟩, if_pos hc, List.length_cons]
        have hstep : BitVec.ofNat 32 n + 1 = BitVec.ofNat 32 (n + 1) := by
          rw [BitVec.ofNat_add]
          rfl
        rw [hstep, ih hlt]
        congr 1
        omega
    · rw [if_neg fun h => hlt ((count_ne hn).mp h.1)]
      congr 1
      omega

/-- The bytes that the count reads: it reads the NUL, but not the byte at the width. -/
theorem strReads_eq (hn : n ≤ w.toNat) : strReads w s (BitVec.ofNat 32 n) =
    min ((cString s).length + 1) (w.toNat - n) := by
  induction s generalizing n with
  | nil =>
    rw [strReads]
    by_cases hlt : n < w.toNat
    · rw [if_pos ((count_ne hn).mpr hlt)]
      simp [cString]
      omega
    · rw [if_neg fun h => hlt ((count_ne hn).mp h)]
      omega
  | cons c s ih =>
    rw [strReads, cString_cons]
    by_cases hlt : n < w.toNat
    · rw [if_pos ((count_ne hn).mpr hlt)]
      have hstep : BitVec.ofNat 32 n + 1 = BitVec.ofNat 32 (n + 1) := by
        rw [BitVec.ofNat_add]
        rfl
      by_cases hc : c = 0
      · rw [if_neg (not_not.mpr hc), if_neg (not_not.mpr hc), List.length_nil]
        omega
      · rw [if_pos hc, if_pos hc, List.length_cons, hstep, ih hlt]
        omega
    · rw [if_neg fun h => hlt ((count_ne hn).mp h)]
      omega

/-- The length that is printed, as a number. -/
theorem stringLen_toInt (w precision : BitVec 32) (s : List UInt8) :
    (stringLen w precision s).toInt =
      if 0 < precision.toInt ∧ precision.toInt <
        (BitVec.ofNat 32 (min (cString s).length w.toNat)).toInt then precision.toInt
      else (BitVec.ofNat 32 (min (cString s).length w.toNat)).toInt := by
  have hloop : strLoop w s 0 = BitVec.ofNat 32 (min (cString s).length w.toNat) := by
    have h := strLoop_eq (s := s) (Nat.zero_le w.toNat)
    rwa [Nat.zero_add, Nat.sub_zero] at h
  rw [stringLen, hloop]
  split_ifs
  · rfl
  · rfl

/-- The count, as an `int`. -/
theorem count_toInt (w : BitVec 32) (len : ℕ) : (BitVec.ofNat 32 (min len w.toNat)).toInt =
    if 2 * min len w.toNat < 2 ^ 32 then ((min len w.toNat : ℕ) : ℤ)
    else ((min len w.toNat : ℕ) : ℤ) - ((2 ^ 32 : ℕ) : ℤ) := by
  have hw := w.isLt
  rw [BitVec.toInt_eq_toNat_cond, BitVec.toNat_ofNat, Nat.mod_eq_of_lt (by omega)]

/-- No more is printed than the string has. -/
theorem stringLen_le (w precision : BitVec 32) (s : List UInt8) :
    (stringLen w precision s).toInt.toNat ≤ (cString s).length := by
  have hlen := stringLen_toInt w precision s
  rw [count_toInt] at hlen
  split_ifs at hlen <;> omega

/-- The bytes that are read: those of the count, as the copy goes no further. -/
theorem stringReads_eq (w precision : BitVec 32) (s : List UInt8) : stringReads w precision s =
    max (min ((cString s).length + 1) w.toNat) (stringLen w precision s).toInt.toNat := by
  have h := strReads_eq (s := s) (Nat.zero_le w.toNat)
  rw [Nat.sub_zero] at h
  exact congrArg (max · _) h

end

/-! ## The conversion -/

section
variable {longlong : Bool} {strings : BitVec 32 → List UInt8} {sp : FormatSpec}
  {left : Prop} [Decidable left] {w precision : BitVec 32} {s : List UInt8}

/-- The code puts the text of the conversion. -/
theorem conversion_string (hs : deref sp.fmt = chr 's') {σ : Type} (put : σ → UInt8 → σ) (o : σ) :
    conversion put longlong strings sp o =
      some ((stringText (hasFlag sp.flags fmtLeft) sp.fieldWidth sp.precision
        (stringArg strings sp)).foldl put o, sp.fmt.tail, sp.args.next) := by
  have hput : putString put strings sp o = (stringText (hasFlag sp.flags fmtLeft) sp.fieldWidth
      sp.precision (stringArg strings sp)).foldl put o := by
    rw [stringText, List.foldl_append, List.foldl_append]
    by_cases hl : hasFlag sp.flags fmtLeft
    · rw [if_pos hl, List.foldl_nil, stringRest, if_pos hl, ← Writes.repeatPut (chr ' ') _ σ put]
      rw [putString]
      dsimp only
      rw [if_pos hl, if_pos hl]
      rfl
    · rw [if_neg hl, stringRest, if_neg hl, ← Writes.repeatPut (chr ' ') _ σ put,
        ← Writes.repeatPut (chr ' ') _ σ put]
      rw [putString]
      dsimp only
      rw [if_neg hl, if_neg hl]
      rfl
  have hc : ¬ deref sp.fmt = chr 'c' := by
    rw [hs]
    decide
  rw [conversion]
  dsimp only
  rw [if_neg hc, if_pos hs, hput]

/-- A text that is the string is as long as it. -/
theorem StringShown.length (h : StringShown (stringText left w precision s) left w precision s) :
    (if left then 0 else (w.toInt - (stringLen w precision s).toInt).toNat) +
        (stringLen w precision s).toInt.toNat +
        ((stringRest left (stringLen w precision s) w).toInt -
          (stringLen w precision s).toInt).toNat =
      max (askedWidth w) (askedLength precision.toInt s) := by
  have hle := stringLen_le w precision s
  have hask : askedLength precision.toInt s ≤ (cString s).length := by
    rw [askedLength]
    split_ifs <;> omega
  have hlen := congrArg List.length h.text
  rw [stringText, cString_take hle] at hlen
  by_cases hl : left
  · simp only [if_pos hl, List.length_append, List.length_nil, List.length_take,
      List.length_replicate] at hlen ⊢
    omega
  · simp only [if_neg hl, List.length_append, List.length_nil, List.length_take,
      List.length_replicate] at hlen ⊢
    omega

/-- The width that is left, as an `int`. -/
theorem stringRest_toInt (len : BitVec 32) : (stringRest left len w).toInt =
    if left then w.toInt
    else if len.toInt < w.toInt then
      if len.toInt = -2 ^ 31 then 2 ^ 31 - 1 else len.toInt - 1
    else if w.toInt = -2 ^ 31 then 2 ^ 31 - 1 else w.toInt - 1 := by
  rw [stringRest, widthRest]
  split_ifs with hl hlt h1 h2
  · rfl
  · rw [toInt_pred, if_pos h1]
  · rw [toInt_pred, if_neg h1]
  · rw [toInt_pred, if_pos h2]
  · rw [toInt_pred, if_neg h2]

/-- The width that is asked for: an `int` that is not negative, none, or one that is negative. -/
theorem width_cases (w : BitVec 32) :
    (w.toInt = w.toNat ∧ w.toNat < 2 ^ 31 ∧ askedWidth w = w.toNat) ∨
    (w.toInt = -1 ∧ w.toNat = 2 ^ 32 - 1 ∧ askedWidth w = 0) ∨
    (w.toInt < -1 ∧ w.toInt = w.toNat - 2 ^ 32 ∧ 2 ^ 31 ≤ w.toNat ∧ askedWidth w = w.toNat) := by
  have hone : (-1 : BitVec 32).toInt = -1 := by decide
  have hint := BitVec.toInt_eq_toNat_cond w
  have hlt := w.isLt
  by_cases hw : w = -1
  · rw [hw]
    exact Or.inr (Or.inl ⟨hone, by decide, if_pos rfl⟩)
  · have hne : w.toInt ≠ -1 := fun e => hw (BitVec.eq_of_toInt_eq (e.trans hone.symm))
    have hask : askedWidth w = w.toNat := if_neg hw
    by_cases hsmall : 2 * w.toNat < 2 ^ 32
    · rw [if_pos hsmall] at hint
      exact Or.inl ⟨hint, by omega, hask⟩
    · rw [if_neg hsmall] at hint
      exact Or.inr (Or.inr ⟨by omega, by omega, by omega, hask⟩)

/-- The count, as an `int`, of a string that is not longer than the largest one. -/
theorem count_cases (w : BitVec 32) (len : ℕ) :
    (min len w.toNat < 2 ^ 31 ∧
      (BitVec.ofNat 32 (min len w.toNat)).toInt = (min len w.toNat : ℕ)) ∨
    (2 ^ 31 ≤ min len w.toNat ∧
      (BitVec.ofNat 32 (min len w.toNat)).toInt = (min len w.toNat : ℕ) - 2 ^ 32) := by
  rw [count_toInt]
  by_cases hsmall : 2 * min len w.toNat < 2 ^ 32
  · rw [if_pos hsmall]
    exact Or.inl ⟨by omega, rfl⟩
  · rw [if_neg hsmall]
    exact Or.inr ⟨by omega, rfl⟩

/-- The characters that are printed for a count that is not negative. -/
theorem printed_sum (len : BitVec 32) (h : 0 ≤ len.toInt) (hw : w.toInt ≠ -2 ^ 31) :
    (if left then 0 else (w.toInt - len.toInt).toNat) + len.toInt.toNat +
      ((stringRest left len w).toInt - len.toInt).toNat = (max w.toInt len.toInt).toNat := by
  rw [stringRest_toInt]
  by_cases hl : left
  · rw [if_pos hl, if_pos hl]
    omega
  · rw [if_neg hl, if_neg hl]
    by_cases hlt : len.toInt < w.toInt
    · rw [if_pos hlt, if_neg (by omega)]
      omega
    · rw [if_neg hlt, if_neg hw]
      omega

variable (left w) in
/-- There are not more than the width, when it is negative and the count is not. -/
theorem printed_sum_le (len : BitVec 32) (h : 0 ≤ len.toInt) (hw : w.toInt < 0) :
    (if left then 0 else (w.toInt - len.toInt).toNat) + len.toInt.toNat +
      ((stringRest left len w).toInt - len.toInt).toNat < 2 ^ 31 := by
  have hmax := len.toInt_lt
  by_cases hmin : w.toInt = -2 ^ 31
  · rw [stringRest_toInt]
    by_cases hl : left
    · rw [if_pos hl, if_pos hl]
      omega
    · rw [if_neg hl, if_neg hl, if_neg (by omega), if_pos hmin]
      omega
  · rw [printed_sum len h hmin]
    omega

variable (left w) in
/-- The characters that are printed for a count that is negative: fewer than the width, or nearly all
that an `int` can count. -/
theorem printed_sum_neg (len : BitVec 32) (h : len.toInt < 0) (hle : len.toInt ≤ w.toInt)
    (hw : w.toInt < 0) :
    (if left then 0 else (w.toInt - len.toInt).toNat) + len.toInt.toNat +
        ((stringRest left len w).toInt - len.toInt).toNat = (w.toInt - len.toInt).toNat ∨
      (if left then 0 else (w.toInt - len.toInt).toNat) + len.toInt.toNat +
        ((stringRest left len w).toInt - len.toInt).toNat =
          (w.toInt - len.toInt).toNat + (2 ^ 32 - 1) := by
  rw [stringRest_toInt]
  by_cases hl : left
  · rw [if_pos hl, if_pos hl]
    omega
  · rw [if_neg hl, if_neg hl]
    by_cases hmin : len.toInt = -2 ^ 31
    · by_cases hlt : len.toInt < w.toInt
      · rw [if_pos hlt, if_pos hmin]
        omega
      · rw [if_neg hlt, if_pos (by omega)]
        omega
    · by_cases hlt : len.toInt < w.toInt
      · rw [if_pos hlt, if_neg hmin]
        omega
      · rw [if_neg hlt, if_neg (by omega)]
        omega

theorem askedLength_of_neg {p : ℤ} (h : p < 0) : askedLength p s = (cString s).length := if_pos h

theorem askedLength_of_nonneg {p : ℤ} (h : 0 ≤ p) :
    askedLength p s = min p.toNat (cString s).length := if_neg (Int.not_lt.mpr h)

theorem stringLen_of_neg (hp : precision.toInt < 0) : (stringLen w precision s).toInt =
    (BitVec.ofNat 32 (min (cString s).length w.toNat)).toInt := by
  rw [stringLen_toInt, if_neg (by omega)]

/-- The length that is printed is negative when the count is, and not above it otherwise. -/
theorem stringLen_bounds (w precision : BitVec 32) (s : List UInt8) :
    ((BitVec.ofNat 32 (min (cString s).length w.toNat)).toInt < 0 → (stringLen w precision s).toInt =
      (BitVec.ofNat 32 (min (cString s).length w.toNat)).toInt) ∧
    (0 ≤ (BitVec.ofNat 32 (min (cString s).length w.toNat)).toInt →
      0 ≤ (stringLen w precision s).toInt ∧ (stringLen w precision s).toInt ≤
        (BitVec.ofNat 32 (min (cString s).length w.toNat)).toInt) := by
  rw [stringLen_toInt]
  split_ifs with h
  · exact ⟨fun hc => by omega, fun _ => by omega⟩
  · exact ⟨fun _ => rfl, fun hc => ⟨hc, Int.le_refl _⟩⟩

/-- Without a precision, a text that is the string is one of those for which the condition holds. -/
theorem StringShown.faithful_neg (hp : precision.toInt < 0)
    (hlen : (cString s).length < 2 ^ 32 - 1)
    (h : StringShown (stringText left w precision s) left w precision s) :
    FitsWidth w.toInt (cString s).length ∧ (cString s).length < 2 ^ 31 := by
  have hsum := h.length
  have hprint := stringLen_of_neg (w := w) (s := s) hp
  rw [askedLength_of_neg hp] at hsum
  clear h
  unfold FitsWidth
  rcases count_cases w (cString s).length with ⟨hm, hcount⟩ | ⟨hm, hcount⟩
  · rw [hcount] at hprint
    have hnonneg : 0 ≤ (stringLen w precision s).toInt := by
      rw [hprint]
      exact Int.natCast_nonneg _
    rcases width_cases w with ⟨hint, hW, hask⟩ | ⟨hint, hW, hask⟩ | ⟨hwneg, hint, hW, hask⟩
    · rw [printed_sum _ hnonneg (by omega), hask, hint, hprint] at hsum
      omega
    · exact ⟨Or.inl hint, by omega⟩
    · -- the width is negative: the text is shorter than it
      have hlt := printed_sum_le left w (stringLen w precision s) hnonneg (by omega)
      rw [hsum, hask] at hlt
      omega
  · -- the count has become negative
    rw [hcount] at hprint
    have hW : w.toInt = w.toNat - 2 ^ 32 ∧ w.toInt < 0 := by
      rcases width_cases w with hw | hw | hw <;> omega
    have hneg := printed_sum_neg left w (stringLen w precision s) (by omega) (by omega) hW.2
    rw [hsum, hprint, hW.1] at hneg
    rcases width_cases w with ⟨hint, -, -⟩ | ⟨-, hW', hask⟩ | ⟨-, -, -, hask⟩
    · omega
    · rw [hask] at hneg
      omega
    · rw [hask] at hneg
      omega

/-- With one, too. -/
theorem StringShown.faithful_pos (hp : 0 ≤ precision.toInt)
    (hlen : (cString s).length < 2 ^ 32 - 1)
    (h : StringShown (stringText left w precision s) left w precision s) :
    ((cString s).length < precision.toInt ∧ FitsWidth w.toInt (cString s).length) ∨
      w.toInt = precision.toInt := by
  have hsum := h.length
  have hread := h.reads hp
  obtain ⟨hsame, hnonneg⟩ := stringLen_bounds w precision s
  rw [askedLength_of_nonneg hp] at hsum
  rw [stringReads_eq] at hread
  have hreads : (min ((cString s).length + 1) w.toNat : ℕ) ≤ precision.toInt := by omega
  clear h hread
  unfold FitsWidth
  rcases width_cases w with ⟨hint, hW, hask⟩ | ⟨hint, hW, hask⟩ | ⟨hwneg, hint, hW, hask⟩
  · rw [(count_cases w (cString s).length).resolve_right (by omega) |>.2] at hnonneg hsame
    obtain ⟨hlo, hhi⟩ := hnonneg (Int.natCast_nonneg _)
    rw [printed_sum _ hlo (by omega), hask, hint] at hsum
    clear hsame hnonneg
    omega
  · omega
  · -- the width is negative: the text is shorter than it
    have hmax : precision.toInt < 2 ^ 31 := precision.toInt_lt
    rw [(count_cases w (cString s).length).resolve_right (by omega) |>.2] at hnonneg
    have hlt := printed_sum_le left w (stringLen w precision s)
      (hnonneg (Int.natCast_nonneg _)).1 (by omega)
    rw [hsum, hask] at hlt
    omega

/-- A text that is the string is one of those for which the condition holds. -/
theorem StringShown.faithful (hlen : (cString s).length < 2 ^ 32 - 1)
    (h : StringShown (stringText left w precision s) left w precision s) :
    StringFaithful w.toInt precision.toInt (cString s).length := by
  unfold StringFaithful
  by_cases hp : precision.toInt < 0
  · rw [if_pos hp]
    exact h.faithful_neg hp hlen
  · rw [if_neg hp]
    exact h.faithful_pos (Int.not_lt.mp hp) hlen

/-- The length that is printed is the one that is asked for, when the condition holds. -/
theorem StringFaithful.printed (hlen : (cString s).length < 2 ^ 32 - 1)
    (h : StringFaithful w.toInt precision.toInt (cString s).length) :
    (stringLen w precision s).toInt = askedLength precision.toInt s ∧
    (w.toInt = -1 ∧ askedWidth w = 0 ∨
      w.toInt = askedWidth w ∧ askedLength precision.toInt s ≤ askedWidth w) := by
  have hcount := count_cases w (cString s).length
  have hw := width_cases w
  unfold StringFaithful FitsWidth at h
  by_cases hp : precision.toInt < 0
  · rw [if_pos hp] at h
    rw [askedLength_of_neg hp, stringLen_of_neg hp]
    obtain ⟨hfits | hfits, hlt⟩ := h
    · omega
    · omega
  · rw [if_neg hp] at h
    have hmax : precision.toInt < 2 ^ 31 := precision.toInt_lt
    have hsmall := hcount.resolve_right (by omega)
    rw [askedLength_of_nonneg (Int.not_lt.mp hp), stringLen_toInt, hsmall.2]
    clear hcount
    rcases h with ⟨hlt, hfits⟩ | hwidth
    · rw [if_neg (by omega)]
      rcases hfits with hfits | hfits
      · omega
      · omega
    · rw [if_neg (by omega)]
      omega

theorem StringFaithful.reads (hlen : (cString s).length < 2 ^ 32 - 1)
    (h : StringFaithful w.toInt precision.toInt (cString s).length) (hp : 0 ≤ precision.toInt) :
    (stringReads w precision s : ℤ) ≤ precision.toInt := by
  have hprint := (h.printed hlen).1
  rw [stringReads_eq, hprint]
  rw [askedLength_of_nonneg hp, Int.toNat_natCast]
  unfold StringFaithful FitsWidth at h
  rw [if_neg (Int.not_lt.mpr hp)] at h
  clear hprint
  rcases h with h | h
  · omega
  · rcases width_cases w with hw | hw | hw <;> omega

/-- The numbers of characters, when the condition holds. -/
theorem StringFaithful.counts (left : Prop) [Decidable left]
    (hlen : (cString s).length < 2 ^ 32 - 1)
    (h : StringFaithful w.toInt precision.toInt (cString s).length) :
    (stringLen w precision s).toInt.toNat = askedLength precision.toInt s ∧
    (w.toInt - (stringLen w precision s).toInt).toNat =
      askedWidth w - askedLength precision.toInt s ∧
    (stringRest left (stringLen w precision s) w).toInt - (stringLen w precision s).toInt ≤
      (if left then (askedWidth w - askedLength precision.toInt s : ℕ) else 0) ∧
    (0 ≤ precision.toInt → (stringReads w precision s : ℤ) ≤ precision.toInt) := by
  obtain ⟨hprint, hw⟩ := h.printed hlen
  rw [stringRest_toInt, hprint]
  refine ⟨Int.toNat_natCast _, by omega, ?_, h.reads hlen⟩
  by_cases hl : left
  · rw [if_pos hl, if_pos hl]
    omega
  · rw [if_neg hl, if_neg hl]
    split_ifs <;> omega

/-- The text is the string, when the condition holds. -/
theorem StringFaithful.shown (hlen : (cString s).length < 2 ^ 32 - 1)
    (h : StringFaithful w.toInt precision.toInt (cString s).length) :
    StringShown (stringText left w precision s) left w precision s := by
  obtain ⟨hprint, hpad, hrest, hreads⟩ := h.counts left hlen
  refine ⟨?_, hreads⟩
  rw [stringText, cString_take (stringLen_le w precision s), hprint]
  by_cases hl : left
  · rw [if_pos hl, if_pos hl, if_pos hl, stringRest, if_pos hl, hpad]
  · rw [if_neg hl] at hrest
    rw [if_neg hl, if_neg hl, if_neg hl, hpad, Int.toNat_of_nonpos hrest, List.replicate_zero]

/-- **What the string conversion prints**: the same text into every sink, and it is the string
exactly when the string fits its width and is shorter than its precision, or the two are equal. -/
theorem string_conversion (hs : deref sp.fmt = chr 's')
    (hlen : (cString (stringArg strings sp)).length < 2 ^ 32 - 1) :
    ∃ text : List UInt8,
      (∀ (σ : Type) (put : σ → UInt8 → σ) (o : σ), conversion put longlong strings sp o =
        some (text.foldl put o, sp.fmt.tail, sp.args.next)) ∧
      (StringShown text (hasFlag sp.flags fmtLeft) sp.fieldWidth sp.precision
          (stringArg strings sp) ↔
        StringFaithful sp.fieldWidth.toInt sp.precision.toInt
          (cString (stringArg strings sp)).length) :=
  ⟨_, fun _ => conversion_string hs, ⟨fun h => h.faithful hlen, fun h => h.shown hlen⟩⟩

/-- `%-5s`. -/
theorem string_conversion_left : ∃ text : List UInt8,
    (∀ (σ : Type) (put : σ → UInt8 → σ) (o : σ),
      conversion put false (fun _ => [chr 'h', chr 'e', chr 'l', chr 'l', chr 'o', 0])
        { flags := fmtLeft, fieldWidth := 8, precision := -1, qualifier := 0, fmt := [chr 's']
          args := fun _ => 1 } o = some (text.foldl put o, [], VaList.next fun _ => 1)) ∧
    StringShown text (hasFlag fmtLeft fmtLeft) 8 (-1)
      [chr 'h', chr 'e', chr 'l', chr 'l', chr 'o', 0] := by
  obtain ⟨text, htext, hshown⟩ := @string_conversion false
    (fun _ => [chr 'h', chr 'e', chr 'l', chr 'l', chr 'o', 0])
    { flags := fmtLeft, fieldWidth := 8, precision := -1, qualifier := 0, fmt := [chr 's'],
      args := fun _ => 1 } rfl (by decide)
  refine ⟨text, htext, hshown.mpr ?_⟩
  rw [StringFaithful, if_pos (by decide)]
  exact ⟨.inr (by decide), by decide⟩

end

/-- A width that is too small shortens the text: `%3s` prints `hel`. -/
theorem string_shortened :
    formatText false (fun _ => [chr 'h', chr 'e', chr 'l', chr 'l', chr 'o', 0])
      [chr '%', chr '3', chr 's'] (fun _ => 1) = some [chr 'h', chr 'e', chr 'l'] ∧
    ¬ StringShown [chr 'h', chr 'e', chr 'l'] (hasFlag 0 fmtLeft) 3 (-1)
      [chr 'h', chr 'e', chr 'l', chr 'l', chr 'o', 0] := by
  refine ⟨by decide, fun h => ?_⟩
  have hlen := congrArg List.length h.text
  exact absurd hlen (by decide)

end RtThread
