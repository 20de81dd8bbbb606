import Mathlib.Algebra.Ring.Int.Defs
import Mathlib.Algebra.Ring.Nat
import Mathlib.Order.Nat
import RtThread.Lib.Sink

/-!
# Formatted printing

`rt_vsnprintf` and `print_number` put their characters one by one, each with its own check against
`end`; what the checks protect is a sink here, and `Out` is the sink with the buffer. `longlong` says
whether `RT_KPRINTF_USING_LONGLONG` is defined. Pointers and `long` have 32 bits.

* `printNumber`, `conversion`, `formatLoop`, `rtVsnprintf`: the functions;
* `formatLoop_writes`: they put the same text into every sink;
* `Out.put_foldl`: what a text leaves in the buffer;
* **`vsnprintf_text`**: the result of `rt_vsnprintf`.
-/

namespace RtThread

/-! ## Numbers -/

/-- `ZEROPAD`: pad with zero. -/
abbrev fmtZeroPad : BitVec 8 := 1 <<< 0

/-- `SIGN`: signed. -/
abbrev fmtSign : BitVec 8 := 1 <<< 1

/-- `PLUS`: show plus. -/
abbrev fmtPlus : BitVec 8 := 1 <<< 2

/-- `SPACE`: space if plus. -/
abbrev fmtSpace : BitVec 8 := 1 <<< 3

/-- `LEFT`: left justified. -/
abbrev fmtLeft : BitVec 8 := 1 <<< 4

/-- `SPECIAL`: `0x`. -/
abbrev fmtSpecial : BitVec 8 := 1 <<< 5

/-- `LARGE`: use `ABCDEF` instead of `abcdef`. -/
abbrev fmtLarge : BitVec 8 := 1 <<< 6

/-- A character constant. -/
abbrev chr (c : Char) : UInt8 := c.toUInt8

/-- The flag `f` is set in `flags`. -/
abbrev hasFlag (flags f : BitVec 8) : Prop := flags &&& f ≠ 0

def smallDigits : List UInt8 :=
  [chr '0', chr '1', chr '2', chr '3', chr '4', chr '5', chr '6', chr '7', chr '8', chr '9',
    chr 'a', chr 'b', chr 'c', chr 'd', chr 'e', chr 'f']

def largeDigits : List UInt8 :=
  [chr '0', chr '1', chr '2', chr '3', chr '4', chr '5', chr '6', chr '7', chr '8', chr '9',
    chr 'A', chr 'B', chr 'C', chr 'D', chr 'E', chr 'F']

/-- The bits of `num`, and the bytes of `tmp`. -/
def numBits (longlong : Bool) : ℕ := if longlong then 64 else 32

/-- The bits of `num` that `print_number` looks at when it gets the sign. -/
def signBits (qualifier : UInt8) : ℕ :=
  if qualifier = chr 'h' then 16
  else if qualifier = chr 'L' ∨ qualifier = chr 'l' then 32
  else 32

/-- `print_number` gets the sign. -/
def numberSign (type : BitVec 8) (qualifier : UInt8) (num : ℕ) : UInt8 × ℕ :=
  if hasFlag type fmtSign then
    let w := signBits qualifier
    if 2 ^ (w - 1) ≤ num % 2 ^ w then (chr '-', (2 ^ w - num % 2 ^ w) % 2 ^ w)
    else if hasFlag type fmtPlus then (chr '+', num)
    else if hasFlag type fmtSpace then (chr ' ', num)
    else (0, num)
  else (0, num)

/-- `print_number` takes the digits of `num`, the last one first. There is no result when they do
not fit into the `n` bytes of `tmp`. -/
def digitsLoop (digits : List UInt8) (base : ℕ) : ℕ → ℕ → Option (List UInt8)
  | _, 0 => some []
  | 0, _ + 1 => none
  | n + 1, num + 1 =>
    (digitsLoop digits base n ((num + 1) / base)).map (digits.getD ((num + 1) % base) 0 :: ·)

/-- The digits that `print_number` collects in `tmp`. -/
def numberTmp (longlong : Bool) (type : BitVec 8) (num base : ℕ) : Option (List UInt8) :=
  let digits := if hasFlag type fmtLarge then largeDigits else smallDigits
  if num = 0 then some [chr '0'] else digitsLoop digits base (numBits longlong) num

/-- The width that is left without the prefix. -/
def prefixSize (type : BitVec 8) (base : ℕ) (size : BitVec 32) : BitVec 32 :=
  if hasFlag type fmtSpecial then
    if base = 2 ∨ base = 16 then size - 2 else if base = 8 then size - 1 else size
  else size

section

variable {σ : Type} (put : σ → UInt8 → σ)

/-- `while (size-- > 0)` puts `c`. -/
def padLoop (c : UInt8) (size : BitVec 32) (o : σ) : σ := repeatPut put c size.toInt.toNat o

/-- What the loop leaves in `size`. -/
def padRest (size : BitVec 32) : BitVec 32 := if 0 < size.toInt then -1 else size - 1

/-- The prefix of a number. -/
def putPrefix (type : BitVec 8) (base : ℕ) (o : σ) : σ :=
  if hasFlag type fmtSpecial then
    if base = 2 then put (put o (chr '0')) (chr 'b')
    else if base = 8 then put o (chr '0')
    else if base = 16 then
      put (put o (chr '0')) (if hasFlag type fmtLarge then chr 'X' else chr 'x')
    else o
  else o

/-- `print_number`, after the digits have been collected in `tmp`. -/
def putNumber (tmp : List UInt8) (sign : UInt8) (base : ℕ) (size precision : BitVec 32)
    (type : BitVec 8) (o : σ) : σ :=
  let precisionBak := precision
  let c := if hasFlag type fmtZeroPad then chr '0' else chr ' '
  let precision : BitVec 32 :=
    if precision.toInt < tmp.length then BitVec.ofNat 32 tmp.length else precision
  let size := size - precision
  let pads := ¬ hasFlag type (fmtZeroPad ||| fmtLeft)
  let size := if pads ∧ sign ≠ 0 ∧ 0 < size.toInt then size - 1 else size
  let o := if pads then padLoop put (chr ' ') size o else o
  let size := if pads then padRest size else size
  let o := if sign ≠ 0 then put o sign else o
  let size := if sign ≠ 0 then size - 1 else size
  let o := putPrefix put type base o
  let right := ¬ hasFlag type fmtLeft
  let o := if right then padLoop put c size o else o
  let size := if right then padRest size else size
  let o := repeatPut put (chr '0') (precision.toInt - tmp.length).toNat o
  let o := if precisionBak ≠ 0 then tmp.reverse.foldl put o else o
  padLoop put (chr ' ') size o

/-- `print_number`. -/
def printNumber (longlong : Bool) (num base : ℕ) (qualifier : UInt8) (s precision : BitVec 32)
    (type : BitVec 8) (o : σ) : Option σ :=
  let type := if hasFlag type fmtLeft then type &&& ~~~fmtZeroPad else type
  let sign := (numberSign type qualifier num).1
  let num := (numberSign type qualifier num).2
  (numberTmp longlong type num base).map fun tmp =>
    putNumber put tmp sign base (prefixSize type base s) precision type o

end

/-! ## The format -/

/-- A `va_list`: the argument that comes next is the first. -/
abbrev VaList := ℕ → BitVec 64

/-- The arguments after the first. -/
def VaList.next (args : VaList) : VaList := fun i => args (i + 1)

/-- `va_arg` for the types with 32 bits. -/
def VaList.arg (args : VaList) : BitVec 32 := (args 0).truncate 32

/-- `*fmt`. -/
def deref (fmt : List UInt8) : UInt8 := fmt.headD 0

/-- `_ISDIGIT`. -/
def isDigit (c : UInt8) : Bool := chr '0' ≤ c && c ≤ chr '9'

/-- `skip_atoi`. -/
def skipAtoi : List UInt8 → BitVec 32 → BitVec 32 × List UInt8
  | [], i => (i, [])
  | c :: fmt, i =>
    if isDigit c then skipAtoi fmt (i * 10 + BitVec.ofNat 32 c.toNat - BitVec.ofNat 32 48)
    else (i, c :: fmt)

/-- The flags of a conversion. -/
def getFlags : List UInt8 → BitVec 8 → BitVec 8 × List UInt8
  | [], flags => (flags, [])
  | c :: fmt, flags =>
    if c = chr '-' then getFlags fmt (flags ||| fmtLeft)
    else if c = chr '+' then getFlags fmt (flags ||| fmtPlus)
    else if c = chr ' ' then getFlags fmt (flags ||| fmtSpace)
    else if c = chr '#' then getFlags fmt (flags ||| fmtSpecial)
    else if c = chr '0' then getFlags fmt (flags ||| fmtZeroPad)
    else (flags, c :: fmt)

/-- What stands between `%` and the conversion, and where it has been read. -/
structure FormatSpec where
  flags : BitVec 8
  fieldWidth : BitVec 32
  precision : BitVec 32
  qualifier : UInt8
  fmt : List UInt8
  args : VaList

/-- The field width. -/
def getWidth (sp : FormatSpec) : FormatSpec :=
  if isDigit (deref sp.fmt) then
    { sp with fieldWidth := (skipAtoi sp.fmt 0).1, fmt := (skipAtoi sp.fmt 0).2 }
  else if deref sp.fmt = chr '*' then
    let w := sp.args.arg
    { sp with
      fieldWidth := if w.toInt < 0 then -w else w
      flags := if w.toInt < 0 then sp.flags ||| fmtLeft else sp.flags
      fmt := sp.fmt.tail
      args := sp.args.next }
  else { sp with fieldWidth := -1 }

/-- The precision. -/
def getPrecision (sp : FormatSpec) : FormatSpec :=
  if deref sp.fmt = chr '.' then
    let fmt := sp.fmt.tail
    let sp :=
      if isDigit (deref fmt) then
        { sp with precision := (skipAtoi fmt 0).1, fmt := (skipAtoi fmt 0).2 }
      else if deref fmt = chr '*' then
        { sp with precision := sp.args.arg, fmt := fmt.tail, args := sp.args.next }
      else { sp with precision := -1, fmt := fmt }
    if sp.precision.toInt < 0 then { sp with precision := 0 } else sp
  else { sp with precision := -1 }

/-- The qualifier. -/
def getQualifier (longlong : Bool) (sp : FormatSpec) : FormatSpec :=
  let q := deref sp.fmt
  if q = chr 'h' ∨ q = chr 'l' ∨ (longlong = true ∧ q = chr 'L') then
    let fmt := sp.fmt.tail
    if longlong = true ∧ q = chr 'l' ∧ deref fmt = chr 'l' then
      { sp with qualifier := chr 'L', fmt := fmt.tail }
    else { sp with qualifier := q, fmt := fmt }
  else { sp with qualifier := 0 }

/-- All that stands before the conversion, after `%`. -/
def getSpec (longlong : Bool) (fmt : List UInt8) (args : VaList) : FormatSpec :=
  getQualifier longlong (getPrecision (getWidth
    { flags := (getFlags fmt 0).1, fieldWidth := -1, precision := -1, qualifier := 0
      fmt := (getFlags fmt 0).2, args := args }))

/-- The base and the flags of an integer conversion. -/
def numberFormat (c : UInt8) (flags : BitVec 8) : Option (ℕ × BitVec 8) :=
  if c = chr 'b' then some (2, flags)
  else if c = chr 'o' then some (8, flags)
  else if c = chr 'X' then some (16, flags ||| fmtLarge)
  else if c = chr 'x' then some (16, flags)
  else if c = chr 'd' ∨ c = chr 'i' then some (10, flags ||| fmtSign)
  else if c = chr 'u' then some (10, flags)
  else none

/-- The number that is printed. -/
def numberArg (longlong : Bool) (qualifier : UInt8) (flags : BitVec 8) (args : VaList) : ℕ :=
  if longlong = true ∧ qualifier = chr 'L' then (args 0).toNat
  else if qualifier = chr 'l' then args.arg.toNat
  else if qualifier = chr 'h' then
    let num := args.arg.toNat % 2 ^ 16
    if hasFlag flags fmtSign ∧ 2 ^ 15 ≤ num then 2 ^ numBits longlong - 2 ^ 16 + num else num
  else args.arg.toNat

/-- The length of the string, up to the field width. -/
def strLoop (fieldWidth : BitVec 32) : List UInt8 → BitVec 32 → BitVec 32
  | [], len => len
  | c :: s, len =>
    if len ≠ fieldWidth ∧ c ≠ 0 then strLoop fieldWidth s (len + 1) else len

/-- The string that is printed for a null pointer: `(NULL)`. -/
def nullString : List UInt8 := [chr '(', chr 'N', chr 'U', chr 'L', chr 'L', chr ')']

section

variable {σ : Type} (put : σ → UInt8 → σ) (longlong : Bool) (strings : BitVec 32 → List UInt8)

/-- `while (--w > 0)` puts `c`. -/
def preLoop (c : UInt8) (w : BitVec 32) (o : σ) : σ := repeatPut put c (w - 1).toInt.toNat o

/-- What the loop leaves in `w`. -/
def preRest (w : BitVec 32) : BitVec 32 := if 0 < (w - 1).toInt then 0 else w - 1

/-- `while (len < w--)` puts `c`. -/
def widthLoop (c : UInt8) (len w : BitVec 32) (o : σ) : σ :=
  repeatPut put c (w.toInt - len.toInt).toNat o

/-- What the loop leaves in `w`. -/
def widthRest (len w : BitVec 32) : BitVec 32 := if len.toInt < w.toInt then len - 1 else w - 1

/-- `%c`. -/
def putChar (sp : FormatSpec) (o : σ) : σ :=
  let left := hasFlag sp.flags fmtLeft
  let o := if left then o else preLoop put (chr ' ') sp.fieldWidth o
  let w := if left then sp.fieldWidth else preRest sp.fieldWidth
  let o := put o (UInt8.ofNat sp.args.arg.toNat)
  preLoop put (chr ' ') w o

/-- `%s`. -/
def putString (sp : FormatSpec) (o : σ) : σ :=
  let s := if sp.args.arg = 0 then nullString else strings sp.args.arg
  let len := strLoop sp.fieldWidth s 0
  let len := if 0 < sp.precision.toInt ∧ sp.precision.toInt < len.toInt then sp.precision else len
  let left := hasFlag sp.flags fmtLeft
  let o := if left then o else widthLoop put (chr ' ') len sp.fieldWidth o
  let w := if left then sp.fieldWidth else widthRest len sp.fieldWidth
  let o := (s.take len.toInt.toNat).foldl put o
  widthLoop put (chr ' ') len w o

/-- `%p`. -/
def putPointer (sp : FormatSpec) (o : σ) : Option σ :=
  let fieldWidth := if sp.fieldWidth = -1 then 4 * 2 + 2 else sp.fieldWidth
  let flags := if sp.fieldWidth = -1 then sp.flags ||| fmtSpecial ||| fmtZeroPad else sp.flags
  printNumber put longlong sp.args.arg.toNat 16 sp.qualifier fieldWidth sp.precision flags o

/-- One conversion, with the format and the arguments after it. -/
def conversion (sp : FormatSpec) (o : σ) : Option (σ × List UInt8 × VaList) :=
  let c := deref sp.fmt
  if c = chr 'c' then some (putChar put sp o, sp.fmt.tail, sp.args.next)
  else if c = chr 's' then some (putString put strings sp o, sp.fmt.tail, sp.args.next)
  else if c = chr 'p' then
    (putPointer put longlong sp o).map fun o => (o, sp.fmt.tail, sp.args.next)
  else if c = chr '%' then some (put o (chr '%'), sp.fmt.tail, sp.args)
  else
    match numberFormat c sp.flags with
    | some (base, flags) =>
      (printNumber put longlong (numberArg longlong sp.qualifier flags sp.args) base sp.qualifier
        sp.fieldWidth sp.precision flags o).map fun o => (o, sp.fmt.tail, sp.args.next)
    | none =>
      let o := put o (chr '%')
      -- at its end, the format is not left
      some (if c ≠ 0 then put o c else o, if c ≠ 0 then sp.fmt.tail else sp.fmt, sp.args)

/-- The loop of `rt_vsnprintf` over the format. There is no result when `fuel` was not enough. -/
def formatLoop : ℕ → List UInt8 → VaList → σ → Option σ
  | 0, _, _, _ => none
  | fuel + 1, fmt, args, o =>
    if deref fmt = 0 then some o
    else if deref fmt ≠ chr '%' then formatLoop fuel fmt.tail args (put o (deref fmt))
    else (conversion put longlong strings (getSpec longlong fmt.tail args) o).bind fun r =>
      formatLoop fuel r.2.1 r.2.2 r.1

end

/-! ## The buffer -/

/-- The memory and `str`. -/
structure Out where
  mem : BitVec 32 → UInt8
  str : BitVec 32

/-- `if (str < end) *str = c; ++ str;`. -/
def Out.put (stop : BitVec 32) (o : Out) (c : UInt8) : Out where
  mem := if o.str < stop then Function.update o.mem o.str c else o.mem
  str := o.str + 1

/-- `rt_vsnprintf`: the memory after it and what it returns. `strings` are the strings in memory
that the arguments point to; none is in the buffer. -/
def rtVsnprintf (longlong : Bool) (strings : BitVec 32 → List UInt8) (mem : BitVec 32 → UInt8)
    (buf size : BitVec 32) (fmt : List UInt8) (args : VaList) :
    Option ((BitVec 32 → UInt8) × BitVec 32) :=
  let stop := if buf + size < buf then BitVec.allOnes 32 else buf + size
  let size := if buf + size < buf then stop - buf else size
  (formatLoop (Out.put stop) longlong strings (fmt.length + 1) fmt args
    { mem := mem, str := buf }).map fun o =>
      (if 0 < size then
        if o.str < stop then Function.update o.mem o.str 0 else Function.update o.mem (stop - 1) 0
      else o.mem, o.str - buf)

/-- The text of a format and its arguments: what is put with a buffer that has no end. -/
def formatText (longlong : Bool) (strings : BitVec 32 → List UInt8) (fmt : List UInt8)
    (args : VaList) : Option (List UInt8) :=
  formatLoop append longlong strings (fmt.length + 1) fmt args []

/-- An `int` that is decremented. -/
theorem toInt_pred (size : BitVec 32) :
    (size - 1).toInt = if size.toInt = -2 ^ 31 then 2 ^ 31 - 1 else size.toInt - 1 := by
  have h1 : (1 : BitVec 32).toInt = 1 := by decide
  have hlt := size.toInt_lt
  have hle := size.le_toInt
  rw [BitVec.toInt_sub, h1, Int.bmod_def]
  split_ifs <;> omega

/-! ## Every sink gets the same text -/

section

variable {longlong : Bool} {strings : BitVec 32 → List UInt8}

theorem digitsLoop_isSome (digits : List UInt8) {base : ℕ} (hb : 2 ≤ base) {n num : ℕ}
    (hn : num < 2 ^ n) : ∃ tmp, digitsLoop digits base n num = some tmp := by
  induction n generalizing num with
  | zero =>
    obtain rfl : num = 0 := by simpa using hn
    exact ⟨[], rfl⟩
  | succ n ih =>
    cases num with
    | zero => exact ⟨[], rfl⟩
    | succ num =>
      have hdiv : (num + 1) / base < 2 ^ n := by
        have hmul : 2 ^ (n + 1) ≤ base * 2 ^ n := by
          rw [Nat.pow_succ, Nat.mul_comm]
          exact Nat.mul_le_mul_right _ hb
        exact Nat.div_lt_of_lt_mul (Nat.lt_of_lt_of_le hn hmul)
      obtain ⟨tmp, h⟩ := ih hdiv
      refine ⟨digits.getD ((num + 1) % base) 0 :: tmp, ?_⟩
      rw [digitsLoop, h, Option.map_some]

theorem numberSign_lt {type : BitVec 8} {qualifier : UInt8} {num : ℕ}
    (h : num < 2 ^ numBits longlong) :
    (numberSign type qualifier num).2 < 2 ^ numBits longlong := by
  have hw : 2 ^ signBits qualifier ≤ 2 ^ numBits longlong := by
    refine Nat.pow_le_pow_right (by decide) ?_
    unfold signBits numBits
    split_ifs <;> decide
  unfold numberSign
  dsimp only
  split_ifs
  · exact Nat.lt_of_lt_of_le (Nat.mod_lt _ (Nat.two_pow_pos _)) hw
  all_goals exact h

/-- **The digits fit into `tmp`.** -/
theorem numberTmp_isSome (type : BitVec 8) {num base : ℕ} (hb : 2 ≤ base)
    (hn : num < 2 ^ numBits longlong) : ∃ tmp, numberTmp longlong type num base = some tmp := by
  unfold numberTmp
  by_cases h : num = 0
  · exact ⟨_, if_pos h⟩
  · obtain ⟨tmp, ht⟩ := digitsLoop_isSome
      (if hasFlag type fmtLarge then largeDigits else smallDigits) hb hn
    exact ⟨tmp, (if_neg h).trans ht⟩

/-- The text of a prefix. -/
def prefixText (type : BitVec 8) (base : ℕ) : List UInt8 :=
  if hasFlag type fmtSpecial then
    if base = 2 then [chr '0', chr 'b']
    else if base = 8 then [chr '0']
    else if base = 16 then [chr '0', if hasFlag type fmtLarge then chr 'X' else chr 'x']
    else []
  else []

theorem putPrefix_writes (type : BitVec 8) (base : ℕ) :
    Writes (fun _ put o => putPrefix put type base o) (prefixText type base) := by
  have hx := (Writes.put (chr '0')).comp
    (.put (if hasFlag type fmtLarge then chr 'X' else chr 'x'))
  exact .when _ (.ite _ ((Writes.put (chr '0')).comp (.put (chr 'b')))
    (.ite _ (.put (chr '0')) (.when _ hx)))

/-- `size` without the sign, before the spaces in front. -/
def frontSize (sign : UInt8) (pads : Prop) [Decidable pads] (size : BitVec 32) : BitVec 32 :=
  if pads ∧ sign ≠ 0 ∧ 0 < size.toInt then size - 1 else size

/-- `size` before the padding behind the sign. -/
def midSize (sign : UInt8) (pads : Prop) [Decidable pads] (size : BitVec 32) : BitVec 32 :=
  let size := frontSize sign pads size
  let size := if pads then padRest size else size
  if sign ≠ 0 then size - 1 else size

/-- `size` before the spaces at the end. -/
def backSize (sign : UInt8) (pads right : Prop) [Decidable pads] [Decidable right]
    (size : BitVec 32) : BitVec 32 :=
  if right then padRest (midSize sign pads size) else midSize sign pads size

/-- The text that `putNumber` puts. -/
def numberText (tmp : List UInt8) (sign : UInt8) (base : ℕ) (size precision : BitVec 32)
    (type : BitVec 8) : List UInt8 :=
  let c := if hasFlag type fmtZeroPad then chr '0' else chr ' '
  let p : BitVec 32 :=
    if precision.toInt < tmp.length then BitVec.ofNat 32 tmp.length else precision
  let pads := ¬ hasFlag type (fmtZeroPad ||| fmtLeft)
  let right := ¬ hasFlag type fmtLeft
  let size := size - p
  (if pads then List.replicate (frontSize sign pads size).toInt.toNat (chr ' ') else []) ++
    (if sign ≠ 0 then [sign] else []) ++ prefixText type base ++
    (if right then List.replicate (midSize sign pads size).toInt.toNat c else []) ++
    List.replicate (p.toInt - tmp.length).toNat (chr '0') ++
    (if precision ≠ 0 then tmp.reverse else []) ++
    List.replicate (backSize sign pads right size).toInt.toNat (chr ' ')

theorem putNumber_writes (tmp : List UInt8) (sign : UInt8) (base : ℕ) (size precision : BitVec 32)
    (type : BitVec 8) : Writes (fun _ put o => putNumber put tmp sign base size precision type o)
      (numberText tmp sign base size precision type) := by
  have hpad : ∀ (p : Prop) (_ : Decidable p) (c : UInt8) (n : BitVec 32),
      Writes (fun _ put o => if p then padLoop put c n o else o)
        (if p then List.replicate n.toInt.toNat c else []) :=
    fun p _ c n => .when p (.repeatPut c n.toInt.toNat)
  have hsign : ∀ (p : Prop) (_ : Decidable p) (c : UInt8),
      Writes (fun _ put o => if p then put o c else o) (if p then [c] else []) :=
    fun p _ c => .when p (.put c)
  have hdigits : ∀ (p : Prop) (_ : Decidable p) (l : List UInt8),
      Writes (fun _ put o => if p then l.foldl put o else o) (if p then l else []) :=
    fun p _ l => .when p (.foldl l)
  exact ((((((hpad _ _ _ _).comp (hsign _ _ _)).comp (putPrefix_writes type base)).comp
    (hpad _ _ _ _)).comp (.repeatPut _ _)).comp (hdigits _ _ _)).comp (.repeatPut _ _)

/-- `print_number` puts the text of its digits. -/
theorem printNumber_eq {σ : Type} (put : σ → UInt8 → σ) {num base : ℕ} {qualifier : UInt8}
    {type ty : BitVec 8} (hty : ty = if hasFlag type fmtLeft then type &&& ~~~fmtZeroPad else type)
    {tmp : List UInt8}
    (htmp : numberTmp longlong ty (numberSign ty qualifier num).2 base = some tmp)
    (s precision : BitVec 32) (o : σ) :
    printNumber put longlong num base qualifier s precision type o =
      some ((numberText tmp (numberSign ty qualifier num).1 base (prefixSize ty base s) precision
        ty).foldl put o) := by
  unfold printNumber
  dsimp only
  rw [← hty, htmp, Option.map_some]
  exact congrArg some (putNumber_writes tmp (numberSign ty qualifier num).1 base
    (prefixSize ty base s) precision ty σ put o)

theorem printNumber_writes {num base : ℕ} (hb : 2 ≤ base) (hn : num < 2 ^ numBits longlong)
    (qualifier : UInt8) (s precision : BitVec 32) (type : BitVec 8) :
    ∃ t : List UInt8, ∀ (σ : Type) (put : σ → UInt8 → σ) (o : σ),
      printNumber put longlong num base qualifier s precision type o = some (t.foldl put o) := by
  obtain ⟨ty, hty⟩ : ∃ ty, ty = if hasFlag type fmtLeft then type &&& ~~~fmtZeroPad else type :=
    ⟨_, rfl⟩
  have hlt : (numberSign ty qualifier num).2 < 2 ^ numBits longlong := numberSign_lt hn
  obtain ⟨tmp, htmp⟩ := numberTmp_isSome ty hb hlt
  exact ⟨_, fun _ put o => printNumber_eq put hty htmp s precision o⟩

theorem putChar_writes (sp : FormatSpec) : ∃ t, Writes (fun _ put o => putChar put sp o) t := by
  have hpad : ∀ (p : Prop) (_ : Decidable p) (c : UInt8) (w : BitVec 32),
      Writes (fun _ put o => if p then o else preLoop put c w o)
        (if p then [] else List.replicate (w - 1).toInt.toNat c) :=
    fun p _ c w => .ite p .id (.repeatPut c _)
  unfold putChar
  exact ⟨_, ((hpad _ _ _ _).comp (.put _)).comp (.repeatPut _ _)⟩

variable (strings) in
theorem putString_writes (sp : FormatSpec) :
    ∃ t, Writes (fun _ put o => putString put strings sp o) t := by
  have hpad : ∀ (p : Prop) (_ : Decidable p) (c : UInt8) (len w : BitVec 32),
      Writes (fun _ put o => if p then o else widthLoop put c len w o)
        (if p then [] else List.replicate (w.toInt - len.toInt).toNat c) :=
    fun p _ c len w => .ite p .id (.repeatPut c _)
  unfold putString
  exact ⟨_, ((hpad _ _ _ _ _).comp (.foldl _)).comp (.repeatPut _ _)⟩

theorem arg_lt (longlong : Bool) (args : VaList) : args.arg.toNat < 2 ^ numBits longlong := by
  refine Nat.lt_of_lt_of_le args.arg.isLt (Nat.pow_le_pow_right (by decide) ?_)
  unfold numBits
  split_ifs <;> decide

variable (longlong) in
theorem numberArg_lt (qualifier : UInt8) (flags : BitVec 8) (args : VaList) :
    numberArg longlong qualifier flags args < 2 ^ numBits longlong := by
  unfold numberArg
  by_cases h : longlong = true ∧ qualifier = chr 'L'
  · rw [if_pos h, h.1]
    exact (args 0).isLt
  · rw [if_neg h]
    have harg := arg_lt longlong args
    have h16 : 2 ^ 16 ≤ 2 ^ numBits longlong := by
      cases longlong <;> decide
    have hmod : args.arg.toNat % 2 ^ 16 < 2 ^ 16 := Nat.mod_lt _ (by decide)
    dsimp only
    split_ifs <;> omega

theorem numberFormat_base {c : UInt8} {flags flags' : BitVec 8} {base : ℕ}
    (h : numberFormat c flags = some (base, flags')) : 2 ≤ base := by
  unfold numberFormat at h
  split_ifs at h <;> cases h <;> decide

variable (longlong strings) in
/-- **A conversion** puts the same text into every sink. -/
theorem conversion_writes (sp : FormatSpec) :
    ∃ (t fmt : List UInt8) (args : VaList), fmt.length ≤ sp.fmt.length ∧ ∀ (σ : Type) (put : σ → UInt8 → σ) (o : σ),
      conversion put longlong strings sp o = some (t.foldl put o, fmt, args) := by
  have htail : sp.fmt.tail.length ≤ sp.fmt.length := by rw [List.length_tail]; omega
  unfold conversion
  dsimp only
  by_cases hc : deref sp.fmt = chr 'c'
  · obtain ⟨t, ht⟩ := putChar_writes sp
    refine ⟨t, sp.fmt.tail, sp.args.next, htail, fun σ put o => ?_⟩
    rw [if_pos hc]
    exact congrArg (fun o => some (o, sp.fmt.tail, sp.args.next)) (ht σ put o)
  by_cases hs : deref sp.fmt = chr 's'
  · obtain ⟨t, ht⟩ := putString_writes strings sp
    refine ⟨t, sp.fmt.tail, sp.args.next, htail, fun σ put o => ?_⟩
    rw [if_neg hc, if_pos hs]
    exact congrArg (fun o => some (o, sp.fmt.tail, sp.args.next)) (ht σ put o)
  by_cases hp : deref sp.fmt = chr 'p'
  · have hbase : 2 ≤ 16 := by decide
    obtain ⟨t, ht⟩ := printNumber_writes hbase (arg_lt longlong sp.args) sp.qualifier
      (if sp.fieldWidth = -1 then 4 * 2 + 2 else sp.fieldWidth) sp.precision
      (if sp.fieldWidth = -1 then sp.flags ||| fmtSpecial ||| fmtZeroPad else sp.flags)
    refine ⟨t, sp.fmt.tail, sp.args.next, htail, fun σ put o => ?_⟩
    rw [if_neg hc, if_neg hs, if_pos hp, putPointer, ht]
    rfl
  by_cases hpc : deref sp.fmt = chr '%'
  · refine ⟨[chr '%'], sp.fmt.tail, sp.args, htail, fun σ put o => ?_⟩
    rw [if_neg hc, if_neg hs, if_neg hp, if_pos hpc]
    rfl
  cases hn : numberFormat (deref sp.fmt) sp.flags with
  | some r =>
    obtain ⟨base, flags⟩ := r
    obtain ⟨t, ht⟩ := printNumber_writes (numberFormat_base hn)
      (numberArg_lt longlong sp.qualifier flags sp.args) sp.qualifier sp.fieldWidth
      sp.precision flags
    refine ⟨t, sp.fmt.tail, sp.args.next, htail, fun σ put o => ?_⟩
    rw [if_neg hc, if_neg hs, if_neg hp, if_neg hpc]
    dsimp only
    rw [ht]
    rfl
  | none =>
    refine ⟨chr '%' :: if deref sp.fmt ≠ 0 then [deref sp.fmt] else [],
      if deref sp.fmt ≠ 0 then sp.fmt.tail else sp.fmt, sp.args, ?_, fun σ put o => ?_⟩
    · split_ifs
      · exact htail
      · exact Nat.le_refl _
    · rw [if_neg hc, if_neg hs, if_neg hp, if_neg hpc]
      dsimp only
      split_ifs <;> rfl

theorem skipAtoi_length (fmt : List UInt8) (i : BitVec 32) :
    (skipAtoi fmt i).2.length ≤ fmt.length := by
  induction fmt generalizing i with
  | nil => exact Nat.le_refl _
  | cons c fmt ih =>
    unfold skipAtoi
    split_ifs
    · exact Nat.le_trans (ih _) (Nat.le_succ _)
    · exact Nat.le_refl _

theorem getFlags_length (fmt : List UInt8) (flags : BitVec 8) :
    (getFlags fmt flags).2.length ≤ fmt.length := by
  induction fmt generalizing flags with
  | nil => exact Nat.le_refl _
  | cons c fmt ih =>
    unfold getFlags
    split_ifs
    case neg => exact Nat.le_refl _
    all_goals exact Nat.le_trans (ih _) (Nat.le_succ _)

theorem length_tail_le (fmt : List UInt8) : fmt.tail.length ≤ fmt.length := by
  rw [List.length_tail]
  exact Nat.sub_le _ _

theorem getWidth_length (sp : FormatSpec) : (getWidth sp).fmt.length ≤ sp.fmt.length := by
  unfold getWidth
  split_ifs
  · exact skipAtoi_length _ _
  · exact length_tail_le _
  · exact Nat.le_refl _

theorem getPrecision_length (sp : FormatSpec) : (getPrecision sp).fmt.length ≤ sp.fmt.length := by
  have h1 := length_tail_le sp.fmt
  have h2 := length_tail_le sp.fmt.tail
  have h3 := skipAtoi_length sp.fmt.tail 0
  unfold getPrecision
  dsimp only
  split_ifs <;> dsimp only <;> omega

theorem getQualifier_length (sp : FormatSpec) :
    (getQualifier longlong sp).fmt.length ≤ sp.fmt.length := by
  have h1 := length_tail_le sp.fmt
  have h2 := length_tail_le sp.fmt.tail
  unfold getQualifier
  dsimp only
  split_ifs <;> dsimp only <;> omega

theorem getSpec_length (fmt : List UInt8) (args : VaList) :
    (getSpec longlong fmt args).fmt.length ≤ fmt.length :=
  calc (getSpec longlong fmt args).fmt.length
    _ ≤ _ := getQualifier_length _
    _ ≤ _ := getPrecision_length _
    _ ≤ _ := getWidth_length _
    _ ≤ fmt.length := getFlags_length fmt 0

variable (longlong strings) in
/-- **The loop** ends, and puts the same text into every sink. -/
theorem formatLoop_writes {fuel : ℕ} {fmt : List UInt8} (hfuel : fmt.length < fuel) (args : VaList) :
    ∃ t : List UInt8, ∀ (σ : Type) (put : σ → UInt8 → σ) (o : σ),
      formatLoop put longlong strings fuel fmt args o = some (t.foldl put o) := by
  induction fuel generalizing fmt args with
  | zero => exact absurd hfuel (Nat.not_lt_zero _)
  | succ fuel ih =>
    unfold formatLoop
    by_cases h0 : deref fmt = 0
    · exact ⟨[], fun σ put o => if_pos h0⟩
    cases fmt with
    | nil => exact absurd rfl h0
    | cons c fmt =>
      have hlen : fmt.length < fuel := Nat.lt_of_succ_lt_succ hfuel
      by_cases hpc : deref (c :: fmt) = chr '%'
      · obtain ⟨t, fmt', args', hle, ht⟩ :=
          conversion_writes longlong strings (getSpec longlong fmt args)
        have hlen' : fmt'.length < fuel :=
          Nat.lt_of_le_of_lt (Nat.le_trans hle (getSpec_length fmt args)) hlen
        obtain ⟨u, hu⟩ := ih hlen' args'
        refine ⟨t ++ u, fun σ put o => ?_⟩
        rw [if_neg h0, if_neg (not_not.mpr hpc), List.tail_cons, ht, Option.bind_some,
          List.foldl_append]
        exact hu σ put _
      · obtain ⟨u, hu⟩ := ih hlen args
        refine ⟨deref (c :: fmt) :: u, fun σ put o => ?_⟩
        rw [if_neg h0, if_pos hpc, List.tail_cons, List.foldl_cons]
        exact hu σ put _

end

/-! ## What a text leaves in the buffer -/

theorem Out.put_str (stop : BitVec 32) (t : List UInt8) (o : Out) :
    (t.foldl (Out.put stop) o).str = o.str + BitVec.ofNat 32 t.length := by
  induction t generalizing o with
  | nil => simp
  | cons c t ih =>
    rw [List.foldl_cons, ih, List.length_cons, Nat.add_comm, BitVec.ofNat_add, ← BitVec.add_assoc]
    rfl

theorem Out.put_str_toNat (stop : BitVec 32) (t : List UInt8) (o : Out)
    (h : o.str.toNat + t.length < 2 ^ 32) :
    (t.foldl (Out.put stop) o).str.toNat = o.str.toNat + t.length := by
  rw [Out.put_str, BitVec.toNat_add, BitVec.toNat_ofNat]
  omega

/-- **A text that does not reach the end of the address space**: the characters before `stop` are
there, and nothing else has been written. -/
theorem Out.put_mem (stop : BitVec 32) (t : List UInt8) (o : Out)
    (h : o.str.toNat + t.length < 2 ^ 32) (a : BitVec 32) :
    (t.foldl (Out.put stop) o).mem a =
      if o.str.toNat ≤ a.toNat ∧ a.toNat < o.str.toNat + t.length ∧ a.toNat < stop.toNat then
        t.getD (a.toNat - o.str.toNat) 0
      else o.mem a := by
  induction t generalizing o with
  | nil =>
    rw [if_neg (by rw [List.length_nil]; omega)]
    rfl
  | cons c t ih =>
    rw [List.length_cons] at h ⊢
    have hstr : (Out.put stop o c).str.toNat = o.str.toNat + 1 := by
      change (o.str + 1).toNat = _
      rw [BitVec.toNat_add]
      exact Nat.mod_eq_of_lt (by simp; omega)
    rw [List.foldl_cons, ih _ (by rw [hstr]; omega), hstr]
    by_cases hself : a = o.str
    · subst hself
      rw [if_neg (by omega)]
      change (if o.str < stop then Function.update o.mem o.str c else o.mem) o.str = _
      by_cases hlt : o.str < stop
      · rw [if_pos hlt, Function.update_self, if_pos ⟨Nat.le_refl _, by omega, hlt⟩, Nat.sub_self]
        rfl
      · rw [if_neg hlt, if_neg fun hc => hlt hc.2.2]
    have hne : a.toNat ≠ o.str.toNat := fun e => hself (BitVec.eq_of_toNat_eq e)
    by_cases hin : o.str.toNat + 1 ≤ a.toNat ∧ a.toNat < o.str.toNat + 1 + t.length ∧
        a.toNat < stop.toNat
    · obtain ⟨n, hn⟩ : ∃ n, a.toNat - o.str.toNat = n + 1 :=
        ⟨a.toNat - o.str.toNat - 1, by omega⟩
      rw [if_pos hin, if_pos (by omega), hn, List.getD_cons_succ]
      congr 1
      omega
    · rw [if_neg hin, if_neg (by omega)]
      change (if o.str < stop then Function.update o.mem o.str c else o.mem) a = _
      split_ifs
      · exact Function.update_of_ne hself _ _
      · rfl

/-! ## The result -/

/-- What a call with a buffer of `n` bytes has done, for the text `t`: the first `n - 1` characters
and a NUL are in the buffer, nothing outside of it has changed, and the length of the text is
returned. -/
structure Printed (mem mem' : BitVec 32 → UInt8) (buf n : BitVec 32) (t : List UInt8)
    (ret : BitVec 32) : Prop where
  text : ∀ i < t.length, i < n.toNat - 1 → mem' (buf + BitVec.ofNat 32 i) = t.getD i 0
  nul : mem' (buf + BitVec.ofNat 32 (min (n.toNat - 1) t.length)) = 0
  outside : ∀ a, (∀ i < n.toNat, a ≠ buf + BitVec.ofNat 32 i) → mem' a = mem a
  ret : ret.toInt = t.length

section

variable {longlong : Bool} {strings : BitVec 32 → List UInt8} {mem : BitVec 32 → UInt8}
  {buf n stop : BitVec 32} {fmt t : List UInt8} {args : VaList}

theorem toNat_add_ofNat {i : ℕ} (h : buf.toNat + i < 2 ^ 32) :
    (buf + BitVec.ofNat 32 i).toNat = buf.toNat + i := by
  rw [BitVec.toNat_add, BitVec.toNat_ofNat]
  omega

/-- The memory after the text and the NUL, where the NUL is put at `p`. -/
theorem printed_of_mem {p : BitVec 32} (hn : n ≠ 0) (hlen : t.length < 2 ^ 31)
    (hmem : buf.toNat + t.length < 2 ^ 32) (hstop : min (n.toNat - 1) t.length + buf.toNat < stop.toNat)
    (hle : stop.toNat ≤ buf.toNat + n.toNat)
    (hp : p.toNat = buf.toNat + min (n.toNat - 1) t.length) :
    Printed mem (Function.update (t.foldl (Out.put stop) { mem := mem, str := buf }).mem p 0) buf n t
      (BitVec.ofNat 32 t.length) := by
  have hn' : n.toNat ≠ 0 := fun e => hn (BitVec.eq_of_toNat_eq e)
  have hpeq : p = buf + BitVec.ofNat 32 (min (n.toNat - 1) t.length) := by
    refine BitVec.eq_of_toNat_eq ?_
    rw [hp, toNat_add_ofNat (by omega)]
  refine ⟨fun i hi hin => ?_, ?_, fun a ha => ?_, ?_⟩
  · have hi' : (buf + BitVec.ofNat 32 i).toNat = buf.toNat + i := toNat_add_ofNat (by omega)
    have hne : buf + BitVec.ofNat 32 i ≠ p := fun e => by
      rw [e] at hi'
      omega
    rw [Function.update_of_ne hne, Out.put_mem _ _ _ hmem]
    dsimp only
    rw [hi', if_pos (by omega), Nat.add_sub_cancel_left]
  · rw [← hpeq, Function.update_self]
  · have hap : a ≠ p := hpeq ▸ ha _ (by omega)
    rw [Function.update_of_ne hap, Out.put_mem _ _ _ hmem, if_neg fun h => ?_]
    dsimp only at h
    refine ha (a.toNat - buf.toNat) (by omega) (BitVec.eq_of_toNat_eq ?_)
    rw [toNat_add_ofNat (by omega)]
    omega
  · rw [BitVec.toInt_eq_toNat_of_lt, BitVec.toNat_ofNat, Nat.mod_eq_of_lt]
    · omega
    · rw [BitVec.toNat_ofNat]
      omega

/-- The text of a call, and what the sink with the buffer gets. -/
theorem formatText_spec (longlong : Bool) (strings : BitVec 32 → List UInt8) (fmt : List UInt8)
    (args : VaList) : ∃ t : List UInt8, formatText longlong strings fmt args = some t ∧
      ∀ (σ : Type) (put : σ → UInt8 → σ) (o : σ),
        formatLoop put longlong strings (fmt.length + 1) fmt args o = some (t.foldl put o) := by
  obtain ⟨t, ht⟩ := formatLoop_writes longlong strings (Nat.lt_succ_self fmt.length) args
  refine ⟨t, ?_, ht⟩
  rw [formatText, ht, foldl_append_eq, List.nil_append]

/-- **`rt_vsnprintf` prints the text into its buffer**, for a text whose length is an `int` and that
would not reach the end of the address space. A buffer that does (as the one of `rt_vsprintf`) has
no room for it in its last byte. -/
theorem vsnprintf_text (longlong : Bool) (strings : BitVec 32 → List UInt8) (fmt : List UInt8)
    (args : VaList) : ∃ t, formatText longlong strings fmt args = some t ∧
      ∀ (mem : BitVec 32 → UInt8) (buf n : BitVec 32), n ≠ 0 → t.length < 2 ^ 31 →
        buf.toNat + t.length < 2 ^ 32 →
        (buf.toNat + n.toNat < 2 ^ 32 ∨ buf.toNat + t.length < 2 ^ 32 - 1) →
        ∃ mem' ret, rtVsnprintf longlong strings mem buf n fmt args = some (mem', ret) ∧
          Printed mem mem' buf n t ret := by
  obtain ⟨t, htext, ht⟩ := formatText_spec longlong strings fmt args
  refine ⟨t, htext, fun mem buf n hn hlen hmem hbuf => ?_⟩
  have hn' : n.toNat ≠ 0 := fun e => hn (BitVec.eq_of_toNat_eq e)
  have hadd : (buf + n).toNat = (buf.toNat + n.toNat) % 2 ^ 32 := BitVec.toNat_add ..
  have hlt := n.isLt
  -- where the buffer ends for the code, and what is left of its size
  obtain ⟨stop, hstop⟩ : ∃ stop, stop = if buf + n < buf then BitVec.allOnes 32 else buf + n :=
    ⟨_, rfl⟩
  have hwrap : buf + n < buf ↔ 2 ^ 32 ≤ buf.toNat + n.toNat := by
    rw [BitVec.lt_def, hadd]
    omega
  have hstop' : stop.toNat = min (buf.toNat + n.toNat) (2 ^ 32 - 1) ∧
      0 < (if buf + n < buf then stop - buf else n) := by
    by_cases h : buf + n < buf
    · have hle := hwrap.mp h
      have hall : stop.toNat = 2 ^ 32 - 1 := by rw [hstop, if_pos h]; rfl
      refine ⟨by omega, ?_⟩
      rw [if_pos h, BitVec.lt_def, BitVec.toNat_sub_of_le (by rw [BitVec.le_def]; omega), hall]
      change 0 < _
      omega
    · have hle := mt hwrap.mpr h
      rw [if_neg h] at hstop ⊢
      refine ⟨by rw [hstop, hadd]; omega, ?_⟩
      rw [BitVec.lt_def]
      exact Nat.pos_of_ne_zero hn'
  obtain ⟨hstop', hsize⟩ := hstop'
  have hstr : buf + BitVec.ofNat 32 t.length - buf = BitVec.ofNat 32 t.length := by
    rw [BitVec.add_comm, BitVec.add_sub_cancel]
  unfold rtVsnprintf
  dsimp only
  rw [← hstop, ht, Option.map_some, if_pos hsize, Out.put_str, hstr]
  have hend := Out.put_str_toNat stop t { mem := mem, str := buf } hmem
  rw [Out.put_str] at hend
  dsimp only at hend ⊢
  by_cases hfull : buf + BitVec.ofNat 32 t.length < stop
  · have hfull' : (buf + BitVec.ofNat 32 t.length).toNat < stop.toNat := hfull
    rw [if_pos hfull]
    exact ⟨_, _, rfl, printed_of_mem hn hlen hmem (by omega) (by omega) (by omega)⟩
  · have hfull' : ¬ (buf + BitVec.ofNat 32 t.length).toNat < stop.toNat := hfull
    have hlast : (stop - 1).toNat = stop.toNat - 1 := by
      rw [BitVec.toNat_sub_of_le]
      · rfl
      · rw [BitVec.le_def]
        change 1 ≤ stop.toNat
        omega
    rw [if_neg hfull]
    exact ⟨_, _, rfl, printed_of_mem hn hlen hmem (by omega) (by omega) (by omega)⟩

/-- A number that does not fit into its buffer. -/
theorem vsnprintf_text_number : ∃ mem' ret, rtVsnprintf false (fun _ => []) (fun _ => 255) 0x20000000
      4 [chr '%', chr '5', chr 'd', chr '!'] (fun _ => -42) = some (mem', ret) ∧
    Printed (fun _ => 255) mem' 0x20000000 4
      [chr ' ', chr ' ', chr '-', chr '4', chr '2', chr '!'] ret := by
  obtain ⟨t, htext, h⟩ := vsnprintf_text false (fun _ => [])
    [chr '%', chr '5', chr 'd', chr '!'] fun _ => -42
  have ht : formatText false (fun _ => []) [chr '%', chr '5', chr 'd', chr '!'] (fun _ => -42) =
      some [chr ' ', chr ' ', chr '-', chr '4', chr '2', chr '!'] := by decide
  rw [ht] at htext
  cases htext
  exact h _ _ _ (by decide) (by decide) (by decide) (.inl (by decide))

end

/-! ## Long texts -/

/-- `%*c`. -/
def starC : List UInt8 := [chr '%', chr '*', chr 'c']

/-- The width `w`, and then `y`. -/
def starArgs (w : BitVec 32) : VaList := fun i => if i = 0 then w.setWidth 64 else 121

theorem starArgs_arg (w : BitVec 32) : (starArgs w).arg = w := by
  change (w.setWidth 64).setWidth 32 = w
  exact BitVec.setWidth_setWidth_of_le _ (by decide)

/-- The text of `%*c`: as many characters as the width. -/
theorem formatLoop_starC {w : BitVec 32} (hw : ¬ w.toInt < 0) (hr : preRest w = 0)
    (strings : BitVec 32 → List UInt8) {σ : Type} (put : σ → UInt8 → σ) (o : σ) :
    formatLoop put false strings 4 starC (starArgs w) o =
      some ((List.replicate (w - 1).toInt.toNat (chr ' ') ++ [chr 'y']).foldl put o) := by
  have hspec : getSpec false [chr '*', chr 'c'] (starArgs w) =
      { flags := if (starArgs w).arg.toInt < 0 then 0 ||| fmtLeft else 0
        fieldWidth := if (starArgs w).arg.toInt < 0 then -(starArgs w).arg else (starArgs w).arg
        precision := -1, qualifier := 0, fmt := [chr 'c'], args := (starArgs w).next } := rfl
  rw [starArgs_arg, if_neg hw, if_neg hw] at hspec
  have hconv : conversion put false strings (getSpec false [chr '*', chr 'c'] (starArgs w)) o =
      some (preLoop put (chr ' ') (preRest w) (put (preLoop put (chr ' ') w o) (chr 'y')), [],
        (starArgs w).next.next) := by
    have hleft : ¬ hasFlag 0 fmtLeft := by decide
    have hy : UInt8.ofNat (starArgs w).next.arg.toNat = chr 'y' := by
      change UInt8.ofNat ((121 : BitVec 64).setWidth 32).toNat = chr 'y'
      decide
    rw [hspec, conversion]
    refine (if_pos (rfl : deref [chr 'c'] = chr 'c')).trans ?_
    rw [putChar]
    dsimp only
    rw [if_neg hleft, if_neg hleft, hy]
    rfl
  rw [starC, formatLoop, if_neg (by decide), if_neg (by decide), List.tail_cons, hconv,
    Option.bind_some]
  change some (preLoop put (chr ' ') (preRest w) (put (preLoop put (chr ' ') w o) (chr 'y'))) = _
  rw [hr, List.foldl_append]
  exact congrArg (fun o => some (put o (chr 'y'))) (Writes.repeatPut (chr ' ') _ σ put o)

/-- **Both conditions on the text are needed**: a text of `2 ^ 31` characters has a length that is
not an `int`, and one that reaches the end of the address space is put at its beginning. -/
theorem vsnprintf_long :
    (¬ ∀ (strings : BitVec 32 → List UInt8) (fmt : List UInt8) (args : VaList)
      (mem : BitVec 32 → UInt8) (buf n : BitVec 32), n ≠ 0 → buf.toNat + n.toNat < 2 ^ 32 →
      ∀ t, formatText false strings fmt args = some t → buf.toNat + t.length < 2 ^ 32 →
        ∃ mem' ret, rtVsnprintf false strings mem buf n fmt args = some (mem', ret) ∧
          Printed mem mem' buf n t ret) ∧
    ¬ ∀ (strings : BitVec 32 → List UInt8) (fmt : List UInt8) (args : VaList)
      (mem : BitVec 32 → UInt8) (buf n : BitVec 32), n ≠ 0 → buf.toNat + n.toNat < 2 ^ 32 →
      ∀ t, formatText false strings fmt args = some t → t.length < 2 ^ 31 →
        ∃ mem' ret, rtVsnprintf false strings mem buf n fmt args = some (mem', ret) ∧
          Printed mem mem' buf n t ret := by
  constructor
  · intro h
    obtain ⟨t, ht⟩ : ∃ t, t = List.replicate 0x7ffffffe (chr ' ') := ⟨_, rfl⟩
    have hput : formatLoop append false (fun _ => []) 4 starC (starArgs 0x7fffffff) [chr 'x'] =
        some ((t ++ [chr 'y']).foldl append [chr 'x']) := by
      rw [ht]
      exact formatLoop_starC (by decide) (by decide) _ append _
    have htext : formatText false (fun _ => []) (chr 'x' :: starC) (starArgs 0x7fffffff) =
        some ([chr 'x'] ++ (t ++ [chr 'y'])) := by
      rw [← foldl_append_eq, ← hput, formatText, List.length_cons, formatLoop,
        if_neg (by decide), if_pos (by decide)]
      rfl
    have hlen : ([chr 'x'] ++ (t ++ [chr 'y'])).length = 2 ^ 31 := by
      rw [List.length_append, List.length_append, ht, List.length_replicate]
      rfl
    obtain ⟨mem', ret, -, hp⟩ := h _ _ _ (fun _ => 0) 0x20000000 16 (by decide) (by decide) _ htext
      (by rw [hlen]; decide)
    have hret := hp.ret
    have hmax : ret.toInt < 2 ^ 31 := BitVec.toInt_lt ..
    rw [hlen] at hret
    omega
  · intro h
    obtain ⟨t, ht⟩ : ∃ t, t = List.replicate 0x40000000 (chr ' ') := ⟨_, rfl⟩
    have hput : ∀ {σ : Type} (put : σ → UInt8 → σ) (o : σ),
        formatLoop put false (fun _ => []) 4 starC (starArgs 0x40000001) o =
          some ((t ++ [chr 'y']).foldl put o) := fun put o => by
      rw [ht]
      exact formatLoop_starC (by decide) (by decide) _ put o
    have hlen : t.length = 0x40000000 := by rw [ht, List.length_replicate]
    have htext : formatText false (fun _ => []) starC (starArgs 0x40000001) =
        some (t ++ [chr 'y']) := by
      have := hput append []
      rwa [foldl_append_eq] at this
    obtain ⟨mem', ret, hcall, hp⟩ := h _ _ _ (fun _ => 0) 0xc0000000 16 (by decide) (by decide) _
      htext (by rw [List.length_append, hlen]; decide)
    have hout : mem' 0 = 0 := hp.outside 0 fun i hi e => by
      have := congrArg BitVec.toNat e
      rw [toNat_add_ofNat (Nat.lt_trans (Nat.add_lt_add_left hi _) (by decide))] at this
      exact absurd this (by simp; omega)
    obtain ⟨o, ho⟩ : ∃ o, o = t.foldl (Out.put 0xc0000010)
        { mem := fun _ => 0, str := 0xc0000000 } := ⟨_, rfl⟩
    have hstr : o.str = 0 := by
      rw [ho, Out.put_str, hlen]
      decide
    have hmem : mem' = Function.update (Function.update o.mem 0 (chr 'y')) 1 0 := by
      have hres : rtVsnprintf false (fun _ => []) (fun _ => 0) 0xc0000000 16 starC
          (starArgs 0x40000001) = some (Function.update (Function.update o.mem 0 (chr 'y')) 1 0,
            1 - 0xc0000000) := by
        have hnow : ¬ (0xc0000000 : BitVec 32) + 16 < 0xc0000000 := by decide
        have hlen4 : starC.length + 1 = 4 := rfl
        have hend : (0xc0000000 : BitVec 32) + 16 = 0xc0000010 := rfl
        have hyput : Out.put 0xc0000010 o (chr 'y') =
            { mem := Function.update o.mem 0 (chr 'y'), str := 1 } := by
          rw [Out.put, hstr, if_pos (by decide)]
          rfl
        unfold rtVsnprintf
        dsimp only
        rw [if_neg hnow, if_neg hnow, hlen4, hput, Option.map_some, hend, List.foldl_append, ← ho,
          List.foldl_cons, List.foldl_nil, hyput, if_pos (by decide)]
        rfl
      rw [hcall] at hres
      exact congrArg Prod.fst (Option.some.inj hres)
    rw [hmem, Function.update_of_ne (by decide), Function.update_self] at hout
    exact absurd hout (by decide)

end RtThread
