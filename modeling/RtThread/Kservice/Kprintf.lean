import Mathlib.Data.List.GetD
import Mathlib.Data.List.Induction
import RtThread.Kservice.PrintString

/-!
# The console

`rt_kprintf` formats into `rt_log_buf`, to which it gives one byte less than it has, and then limits
the length to the bytes that it has given away: a text that is cut is one character shorter than
that, and the byte after it is the NUL.

* `rtKprintf`: the function, with what it passes to the console;
* `putAt`: the index of the character that is left where an index was put, for texts of all lengths;
* `ConsoleShown`: what is passed are the first characters of the text, and not the NUL;
* **`kprintf_text`**: exactly when that is so.
-/

namespace RtThread

/-! ## The function -/

/-- The bytes of a buffer. -/
def bytesAt (mem : BitVec 32 → UInt8) (buf : BitVec 32) (length : ℕ) : List UInt8 :=
  (List.range length).map fun i => mem (buf + BitVec.ofNat 32 i)

/-- What `rt_hw_console_output` prints: the characters before the NUL. There is no result when it is
not in the `size` bytes. -/
def consoleString (mem : BitVec 32 → UInt8) : ℕ → BitVec 32 → Option (List UInt8)
  | 0, _ => none
  | size + 1, str =>
    if mem str = 0 then some [] else (consoleString mem size (str + 1)).map (mem str :: ·)

/-- `rt_kprintf`: the memory after it, what it passes to the console and what it returns. The buffer
`rt_log_buf` is at `buf`, with `RT_CONSOLEBUF_SIZE` bytes; `device` says whether there is a console
device. -/
def rtKprintf (longlong : Bool) (strings : BitVec 32 → List UInt8) (device : Bool)
    (mem : BitVec 32 → UInt8) (buf consolebufSize : BitVec 32) (fmt : List UInt8) (args : VaList) :
    Option ((BitVec 32 → UInt8) × List UInt8 × BitVec 32) :=
  (rtVsnprintf longlong strings mem buf (consolebufSize - 1) fmt args).bind fun r =>
    let length := if consolebufSize - 1 < r.2 then consolebufSize - 1 else r.2
    let passed :=
      if device then some (bytesAt r.1 buf length.toNat)
      else consoleString r.1 consolebufSize.toNat buf
    passed.map fun passed => (r.1, passed, length)

/-! ## What is asked for -/

/-- Where `rt_vsnprintf` puts the NUL, in a buffer of `n` bytes. -/
def nulAt (buf n : BitVec 32) (length : ℕ) : BitVec 32 :=
  if buf + BitVec.ofNat 32 length < buf + n then buf + BitVec.ofNat 32 length else buf + n - 1

/-- The console gets the first characters of the text, as many as fit into `n` bytes, and not the
NUL. -/
structure ConsoleShown (passed t : List UInt8) (buf n : BitVec 32) : Prop where
  text : passed = t.take n.toNat
  nul : n ≠ 0 → ∀ i < passed.length, buf + BitVec.ofNat 32 i ≠ nulAt buf n t.length

/-- The index of the last character that is put where the character `j` was, in a text of `length`
characters. -/
def putAt (length j : ℕ) : ℕ := j + 2 ^ 32 * ((length - 1 - j) / 2 ^ 32)

/-- The text passes the end of the address space, ends before the buffer, and what it has left in the
buffer is what it begins with. -/
def Around (t : List UInt8) (buf n : BitVec 32) : Prop :=
  2 ^ 32 ≤ buf.toNat + t.length % 2 ^ 32 ∧
    ∀ j < n.toNat, t.getD (putAt t.length j) 0 = t.getD j 0

/-- The text is shorter than the `n` bytes, and what the console takes up to a NUL has none. -/
def ConsoleFits (device : Bool) (t : List UInt8) (buf n : BitVec 32) : Prop :=
  n = 0 ∨ ((t.length < n.toNat ∨ Around t buf n) ∧ (device = true ∨ (0 : UInt8) ∉ t.take n.toNat))

/-! ## Texts of all lengths -/

section
variable {mem : BitVec 32 → UInt8} {buf n stop : BitVec 32} {t : List UInt8}

/-- **What a text leaves in the memory**: the last character that was put at an address. -/
theorem Out.put_last (stop : BitVec 32) (t : List UInt8) (o : Out) {j : ℕ} (hj : j < 2 ^ 32)
    (hstop : o.str + BitVec.ofNat 32 j < stop) :
    (t.foldl (Out.put stop) o).mem (o.str + BitVec.ofNat 32 j) =
      if j < t.length then t.getD (putAt t.length j) 0 else o.mem (o.str + BitVec.ofNat 32 j) := by
  induction t using List.reverseRecOn with
  | nil => rfl
  | append_singleton t c ih =>
    rw [List.foldl_append, List.foldl_cons, List.foldl_nil, List.length_append,
      List.length_singleton]
    have hput : (Out.put stop (t.foldl (Out.put stop) o) c).mem =
        if o.str + BitVec.ofNat 32 t.length < stop then
          Function.update (t.foldl (Out.put stop) o).mem (o.str + BitVec.ofNat 32 t.length) c
        else (t.foldl (Out.put stop) o).mem := by
      rw [Out.put, Out.put_str]
    rw [hput]
    by_cases hself : t.length % 2 ^ 32 = j
    · have haddr : BitVec.ofNat 32 t.length = BitVec.ofNat 32 j := by
        refine BitVec.eq_of_toNat_eq ?_
        rw [BitVec.toNat_ofNat, BitVec.toNat_ofNat]
        omega
      have hlast : putAt (t.length + 1) j = t.length := by
        rw [putAt]
        omega
      rw [haddr, if_pos hstop, Function.update_self, if_pos (by omega), hlast,
        List.getD_append_right _ _ _ _ (Nat.le_refl _), Nat.sub_self]
      rfl
    · have hne : o.str + BitVec.ofNat 32 j ≠ o.str + BitVec.ofNat 32 t.length := fun e => by
        have := congrArg BitVec.toNat ((BitVec.add_right_inj _).mp e)
        rw [BitVec.toNat_ofNat, BitVec.toNat_ofNat] at this
        omega
      have hold : (if o.str + BitVec.ofNat 32 t.length < stop then
          Function.update (t.foldl (Out.put stop) o).mem (o.str + BitVec.ofNat 32 t.length) c
        else (t.foldl (Out.put stop) o).mem) (o.str + BitVec.ofNat 32 j) =
          (t.foldl (Out.put stop) o).mem (o.str + BitVec.ofNat 32 j) := by
        split_ifs
        · exact Function.update_of_ne hne _ _
        · rfl
      rw [hold, ih]
      by_cases hlt : j < t.length
      · have hlast : putAt (t.length + 1) j = putAt t.length j := by
          rw [putAt, putAt]
          omega
        rw [if_pos hlt, if_pos (by omega), hlast, List.getD_append _ _ _ _ (by rw [putAt]; omega)]
      · rw [if_neg hlt, if_neg (by omega)]

/-- Nothing is put at the end or after it. -/
theorem Out.put_end (stop : BitVec 32) (t : List UInt8) (o : Out) {a : BitVec 32}
    (ha : ¬ a < stop) : (t.foldl (Out.put stop) o).mem a = o.mem a := by
  induction t generalizing o with
  | nil => rfl
  | cons c t ih =>
    rw [List.foldl_cons, ih]
    change (if o.str < stop then Function.update o.mem o.str c else o.mem) a = o.mem a
    split_ifs with hlt
    · exact Function.update_of_ne (fun e => ha (by rwa [e])) _ _
    · rfl

/-- The NUL is in the buffer, or before it. -/
theorem nulAt_lt (hfit : buf.toNat + n.toNat < 2 ^ 32) (hn : n ≠ 0) (length : ℕ) :
    (nulAt buf n length).toNat < buf.toNat + n.toNat := by
  have hn' : n.toNat ≠ 0 := fun e => hn (BitVec.eq_of_toNat_eq e)
  have hadd : (buf + n).toNat = buf.toNat + n.toNat := by
    rw [BitVec.toNat_add]
    exact Nat.mod_eq_of_lt hfit
  rw [nulAt]
  split_ifs with hlt
  · rw [BitVec.lt_def, hadd] at hlt
    exact hlt
  · rw [BitVec.toNat_sub_of_le, hadd]
    · change _ - 1 < _
      omega
    · rw [BitVec.le_def, hadd]
      change 1 ≤ _
      omega

/-- **What `rt_vsnprintf` leaves in a buffer of `n` bytes**, for texts of all lengths. -/
theorem vsnprintf_mem (mem : BitVec 32 → UInt8) (hfit : buf.toNat + n.toNat < 2 ^ 32) (longlong : Bool)
    (strings : BitVec 32 → List UInt8) (fmt : List UInt8) (args : VaList)
    (ht : ∀ (σ : Type) (put : σ → UInt8 → σ) (o : σ),
      formatLoop put longlong strings (fmt.length + 1) fmt args o = some (t.foldl put o)) :
    ∃ mem', rtVsnprintf longlong strings mem buf n fmt args =
        some (mem', BitVec.ofNat 32 t.length) ∧
      (∀ j < n.toNat, mem' (buf + BitVec.ofNat 32 j) =
        if buf + BitVec.ofNat 32 j = nulAt buf n t.length then 0
        else if j < t.length then t.getD (putAt t.length j) 0 else mem (buf + BitVec.ofNat 32 j)) ∧
      mem' (buf + n) = mem (buf + n) := by
  have hadd : (buf + n).toNat = buf.toNat + n.toNat := by
    rw [BitVec.toNat_add]
    exact Nat.mod_eq_of_lt hfit
  have hwrap : ¬ buf + n < buf := by
    rw [BitVec.lt_def, hadd]
    omega
  have hin : ∀ j < n.toNat, buf + BitVec.ofNat 32 j < buf + n := fun j hj => by
    rw [BitVec.lt_def, hadd, toNat_add_ofNat (by omega)]
    omega
  have hret : buf + BitVec.ofNat 32 t.length - buf = BitVec.ofNat 32 t.length := by
    rw [BitVec.add_comm, BitVec.add_sub_cancel]
  have hend := Out.put_end (buf + n) t { mem := mem, str := buf } (a := buf + n) (by
    rw [BitVec.lt_def]
    omega)
  refine ⟨if 0 < n then
      Function.update (t.foldl (Out.put (buf + n)) { mem := mem, str := buf }).mem
        (nulAt buf n t.length) 0
    else (t.foldl (Out.put (buf + n)) { mem := mem, str := buf }).mem, ?_, ?_, ?_⟩
  · unfold rtVsnprintf
    dsimp only
    rw [if_neg hwrap, if_neg hwrap, ht, Option.map_some, Out.put_str, hret, nulAt]
    dsimp only
    split_ifs
    · rfl
    · rfl
    · rfl
  · intro j hj
    have hn : 0 < n := by
      rw [BitVec.lt_def]
      exact Nat.zero_lt_of_lt hj
    have hlast := Out.put_last (buf + n) t { mem := mem, str := buf } (j := j) (by omega) (hin j hj)
    rw [if_pos hn, Function.update_apply]
    split_ifs with hnul
    · rfl
    · rw [hlast, if_pos ‹_›]
    · rw [hlast, if_neg ‹_›]
  · split_ifs with hn
    · have hne : buf + n ≠ nulAt buf n t.length := fun e => by
        have hlt := nulAt_lt hfit (fun h0 => by rw [h0] at hn; exact absurd hn (by decide)) t.length
        rw [← e, hadd] at hlt
        omega
      rw [Function.update_of_ne hne]
      exact hend
    · exact hend

/-! ## What the console gets -/

theorem bytesAt_length (mem : BitVec 32 → UInt8) (buf : BitVec 32) (length : ℕ) :
    (bytesAt mem buf length).length = length := by
  rw [bytesAt, List.length_map, List.length_range]

/-- The bytes of a buffer, one by one. -/
theorem bytesAt_getD {length i : ℕ} (hi : i < length) :
    (bytesAt mem buf length).getD i 0 = mem (buf + BitVec.ofNat 32 i) := by
  rw [bytesAt, List.getD_eq_getElem _ _ (by rwa [List.length_map, List.length_range]),
    List.getElem_map, List.getElem_range]

/-- Two lists with the same bytes. -/
theorem bytes_ext {l l' : List UInt8} (hlen : l.length = l'.length)
    (h : ∀ i < l.length, l.getD i 0 = l'.getD i 0) : l = l' := by
  refine List.ext_getElem hlen fun i hi hi' => ?_
  have hget := h i hi
  rwa [List.getD_eq_getElem _ _ hi, List.getD_eq_getElem _ _ hi'] at hget

/-- The buffer, from its first byte. -/
theorem bytesAt_succ (mem : BitVec 32 → UInt8) (buf : BitVec 32) (size : ℕ) :
    bytesAt mem buf (size + 1) = mem buf :: bytesAt mem (buf + 1) size := by
  rw [bytesAt, List.range_succ_eq_map, List.map_cons, List.map_map, bytesAt]
  congr 1
  · rw [BitVec.add_zero]
  · refine List.map_congr_left fun i _ => congrArg mem ?_
    rw [Nat.succ_eq_add_one, Nat.add_comm, BitVec.ofNat_add, ← BitVec.add_assoc]
    rfl

/-- **The console output** of a buffer with a NUL: what is before the first one. -/
theorem consoleString_eq {k size : ℕ} (hk : k < size) (hz : mem (buf + BitVec.ofNat 32 k) = 0) :
    consoleString mem size buf = some (cString (bytesAt mem buf k)) := by
  induction k generalizing size buf with
  | zero =>
    obtain ⟨size, rfl⟩ := Nat.exists_eq_succ_of_ne_zero (Nat.ne_of_gt hk)
    rw [BitVec.add_zero] at hz
    rw [consoleString, if_pos hz]
    rfl
  | succ k ih =>
    obtain ⟨size, rfl⟩ := Nat.exists_eq_succ_of_ne_zero (Nat.ne_of_gt (Nat.zero_lt_of_lt hk))
    have hz' : mem (buf + 1 + BitVec.ofNat 32 k) = 0 := by
      rw [Nat.add_comm, BitVec.ofNat_add, ← BitVec.add_assoc] at hz
      exact hz
    rw [consoleString, bytesAt_succ, cString_cons]
    by_cases h0 : mem buf = 0
    · rw [if_pos h0, if_neg (not_not.mpr h0)]
    · rw [if_neg h0, if_pos h0, ih (Nat.lt_of_succ_lt_succ hk) hz']
      rfl

/-- The NUL of a text that fits comes after it. -/
theorem nulAt_short (hfit : buf.toNat + n.toNat < 2 ^ 32) {length : ℕ} (hlt : length < n.toNat) :
    nulAt buf n length = buf + BitVec.ofNat 32 length := by
  refine if_pos ?_
  rw [BitVec.lt_def, toNat_add_ofNat (by omega), BitVec.toNat_add, Nat.mod_eq_of_lt hfit]
  omega

/-- The NUL of a text that does not fit is one of the `n` bytes, unless the text ends before the
buffer. -/
theorem nulAt_long (hfit : buf.toNat + n.toNat < 2 ^ 32) (hn : n ≠ 0) {length : ℕ}
    (hend : buf.toNat + length % 2 ^ 32 < 2 ^ 32) :
    ∃ k < n.toNat, nulAt buf n length = buf + BitVec.ofNat 32 k := by
  have hlt := nulAt_lt hfit hn length
  have hadd : (buf + n).toNat = buf.toNat + n.toNat := by
    rw [BitVec.toNat_add]
    exact Nat.mod_eq_of_lt hfit
  have hn' : n.toNat ≠ 0 := fun e => hn (BitVec.eq_of_toNat_eq e)
  have hle : buf.toNat ≤ (nulAt buf n length).toNat := by
    rw [nulAt]
    split_ifs
    · rw [BitVec.toNat_add, BitVec.toNat_ofNat]
      omega
    · rw [BitVec.toNat_sub_of_le, hadd]
      · change _ ≤ _ - 1
        omega
      · rw [BitVec.le_def, hadd]
        change 1 ≤ _
        omega
  refine ⟨(nulAt buf n length).toNat - buf.toNat, by omega, BitVec.eq_of_toNat_eq ?_⟩
  rw [toNat_add_ofNat (by omega)]
  omega

/-- The NUL of a text that ends before the buffer. -/
theorem nulAt_around (hfit : buf.toNat + n.toNat < 2 ^ 32) {length : ℕ}
    (hend : 2 ^ 32 ≤ buf.toNat + length % 2 ^ 32) : (nulAt buf n length).toNat < buf.toNat := by
  have hadd : (buf + n).toNat = buf.toNat + n.toNat := by
    rw [BitVec.toNat_add]
    exact Nat.mod_eq_of_lt hfit
  have hstr : (buf + BitVec.ofNat 32 length).toNat = buf.toNat + length % 2 ^ 32 - 2 ^ 32 := by
    rw [BitVec.toNat_add, BitVec.toNat_ofNat]
    omega
  rw [nulAt, if_pos]
  · omega
  · rw [BitVec.lt_def, hadd, hstr]
    omega

end

/-! ## The result -/

section
variable {mem mem' : BitVec 32 → UInt8} {buf n : BitVec 32} {t : List UInt8}

/-- A text that fits is in the buffer. -/
theorem bytesAt_short (hfit : buf.toNat + n.toNat < 2 ^ 32) (hlt : t.length < n.toNat)
    (hbuf : ∀ j < n.toNat, mem' (buf + BitVec.ofNat 32 j) =
      if buf + BitVec.ofNat 32 j = nulAt buf n t.length then 0
      else if j < t.length then t.getD (putAt t.length j) 0 else mem (buf + BitVec.ofNat 32 j)) :
    bytesAt mem' buf t.length = t := by
  refine bytes_ext (bytesAt_length ..) fun i hi => ?_
  rw [bytesAt_length] at hi
  have hne : buf + BitVec.ofNat 32 i ≠ nulAt buf n t.length := fun e => by
    have heq := congrArg BitVec.toNat e
    rw [nulAt_short hfit hlt, toNat_add_ofNat (by omega), toNat_add_ofNat (by omega)] at heq
    omega
  have hlast : putAt t.length i = i := by
    rw [putAt]
    omega
  rw [bytesAt_getD hi, hbuf i (by omega), if_neg hne, if_pos hi, hlast]

/-- What the buffer has of a text that ends before it. -/
theorem bytesAt_around (hfit : buf.toNat + n.toNat < 2 ^ 32)
    (hend : 2 ^ 32 ≤ buf.toNat + t.length % 2 ^ 32)
    (hbuf : ∀ j < n.toNat, mem' (buf + BitVec.ofNat 32 j) =
      if buf + BitVec.ofNat 32 j = nulAt buf n t.length then 0
      else if j < t.length then t.getD (putAt t.length j) 0 else mem (buf + BitVec.ofNat 32 j)) :
    bytesAt mem' buf n.toNat = t.take n.toNat ↔ Around t buf n := by
  have hlen : n.toNat ≤ t.length := by
    have := Nat.mod_le t.length (2 ^ 32)
    omega
  have hbyte : ∀ j < n.toNat, (bytesAt mem' buf n.toNat).getD j 0 =
      t.getD (putAt t.length j) 0 := fun j hj => by
    have hne : buf + BitVec.ofNat 32 j ≠ nulAt buf n t.length := fun e => by
      have hlt := nulAt_around hfit hend
      rw [← e, toNat_add_ofNat (by omega)] at hlt
      omega
    rw [bytesAt_getD hj, hbuf j hj, if_neg hne, if_pos (by omega)]
  have htake : ∀ j < n.toNat, (t.take n.toNat).getD j 0 = t.getD j 0 := fun j hj => by
    rw [List.getD_eq_getElem?_getD, List.getD_eq_getElem?_getD, List.getElem?_take_of_lt hj]
  constructor
  · intro h
    refine ⟨hend, fun j hj => ?_⟩
    rw [← hbyte j hj, h, htake j hj]
  · rintro ⟨-, h⟩
    refine bytes_ext ?_ fun j hj => ?_
    · rw [bytesAt_length, List.length_take]
      omega
    · rw [bytesAt_length] at hj
      rw [hbyte j hj, h j hj, htake j hj]

/-- What is passed to the console, and when it is the text. -/
theorem consoleShown_iff (hfit : buf.toNat + n.toNat < 2 ^ 32) (device : Bool)
    (hstop : mem' (buf + n) = 0)
    (hbuf : ∀ j < n.toNat, mem' (buf + BitVec.ofNat 32 j) =
      if buf + BitVec.ofNat 32 j = nulAt buf n t.length then 0
      else if j < t.length then t.getD (putAt t.length j) 0 else mem (buf + BitVec.ofNat 32 j)) :
    ∃ passed, (if device then some (bytesAt mem' buf (min n.toNat (t.length % 2 ^ 32)))
        else consoleString mem' (n.toNat + 1) buf) = some passed ∧
      (ConsoleShown passed t buf n ↔ ConsoleFits device t buf n) := by
  have hstop' : mem' (buf + BitVec.ofNat 32 n.toNat) = 0 := by
    rwa [BitVec.ofNat_toNat, BitVec.setWidth_eq]
  by_cases hn : n = 0
  · -- nothing is formatted, and the first byte is a NUL
    subst hn
    have hnil : min (0 : BitVec 32).toNat (t.length % 2 ^ 32) = 0 := Nat.zero_min _
    refine ⟨[], ?_, fun _ => .inl rfl, fun _ => ⟨rfl, fun h => absurd rfl h⟩⟩
    rw [hnil, consoleString_eq (Nat.lt_succ_self _) hstop']
    cases device
    · rfl
    · rfl
  have hn' : n.toNat ≠ 0 := fun e => hn (BitVec.eq_of_toNat_eq e)
  by_cases hlt : t.length < n.toNat
  · -- the text fits
    have hmin : min n.toNat (t.length % 2 ^ 32) = t.length := by omega
    have htake : t.take n.toNat = t := List.take_of_length_le (Nat.le_of_lt hlt)
    have hbytes := bytesAt_short hfit hlt hbuf
    have hnul : mem' (buf + BitVec.ofNat 32 t.length) = 0 := by
      rw [hbuf _ hlt, if_pos (nulAt_short hfit hlt).symm]
    have hbefore : ∀ i < t.length, buf + BitVec.ofNat 32 i ≠ nulAt buf n t.length := fun i hi e => by
      have heq := congrArg BitVec.toNat e
      rw [nulAt_short hfit hlt, toNat_add_ofNat (by omega), toNat_add_ofNat (by omega)] at heq
      omega
    rw [hmin, hbytes, consoleString_eq (Nat.lt_succ_of_lt hlt) hnul, hbytes]
    cases device with
    | true =>
      refine ⟨t, rfl, fun _ => .inr ⟨.inl hlt, .inl rfl⟩, fun _ => ⟨htake.symm, fun _ => hbefore⟩⟩
    | false =>
      refine ⟨cString t, rfl, fun h => .inr ⟨.inl hlt, .inr ?_⟩, fun h => ?_⟩
      · rw [htake]
        exact cString_eq_self.mp (h.text.trans htake)
      · have hno := (h.resolve_left hn).2.resolve_left Bool.false_ne_true
        rw [htake] at hno
        refine ⟨(cString_eq_self.mpr hno).trans htake.symm, fun _ i hi => hbefore i ?_⟩
        exact Nat.lt_of_lt_of_le hi (cString_length_le t)
  have hlen : (t.take n.toNat).length = n.toNat := by
    rw [List.length_take]
    omega
  by_cases hend : buf.toNat + t.length % 2 ^ 32 < 2 ^ 32
  · -- the text is cut, and the NUL is one of the bytes
    have hno : ¬ ConsoleFits device t buf n := by
      rintro (h | ⟨h | h, -⟩)
      · exact hn h
      · exact hlt h
      · have := h.1
        omega
    obtain ⟨k, hk, hnul⟩ := nulAt_long hfit hn hend
    cases device with
    | true =>
      refine ⟨_, rfl, fun h => ?_, fun h => absurd h hno⟩
      have hfull := congrArg List.length h.text
      rw [bytesAt_length, hlen] at hfull
      refine absurd hnul.symm (h.nul hn k ?_)
      rw [bytesAt_length]
      omega
    | false =>
      have hz : mem' (buf + BitVec.ofNat 32 k) = 0 := by rw [hbuf k hk, if_pos hnul.symm]
      refine ⟨_, consoleString_eq (Nat.lt_succ_of_lt hk) hz, fun h => ?_, fun h => absurd h hno⟩
      have hfull := congrArg List.length h.text
      have hle := cString_length_le (bytesAt mem' buf k)
      rw [bytesAt_length] at hle
      omega
  · -- the text ends before the buffer
    have hmod := Nat.mod_le t.length (2 ^ 32)
    have hmin : min n.toNat (t.length % 2 ^ 32) = n.toNat := by omega
    have hbytes := bytesAt_around hfit (Nat.le_of_not_lt hend) hbuf
    have hbefore : ∀ i < n.toNat, buf + BitVec.ofNat 32 i ≠ nulAt buf n t.length := fun i hi e => by
      have hbelow := nulAt_around hfit (Nat.le_of_not_lt hend)
      rw [← e, toNat_add_ofNat (by omega)] at hbelow
      omega
    rw [hmin, consoleString_eq (Nat.lt_succ_self _) hstop']
    cases device with
    | true =>
      refine ⟨_, rfl, fun h => ?_, fun h => ?_⟩
      · exact .inr ⟨.inr (hbytes.mp h.text), .inl rfl⟩
      · refine ⟨hbytes.mpr ((h.resolve_left hn).1.resolve_left hlt), fun _ i hi => hbefore i ?_⟩
        rwa [bytesAt_length] at hi
    | false =>
      refine ⟨_, rfl, fun h => ?_, fun h => ?_⟩
      · have hfull := congrArg List.length h.text
        rw [hlen] at hfull
        have hself : cString (bytesAt mem' buf n.toNat) = bytesAt mem' buf n.toNat :=
          (List.takeWhile_prefix _).eq_of_length (by rw [bytesAt_length]; exact hfull)
        have htext := hself.symm.trans h.text
        refine .inr ⟨.inr (hbytes.mp htext), .inr ?_⟩
        rw [← htext]
        exact cString_eq_self.mp hself
      · obtain ⟨haround, hno⟩ := h.resolve_left hn
        have htext := hbytes.mpr (haround.resolve_left hlt)
        have hself : cString (bytesAt mem' buf n.toNat) = bytesAt mem' buf n.toNat := by
          rw [htext]
          exact cString_eq_self.mpr (hno.resolve_left Bool.false_ne_true)
        refine ⟨hself.trans htext, fun _ i hi => hbefore i ?_⟩
        rw [hself, bytesAt_length] at hi
        exact hi

/-- **What `rt_kprintf` passes to the console**: the first characters of the text, as many as fit
into all but one of the bytes of `rt_log_buf`, exactly when the text is shorter than that. The last
byte of `rt_log_buf` stays a NUL. -/
theorem kprintf_text (longlong : Bool) (strings : BitVec 32 → List UInt8) (device : Bool)
    (fmt : List UInt8) (args : VaList) : ∃ t, formatText longlong strings fmt args = some t ∧
      ∀ (mem : BitVec 32 → UInt8) (buf consolebufSize : BitVec 32), consolebufSize ≠ 0 →
        buf.toNat + consolebufSize.toNat ≤ 2 ^ 32 → mem (buf + (consolebufSize - 1)) = 0 →
        ∃ mem' passed ret,
          rtKprintf longlong strings device mem buf consolebufSize fmt args =
            some (mem', passed, ret) ∧
          mem' (buf + (consolebufSize - 1)) = 0 ∧
          (ConsoleShown passed t buf (consolebufSize - 1) ↔
            ConsoleFits device t buf (consolebufSize - 1)) := by
  obtain ⟨t, htext, ht⟩ := formatText_spec longlong strings fmt args
  refine ⟨t, htext, fun mem buf size hsize hin hzero => ?_⟩
  have hsize' : size.toNat ≠ 0 := fun e => hsize (BitVec.eq_of_toNat_eq e)
  have hn : (size - 1).toNat + 1 = size.toNat := by
    rw [BitVec.toNat_sub_of_le]
    · change size.toNat - 1 + 1 = _
      omega
    · rw [BitVec.le_def]
      change 1 ≤ _
      omega
  have hfit : buf.toNat + (size - 1).toNat < 2 ^ 32 := by omega
  obtain ⟨mem', hcall, hbuf, hstop⟩ := vsnprintf_mem mem hfit longlong strings fmt args ht
  rw [hzero] at hstop
  obtain ⟨passed, hpassed, hiff⟩ := consoleShown_iff hfit device hstop hbuf
  have hlength : (if size - 1 < BitVec.ofNat 32 t.length then size - 1
      else BitVec.ofNat 32 t.length).toNat = min (size - 1).toNat (t.length % 2 ^ 32) := by
    split_ifs with hlt
    · rw [BitVec.lt_def, BitVec.toNat_ofNat] at hlt
      omega
    · rw [BitVec.lt_def, BitVec.toNat_ofNat] at hlt
      rw [BitVec.toNat_ofNat]
      omega
  rw [hn] at hpassed
  refine ⟨mem', passed, if size - 1 < BitVec.ofNat 32 t.length then size - 1
    else BitVec.ofNat 32 t.length, ?_, hstop, hiff⟩
  rw [rtKprintf, hcall, Option.bind_some]
  dsimp only
  rw [hlength, hpassed]
  rfl

/-- A text of two characters, with four bytes. -/
theorem kprintf_text_short : ∃ mem' passed ret,
    rtKprintf false (fun _ => []) true (fun _ => 0) 0x20000000 4 [chr 'h', chr 'i'] (fun _ => 0) =
      some (mem', passed, ret) ∧ ConsoleShown passed [chr 'h', chr 'i'] 0x20000000 3 := by
  obtain ⟨t, htext, h⟩ := kprintf_text false (fun _ => []) true [chr 'h', chr 'i'] fun _ => 0
  have ht : formatText false (fun _ => []) [chr 'h', chr 'i'] (fun _ => 0) =
      some [chr 'h', chr 'i'] := by decide
  rw [ht] at htext
  cases htext
  obtain ⟨mem', passed, ret, hcall, -, hiff⟩ :=
    h (fun _ => 0) 0x20000000 4 (by decide) (by decide) rfl
  exact ⟨mem', passed, ret, hcall, hiff.mpr (.inr ⟨.inl (by decide), .inl rfl⟩)⟩

/-- **A text that is cut**: with four bytes, `abcd` gives the device `ab` and the NUL. -/
theorem kprintf_cut : formatText false (fun _ => []) [chr 'a', chr 'b', chr 'c', chr 'd'] (fun _ => 0) =
      some [chr 'a', chr 'b', chr 'c', chr 'd'] ∧
    (rtKprintf false (fun _ => []) true (fun _ => 0) 0x20000000 4
      [chr 'a', chr 'b', chr 'c', chr 'd'] (fun _ => 0)).map (fun r => r.2) =
        some ([chr 'a', chr 'b', 0], 3) ∧
    ¬ ConsoleShown [chr 'a', chr 'b', 0] [chr 'a', chr 'b', chr 'c', chr 'd'] 0x20000000 3 := by
  refine ⟨by decide, by decide, fun h => ?_⟩
  exact absurd h.text (by decide)

end

end RtThread
