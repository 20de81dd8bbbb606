import Mathlib.Data.BitVec

/-!
# Words in a memory of bytes

Addresses have 32 bits and wrap round; `x - a` is how far `x` lies behind `a`.

* `storeWord`, `loadWord`: four bytes, the low one first;
* `storeWord_out`, `loadWord_storeWord`, `loadWord_storeWord_apart`: what a store changes;
* `storeWords`: stores one after the other; `storeWords_out`, `loadWord_storeWords`.
-/

namespace RtThread

/-- A memory of bytes. -/
abbrev ByteMemory := BitVec 32 → BitVec 8

/-- A word is stored at `a`. -/
def storeWord (mem : ByteMemory) (a v : BitVec 32) : ByteMemory := fun x =>
  if (x - a).toNat < 4 then v.extractLsb' (8 * (x - a).toNat) 8 else mem x

/-- The word at `a`. -/
def loadWord (mem : ByteMemory) (a : BitVec 32) : BitVec 32 :=
  mem (a + 3) ++ mem (a + 2) ++ mem (a + 1) ++ mem a

/-- Stores, one after the other. -/
def storeWords (mem : ByteMemory) (l : List (BitVec 32 × BitVec 32)) : ByteMemory :=
  l.foldl (fun mem s => storeWord mem s.1 s.2) mem

/-- The words at `a` and `b` have no byte in common. -/
def WordsApart (a b : BitVec 32) : Prop := 4 ≤ (b - a).toNat ∧ (b - a).toNat + 4 ≤ 2 ^ 32

variable {mem : ByteMemory} {a b v x : BitVec 32}

theorem storeWord_out (h : ¬(x - a).toNat < 4) : storeWord mem a v x = mem x := if_neg h

theorem storeWord_in {k : BitVec 32} (hk : k.toNat < 4) :
    storeWord mem a v (a + k) = v.extractLsb' (8 * k.toNat) 8 := by
  have h : a + k - a = k := by rw [BitVec.add_comm, BitVec.add_sub_cancel]
  rw [storeWord, h, if_pos hk]

@[simp] theorem loadWord_storeWord : loadWord (storeWord mem a v) a = v := by
  have h0 : storeWord mem a v a = v.extractLsb' 0 8 := by
    rw [storeWord, BitVec.sub_self]
    rfl
  rw [loadWord, storeWord_in (by decide), storeWord_in (by decide), storeWord_in (by decide), h0,
    BitVec.extractLsb'_append_extractLsb'_eq_extractLsb' (by decide),
    BitVec.extractLsb'_append_extractLsb'_eq_extractLsb' (by decide),
    BitVec.extractLsb'_append_extractLsb'_eq_extractLsb' (by decide)]
  exact BitVec.extractLsb'_eq_self

/-- A store leaves the other words as they are. -/
theorem loadWord_storeWord_apart (h : WordsApart a b) :
    loadWord (storeWord mem a v) b = loadWord mem b := by
  obtain ⟨h1, h2⟩ := h
  have hout : ∀ k : BitVec 32, k.toNat < 4 → storeWord mem a v (b + k) = mem (b + k) := by
    intro k hk
    refine storeWord_out ?_
    have hsub : b + k - a = b - a + k := by
      rw [BitVec.sub_eq_add_neg, BitVec.sub_eq_add_neg, BitVec.add_assoc, BitVec.add_comm k,
        ← BitVec.add_assoc]
    rw [hsub, BitVec.toNat_add, Nat.mod_eq_of_lt (by omega)]
    omega
  have h0 : storeWord mem a v b = mem b := storeWord_out (by omega)
  rw [loadWord, hout 3 (by decide), hout 2 (by decide), hout 1 (by decide), h0]
  rfl

/-- Bytes outside of the words are kept. -/
theorem storeWords_out {l : List (BitVec 32 × BitVec 32)}
    (h : ∀ s ∈ l, ¬(x - s.1).toNat < 4) : storeWords mem l x = mem x := by
  induction l generalizing mem with
  | nil => rfl
  | cons s l ih =>
    change storeWords (storeWord mem s.1 s.2) l x = mem x
    rw [ih fun t ht => h t (List.mem_cons_of_mem _ ht)]
    exact storeWord_out (h s List.mem_cons_self)

theorem storeWords_append (l m : List (BitVec 32 × BitVec 32)) :
    storeWords mem (l ++ m) = storeWords (storeWords mem l) m := List.foldl_append

/-- Words apart from the stores are kept. -/
theorem loadWord_storeWords_apart {l : List (BitVec 32 × BitVec 32)}
    (h : ∀ s ∈ l, WordsApart s.1 a) : loadWord (storeWords mem l) a = loadWord mem a := by
  induction l generalizing mem with
  | nil => rfl
  | cons s l ih =>
    change loadWord (storeWords (storeWord mem s.1 s.2) l) a = loadWord mem a
    rw [ih fun t ht => h t (List.mem_cons_of_mem _ ht)]
    exact loadWord_storeWord_apart (h s List.mem_cons_self)

/-- **A word that is stored once is read back.** -/
theorem loadWord_storeWords {l : List (BitVec 32 × BitVec 32)} (hmem : (a, v) ∈ l)
    (h : ∀ s ∈ l, s = (a, v) ∨ WordsApart s.1 a) : loadWord (storeWords mem l) a = v := by
  induction l generalizing mem with
  | nil => cases hmem
  | cons s l ih =>
    change loadWord (storeWords (storeWord mem s.1 s.2) l) a = v
    have hl : ∀ t ∈ l, t = (a, v) ∨ WordsApart t.1 a := fun t ht => h t (List.mem_cons_of_mem _ ht)
    by_cases hin : (a, v) ∈ l
    · exact ih hin hl
    · have happart : ∀ t ∈ l, WordsApart t.1 a := fun t ht =>
        (hl t ht).resolve_left fun he => hin (he ▸ ht)
      rcases List.mem_cons.mp hmem with rfl | hmem
      · rw [loadWord_storeWords_apart happart, loadWord_storeWord]
      · exact absurd hmem hin

end RtThread
