import RtThread.Memory.Memheap

/-!
# The sizes of memory heaps

Sizes have 32 bits: `RT_ALIGN` makes zero of the greatest, and the sums that `rt_memheap_realloc`
compares can wrap.

* `MemheapAnswer`: what a request gets;
* **`memheap_sizes`**: every request gets it, where no sum wraps;
* `memheap_sizes_wrap`: sizes that wrap.
-/

namespace RtThread

open Memheap

/-- What a request for `n` bytes gets: null, and the heap is as it was, or a used block of the pool,
with room for them. -/
structure MemheapAnswer (m m' : Memheap) (q : Option ℕ) (n : ℕ) : Prop where
  null : q = none → m' = m
  block : ∀ p, q = some p → m'.isUsed (p - memheapSize) = true ∧
    n ≤ m'.memitemSize (p - memheapSize) ∧ m.startAddr + memheapSize ≤ p ∧
    p + m'.memitemSize (p - memheapSize) ≤ m.tail
  written : PoolOnly m m'

namespace MemheapAnswer

variable {best : Bool} {m m' : Memheap} {l l' : List Cell} {F : List ℕ} {b : ℕ × ℕ} {n k : ℕ}

theorem refused (m : Memheap) (n : ℕ) : MemheapAnswer m m none n where
  null _ := rfl
  block p hp := by cases hp
  written := .refl m

theorem granted (h' : MhRep m' l') (hw : PoolOnly m m') (hb : b ∈ blocks true l')
    (hn : n + memheapSize ≤ b.2) : MemheapAnswer m m' (some (memheapSize + b.1)) n where
  null hq := by cases hq
  block p hp := by
    cases hp
    obtain ⟨c, hc, hu, rfl⟩ := mem_blocks.mp hb
    have hin := h'.tiled.bounds hc
    unfold Cell.stop Memheap.tail at hin
    rw [hw.startAddr, hw.poolSize] at hin
    rw [MemheapInv.size_eq h' hc, Nat.add_sub_cancel_left, h'.isUsed hc, Memheap.tail]
    dsimp only at hn ⊢
    refine ⟨hu, ?_, ?_, ?_⟩
    · omega
    · omega
    · omega
  written := hw

/-- `rt_memheap_alloc`, where `n` bytes fit into the rounded size. -/
theorem alloc (h : MhWell m l F) (hn : n ≤ max (rtAlign k) memheapMiniAlloc) :
    ∃ q m', rtMemheapAlloc m k = some (q, m') ∧ MemheapAnswer m m' q n := by
  rcases h.alloc k with h1 | ⟨p, m', l', F', h1, ht⟩
  · exact ⟨none, m, h1, refused m n⟩
  · obtain ⟨b, bs, cs, -, h2, rfl, h3⟩ := ht.block
    have hb : b ∈ blocks true l' := h2 ▸ List.mem_append_right _ List.mem_cons_self
    refine ⟨_, m', h1, granted ht.well.toMhRep ?_ hb ((Nat.add_le_add_right hn _).trans h3)⟩
    exact h.toMhRep.poolOnly ht.well.toMhRep ht.frame

/-- `rt_memheap_realloc` of null. -/
theorem reallocNull (h : MhWell m l F) (h0 : n ≠ 0) (hn : n ≤ 2 ^ 32 - rtAlignSize) :
    ∃ q m', rtMemheapRealloc best m none n = some (q, m') ∧ MemheapAnswer m m' q n := by
  unfold rtMemheapRealloc
  rw [if_neg h0]
  exact alloc h (MemheapInv.round_twice hn rfl)

/-- `rt_memheap_realloc` of a used block. -/
theorem realloc (h : MhWell m l F) (hb : b ∈ blocks true l) (h0 : n ≠ 0)
    (hn : n ≤ 2 ^ 32 - rtAlignSize)
    (hnew : m.isUsed (m.item b.1).next = false → n ≤ 2 ^ 32 - (rtAlignSize + memheapMiniAlloc)) :
    ∃ q m', rtMemheapRealloc best m (some (memheapSize + b.1)) n = some (q, m') ∧
      MemheapAnswer m m' q n := by
  obtain ⟨q, m', l', F', h1, h2, hw, hcase⟩ := h.realloc best hb hnew
  refine ⟨q, m', h1, ?_⟩
  rcases hcase with ⟨hz, -⟩ | ⟨-, rfl, rfl, -⟩ | ⟨-, p, rfl, hr⟩
  · exact absurd hz h0
  · exact refused m' n
  · obtain ⟨b', bs, rfl, h3, -, h4, -⟩ := hr.block
    have hround := MemheapInv.round hn
    exact granted h2.toMhRep hw (h4.symm.subset List.mem_cons_self)
      ((Nat.add_le_add_right hround _).trans h3)

end MemheapAnswer

/-- **Sizes.** In every state that calls reach whose sums do not wrap, every such request returns: null,
with nothing changed, or a used block of the pool that has room for the bytes; only the pool and
`free_header` are written. `rt_memheap_realloc` with size 0 frees the block. -/
theorem memheap_sizes {best : Bool} {s : MemheapState}
    (hs : (memheapSystem best).Reach memheapNoWrap s) :
    (∀ size : BitVec 32, size.toNat ≤ 2 ^ 32 - rtAlignSize →
      ∃ q m', rtMemheapAlloc s.heap size.toNat = some (q, m') ∧
        MemheapAnswer s.heap m' q size.toNat) ∧
    ∀ (ptr : Option ℕ) (newsize : BitVec 32), ownsBlock s.live ptr = true →
      newsize.toNat ≤ 2 ^ 32 - rtAlignSize →
      (∀ p, ptr = some p → s.heap.isUsed (s.heap.item (p - memheapSize)).next = false →
        newsize.toNat ≤ 2 ^ 32 - (rtAlignSize + memheapMiniAlloc)) →
      ∃ q m', rtMemheapRealloc best s.heap ptr newsize.toNat = some (q, m') ∧
        (newsize = 0 → q = none ∧ rtMemheapFree best s.heap ptr = some m') ∧
        (newsize ≠ 0 → MemheapAnswer s.heap m' q newsize.toNat) := by
  have h : MemheapInv s := by
    refine hs.invariant (fun _ => MemheapInit.inv) fun s a s' hI hfit hst => ?_
    exact (hI.kept_by hfit hst).inv
  obtain ⟨hpool, l, F, hw, hl⟩ := h
  refine ⟨fun size hsize => MemheapAnswer.alloc hw (MemheapInv.round hsize), ?_⟩
  intro ptr newsize hown hsize hbehind
  have hzero : newsize.toNat = 0 ↔ newsize = 0 :=
    ⟨fun h => BitVec.eq_of_toNat_eq h, fun h => by rw [h]; rfl⟩
  by_cases h0 : newsize = 0
  · obtain ⟨m', h1, -⟩ := MemheapInv.freed best hpool hw hl hown
    refine ⟨none, m', ?_, fun _ => ⟨rfl, h1⟩, fun hne => absurd h0 hne⟩
    unfold rtMemheapRealloc
    rw [if_pos (hzero.mpr h0), h1, Option.map_some]
  · have h0' : newsize.toNat ≠ 0 := fun h => h0 (hzero.mp h)
    suffices h : ∃ q m', rtMemheapRealloc best s.heap ptr newsize.toNat = some (q, m') ∧
        MemheapAnswer s.heap m' q newsize.toNat by
      obtain ⟨q, m', h1, h2⟩ := h
      exact ⟨q, m', h1, fun hz => absurd hz h0, fun _ => h2⟩
    cases ptr with
    | none => exact MemheapAnswer.reallocNull hw h0' hsize
    | some p =>
      obtain ⟨k, hk⟩ := Option.isSome_iff_exists.mp hown
      obtain ⟨b, hb, rfl, -⟩ := MemheapInv.block hl hk
      have hnew := hbehind _ rfl
      rw [Nat.add_sub_cancel_left] at hnew
      exact MemheapAnswer.realloc hw hb h0' hsize hnew

/-- A block grows where it lies. -/
theorem memheap_sizes_grown : ∃ s, (memheapSystem true).Reach memheapNoWrap s ∧
    (rtMemheapRealloc true s.heap (some 4120) 100).any (fun r => r.1 = some 4120) = true ∧
    ∃ q m', rtMemheapRealloc true s.heap (some 4120) (100 : BitVec 32).toNat = some (q, m') ∧
      MemheapAnswer s.heap m' q (100 : BitVec 32).toNat := by
  obtain ⟨s, hs, hp⟩ := System.exists_reach (memheapSystem true) memheapNoWrap
    (fun s => ownsBlock s.live (some 4120) = true ∧
      (rtMemheapRealloc true s.heap (some 4120) 100).any (fun r => r.1 = some 4120) = true)
    memheap256_init [.alloc 20] (by decide +kernel)
  obtain ⟨hown, hgrow⟩ := of_decide_eq_true hp
  obtain ⟨q, m', h1, -, h2⟩ :=
    (memheap_sizes hs).2 (some 4120) 100 hown (by decide) fun _ _ _ => by decide
  exact ⟨s, hs, hgrow, q, m', h1, h2 (by decide)⟩

/-- What a request must not get. -/
def refutes (m : Memheap) (n : ℕ) (r : Option ℕ × Memheap) : Bool :=
  match r.1 with
  | none => r.2.availableSize ≠ m.availableSize
  | some p => ¬(n ≤ r.2.memitemSize (p - memheapSize) ∧
      p + r.2.memitemSize (p - memheapSize) ≤ m.tail)

theorem not_answered {m : Memheap} {n : ℕ} {r : Option (Option ℕ × Memheap)}
    (h : r.all (refutes m n) = true) : ¬∃ q m', r = some (q, m') ∧ MemheapAnswer m m' q n := by
  rintro ⟨q, m', rfl, ha⟩
  rw [Option.all_some] at h
  cases q with
  | none => exact of_decide_eq_true h (congrArg availableSize (ha.null rfl))
  | some p =>
    obtain ⟨-, h1, -, h2⟩ := ha.block p rfl
    exact of_decide_eq_true h ⟨h1, h2⟩

/-- A size of 0 frees the block. Of `2 ^ 32 - 1`, `RT_ALIGN` makes 0; and the block keeps its place for
`2 ^ 32 - 8` bytes, since `newsize + RT_MEMHEAP_MINIALLOC` is 8. -/
theorem memheap_sizes_wrap : ∃ s, (memheapSystem true).Reach (fun _ _ => true) s ∧
    ownsBlock s.live (some 4120) = true ∧
    (¬∃ q m', rtMemheapRealloc true s.heap (some 4120) 0 = some (q, m') ∧
      MemheapAnswer s.heap m' q 0) ∧
    (¬∃ q m', rtMemheapAlloc s.heap 0xFFFFFFFF = some (q, m') ∧
      MemheapAnswer s.heap m' q 0xFFFFFFFF) ∧
    ¬∃ q m', rtMemheapRealloc true s.heap (some 4120) 0xFFFFFFF8 = some (q, m') ∧
      MemheapAnswer s.heap m' q 0xFFFFFFF8 := by
  obtain ⟨s, hs, hp⟩ := System.exists_reach (memheapSystem true) (fun _ _ => true)
    (fun s => ownsBlock s.live (some 4120) = true ∧
      (rtMemheapRealloc true s.heap (some 4120) 0).all (refutes s.heap 0) = true ∧
      (rtMemheapAlloc s.heap 0xFFFFFFFF).all (refutes s.heap 0xFFFFFFFF) = true ∧
      (rtMemheapRealloc true s.heap (some 4120) 0xFFFFFFF8).all (refutes s.heap 0xFFFFFFF8) = true)
    memheap256_init [.alloc 20] (by decide +kernel)
  obtain ⟨hown, h1, h2, h3⟩ := of_decide_eq_true hp
  exact ⟨s, hs, hown, not_answered h1, not_answered h2, not_answered h3⟩

end RtThread
