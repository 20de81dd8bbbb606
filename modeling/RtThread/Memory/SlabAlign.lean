import RtThread.Memory.SlabHeap

/-!
# Alignment of slab blocks

A zone begins at a page, its first chunk at the next multiple of the chunk size when that is a power
of two, and after 40 bytes otherwise.

* `chunkOffset_two_pow`, `chunkOffset_min`: the offset of the first chunk;
* `SlabInv.block_aligned`: how the blocks lie;
* **`slab_alignment`**: what `rt_slab_alloc` returns, and what the callers have.
-/

namespace RtThread

section

variable {k : ℕ} {m : Slab} {g : SlabLists} {z p n j : ℕ} {hdr : SlabZone} {fl : List ℕ}
  {chunk : ℕ → Option ℕ} {zoneSize : ℕ}

theorem chunkOf_min (zi : ℕ) : minChunkSize ∣ chunkOf zi := by
  simp only [chunkOf, minChunkSize]
  split_ifs <;> omega

/-- Up to a page, the first chunk of a power of two lies at a multiple of it. -/
theorem chunkOffset_two_pow (hk : 2 ^ j ≤ rtMmPageSize) : 2 ^ j ∣ Slab.chunkOffset (2 ^ j) := by
  have hall : ∀ j < 13, 2 ^ j ∣ Slab.chunkOffset (2 ^ j) := by decide
  refine hall j ?_
  by_contra hj
  have hle := Nat.pow_le_pow_right (n := 2) (by decide) (Nat.le_of_not_lt hj)
  have hp : rtMmPageSize = 4096 := rfl
  omega

theorem chunkOffset_min {zi : ℕ} (h : zi < rtSlabNzones) :
    minChunkSize ∣ Slab.chunkOffset (chunkOf zi) := by
  have hpos := chunkOf_pos zi
  have hle := chunkOf_le h
  have hm : minChunkSize = 8 := rfl
  have hs : sizeofSlabZone = 36 := rfl
  rw [Slab.chunkOffset]
  split_ifs
  · obtain ⟨q, -, hq, -⟩ := alignTo_class sizeofSlabZone (a := chunkOf zi) (by omega) (by omega)
    rw [hq]
    exact Nat.dvd_mul_left_of_dvd (chunkOf_min zi) q
  · decide

/-- The chunks of a zone. -/
theorem ZoneOk.chunk_aligned (h : ZoneOk zoneSize z hdr chunk fl) (i : ℕ) :
    minChunkSize ∣ hdr.chunkAt i ∧
      (hdr.chunksize = 2 ^ j → 2 ^ j ≤ rtMmPageSize → 2 ^ j ∣ hdr.chunkAt i) := by
  rw [SlabZone.chunkAt, h.base]
  constructor
  · rw [h.size]
    have hpage : minChunkSize ∣ rtMmPageSize := by decide
    exact Nat.dvd_add (Nat.dvd_add (Nat.dvd_mul_left_of_dvd hpage z) (chunkOffset_min h.index))
      (Nat.dvd_mul_left_of_dvd (chunkOf_min _) i)
  · intro hj hle
    rw [hj]
    have hpage : 2 ^ j ∣ rtMmPageSize := by
      have hp : rtMmPageSize = 2 ^ 12 := rfl
      rw [hp] at hle ⊢
      exact Nat.pow_dvd_pow 2 ((Nat.pow_le_pow_iff_right (by decide)).mp hle)
    exact Nat.dvd_add (Nat.dvd_add (Nat.dvd_mul_left_of_dvd hpage z) (chunkOffset_two_pow hle))
      (Nat.dvd_mul_left _ i)

/-- **A block** lies at a multiple of 8, and of its size when that is a power of two, up to a page. -/
theorem SlabInv.block_aligned (h : SlabInv k m g) (hb : Block m g p n) : minChunkSize ∣ p ∧
    ∀ j, n = 2 ^ j → 2 ^ j ≤ rtMmPageSize → 2 ^ j ∣ p := by
  rcases hb with ⟨r, hr, rfl, rfl⟩ | ⟨z, hz, hp, rfl⟩
  · refine ⟨Nat.dvd_mul_left_of_dvd (by decide) _, fun j hj hle => ?_⟩
    have hpos := (h.large r hr).1
    have hone : 2 ^ j = rtMmPageSize := by
      refine Nat.le_antisymm hle ?_
      rw [← hj]
      exact Nat.le_mul_of_pos_left _ hpos
    rw [hone]
    exact Nat.dvd_mul_left _ _
  · obtain ⟨⟨i, -, rfl⟩, -⟩ := hp
    have hz := h.zoneOk hz
    exact ⟨(hz.chunk_aligned (j := 0) i).1, fun j => (hz.chunk_aligned i).2⟩

/-- A large block begins at a page. -/
theorem allocLarge_page {size : ℕ} {m' : Slab} (h : m.allocLarge size = some (some p, m')) :
    rtMmPageSize ∣ p := by
  simp only [Slab.allocLarge] at h
  split at h
  · cases h
  · cases h
  · cases h
    exact Nat.dvd_mul_left _ _

end

/-- What `rt_slab_alloc` can return, and the callers' blocks, which `rt_slab_realloc` may have returned,
are multiples of 8; of the chunk size, when that is a power of two and at most a page; of a page, when
no zone is used. -/
structure SlabAligned (s : SlabState) : Prop where
  chunk : ∀ (size : UInt32) (p : ℕ) (m' : Slab),
    s.heap.slabAlloc size.toNat = some (some p, m') → minChunkSize ∣ p
  zone : ∀ (size : UInt32) (p : ℕ) (m' : Slab),
    s.heap.slabAlloc size.toNat = some (some p, m') → size.toNat < s.heap.zoneLimit →
    ∀ j, (zoneindex size.toNat).2 = 2 ^ j → 2 ^ j ≤ rtMmPageSize → 2 ^ j ∣ p
  large : ∀ (size : UInt32) (p : ℕ) (m' : Slab),
    s.heap.slabAlloc size.toNat = some (some p, m') → s.heap.zoneLimit ≤ size.toNat →
    rtMmPageSize ∣ p
  live : ∀ p, s.live p ≠ none → minChunkSize ∣ p ∧
    ∀ j, s.heap.blockSize p = 2 ^ j → 2 ^ j ≤ rtMmPageSize → 2 ^ j ∣ p

/-- **Main result.** After every sequence of calls the blocks are aligned. -/
theorem slab_alignment {sizeofSlab : ℕ} {s : SlabState}
    (hs : (slabSystem sizeofSlab).Reach System.anyStep s) : SlabAligned s := by
  have h : s.Inv := hs.invariant (I := SlabState.Inv) (fun _ h0 => SlabState.Start.inv h0)
    fun _ _ _ hI _ hst => SlabState.Inv.step hI hst
  obtain ⟨g, hg, hsp, hl⟩ := h
  have halloc : ∀ (size : UInt32) (p : ℕ) (m' : Slab),
      s.heap.slabAlloc size.toNat = some (some p, m') → size.toNat ≠ 0 ∧ minChunkSize ∣ p ∧
        ∀ j, s.heap.given size.toNat = 2 ^ j → 2 ^ j ≤ rtMmPageSize → 2 ^ j ∣ p := by
    intro size p m' hr
    obtain ⟨-, h2⟩ | ⟨h1, q, m₁, g₁, h2, h3, -, -, h6⟩ := hg.alloc hsp size.toNat
    · rw [h2] at hr
      cases hr
    · rw [h2] at hr
      cases hr
      exact ⟨h1.1, h3.block_aligned ((h6 p _).mpr (.inr ⟨rfl, rfl⟩))⟩
  refine ⟨fun size p m' hr => (halloc size p m' hr).2.1, fun size p m' hr hlt j hj hle => ?_,
    fun size p m' hr hle => ?_, fun p hp => ?_⟩
  · refine (halloc size p m' hr).2.2 j ?_ hle
    rw [Slab.given, if_neg (Nat.not_le_of_lt hlt)]
    exact hj
  · rw [Slab.slabAlloc, if_neg (halloc size p m' hr).1, if_pos hle] at hr
    exact allocLarge_page hr
  · obtain ⟨n, hb⟩ := SlabState.Inv.owns hl (Option.isSome_iff_ne_none.mpr hp)
    rw [hg.blockSize_eq hb]
    exact hg.block_aligned hb

/-- A chunk of 4096 bytes, and a large block. -/
theorem slab_alignment_page : ∃ s : SlabState,
    (s.live 0x4000 = some 4000 ∧ s.live 0xb000 = some 20000) ∧ SlabAligned s := by
  obtain ⟨s, hs, hp⟩ := (slabSystem 364).exists_reach System.anyStep
    (fun s => decide (s.live 0x4000 = some 4000 ∧ s.live 0xb000 = some 20000)) slab63_start
    [.alloc 4000, .alloc 20000] (by decide)
  exact ⟨s, of_decide_eq_true hp, slab_alignment hs⟩

/-- A chunk of 8192 bytes for a request of 8000 is at `0x5000`, and one of 144 bytes for a request of
130, in a class with steps of 16, at `0x3028`. -/
theorem slab_misaligned : (slabSystem 364).Reach System.anyStep slab63 ∧
    (slab63.heap.slabAlloc 8000).map Prod.fst = some (some 0x5000) ∧
    (zoneindex 8000).2 = 2 ^ 13 ∧ ¬ 2 ^ 13 ∣ 0x5000 ∧
    (slab63.heap.slabAlloc 130).map Prod.fst = some (some 0x3028) ∧
    (zoneindex 130).2 = 144 ∧ ¬ 16 ∣ 0x3028 :=
  ⟨.init slab63_start, by decide, by decide, by decide, by decide, by decide, by decide⟩

end RtThread
