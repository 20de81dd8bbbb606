import RtThread.Memory.SlabHeap

/-!
# Sizes of allocations

`rt_malloc`, `rt_realloc`, `rt_calloc` and `rt_malloc_align` of `src/kservice.c`, on the slab heap.

* `HeapCall`: the calls; `HeapCall.run` what they return;
* `HeapCall.Fits`: the bytes asked for are inside the block of the address that is returned;
* `HeapCall.NoWrap`: no product or sum of the call leaves 32 bits;
* **`heapCall_fits_iff`**: the former holds if the latter does, or nothing is returned.
-/

namespace RtThread

/-- `rt_malloc`. -/
def rtMalloc (m : Slab) (size : ℕ) : Option (Option ℕ × Slab) := m.slabAlloc size

/-- `rt_realloc`. -/
def rtRealloc (m : Slab) (ptr : Option ℕ) (newsize : ℕ) : Option (Option ℕ × Slab) :=
  m.slabRealloc ptr newsize

/-- `rt_calloc`; the bytes set to zero are the caller's. -/
def rtCalloc (m : Slab) (count size : ℕ) : Option (Option ℕ × Slab) :=
  rtMalloc m (count * size % 2 ^ 32)

/-- The size that `rt_malloc_align` passes on. -/
def alignSize (size align : ℕ) : ℕ := (alignTo size 4 + alignTo align 4) % 2 ^ 32

/-- The address that it makes of a block's, for a power of two. -/
def alignPtr (ptr align : ℕ) : ℕ :=
  if ptr % align = 0 then (ptr + align) % 2 ^ 32 else alignTo ptr align

/-- `rt_malloc_align`, for a power of two: the address, and the block's, which is stored in the word
before it. -/
def rtMallocAlign (m : Slab) (size align : ℕ) : Option (Option (ℕ × ℕ) × Slab) :=
  (rtMalloc m (alignSize size align)).map fun r =>
    (r.1.map fun ptr => (alignPtr ptr (alignTo align 4), ptr), r.2)

/-- A call that allocates. -/
inductive HeapCall where
  | malloc (size : UInt32)
  | realloc (ptr : Option ℕ) (newsize : UInt32)
  | calloc (count size : UInt32)
  | mallocAlign (size align : UInt32)
  deriving DecidableEq, Repr

namespace HeapCall

/-- What the call returns: an address, and the block it is in. -/
def run (m : Slab) : HeapCall → Option (Option (ℕ × ℕ) × Slab)
  | malloc size => (rtMalloc m size.toNat).map fun r => (r.1.map fun p => (p, p), r.2)
  | realloc ptr newsize =>
    (rtRealloc m ptr newsize.toNat).map fun r => (r.1.map fun p => (p, p), r.2)
  | calloc count size =>
    (rtCalloc m count.toNat size.toNat).map fun r => (r.1.map fun p => (p, p), r.2)
  | mallocAlign size align => rtMallocAlign m size.toNat align.toNat

/-- The bytes asked for. -/
def requested : HeapCall → ℕ
  | malloc size => size.toNat
  | realloc _ newsize => newsize.toNat
  | calloc count size => count.toNat * size.toNat
  | mallocAlign size _ => size.toNat

/-- **The bytes asked for are in the block of the address.** -/
def Fits (m : Slab) (c : HeapCall) : Prop :=
  ∀ p b m', c.run m = some (some (p, b), m') → b ≤ p ∧ p + c.requested ≤ b + m'.blockSize b

/-- What a caller keeps to: a block of its own, a power of two. -/
def Allowed (s : SlabState) : HeapCall → Prop
  | malloc _ => True
  | realloc ptr _ => ownsBlock s.live ptr = true
  | calloc _ _ => True
  | mallocAlign _ align => ∃ k, align.toNat = 2 ^ k

/-- No product and no sum wraps. -/
def NoWrap : HeapCall → Prop
  | malloc _ => True
  | realloc _ _ => True
  | calloc count size => count.toNat * size.toNat < 2 ^ 32
  | mallocAlign size align =>
    (size.toNat + 3) / 4 * 4 + (align.toNat + 3) / 4 * 4 < 2 ^ 32

instance : (c : HeapCall) → Decidable c.NoWrap
  | malloc _ => .isTrue trivial
  | realloc _ _ => .isTrue trivial
  | calloc _ _ => Nat.decLt _ _
  | mallocAlign _ _ => Nat.decLt _ _

/-- The size that reaches the heap. -/
def passed : HeapCall → ℕ
  | malloc size => size.toNat
  | realloc _ newsize => newsize.toNat
  | calloc count size => count.toNat * size.toNat % 2 ^ 32
  | mallocAlign size align => alignSize size.toNat align.toNat

end HeapCall

/-! ## The block of a successful call -/

section

variable {m : Slab} {g : SlabLists} {size p q n b : ℕ}

/-- A block, and what `rt_malloc` has made of the size. -/
theorem rtMalloc_spec (h : SlabInv 2 m g) (hsp : g.spare = []) (hs : size < 2 ^ 32) :
    (¬ m.Available size ∧ rtMalloc m size = some (none, m)) ∨
      m.Available size ∧ ∃ p m', rtMalloc m size = some (some p, m') ∧
        size ≤ m'.blockSize p ∧ m'.blockSize p < size + 4096 ∧ p + m'.blockSize p < 2 ^ 32 := by
  obtain h1 | ⟨h1, p, m', g', h2, h3, -, -, h6⟩ := h.alloc hsp size
  · exact .inl h1
  have hb : Block m' g' p (m.given size) := (h6 p _).mpr (.inr ⟨rfl, rfl⟩)
  obtain ⟨h7, h8⟩ := h.given_bounds h1 hs
  have h9 := h3.block_range hb
  have hlim : m'.heapEnd < pageCount := h3.pages.limit
  refine .inr ⟨h1, p, m', h2, ?_⟩
  rw [h3.blockSize_eq hb]
  have hp : pageCount = 1048576 := rfl
  have he : m'.heapEnd * rtMmPageSize = m'.heapEnd * 4096 := rfl
  omega

/-- The address of `rt_malloc_align` is in the first `align` bytes of the block. -/
theorem alignPtr_bounds {align : ℕ} (ha : 0 < align) (h : p + align < 2 ^ 32) :
    p ≤ alignPtr p align ∧ alignPtr p align ≤ p + align := by
  rw [alignPtr]
  split_ifs
  · rw [Nat.mod_eq_of_lt h]
    omega
  · obtain ⟨q, -, h2, h3, h4⟩ := alignTo_class p ha (by omega)
    omega

/-- The alignment that a power of two is rounded to. -/
theorem alignTo_four {align k : ℕ} (h : align = 2 ^ k) (hlt : align < 2 ^ 32) :
    alignTo align 4 = (align + 3) / 4 * 4 ∧ 0 < alignTo align 4 ∧ alignTo align 4 ≤ 2 ^ 31 := by
  have hk : k < 32 := (Nat.pow_lt_pow_iff_right (by decide)).mp (h ▸ hlt)
  have hle : align ≤ 2 ^ 31 := h ▸ Nat.pow_le_pow_right (by decide) (by omega)
  have hpos : 0 < align := h ▸ Nat.two_pow_pos k
  have he : alignTo align 4 = (align + 3) / 4 * 4 := alignTo_eq (by omega)
  omega

end

namespace HeapCall

variable {s : SlabState} {c : HeapCall}

theorem fits_malloc {g : SlabLists} (h : SlabInv 2 s.heap g) (hsp : g.spare = []) (size : UInt32) :
    Fits s.heap (malloc size) := by
  intro p b m' hr
  simp only [run] at hr
  obtain ⟨-, h1⟩ | ⟨-, q, m₁, h1, h2, -, -⟩ := rtMalloc_spec h hsp size.toNat_lt <;> rw [h1] at hr <;>
    cases hr
  exact ⟨Nat.le_refl _, Nat.add_le_add_left h2 _⟩

theorem fits_realloc (h : s.Inv) (ptr : Option ℕ) (newsize : UInt32)
    (hown : ownsBlock s.live ptr = true) : Fits s.heap (realloc ptr newsize) := by
  intro p b m' hr
  obtain ⟨g, hg, hsp, hl⟩ := h
  cases ptr with
  | none => exact fits_malloc hg hsp newsize p b m' hr
  | some x =>
    simp only [run, rtRealloc] at hr
    obtain ⟨n, hb⟩ := SlabState.Inv.owns hl hown
    by_cases h0 : newsize.toNat = 0
    · simp only [Slab.slabRealloc] at hr
      rw [if_pos h0] at hr
      obtain ⟨m₁, -, h1, -⟩ := hg.free hb
      rw [h1] at hr
      cases hr
    · obtain h1 | ⟨q, m₁, g₁, n', h1, h2, -, h4, h5⟩ := hg.realloc hsp hb h0 newsize.toNat_lt <;>
        rw [h1] at hr <;> cases hr
      rw [h2.blockSize_eq ((h5 p n').mpr (.inr ⟨rfl, rfl⟩))]
      exact ⟨Nat.le_refl _, Nat.add_le_add_left h4 _⟩

theorem fits_calloc {g : SlabLists} (h : SlabInv 2 s.heap g) (hsp : g.spare = [])
    (count size : UInt32) : Fits s.heap (calloc count size) ↔
      (calloc count size).NoWrap ∨ ¬ s.heap.Available (calloc count size).passed := by
  simp only [NoWrap, passed]
  obtain ⟨h1, h2⟩ | ⟨h1, q, m₁, h2, h3, h4, h5⟩ := rtMalloc_spec h hsp
    (Nat.mod_lt (count.toNat * size.toNat) (Nat.two_pow_pos 32))
  · refine ⟨fun _ => .inr h1, fun _ p b m' hr => ?_⟩
    simp only [run, rtCalloc] at hr
    rw [h2] at hr
    cases hr
  · have hrun : (calloc count size).run s.heap = some (some (q, q), m₁) := by
      simp only [run, rtCalloc]
      rw [h2]
      rfl
    constructor
    · intro hf
      have h6 := (hf q q m₁ hrun).2
      simp only [requested] at h6
      exact .inl (by omega)
    · rintro (hw | hw) p b m' hr
      · rw [hrun] at hr
        cases hr
        rw [Nat.mod_eq_of_lt hw] at h3
        exact ⟨Nat.le_refl _, Nat.add_le_add_left h3 _⟩
      · exact absurd h1 hw

theorem fits_mallocAlign {g : SlabLists} (h : SlabInv 2 s.heap g) (hsp : g.spare = [])
    (size align : UInt32) {k : ℕ} (hk : align.toNat = 2 ^ k) : Fits s.heap (mallocAlign size align) ↔
      (mallocAlign size align).NoWrap ∨ ¬ s.heap.Available (mallocAlign size align).passed := by
  simp only [NoWrap, passed]
  have hsize := size.toNat_lt
  obtain ⟨ha1, ha2, ha3⟩ := alignTo_four hk align.toNat_lt
  have hsz : alignTo size.toNat 4 = (size.toNat + 3) % 2 ^ 32 / 4 * 4 := rfl
  have hpass : alignSize size.toNat align.toNat =
      (alignTo size.toNat 4 + alignTo align.toNat 4) % 2 ^ 32 := rfl
  obtain ⟨h1, h2⟩ | ⟨h1, q, m₁, h2, h3, h4, h5⟩ := rtMalloc_spec h hsp
    (Nat.mod_lt (alignTo size.toNat 4 + alignTo align.toNat 4) (Nat.two_pow_pos 32))
  · refine ⟨fun _ => .inr h1, fun _ p b m' hr => ?_⟩
    simp only [run, rtMallocAlign] at hr
    rw [hpass, h2] at hr
    cases hr
  · have hrun : (mallocAlign size align).run s.heap =
        some (some (alignPtr q (alignTo align.toNat 4), q), m₁) := by
      simp only [run, rtMallocAlign]
      rw [hpass, h2]
      rfl
    constructor
    · intro hf
      have h6 := hf _ q m₁ hrun
      simp only [requested] at h6
      -- the block of a sum that has wrapped is too small
      refine .inl ?_
      rw [← ha1]
      omega
    · rintro (hw | hw) p b m' hr
      · rw [hrun] at hr
        cases hr
        rw [← ha1] at hw
        have hb := alignPtr_bounds (p := q) ha2 (by omega)
        simp only [requested]
        omega
      · exact absurd h1 hw

end HeapCall

/-- **Main result.** In every reachable state a call returns an address with room for all bytes asked
for exactly if its size arithmetic does not wrap, or the heap has nothing for the size it comes to. -/
theorem heapCall_fits_iff {sizeofSlab : ℕ} {s : SlabState} {c : HeapCall}
    (hs : (slabSystem sizeofSlab).Reach System.anyStep s) (hc : c.Allowed s) :
    c.Fits s.heap ↔ c.NoWrap ∨ ¬ s.heap.Available c.passed := by
  have h : s.Inv := hs.invariant (I := SlabState.Inv) (fun _ h0 => SlabState.Start.inv h0)
    fun _ _ _ hI _ hst => SlabState.Inv.step hI hst
  obtain ⟨g, hg, hsp, -⟩ := id h
  cases c with
  | malloc size => exact ⟨fun _ => .inl trivial, fun _ => HeapCall.fits_malloc hg hsp size⟩
  | realloc ptr newsize =>
    exact ⟨fun _ => .inl trivial, fun _ => HeapCall.fits_realloc h ptr newsize hc⟩
  | calloc count size => exact HeapCall.fits_calloc hg hsp count size
  | mallocAlign size align =>
    obtain ⟨k, hk⟩ := hc
    exact HeapCall.fits_mallocAlign hg hsp size align hk

/-- 100 bytes at a multiple of 16 fit in the block of 116. -/
theorem heapCall_fits_aligned : (HeapCall.mallocAlign 100 16).Fits slab63.heap ∧
    ((HeapCall.mallocAlign 100 16).run slab63.heap).any (fun r => r.1 = some (0x3030, 0x3028)) :=
  ⟨(heapCall_fits_iff (c := .mallocAlign 100 16) (.init slab63_start) ⟨4, by decide⟩).mpr
    (.inl (by decide)), by decide⟩

/-- The product of `0x10001` and `0x10000` wraps to `0x10000`, and `0xffffffff` is rounded to none. -/
theorem heapCall_wraps : ∃ s, (slabSystem 364).Reach System.anyStep s ∧
    ¬ (HeapCall.calloc 0x10001 0x10000).Fits s.heap ∧
    (HeapCall.mallocAlign 0xffffffff 8).Allowed s ∧
    ¬ (HeapCall.mallocAlign 0xffffffff 8).Fits s.heap := by
  refine ⟨slab63, .init slab63_start, fun hf => ?_, ⟨3, by decide⟩, fun hf => ?_⟩
  · obtain ⟨⟨x, m⟩, h1, h2⟩ := (Option.any_eq_true _ _).mp
      (show ((HeapCall.calloc 0x10001 0x10000).run slab63.heap).any (fun r =>
        decide (r.1 = some (0x3000, 0x3000) ∧ r.2.blockSize 0x3000 = 0x10000)) = true by
        decide)
    obtain ⟨rfl, h4⟩ := of_decide_eq_true h2
    have h5 := (hf _ _ m h1).2
    rw [h4] at h5
    exact absurd h5 (by decide)
  · obtain ⟨⟨x, m⟩, h1, h2⟩ := (Option.any_eq_true _ _).mp
      (show ((HeapCall.mallocAlign 0xffffffff 8).run slab63.heap).any (fun r =>
        decide (r.1 = some (0x3030, 0x3028) ∧ r.2.blockSize 0x3028 = 8)) = true by
        decide)
    obtain ⟨rfl, h4⟩ := of_decide_eq_true h2
    have h5 := (hf _ _ m h1).2
    rw [h4] at h5
    exact absurd h5 (by decide)

end RtThread
