import RtThread.Lib.Bytes
import RtThread.Memory.SmallMem

/-!
# The sizes that small memory grants

`rt_smem_alloc` and `rt_smem_realloc` round the size up in 32 bits before they look at it. Every
size is allowed here, in heaps that calls with any sizes have led to; a block is live when its item
is marked used.

* `SmallMem.isLive`, `SmallMem.hasRoom`, read off the links of the heap; `smemCalls`: calls with any
  sizes, for blocks that are live;
* `smemReallocData`: `rt_smem_realloc` with what the callers have stored;
* `smemReallocData_bytes`, **`smem_stored`**: the bytes of the old block are in the new one, the
  others are as they were;
* `SmemRep.find_fits`: the search finds an item when there is one;
* **`smem_sizes`**: the sizes for which the two functions return null or a block that is large enough.
-/

namespace RtThread

namespace SmallMem

variable (m : SmallMem)

/-- The items from `mem` on, as `next` links them. -/
def itemsFrom : ℕ → ℕ → List ℕ
  | 0, _ => []
  | fuel + 1, mem => if mem < m.heapEnd then mem :: itemsFrom fuel (m.item mem).next else []

/-- The items of the heap. -/
def items : List ℕ := m.itemsFrom (m.memSizeAligned + 2) 0

/-- `p` is the block of an item in use. -/
def isLive (p : ℕ) : Bool :=
  m.items.any fun mem => m.isUsed mem && p == m.heapPtr + sizeofStructMem + mem

/-- A free item has `n` bytes for a block. -/
def hasRoom (n : ℕ) : Bool :=
  m.items.any fun mem => !m.isUsed mem && n ≤ (m.item mem).next - mem - sizeofStructMem

end SmallMem

/-- One call. A block that is passed is a live one. -/
def smemCall (m : SmallMem) : SmemLabel → Option SmallMem
  | .alloc size => (rtSmemAlloc m size.toNat).map Prod.snd
  | .realloc rmem newsize =>
    if rmem.all m.isLive then (rtSmemRealloc m rmem newsize.toNat).map Prod.snd else none
  | .free rmem => if rmem.all m.isLive then rtSmemFree m rmem else none

/-- The small memory under calls with any sizes. -/
def smemCalls : System SmallMem SmemLabel where
  init m := ∃ sizeofSmallMem item beginAddr size, beginAddr + size < 2 ^ 32 ∧
    rtSmemInit sizeofSmallMem item beginAddr size = some m
  step := smemCall

/-- `rt_smem_realloc`, with the bytes that are stored in the heap: `rt_memcpy` runs when a new block
has been found. -/
def smemReallocData (m : SmallMem) (data : ℕ → UInt8) (rmem : Option ℕ) (newsize : ℕ) :
    Option (Option ℕ × SmallMem × (ℕ → UInt8)) :=
  (rtSmemRealloc m rmem newsize).map fun r =>
    (r.1, r.2, match rmem, r.1 with
      | some p, some q =>
        if q = p then data
        else copyBytes data q p
          (if m.payload p < rtAlign newsize then m.payload p else rtAlign newsize)
      | _, _ => data)

/-- **The bytes of a block** are those of the new one, as far as both reach, and no byte outside of
the new one changes. -/
theorem smemReallocData_bytes {m m' : SmallMem} {data data' : ℕ → UInt8} {p q newsize : ℕ}
    (h : smemReallocData m data (some p) newsize = some (some q, m', data')) :
    (∀ i < min (m.payload p) (rtAlign newsize), data' (q + i) = data (p + i)) ∧
    ∀ a, a < q ∨ q + min (m.payload p) (rtAlign newsize) ≤ a → data' a = data a := by
  unfold smemReallocData at h
  obtain ⟨r, -, h⟩ := Option.map_eq_some_iff.mp h
  obtain ⟨hr, h⟩ := Prod.mk.inj h
  obtain ⟨-, rfl⟩ := Prod.mk.inj h
  rw [hr]
  dsimp only
  by_cases hq : q = p
  · -- the item has been kept or cut, and nothing is copied
    rw [if_pos hq, hq]
    exact ⟨fun _ _ => rfl, fun _ _ => rfl⟩
  · have hmin : (if m.payload p < rtAlign newsize then m.payload p else rtAlign newsize) =
        min (m.payload p) (rtAlign newsize) := by
      split <;> omega
    rw [if_neg hq, hmin]
    exact ⟨fun i hi => copyBytes_in hi, fun a ha => copyBytes_out ha⟩

/-- `rt_smem_alloc` returns null, or a live block of `size` bytes or more. -/
def SmemAllocOk (m : SmallMem) (size : BitVec 32) : Prop :=
  ∃ p m', rtSmemAlloc m size.toNat = some (p, m') ∧
    ∀ q, p = some q → m'.isLive q = true ∧ size.toNat ≤ m'.payload q

/-- `rt_smem_realloc` returns a live block of `newsize` bytes or more, or null with the old block live
and as it was, unless the new size is zero. -/
def SmemReallocOk (m : SmallMem) (data : ℕ → UInt8) (rmem : Option ℕ) (newsize : BitVec 32) : Prop :=
  ∃ p m' data', smemReallocData m data rmem newsize.toNat = some (p, m', data') ∧
    (∀ q, p = some q → m'.isLive q = true ∧ newsize.toNat ≤ m'.payload q) ∧
    (p = none → newsize ≠ 0 → ∀ q, rmem = some q →
      m'.isLive q = true ∧ m' = m ∧ data' = data)

/-! ## The items and the search -/

namespace SmemRep

variable {m : SmallMem} {l r : List Cell} {c : Cell} {p a : ℕ}

theorem itemsFrom (h : SmemRep m (l ++ r)) (ht : Tiled sizeofStructMem p a r m.heapEnd) {fuel : ℕ}
    (hfuel : r.length < fuel) : m.itemsFrom fuel a = r.map Cell.start := by
  induction r generalizing l p a fuel with
  | nil =>
    obtain ⟨fuel, rfl⟩ : ∃ n, fuel = n + 1 := ⟨fuel - 1, by simp at hfuel; omega⟩
    have hstop : a = m.heapEnd := ht
    rw [SmallMem.itemsFrom, if_neg (Nat.not_lt.mpr (Nat.le_of_eq hstop.symm)), List.map_nil]
  | cons c r ih =>
    obtain ⟨fuel, rfl⟩ : ∃ n, fuel = n + 1 := ⟨fuel - 1, by simp at hfuel; omega⟩
    obtain ⟨hstart, -, -, hrest⟩ := ht
    have hc : c ∈ l ++ c :: r := List.mem_append_right _ List.mem_cons_self
    have hlt : c.start + 16 ≤ m.heapEnd := h.start_lt hc
    subst hstart
    rw [SmallMem.itemsFrom, if_pos (by omega), h.next hc, List.map_cons]
    congr 1
    exact ih (l := l ++ [c]) (by rwa [List.append_assoc, List.singleton_append]) hrest
      (Nat.lt_of_succ_lt_succ hfuel)

/-- The links lead through the cells. -/
theorem items (h : SmemRep m l) : m.items = l.map Cell.start :=
  SmemRep.itemsFrom (l := []) h h.tiled h.length_lt

theorem isLive_iff (h : SmemRep m l) : m.isLive p = true ↔
    ∃ b ∈ blocks true l, p = m.heapPtr + sizeofStructMem + b.1 := by
  rw [SmallMem.isLive, h.items, List.any_map, List.any_eq_true]
  constructor
  · rintro ⟨c, hc, hp⟩
    rw [Function.comp_apply, Bool.and_eq_true, beq_iff_eq, h.isUsed hc] at hp
    exact ⟨_, mem_blocks.mpr ⟨c, hc, hp.1, rfl⟩, hp.2⟩
  · rintro ⟨b, hb, rfl⟩
    obtain ⟨c, hc, hu, rfl⟩ := mem_blocks.mp hb
    refine ⟨c, hc, ?_⟩
    rw [Function.comp_apply, Bool.and_eq_true, beq_iff_eq, h.isUsed hc]
    exact ⟨hu, rfl⟩

theorem hasRoom_iff (h : SmemRep m l) {n : ℕ} : m.hasRoom n = true ↔
    ∃ c ∈ l, c.used = false ∧ n + sizeofStructMem ≤ c.size := by
  have hfits : ∀ c ∈ l, (n ≤ (m.item c.start).next - c.start - sizeofStructMem ↔
      n + sizeofStructMem ≤ c.size) := fun c hc => by
    have h16 : 16 ≤ c.size := (h.tiled.bounds hc).2.2
    rw [h.next hc]
    change n ≤ c.start + c.size - c.start - 16 ↔ n + 16 ≤ c.size
    omega
  rw [SmallMem.hasRoom, h.items, List.any_map, List.any_eq_true]
  refine exists_congr fun c => ?_
  rw [Function.comp_apply, Bool.and_eq_true, Bool.not_eq_true', decide_eq_true_eq]
  refine and_congr_right fun hc => ?_
  rw [h.isUsed hc, hfits c hc]

/-- **The search finds an item**, when there is one that is free and large enough. -/
theorem find_fits (h : SmemRep m (l ++ r)) (ht : Tiled sizeofStructMem p a r m.heapEnd)
    {size fuel : ℕ} (hfuel : r.length < fuel) (hc : c ∈ r) (hu : c.used = false)
    (hfit : size + sizeofStructMem ≤ c.size) : ∃ d, smemFind m size fuel a = some (some d) := by
  induction r generalizing l p a fuel with
  | nil => cases hc
  | cons d r ih =>
    obtain ⟨fuel, rfl⟩ : ∃ n, fuel = n + 1 := ⟨fuel - 1, by simp at hfuel; omega⟩
    obtain ⟨hstart, -, hd16, hrest⟩ := ht
    have hd : d ∈ l ++ d :: r := List.mem_append_right _ List.mem_cons_self
    have hstop := (h.tiled.bounds (List.mem_append_right l hc)).2.1
    have hend : m.heapEnd = m.memSizeAligned + 16 := h.stop
    have hfit' : size + 16 ≤ c.size := hfit
    unfold Cell.stop at hstop
    subst hstart
    have hle : d.start ≤ m.memSizeAligned - size := by
      rcases List.mem_cons.mp hc with rfl | hc
      · omega
      · have hbehind := (hrest.bounds hc).1
        unfold Cell.stop at hbehind
        omega
    rw [smemFind, if_pos hle]
    by_cases hfits : m.isUsed d.start = false ∧
        (m.item d.start).next - (d.start + sizeofStructMem) ≥ size
    · exact ⟨_, if_pos hfits⟩
    · rw [if_neg hfits, h.next hd]
      rcases List.mem_cons.mp hc with rfl | hc
      · refine absurd ⟨h.isUsed hd ▸ hu, ?_⟩ hfits
        rw [h.next hd]
        change c.start + c.size - (c.start + 16) ≥ size
        omega
      · exact ih (l := l ++ [d]) (by rwa [List.append_assoc, List.singleton_append]) hrest
          (Nat.lt_of_succ_lt_succ hfuel) hc

end SmemRep

namespace SmemWell

variable {m m' : SmallMem} {l l' : List Cell} {b : ℕ × ℕ} {size : ℕ}

/-- `rt_smem_alloc` does not return null when a free item has the room. -/
theorem alloc_room (h : SmemWell m l) (h0 : size ≠ 0)
    (hroom : m.hasRoom (if rtAlign size < smemMinSizeAligned then smemMinSizeAligned
      else rtAlign size) = true) : rtSmemAlloc m size ≠ some (none, m) := by
  unfold rtSmemAlloc
  rw [if_neg h0]
  dsimp only
  obtain ⟨n, hn⟩ : ∃ n, n = if rtAlign size < smemMinSizeAligned then smemMinSizeAligned
    else rtAlign size := ⟨_, rfl⟩
  rw [← hn] at hroom ⊢
  obtain ⟨c, hc, hu, hfit⟩ := h.toSmemRep.hasRoom_iff.mp hroom
  have hstop := (h.tiled.bounds hc).2.1
  have hend : m.heapEnd = m.memSizeAligned + 16 := h.stop
  have hfit' : n + 16 ≤ c.size := hfit
  unfold Cell.stop at hstop
  rw [if_neg (by omega)]
  obtain ⟨p, l₁, l₂, rfl, ht, hfuel, hfree⟩ := h.search
  obtain ⟨d, hd⟩ := h.toSmemRep.find_fits ht hfuel (hfree c hc hu) hu hfit
  rw [hd, Option.bind_some]
  intro he
  obtain ⟨r, -, hr⟩ := Option.map_eq_some_iff.mp he
  cases hr

/-- Without room for the smallest block it returns null. -/
theorem alloc_noRoom (h : SmemWell m l) (size : ℕ) (hroom : m.hasRoom smemMinSizeAligned = false) :
    rtSmemAlloc m size = some (none, m) := by
  unfold rtSmemAlloc
  by_cases h0 : size = 0
  · exact if_pos h0
  rw [if_neg h0]
  dsimp only
  obtain ⟨n, hn⟩ : ∃ n, n = if rtAlign size < smemMinSizeAligned then smemMinSizeAligned
    else rtAlign size := ⟨_, rfl⟩
  have hle : 16 ≤ n := by
    by_cases hmin : rtAlign size < 16
    · exact Nat.le_of_eq (hn.trans (if_pos hmin)).symm
    · rw [hn, if_neg hmin]
      omega
  rw [← hn]
  by_cases hbig : n > m.memSizeAligned
  · exact if_pos hbig
  rw [if_neg hbig]
  obtain ⟨p, l₁, l₂, rfl, ht, hfuel, -⟩ := h.search
  rcases h.toSmemRep.find ht hfuel (by omega : 0 < n) with h1 | ⟨r₁, c, r₂, rfl, hc, hfit, -⟩
  · rw [h1]
    rfl
  · have hroom' : m.hasRoom smemMinSizeAligned = true := h.toSmemRep.hasRoom_iff.mpr
      ⟨c, by simp, hc, Nat.le_trans (Nat.add_le_add_right hle _) hfit⟩
    rw [hroom] at hroom'
    cases hroom'

/-- `rt_smem_realloc` of no block allocates one. -/
theorem reallocNone (h : SmemWell m l) (newsize : ℕ) : ∃ p m' l',
    rtSmemRealloc m none newsize = some (p, m') ∧ SmemWell m' l' ∧ SmallMem.Same m m' ∧
      ∀ q, p = some q → rtAlign newsize ≠ 0 ∧ ∃ b ∈ blocks true l',
        q = m.heapPtr + sizeofStructMem + b.1 ∧ rtAlign newsize + sizeofStructMem ≤ b.2 := by
  unfold rtSmemRealloc
  dsimp only
  by_cases hbig : rtAlign newsize > m.memSizeAligned
  · rw [if_pos hbig]
    exact ⟨none, m, l, rfl, h, .refl m, fun q hq => by cases hq⟩
  rw [if_neg hbig]
  by_cases h0 : rtAlign newsize = 0
  · rw [if_pos h0]
    exact ⟨none, m, l, rfl, h, .refl m, fun q hq => by cases hq⟩
  rw [if_neg h0]
  rcases h.alloc (rtAlign newsize) with h1 | ⟨p, m', l', -, h1, hw, hs, b, bs, cs, -, h5, h6, h7⟩
  · exact ⟨none, m, l, h1, h, .refl m, fun q hq => by cases hq⟩
  · refine ⟨some p, m', l', h1, hw, hs, fun q hq => ?_⟩
    cases hq
    refine ⟨h0, b, h5 ▸ List.mem_append_right _ List.mem_cons_self, ?_, rtAlign_rtAlign newsize ▸ h7⟩
    rw [h6, Nat.add_right_comm]

/-- A block that has been returned is live, of `n` bytes or more. -/
theorem granted (h : SmemWell m' l') (hs : SmallMem.Same m m') (hb : b ∈ blocks true l') {n : ℕ}
    (hn : n + sizeofStructMem ≤ b.2) : m'.isLive (m.heapPtr + sizeofStructMem + b.1) = true ∧
      n ≤ m'.payload (m.heapPtr + sizeofStructMem + b.1) := by
  rw [← hs.heapPtr]
  refine ⟨h.toSmemRep.isLive_iff.mpr ⟨b, hb, rfl⟩, ?_⟩
  obtain ⟨c, hc, -, rfl⟩ := mem_blocks.mp hb
  have h1 := SmemInv.payload_eq h hc
  dsimp only at hn ⊢
  omega

end SmemWell

/-! ## Every heap that calls lead to -/

/-- The invariant: the heap is sound, and smaller than the address space. -/
structure SmemSound (m : SmallMem) : Prop where
  well : ∃ l, SmemWell m l
  size : m.memSizeAligned + 2 * sizeofStructMem < 2 ^ 32

namespace SmemSound

variable {m m' : SmallMem}

theorem init (h : smemCalls.init m) : SmemSound m := by
  obtain ⟨sizeofSmallMem, item, beginAddr, size, hlt, hm⟩ := h
  refine ⟨⟨_, rtSmemInit_well hm⟩, ?_⟩
  unfold rtSmemInit at hm
  dsimp only at hm
  split_ifs at hm with hroom
  cases hm
  have hdown : rtAlignDown (beginAddr + size) ≤ beginAddr + size := Nat.sub_le _ _
  have hroom' := hroom.1
  change rtAlignDown (beginAddr + size) - rtAlign (rtAlign beginAddr + sizeofSmallMem) - 2 * 16 +
    2 * 16 < 2 ^ 32
  change rtAlignDown (beginAddr + size) > 2 * 16 at hroom'
  omega

theorem same (h : SmemSound m) {l : List Cell} (hw : SmemWell m' l) (hs : SmallMem.Same m m') :
    SmemSound m' := ⟨⟨l, hw⟩, hs.memSizeAligned ▸ h.size⟩

/-- **Every call keeps the heap sound.** -/
theorem step (h : SmemSound m) {a : SmemLabel} (hst : smemCalls.step m a = some m') :
    SmemSound m' := by
  obtain ⟨l, hw⟩ := h.well
  change smemCall m a = some m' at hst
  cases a with
  | alloc size =>
    obtain ⟨⟨p, m₁⟩, h1, rfl⟩ := Option.map_eq_some_iff.mp hst
    rcases hw.alloc size.toNat with h2 | ⟨q, m₂, l', -, h2, hw', hs, -⟩
    · rw [h2] at h1
      cases h1
      exact h
    · rw [h2] at h1
      cases h1
      exact h.same hw' hs
  | realloc rmem newsize =>
    unfold smemCall at hst
    dsimp only at hst
    by_cases hlive : rmem.all m.isLive = true
    case neg => rw [if_neg hlive] at hst; cases hst
    rw [if_pos hlive] at hst
    obtain ⟨⟨p, m₁⟩, h1, rfl⟩ := Option.map_eq_some_iff.mp hst
    cases rmem with
    | none =>
      obtain ⟨p', m₂, l', h2, hw', hs, -⟩ := hw.reallocNone newsize.toNat
      rw [h2] at h1
      cases h1
      exact h.same hw' hs
    | some q =>
      obtain ⟨b, hb, rfl⟩ := hw.toSmemRep.isLive_iff.mp hlive
      obtain ⟨p', m₂, l', h2, hw', hs, -⟩ := hw.realloc hb newsize.toNat
      rw [h2] at h1
      cases h1
      exact h.same hw' hs
  | free rmem =>
    unfold smemCall at hst
    dsimp only at hst
    by_cases hlive : rmem.all m.isLive = true
    case neg => rw [if_neg hlive] at hst; cases hst
    rw [if_pos hlive] at hst
    cases rmem with
    | none =>
      cases hst
      exact h
    | some q =>
      obtain ⟨b, hb, rfl⟩ := hw.toSmemRep.isLive_iff.mp hlive
      obtain ⟨m₁, l', h2, hw', hs, -⟩ := hw.free hb
      rw [h2] at hst
      cases hst
      exact h.same hw' hs

/-- `RT_ALIGN` wraps to zero. -/
theorem rtAlign_wraps {n : BitVec 32} (hn : ¬n.toNat ≤ 2 ^ 32 - rtAlignSize) :
    rtAlign n.toNat = 0 := by
  have hlt := n.isLt
  change ¬n.toNat ≤ 2 ^ 32 - 8 at hn
  change (n.toNat + 7) % 2 ^ 32 - (n.toNat + 7) % 2 ^ 32 % 8 = 0
  omega

/-- **`rt_smem_alloc`** returns null or a block that is large enough, unless the size wraps and there
is room for the smallest block. -/
theorem allocOk (h : SmemSound m) (size : BitVec 32) : SmemAllocOk m size ↔
    size.toNat ≤ 2 ^ 32 - rtAlignSize ∨ m.hasRoom smemMinSizeAligned = false := by
  obtain ⟨l, hw⟩ := h.well
  constructor
  · rintro ⟨p, m', h1, hp⟩
    by_contra hnot
    rw [not_or, Bool.not_eq_false] at hnot
    obtain ⟨hbig, hroom⟩ := hnot
    have hwrap := rtAlign_wraps hbig
    have h0 : size.toNat ≠ 0 := by
      rintro h0
      exact hbig (h0 ▸ Nat.zero_le _)
    have hsome := hw.alloc_room h0 (by rw [hwrap]; exact hroom)
    rcases hw.alloc size.toNat with h2 | ⟨q, m₁, l', -, h2, hw', hs, b, bs, cs, -, h5, h6, -⟩
    · exact hsome h2
    · -- the block lies in the heap, which is smaller
      rw [h2] at h1
      cases h1
      obtain ⟨-, hle⟩ := hp q rfl
      have hb : b ∈ blocks true l' := h5 ▸ List.mem_append_right _ List.mem_cons_self
      obtain ⟨c, hc, -, rfl⟩ := mem_blocks.mp hb
      have hpay := SmemInv.payload_eq hw' hc
      have hstop := (hw'.tiled.bounds hc).2.1
      have hend := hw'.stop
      have hsize := h.size
      have hq : q = m'.heapPtr + sizeofStructMem + c.start := by
        rw [h6, hs.heapPtr, Nat.add_right_comm]
      unfold Cell.stop at hstop
      rw [← hq] at hpay
      rw [hs.memSizeAligned] at hend
      change m.memSizeAligned + 2 * 16 < 2 ^ 32 at hsize
      change ¬size.toNat ≤ 2 ^ 32 - 8 at hbig
      change m'.payload q + 16 = c.size at hpay
      change m'.heapEnd = m.memSizeAligned + 16 at hend
      omega
  · rintro (hle | hroom)
    · rcases hw.alloc size.toNat with h1 | ⟨p, m', l', -, h1, hw', hs, b, bs, cs, -, h5, h6, h7⟩
      · exact ⟨none, m, h1, fun q hq => by cases hq⟩
      · refine ⟨some p, m', h1, fun q hq => ?_⟩
        cases hq
        rw [h6, Nat.add_right_comm]
        exact hw'.granted hs (h5 ▸ List.mem_append_right _ List.mem_cons_self)
          (Nat.le_trans (Nat.add_le_add_right (le_rtAlign hle) _) h7)
    · exact ⟨none, m, hw.alloc_noRoom _ hroom, fun q hq => by cases hq⟩

/-- **`rt_smem_realloc`** keeps its promise, unless the size wraps and there is a block to lose. -/
theorem reallocOk (h : SmemSound m) (data : ℕ → UInt8) {rmem : Option ℕ}
    (hlive : rmem.all m.isLive = true) (newsize : BitVec 32) : SmemReallocOk m data rmem newsize ↔
      newsize.toNat ≤ 2 ^ 32 - rtAlignSize ∨ rmem = none := by
  obtain ⟨l, hw⟩ := h.well
  cases rmem with
  | none =>
    refine ⟨fun _ => .inr rfl, fun _ => ?_⟩
    obtain ⟨p, m', l', h1, hw', hs, hp⟩ := hw.reallocNone newsize.toNat
    refine ⟨p, m', data, ?_, fun q hq => ?_, fun _ _ q hq => by cases hq⟩
    · rw [smemReallocData, h1]
      rfl
    · obtain ⟨h0, b, hb, rfl, hsize⟩ := hp q hq
      have hle : newsize.toNat ≤ 2 ^ 32 - rtAlignSize := by
        by_contra hbig
        exact h0 (rtAlign_wraps hbig)
      exact hw'.granted hs hb (Nat.le_trans (Nat.add_le_add_right (le_rtAlign hle) _) hsize)
  | some q =>
    obtain ⟨b, hb, rfl⟩ := hw.toSmemRep.isLive_iff.mp hlive
    obtain ⟨p, m', l', h1, hw', hs, hcase⟩ := hw.realloc hb newsize.toNat
    constructor
    · rintro ⟨p₁, m₁, data₁, h2, -, hnull⟩
      left
      by_contra hbig
      have hwrap := rtAlign_wraps hbig
      have h0 : newsize ≠ 0 := by
        rintro rfl
        exact hbig (Nat.zero_le _)
      rw [smemReallocData, h1] at h2
      cases h2
      rcases hcase with ⟨-, rfl, hperm⟩ | ⟨h3, -⟩ | ⟨h3, -⟩
      · -- the block has been freed, and is no longer among the live ones
        obtain ⟨hlive', -, -⟩ := hnull rfl h0 _ rfl
        obtain ⟨b', hb', he⟩ := hw'.toSmemRep.isLive_iff.mp hlive'
        rw [hs.heapPtr] at he
        have hnd := (hperm.map Prod.fst).nodup_iff.mp (hw.tiled.blocks_nodup (by decide) true)
        rw [List.map_cons, List.nodup_cons] at hnd
        exact hnd.1 (List.mem_map.mpr ⟨b', hb', (Nat.add_left_cancel he).symm⟩)
      · exact h3 hwrap
      · exact h3 hwrap
    · rintro (hle | hnone)
      · have hround := le_rtAlign hle
        refine ⟨p, m', _, by rw [smemReallocData, h1]; rfl, fun r hr => ?_, fun hp h0 r hr => ?_⟩
        · rcases hcase with ⟨-, rfl, -⟩ | ⟨-, rfl, -⟩ | ⟨-, b', bs, rfl, hsize, -, hperm'⟩
          · cases hr
          · cases hr
          · cases hr
            exact hw'.granted hs (hperm'.mem_iff.mpr List.mem_cons_self)
              (Nat.le_trans (Nat.add_le_add_right hround _) hsize)
        · cases hr
          rcases hcase with ⟨h3, -⟩ | ⟨-, rfl, rfl, rfl⟩ | ⟨-, b', bs, rfl, -⟩
          · exact absurd ((SmemInv.rtAlign_eq_zero hround).mp h3) h0
          · exact ⟨hlive, rfl, rfl⟩
          · cases hp
      · cases hnone

end SmemSound

/-- **The sizes of small memory.** In every heap that calls with any sizes lead to: `rt_smem_alloc`
returns null or a live block of the size asked for, exactly when the size is at most
`2 ^ 32 - RT_ALIGN_SIZE` or no free item has room for the smallest block; `rt_smem_realloc` does, and
leaves the old block as it was when it returns null, exactly when the size is at most that or no
block is passed. -/
theorem smem_sizes {m : SmallMem} (hm : smemCalls.Reach System.anyStep m) :
    (∀ size, SmemAllocOk m size ↔
      size.toNat ≤ 2 ^ 32 - rtAlignSize ∨ m.hasRoom smemMinSizeAligned = false) ∧
    ∀ data rmem newsize, rmem.all m.isLive = true → (SmemReallocOk m data rmem newsize ↔
      newsize.toNat ≤ 2 ^ 32 - rtAlignSize ∨ rmem = none) := by
  have h : SmemSound m := hm.invariant (fun _ => SmemSound.init) fun _ _ _ hI _ hst => hI.step hst
  exact ⟨h.allocOk, fun data rmem newsize hlive => h.reallocOk data hlive newsize⟩

/-- A fresh heap, in the 256 bytes from address 4096 on. -/
theorem smem_init256 :
    smemCalls.init ((rtSmemInit 64 (fun _ => { poolPtr := 0, next := 0, prev := 0 }) 4096 256).get
      (by decide)) :=
  ⟨64, fun _ => { poolPtr := 0, next := 0, prev := 0 }, 4096, 256, by decide,
    Option.eq_some_of_isSome (by decide)⟩

/-- After a block of 24 bytes has been allocated. -/
theorem smem_sizes_reached : ∃ m, smemCalls.Reach System.anyStep m ∧
    (m.isLive 4176 = true ∧ m.hasRoom smemMinSizeAligned = true) ∧
    ((∀ size, SmemAllocOk m size ↔
      size.toNat ≤ 2 ^ 32 - rtAlignSize ∨ m.hasRoom smemMinSizeAligned = false) ∧
    ∀ data rmem newsize, rmem.all m.isLive = true → (SmemReallocOk m data rmem newsize ↔
      newsize.toNat ≤ 2 ^ 32 - rtAlignSize ∨ rmem = none)) := by
  obtain ⟨m, hm, hp⟩ := System.exists_reach smemCalls System.anyStep
    (fun m => m.isLive 4176 = true ∧ m.hasRoom smemMinSizeAligned = true) smem_init256 [.alloc 24] (by decide)
  exact ⟨m, hm, of_decide_eq_true hp, smem_sizes hm⟩

/-- A request for `2 ^ 32 - 1` bytes is granted 16 of them, and one to resize a block to as many frees
it. -/
theorem smem_sizes_wrap : ∃ m, smemCalls.Reach System.anyStep m ∧ m.isLive 4176 = true ∧
    (rtSmemAlloc m (2 ^ 32 - 1)).any (fun r => r.1.any fun q => r.2.payload q == 16) = true ∧
    (rtSmemRealloc m (some 4176) (2 ^ 32 - 1)).any
      (fun r => r.1.isNone && !r.2.isLive 4176) = true ∧
    ¬SmemAllocOk m 0xFFFFFFFF ∧ ∀ data, ¬SmemReallocOk m data (some 4176) 0xFFFFFFFF := by
  obtain ⟨m, hm, hp⟩ := System.exists_reach smemCalls System.anyStep
    (fun m => m.isLive 4176 = true ∧ m.hasRoom smemMinSizeAligned = true ∧
      (rtSmemAlloc m (2 ^ 32 - 1)).any (fun r => r.1.any fun q => r.2.payload q == 16) = true ∧
      (rtSmemRealloc m (some 4176) (2 ^ 32 - 1)).any
        (fun r => r.1.isNone && !r.2.isLive 4176) = true)
    smem_init256 [.alloc 24] (by decide)
  obtain ⟨hlive, hroom, halloc, hrealloc⟩ := of_decide_eq_true hp
  have h : SmemSound m := hm.invariant (fun _ => SmemSound.init) fun _ _ _ hI _ hst => hI.step hst
  have hbig : ¬((0xFFFFFFFF : BitVec 32).toNat ≤ 2 ^ 32 - rtAlignSize) := by decide
  refine ⟨m, hm, hlive, halloc, hrealloc, fun hok => ?_, fun data hok => ?_⟩
  · rcases (h.allocOk _).mp hok with h1 | h1
    · exact hbig h1
    · rw [hroom] at h1
      cases h1
  · have hall : (some 4176 : Option ℕ).all m.isLive = true := hlive
    rcases (h.reallocOk data hall _).mp hok with h1 | h1
    · exact hbig h1
    · cases h1

/-! ## What is stored -/

/-- Two blocks are apart, with the bytes that rounding adds. -/
theorem SmemInv.apart {s : SmemState} {p q n k : ℕ} (h : SmemInv s) (hp : s.live p = some n)
    (hq : s.live q = some k) (hne : p ≠ q) : p + rtAlign n ≤ q ∨ q + k ≤ p := by
  obtain ⟨l, hw, hl⟩ := h
  have hnp := (SmemInv.large hw hl hp).2.1
  have hkq := (SmemInv.large hw hl hq).2.1
  obtain ⟨c, hc, -, hcp⟩ := (SmemInv.live_iff hl p).mp (by rw [hp]; exact Option.some_ne_none n)
  obtain ⟨d, hd, -, hdq⟩ := (SmemInv.live_iff hl q).mp (by rw [hq]; exact Option.some_ne_none k)
  have hdis := SmemInv.disjoint hw hc hd fun he => hne (by rw [hcp, hdq, he])
  rw [← hcp, ← hdq] at hdis
  have hpay : s.heap.payload p + 16 = c.size := by
    rw [hcp]
    exact SmemInv.payload_eq hw hc
  have h8 : c.size % 8 = 0 := (hw.aligned c hc).2
  have hle : rtAlign n ≤ s.heap.payload p := by
    change (n + 7) % 2 ^ 32 - (n + 7) % 2 ^ 32 % 8 ≤ _
    omega
  omega

/-- **Blocks keep what is stored in them**: `rt_smem_realloc` moves the bytes that both sizes have, and writes to
no other block. -/
theorem smem_stored {s : SmemState} (hs : smemSystem.Reach smemFits s) {p n : ℕ} (hp : s.live p = some n)
    {newsize : BitVec 32} (hfits : smemFits s (.realloc (some p) newsize) = true) {data data' : ℕ → UInt8}
    {r : Option ℕ} {m : SmallMem}
    (hr : smemReallocData s.heap data (some p) newsize.toNat = some (r, m, data')) :
    (∀ q, r = some q → ∀ i < min n newsize.toNat, data' (q + i) = data (p + i)) ∧
    (∀ p' k, s.live p' = some k → p' ≠ p → ∀ i < k, data' (p' + i) = data (p' + i)) ∧
    (r = none → data' = data) := by
  have h : SmemInv s := hs.invariant (fun _ => SmemInit.inv) fun _ _ _ hI hok hst => hI.step hok hst
  have hround : newsize.toNat ≤ rtAlign newsize.toNat := le_rtAlign (of_decide_eq_true hfits)
  obtain ⟨⟨r', m'⟩, hr', he⟩ := Option.map_eq_some_iff.mp hr
  obtain ⟨rfl, rfl, hdata⟩ : r' = r ∧ m' = m ∧ _ = data' := by simpa only [Prod.mk.injEq] using he
  cases r' with
  | none => exact ⟨by rintro _ ⟨⟩, fun _ _ _ _ _ _ => congrFun hdata.symm _, fun _ => hdata.symm⟩
  | some q =>
    obtain ⟨hin, hout⟩ := smemReallocData_bytes hr
    obtain ⟨l, hw, hl⟩ := id h
    refine ⟨fun q' hq' i hi => ?_, fun p' k hk hne i hi => ?_, by rintro ⟨⟩⟩
    · cases hq'
      have hlarge := (SmemInv.large hw hl hp).2.1
      exact hin i (by omega)
    · obtain ⟨b, hb, rfl, -⟩ := hl.block hp
      have hinv := SmemInv.reallocSome hw hl hb hround hr'
      obtain ⟨_, _, l', h2, hw', -, hcase⟩ := hw.realloc hb newsize.toNat
      cases hr'.symm.trans h2
      rcases hcase with ⟨-, h3, -⟩ | ⟨-, h3, -⟩ | ⟨h0, b', bs, hq, -, hperm, hperm'⟩
      · cases h3
      · cases h3
      -- the other block is one of `bs`, which the heap has before and after the call
      have hqp : p' ≠ q := by
        rintro rfl
        obtain ⟨c, hc, hcp, -⟩ := hl.block hk
        have hmem : c ∈ bs := (List.mem_cons.mp (hperm.mem_iff.mp hc)).resolve_left fun he =>
          hne (by rw [hcp, he])
        have hnd := (hperm'.map Prod.fst).nodup_iff.mp (hw'.tiled.blocks_nodup (by decide) true)
        have hfst : c.1 = b'.1 := by
          have := Option.some.inj hq
          omega
        exact (List.nodup_cons.mp hnd).1 (hfst ▸ List.mem_map_of_mem hmem)
      have hpos : newsize ≠ 0 := by
        rintro rfl
        exact h0 rfl
      rw [if_neg hpos, if_neg (Option.some_ne_none q)] at hinv
      have hapart := hinv.apart (p := q) (q := p') (n := newsize.toNat) (k := k) (Function.update_self ..)
        ((Function.update_of_ne hqp _ _).trans ((Function.update_of_ne hne _ _).trans hk)) (Ne.symm hqp)
      exact hout _ (by omega)

/-- A block is moved behind its neighbour. -/
theorem smem_stored_moved : ∃ s m data', smemSystem.Reach smemFits s ∧
    smemReallocData s.heap (fun a => UInt8.ofNat a) (some 4176) 40 = some (some 4256, m, data') ∧
    (∀ i < 24, data' (4256 + i) = UInt8.ofNat (4176 + i)) ∧
    ∀ i < 24, data' (4216 + i) = UInt8.ofNat (4216 + i) := by
  obtain ⟨s, hs, hp⟩ := System.exists_reach smemSystem smemFits
    (fun s => s.live 4176 = some 24 ∧ s.live 4216 = some 24 ∧
      (smemReallocData s.heap (fun a => UInt8.ofNat a) (some 4176) 40).any (fun r => r.1 = some 4256) = true)
    smem256_init [.alloc 24, .alloc 24] (by decide)
  obtain ⟨h1, h2, hany⟩ := of_decide_eq_true hp
  obtain ⟨⟨r, m, data'⟩, hr, hq⟩ := (Option.any_eq_true _ _).mp hany
  obtain rfl : r = some 4256 := of_decide_eq_true hq
  obtain ⟨hin, hout, -⟩ := smem_stored hs h1 (show smemFits s (.realloc (some 4176) 40) = true from rfl) hr
  exact ⟨s, m, data', hs, hr, hin 4256 rfl, hout 4216 24 h2 (by decide)⟩

end RtThread
