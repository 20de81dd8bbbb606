import RtThread.Lib.Tiling
import RtThread.Memory.SlabInv

/-!
# Runs of the slab heap

* `SlabState`, `slabSystem`: the callers' blocks with the sizes asked for, and the calls of
  `rt_slab_alloc`, `rt_slab_realloc` and `rt_slab_free` in any order, with writes of the callers into
  their blocks;
* `SlabHeap`: what the heap looks like from outside;
* **`slab_heap`**: it looks so in every state of every run.
-/

namespace RtThread

/-- A record in the memory of the heap that a write of a caller can change. -/
inductive SlabWrite where
  | chunk (addr : ℕ) (next : Option ℕ)
  | page (page : ℕ) (next : Option ℕ) (n : ℕ)
  | zone (page : ℕ) (hdr : SlabZone)
  deriving DecidableEq, Repr

/-- Where the record lies, and its size. -/
def SlabWrite.range : SlabWrite → ℕ × ℕ
  | .chunk addr _ => (addr, 4)
  | .page b _ _ => (b * rtMmPageSize, 8)
  | .zone z _ => (z * rtMmPageSize, sizeofSlabZone)

namespace Slab

/-- The memory after the write. -/
def write (m : Slab) : SlabWrite → Slab
  | .chunk addr next => { m with chunk := Function.update m.chunk addr next }
  | .page page next n => { m with pages := m.pages.setPage page next n }
  | .zone page hdr => m.setZone page hdr

end Slab

/-- The heap, and the blocks that the callers have: the number of bytes asked for at each pointer. -/
structure SlabState where
  heap : Slab
  live : ℕ → Option ℕ

/-- The calls, and a write of a caller with the block `p`. -/
inductive SlabLabel where
  | alloc (size : UInt32)
  | realloc (ptr : Option ℕ) (size : UInt32)
  | free (ptr : Option ℕ)
  | write (p : ℕ) (w : SlabWrite)
  deriving DecidableEq, Repr

namespace SlabState

/-- The write touches the block. -/
def Touches (s : SlabState) (p : ℕ) (w : SlabWrite) : Prop :=
  s.live p ≠ none ∧ w.range.1 < p + s.heap.blockSize p ∧ p < w.range.1 + w.range.2

instance (s : SlabState) (p : ℕ) (w : SlabWrite) : Decidable (s.Touches p w) := by
  unfold Touches; infer_instance

/-- What the caller has after `rt_slab_realloc` has returned `r`. -/
def reallocLive (live : ℕ → Option ℕ) (ptr r : Option ℕ) (size : ℕ) : ℕ → Option ℕ :=
  if size = 0 then dropBlock live ptr
  else if r = none then live
  else takeBlock (dropBlock live ptr) r size

/-- One call or write. -/
def step (s : SlabState) : SlabLabel → Option SlabState
  | .alloc size =>
    (s.heap.slabAlloc size.toNat).map fun r => ⟨r.2, takeBlock s.live r.1 size.toNat⟩
  | .realloc ptr size =>
    if ownsBlock s.live ptr then
      (s.heap.slabRealloc ptr size.toNat).map fun r =>
        ⟨r.2, reallocLive s.live ptr r.1 size.toNat⟩
    else none
  | .free ptr =>
    if ownsBlock s.live ptr then (s.heap.slabFree ptr).map fun m => ⟨m, dropBlock s.live ptr⟩
    else none
  | .write p w => if s.Touches p w then some { s with heap := s.heap.write w } else none

/-- The start: a heap that `rt_slab_init` has set up. -/
def Start (sizeofSlab : ℕ) (s : SlabState) : Prop :=
  ∃ (m₀ : Slab) (beginAddr size : ℕ), m₀.slabInit sizeofSlab beginAddr size = some s.heap ∧
    s.live = fun _ => none

end SlabState

/-- The calls on a slab heap in any order. -/
def slabSystem (sizeofSlab : ℕ) : System SlabState SlabLabel where
  init := SlabState.Start sizeofSlab
  step := SlabState.step

/-! ## Live blocks -/

/-- The callers' blocks are the blocks of the heap, and each has as many bytes as were asked for. -/
structure HoldsBlocks (live : ℕ → Option ℕ) (block : ℕ → ℕ → Prop) : Prop where
  fits : ∀ p n, live p = some n → ∃ size, block p size ∧ n ≤ size
  live : ∀ p size, block p size → live p ≠ none

namespace HoldsBlocks

variable {live : ℕ → Option ℕ} {block block' : ℕ → ℕ → Prop} {p n size : ℕ}

theorem congr (h : HoldsBlocks live block) (hb : ∀ q n, block' q n ↔ block q n) :
    HoldsBlocks live block' where
  fits q n hq := by
    obtain ⟨size, h1, h2⟩ := h.fits q n hq
    exact ⟨size, (hb q size).mpr h1, h2⟩
  live q size hq := h.live q size ((hb q size).mp hq)

/-- **A new block.** -/
theorem take (h : HoldsBlocks live block) (hn : n ≤ size)
    (hb : ∀ q k, block' q k ↔ block q k ∨ q = p ∧ k = size) :
    HoldsBlocks (Function.update live p (some n)) block' where
  fits q k hq := by
    by_cases hqp : q = p
    · subst hqp
      rw [Function.update_self] at hq
      cases hq
      exact ⟨size, (hb q size).mpr (.inr ⟨rfl, rfl⟩), hn⟩
    · rw [Function.update_of_ne hqp] at hq
      obtain ⟨size', h1, h2⟩ := h.fits q k hq
      exact ⟨size', (hb q size').mpr (.inl h1), h2⟩
  live q k hq := by
    by_cases hqp : q = p
    · rw [hqp, Function.update_self]
      exact Option.some_ne_none n
    · rw [Function.update_of_ne hqp]
      exact h.live q k (((hb q k).mp hq).resolve_right fun hc => hqp hc.1)

/-- **A block given back.** -/
theorem drop (h : HoldsBlocks live block) (hb : ∀ q k, block' q k ↔ block q k ∧ q ≠ p) :
    HoldsBlocks (Function.update live p none) block' where
  fits q k hq := by
    by_cases hqp : q = p
    · rw [hqp, Function.update_self] at hq
      cases hq
    · rw [Function.update_of_ne hqp] at hq
      obtain ⟨size, h1, h2⟩ := h.fits q k hq
      exact ⟨size, (hb q size).mpr ⟨h1, hqp⟩, h2⟩
  live q k hq := by
    obtain ⟨h1, h2⟩ := (hb q k).mp hq
    rw [Function.update_of_ne h2]
    exact h.live q k h1

end HoldsBlocks

/-! ## The invariant of the runs -/

namespace SlabInv

variable {k : ℕ} {m : Slab} {g : SlabLists} {z p n q i size : ℕ} {r : ℕ × ℕ}

/-- A free chunk has no byte in common with a block. -/
theorem free_block {y a : ℕ} (h : SlabInv k m g) (hb : Block m g p n) (hy : y ∈ g.zones ++ g.cache)
    (ha : a ∈ g.freed y) : a + minChunkSize ≤ p ∨ p + n ≤ a := by
  have hk := h.zone y hy
  have h1 := hk.free_range ha
  have hpos := hk.size_pos
  have h4 := h.shape.pages
  rcases hb with ⟨r, hr, rfl, rfl⟩ | ⟨z, hz, hp, rfl⟩
  · have h2 := h.large_zone hr (zones_cache hy)
    simp only [rtMmPageSize] at *
    omega
  · have h2 := (h.zoneOk hz).live_range hp
    by_cases hyz : y = z
    · subst hyz
      obtain ⟨j, -, rfl⟩ := hk.mem a ha
      obtain ⟨⟨i, -, rfl⟩, hi⟩ := hp
      rcases Nat.lt_trichotomy j i with hlt | rfl | hgt
      · have := ZoneOk.chunk_disjoint (m.zone y) hlt
        omega
      · exact absurd ha hi
      · exact .inr (ZoneOk.chunk_disjoint (m.zone y) hgt)
    · have h3 := h.zone_disjoint (zones_cache hy) (List.mem_append_left _ hz) hyz
      simp only [rtMmPageSize] at *
      omega

/-- **A zone header has no byte in common with a block.** -/
theorem header_block (h : SlabInv k m g) (hb : Block m g p n) (hz : z ∈ g.all) :
    z * rtMmPageSize + sizeofSlabZone ≤ p ∨ p + n ≤ z * rtMmPageSize := by
  have h4 := h.shape.pages
  have h5 := h.shape.cnt_pos
  rcases hb with ⟨r, hr, rfl, rfl⟩ | ⟨y, hy, hp, rfl⟩
  · have h2 := h.large_zone hr hz
    simp only [rtMmPageSize] at *
    have hs : sizeofSlabZone = 36 := rfl
    omega
  · have h2 := (h.zoneOk hy).live_range hp
    by_cases hyz : y = z
    · subst hyz
      exact .inl h2.1
    · have h3 := h.zone_disjoint (List.mem_append_left _ hy) hz hyz
      simp only [rtMmPageSize] at *
      have hs : sizeofSlabZone = 36 := rfl
      omega

/-- **A free run of pages has no byte in common with a block.** -/
theorem run_block (h : SlabInv k m g) (hb : Block m g p n) (hr : r ∈ g.runs) :
    (r.1 + r.2) * rtMmPageSize ≤ p ∨ p + n ≤ r.1 * rtMmPageSize := by
  obtain ⟨s, hs, hpos, h1, h2⟩ := h.block_owned hb
  have hrpos := h.pages.runs.pos hr
  have hap : r.1 + r.2 ≤ s.1 ∨ s.1 + s.2 ≤ r.1 := by
    by_contra hcon
    obtain ⟨i, h3, h4⟩ : ∃ i, (r.1 ≤ i ∧ i < r.1 + r.2) ∧ s.1 ≤ i ∧ i < s.1 + s.2 :=
      ⟨max r.1 s.1, by omega, by omega⟩
    have h5 : 0 < (g.pageState m).held i := cover_pos.mpr ⟨s, block_owned_mem hs, h4⟩
    exact cover_eq_zero (h.pages.held_cover h5).2.2.1 hr h3
  rcases hap with hap | hap
  · exact .inl (Nat.le_trans (Nat.mul_le_mul_right _ hap) h1)
  · exact .inr (Nat.le_trans h2 (Nat.mul_le_mul_right _ hap))

/-- **A write into a block** changes no record of the heap. -/
theorem write (h : SlabInv k m g) (hb : Block m g p n) {w : SlabWrite}
    (hw : w.range.1 < p + n ∧ p < w.range.1 + w.range.2) :
    SlabInv k (m.write w) g ∧ ∀ q n, Block (m.write w) g q n ↔ Block m g q n := by
  cases w with
  | chunk addr next =>
    refine ⟨{ h with
      shape := ⟨h.shape.pages, h.shape.limit, h.shape.size, h.shape.cnt⟩
      zone := fun y hy => (h.zone y hy).frame fun a ha => Function.update_of_ne ?_ _ _ },
      fun q n => Iff.rfl⟩
    rintro rfl
    have h1 := h.free_block hb hy ha
    have hm : minChunkSize = 8 := rfl
    dsimp only [SlabWrite.range] at hw
    omega
  | page page next n =>
    have hpages : (g.pageState (m.write (.page page next n))).Inv g.runs := by
      refine { h.pages with list := h.pages.list.frame fun r hr => ?_ }
      have hne : r.1 ≠ page := by
        rintro rfl
        have h1 := h.run_block hb hr
        have h2 := h.pages.runs.pos hr
        have h3 := Nat.mul_le_mul_right rtMmPageSize (show r.1 + 1 ≤ r.1 + r.2 by omega)
        dsimp only [SlabWrite.range] at hw
        simp only [rtMmPageSize] at *
        omega
      exact ⟨SlabPages.setPage_next hne, SlabPages.setPage_page hne⟩
    exact ⟨{ h with
      shape := ⟨h.shape.pages, h.shape.limit, h.shape.size, h.shape.cnt⟩
      pages := hpages }, fun q n => Iff.rfl⟩
  | zone page hdr =>
    have hpg : page ∉ g.all := fun hz => by
      have h1 := h.header_block hb hz
      dsimp only [SlabWrite.range] at hw
      omega
    have hne : ∀ y ∈ g.zones ++ g.cache, y ≠ page := fun y hy e => hpg (e ▸ zones_cache hy)
    have hzone : ∀ y ∈ g.zones ++ g.cache, Function.update m.zone page hdr y = m.zone y :=
      fun y hy => Function.update_of_ne (hne y hy) _ _
    refine ⟨{ h with
      shape := ⟨h.shape.pages, h.shape.limit, h.shape.size, h.shape.cnt⟩
      magic := fun y hy => ?_
      zone := fun y hy => ?_
      avail := h.avail.outside (fun hc => hne page (List.mem_append_left _ hc) rfl) hdr
      cache := AvailOk.frame_update h.cache
        (fun hc => hne page (List.mem_append_right _ hc) rfl) hdr }, fun q n => ?_⟩
    · dsimp only [Slab.write, Slab.setZone]
      rw [hzone y (List.mem_append_left _ hy)]
      exact h.magic y hy
    · dsimp only [Slab.write, Slab.setZone]
      rw [hzone y hy]
      exact h.zone y hy
    · rw [Block, Block]
      refine or_congr_right (exists_congr fun y => and_congr_right fun hy => ?_)
      dsimp only [Slab.write, Slab.setZone]
      rw [hzone y (List.mem_append_left _ hy)]

end SlabInv

namespace SlabState

variable {s s' : SlabState} {sizeofSlab : ℕ}

/-- What holds between the calls. -/
def Inv (s : SlabState) : Prop :=
  ∃ g, SlabInv 2 s.heap g ∧ g.spare = [] ∧ HoldsBlocks s.live (Block s.heap g)

theorem growZoneSize_mem (limsize fuel : ℕ) {zoneSize : ℕ}
    (h : zoneSize = 32768 ∨ zoneSize = 65536 ∨ zoneSize = 131072) :
    Slab.growZoneSize limsize fuel zoneSize = 32768 ∨
      Slab.growZoneSize limsize fuel zoneSize = 65536 ∨
      Slab.growZoneSize limsize fuel zoneSize = 131072 := by
  induction fuel generalizing zoneSize with
  | zero => exact h
  | succ fuel ih =>
    rw [Slab.growZoneSize]
    split_ifs with hc
    · refine ih ?_
      have h1 := hc.1
      have h2 : zallocMaxZoneSize = 131072 := rfl
      omega
    · exact h

/-- The sizes chosen by `rt_slab_init`. -/
theorem initShape {m : Slab} {zoneSize : ℕ}
    (h : zoneSize = 32768 ∨ zoneSize = 65536 ∨ zoneSize = 131072) (hs : m.zoneSize = zoneSize)
    (hl : m.zoneLimit = if zoneSize / 4 > zallocZoneLimit then zallocZoneLimit else zoneSize / 4)
    (hc : m.zonePageCnt = zoneSize / rtMmPageSize) : m.Shape := by
  have hz : zallocZoneLimit = 16384 := rfl
  have hp : rtMmPageSize = 4096 := rfl
  rw [hz] at hl
  rw [hp] at hc
  refine ⟨?_, ?_, ?_, ?_⟩
  · rw [hs, hc, hp]
    omega
  · rw [hl]
    split_ifs <;> omega
  · rw [hl, hs]
    split_ifs <;> omega
  · omega

/-- The array has an entry for every page. -/
theorem usagePages_bytes {n : ℕ} (h : n < pageCount) :
    n * sizeofSlabMemusage ≤ Slab.usagePages n * rtMmPageSize := by
  have hp : pageCount = 1048576 := rfl
  have hs : n * sizeofSlabMemusage = n * 4 := rfl
  have hz : rtMmPageSize = 4096 := rfl
  rw [Slab.usagePages, SlabInv.alignTo_page]
  obtain ⟨q, -, h2, h3, -⟩ := alignTo_class (n * sizeofSlabMemusage) (a := rtMmPageSize) (by decide)
    (by omega)
  rw [h2]
  exact h3

theorem usagePages_pos {n : ℕ} (h0 : 0 < n) (h : n < pageCount) : 0 < Slab.usagePages n := by
  have h1 := usagePages_bytes h
  have hs : n * sizeofSlabMemusage = n * 4 := rfl
  rcases Nat.eq_zero_or_pos (Slab.usagePages n) with h2 | h2
  · rw [h2, Nat.zero_mul] at h1
    omega
  · exact h2

/-- **`rt_slab_init`.** -/
theorem Start.inv (h : s.Start sizeofSlab) : s.Inv := by
  obtain ⟨m₀, beginAddr, size, hi, hlive⟩ := h
  rw [Slab.slabInit] at hi
  cases hr : slabRange sizeofSlab beginAddr size with
  | none =>
    rw [hr] at hi
    cases hi
  | some se =>
    obtain ⟨a, e⟩ := se
    obtain ⟨hlt, hlim⟩ := slabRange_lt hr
    rw [hr] at hi
    dsimp only at hi
    cases hp : m₀.pages.pageInit a (e - a) with
    | none =>
      rw [hp] at hi
      cases hi
    | some pages =>
      rw [hp, Option.bind_some] at hi
      have hst : PageState.Inv ⟨a, e, pages, fun _ => 0⟩ [(a, e - a)] :=
        PageState.Start.inv sizeofSlab ⟨beginAddr, size, m₀.pages, hr, hp, rfl⟩
      obtain ⟨pages', ⟨h1, -⟩ | ⟨mp, l, h1, h2, h3, h4⟩⟩ :=
        hst.alloc (Slab.usagePages (e - a)) <;> dsimp only at h1 <;> rw [h1] at hi
      · cases hi
      obtain ⟨zoneSize, hz⟩ : ∃ zoneSize, zoneSize =
        Slab.growZoneSize ((e - a) * rtMmPageSize) 32 zallocMinZoneSize := ⟨_, rfl⟩
      have hzs := growZoneSize_mem ((e - a) * rtMmPageSize) 32
        (show zallocMinZoneSize = 32768 ∨ _ ∨ _ from .inl rfl)
      rw [← hz] at hzs
      dsimp only at hi
      rw [← hz] at hi
      have hheap := Option.some.inj hi
      refine ⟨⟨l, [], [], [], [], fun _ => [], fun _ => []⟩, ?_, rfl, ?_⟩
      · rw [← hheap]
        refine ⟨initShape hzs rfl rfl rfl, ⟨h2, h3, fun i => ?_, hst.start, hst.stop, hst.limit⟩,
          by simp, by simp [SlabLists.all], by simp, by simp, ⟨fun zi => .nil, by simp⟩, .nil, rfl,
          Nat.zero_le _, by decide⟩
        have h5 := hst.pages i
        have h6 := h4 i
        simp only [SlabLists.pageState, SlabLists.owned, SlabLists.all, List.append_nil,
          List.map_nil, cover_cons, cover_nil]
        dsimp only at h5
        omega
      · rw [hlive]
        refine ⟨fun p n hpn => (Option.some_ne_none n hpn.symm).elim, ?_⟩
        rintro p n (⟨r, hr', -⟩ | ⟨z, hz', -⟩)
        · cases hr'
        · cases hz'

theorem Inv.owns {g : SlabLists} (hl : HoldsBlocks s.live (Block s.heap g)) {p : ℕ}
    (hp : ownsBlock s.live (some p) = true) : ∃ n, Block s.heap g p n := by
  obtain ⟨n, hn⟩ := Option.isSome_iff_exists.mp hp
  obtain ⟨size, h1, -⟩ := hl.fits p n hn
  exact ⟨size, h1⟩

/-- **`rt_slab_alloc` returns.** -/
theorem Inv.alloc (h : s.Inv) {size : ℕ} (hs : size < 2 ^ 32) :
    ∃ r, s.heap.slabAlloc size = some r ∧ Inv ⟨r.2, takeBlock s.live r.1 size⟩ := by
  obtain ⟨g, hg, hsp, hl⟩ := h
  obtain ⟨-, h2⟩ | ⟨h1, p, m', g', h2, h3, h4, -, h6⟩ := hg.alloc hsp size
  · exact ⟨_, h2, g, hg, hsp, hl⟩
  · exact ⟨_, h2, g', h3, h4, hl.take (hg.given_bounds h1 hs).1 h6⟩

/-- **`rt_slab_free` returns** for null and for the blocks of the caller. -/
theorem Inv.free (h : s.Inv) {ptr : Option ℕ} (hown : ownsBlock s.live ptr = true) :
    ∃ m, s.heap.slabFree ptr = some m ∧ Inv ⟨m, dropBlock s.live ptr⟩ := by
  obtain ⟨g, hg, hsp, hl⟩ := h
  cases ptr with
  | none => exact ⟨s.heap, rfl, g, hg, hsp, hl⟩
  | some p =>
    obtain ⟨n, hb⟩ := Inv.owns hl hown
    obtain ⟨m', g', h1, h2, h3, h4⟩ := hg.free hb
    exact ⟨m', h1, g', h2, h3.trans hsp, hl.drop h4⟩

/-- **`rt_slab_realloc` returns** for null and for the blocks of the caller. -/
theorem Inv.realloc (h : s.Inv) {ptr : Option ℕ} (hown : ownsBlock s.live ptr = true) {size : ℕ}
    (hs : size < 2 ^ 32) : ∃ r, s.heap.slabRealloc ptr size = some r ∧
      Inv ⟨r.2, reallocLive s.live ptr r.1 size⟩ := by
  cases ptr with
  | none =>
    obtain ⟨r, h1, h2⟩ := h.alloc hs
    refine ⟨r, h1, ?_⟩
    by_cases h0 : size = 0
    · -- nothing is allocated for no bytes
      subst h0
      cases h1
      exact h
    · by_cases hr : r.1 = none
      · rw [hr] at h2 ⊢
        rw [reallocLive, if_neg h0, if_pos rfl]
        exact h2
      · rw [reallocLive, if_neg h0, if_neg hr]
        exact h2
  | some p =>
    by_cases h0 : size = 0
    · obtain ⟨m, h1, h2⟩ := h.free hown
      refine ⟨(none, m), ?_, ?_⟩
      · simp only [Slab.slabRealloc]
        rw [if_pos h0, h1]
        rfl
      · rw [reallocLive, if_pos h0]
        exact h2
    · obtain ⟨g, hg, hsp, hl⟩ := h
      obtain ⟨n, hb⟩ := Inv.owns hl hown
      obtain h1 | ⟨q, m', g', n', h1, h2, h3, h4, h5⟩ := hg.realloc hsp hb h0 hs
      · refine ⟨_, h1, ?_⟩
        rw [reallocLive, if_neg h0, if_pos rfl]
        exact ⟨g, hg, hsp, hl⟩
      · refine ⟨_, h1, ?_⟩
        rw [reallocLive, if_neg h0, if_neg (Option.some_ne_none q)]
        -- the old block goes before the new one comes
        have hd : HoldsBlocks (Function.update s.live p none)
            (fun x y => Block s.heap g x y ∧ x ≠ p) := hl.drop fun x y => Iff.rfl
        exact ⟨g', h2, h3, hd.take h4 h5⟩

/-- **One call or write.** -/
theorem Inv.step (h : s.Inv) {a : SlabLabel} (hs : s.step a = some s') : s'.Inv := by
  cases a with
  | alloc size =>
    simp only [SlabState.step] at hs
    obtain ⟨r, h1, h2⟩ := h.alloc size.toNat_lt
    rw [h1] at hs
    cases hs
    exact h2
  | realloc ptr size =>
    simp only [SlabState.step] at hs
    split_ifs at hs with hown
    obtain ⟨r, h1, h2⟩ := h.realloc hown size.toNat_lt
    rw [h1] at hs
    cases hs
    exact h2
  | free ptr =>
    simp only [SlabState.step] at hs
    split_ifs at hs with hown
    obtain ⟨m, h1, h2⟩ := h.free hown
    rw [h1] at hs
    cases hs
    exact h2
  | write p w =>
    simp only [SlabState.step] at hs
    split_ifs at hs with ht
    cases hs
    obtain ⟨g, hg, hsp, hl⟩ := h
    obtain ⟨n, hb⟩ := Inv.owns hl (Option.isSome_iff_ne_none.mpr ht.1)
    have ht' := ht.2
    rw [hg.blockSize_eq hb] at ht'
    obtain ⟨h1, h2⟩ := hg.write hb ht'
    exact ⟨g, h1, hsp, hl.congr h2⟩

end SlabState

/-- **What a slab heap looks like** between the calls. -/
structure SlabHeap (s : SlabState) (g : SlabLists) : Prop where
  /-- The callers' blocks, each as large as was asked for. -/
  live : ∀ p, s.live p ≠ none ↔ ∃ n, Block s.heap g p n
  large : ∀ p n, s.live p = some n → n ≤ s.heap.blockSize p
  inside : ∀ p, s.live p ≠ none → s.heap.heapStart * rtMmPageSize ≤ p ∧
    p + s.heap.blockSize p ≤ s.heap.heapEnd * rtMmPageSize
  disjoint : ∀ p q, s.live p ≠ none → s.live q ≠ none → p ≠ q →
    p + s.heap.blockSize p ≤ q ∨ q + s.heap.blockSize q ≤ p
  /-- The memory that the heap itself needs. -/
  header : ∀ z ∈ g.zones ++ g.cache, ∀ p, s.live p ≠ none →
    z * rtMmPageSize + sizeofSlabZone ≤ p ∨ p + s.heap.blockSize p ≤ z * rtMmPageSize
  table : ∀ p, s.live p ≠ none →
    s.heap.memusagePage * rtMmPageSize +
        (s.heap.heapEnd - s.heap.heapStart) * sizeofSlabMemusage ≤ p ∨
      p + s.heap.blockSize p ≤ s.heap.memusagePage * rtMmPageSize
  pageList : s.heap.pages.FreeList s.heap.pages.pageList g.runs
  freePages : ∀ r ∈ g.runs, ∀ p, s.live p ≠ none →
    (r.1 + r.2) * rtMmPageSize ≤ p ∨ p + s.heap.blockSize p ≤ r.1 * rtMmPageSize
  /-- Every page of the heap is in one place. -/
  pages : ∀ i, cover (g.owned s.heap) i + cover g.runs i =
    if s.heap.heapStart ≤ i ∧ i < s.heap.heapEnd then 1 else 0
  spare : g.spare = []
  /-- The zones and their lists. -/
  nfree : ∀ z ∈ g.zones ++ g.cache,
    NextChain s.heap.chunk (s.heap.zone z).freechunk (g.freed z) ∧
      (s.heap.zone z).nfree =
        ((s.heap.zone z).nmax - 1 - (s.heap.zone z).uindex) + (g.freed z).length
  array : ∀ zi, NextChain (zoneNext s.heap.zone) (s.heap.zoneArray zi) (g.avail zi) ∧
    (g.avail zi).Nodup ∧ ∀ z, z ∈ g.avail zi ↔
      z ∈ g.zones ∧ (s.heap.zone z).zoneindex = zi ∧ 0 < (s.heap.zone z).nfree
  zoneFree : NextChain (zoneNext s.heap.zone) s.heap.zoneFree g.cache ∧
    s.heap.zoneFreeCnt = g.cache.length ∧ g.cache.length ≤ zoneReleaseThresh
  /-- Further calls return. -/
  alloc : ∀ size : UInt32, ∃ s', s.step (.alloc size) = some s'
  realloc : ∀ ptr (size : UInt32), ownsBlock s.live ptr = true →
    ∃ s', s.step (.realloc ptr size) = some s'
  free : ∀ ptr, ownsBlock s.live ptr = true → ∃ s', s.step (.free ptr) = some s'

/-- The array with the use of the pages has no byte in common with a block. -/
theorem SlabInv.table_block {k : ℕ} {m : Slab} {g : SlabLists} {p n : ℕ} (h : SlabInv k m g)
    (hb : Block m g p n) :
    m.memusagePage * rtMmPageSize + (m.heapEnd - m.heapStart) * sizeofSlabMemusage ≤ p ∨
      p + n ≤ m.memusagePage * rtMmPageSize := by
  obtain ⟨r, hr, hpos, h1, h2⟩ := h.block_owned hb
  have hstop := h.pages.stop
  have hlim := h.pages.limit
  have hs : (g.pageState m).heapStart = m.heapStart := rfl
  have he : (g.pageState m).heapEnd = m.heapEnd := rfl
  have hbytes := SlabState.usagePages_bytes (n := m.heapEnd - m.heapStart) (by omega)
  have hup := SlabState.usagePages_pos (n := m.heapEnd - m.heapStart) (by omega) (by omega)
  have hap : m.memusagePage + Slab.usagePages (m.heapEnd - m.heapStart) ≤ r.1 ∨
      r.1 + r.2 ≤ m.memusagePage := by
    by_contra hcon
    -- a page in both would be covered twice
    obtain ⟨i, h3, h4⟩ : ∃ i, (m.memusagePage ≤ i ∧
        i < m.memusagePage + Slab.usagePages (m.heapEnd - m.heapStart)) ∧
        r.1 ≤ i ∧ i < r.1 + r.2 := ⟨max m.memusagePage r.1, by omega, by omega⟩
    have h5 := h.cover_le i
    rw [SlabLists.owned, cover_cons] at h5
    have h6 : 0 < inRun (m.memusagePage, Slab.usagePages (m.heapEnd - m.heapStart)) i :=
      inRun_pos.mpr h3
    have hr' : r ∈ g.larges ++ g.all.map fun z => (z, m.zonePageCnt) := by
      rcases List.mem_append.mp hr with hr | hr
      · exact List.mem_append_left _ hr
      · obtain ⟨z, hz, rfl⟩ := List.mem_map.mp hr
        exact List.mem_append_right _ (List.mem_map.mpr ⟨z, List.mem_append_left _ hz, rfl⟩)
    have h7 : 0 < cover (g.larges ++ g.all.map fun z => (z, m.zonePageCnt)) i :=
      cover_pos.mpr ⟨r, hr', h4⟩
    omega
  rcases hap with hap | hap
  · refine .inl (Nat.le_trans ?_ h1)
    have h3 := Nat.mul_le_mul_right rtMmPageSize hap
    rw [Nat.add_mul] at h3
    exact Nat.le_trans (Nat.add_le_add_left hbytes _) h3
  · exact .inr (Nat.le_trans h2 (Nat.mul_le_mul_right _ hap))

/-- **Main result.** After every sequence of calls the callers' blocks are apart from one another,
inside the heap and apart from everything the heap keeps in its memory, and the lists of pages, zones
and chunks are what the counters and the array say. -/
theorem slab_heap {sizeofSlab : ℕ} {s : SlabState}
    (hs : (slabSystem sizeofSlab).Reach System.anyStep s) : ∃ g, SlabHeap s g := by
  have h : s.Inv := hs.invariant (I := SlabState.Inv) (fun _ h0 => SlabState.Start.inv h0)
    fun _ _ _ hI _ hst => SlabState.Inv.step hI hst
  obtain ⟨g, hg, hsp, hl⟩ := id h
  have hlive : ∀ p, s.live p ≠ none → Block s.heap g p (s.heap.blockSize p) := fun p hp => by
    obtain ⟨n, hb⟩ := SlabState.Inv.owns hl (Option.isSome_iff_ne_none.mpr hp)
    rw [hg.blockSize_eq hb]
    exact hb
  refine ⟨g, fun p => ⟨fun hp => ⟨_, hlive p hp⟩, fun ⟨n, hb⟩ => hl.live p n hb⟩,
    fun p n hp => ?_, fun p hp => hg.block_range (hlive p hp),
    fun p q hp hq => hg.block_disjoint (hlive p hp) (hlive q hq),
    fun z hz p hp => hg.header_block (hlive p hp) (SlabInv.zones_cache hz),
    fun p hp => hg.table_block (hlive p hp), hg.pages.list,
    fun r hr p hp => hg.run_block (hlive p hp) hr, hg.pages.pages, hsp,
    fun z hz => ⟨(hg.zone z hz).list, (hg.zone z hz).nfree⟩,
    fun zi => ⟨hg.avail.list zi, (hg.avail.list zi).nodup, hg.avail.mem zi⟩,
    ⟨hg.cache, hg.cnt, hg.cnt_le⟩, fun size => ?_, fun ptr size hown => ?_, fun ptr hown => ?_⟩
  · obtain ⟨size, h1, h2⟩ := hl.fits p n hp
    rw [hg.blockSize_eq h1]
    exact h2
  · obtain ⟨r, h1, -⟩ := h.alloc size.toNat_lt
    exact ⟨_, congrArg (Option.map _) h1⟩
  · obtain ⟨r, h1, -⟩ := h.realloc hown size.toNat_lt
    exact ⟨_, (if_pos hown).trans (congrArg (Option.map _) h1)⟩
  · obtain ⟨m, h1, -⟩ := h.free hown
    exact ⟨_, (if_pos hown).trans (congrArg (Option.map _) h1)⟩

/-- A memory that has never been written to. -/
def slabMemory : Slab where
  heapStart := 0
  heapEnd := 0
  memusagePage := 0
  memusage _ := ⟨.other, 0⟩
  zoneArray _ := none
  zoneFree := none
  zoneFreeCnt := 0
  zoneSize := 0
  zoneLimit := 0
  zonePageCnt := 0
  pages := ⟨none, fun _ => none, fun _ => 0⟩
  zone _ := ⟨0, 0, 0, none, 0, 0, 0, 0, none⟩
  chunk _ := none
  used := 0
  max := 0

/-- A fresh heap of 63 pages. -/
def slab63 : SlabState where
  heap := (slabMemory.slabInit 364 0x1000 0x40000).get (by decide)
  live _ := none

theorem slab63_start : SlabState.Start 364 slab63 :=
  ⟨slabMemory, 0x1000, 0x40000, Option.eq_some_of_isSome (by decide), rfl⟩

/-- The first of two zones is emptied, kept as a free one and used for another size. -/
theorem slab_heap_recycled : ∃ s : SlabState,
    (s.heap.zoneFreeCnt = 0 ∧ s.live 0x3028 = some 40 ∧ (s.heap.zone 3).chunksize = 40 ∧
      s.live 0x13000 = some 20000) ∧ ∃ g, SlabHeap s g := by
  obtain ⟨s, hs, hp⟩ := (slabSystem 364).exists_reach System.anyStep
    (fun s => decide (s.heap.zoneFreeCnt = 0 ∧ s.live 0x3028 = some 40 ∧
      (s.heap.zone 3).chunksize = 40 ∧ s.live 0x13000 = some 20000)) slab63_start
    [.alloc 8000, .alloc 8000, .alloc 8000, .alloc 8000, .free (some 0x5000), .free (some 0x7000),
      .free (some 0x9000), .alloc 40, .alloc 20000] (by decide)
  exact ⟨s, of_decide_eq_true hp, slab_heap hs⟩

end RtThread
