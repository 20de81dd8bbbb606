import Mathlib.Data.List.Perm.Subperm
import RtThread.Memory.Slab

/-!
# What holds of the slab heap

* `SlabLists`: the lists behind the records of a slab heap; `SlabInv`: how they fit together;
* `Block m g p n`: at `p` there is a block of `n` bytes that a caller has;
* **`SlabInv.alloc`**, **`SlabInv.free`**, **`SlabInv.realloc`**: what the operations do to the lists
  and to the blocks.
-/

namespace RtThread

/-- The free runs of pages, the large blocks by page and number of pages, the zones in use, the free
ones, those that are on the way from one list to another, the zones of an index that have free chunks,
and the chunks freed in a zone. -/
structure SlabLists where
  runs : List (ℕ × ℕ)
  larges : List (ℕ × ℕ)
  zones : List ℕ
  cache : List ℕ
  spare : List ℕ
  avail : ℕ → List ℕ
  freed : ℕ → List ℕ

/-- The address of a chunk. -/
def SlabZone.chunkAt (hdr : SlabZone) (j : ℕ) : ℕ := hdr.baseptr + j * hdr.chunksize

/-- A chunk that is handed out: it has been used and is not free again. -/
def SlabZone.LiveChunk (hdr : SlabZone) (fl : List ℕ) (p : ℕ) : Prop :=
  (∃ j, j ≤ hdr.uindex ∧ p = hdr.chunkAt j) ∧ p ∉ fl

/-- The header of a zone, and its list of free chunks. -/
structure ZoneOk (zoneSize z : ℕ) (hdr : SlabZone) (chunk : ℕ → Option ℕ) (fl : List ℕ) :
    Prop where
  index : hdr.zoneindex < rtSlabNzones
  size : hdr.chunksize = chunkOf hdr.zoneindex
  base : hdr.baseptr = z * rtMmPageSize + Slab.chunkOffset hdr.chunksize
  stop : hdr.baseptr + hdr.nmax * hdr.chunksize ≤ z * rtMmPageSize + zoneSize
  uindex : hdr.uindex < hdr.nmax
  nfree : hdr.nfree = hdr.nmax - 1 - hdr.uindex + fl.length
  list : NextChain chunk hdr.freechunk fl
  mem : ∀ a ∈ fl, ∃ j, j ≤ hdr.uindex ∧ a = hdr.chunkAt j

/-- The links of the zone lists. -/
def zoneNext (zone : ℕ → SlabZone) (z : ℕ) : Option ℕ := (zone z).next

/-- `zone_array` lists, for every index, the zones of the index that have free chunks. -/
structure AvailOk (zone : ℕ → SlabZone) (array : ℕ → Option ℕ) (zones : List ℕ)
    (avail : ℕ → List ℕ) : Prop where
  list : ∀ zi, NextChain (zoneNext zone) (array zi) (avail zi)
  mem : ∀ zi z, z ∈ avail zi ↔ z ∈ zones ∧ (zone z).zoneindex = zi ∧ 0 < (zone z).nfree

namespace Slab

/-- The bytes of the block at `p`, as `rt_slab_realloc` finds them. -/
def blockSize (m : Slab) (p : ℕ) : ℕ :=
  let kup := m.memusage (m.btokup p)
  if kup.type = .large then kup.size * rtMmPageSize
  else (m.zone (p / rtMmPageSize - kup.size)).chunksize

/-- The page list has a run of as many pages. -/
def HasRun (m : Slab) (n : ℕ) : Prop :=
  ∃ l, m.pages.FreeList m.pages.pageList l ∧ ∃ r ∈ l, n ≤ r.2

/-- `rt_slab_alloc` has what is asked for. -/
def Available (m : Slab) (size : ℕ) : Prop :=
  size ≠ 0 ∧
    if size ≥ m.zoneLimit then
      alignTo size rtMmPageSize ≠ 0 ∧ m.HasRun (alignTo size rtMmPageSize / rtMmPageSize)
    else m.zoneArray (zoneindex size).1 ≠ none ∨ m.zoneFree ≠ none ∨ m.HasRun m.zonePageCnt

/-- The bytes of the block for a request. -/
def given (m : Slab) (size : ℕ) : ℕ :=
  if size ≥ m.zoneLimit then alignTo size rtMmPageSize else (zoneindex size).2

/-- The sizes that `rt_slab_init` chooses. -/
structure Shape (m : Slab) : Prop where
  pages : m.zoneSize = m.zonePageCnt * rtMmPageSize
  limit : m.zoneLimit = 8192 ∨ m.zoneLimit = 16384
  size : 4 * m.zoneLimit ≤ m.zoneSize
  cnt : m.zonePageCnt ≤ 32

end Slab

namespace SlabLists

variable (g : SlabLists) (m : Slab)

/-- All zones. -/
def all : List ℕ := g.zones ++ (g.cache ++ g.spare)

/-- The runs of pages that are in use. -/
def owned : List (ℕ × ℕ) :=
  (m.memusagePage, Slab.usagePages (m.heapEnd - m.heapStart)) ::
    (g.larges ++ g.all.map fun z => (z, m.zonePageCnt))

/-- The heap as seen by the page allocator. -/
def pageState : PageState where
  heapStart := m.heapStart
  heapEnd := m.heapEnd
  slab := m.pages
  held := cover (g.owned m)

end SlabLists

/-- **The invariant of the slab heap**, with at most `k` free zones. -/
structure SlabInv (k : ℕ) (m : Slab) (g : SlabLists) : Prop where
  shape : m.Shape
  pages : (g.pageState m).Inv g.runs
  large : ∀ r ∈ g.larges, 0 < r.2 ∧ m.memusage (r.1 - m.heapStart) = ⟨.large, r.2⟩
  small : ∀ z ∈ g.all, ∀ i, i < m.zonePageCnt →
    m.memusage (z + i - m.heapStart) = ⟨.small, i⟩
  magic : ∀ z ∈ g.zones, (m.zone z).magic = zallocSlabMagic
  zone : ∀ z ∈ g.zones ++ g.cache, ZoneOk m.zoneSize z (m.zone z) m.chunk (g.freed z)
  avail : AvailOk m.zone m.zoneArray g.zones g.avail
  cache : NextChain (zoneNext m.zone) m.zoneFree g.cache
  cnt : m.zoneFreeCnt = g.cache.length
  cnt_le : g.cache.length ≤ k
  k_le : k ≤ 3

/-- At `p` there is a block of `n` bytes that a caller has. -/
def Block (m : Slab) (g : SlabLists) (p n : ℕ) : Prop :=
  (∃ r ∈ g.larges, p = r.1 * rtMmPageSize ∧ n = r.2 * rtMmPageSize) ∨
    ∃ z ∈ g.zones, (m.zone z).LiveChunk (g.freed z) p ∧ n = (m.zone z).chunksize

/-! ## Where things lie -/

section

variable {k : ℕ} {m : Slab} {g : SlabLists} {z z' p n q i : ℕ} {r r' : ℕ × ℕ} {hdr : SlabZone}
  {fl : List ℕ} {chunk chunk' : ℕ → Option ℕ} {zoneSize : ℕ}

theorem Slab.Shape.cnt_pos (h : m.Shape) : 0 < m.zonePageCnt := by
  have h1 := h.pages
  have h2 := h.size
  have h3 := h.limit
  rcases Nat.eq_zero_or_pos m.zonePageCnt with h0 | h0
  · rw [h0, Nat.zero_mul] at h1
    omega
  · exact h0

namespace SlabInv

theorem zoneOk (h : SlabInv k m g) (hz : z ∈ g.zones) :
    ZoneOk m.zoneSize z (m.zone z) m.chunk (g.freed z) :=
  h.zone z (List.mem_append_left _ hz)

theorem zones_cache (hz : z ∈ g.zones ++ g.cache) : z ∈ g.all := by
  rw [SlabLists.all, ← List.append_assoc]
  exact List.mem_append_left _ hz

theorem cover_le (h : SlabInv k m g) (i : ℕ) : cover (g.owned m) i ≤ 1 := by
  have h1 := h.pages.pages i
  have h2 : (g.pageState m).held i = cover (g.owned m) i := rfl
  rw [h2] at h1
  split_ifs at h1 <;> omega

theorem zone_owned (hz : z ∈ g.all) : (z, m.zonePageCnt) ∈ g.owned m :=
  List.mem_cons_of_mem _ (List.mem_append_right _ (List.mem_map.mpr ⟨z, hz, rfl⟩))

theorem large_owned (hr : r ∈ g.larges) : r ∈ g.owned m :=
  List.mem_cons_of_mem _ (List.mem_append_left _ hr)

/-- What is in use lies in the heap. -/
theorem owned_range (h : SlabInv k m g) (hr : r ∈ g.owned m) (hpos : 0 < r.2) :
    m.heapStart ≤ r.1 ∧ r.1 + r.2 ≤ m.heapEnd := by
  have hin : ∀ i, r.1 ≤ i → i < r.1 + r.2 → m.heapStart ≤ i ∧ i < m.heapEnd := fun i h1 h2 => by
    have h3 : 0 < (g.pageState m).held i := cover_pos.mpr ⟨r, hr, h1, h2⟩
    have h4 := h.pages.held_cover h3
    exact ⟨h4.1, h4.2.1⟩
  have h1 := hin r.1 (Nat.le_refl _) (by omega)
  have h2 := hin (r.1 + r.2 - 1) (by omega) (by omega)
  omega

/-- Different runs in use have no page in common. -/
theorem owned_disjoint (h : SlabInv k m g) (hr : r ∈ g.owned m) (hr' : r' ∈ g.owned m)
    (hne : r ≠ r') (hpos : 0 < r.2) (hpos' : 0 < r'.2) : r.1 + r.2 ≤ r'.1 ∨ r'.1 + r'.2 ≤ r.1 :=
  apart_of_cover h.cover_le hr hr' hne hpos hpos'

theorem zone_range (h : SlabInv k m g) (hz : z ∈ g.all) :
    m.heapStart ≤ z ∧ z + m.zonePageCnt ≤ m.heapEnd :=
  h.owned_range (zone_owned hz) h.shape.cnt_pos

theorem zone_disjoint (h : SlabInv k m g) (hz : z ∈ g.all)
    (hz' : z' ∈ g.all) (hne : z ≠ z') :
    z + m.zonePageCnt ≤ z' ∨ z' + m.zonePageCnt ≤ z :=
  h.owned_disjoint (zone_owned hz) (zone_owned hz') (fun e => hne (congrArg Prod.fst e))
    h.shape.cnt_pos h.shape.cnt_pos

theorem large_range (h : SlabInv k m g) (hr : r ∈ g.larges) :
    m.heapStart ≤ r.1 ∧ r.1 + r.2 ≤ m.heapEnd :=
  h.owned_range (large_owned hr) (h.large r hr).1

/-- No page is listed as in use twice. -/
theorem owned_nodup (h : SlabInv k m g) :
    (g.larges ++ g.all.map fun z => (z, m.zonePageCnt)).Nodup := by
  refine nodup_of_cover (fun i => ?_) fun r hr => ?_
  · have := h.cover_le i
    rw [SlabLists.owned, cover_cons] at this
    omega
  · rcases List.mem_append.mp hr with hr | hr
    · exact (h.large r hr).1
    · obtain ⟨z, -, rfl⟩ := List.mem_map.mp hr
      exact h.shape.cnt_pos

theorem zones_nodup (h : SlabInv k m g) : (g.all).Nodup :=
  (List.nodup_append.mp h.owned_nodup).2.1.of_map _

theorem not_cache (h : SlabInv k m g) (hz : z ∈ g.zones) : z ∉ g.cache := fun hc =>
  (List.nodup_append.mp h.zones_nodup).2.2 z hz z (List.mem_append_left _ hc) rfl

/-- A large block and a zone have no page in common. -/
theorem large_zone (h : SlabInv k m g) (hr : r ∈ g.larges) (hz : z ∈ g.all) :
    r.1 + r.2 ≤ z ∨ z + m.zonePageCnt ≤ r.1 := by
  refine h.owned_disjoint (large_owned hr) (zone_owned hz) (fun e => ?_) (h.large r hr).1
    h.shape.cnt_pos
  exact (List.nodup_append.mp h.owned_nodup).2.2 r hr (z, m.zonePageCnt)
    (List.mem_map.mpr ⟨z, hz, rfl⟩) e

theorem large_large (h : SlabInv k m g) (hr : r ∈ g.larges) (hr' : r' ∈ g.larges) (hne : r ≠ r') :
    r.1 + r.2 ≤ r'.1 ∨ r'.1 + r'.2 ≤ r.1 :=
  h.owned_disjoint (large_owned hr) (large_owned hr') hne (h.large r hr).1 (h.large r' hr').1

end SlabInv

/-- The chunks of a zone start behind its header, at most a chunk further than that. -/
theorem chunkOffset_bounds {size : ℕ} (h0 : 0 < size) (h : size ≤ 16384) :
    sizeofSlabZone ≤ Slab.chunkOffset size ∧ Slab.chunkOffset size < sizeofSlabZone + size + 8 := by
  have hz : sizeofSlabZone = 36 := rfl
  rw [Slab.chunkOffset]
  split_ifs
  · obtain ⟨q, -, h2, h3, h4⟩ := alignTo_class sizeofSlabZone h0 (by omega)
    omega
  · have h8 : alignTo sizeofSlabZone minChunkSize = 40 := by decide
    omega

namespace ZoneOk

theorem size_pos (h : ZoneOk zoneSize z hdr chunk fl) : minChunkSize ≤ hdr.chunksize := by
  rw [h.size]
  exact chunkOf_pos _

theorem size_le (h : ZoneOk zoneSize z hdr chunk fl) : hdr.chunksize ≤ 16384 := by
  rw [h.size]
  exact chunkOf_le h.index

theorem base_le (h : ZoneOk zoneSize z hdr chunk fl) :
    z * rtMmPageSize + sizeofSlabZone ≤ hdr.baseptr := by
  have hpos := h.size_pos
  have hm : minChunkSize = 8 := rfl
  rw [h.base]
  exact Nat.add_le_add_left (chunkOffset_bounds (by omega) h.size_le).1 _

/-- The chunks lie in the zone, behind its header. -/
theorem chunk_range (h : ZoneOk zoneSize z hdr chunk fl) {j : ℕ} (hj : j < hdr.nmax) :
    z * rtMmPageSize + sizeofSlabZone ≤ hdr.chunkAt j ∧
      hdr.chunkAt j + hdr.chunksize ≤ z * rtMmPageSize + zoneSize := by
  have h1 := h.base_le
  have h2 := h.stop
  have h3 := Nat.mul_le_mul_right hdr.chunksize (Nat.succ_le_of_lt hj)
  rw [Nat.succ_mul] at h3
  rw [SlabZone.chunkAt]
  omega

/-- Different chunks have no byte in common. -/
theorem chunk_disjoint (hdr : SlabZone) {i j : ℕ} (hij : i < j) :
    hdr.chunkAt i + hdr.chunksize ≤ hdr.chunkAt j := by
  have h3 := Nat.mul_le_mul_right hdr.chunksize (Nat.succ_le_of_lt hij)
  rw [Nat.succ_mul] at h3
  rw [SlabZone.chunkAt, SlabZone.chunkAt]
  omega

theorem chunk_inj (h : ZoneOk zoneSize z hdr chunk fl) {i j : ℕ}
    (he : hdr.chunkAt i = hdr.chunkAt j) : i = j := by
  have hpos := h.size_pos
  have hm : minChunkSize = 8 := rfl
  rcases Nat.lt_trichotomy i j with hlt | heq | hgt
  · have := chunk_disjoint hdr hlt
    omega
  · exact heq
  · have := chunk_disjoint hdr hgt
    omega

theorem live_range (h : ZoneOk zoneSize z hdr chunk fl) (hp : hdr.LiveChunk fl p) :
    z * rtMmPageSize + sizeofSlabZone ≤ p ∧ p + hdr.chunksize ≤ z * rtMmPageSize + zoneSize := by
  obtain ⟨⟨j, hj, rfl⟩, -⟩ := hp
  have := h.uindex
  exact h.chunk_range (by omega)

theorem free_range (h : ZoneOk zoneSize z hdr chunk fl) (hp : p ∈ fl) :
    z * rtMmPageSize + sizeofSlabZone ≤ p ∧ p + hdr.chunksize ≤ z * rtMmPageSize + zoneSize := by
  obtain ⟨j, hj, rfl⟩ := h.mem p hp
  have := h.uindex
  exact h.chunk_range (by omega)

/-- Only the links of the zone's own free chunks matter. -/
theorem frame (h : ZoneOk zoneSize z hdr chunk fl) (hc : ∀ a ∈ fl, chunk' a = chunk a) :
    ZoneOk zoneSize z hdr chunk' fl :=
  { h with list := h.list.frame hc }

end ZoneOk

namespace SlabInv

/-- The usage entry for an address in a zone. -/
theorem usage_zone (h : SlabInv k m g) (hz : z ∈ g.all) (hp : z * rtMmPageSize ≤ p)
    (hp' : p < z * rtMmPageSize + m.zoneSize) :
    m.memusage (m.btokup p) = ⟨.small, p / rtMmPageSize - z⟩ ∧ z ≤ p / rtMmPageSize := by
  have h1 := h.shape.pages
  have h2 : z ≤ p / rtMmPageSize := by
    simp only [rtMmPageSize] at hp ⊢
    omega
  have h3 : p / rtMmPageSize - z < m.zonePageCnt := by
    simp only [rtMmPageSize] at h1 h2 hp' ⊢
    omega
  have h4 := h.small z hz _ h3
  have h5 : z + (p / rtMmPageSize - z) = p / rtMmPageSize := by omega
  rw [h5] at h4
  exact ⟨h4, h2⟩

theorem usage_large (h : SlabInv k m g) (hr : r ∈ g.larges) :
    m.memusage (m.btokup (r.1 * rtMmPageSize)) = ⟨.large, r.2⟩ := by
  rw [Slab.btokup, Nat.mul_div_cancel _ (by decide)]
  exact (h.large r hr).2

/-- The zone of a chunk. -/
theorem zone_of (h : SlabInv k m g) (hz : z ∈ g.zones)
    (hp : (m.zone z).LiveChunk (g.freed z) p) :
    (m.memusage (m.btokup p)).type = .small ∧
      p / rtMmPageSize - (m.memusage (m.btokup p)).size = z := by
  have hr := (h.zoneOk hz).live_range hp
  have hpos := (h.zoneOk hz).size_pos
  have hm : minChunkSize = 8 := rfl
  obtain ⟨h1, h2⟩ := h.usage_zone (p := p) (List.mem_append_left _ hz) (by omega) (by omega)
  rw [h1]
  dsimp only
  exact ⟨rfl, by omega⟩

/-- **The code finds the size of every block.** -/
theorem blockSize_eq (h : SlabInv k m g) (hb : Block m g p n) : m.blockSize p = n := by
  rcases hb with ⟨r, hr, rfl, rfl⟩ | ⟨z, hz, hp, rfl⟩
  · simp only [Slab.blockSize]
    rw [h.usage_large hr, if_pos rfl]
  · obtain ⟨h1, h2⟩ := h.zone_of hz hp
    simp only [Slab.blockSize]
    rw [if_neg (by rw [h1]; decide), h2]

theorem block_unique (h : SlabInv k m g) {n' : ℕ} (hb : Block m g p n) (hb' : Block m g p n') :
    n = n' :=
  (h.blockSize_eq hb).symm.trans (h.blockSize_eq hb')

theorem block_pos (h : SlabInv k m g) (hb : Block m g p n) : 0 < n := by
  rcases hb with ⟨r, hr, rfl, rfl⟩ | ⟨z, hz, hp, rfl⟩
  · exact Nat.mul_pos (h.large r hr).1 (by decide)
  · exact Nat.lt_of_lt_of_le (by decide) (h.zoneOk hz).size_pos

/-- **Blocks lie in the heap.** -/
theorem block_range (h : SlabInv k m g) (hb : Block m g p n) :
    m.heapStart * rtMmPageSize ≤ p ∧ p + n ≤ m.heapEnd * rtMmPageSize := by
  rcases hb with ⟨r, hr, rfl, rfl⟩ | ⟨z, hz, hp, rfl⟩
  · obtain ⟨h1, h2⟩ := h.large_range hr
    rw [← Nat.add_mul]
    exact ⟨Nat.mul_le_mul_right _ h1, Nat.mul_le_mul_right _ h2⟩
  · obtain ⟨h1, h2⟩ := h.zone_range (List.mem_append_left _ hz)
    obtain ⟨h3, h4⟩ := (h.zoneOk hz).live_range hp
    have h5 := h.shape.pages
    simp only [rtMmPageSize] at *
    omega

/-- Every block lies in the pages of a large block or of a zone in use. -/
theorem block_owned (h : SlabInv k m g) (hb : Block m g p n) :
    ∃ r ∈ g.larges ++ g.zones.map (fun z => (z, m.zonePageCnt)), 0 < r.2 ∧
    r.1 * rtMmPageSize ≤ p ∧ p + n ≤ (r.1 + r.2) * rtMmPageSize := by
  rcases hb with ⟨r, hr, rfl, rfl⟩ | ⟨z, hz, hp, rfl⟩
  · exact ⟨r, List.mem_append_left _ hr, (h.large r hr).1, Nat.le_refl _,
      Nat.le_of_eq (Nat.add_mul _ _ _).symm⟩
  · refine ⟨_, List.mem_append_right _ (List.mem_map.mpr ⟨z, hz, rfl⟩), h.shape.cnt_pos, ?_⟩
    have h3 := (h.zoneOk hz).live_range hp
    have h5 := h.shape.pages
    rw [Nat.add_mul, ← h5]
    exact ⟨Nat.le_trans (Nat.le_add_right _ _) h3.1, h3.2⟩

theorem block_owned_mem (hr : r ∈ g.larges ++ g.zones.map (fun z => (z, m.zonePageCnt))) :
    r ∈ g.owned m := by
  rcases List.mem_append.mp hr with hr | hr
  · exact large_owned hr
  · obtain ⟨z, hz, rfl⟩ := List.mem_map.mp hr
    exact zone_owned (List.mem_append_left _ hz)

/-- In a zone in use only its own chunks are blocks. -/
theorem not_block (h : SlabInv k m g) (hz : z ∈ g.zones) (hp : z * rtMmPageSize ≤ p)
    (hp' : p < z * rtMmPageSize + m.zoneSize) (hl : ¬ (m.zone z).LiveChunk (g.freed z) p) (n : ℕ) :
    ¬ Block m g p n := by
  have h5 := h.shape.pages
  rintro (⟨r, hr, rfl, rfl⟩ | ⟨y, hy, hb, rfl⟩)
  · have h1 := h.large_zone hr (List.mem_append_left _ hz)
    have h2 := (h.large r hr).1
    simp only [rtMmPageSize] at *
    omega
  · by_cases hyz : y = z
    · subst hyz
      exact hl hb
    · have h1 := (h.zoneOk hy).live_range hb
      have h2 := h.zone_disjoint (List.mem_append_left _ hz) (List.mem_append_left _ hy)
        fun e => hyz e.symm
      have h3 := (h.zoneOk hy).size_pos
      simp only [rtMmPageSize] at *
      have hm : minChunkSize = 8 := rfl
      omega

/-- **Different blocks have no byte in common.** -/
theorem block_disjoint (h : SlabInv k m g) {n' : ℕ} (hb : Block m g p n) (hb' : Block m g q n')
    (hne : p ≠ q) : p + n ≤ q ∨ q + n' ≤ p := by
  have hsz := h.shape.pages
  have hzl : ∀ {z r}, z ∈ g.zones → r ∈ g.larges → ∀ {a}, (m.zone z).LiveChunk (g.freed z) a →
      a + (m.zone z).chunksize ≤ r.1 * rtMmPageSize ∨
        r.1 * rtMmPageSize + r.2 * rtMmPageSize ≤ a := fun {z r} hz hr a ha => by
    have h1 := (h.zoneOk hz).live_range ha
    have h2 := h.large_zone hr (List.mem_append_left _ hz)
    simp only [rtMmPageSize] at *
    omega
  rcases hb with ⟨r, hr, rfl, rfl⟩ | ⟨z, hz, hp, rfl⟩ <;>
    rcases hb' with ⟨r', hr', rfl, rfl⟩ | ⟨z', hz', hp', rfl⟩
  · have h1 := h.large_large hr hr' fun e => hne (by rw [e])
    simp only [rtMmPageSize] at *
    omega
  · have h1 := hzl hz' hr hp'
    omega
  · exact hzl hz hr' hp
  · by_cases hzz : z = z'
    · subst hzz
      obtain ⟨⟨i, -, rfl⟩, -⟩ := hp
      obtain ⟨⟨j, -, rfl⟩, -⟩ := hp'
      rcases Nat.lt_trichotomy i j with hlt | rfl | hgt
      · exact .inl (ZoneOk.chunk_disjoint _ hlt)
      · exact absurd rfl hne
      · exact .inr (ZoneOk.chunk_disjoint _ hgt)
    · have h1 := (h.zoneOk hz).live_range hp
      have h2 := (h.zoneOk hz').live_range hp'
      have h3 := h.zone_disjoint (List.mem_append_left _ hz) (List.mem_append_left _ hz') hzz
      simp only [rtMmPageSize] at *
      omega

end SlabInv

end

/-! ## The lists of zones -/

namespace AvailOk

variable {zone : ℕ → SlabZone} {array : ℕ → Option ℕ} {zones zones' : List ℕ} {avail : ℕ → List ℕ}
  {z zi : ℕ} {hdr : SlabZone}

theorem zoneNext_update (zone : ℕ → SlabZone) (z : ℕ) (hdr : SlabZone) :
    zoneNext (Function.update zone z hdr) = Function.update (zoneNext zone) z hdr.next := by
  funext y
  by_cases hy : y = z
  · rw [hy, zoneNext, Function.update_self, Function.update_self]
  · rw [zoneNext, Function.update_of_ne hy, Function.update_of_ne hy, zoneNext]

/-- A list that does not contain a zone does not see its header. -/
theorem frame_update {h : Option ℕ} {l : List ℕ} (hl : NextChain (zoneNext zone) h l) (hz : z ∉ l)
    (hdr : SlabZone) : NextChain (zoneNext (Function.update zone z hdr)) h l := by
  rw [zoneNext_update]
  refine hl.frame fun y hy => ?_
  have hne : y ≠ z := fun e => hz (e ▸ hy)
  rw [Function.update_of_ne hne]

/-- The list of a zone of another index. -/
theorem not_mem (ha : AvailOk zone array zones avail) {zi' : ℕ} (hne : (zone z).zoneindex ≠ zi') :
    z ∉ avail zi' :=
  fun hz => hne ((ha.mem zi' z).mp hz).2.1

/-- **A zone keeps its place.** -/
theorem keep (ha : AvailOk zone array zones avail) (hnext : hdr.next = (zone z).next)
    (hi : hdr.zoneindex = (zone z).zoneindex) (hf : 0 < hdr.nfree ↔ 0 < (zone z).nfree) :
    AvailOk (Function.update zone z hdr) array zones avail where
  list zi := by
    rw [zoneNext_update, hnext]
    change NextChain (Function.update (zoneNext zone) z (zoneNext zone z)) _ _
    rw [Function.update_eq_self]
    exact ha.list zi
  mem zi y := by
    rw [ha.mem]
    by_cases hy : y = z
    · rw [hy, Function.update_self, hi, hf]
    · rw [Function.update_of_ne hy]

/-- **The first zone of a list has become full.** -/
theorem pop (ha : AvailOk zone array zones avail) (hz : array zi = some z)
    (hf : hdr.nfree = 0) :
    AvailOk (Function.update zone z hdr) (Function.update array zi (zone z).next) zones
      (Function.update avail zi (avail zi).tail) := by
  have hl := ha.list zi
  rw [hz] at hl
  obtain ⟨t, ht, hc⟩ := hl.pop
  have hzi : (zone z).zoneindex = zi := ((ha.mem zi z).mp (by rw [ht]; simp)).2.1
  have hnd := hl.nodup
  rw [ht] at hnd
  have hzt : z ∉ t := (List.nodup_cons.mp hnd).1
  refine ⟨fun zj => ?_, fun zj y => ?_⟩
  · by_cases hj : zj = zi
    · rw [hj, Function.update_self, Function.update_self, ht]
      exact frame_update hc hzt hdr
    · rw [Function.update_of_ne hj, Function.update_of_ne hj]
      exact frame_update (ha.list zj) (ha.not_mem fun e => hj (e.symm.trans hzi)) hdr
  · by_cases hy : y = z
    · rw [hy, Function.update_self, hf]
      refine ⟨fun hm => absurd hm ?_, fun hm => absurd hm.2.2 (Nat.lt_irrefl 0)⟩
      by_cases hj : zj = zi
      · rw [hj, Function.update_self, ht]
        exact hzt
      · rw [Function.update_of_ne hj]
        exact ha.not_mem fun e => hj (e.symm.trans hzi)
    · rw [Function.update_of_ne hy]
      by_cases hj : zj = zi
      · rw [hj, Function.update_self, ← ha.mem, ht]
        simp [hy]
      · rw [Function.update_of_ne hj, ha.mem]

/-- **A zone comes to the head of the list of its index.** -/
theorem push (ha : AvailOk zone array zones avail) (hz : ∀ zj, z ∉ avail zj)
    (hnext : hdr.next = array zi) (hi : hdr.zoneindex = zi) (hf : 0 < hdr.nfree)
    (hzones : ∀ y, y ∈ zones' ↔ y = z ∨ y ∈ zones) :
    AvailOk (Function.update zone z hdr) (Function.update array zi (some z)) zones'
      (Function.update avail zi (z :: avail zi)) := by
  refine ⟨fun zj => ?_, fun zj y => ?_⟩
  · by_cases hj : zj = zi
    · rw [hj, Function.update_self, Function.update_self]
      refine .cons ?_
      rw [zoneNext, Function.update_self, hnext]
      exact frame_update (ha.list zi) (hz zi) hdr
    · rw [Function.update_of_ne hj, Function.update_of_ne hj]
      exact frame_update (ha.list zj) (hz zj) hdr
  · rw [hzones]
    by_cases hy : y = z
    · rw [hy, Function.update_self]
      by_cases hj : zj = zi
      · rw [hj, Function.update_self]
        simp [hi, hf]
      · rw [Function.update_of_ne hj]
        exact ⟨fun hm => absurd hm (hz zj), fun hm => absurd (hm.2.1.symm.trans hi) hj⟩
    · rw [Function.update_of_ne hy]
      have hor : y = z ∨ y ∈ zones ↔ y ∈ zones := by simp [hy]
      rw [hor, ← ha.mem]
      by_cases hj : zj = zi
      · rw [hj, Function.update_self]
        simp [hy]
      · rw [Function.update_of_ne hj]

/-- **The header of a zone that is not in use.** -/
theorem outside (ha : AvailOk zone array zones avail) (hz : z ∉ zones) (hdr : SlabZone) :
    AvailOk (Function.update zone z hdr) array zones avail := by
  have hza : ∀ zi, z ∉ avail zi := fun zi hm => hz ((ha.mem zi z).mp hm).1
  refine ⟨fun zi => frame_update (ha.list zi) (hza zi) hdr, fun zi y => ?_⟩
  by_cases hy : y = z
  · rw [hy]
    exact ⟨fun hm => absurd hm (hza zi), fun hm => absurd hm.1 hz⟩
  · rw [Function.update_of_ne hy, ha.mem]

/-- **The first zone of a list has one free chunk less.** -/
theorem dec (ha : AvailOk zone array zones avail) (hz : array zi = some z)
    (hi : hdr.zoneindex = zi) (hf : hdr.nfree + 1 = (zone z).nfree)
    (hnext : hdr.nfree ≠ 0 → hdr.next = (zone z).next) : ∃ avail', AvailOk
      (Function.update zone z hdr)
      (if hdr.nfree = 0 then Function.update array zi (zone z).next else array) zones avail' := by
  by_cases h0 : hdr.nfree = 0
  · rw [if_pos h0]
    exact ⟨_, ha.pop hz h0⟩
  · rw [if_neg h0]
    have hl := ha.list zi
    rw [hz] at hl
    obtain ⟨t, ht, -⟩ := hl.pop
    have hzi := ((ha.mem zi z).mp (by rw [ht]; simp)).2.1
    exact ⟨_, ha.keep (hnext h0) (hi.trans hzi.symm) (by omega)⟩

end AvailOk

/-! ## Allocation -/

namespace SlabInv

variable {k : ℕ} {m : Slab} {g : SlabLists} {z p n q i size zi : ℕ} {r : ℕ × ℕ} {hdr : SlabZone}
  {fl : List ℕ} {array : ℕ → Option ℕ} {avail : ℕ → List ℕ} {runs : List (ℕ × ℕ)}

/-- **Pages for a new block or zone** have been free. -/
theorem pageAlloc (h : SlabInv k m g) (hn : n ≠ 0) :
    (¬ m.HasRun n ∧ m.pages.pageAlloc n = some (none, m.pages)) ∨
      m.HasRun n ∧ ∃ p pages runs, m.pages.pageAlloc n = some (some p, pages) ∧
        pages.FreeList pages.pageList runs ∧ Runs m.heapStart runs ∧
        ∀ i, cover g.runs i = cover runs i + inRun (p, n) i := by
  have hl : m.pages.FreeList m.pages.pageList g.runs := h.pages.list
  have := SlabPages.pageAlloc_spec hl h.pages.runs h.pages.run_lt hn
  cases ht : takeRuns n g.runs with
  | none =>
    rw [ht] at this
    refine .inl ⟨?_, this⟩
    rintro ⟨l, hl', r, hr, hle⟩
    rw [hl'.unique hl] at hr
    have := takeRuns_eq_none.mp ht r hr
    omega
  | some x =>
    obtain ⟨p, runs⟩ := x
    rw [ht] at this
    obtain ⟨pages, h1, h2⟩ := this
    refine .inr ⟨?_, p, pages, runs, h1, h2, h.pages.runs.takeRuns (Nat.pos_of_ne_zero hn) ht,
      cover_takeRuns ht⟩
    by_contra hc
    have : takeRuns n g.runs = none := takeRuns_eq_none.mpr fun r hr => by
      by_contra hlt
      exact hc ⟨g.runs, hl, r, hr, by omega⟩
    rw [this] at ht
    cases ht

/-- Where new pages lie: apart from everything in use. -/
theorem fresh (h : SlabInv k m g) (hc : ∀ i, cover g.runs i = cover runs i + inRun (p, n) i)
    (hn : 0 < n) (hr : r ∈ g.owned m) (hpos : 0 < r.2) : p + n ≤ r.1 ∨ r.1 + r.2 ≤ p := by
  by_contra hcon
  -- a page that both have
  obtain ⟨i, h1, h2⟩ : ∃ i, (p ≤ i ∧ i < p + n) ∧ r.1 ≤ i ∧ i < r.1 + r.2 :=
    ⟨max p r.1, by omega, by omega⟩
  have h3 : 0 < (g.pageState m).held i := cover_pos.mpr ⟨r, hr, h2⟩
  have h4 := (h.pages.held_cover h3).2.2.1
  have h5 : 0 < inRun (p, n) i := inRun_pos.mpr h1
  have h6 := hc i
  omega

theorem fresh_range (h : SlabInv k m g) (hc : ∀ i, cover g.runs i = cover runs i + inRun (p, n) i)
    (hn : 0 < n) : m.heapStart ≤ p := by
  have h1 : inRun (p, n) p = 1 := inRun_self hn
  have h2 := hc p
  by_contra hlt
  have h3 := h.pages.runs.cover_lt (Nat.lt_of_not_le hlt)
  omega

/-- No block starts in new pages. -/
theorem fresh_block (h : SlabInv k m g) (hc : ∀ i, cover g.runs i = cover runs i + inRun (p, n) i)
    (hn : 0 < n) : ¬ Block m g (p * rtMmPageSize) size := by
  intro hb
  obtain ⟨r, hr, hpos, h1, h2⟩ := h.block_owned hb
  have h3 := h.fresh hc hn (block_owned_mem hr) hpos
  have h4 := h.block_pos hb
  simp only [rtMmPageSize] at *
  omega

/-- What a page is used for changes with the pages themselves. -/
theorem pages_take {m' : Slab} {g' : SlabLists} {pages : SlabPages} (h : SlabInv k m g)
    (hl : pages.FreeList pages.pageList runs) (hr : Runs m.heapStart runs)
    (hc : ∀ i, cover g.runs i = cover runs i + inRun (p, n) i) (hs : m'.heapStart = m.heapStart)
    (he : m'.heapEnd = m.heapEnd) (hp : m'.pages = pages) (hg : g'.runs = runs)
    (ho : ∀ i, cover (g'.owned m') i = cover (g.owned m) i + inRun (p, n) i) :
    (g'.pageState m').Inv g'.runs := by
  have h1 := h.pages.start
  have h2 := h.pages.stop
  have h3 := h.pages.limit
  have h4 := h.pages.pages
  subst hp hg
  refine ⟨hl, ?_, fun i => ?_, ?_, ?_, ?_⟩
  · change Runs m'.heapStart _
    rw [hs]
    exact hr
  · have h5 := h4 i
    have h6 : (g.pageState m).held i = cover (g.owned m) i := rfl
    change cover (g'.owned m') i + _ = if m'.heapStart ≤ i ∧ i < m'.heapEnd then 1 else 0
    rw [hs, he, ho, ← h6]
    change _ = if m.heapStart ≤ i ∧ i < m.heapEnd then 1 else 0 at h5
    have := hc i
    omega
  · change 0 < m'.heapStart
    rw [hs]
    exact h1
  · change m'.heapStart < m'.heapEnd
    rw [hs, he]
    exact h2
  · change m'.heapEnd < pageCount
    rw [he]
    exact h3

/-- The statistics do not matter. -/
theorem memStat (h : SlabInv k m g) (size : ℕ) : SlabInv k (m.memStat size) g where
  shape := ⟨h.shape.pages, h.shape.limit, h.shape.size, h.shape.cnt⟩
  pages := h.pages
  large := h.large
  small := h.small
  magic := h.magic
  zone := h.zone
  avail := h.avail
  cache := h.cache
  cnt := h.cnt
  cnt_le := h.cnt_le
  k_le := h.k_le

/-- **The branch of `rt_slab_alloc` for large requests.** -/
theorem allocLarge (h : SlabInv k m g) (hn : alignTo size rtMmPageSize / rtMmPageSize ≠ 0) :
    (¬ m.HasRun (alignTo size rtMmPageSize / rtMmPageSize) ∧ m.allocLarge size = some (none, m)) ∨
      m.HasRun (alignTo size rtMmPageSize / rtMmPageSize) ∧ ∃ p m' g',
        m.allocLarge size = some (some p, m') ∧ SlabInv k m' g' ∧ g'.spare = g.spare ∧
        (∀ n, ¬ Block m g p n) ∧
        ∀ q n, Block m' g' q n ↔ Block m g q n ∨ q = p ∧
          n = alignTo size rtMmPageSize / rtMmPageSize * rtMmPageSize := by
  obtain ⟨np, hnp⟩ : ∃ np, np = alignTo size rtMmPageSize / rtMmPageSize := ⟨_, rfl⟩
  simp only [Slab.allocLarge]
  rw [← hnp] at hn ⊢
  obtain ⟨h1, h2⟩ | ⟨h1, page, pages, runs, h2, h3, h4, h5⟩ := h.pageAlloc hn
  · rw [h2]
    exact .inl ⟨h1, rfl⟩
  rw [h2]
  have hpos := Nat.pos_of_ne_zero hn
  have hps := h.fresh_range h5 hpos
  refine .inr ⟨h1, page * rtMmPageSize, _,
    { g with runs := runs, larges := (page, np) :: g.larges }, rfl, ?_, rfl, ?_, ?_⟩
  · refine SlabInv.memStat ?_ _
    refine { h with
      shape := ⟨h.shape.pages, h.shape.limit, h.shape.size, h.shape.cnt⟩
      pages := h.pages_take h3 h4 h5 rfl rfl rfl rfl fun i => ?_
      large := fun r hr => ?_
      small := fun z hz i hi => ?_ }
    · simp only [SlabLists.owned, SlabLists.all, cover_cons, List.cons_append]
      dsimp only [Slab.setUsage]
      omega
    · rcases List.mem_cons.mp hr with rfl | hr
      · exact ⟨hpos, Function.update_self _ _ _⟩
      · have h6 := h.fresh h5 hpos (large_owned hr) (h.large r hr).1
        have h7 := h.large_range hr
        have h8 := (h.large r hr).1
        refine ⟨h8, ?_⟩
        have hne : r.1 - m.heapStart ≠ page - m.heapStart := by omega
        exact (Function.update_of_ne hne _ _).trans (h.large r hr).2
    · have h6 := h.fresh h5 hpos (zone_owned hz) h.shape.cnt_pos
      have h7 := h.zone_range hz
      have hi' : i < m.zonePageCnt := hi
      have hne : z + i - m.heapStart ≠ page - m.heapStart := by
        dsimp only at h6
        omega
      exact (Function.update_of_ne hne _ _).trans (h.small z hz i hi)
  · exact fun n => h.fresh_block h5 hpos
  · intro q n
    constructor
    · rintro (⟨r, hr, h6, h7⟩ | hz)
      · rcases List.mem_cons.mp hr with rfl | hr
        · exact .inr ⟨h6, h7⟩
        · exact .inl (.inl ⟨r, hr, h6, h7⟩)
      · exact .inl (.inr hz)
    · rintro ((⟨r, hr, h6, h7⟩ | hz) | ⟨rfl, rfl⟩)
      · exact .inl ⟨r, List.mem_cons_of_mem _ hr, h6, h7⟩
      · exact .inr hz
      · exact .inl ⟨_, List.mem_cons_self, rfl, rfl⟩

/-- **A zone in use gets another header.** -/
theorem setZone (h : SlabInv k m g) (hz : z ∈ g.zones) (hk : ZoneOk m.zoneSize z hdr m.chunk fl)
    (hmag : hdr.magic = zallocSlabMagic)
    (ha : AvailOk (Function.update m.zone z hdr) array g.zones avail) :
    SlabInv k { m with zone := Function.update m.zone z hdr, zoneArray := array }
      { g with avail := avail, freed := Function.update g.freed z fl } :=
  { h with
    shape := ⟨h.shape.pages, h.shape.limit, h.shape.size, h.shape.cnt⟩
    magic := fun y hy => by
      by_cases hyz : y = z
      · subst hyz
        dsimp only
        rw [Function.update_self]
        exact hmag
      · dsimp only
        rw [Function.update_of_ne hyz]
        exact h.magic y hy
    zone := fun y hy => by
      by_cases hyz : y = z
      · subst hyz
        dsimp only
        rw [Function.update_self, Function.update_self]
        exact hk
      · dsimp only
        rw [Function.update_of_ne hyz, Function.update_of_ne hyz]
        exact h.zone y hy
    avail := ha
    cache := AvailOk.frame_update h.cache (h.not_cache hz) hdr }

theorem block_setZone {m' : Slab} {g' : SlabLists} (hm : m'.zone = Function.update m.zone z hdr)
    (hlarges : g'.larges = g.larges) (hzones : g'.zones = g.zones)
    (hfreed : g'.freed = Function.update g.freed z fl) (hz : z ∈ g.zones)
    (hsize : hdr.chunksize = (m.zone z).chunksize)
    (hl : ∀ q, hdr.LiveChunk fl q ↔ (m.zone z).LiveChunk (g.freed z) q ∨ q = p) (q n : ℕ) :
    Block m' g' q n ↔ Block m g q n ∨ q = p ∧ n = (m.zone z).chunksize := by
  rw [Block, Block, hm, hlarges, hzones, hfreed]
  constructor
  · rintro (hr | ⟨y, hy, h1, h2⟩)
    · exact .inl (.inl hr)
    · by_cases hyz : y = z
      · subst hyz
        rw [Function.update_self, Function.update_self, hl] at h1
        rw [Function.update_self, hsize] at h2
        exact h1.imp (fun h1 => .inr ⟨y, hy, h1, h2⟩) fun h1 => ⟨h1, h2⟩
      · rw [Function.update_of_ne hyz, Function.update_of_ne hyz] at h1
        rw [Function.update_of_ne hyz] at h2
        exact .inl (.inr ⟨y, hy, h1, h2⟩)
  · have hnew : (m.zone z).LiveChunk (g.freed z) q ∨ q = p → n = (m.zone z).chunksize →
        ∃ y ∈ g.zones, (Function.update m.zone z hdr y).LiveChunk
          (Function.update g.freed z fl y) q ∧ n = (Function.update m.zone z hdr y).chunksize :=
      fun h1 h2 => by
        refine ⟨z, hz, ?_⟩
        rw [Function.update_self, Function.update_self, hsize]
        exact ⟨(hl q).mpr h1, h2⟩
    rintro ((hr | ⟨y, hy, h1, h2⟩) | ⟨h1, h2⟩)
    · exact .inl hr
    · by_cases hyz : y = z
      · subst hyz
        exact .inr (hnew (.inl h1) h2)
      · refine .inr ⟨y, hy, ?_⟩
        rw [Function.update_of_ne hyz, Function.update_of_ne hyz]
        exact ⟨h1, h2⟩
    · exact .inr (hnew (.inr h1) h2)

end SlabInv

namespace ZoneOk

variable {zoneSize z p : ℕ} {hdr hdr' : SlabZone} {chunk : ℕ → Option ℕ} {fl : List ℕ}

/-- **A chunk that has never been used.** -/
theorem bump (h : ZoneOk zoneSize z hdr chunk fl) (hu : hdr.uindex + 1 ≠ hdr.nmax)
    (hn : 0 < hdr.nfree) :
    ZoneOk zoneSize z { hdr.take with uindex := hdr.uindex + 1 } chunk fl := by
  have h1 := h.uindex
  have h2 := h.nfree
  refine ⟨h.index, h.size, h.base, h.stop, ?_, ?_, h.list, fun a ha => ?_⟩
  · dsimp only [SlabZone.take]
    omega
  · dsimp only [SlabZone.take]
    omega
  · obtain ⟨j, hj, he⟩ := h.mem a ha
    exact ⟨j, Nat.le_succ_of_le hj, he⟩

theorem bump_live (h : ZoneOk zoneSize z hdr chunk fl) (q : ℕ) :
    SlabZone.LiveChunk { hdr.take with uindex := hdr.uindex + 1 } fl q ↔
      hdr.LiveChunk fl q ∨ q = hdr.chunkAt (hdr.uindex + 1) := by
  constructor
  · rintro ⟨⟨j, hj, rfl⟩, hq⟩
    rcases Nat.lt_or_eq_of_le hj with hj | rfl
    · exact .inl ⟨⟨j, Nat.le_of_lt_succ hj, rfl⟩, hq⟩
    · exact .inr rfl
  · rintro (⟨⟨j, hj, rfl⟩, hq⟩ | rfl)
    · exact ⟨⟨j, Nat.le_succ_of_le hj, rfl⟩, hq⟩
    · refine ⟨⟨hdr.uindex + 1, Nat.le_refl _, rfl⟩, fun hq => ?_⟩
      obtain ⟨j, hj, he⟩ := h.mem _ hq
      have := h.chunk_inj he
      omega

/-- **A chunk of the free list.** -/
theorem unlist (h : ZoneOk zoneSize z hdr chunk fl) (hp : hdr.freechunk = some p)
    (hn : 0 < hdr.nfree) : ∃ t, fl = p :: t ∧
      ZoneOk zoneSize z { hdr.take with freechunk := chunk p } chunk t := by
  have hl := h.list
  rw [hp] at hl
  obtain ⟨t, rfl, ht⟩ := hl.pop
  have h2 := h.nfree
  rw [List.length_cons] at h2
  refine ⟨t, rfl, h.index, h.size, h.base, h.stop, h.uindex, ?_, ht, fun a ha => ?_⟩
  · dsimp only [SlabZone.take]
    omega
  · exact h.mem a (List.mem_cons_of_mem _ ha)

theorem unlist_live {t : List ℕ} (h : ZoneOk zoneSize z hdr chunk (p :: t)) (x : Option ℕ) (q : ℕ) :
    SlabZone.LiveChunk { hdr.take with freechunk := x } t q ↔
      hdr.LiveChunk (p :: t) q ∨ q = p := by
  have hnd : p ∉ t := (List.nodup_cons.mp h.list.nodup).1
  constructor
  · rintro ⟨hj, hq⟩
    by_cases hqp : q = p
    · exact .inr hqp
    · exact .inl ⟨hj, by simp [hqp, hq]⟩
  · rintro (⟨hj, hq⟩ | rfl)
    · exact ⟨hj, fun hq' => hq (List.mem_cons_of_mem _ hq')⟩
    · obtain ⟨j, hj, he⟩ := h.mem q List.mem_cons_self
      exact ⟨⟨j, hj, he⟩, hnd⟩

end ZoneOk

namespace SlabInv

variable {k : ℕ} {m : Slab} {g : SlabLists} {z p n q i size zi : ℕ} {r : ℕ × ℕ} {hdr : SlabZone}
  {fl : List ℕ} {array : ℕ → Option ℕ} {avail : ℕ → List ℕ} {runs : List (ℕ × ℕ)}

/-- The zone that `zone_array` offers for an index. -/
theorem head_zone (h : SlabInv k m g) (hz : m.zoneArray zi = some z) :
    z ∈ g.zones ∧ (m.zone z).zoneindex = zi ∧ 0 < (m.zone z).nfree := by
  have hl := h.avail.list zi
  rw [hz] at hl
  obtain ⟨t, ht, -⟩ := hl.pop
  exact (h.avail.mem zi z).mp (by rw [ht]; simp)

/-- The lists for a header with one free chunk less. -/
theorem avail_take (h : SlabInv k m g) (hz : m.zoneArray zi = some z) (hdr : SlabZone)
    (h1 : hdr.zoneindex = zi) (h2 : hdr.nfree = (m.zone z).take.nfree)
    (h3 : hdr.next = (m.zone z).take.next) : ∃ avail, AvailOk (Function.update m.zone z hdr)
      (if (m.zone z).nfree - 1 = 0 then Function.update m.zoneArray zi (m.zone z).next
        else m.zoneArray) g.zones avail := by
  have hfree := (h.head_zone hz).2.2
  rw [SlabZone.take] at h2 h3
  dsimp only at h2 h3
  obtain ⟨avail, ha⟩ := h.avail.dec hz h1 (by omega) fun h0 => by
    rw [h3, if_neg (by rwa [h2] at h0)]
  rw [h2] at ha
  exact ⟨avail, ha⟩

/-- **The branch of `rt_slab_alloc` for a zone with free chunks.** -/
theorem allocChunk (h : SlabInv k m g) (hz : m.zoneArray zi = some z) (hsize : size = chunkOf zi) :
    ∃ p m' g', m.allocChunk zi size z = some (some p, m') ∧ SlabInv k m' g' ∧
      g'.spare = g.spare ∧ (∀ n, ¬ Block m g p n) ∧ ∀ q n, Block m' g' q n ↔ Block m g q n ∨ q = p ∧ n = size := by
  obtain ⟨hzz, hzi, hfree⟩ := h.head_zone hz
  have hk := h.zoneOk hzz
  have hcs : (m.zone z).chunksize = size := by rw [hk.size, hzi, hsize]
  have hpos := hk.size_pos
  have hm : minChunkSize = 8 := rfl
  simp only [Slab.allocChunk]
  rw [if_pos hfree]
  by_cases hu : (m.zone z).uindex + 1 ≠ (m.zone z).nmax
  · obtain ⟨avail, ha⟩ := h.avail_take hz { (m.zone z).take with uindex := (m.zone z).uindex + 1 }
      hzi rfl rfl
    refine ⟨_, _, _, if_pos hu, (h.setZone hzz (hk.bump hu hfree) (h.magic z hzz) ha).memStat _, rfl, ?_, ?_⟩
    · have hp := hk.chunk_range (j := (m.zone z).uindex + 1) (by have := hk.uindex; omega)
      rw [SlabZone.chunkAt, hcs] at hp
      refine h.not_block hzz (by dsimp only [SlabZone.take]; omega)
        (by dsimp only [SlabZone.take]; omega) ?_
      rintro ⟨⟨j, hj, he⟩, -⟩
      rw [← hcs] at he
      have := hk.chunk_inj (j := j) (i := (m.zone z).uindex + 1) he
      omega
    · intro q n
      rw [← hcs]
      exact block_setZone (m := m) (by rfl) (by rfl) (by rfl) (by rfl) hzz (by rfl) hk.bump_live q n
  · obtain ⟨p, hp⟩ : ∃ p, (m.zone z).freechunk = some p := by
      -- with no unused chunk left there is one in the free list
      have hlen := hk.nfree
      cases hf : (m.zone z).freechunk with
      | some p => exact ⟨p, rfl⟩
      | none =>
        have hl := hk.list
        rw [hf] at hl
        rw [hl.eq_nil, List.length_nil] at hlen
        omega
    obtain ⟨t, ht, hk'⟩ := hk.unlist hp hfree
    have hk₂ := hk
    rw [ht] at hk₂
    obtain ⟨avail, ha⟩ := h.avail_take hz { (m.zone z).take with freechunk := m.chunk p } hzi rfl rfl
    have hcode : (m.zone z).take.freechunk = some p := hp
    have hu' : ¬ ((m.zone z).take.uindex + 1 ≠ (m.zone z).take.nmax) := hu
    rw [if_neg hu', hcode]
    have hpf : p ∈ g.freed z := by
      rw [ht]
      exact List.mem_cons_self
    refine ⟨p, _, _, rfl, (h.setZone hzz hk' (h.magic z hzz) ha).memStat _, rfl, ?_, ?_⟩
    · have hr := hk.free_range hpf
      exact h.not_block hzz (by omega) (by omega) fun hl => hl.2 hpf
    · intro q n
      rw [← hcs]
      refine block_setZone (m := m) (by rfl) (by rfl) (by rfl) (by rfl) hzz (by rfl)
        (fun q => ?_) q n
      rw [ht]
      exact hk₂.unlist_live _ q

/-- The lists with another set of pages in use, in another order. -/
theorem pages_perm {m' : Slab} {g' : SlabLists} (h : SlabInv k m g) (hs : m'.heapStart = m.heapStart)
    (he : m'.heapEnd = m.heapEnd) (hp : m'.pages = m.pages) (hg : g'.runs = g.runs)
    (ho : (g'.owned m').Perm (g.owned m)) : (g'.pageState m').Inv g'.runs := by
  have h0 := h.pages
  have hps : g'.pageState m' = g.pageState m := by
    simp only [SlabLists.pageState, hs, he, hp]
    congr 1
    funext i
    exact cover_perm ho i
  rw [hps, hg]
  exact h0

theorem takeZone_some (hz : m.zoneFree = some z) : m.takeZone = some (some z,
    { m with zoneFree := (m.zone z).next, zoneFreeCnt := (m.zoneFreeCnt + (2 ^ 32 - 1)) % 2 ^ 32 }) := by
  rw [Slab.takeZone, hz]

theorem takeZone_none (hz : m.zoneFree = none) : m.takeZone =
    match m.pages.pageAlloc (m.zoneSize / rtMmPageSize) with
    | none => none
    | some (none, pages) => some (none, { m with pages := pages })
    | some (some z, pages) =>
      some (some z, Slab.markZone { m with pages := pages } z fun off => ⟨.small, off⟩) := by
  unfold Slab.takeZone
  split
  · next hz' =>
    rw [hz] at hz'
    cases hz'
  · rfl

/-- **A zone for a new size.** -/
theorem takeZone (h : SlabInv k m g) (hsp : g.spare = []) :
    (¬ (m.zoneFree ≠ none ∨ m.HasRun m.zonePageCnt) ∧ m.takeZone = some (none, m)) ∨
      (m.zoneFree ≠ none ∨ m.HasRun m.zonePageCnt) ∧ ∃ z m' g', m.takeZone = some (some z, m') ∧
        SlabInv k m' g' ∧ g'.spare = [z] ∧ m'.zoneArray = m.zoneArray ∧ m'.zoneLimit = m.zoneLimit ∧
        m'.zone = m.zone ∧ g'.larges = g.larges ∧ g'.zones = g.zones ∧ g'.freed = g.freed := by
  have hcnt : m.zoneSize / rtMmPageSize = m.zonePageCnt := by
    rw [h.shape.pages, Nat.mul_div_cancel _ (by decide)]
  have hpos := h.shape.cnt_pos
  rcases Option.eq_none_or_eq_some m.zoneFree with hz | ⟨z, hz⟩
  · rw [takeZone_none hz, hcnt]
    obtain ⟨h1, h2⟩ | ⟨h1, z, pages, runs, h2, h3, h4, h5⟩ := h.pageAlloc (Nat.pos_iff_ne_zero.mp hpos)
    · rw [h2]
      exact .inl ⟨fun hc => hc.elim (fun hc => hc hz) h1, rfl⟩
    rw [h2]
    refine .inr ⟨.inr h1, z, _, { g with runs := runs, spare := [z] }, rfl, ?_, rfl, rfl, rfl, rfl,
      rfl, rfl, rfl⟩
    have hall : (SlabLists.all { g with runs := runs, spare := [z] }).Perm (z :: g.all) := by
      simp only [SlabLists.all]
      rw [hsp, List.append_nil, ← List.append_assoc]
      exact List.perm_append_comm
    have hps := h.fresh_range h5 hpos
    refine { h with
      shape := ⟨h.shape.pages, h.shape.limit, h.shape.size, h.shape.cnt⟩
      pages := h.pages_take h3 h4 h5 rfl rfl rfl rfl fun i => ?_
      large := fun r hr => ?_
      small := fun y hy i hi => ?_ }
    · have := cover_perm ((hall.map fun z => (z, m.zonePageCnt)).append_left g.larges) i
      simp only [SlabLists.owned, cover_cons, cover_append, List.map_cons] at this ⊢
      dsimp only [Slab.markZone]
      omega
    · have h6 := h.fresh h5 hpos (large_owned hr) (h.large r hr).1
      have h7 := h.large_range hr
      have h8 := (h.large r hr).1
      refine ⟨h8, ?_⟩
      dsimp only [Slab.markZone]
      rw [if_neg (by omega)]
      exact (h.large r hr).2
    · have hi' : i < m.zonePageCnt := hi
      dsimp only [Slab.markZone]
      rcases List.mem_cons.mp (hall.mem_iff.mp hy) with rfl | hy
      · rw [if_pos (by omega)]
        congr 1
        omega
      · have h6 := h.fresh h5 hpos (zone_owned hy) hpos
        have h7 := h.zone_range hy
        dsimp only at h6
        rw [if_neg (by omega)]
        exact h.small y hy i hi'
  · rw [takeZone_some hz]
    have hl := h.cache
    rw [hz] at hl
    obtain ⟨t, ht, hc⟩ := hl.pop
    have hlen := h.cnt
    have hle := h.cnt_le
    have hk := h.k_le
    rw [ht, List.length_cons] at hlen hle
    refine .inr ⟨.inl (by rw [hz]; simp), z, _, { g with cache := t, spare := [z] }, rfl, ?_,
      rfl, rfl, rfl, rfl, rfl, rfl, rfl⟩
    have hall : (SlabLists.all { g with cache := t, spare := [z] }).Perm g.all := by
      simp only [SlabLists.all]
      rw [hsp, ht, List.append_nil]
      exact List.Perm.append_left _ List.perm_append_comm
    refine { h with
      shape := ⟨h.shape.pages, h.shape.limit, h.shape.size, h.shape.cnt⟩
      pages := h.pages_perm rfl rfl rfl rfl ?_
      small := fun y hy => h.small y (hall.mem_iff.mp hy)
      zone := fun y hy => h.zone y ?_
      cache := hc
      cnt := ?_
      cnt_le := ?_ }
    · exact ((hall.map _).append_left _).cons _
    · rw [ht]
      rcases List.mem_append.mp hy with hy | hy
      · exact List.mem_append_left _ hy
      · exact List.mem_append_right _ (List.mem_cons_of_mem _ hy)
    · dsimp only
      omega
    · dsimp only
      omega

/-- **The header of a new zone.** -/
theorem newZoneOk (hs : m.Shape) (hzi : zi < rtSlabNzones) (hsize : size = chunkOf zi)
    (hle : size ≤ m.zoneLimit) (z : ℕ) (chunk : ℕ → Option ℕ) :
    ZoneOk m.zoneSize z (m.newZone zi size z) chunk [] ∧ 0 < (m.newZone zi size z).nfree := by
  have hpos : minChunkSize ≤ size := hsize ▸ chunkOf_pos zi
  have h1 := hs.limit
  have h2 := hs.size
  have hm : minChunkSize = 8 := rfl
  have hz : sizeofSlabZone = 36 := rfl
  obtain ⟨h3, h4⟩ := chunkOffset_bounds (show 0 < size by omega) (by omega)
  -- there is room for two chunks
  have h5 : 2 ≤ (m.zoneSize - Slab.chunkOffset size) / size :=
    (Nat.le_div_iff_mul_le (by omega)).mpr (by omega)
  have h6 := Nat.div_mul_le_self (m.zoneSize - Slab.chunkOffset size) size
  refine ⟨⟨hzi, hsize, rfl, ?_, ?_, ?_, .nil, by simp⟩, ?_⟩ <;> dsimp only [Slab.newZone]
  · omega
  · omega
  · rw [List.length_nil]
    omega
  · omega

/-- **The new zone is in use**, and its first chunk is handed out. -/
theorem openZone (h : SlabInv k m g) (hsp : g.spare = [z]) (hzi : zi < rtSlabNzones)
    (hsize : size = chunkOf zi) (hle : size ≤ m.zoneLimit) :
    ∃ g', SlabInv k ((m.setZone z (m.newZone zi size z)).setArray zi (some z)) g' ∧ g'.spare = [] ∧
      (∀ n, ¬ Block m g (m.newZone zi size z).baseptr n) ∧
      ∀ q n, Block ((m.setZone z (m.newZone zi size z)).setArray zi (some z)) g' q n ↔
        Block m g q n ∨ q = (m.newZone zi size z).baseptr ∧ n = size := by
  obtain ⟨hk, hfree⟩ := newZoneOk h.shape hzi hsize hle z m.chunk
  have hza : z ∈ g.all := by
    rw [SlabLists.all, hsp]
    simp
  have hnd := h.zones_nodup
  have hzz : z ∉ g.zones := fun hc => by
    rw [SlabLists.all, hsp] at hnd
    exact (List.nodup_append.mp hnd).2.2 z hc z (by simp) rfl
  have hzc : z ∉ g.cache := fun hc => by
    rw [SlabLists.all, hsp] at hnd
    exact (List.nodup_append.mp (List.nodup_append.mp hnd).2.1).2.2 z hc z (by simp) rfl
  have hzj : ∀ zj, z ∉ g.avail zj := fun zj hm => hzz ((h.avail.mem zj z).mp hm).1
  have hcons : ∀ y, y ∈ z :: g.zones ↔ y = z ∨ y ∈ g.zones := fun y => List.mem_cons
  have hav := h.avail.push hzj (Eq.refl (m.newZone zi size z).next) rfl hfree hcons
  obtain ⟨g', hg'⟩ : ∃ g' : SlabLists, g' = { g with
    zones := z :: g.zones, spare := [], avail := Function.update g.avail zi (z :: g.avail zi),
    freed := Function.update g.freed z [] } := ⟨_, rfl⟩
  have hall : g'.all.Perm g.all := by
    simp only [hg', SlabLists.all]
    rw [hsp, List.append_nil, List.cons_append, ← List.append_assoc]
    exact @List.perm_append_comm _ [z] _
  refine ⟨g', ?_, by rw [hg'], ?_, ?_⟩
  · refine { h with
      shape := ⟨h.shape.pages, h.shape.limit, h.shape.size, h.shape.cnt⟩
      pages := h.pages_perm rfl rfl rfl (by rw [hg']) ?_
      large := ?_
      small := fun y hy => h.small y (hall.mem_iff.mp hy)
      magic := fun y hy => ?_
      zone := fun y hy => ?_
      avail := ?_
      cache := ?_
      cnt := ?_
      cnt_le := ?_ }
    · have hlg : g'.larges = g.larges := by rw [hg']
      simp only [SlabLists.owned, hlg]
      exact ((hall.map _).append_left _).cons _
    · rw [hg']
      exact h.large
    · rw [hg'] at hy
      dsimp only [Slab.setZone, Slab.setArray]
      rcases List.mem_cons.mp hy with rfl | hy
      · rw [Function.update_self]
        rfl
      · have hyz : y ≠ z := fun e => hzz (e ▸ hy)
        rw [Function.update_of_ne hyz]
        exact h.magic y hy
    · rw [hg'] at hy ⊢
      dsimp only [Slab.setZone, Slab.setArray]
      rcases List.mem_cons.mp hy with rfl | hy
      · rw [Function.update_self, Function.update_self]
        exact hk
      · have hyz : y ≠ z := fun e => (List.mem_append.mp hy).elim (fun hy => hzz (e ▸ hy))
          fun hy => hzc (e ▸ hy)
        rw [Function.update_of_ne hyz, Function.update_of_ne hyz]
        exact h.zone y hy
    · rw [hg']
      exact hav
    · rw [hg']
      exact AvailOk.frame_update h.cache hzc _
    · rw [hg']
      exact h.cnt
    · rw [hg']
      exact h.cnt_le
  · intro n hb
    obtain ⟨r, hr, hpos, h1, h2⟩ := h.block_owned hb
    have hbase := hk.base_le
    have hstop := hk.stop
    have hn := h.block_pos hb
    have hu := hk.uindex
    have hpc := h.shape.pages
    have hcs := Nat.mul_le_mul_right (m.newZone zi size z).chunksize hu
    have hsp' := hk.size_pos
    have hap : r.1 + r.2 ≤ z ∨ z + m.zonePageCnt ≤ r.1 := by
      rcases List.mem_append.mp hr with hr | hr
      · exact h.large_zone hr hza
      · obtain ⟨y, hy, rfl⟩ := List.mem_map.mp hr
        exact h.zone_disjoint (List.mem_append_left _ hy) hza fun e => hzz (e ▸ hy)
    have hu0 : (m.newZone zi size z).uindex = 0 := rfl
    rw [hu0, Nat.succ_mul, Nat.zero_mul, Nat.zero_add] at hcs
    simp only [rtMmPageSize] at *
    have hm : minChunkSize = 8 := rfl
    omega
  · intro q n
    rw [Block, Block, hg']
    dsimp only [Slab.setZone, Slab.setArray]
    have hlive : ∀ q, (m.newZone zi size z).LiveChunk [] q ↔ q = (m.newZone zi size z).baseptr := by
      intro q
      constructor
      · rintro ⟨⟨j, hj, rfl⟩, -⟩
        have : j = 0 := Nat.le_zero.mp hj
        rw [this, SlabZone.chunkAt, Nat.zero_mul, Nat.add_zero]
      · rintro rfl
        refine ⟨⟨0, Nat.le_refl _, ?_⟩, by simp⟩
        rw [SlabZone.chunkAt, Nat.zero_mul, Nat.add_zero]
    have hother : ∀ y ∈ g.zones, Function.update m.zone z (m.newZone zi size z) y = m.zone y ∧
        Function.update g.freed z [] y = g.freed y := fun y hy => by
      have hyz : y ≠ z := fun e => hzz (e ▸ hy)
      exact ⟨Function.update_of_ne hyz _ _, Function.update_of_ne hyz _ _⟩
    constructor
    · rintro (hr | ⟨y, hy, h1, h2⟩)
      · exact .inl (.inl hr)
      · rcases List.mem_cons.mp hy with rfl | hy
        · rw [Function.update_self, Function.update_self, hlive] at h1
          rw [Function.update_self] at h2
          exact .inr ⟨h1, h2⟩
        · rw [(hother y hy).1, (hother y hy).2] at h1
          rw [(hother y hy).1] at h2
          exact .inl (.inr ⟨y, hy, h1, h2⟩)
    · rintro ((hr | ⟨y, hy, h1, h2⟩) | ⟨h1, h2⟩)
      · exact .inl hr
      · refine .inr ⟨y, List.mem_cons_of_mem _ hy, ?_⟩
        rw [(hother y hy).1, (hother y hy).2]
        exact ⟨h1, h2⟩
      · refine .inr ⟨z, List.mem_cons_self, ?_⟩
        rw [Function.update_self, Function.update_self, hlive]
        exact ⟨h1, h2⟩

/-- **The branch of `rt_slab_alloc` that makes a new zone.** -/
theorem allocZone (h : SlabInv k m g) (hsp : g.spare = []) (hzi : zi < rtSlabNzones)
    (hsize : size = chunkOf zi) (hle : size ≤ m.zoneLimit) :
    (¬ (m.zoneFree ≠ none ∨ m.HasRun m.zonePageCnt) ∧ m.allocZone zi size = some (none, m)) ∨
      (m.zoneFree ≠ none ∨ m.HasRun m.zonePageCnt) ∧ ∃ p m' g',
        m.allocZone zi size = some (some p, m') ∧ SlabInv k m' g' ∧ g'.spare = [] ∧
        (∀ n, ¬ Block m g p n) ∧ ∀ q n, Block m' g' q n ↔ Block m g q n ∨ q = p ∧ n = size := by
  simp only [Slab.allocZone]
  obtain ⟨h1, h2⟩ | ⟨h1, z, m₁, g₁, h2, h3, h4, h5, h6, h7, h8, h9, h10⟩ := h.takeZone hsp
  · rw [h2]
    exact .inl ⟨h1, rfl⟩
  have hlim : size ≤ m₁.zoneLimit := by
    rw [h6]
    exact hle
  obtain ⟨g', h11, h12, h13, h14⟩ := h3.openZone h4 hzi hsize hlim
  rw [h2]
  have hb : ∀ q n, Block m₁ g₁ q n ↔ Block m g q n := fun q n => by
    rw [Block, Block, h7, h8, h9, h10]
  have hp : (m₁.newZone zi size z).baseptr + (m₁.newZone zi size z).uindex * size =
      (m₁.newZone zi size z).baseptr := by
    have hu : (m₁.newZone zi size z).uindex = 0 := rfl
    rw [hu, Nat.zero_mul, Nat.add_zero]
  dsimp only
  rw [hp]
  refine .inr ⟨h1, _, _, g', rfl, h11.memStat _, h12, fun n => ?_, fun q n => ?_⟩
  · have := h13 n
    rw [hb] at this
    exact this
  · have := h14 q n
    rw [hb] at this
    exact this

/-- A page count and its bytes. -/
theorem alignTo_page (size : ℕ) :
    alignTo size rtMmPageSize / rtMmPageSize * rtMmPageSize = alignTo size rtMmPageSize := by
  rw [alignTo, alignDownTo, Nat.mul_div_cancel _ (by decide)]

/-- **`rt_slab_alloc`**: a new block, if there is one. -/
theorem alloc (h : SlabInv k m g) (hsp : g.spare = []) (size : ℕ) :
    (¬ m.Available size ∧ m.slabAlloc size = some (none, m)) ∨
      m.Available size ∧ ∃ p m' g', m.slabAlloc size = some (some p, m') ∧ SlabInv k m' g' ∧
        g'.spare = [] ∧ (∀ n, ¬ Block m g p n) ∧
        ∀ q n, Block m' g' q n ↔ Block m g q n ∨ q = p ∧ n = m.given size := by
  rw [Slab.slabAlloc, Slab.Available, Slab.given]
  by_cases h0 : size = 0
  · rw [if_pos h0]
    exact .inl ⟨fun hc => hc.1 h0, rfl⟩
  rw [if_neg h0]
  by_cases hl : size ≥ m.zoneLimit
  · rw [if_pos hl, if_pos hl, if_pos hl]
    by_cases hn : alignTo size rtMmPageSize = 0
    · refine .inl ⟨fun hc => hc.2.1 hn, ?_⟩
      simp only [Slab.allocLarge, SlabPages.pageAlloc]
      rw [hn]
      rfl
    · have hn' : alignTo size rtMmPageSize / rtMmPageSize ≠ 0 := fun hc => by
        have := alignTo_page size
        rw [hc, Nat.zero_mul] at this
        exact hn this.symm
      obtain ⟨h1, h2⟩ | ⟨h1, p, m', g', h2, h3, h4, h5, h6⟩ := h.allocLarge hn'
      · exact .inl ⟨fun hc => h1 hc.2.2, h2⟩
      · rw [alignTo_page] at h6
        exact .inr ⟨⟨h0, hn, h1⟩, p, m', g', h2, h3, h4.trans hsp, h5, h6⟩
  · have hlim := h.shape.limit
    obtain ⟨h1, h2, h3, h4, h5, h6⟩ := zoneindex_spec (n := size) (by omega) (by omega)
    have hle : (zoneindex size).2 ≤ m.zoneLimit := by
      rcases hlim with hlim | hlim
      · have := h5 (by omega)
        omega
      · omega
    rw [if_neg hl, if_neg hl, if_neg hl]
    dsimp only
    rw [if_pos h2]
    cases hz : m.zoneArray (zoneindex size).1 with
    | some z =>
      obtain ⟨p, m', g', h7, h8, h9, h10⟩ := h.allocChunk hz h1
      exact .inr ⟨⟨h0, .inl (Option.some_ne_none z)⟩, p, m', g', h7, h8, h9.trans hsp, h10⟩
    | none =>
      obtain ⟨h7, h8⟩ | ⟨h7, h8⟩ := h.allocZone hsp h2 h1 hle
      · exact .inl ⟨fun hc => hc.2.elim (fun hc => hc rfl) h7, h8⟩
      · exact .inr ⟨⟨h0, .inr h7⟩, h8⟩

/-- **What is given is what has been asked for**, or at most a page more. -/
theorem given_bounds (h : SlabInv k m g) (ha : m.Available size) (hs : size < 2 ^ 32) :
    size ≤ m.given size ∧ m.given size < size + 4096 := by
  obtain ⟨h0, ha⟩ := ha
  rw [Slab.given]
  by_cases hl : size ≥ m.zoneLimit
  · rw [if_pos hl] at ha ⊢
    -- a sum that wraps is less than a page and leaves nothing
    have hw : size + (rtMmPageSize - 1) < 2 ^ 32 := by
      by_contra hw
      refine ha.1 ?_
      rw [alignTo, alignDownTo]
      have : (size + (rtMmPageSize - 1)) % 2 ^ 32 < rtMmPageSize := by
        simp only [rtMmPageSize] at hw ⊢
        omega
      rw [Nat.div_eq_of_lt this, Nat.zero_mul]
    rw [alignTo_eq hw]
    simp only [rtMmPageSize] at hw ⊢
    omega
  · rw [if_neg hl]
    have hlim := h.shape.limit
    obtain ⟨-, -, h3, h4, -⟩ := zoneindex_spec (n := size) (by omega) (by omega)
    omega

end SlabInv

/-! ## Freeing -/

namespace ZoneOk

variable {zoneSize z p : ℕ} {hdr : SlabZone} {chunk : ℕ → Option ℕ} {fl : List ℕ}

/-- **A chunk comes back.** -/
theorem push (h : ZoneOk zoneSize z hdr chunk fl) (hp : hdr.LiveChunk fl p) (next : Option ℕ) :
    ZoneOk zoneSize z { hdr with freechunk := some p, nfree := hdr.nfree + 1, next := next }
      (Function.update chunk p hdr.freechunk) (p :: fl) := by
  have h2 := h.nfree
  refine ⟨h.index, h.size, h.base, h.stop, h.uindex, ?_, h.list.push hp.2, fun a ha => ?_⟩
  · rw [List.length_cons]
    dsimp only
    omega
  · rcases List.mem_cons.mp ha with rfl | ha
    · exact hp.1
    · exact h.mem a ha

theorem push_live (nfree : ℕ) (next x : Option ℕ) (q : ℕ) :
    SlabZone.LiveChunk { hdr with freechunk := x, nfree := nfree, next := next } (p :: fl) q ↔
      hdr.LiveChunk fl q ∧ q ≠ p := by
  constructor
  · rintro ⟨hj, hq⟩
    exact ⟨⟨hj, fun hq' => hq (List.mem_cons_of_mem _ hq')⟩, fun e => hq (e ▸ List.mem_cons_self)⟩
  · rintro ⟨⟨hj, hq⟩, hqp⟩
    exact ⟨hj, by simp [hqp, hq]⟩

/-- **With all chunks free none is handed out.** -/
theorem all_free (h : ZoneOk zoneSize z hdr chunk fl) (hf : hdr.nfree = hdr.nmax) (q : ℕ) :
    ¬ hdr.LiveChunk fl q := by
  rintro ⟨⟨j, hj, rfl⟩, hq⟩
  have h1 := h.nfree
  have h2 := h.uindex
  -- the free list has all addresses up to the last used one
  have hsub : fl ⊆ (List.range (hdr.uindex + 1)).map hdr.chunkAt := fun a ha => by
    obtain ⟨i, hi, rfl⟩ := h.mem a ha
    exact List.mem_map.mpr ⟨i, List.mem_range.mpr (by omega), rfl⟩
  have hperm : fl.Perm ((List.range (hdr.uindex + 1)).map hdr.chunkAt) :=
    (List.subperm_of_subset h.list.nodup hsub).perm_of_length_le (by
      rw [List.length_map, List.length_range]
      omega)
  exact hq (hperm.mem_iff.mpr (List.mem_map.mpr ⟨j, List.mem_range.mpr (by omega), rfl⟩))

end ZoneOk

namespace AvailOk

variable {zone : ℕ → SlabZone} {array : ℕ → Option ℕ} {zones zones' : List ℕ} {avail : ℕ → List ℕ}
  {z zi y : ℕ} {a b : List ℕ}

/-- The zones that stay when one is taken out of its list. -/
theorem mem_remove (ha : AvailOk zone array zones avail) (hl : avail zi = a ++ z :: b)
    (hzones : ∀ y, y ∈ zones' ↔ y ∈ zones ∧ y ≠ z) (zj y : ℕ) :
    y ∈ Function.update avail zi (a ++ b) zj ↔
      y ∈ zones' ∧ (zone y).zoneindex = zj ∧ 0 < (zone y).nfree := by
  have hzi : (zone z).zoneindex = zi := ((ha.mem zi z).mp (by rw [hl]; simp)).2.1
  have hnd : z ∉ a ++ b := by
    have := (ha.list zi).nodup
    rw [hl, List.nodup_middle, List.nodup_cons] at this
    exact this.1
  rw [hzones]
  by_cases hj : zj = zi
  · subst hj
    rw [Function.update_self]
    have h1 := ha.mem zj y
    rw [hl] at h1
    by_cases hy : y = z
    · subst hy
      exact ⟨fun hc => absurd hc hnd, fun hc => absurd rfl hc.1.2⟩
    · rw [show (y ∈ a ++ b ↔ y ∈ a ++ z :: b) by simp [hy], h1]
      simp [hy]
  · rw [Function.update_of_ne hj, ha.mem]
    refine ⟨fun hc => ⟨⟨hc.1, fun e => hj ?_⟩, hc.2⟩, fun hc => ⟨hc.1.1, hc.2⟩⟩
    rw [← hc.2.1, e, hzi]

/-- **The first zone of a list is taken out.** -/
theorem removeFirst (ha : AvailOk zone array zones avail) (hl : avail zi = z :: b)
    (hzones : ∀ y, y ∈ zones' ↔ y ∈ zones ∧ y ≠ z) :
    AvailOk zone (Function.update array zi (zone z).next) zones' (Function.update avail zi b) where
  list zj := by
    by_cases hj : zj = zi
    · rw [hj, Function.update_self, Function.update_self]
      have hc := ha.list zi
      rw [hl] at hc
      generalize array zi = x at hc
      cases hc with
      | cons hc => exact hc
    · rw [Function.update_of_ne hj, Function.update_of_ne hj]
      exact ha.list zj
  mem := ha.mem_remove (a := []) hl hzones

/-- **A later zone of a list is taken out.** -/
theorem removeNext (ha : AvailOk zone array zones avail) (hl : avail zi = a ++ y :: z :: b)
    (hzones : ∀ y, y ∈ zones' ↔ y ∈ zones ∧ y ≠ z) :
    AvailOk (Function.update zone y { zone y with next := (zone z).next }) array zones'
      (Function.update avail zi (a ++ y :: b)) := by
  have hyi : (zone y).zoneindex = zi := ((ha.mem zi y).mp (by rw [hl]; simp)).2.1
  refine ⟨fun zj => ?_, fun zj x => ?_⟩
  · by_cases hj : zj = zi
    · subst hj
      rw [Function.update_self, zoneNext_update]
      have hc := ha.list zj
      rw [hl] at hc
      exact hc.unlink
    · rw [Function.update_of_ne hj]
      exact frame_update (ha.list zj) (ha.not_mem fun e => hj (e.symm.trans hyi)) _
  · have h1 := ha.mem_remove (a := a ++ [y]) (b := b) (by rw [hl]; simp) hzones zj x
    rw [List.append_assoc] at h1
    rw [show a ++ y :: b = a ++ ([y] ++ b) from rfl, h1]
    by_cases hx : x = y
    · rw [hx, Function.update_self]
    · rw [Function.update_of_ne hx]

/-- **The loop of `rt_slab_free` finds the zone**, and the zone before it. -/
theorem findZone_spec {m : Slab} {fuel : ℕ} (pz : Option ℕ) {l : List ℕ}
    (hl : NextChain (zoneNext m.zone) (pz.elim (m.zoneArray zi) (zoneNext m.zone)) l) (hz : z ∈ l)
    (hf : l.length ≤ fuel) :
    ∃ a b, l = a ++ z :: b ∧ m.findZone zi z fuel pz = some (a.getLast?.or pz) := by
  induction fuel generalizing pz l with
  | zero =>
    cases l with
    | nil => cases hz
    | cons y l => cases hf
  | succ fuel ih =>
    cases l with
    | nil => cases hz
    | cons y l =>
      obtain ⟨hy, hc⟩ : pz.elim (m.zoneArray zi) (zoneNext m.zone) = some y ∧
          NextChain (zoneNext m.zone) (zoneNext m.zone y) l := by
        generalize pz.elim (m.zoneArray zi) (zoneNext m.zone) = x at hl
        cases hl with
        | cons hc => exact ⟨rfl, hc⟩
      have hlink : pz.elim (m.zoneArray zi) (fun y => (m.zone y).next) = some y := hy
      simp only [Slab.findZone]
      rw [hlink]
      by_cases hzy : z = y
      · subst hzy
        rw [if_pos rfl]
        exact ⟨[], l, rfl, rfl⟩
      · rw [if_neg fun e => hzy (Option.some.inj e)]
        have hzl : z ∈ l := by
          rcases List.mem_cons.mp hz with e | hzl
          · exact absurd e hzy
          · exact hzl
        obtain ⟨a, b, h1, h2⟩ := ih (some y) hc hzl (Nat.le_of_succ_le_succ hf)
        refine ⟨y :: a, b, by rw [h1]; rfl, ?_⟩
        dsimp only
        rw [h2]
        cases a with
        | nil => rfl
        | cons x a =>
          rw [List.getLast?_cons_cons]
          cases hla : (x :: a).getLast? with
          | none => simp at hla
          | some w => rfl

end AvailOk

namespace SlabInv

variable {k : ℕ} {m : Slab} {g : SlabLists} {z p n q i size zi : ℕ} {r : ℕ × ℕ} {hdr : SlabZone}
  {fl : List ℕ} {array : ℕ → Option ℕ} {avail : ℕ → List ℕ} {runs : List (ℕ × ℕ)}

/-- **Pages in use go back to the page list.** -/
theorem pageFree (h : SlabInv k m g) (hr : r ∈ g.owned m) (hpos : 0 < r.2) :
    ∃ pages, m.pages.pageFree r.1 r.2 = some pages ∧
      ∀ (m' : Slab) (g' : SlabLists), m'.heapStart = m.heapStart → m'.heapEnd = m.heapEnd →
        m'.pages = pages → g'.runs = putRun r.1 r.2 g.runs → (r :: g'.owned m').Perm (g.owned m) →
        (g'.pageState m').Inv g'.runs := by
  have hheld : (g.pageState m).Held r.1 r.2 := ⟨by omega, fun i hi =>
    cover_pos.mpr ⟨r, hr, by omega, by omega⟩⟩
  obtain ⟨pages, h1, h2⟩ := h.pages.free hheld
  obtain ⟨h3, -, h4⟩ := h.pages.held_range hheld
  refine ⟨pages, h1, fun m' g' hs he hp hg ho => ?_⟩
  subst hp
  refine ⟨?_, ?_, fun i => ?_, ?_, ?_, ?_⟩
  · rw [hg]
    exact h2
  · rw [hg]
    change Runs m'.heapStart _
    rw [hs]
    exact h.pages.runs.putRun hpos h3 fun i hi hi' => (h4 i hi hi').1
  · have h5 := h.pages.pages i
    have h6 := cover_perm ho i
    have h7 : (g.pageState m).held i = cover (g.owned m) i := rfl
    change cover (g'.owned m') i + _ = if m'.heapStart ≤ i ∧ i < m'.heapEnd then 1 else 0
    change _ = if m.heapStart ≤ i ∧ i < m.heapEnd then 1 else 0 at h5
    rw [cover_cons] at h6
    rw [hg, hs, he, cover_putRun]
    have h8 : inRun (r.1, r.2) i = inRun r i := rfl
    omega
  · change 0 < m'.heapStart
    rw [hs]
    exact h.pages.start
  · change m'.heapStart < m'.heapEnd
    rw [hs, he]
    exact h.pages.stop
  · change m'.heapEnd < pageCount
    rw [he]
    exact h.pages.limit

/-- **The branch of `rt_slab_free` for a large block.** -/
theorem freeLarge (h : SlabInv k m g) (hr : r ∈ g.larges) :
    ∃ m' g', m.freeLarge (r.1 * rtMmPageSize) = some m' ∧ SlabInv k m' g' ∧ g'.spare = g.spare ∧
      ∀ q n, Block m' g' q n ↔ Block m g q n ∧ q ≠ r.1 * rtMmPageSize := by
  obtain ⟨hpos, -⟩ := h.large r hr
  obtain ⟨pages, h1, h2⟩ := h.pageFree (large_owned hr) hpos
  have hnd := (List.nodup_append.mp h.owned_nodup).1
  have hmem : ∀ s, s ∈ g.larges.erase r ↔ s ≠ r ∧ s ∈ g.larges := fun s => hnd.mem_erase_iff
  have hdiv : r.1 * rtMmPageSize / rtMmPageSize = r.1 := Nat.mul_div_cancel _ (by decide)
  simp only [Slab.freeLarge]
  rw [h.usage_large hr, hdiv, if_pos (Nat.mul_mod_left _ _)]
  refine ⟨_, { g with runs := putRun r.1 r.2 g.runs, larges := g.larges.erase r },
    (congrArg (Option.map _) h1).trans (Option.map_some _ _), ?_, rfl, ?_⟩
  · refine { h with
      shape := ⟨h.shape.pages, h.shape.limit, h.shape.size, h.shape.cnt⟩
      pages := h2 _ _ rfl rfl rfl rfl ?_
      large := fun s hs => ?_
      small := fun z hz i hi => ?_ }
    · have hp := (List.perm_cons_erase hr).symm
      simp only [SlabLists.owned]
      refine (List.Perm.swap _ _ _).trans (List.Perm.cons _ ?_)
      exact List.Perm.append_right _ hp
    · obtain ⟨hsr, hs⟩ := (hmem s).mp hs
      have h3 := h.large_large hs hr hsr
      have h4 := h.large_range hs
      have h5 := h.large_range hr
      have h6 := (h.large s hs).1
      refine ⟨h6, ?_⟩
      have hne : s.1 - m.heapStart ≠ r.1 - m.heapStart := by omega
      exact (Function.update_of_ne hne _ _).trans (h.large s hs).2
    · have h3 := h.large_zone hr hz
      have h4 := h.zone_range hz
      have h5 := h.large_range hr
      have hi' : i < m.zonePageCnt := hi
      have hne : z + i - m.heapStart ≠ r.1 - m.heapStart := by omega
      exact (Function.update_of_ne hne _ _).trans (h.small z hz i hi)
  · intro q n
    constructor
    · rintro (⟨s, hs, rfl, rfl⟩ | ⟨z, hz, hq, hn⟩)
      · obtain ⟨hsr, hs⟩ := (hmem s).mp hs
        refine ⟨.inl ⟨s, hs, rfl, rfl⟩, fun he => ?_⟩
        have h3 := h.large_large hs hr hsr
        have h4 := Nat.eq_of_mul_eq_mul_right (by decide) he
        have h5 := (h.large s hs).1
        omega
      · refine ⟨.inr ⟨z, hz, hq, hn⟩, ?_⟩
        rintro rfl
        have h3 := (h.zoneOk hz).live_range hq
        have h4 := h.large_zone hr (List.mem_append_left _ hz)
        have h5 := h.shape.pages
        have h6 := (h.zoneOk hz).size_pos
        simp only [rtMmPageSize] at *
        have hm : minChunkSize = 8 := rfl
        omega
    · rintro ⟨⟨s, hs, rfl, rfl⟩ | hz, hq⟩
      · exact .inl ⟨s, (hmem s).mpr ⟨fun e => hq (by rw [e]), hs⟩, rfl, rfl⟩
      · exact .inr hz

/-- The address of a free chunk of one zone is not in another. -/
theorem chunk_ne (h : SlabInv k m g) (hz : z ∈ g.zones) {y a : ℕ} (hy : y ∈ g.zones ++ g.cache) (hyz : y ≠ z)
    (hp : (m.zone z).LiveChunk (g.freed z) p) (ha : a ∈ g.freed y) : a ≠ p := by
  rintro rfl
  have h1 := (h.zoneOk hz).live_range hp
  have h2 := (h.zone y hy).free_range ha
  have h3 := h.zone_disjoint (zones_cache hy) (List.mem_append_left _ hz) hyz
  have h4 := h.shape.pages
  have h5 := (h.zone y hy).size_pos
  have h6 := (h.zoneOk hz).size_pos
  simp only [rtMmPageSize] at *
  have hm : minChunkSize = 8 := rfl
  omega

/-- **A chunk returns to its zone.** -/
theorem pushChunk (h : SlabInv k m g) (hz : z ∈ g.zones)
    (hp : (m.zone z).LiveChunk (g.freed z) p) :
    ∃ g', SlabInv k (m.pushChunk z p) g' ∧ g'.spare = g.spare ∧ z ∈ g'.zones ∧
      ∀ q n, Block (m.pushChunk z p) g' q n ↔ Block m g q n ∧ q ≠ p := by
  have hk := h.zoneOk hz
  obtain ⟨next, hnext⟩ : ∃ next, next =
      if (m.zone z).nfree = 0 then m.zoneArray (m.zone z).zoneindex else (m.zone z).next := ⟨_, rfl⟩
  obtain ⟨array, harr⟩ : ∃ array, array = if (m.zone z).nfree = 0 then
      Function.update m.zoneArray (m.zone z).zoneindex (some z) else m.zoneArray := ⟨_, rfl⟩
  have hcode : m.pushChunk z p = { m with
      chunk := Function.update m.chunk p (m.zone z).freechunk
      used := (m.memUnstat (m.zone z).chunksize).used
      zone := Function.update m.zone z
        { m.zone z with freechunk := some p, nfree := (m.zone z).nfree + 1, next := next }
      zoneArray := array } := by
    rw [hnext, harr]
    rfl
  obtain ⟨avail, hav⟩ : ∃ avail, AvailOk (Function.update m.zone z
      { m.zone z with freechunk := some p, nfree := (m.zone z).nfree + 1, next := next })
      array g.zones avail := by
    by_cases h0 : (m.zone z).nfree = 0
    · rw [hnext, harr, if_pos h0, if_pos h0]
      refine ⟨_, h.avail.push (fun zj hm => ?_) rfl rfl (Nat.succ_pos _) fun y => ?_⟩
      · have := ((h.avail.mem zj z).mp hm).2.2
        omega
      · exact ⟨.inr, fun hy => hy.elim (fun e => e ▸ hz) id⟩
    · rw [hnext, harr, if_neg h0, if_neg h0]
      refine ⟨_, h.avail.keep rfl rfl ?_⟩
      dsimp only
      omega
  rw [hcode]
  refine ⟨{ g with avail := avail, freed := Function.update g.freed z (p :: g.freed z) }, ?_, rfl,
    hz, ?_⟩
  · refine { h with
      shape := ⟨h.shape.pages, h.shape.limit, h.shape.size, h.shape.cnt⟩
      magic := fun y hy => ?_
      zone := fun y hy => ?_
      avail := hav
      cache := AvailOk.frame_update h.cache (h.not_cache hz) _ }
    · dsimp only
      by_cases hyz : y = z
      · subst hyz
        rw [Function.update_self]
        exact h.magic y hz
      · rw [Function.update_of_ne hyz]
        exact h.magic y hy
    · dsimp only
      by_cases hyz : y = z
      · subst hyz
        rw [Function.update_self, Function.update_self]
        exact hk.push hp next
      · rw [Function.update_of_ne hyz, Function.update_of_ne hyz]
        exact (h.zone y hy).frame fun a ha =>
          Function.update_of_ne (h.chunk_ne hz hy hyz hp ha) _ _
  · intro q n
    rw [Block, Block]
    dsimp only
    have hlarge : ∀ r ∈ g.larges, r.1 * rtMmPageSize ≠ p := fun r hr he => by
      have h1 := hk.live_range hp
      have h2 := h.large_zone hr (List.mem_append_left _ hz)
      have h3 := h.shape.pages
      have h4 := (h.large r hr).1
      have h6 := hk.size_pos
      simp only [rtMmPageSize] at *
      have hm : minChunkSize = 8 := rfl
      omega
    have hother : ∀ y ∈ g.zones, y ≠ z → (m.zone y).LiveChunk (g.freed y) q → q ≠ p := by
      rintro y hy hyz hq rfl
      have h1 := hk.live_range hp
      have h2 := (h.zoneOk hy).live_range hq
      have h3 := h.zone_disjoint (List.mem_append_left _ hy) (List.mem_append_left _ hz) hyz
      have h4 := h.shape.pages
      have h5 := hk.size_pos
      have h6 := (h.zoneOk hy).size_pos
      simp only [rtMmPageSize] at *
      have hm : minChunkSize = 8 := rfl
      omega
    constructor
    · rintro (⟨r, hr, rfl, h2⟩ | ⟨y, hy, h1, h2⟩)
      · exact ⟨.inl ⟨r, hr, rfl, h2⟩, hlarge r hr⟩
      · by_cases hyz : y = z
        · subst hyz
          rw [Function.update_self, Function.update_self, ZoneOk.push_live] at h1
          rw [Function.update_self] at h2
          exact ⟨.inr ⟨y, hy, h1.1, h2⟩, h1.2⟩
        · rw [Function.update_of_ne hyz, Function.update_of_ne hyz] at h1
          rw [Function.update_of_ne hyz] at h2
          exact ⟨.inr ⟨y, hy, h1, h2⟩, hother y hy hyz h1⟩
    · rintro ⟨hr | ⟨y, hy, h1, h2⟩, hq⟩
      · exact .inl hr
      · refine .inr ⟨y, hy, ?_⟩
        by_cases hyz : y = z
        · subst hyz
          rw [Function.update_self, Function.update_self, ZoneOk.push_live]
          exact ⟨⟨h1, hq⟩, h2⟩
        · rw [Function.update_of_ne hyz, Function.update_of_ne hyz]
          exact ⟨h1, h2⟩

/-- The zones of a list are at most as many as the pages. -/
theorem avail_length (h : SlabInv k m g) (zi : ℕ) : (g.avail zi).length ≤ pageCount := by
  have hsub : g.avail zi ⊆ List.range pageCount := fun z hz => by
    have h1 := h.zone_range (List.mem_append_left _ ((h.avail.mem zi z).mp hz).1)
    have h2 := h.pages.limit
    have h3 := h.shape.cnt_pos
    have h4 : (g.pageState m).heapEnd = m.heapEnd := rfl
    exact List.mem_range.mpr (by omega)
  have := ((h.avail.list zi).nodup.subperm hsub).length_le
  rwa [List.length_range] at this

/-- **An empty zone joins the free ones.** -/
theorem retireZone (h : SlabInv 2 m g) (hz : z ∈ g.zones) (hf : (m.zone z).nfree = (m.zone z).nmax) :
    ∃ m' g', m.retireZone z = some m' ∧ SlabInv 3 m' g' ∧ g'.spare = g.spare ∧
      ∀ q n, Block m' g' q n ↔ Block m g q n := by
  have hk := h.zoneOk hz
  have hza : z ∈ g.avail (m.zone z).zoneindex :=
    (h.avail.mem _ z).mpr ⟨hz, rfl, by have := hk.uindex; omega⟩
  obtain ⟨a, b, h1, h2⟩ := AvailOk.findZone_spec none (h.avail.list (m.zone z).zoneindex)
    hza (h.avail_length _)
  rw [Option.or_none] at h2
  have hnd := (List.nodup_append.mp h.zones_nodup).1
  have hzones : ∀ y, y ∈ g.zones.erase z ↔ y ∈ g.zones ∧ y ≠ z := fun y => by
    rw [hnd.mem_erase_iff, and_comm]
  have hzc := h.not_cache hz
  -- the headers and the array without the zone
  obtain ⟨zone, array, avail, hcode, hav, hzone, hcache⟩ : ∃ zone array avail,
      m.retireZone z = some { m with
        zone := Function.update zone z { zone z with magic := 2 ^ 32 - 1, next := m.zoneFree }
        zoneArray := array
        zoneFree := some z
        zoneFreeCnt := (m.zoneFreeCnt + 1) % 2 ^ 32 } ∧
      AvailOk zone array (g.zones.erase z) avail ∧
      (∀ y, ∃ next, zone y = { m.zone y with next := next }) ∧
      NextChain (zoneNext zone) m.zoneFree g.cache := by
    simp only [Slab.retireZone]
    rw [h2]
    rcases List.eq_nil_or_concat a with rfl | ⟨a, y, rfl⟩
    · exact ⟨m.zone, _, _, rfl, h.avail.removeFirst h1 hzones, fun y => ⟨_, rfl⟩, h.cache⟩
    · rw [List.concat_eq_append, List.append_assoc] at h1
      rw [List.concat_eq_append, List.getLast?_concat]
      have hy : y ∈ g.avail (m.zone z).zoneindex := by
        rw [h1]
        simp
      refine ⟨_, _, _, rfl, h.avail.removeNext h1 hzones, fun x => ?_,
        AvailOk.frame_update h.cache (h.not_cache ((h.avail.mem _ y).mp hy).1) _⟩
      by_cases hxy : x = y
      · subst hxy
        exact ⟨(m.zone z).next, Function.update_self _ _ _⟩
      · exact ⟨(m.zone x).next, Function.update_of_ne hxy _ _⟩
  have hall : (SlabLists.all { g with zones := g.zones.erase z, cache := z :: g.cache }).Perm
      g.all := by
    simp only [SlabLists.all]
    exact List.perm_middle.trans ((List.perm_cons_erase hz).symm.append_right _)
  have hlen := h.cnt_le
  have hcnt := h.cnt
  refine ⟨_, { g with
    zones := g.zones.erase z, cache := z :: g.cache, avail := avail }, hcode, ?_, rfl, ?_⟩
  · refine { h with
      shape := ⟨h.shape.pages, h.shape.limit, h.shape.size, h.shape.cnt⟩
      pages := h.pages_perm rfl rfl rfl rfl (((hall.map _).append_left _).cons _)
      small := fun y hy => h.small y (hall.mem_iff.mp hy)
      magic := fun y hy => ?_
      zone := fun y hy => ?_
      avail := hav.outside (fun hc => ((hzones z).mp hc).2 rfl) _
      cache := ?_
      cnt := ?_
      cnt_le := ?_
      k_le := Nat.le_refl _ }
    · obtain ⟨hy, hyz⟩ := (hzones y).mp hy
      obtain ⟨next, he⟩ := hzone y
      dsimp only
      rw [Function.update_of_ne hyz, he]
      exact h.magic y hy
    · obtain ⟨next, he⟩ := hzone y
      have hy' : y ∈ g.zones ++ g.cache := by
        rcases List.mem_append.mp hy with hy | hy
        · exact List.mem_append_left _ ((hzones y).mp hy).1
        · rcases List.mem_cons.mp hy with rfl | hy
          · exact List.mem_append_left _ hz
          · exact List.mem_append_right _ hy
      have hky := h.zone y hy'
      dsimp only
      by_cases hyz : y = z
      · subst hyz
        rw [Function.update_self, he]
        exact ⟨hky.index, hky.size, hky.base, hky.stop, hky.uindex, hky.nfree, hky.list, hky.mem⟩
      · rw [Function.update_of_ne hyz, he]
        exact ⟨hky.index, hky.size, hky.base, hky.stop, hky.uindex, hky.nfree, hky.list, hky.mem⟩
    · refine .cons ?_
      dsimp only [zoneNext]
      rw [Function.update_self]
      exact AvailOk.frame_update hcache hzc _
    · rw [List.length_cons]
      dsimp only
      omega
    · rw [List.length_cons]
      omega
  · intro q n
    rw [Block, Block]
    dsimp only
    have hsame : ∀ y ∈ g.zones, y ≠ z → ∃ next,
        Function.update zone z { zone z with magic := 2 ^ 32 - 1, next := m.zoneFree } y =
          { m.zone y with next := next } := fun y _ hyz => by
      rw [Function.update_of_ne hyz]
      exact hzone y
    refine or_congr_right ⟨?_, ?_⟩
    · rintro ⟨y, hy, h3, h4⟩
      obtain ⟨hy, hyz⟩ := (hzones y).mp hy
      obtain ⟨next, he⟩ := hsame y hy hyz
      rw [he] at h3 h4
      exact ⟨y, hy, h3, h4⟩
    · rintro ⟨y, hy, h3, h4⟩
      have hyz : y ≠ z := fun e => hk.all_free hf q (e ▸ h3)
      obtain ⟨next, he⟩ := hsame y hy hyz
      refine ⟨y, (hzones y).mpr ⟨hy, hyz⟩, ?_⟩
      rw [he]
      exact ⟨h3, h4⟩

/-- **The pages of a free zone go back.** -/
theorem releaseZone (h : SlabInv 3 m g) (hc : m.zoneFreeCnt > zoneReleaseThresh) :
    ∃ m' g', m.releaseZone = some m' ∧ SlabInv 2 m' g' ∧ g'.spare = g.spare ∧
      ∀ q n, Block m' g' q n ↔ Block m g q n := by
  have hcnt := h.cnt
  have hle := h.cnt_le
  have hthr : zoneReleaseThresh = 2 := rfl
  obtain ⟨z, hz⟩ : ∃ z, m.zoneFree = some z := by
    rcases Option.eq_none_or_eq_some m.zoneFree with hn | hs
    · have hl := h.cache
      rw [hn] at hl
      rw [hl.eq_nil, List.length_nil] at hcnt
      omega
    · exact hs
  have hl := h.cache
  rw [hz] at hl
  obtain ⟨t, ht, hct⟩ := hl.pop
  rw [ht, List.length_cons] at hcnt hle
  have hza : z ∈ g.all := by
    rw [SlabLists.all, ht]
    simp
  have hdiv : m.zoneSize / rtMmPageSize = m.zonePageCnt := by
    rw [h.shape.pages, Nat.mul_div_cancel _ (by decide)]
  obtain ⟨pages, h1, h2⟩ := h.pageFree (zone_owned hza) h.shape.cnt_pos
  have hall : (z :: SlabLists.all { g with cache := t }).Perm g.all := by
    simp only [SlabLists.all]
    rw [ht, List.cons_append]
    exact List.perm_middle.symm
  have hnd : z ∉ SlabLists.all { g with cache := t } :=
    (List.nodup_cons.mp (hall.nodup_iff.mpr h.zones_nodup)).1
  have hcode : m.releaseZone = some { (Slab.markZone { m with
      zoneFree := (m.zone z).next
      zoneFreeCnt := (m.zoneFreeCnt + (2 ^ 32 - 1)) % 2 ^ 32 } z fun _ => ⟨.free, 0⟩) with
      pages := pages } := by
    rw [Slab.releaseZone, hz]
    dsimp only [Slab.markZone]
    rw [hdiv, h1]
    rfl
  refine ⟨_, { g with cache := t, runs := putRun z m.zonePageCnt g.runs }, hcode, ?_, rfl,
    fun q n => Iff.rfl⟩
  refine { h with
    shape := ⟨h.shape.pages, h.shape.limit, h.shape.size, h.shape.cnt⟩
    pages := h2 _ _ rfl rfl rfl rfl ?_
    large := fun r hr => ?_
    small := fun y hy i hi => ?_
    zone := fun y hy => h.zone y ?_
    cache := hct
    cnt := ?_
    cnt_le := ?_
    k_le := by omega }
  · have hp := (hall.map fun z => (z, m.zonePageCnt)).append_left g.larges
    simp only [SlabLists.owned]
    refine (List.Perm.swap _ _ _).trans (List.Perm.cons _ ?_)
    exact List.perm_middle.symm.trans hp
  · have h3 := h.large_zone hr hza
    have h4 := h.large_range hr
    have h5 := h.zone_range hza
    have h6 := (h.large r hr).1
    refine ⟨h6, ?_⟩
    dsimp only [Slab.markZone]
    rw [if_neg (by omega)]
    exact (h.large r hr).2
  · have hy' : y ∈ g.all := hall.mem_iff.mp (List.mem_cons_of_mem _ hy)
    have hyz : y ≠ z := fun e => hnd (e ▸ hy)
    have h3 := h.zone_disjoint hy' hza hyz
    have h4 := h.zone_range hy'
    have h5 := h.zone_range hza
    have hi' : i < m.zonePageCnt := hi
    dsimp only [Slab.markZone]
    rw [if_neg (by omega)]
    exact h.small y hy' i hi'
  · rw [ht]
    rcases List.mem_append.mp hy with hy | hy
    · exact List.mem_append_left _ hy
    · exact List.mem_append_right _ (List.mem_cons_of_mem _ hy)
  · dsimp only [Slab.markZone]
    omega
  · dsimp only
    omega

theorem tighten {k' : ℕ} (h : SlabInv k m g) (hle : g.cache.length ≤ k') (hk : k' ≤ 3) :
    SlabInv k' m g :=
  { h with cnt_le := hle, k_le := hk }

/-- **The branch of `rt_slab_free` for a chunk.** -/
theorem freeChunk (h : SlabInv 2 m g) (hz : z ∈ g.zones)
    (hp : (m.zone z).LiveChunk (g.freed z) p) :
    ∃ m' g', m.freeChunk p = some m' ∧ SlabInv 2 m' g' ∧ g'.spare = g.spare ∧
      ∀ q n, Block m' g' q n ↔ Block m g q n ∧ q ≠ p := by
  obtain ⟨g₁, h1, h2, h3, h4⟩ := h.pushChunk hz hp
  simp only [Slab.freeChunk]
  rw [(h.zone_of hz hp).2, if_pos (h.magic z hz)]
  by_cases hc : ((m.pushChunk z p).zone z).nfree = ((m.pushChunk z p).zone z).nmax ∧
      (((m.pushChunk z p).zone z).next ≠ none ∨
        (m.pushChunk z p).zoneArray ((m.pushChunk z p).zone z).zoneindex ≠ some z)
  · obtain ⟨m₂, g₂, h5, h6, h7, h8⟩ := h1.retireZone h3 hc.1
    rw [if_pos hc, h5]
    dsimp only
    by_cases ht : m₂.zoneFreeCnt > zoneReleaseThresh
    · obtain ⟨m₃, g₃, h9, h10, h11, h12⟩ := h6.releaseZone ht
      rw [if_pos ht]
      exact ⟨m₃, g₃, h9, h10, h11.trans (h7.trans h2), fun q n =>
        (h12 q n).trans ((h8 q n).trans (h4 q n))⟩
    · rw [if_neg ht]
      have hle : g₂.cache.length ≤ 2 := by
        rw [← h6.cnt]
        exact Nat.le_of_not_lt ht
      exact ⟨m₂, g₂, rfl, h6.tighten hle (by decide), h7.trans h2, fun q n =>
        (h8 q n).trans (h4 q n)⟩
  · rw [if_neg hc]
    exact ⟨_, g₁, rfl, h1, h2, h4⟩

/-- **`rt_slab_free`** of a block that a caller has. -/
theorem free (h : SlabInv 2 m g) (hb : Block m g p n) :
    ∃ m' g', m.slabFree (some p) = some m' ∧ SlabInv 2 m' g' ∧ g'.spare = g.spare ∧
      ∀ q n, Block m' g' q n ↔ Block m g q n ∧ q ≠ p := by
  simp only [Slab.slabFree]
  rcases hb with ⟨r, hr, rfl, rfl⟩ | ⟨z, hz, hp, rfl⟩
  · rw [h.usage_large hr, if_pos rfl]
    exact h.freeLarge hr
  · rw [if_neg (by rw [(h.zone_of hz hp).1]; decide)]
    exact h.freeChunk hz hp

/-- Allocating anew and freeing the old block. -/
theorem moveBlock (h : SlabInv 2 m g) (hsp : g.spare = []) (hb : Block m g p n) (size : ℕ) :
    (¬ m.Available size ∧ m.moveBlock p size = some (none, m)) ∨
      m.Available size ∧ ∃ q m' g', m.moveBlock p size = some (some q, m') ∧ SlabInv 2 m' g' ∧
        g'.spare = [] ∧
        ∀ x y, Block m' g' x y ↔ (Block m g x y ∧ x ≠ p) ∨ x = q ∧ y = m.given size := by
  rw [Slab.moveBlock]
  obtain ⟨h1, h2⟩ | ⟨h1, q, m₁, g₁, h2, h3, h4, h5, h6⟩ := h.alloc hsp size
  · rw [h2]
    exact .inl ⟨h1, rfl⟩
  obtain ⟨m₂, g₂, h7, h8, h9, h10⟩ := h3.free ((h6 p n).mpr (.inl hb))
  have hqp : q ≠ p := fun e => h5 n (e ▸ hb)
  rw [h2]
  dsimp only
  rw [h7]
  refine .inr ⟨h1, q, m₂, g₂, rfl, h8, h9.trans h4, fun x y => ?_⟩
  rw [h10, h6]
  constructor
  · rintro ⟨hx | hx, hxp⟩
    · exact .inl ⟨hx, hxp⟩
    · exact .inr hx
  · rintro (⟨hx, hxp⟩ | ⟨rfl, hy⟩)
    · exact ⟨.inl hx, hxp⟩
    · exact ⟨.inr ⟨rfl, hy⟩, hqp⟩

/-- **`rt_slab_realloc`** of a block to another size: it stays, or moves, or nothing happens. -/
theorem realloc (h : SlabInv 2 m g) (hsp : g.spare = []) (hb : Block m g p n) (h0 : size ≠ 0)
    (hs : size < 2 ^ 32) :
    m.slabRealloc (some p) size = some (none, m) ∨
      ∃ q m' g' n', m.slabRealloc (some p) size = some (some q, m') ∧ SlabInv 2 m' g' ∧
        g'.spare = [] ∧ size ≤ n' ∧
        ∀ x y, Block m' g' x y ↔ (Block m g x y ∧ x ≠ p) ∨ x = q ∧ y = n' := by
  simp only [Slab.slabRealloc]
  rw [if_neg h0]
  -- what a move of a block to the possibly rounded size comes to
  have hmove : ∀ size', size ≤ size' → size' < 2 ^ 32 →
      m.moveBlock p size' = some (none, m) ∨
        ∃ q m' g' n', m.moveBlock p size' = some (some q, m') ∧ SlabInv 2 m' g' ∧ g'.spare = [] ∧
          size ≤ n' ∧ ∀ x y, Block m' g' x y ↔ (Block m g x y ∧ x ≠ p) ∨ x = q ∧ y = n' :=
    fun size' hle hlt => by
      obtain ⟨-, h2⟩ | ⟨h1, q, m', g', h2, h3, h4, h5⟩ := h.moveBlock hsp hb size'
      · exact .inl h2
      · exact .inr ⟨q, m', g', _, h2, h3, h4, Nat.le_trans hle (h.given_bounds h1 hlt).1, h5⟩
  rcases hb with ⟨r, hr, rfl, rfl⟩ | ⟨z, hz, hp, rfl⟩
  · rw [h.usage_large hr]
    exact hmove size (Nat.le_refl _) hs
  · obtain ⟨h1, h2⟩ := h.zone_of hz hp
    rw [h1, h2]
    dsimp only
    rw [if_pos (h.magic z hz)]
    have hround := zoneindex_le (Nat.pos_of_ne_zero h0) hs
    by_cases hc : (m.zone z).chunksize = (zoneindex size).2
    · rw [if_pos hc]
      refine .inr ⟨p, m, g, _, rfl, h, hsp, Nat.le_trans hround.1 (Nat.le_of_eq hc.symm), fun x y => ?_⟩
      constructor
      · intro hx
        by_cases hxp : x = p
        · subst hxp
          exact .inr ⟨rfl, h.block_unique hx (.inr ⟨z, hz, hp, rfl⟩)⟩
        · exact .inl ⟨hx, hxp⟩
      · rintro (⟨hx, -⟩ | ⟨rfl, rfl⟩)
        · exact hx
        · exact .inr ⟨z, hz, hp, rfl⟩
    · rw [if_neg hc]
      exact hmove _ hround.1 hround.2

end SlabInv

end RtThread
