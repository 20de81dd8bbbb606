import RtThread.Memory.SlabPages

/-!
# The slab heap

`src/slab.c`: a request below the zone limit is rounded up to one of 72 chunk sizes and taken from a
zone of that size; a larger one is a run of pages. `memusage` says for every page which of the two it
belongs to.

* `zoneindex`, `chunkOf`: the size classes;
* `Slab` and its operations `slabAlloc`, `slabFree`, `slabRealloc`, `slabInit`.

Zones are named by their first page, chunks and pointers by byte addresses. Each kind of record that
the memory holds is a map of its own; the blocks' data are not modelled.
-/

namespace RtThread

/-- `ZALLOC_SLAB_MAGIC`. -/
abbrev zallocSlabMagic : ℕ := 0x51ab51ab

/-- `ZALLOC_ZONE_LIMIT`. -/
abbrev zallocZoneLimit : ℕ := 16 * 1024

/-- `ZALLOC_MIN_ZONE_SIZE`. -/
abbrev zallocMinZoneSize : ℕ := 32 * 1024

/-- `ZALLOC_MAX_ZONE_SIZE`. -/
abbrev zallocMaxZoneSize : ℕ := 128 * 1024

/-- `ZONE_RELEASE_THRESH`. -/
abbrev zoneReleaseThresh : ℕ := 2

/-- `MIN_CHUNK_SIZE`. -/
abbrev minChunkSize : ℕ := 8

/-- `RT_SLAB_NZONES`. -/
abbrev rtSlabNzones : ℕ := 72

/-- `sizeof(struct rt_slab_zone)`. -/
abbrev sizeofSlabZone : ℕ := 36

/-- `sizeof(struct rt_slab_memusage)`. -/
abbrev sizeofSlabMemusage : ℕ := 4

/-! ## Size classes -/

/-- `zoneindex`: the index, and the request rounded up to the chunk size. -/
def zoneindex (n : ℕ) : ℕ × ℕ :=
  if n < 128 then (alignTo n 8 / 8 - 1, alignTo n 8)
  else if n < 256 then (alignTo n 16 / 16 + 7, alignTo n 16)
  else if n < 8192 then
    if n < 512 then (alignTo n 32 / 32 + 15, alignTo n 32)
    else if n < 1024 then (alignTo n 64 / 64 + 23, alignTo n 64)
    else if n < 2048 then (alignTo n 128 / 128 + 31, alignTo n 128)
    else if n < 4096 then (alignTo n 256 / 256 + 39, alignTo n 256)
    else (alignTo n 512 / 512 + 47, alignTo n 512)
  else if n < 16384 then (alignTo n 1024 / 1024 + 55, alignTo n 1024)
  else (0, n)

/-- The chunk size of an index. -/
def chunkOf (zi : ℕ) : ℕ :=
  if zi < 16 then 8 * (zi + 1)
  else if zi < 24 then 16 * (zi - 7)
  else if zi < 32 then 32 * (zi - 15)
  else if zi < 40 then 64 * (zi - 23)
  else if zi < 48 then 128 * (zi - 31)
  else if zi < 56 then 256 * (zi - 39)
  else if zi < 64 then 512 * (zi - 47)
  else 1024 * (zi - 55)

section

variable {n : ℕ}

/-- A request in units of the chunk granularity. -/
theorem alignTo_class (n : ℕ) {a : ℕ} (ha : 0 < a) (h : n + a ≤ 2 ^ 32) :
    ∃ q, alignTo n a / a = q ∧ alignTo n a = q * a ∧ n ≤ q * a ∧ q * a < n + a := by
  have he : alignTo n a = (n + (a - 1)) / a * a := alignTo_eq (by omega)
  refine ⟨(n + (a - 1)) / a, ?_, he, ?_, ?_⟩
  · rw [he, Nat.mul_div_cancel _ ha]
  · have := Nat.lt_div_mul_add (a := n + (a - 1)) ha
    omega
  · have := Nat.div_mul_le_self (n + (a - 1)) a
    omega

/-- What is shown of the size class of a request. -/
def ClassOk (n : ℕ) (r : ℕ × ℕ) : Prop :=
  r.2 = chunkOf r.1 ∧ r.1 < rtSlabNzones ∧ n ≤ r.2 ∧ r.2 < n + 1024 ∧ (n < 8192 → r.2 ≤ 8192) ∧
    r.2 ≤ 16384

/-- One granularity: eight chunk sizes, from `8 * a` to `16 * a`. -/
theorem classOk_of {a c : ℕ} (ha : 0 < a) (ha' : a ≤ 512 ∨ a = 1024) (h1 : 8 * a ≤ n) (h2 : n < 16 * a)
    (hc : c ≤ 55) (hq : ∀ q, q ≤ 16 → 8 ≤ q → q * a = chunkOf (q + c)) :
    ClassOk n (alignTo n a / a + c, alignTo n a) := by
  obtain ⟨q, e1, e2, e3, e4⟩ := alignTo_class n ha (by omega)
  have hle : q ≤ 16 := by
    by_contra hlt
    have := Nat.mul_le_mul_right a (by omega : 17 ≤ q)
    omega
  have hge : 8 ≤ q := by
    by_contra hlt
    have := Nat.mul_le_mul_right a (by omega : q ≤ 7)
    omega
  have h16 : q * a ≤ 16 * a := Nat.mul_le_mul_right a hle
  have hz : rtSlabNzones = 72 := rfl
  rw [ClassOk, e1, e2]
  refine ⟨hq q hle hge, ?_, e3, ?_, fun hn => ?_, ?_⟩
  · dsimp only
    omega
  · dsimp only
    omega
  · dsimp only
    omega
  · dsimp only
    omega

/-- **The size classes**: the index determines the chunk size, and the rounding is up, by less than
1024 bytes. -/
theorem zoneindex_spec (h0 : 0 < n) (h : n < 16384) : ClassOk n (zoneindex n) := by
  rw [zoneindex]
  split_ifs with h1 h2 h3 h4 h5 h6 h7
  · obtain ⟨q, e1, e2, e3, e4⟩ := alignTo_class n (a := 8) (by omega) (by omega)
    have hq : ∀ q, q ≤ 16 → 1 ≤ q → q * 8 = chunkOf (q - 1) := by decide
    have hz : rtSlabNzones = 72 := rfl
    rw [ClassOk, e1, e2]
    exact ⟨hq q (by omega) (by omega), by dsimp only; omega, e3, by dsimp only; omega,
      fun _ => by dsimp only; omega, by dsimp only; omega⟩
  · exact classOk_of (by omega) (by omega) (by omega) (by omega) (by omega) (by decide)
  · exact classOk_of (by omega) (by omega) (by omega) (by omega) (by omega) (by decide)
  · exact classOk_of (by omega) (by omega) (by omega) (by omega) (by omega) (by decide)
  · exact classOk_of (by omega) (by omega) (by omega) (by omega) (by omega) (by decide)
  · exact classOk_of (by omega) (by omega) (by omega) (by omega) (by omega) (by decide)
  · exact classOk_of (by omega) (by omega) (by omega) (by omega) (by omega) (by decide)
  · exact classOk_of (by omega) (by omega) (by omega) (by omega) (by omega) (by decide)

/-- Above the classes, `zoneindex` leaves the size as it is. -/
theorem zoneindex_large (h : 16384 ≤ n) : zoneindex n = (0, n) := by
  simp only [zoneindex]
  rw [if_neg (by omega), if_neg (by omega), if_neg (by omega), if_neg (by omega)]

theorem zoneindex_le (h0 : 0 < n) (h : n < 2 ^ 32) : n ≤ (zoneindex n).2 ∧ (zoneindex n).2 < 2 ^ 32 := by
  by_cases hl : n < 16384
  · obtain ⟨-, -, h3, h4, -⟩ := zoneindex_spec h0 hl
    omega
  · rw [zoneindex_large (Nat.le_of_not_lt hl)]
    exact ⟨Nat.le_refl _, h⟩

theorem chunkOf_pos (zi : ℕ) : minChunkSize ≤ chunkOf zi := by
  simp only [chunkOf, minChunkSize]
  split_ifs <;> omega

theorem chunkOf_le {zi : ℕ} (h : zi < rtSlabNzones) : chunkOf zi ≤ 16384 := by
  simp only [chunkOf]
  have hz : rtSlabNzones = 72 := rfl
  split_ifs <;> omega

end

/-! ## The state -/

/-- The values of `type` in `struct rt_slab_memusage`; the last is none of the macros. -/
inductive PageType where
  | free | small | large | other
  deriving DecidableEq, Repr

/-- `struct rt_slab_memusage`. -/
structure SlabMemusage where
  type : PageType
  size : ℕ
  deriving DecidableEq, Repr

/-- `struct rt_slab_zone`. -/
structure SlabZone where
  magic : ℕ
  nfree : ℕ
  nmax : ℕ
  next : Option ℕ
  baseptr : ℕ
  uindex : ℕ
  chunksize : ℕ
  zoneindex : ℕ
  freechunk : Option ℕ
  deriving DecidableEq, Repr

/-- One free chunk less: `--z->z_nfree`, and no link for a zone that is full. -/
def SlabZone.take (hdr : SlabZone) : SlabZone :=
  { hdr with
    nfree := hdr.nfree - 1
    next := if hdr.nfree - 1 = 0 then none else hdr.next }

/-- `struct rt_slab`, with the zone headers, the chunks' links and the page list of its memory. The
bounds of the heap are page numbers, and `memusage` is indexed by pages from the first one on. -/
structure Slab where
  heapStart : ℕ
  heapEnd : ℕ
  memusagePage : ℕ
  memusage : ℕ → SlabMemusage
  zoneArray : ℕ → Option ℕ
  zoneFree : Option ℕ
  zoneFreeCnt : ℕ
  zoneSize : ℕ
  zoneLimit : ℕ
  zonePageCnt : ℕ
  pages : SlabPages
  zone : ℕ → SlabZone
  chunk : ℕ → Option ℕ
  used : ℕ
  max : ℕ

namespace Slab

variable (m : Slab)

/-- `btokup`, for an address. -/
def btokup (addr : ℕ) : ℕ := addr / rtMmPageSize - m.heapStart

/-- `*kup = u` for the entry of a page. -/
def setUsage (page : ℕ) (u : SlabMemusage) : Slab :=
  { m with memusage := Function.update m.memusage (page - m.heapStart) u }

/-- The statistics: `used += size`, and the maximum. -/
def memStat (size : ℕ) : Slab :=
  let used := (m.used + size) % 2 ^ 32
  { m with used := used, max := if used > m.max then used else m.max }

/-- `used -= size`, in 32 bits. -/
def memUnstat (size : ℕ) : Slab := { m with used := (m.used + (2 ^ 32 - 1) * size) % 2 ^ 32 }

/-- Update the header of a zone. -/
def setZone (z : ℕ) (hdr : SlabZone) : Slab := { m with zone := Function.update m.zone z hdr }

/-- Update an entry of `zone_array`. -/
def setArray (zi : ℕ) (z : Option ℕ) : Slab :=
  { m with zoneArray := Function.update m.zoneArray zi z }

/-! ## `rt_slab_alloc` -/

/-- The branch for large requests. -/
def allocLarge (size : ℕ) : Option (Option ℕ × Slab) :=
  let size := alignTo size rtMmPageSize
  let npages := size / rtMmPageSize
  match m.pages.pageAlloc npages with
  | none => none
  | some (none, pages) => some (none, { m with pages := pages })
  | some (some page, pages) =>
    let m := { m with pages := pages }
    let m := m.setUsage page ⟨.large, npages⟩
    some (some (page * rtMmPageSize), m.memStat size)

/-- The branch for a zone with free chunks. -/
def allocChunk (zi size z : ℕ) : Option (Option ℕ × Slab) :=
  let hdr := m.zone z
  if hdr.nfree > 0 then
    -- a zone that is full leaves the array
    let m := { m with
      zoneArray := if hdr.nfree - 1 = 0 then Function.update m.zoneArray zi hdr.next
        else m.zoneArray }
    let hdr := hdr.take
    if hdr.uindex + 1 ≠ hdr.nmax then
      let hdr := { hdr with uindex := hdr.uindex + 1 }
      some (some (hdr.baseptr + hdr.uindex * size), (m.setZone z hdr).memStat hdr.chunksize)
    else
      match hdr.freechunk with
      | none => none
      | some chunk =>
        let hdr := { hdr with freechunk := m.chunk chunk }
        some (some chunk, (m.setZone z hdr).memStat hdr.chunksize)
  else none

/-- The loop that marks the pages of a zone, from its page `off` on. -/
def markZone (z : ℕ) (u : ℕ → SlabMemusage) : Slab :=
  { m with
    memusage := fun i =>
      if z - m.heapStart ≤ i ∧ i < z - m.heapStart + m.zonePageCnt then u (i - (z - m.heapStart))
      else m.memusage i }

/-- A zone for a new size: the first of the free ones, or pages of its own. -/
def takeZone : Option (Option ℕ × Slab) :=
  match m.zoneFree with
  | some z =>
    some (some z,
      { m with zoneFree := (m.zone z).next, zoneFreeCnt := (m.zoneFreeCnt + (2 ^ 32 - 1)) % 2 ^ 32 })
  | none =>
    match m.pages.pageAlloc (m.zoneSize / rtMmPageSize) with
    | none => none
    | some (none, pages) => some (none, { m with pages := pages })
    | some (some z, pages) =>
      some (some z, { m with pages := pages }.markZone z fun off => ⟨.small, off⟩)

/-- The offset of the first chunk in a zone. -/
def chunkOffset (size : ℕ) : ℕ :=
  if (size ||| (size - 1)) + 1 = 2 * size then alignTo sizeofSlabZone size
  else alignTo sizeofSlabZone minChunkSize

/-- The header of a new zone. -/
def newZone (zi size z : ℕ) : SlabZone where
  magic := zallocSlabMagic
  nfree := (m.zoneSize - chunkOffset size) / size - 1
  nmax := (m.zoneSize - chunkOffset size) / size
  next := m.zoneArray zi
  baseptr := z * rtMmPageSize + chunkOffset size
  uindex := 0
  chunksize := size
  zoneindex := zi
  freechunk := none

/-- The branch that makes a new zone. -/
def allocZone (zi size : ℕ) : Option (Option ℕ × Slab) :=
  match m.takeZone with
  | none => none
  | some (none, m) => some (none, m)
  | some (some z, m) =>
    let hdr := m.newZone zi size z
    some (some (hdr.baseptr + hdr.uindex * size),
      ((m.setZone z hdr).setArray zi (some z)).memStat hdr.chunksize)

/-- `rt_slab_alloc`; nothing where an assertion fails. -/
def slabAlloc (size : ℕ) : Option (Option ℕ × Slab) :=
  if size = 0 then some (none, m)
  else if size ≥ m.zoneLimit then m.allocLarge size
  else
    let (zi, size) := zoneindex size
    if zi < rtSlabNzones then
      match m.zoneArray zi with
      | some z => m.allocChunk zi size z
      | none => m.allocZone zi size
    else none

/-! ## `rt_slab_free` -/

/-- The branch for a large block. -/
def freeLarge (ptr : ℕ) : Option Slab :=
  let page := ptr / rtMmPageSize
  let size := (m.memusage (m.btokup ptr)).size
  let m := m.setUsage page { m.memusage (m.btokup ptr) with size := 0 }
  let m := m.memUnstat (size * rtMmPageSize)
  if ptr % rtMmPageSize = 0 then
    (m.pages.pageFree page size).map fun pages => { m with pages := pages }
  else none

/-- Put a chunk into the free list of its zone, which returns to the array if it was full. -/
def pushChunk (z ptr : ℕ) : Slab :=
  let hdr := m.zone z
  let m := { m with chunk := Function.update m.chunk ptr hdr.freechunk }
  let m := m.memUnstat hdr.chunksize
  let m := m.setZone z { hdr with
    freechunk := some ptr
    nfree := hdr.nfree + 1
    next := if hdr.nfree = 0 then m.zoneArray hdr.zoneindex else hdr.next }
  { m with
    zoneArray := if hdr.nfree = 0 then Function.update m.zoneArray hdr.zoneindex (some z)
      else m.zoneArray }

/-- The loop that looks for a zone in its list: the last link, of the array or of a zone. -/
def findZone (zi z : ℕ) : ℕ → Option ℕ → Option (Option ℕ)
  | 0, _ => none
  | fuel + 1, pz =>
    let link := pz.elim (m.zoneArray zi) fun y => (m.zone y).next
    if some z = link then some pz
    else
      match link with
      | none => none
      | some y => findZone zi z fuel (some y)

/-- Move an empty zone to the free ones. -/
def retireZone (z : ℕ) : Option Slab :=
  let hdr := m.zone z
  match m.findZone hdr.zoneindex z pageCount none with
  | none => none
  | some pz =>
    let m := match pz with
      | none => m.setArray hdr.zoneindex hdr.next
      | some y => m.setZone y { m.zone y with next := hdr.next }
    let m := m.setZone z { m.zone z with magic := 2 ^ 32 - 1, next := m.zoneFree }
    some { m with zoneFree := some z, zoneFreeCnt := (m.zoneFreeCnt + 1) % 2 ^ 32 }

/-- Give the pages of the first free zone back. -/
def releaseZone : Option Slab :=
  match m.zoneFree with
  | none => none
  | some z =>
    let m := { m with
      zoneFree := (m.zone z).next, zoneFreeCnt := (m.zoneFreeCnt + (2 ^ 32 - 1)) % 2 ^ 32 }
    let m := m.markZone z fun _ => ⟨.free, 0⟩
    (m.pages.pageFree z (m.zoneSize / rtMmPageSize)).map fun pages => { m with pages := pages }

/-- The branch for a chunk. -/
def freeChunk (ptr : ℕ) : Option Slab :=
  let z := ptr / rtMmPageSize - (m.memusage (m.btokup ptr)).size
  if (m.zone z).magic = zallocSlabMagic then
    let m := m.pushChunk z ptr
    let hdr := m.zone z
    if hdr.nfree = hdr.nmax ∧ (hdr.next ≠ none ∨ m.zoneArray hdr.zoneindex ≠ some z) then
      match m.retireZone z with
      | none => none
      | some m => if m.zoneFreeCnt > zoneReleaseThresh then m.releaseZone else some m
    else some m
  else none

/-- `rt_slab_free`. -/
def slabFree (ptr : Option ℕ) : Option Slab :=
  match ptr with
  | none => some m
  | some ptr =>
    if (m.memusage (m.btokup ptr)).type = .large then m.freeLarge ptr else m.freeChunk ptr

/-! ## `rt_slab_realloc` -/

/-- Allocate anew, copy and free. -/
def moveBlock (ptr size : ℕ) : Option (Option ℕ × Slab) :=
  match m.slabAlloc size with
  | none => none
  | some (none, m) => some (none, m)
  | some (some nptr, m) => (m.slabFree (some ptr)).map fun m => (some nptr, m)

/-- `rt_slab_realloc`. -/
def slabRealloc (ptr : Option ℕ) (size : ℕ) : Option (Option ℕ × Slab) :=
  match ptr with
  | none => m.slabAlloc size
  | some ptr =>
    if size = 0 then (m.slabFree (some ptr)).map fun m => (none, m)
    else
      let kup := m.memusage (m.btokup ptr)
      match kup.type with
      | .large => m.moveBlock ptr size
      | .small =>
        let z := ptr / rtMmPageSize - kup.size
        if (m.zone z).magic = zallocSlabMagic then
          let size := (zoneindex size).2
          if (m.zone z).chunksize = size then some (some ptr, m) else m.moveBlock ptr size
        else none
      | _ => some (none, m)

/-! ## `rt_slab_init` -/

/-- The loop for the zone size. -/
def growZoneSize (limsize : ℕ) : ℕ → ℕ → ℕ
  | 0, zoneSize => zoneSize
  | fuel + 1, zoneSize =>
    if zoneSize < zallocMaxZoneSize ∧ zoneSize * 2 < limsize / 1024 then
      growZoneSize limsize fuel (zoneSize * 2)
    else zoneSize

/-- The pages of the `memusage` array for a heap of `npages` pages. -/
def usagePages (npages : ℕ) : ℕ :=
  alignTo (npages * sizeofSlabMemusage) rtMmPageSize / rtMmPageSize

/-- `rt_slab_init` on a memory with arbitrary contents; nothing where it reports an error. -/
def slabInit (sizeofSlab beginAddr size : ℕ) : Option Slab :=
  match slabRange sizeofSlab beginAddr size with
  | none => none
  | some (heapStart, heapEnd) =>
    let npages := heapEnd - heapStart
    let zoneSize := growZoneSize (npages * rtMmPageSize) 32 zallocMinZoneSize
    let zoneLimit := zoneSize / 4
    match (m.pages.pageInit heapStart npages).bind fun pages => pages.pageAlloc (usagePages npages) with
    | some (some memusagePage, pages) =>
      some { m with
        heapStart, heapEnd, memusagePage, pages, zoneSize
        zoneArray := fun _ => none
        zoneFree := none
        zoneFreeCnt := 0
        zoneLimit := if zoneLimit > zallocZoneLimit then zallocZoneLimit else zoneLimit
        zonePageCnt := zoneSize / rtMmPageSize
        used := 0
        max := 0 }
    | _ => none

end Slab

end RtThread
