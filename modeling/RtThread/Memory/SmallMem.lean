import RtThread.Kernel.Align
import RtThread.Lib.System
import RtThread.Lib.Tiling

/-!
# Small memory

The small memory algorithm: a heap of items, each a header and its data, that `next` and `prev` link
by their offsets from `heap_ptr`. Offsets are numbers here, and `item` gives the header at an offset;
what the callers store in their blocks is left out.

* `SmallMem` and the functions `rtSmemInit`, `rtSmemAlloc`, `rtSmemRealloc`, `rtSmemFree`;
* `SmemRep`: the items of a heap are the cells of a list; `splitItem` and `combine` are the split and
  the merge of two cells;
* `SmemWell`: no two free items side by side, the lowest free item, the bytes in use;
* **`smem_heap`**: the heap in every run whose requests are not above `2 ^ 32 - RT_ALIGN_SIZE`.
-/

namespace RtThread

/-! ## The heap -/

/-- `MIN_SIZE`. -/
abbrev smemMinSize : ℕ := 12

/-- `MIN_SIZE_ALIGNED`. -/
abbrev smemMinSizeAligned : ℕ := 16

/-- `SIZEOF_STRUCT_MEM`. -/
abbrev sizeofStructMem : ℕ := 16

example : smemMinSizeAligned = rtAlign smemMinSize ∧ sizeofStructMem = rtAlign 12 := by decide

/-- `struct rt_small_mem_item`. -/
structure SmallMemItem where
  poolPtr : ℕ
  next : ℕ
  prev : ℕ
  deriving DecidableEq, Repr

/-- `struct rt_small_mem`, at the address `addr`, with its items. `heapEnd` and `lfree` are offsets
from `heapPtr`. -/
structure SmallMem where
  addr : ℕ
  heapPtr : ℕ
  heapEnd : ℕ
  lfree : ℕ
  memSizeAligned : ℕ
  used : ℕ
  max : ℕ
  item : ℕ → SmallMemItem

namespace SmallMem

variable (m : SmallMem)

/-- `MEM_FREED()`. -/
def memFreed : ℕ := m.addr / 2 * 2

/-- `MEM_USED()`. -/
def memUsed : ℕ := m.addr / 2 * 2 + 1

/-- `MEM_ISUSED`. -/
def isUsed (mem : ℕ) : Bool := (m.item mem).poolPtr % 2 == 1

/-- `MEM_POOL`. -/
def pool (mem : ℕ) : ℕ := (m.item mem).poolPtr / 2 * 2

/-- Write to the header at `mem`. -/
def modify (mem : ℕ) (f : SmallMemItem → SmallMemItem) : SmallMem :=
  { m with item := Function.update m.item mem (f (m.item mem)) }

/-- Combine `x` with the item `y` behind it. -/
def combine (x y : ℕ) : SmallMem :=
  let m := m.modify y fun i => { i with poolPtr := 0 }
  let m := m.modify x fun i => { i with next := (m.item y).next }
  m.modify (m.item y).next fun i => { i with prev := x }

/-- `plug_holes`, forward. -/
def plugForward (mem : ℕ) : SmallMem :=
  let nmem := (m.item mem).next
  if mem ≠ nmem ∧ m.isUsed nmem = false ∧ nmem ≠ m.heapEnd then
    let m := if m.lfree = nmem then { m with lfree := mem } else m
    m.combine mem nmem
  else m

/-- `plug_holes`, backward. -/
def plugBackward (mem : ℕ) : SmallMem :=
  let pmem := (m.item mem).prev
  if pmem ≠ mem ∧ m.isUsed pmem = false then
    let m := if m.lfree = mem then { m with lfree := pmem } else m
    m.combine pmem mem
  else m

/-- `plug_holes`. -/
def plugHoles (mem : ℕ) : Option SmallMem :=
  if mem < m.heapEnd then some ((m.plugForward mem).plugBackward mem) else none

/-- A free item is created at `ptr2`, inside of the item `ptr`. -/
def splitItem (ptr ptr2 : ℕ) : SmallMem :=
  let m := m.modify ptr2 fun _ =>
    { poolPtr := m.memFreed, next := (m.item ptr).next, prev := ptr }
  let m := m.modify ptr fun i => { i with next := ptr2 }
  if (m.item ptr2).next ≠ m.memSizeAligned + sizeofStructMem then
    m.modify (m.item ptr2).next fun i => { i with prev := ptr2 }
  else m

/-- `mem` is free now, and may be the lowest free item. -/
def lowerFree (mem : ℕ) : SmallMem := if mem < m.lfree then { m with lfree := mem } else m

/-- More bytes are in use. -/
def addUsed (n : ℕ) : SmallMem :=
  { m with used := m.used + n, max := if m.max < m.used + n then m.used + n else m.max }

end SmallMem

/-- `rt_smem_init`, for the memory of `size` bytes from `beginAddr` on; `sizeofSmallMem` is
`sizeof(struct rt_small_mem)`. -/
def rtSmemInit (sizeofSmallMem : ℕ) (item : ℕ → SmallMemItem) (beginAddr size : ℕ) :
    Option SmallMem :=
  let addr := rtAlign beginAddr
  let startAddr := addr + sizeofSmallMem
  let beginAlign := rtAlign startAddr
  let endAlign := rtAlignDown (beginAddr + size)
  if endAlign > 2 * sizeofStructMem ∧ endAlign - 2 * sizeofStructMem ≥ startAddr then
    let memSize := endAlign - beginAlign - 2 * sizeofStructMem
    let stop := memSize + sizeofStructMem
    let m : SmallMem :=
      { addr := addr, heapPtr := beginAlign, heapEnd := stop, lfree := 0, memSizeAligned := memSize
        used := 0, max := 0, item := item }
    let m := m.modify 0 fun _ => { poolPtr := m.memFreed, next := stop, prev := 0 }
    some (m.modify stop fun _ => { poolPtr := m.memUsed, next := stop, prev := stop })
  else none

/-! ## Allocation -/

/-- The loop of `rt_smem_alloc`: an item that is free and large enough, if there is one. There is no
result when `fuel` was not enough. -/
def smemFind (m : SmallMem) (size : ℕ) : ℕ → ℕ → Option (Option ℕ)
  | 0, _ => none
  | fuel + 1, ptr =>
    if ptr ≤ m.memSizeAligned - size then
      if m.isUsed ptr = false ∧ (m.item ptr).next - (ptr + sizeofStructMem) ≥ size then
        some (some ptr)
      else smemFind m size fuel (m.item ptr).next
    else some none

/-- The loop of `rt_smem_alloc` that updates `lfree`. -/
def smemNextFree (m : SmallMem) : ℕ → ℕ → Option ℕ
  | 0, _ => none
  | fuel + 1, lfree =>
    if m.isUsed lfree = true ∧ lfree ≠ m.heapEnd then smemNextFree m fuel (m.item lfree).next
    else some lfree

/-- `rt_smem_alloc` has marked the item at `mem` used. There is no result when an assertion
fails. -/
def smemTaken (m : SmallMem) (mem size : ℕ) : Option (ℕ × SmallMem) :=
  (if mem = m.lfree then smemNextFree m (m.memSizeAligned + 2) m.lfree else some m.lfree).bind
    fun lfree =>
      let asserts := (mem = m.lfree → lfree = m.heapEnd ∨ m.isUsed lfree = false) ∧
        mem + sizeofStructMem + size ≤ m.heapEnd ∧
        (m.heapPtr + mem + sizeofStructMem) % rtAlignSize = 0 ∧
        (m.heapPtr + mem) % rtAlignSize = 0
      if asserts then some (m.heapPtr + mem + sizeofStructMem, { m with lfree := lfree }) else none

/-- `rt_smem_alloc` takes the item at `mem`. -/
def smemTake (m : SmallMem) (mem size : ℕ) : Option (ℕ × SmallMem) :=
  let room := (m.item mem).next - (mem + sizeofStructMem)
  let m :=
    if room ≥ size + sizeofStructMem + smemMinSizeAligned then
      (m.splitItem mem (mem + sizeofStructMem + size)).addUsed (size + sizeofStructMem)
    else m.addUsed ((m.item mem).next - mem)
  smemTaken (m.modify mem fun i => { i with poolPtr := m.memUsed }) mem size

/-- `rt_smem_alloc`. -/
def rtSmemAlloc (m : SmallMem) (size : ℕ) : Option (Option ℕ × SmallMem) :=
  if size = 0 then some (none, m)
  else
    let size := rtAlign size
    let size := if size < smemMinSizeAligned then smemMinSizeAligned else size
    if size > m.memSizeAligned then some (none, m)
    else
      (smemFind m size (m.memSizeAligned + 2) m.lfree).bind fun r =>
        match r with
        | none => some (none, m)
        | some ptr => (smemTake m ptr size).map fun r => (some r.1, r.2)

/-- `rt_smem_free`. There is no result when an assertion fails. -/
def rtSmemFree (m : SmallMem) : Option ℕ → Option SmallMem
  | none => some m
  | some rmem =>
    let mem := rmem - sizeofStructMem - m.heapPtr
    let asserts := rmem % rtAlignSize = 0 ∧ m.pool mem = m.addr ∧ m.isUsed mem = true ∧
      m.heapPtr + sizeofStructMem ≤ rmem ∧ rmem < m.heapPtr + m.heapEnd ∧
      m.pool (m.item mem).next = m.addr
    if asserts then
      let m := m.modify mem fun i => { i with poolPtr := m.memFreed }
      let m := m.lowerFree mem
      let m := { m with used := m.used - ((m.item mem).next - mem) }
      m.plugHoles mem
    else none

/-- `rt_smem_realloc`. There is no result when an assertion fails. -/
def rtSmemRealloc (m : SmallMem) (rmem : Option ℕ) (newsize : ℕ) : Option (Option ℕ × SmallMem) :=
  let newsize := rtAlign newsize
  if newsize > m.memSizeAligned then some (none, m)
  else if newsize = 0 then (rtSmemFree m rmem).map fun m => (none, m)
  else
    match rmem with
    | none => rtSmemAlloc m newsize
    | some p =>
      if p % rtAlignSize = 0 ∧ m.heapPtr + sizeofStructMem ≤ p ∧ p < m.heapPtr + m.heapEnd then
        let ptr := p - sizeofStructMem - m.heapPtr
        let size := (m.item ptr).next - ptr - sizeofStructMem
        if size = newsize then some (some p, m)
        else if newsize + sizeofStructMem + smemMinSize < size then
          let m := { m with used := m.used - (size - newsize) }
          let ptr2 := ptr + sizeofStructMem + newsize
          let m := m.splitItem ptr ptr2
          ((m.lowerFree ptr2).plugHoles ptr2).map fun m => (some p, m)
        else
          (rtSmemAlloc m newsize).bind fun r =>
            match r.1 with
            | none => some (none, r.2)
            | some q => (rtSmemFree r.2 (some p)).map fun m => (some q, m)
      else none

/-! ## The items are cells -/

namespace SmallMem

variable (m : SmallMem)

/-- The header of a cell. -/
def header (c : Cell) : SmallMemItem where
  poolPtr := if c.used then m.memUsed else m.memFreed
  next := c.stop
  prev := c.prev

@[simp] theorem modify_item (mem a : ℕ) (f : SmallMemItem → SmallMemItem) :
    (m.modify mem f).item a = if a = mem then f (m.item a) else m.item a := by
  by_cases h : a = mem
  · subst h
    rw [if_pos rfl]
    exact Function.update_self ..
  · rw [if_neg h]
    exact Function.update_of_ne h _ _

@[simp] theorem modify_memSizeAligned (mem : ℕ) (f : SmallMemItem → SmallMemItem) :
    (m.modify mem f).memSizeAligned = m.memSizeAligned := rfl

theorem memUsed_mod : m.memUsed % 2 = 1 := by
  unfold memUsed
  omega

theorem memFreed_mod : m.memFreed % 2 = 0 := by
  unfold memFreed
  omega

/-- The parts of the heap that do not change. -/
structure Same (m m' : SmallMem) : Prop where
  addr : m'.addr = m.addr
  heapPtr : m'.heapPtr = m.heapPtr
  heapEnd : m'.heapEnd = m.heapEnd
  memSizeAligned : m'.memSizeAligned = m.memSizeAligned

theorem Same.refl : Same m m := ⟨rfl, rfl, rfl, rfl⟩

variable {m} {m₁ m₂ : SmallMem}

theorem Same.trans (h : Same m m₁) (h' : Same m₁ m₂) : Same m m₂ :=
  ⟨h'.addr.trans h.addr, h'.heapPtr.trans h.heapPtr, h'.heapEnd.trans h.heapEnd,
    h'.memSizeAligned.trans h.memSizeAligned⟩

theorem Same.header (h : Same m m₁) (c : Cell) : m₁.header c = m.header c := by
  rw [SmallMem.header, SmallMem.header, memUsed, memUsed, memFreed, memFreed, h.addr]

theorem modify_same (mem : ℕ) (f : SmallMemItem → SmallMemItem) : Same m (m.modify mem f) :=
  ⟨rfl, rfl, rfl, rfl⟩

theorem combine_same (x y : ℕ) : Same m (m.combine x y) := ⟨rfl, rfl, rfl, rfl⟩

/-- The three headers that `combine` writes. -/
theorem combine_item {x y : ℕ} (hne : y ≠ x) (a : ℕ) : (m.combine x y).item a =
    { poolPtr := if a = y then 0 else (m.item a).poolPtr
      next := if a = x then (m.item y).next else (m.item a).next
      prev := if a = (m.item y).next then x else (m.item a).prev } := by
  unfold combine
  simp only [modify_item, if_neg hne, if_true]
  split_ifs <;> rfl

/-- The three headers that `splitItem` writes. -/
theorem splitItem_item {ptr ptr2 : ℕ} (hne : ptr2 ≠ ptr) (a : ℕ) : (m.splitItem ptr ptr2).item a =
    { poolPtr := if a = ptr2 then m.memFreed else (m.item a).poolPtr
      next := if a = ptr then ptr2 else if a = ptr2 then (m.item ptr).next else (m.item a).next
      prev :=
        if (m.item ptr).next ≠ m.memSizeAligned + sizeofStructMem ∧ a = (m.item ptr).next then ptr2
        else if a = ptr2 then ptr else (m.item a).prev } := by
  unfold splitItem
  simp only [modify_item, modify_memSizeAligned, if_neg hne, if_true]
  by_cases hstop : (m.item ptr).next = m.memSizeAligned + sizeofStructMem
  · have hnot : ¬((m.item ptr).next ≠ m.memSizeAligned + sizeofStructMem ∧
        a = (m.item ptr).next) := fun h => h.1 hstop
    rw [if_neg (not_not.mpr hstop), if_neg hnot]
    simp only [modify_item]
    split_ifs <;> rfl
  · rw [if_pos hstop]
    simp only [modify_item, ne_eq, hstop, not_false_eq_true, true_and]
    split_ifs <;> rfl

theorem lowerFree_same (mem : ℕ) : Same m (m.lowerFree mem) := by
  unfold lowerFree
  split_ifs <;> exact ⟨rfl, rfl, rfl, rfl⟩

theorem lowerFree_item (mem : ℕ) : (m.lowerFree mem).item = m.item := by
  unfold lowerFree
  split_ifs <;> rfl

theorem lowerFree_used (mem : ℕ) : (m.lowerFree mem).used = m.used := by
  unfold lowerFree
  split_ifs <;> rfl

theorem lowerFree_lfree (mem : ℕ) : (m.lowerFree mem).lfree = min mem m.lfree := by
  unfold lowerFree
  split_ifs with h
  · exact (Nat.min_eq_left (Nat.le_of_lt h)).symm
  · exact (Nat.min_eq_right (Nat.le_of_not_lt h)).symm

theorem splitItem_lfree (ptr ptr2 : ℕ) : (m.splitItem ptr ptr2).lfree = m.lfree := by
  unfold splitItem
  dsimp only
  split_ifs <;> rfl

theorem splitItem_used (ptr ptr2 : ℕ) : (m.splitItem ptr ptr2).used = m.used := by
  unfold splitItem
  dsimp only
  split_ifs <;> rfl

theorem splitItem_same (ptr ptr2 : ℕ) : Same m (m.splitItem ptr ptr2) := by
  unfold splitItem
  dsimp only
  split_ifs <;> exact ⟨rfl, rfl, rfl, rfl⟩

end SmallMem

/-- The items of the heap are the cells of `l`; the end is marked used. -/
structure SmemRep (m : SmallMem) (l : List Cell) : Prop where
  tiled : Tiled sizeofStructMem 0 0 l m.heapEnd
  item : ∀ c ∈ l, m.item c.start = m.header c
  aligned : ∀ c ∈ l, c.start % rtAlignSize = 0 ∧ c.size % rtAlignSize = 0
  stop : m.heapEnd = m.memSizeAligned + sizeofStructMem
  stopPool : (m.item m.heapEnd).poolPtr = m.memUsed
  heapPtr : m.heapPtr % rtAlignSize = 0
  addr : m.addr % 2 = 0

namespace SmemRep

variable {m m' : SmallMem} {l r : List Cell} {c d x y : Cell} {n : ℕ}

theorem next (h : SmemRep m l) (hc : c ∈ l) : (m.item c.start).next = c.stop := by
  rw [h.item c hc]
  rfl

theorem prev (h : SmemRep m l) (hc : c ∈ l) : (m.item c.start).prev = c.prev := by
  rw [h.item c hc]
  rfl

theorem isUsed (h : SmemRep m l) (hc : c ∈ l) : m.isUsed c.start = c.used := by
  rw [SmallMem.isUsed, h.item c hc, SmallMem.header]
  have h1 := m.memUsed_mod
  have h2 := m.memFreed_mod
  cases c.used <;> simp [h1, h2]

theorem pool (h : SmemRep m l) (hc : c ∈ l) : m.pool c.start = m.addr := by
  have h1 := h.addr
  rw [SmallMem.pool, h.item c hc, SmallMem.header, SmallMem.memUsed, SmallMem.memFreed]
  dsimp only
  split_ifs <;> omega

theorem stop_pool (h : SmemRep m l) : m.pool m.heapEnd = m.addr := by
  have h1 := h.addr
  rw [SmallMem.pool, h.stopPool, SmallMem.memUsed]
  omega

/-- What is behind a cell: the next one, or the end. -/
theorem behind (h : SmemRep m (l ++ c :: r)) :
    c.stop = (r.head?.elim m.heapEnd Cell.start) := by
  obtain ⟨-, -, -, h4⟩ := Tiled.mid.mp h.tiled
  cases r with
  | nil => exact h4
  | cons d r => exact h4.1.symm

theorem start_lt (h : SmemRep m l) (hc : c ∈ l) : c.start + sizeofStructMem ≤ m.heapEnd := by
  obtain ⟨-, h2, h3⟩ := h.tiled.bounds hc
  unfold Cell.stop at h2
  omega

/-- Fields that the headers do not depend on are written. -/
theorem congr (h : SmemRep m l) (hs : SmallMem.Same m m') (hi : m'.item = m.item) :
    SmemRep m' l where
  tiled := hs.heapEnd ▸ h.tiled
  item c hc := by rw [hi, hs.header, h.item c hc]
  aligned := h.aligned
  stop := by rw [hs.heapEnd, hs.memSizeAligned, h.stop]
  stopPool := by
    rw [hi, hs.heapEnd, h.stopPool, SmallMem.memUsed, SmallMem.memUsed, hs.addr]
  heapPtr := by rw [hs.heapPtr, h.heapPtr]
  addr := by rw [hs.addr, h.addr]

/-- **An item is marked used or free.** -/
theorem mark (h : SmemRep m (l ++ c :: r)) (u : Bool) :
    SmemRep (m.modify c.start fun i => { i with poolPtr := if u then m.memUsed else m.memFreed })
      (l ++ { c with used := u } :: r) := by
  have hne : ∀ d ∈ l ++ r, d.start ≠ c.start := fun d => h.tiled.start_ne (by decide)
  have hold : ∀ d ∈ l ++ r, (m.modify c.start fun i =>
      { i with poolPtr := if u then m.memUsed else m.memFreed }).item d.start = m.header d :=
    fun d hd => by
      rw [SmallMem.modify_item, if_neg (hne d hd)]
      refine h.item d ?_
      rcases List.mem_append.mp hd with hd | hd
      · exact List.mem_append_left _ hd
      · exact List.mem_append_right _ (List.mem_cons_of_mem _ hd)
  have hc : c ∈ l ++ c :: r := List.mem_append_right _ List.mem_cons_self
  refine ⟨h.tiled.mark u, ?_, ?_, h.stop, ?_, h.heapPtr, h.addr⟩
  · refine mem_cases (fun d hd => hold d (List.mem_append_left _ hd)) ?_
      fun d hd => hold d (List.mem_append_right _ hd)
    rw [SmallMem.modify_item, if_pos rfl, h.item c hc]
    rfl
  · exact mem_cases (fun d hd => h.aligned d (List.mem_append_left _ hd)) (h.aligned c hc)
      fun d hd => h.aligned d (List.mem_append_right _ (List.mem_cons_of_mem _ hd))
  · have hlt : c.start + 16 ≤ m.heapEnd := h.start_lt hc
    change ((m.modify c.start _).item m.heapEnd).poolPtr = m.memUsed
    rw [SmallMem.modify_item, if_neg (by omega), h.stopPool]

theorem markUsed (h : SmemRep m (l ++ c :: r)) :
    SmemRep (m.modify c.start fun i => { i with poolPtr := m.memUsed })
      (l ++ { c with used := true } :: r) := h.mark true

theorem markFreed (h : SmemRep m (l ++ c :: r)) :
    SmemRep (m.modify c.start fun i => { i with poolPtr := m.memFreed })
      (l ++ { c with used := false } :: r) := h.mark false

/-- **Two items are combined.** -/
theorem combine (h : SmemRep m (l ++ x :: y :: r)) (hu : x.used = false) :
    SmemRep (m.combine x.start y.start)
      (l ++ { x with size := x.size + y.size, used := false } :: setPrev x.start r) := by
  have hx : x ∈ l ++ x :: y :: r := List.mem_append_right _ List.mem_cons_self
  have hy : y ∈ l ++ x :: y :: r :=
    List.mem_append_right _ (List.mem_cons_of_mem _ List.mem_cons_self)
  obtain ⟨hbx, hax⟩ := h.tiled.around
  have hxy : x.stop ≤ y.start := hax y List.mem_cons_self
  have hys : y.start = x.stop := (Tiled.mid.mp h.tiled).2.2.2.1
  have h16x : 16 ≤ x.size := (h.tiled.bounds hx).2.2
  have h16y : 16 ≤ y.size := (h.tiled.bounds hy).2.2
  have hry : ∀ d ∈ r, y.stop ≤ d.start := fun d hd => by
    obtain ⟨-, -, -, -, -, -, h4⟩ := Tiled.mid.mp h.tiled
    exact (h4.bounds hd).1
  have hyn := h.next hy
  have hlx : x.start + 16 ≤ m.heapEnd := h.start_lt hx
  have hly : y.start + 16 ≤ m.heapEnd := h.start_lt hy
  have hle := (h.tiled.bounds hy).2.1
  unfold Cell.stop at hbx hxy hys hry hyn hle
  -- the three headers that are written
  have hitem : ∀ a, (m.combine x.start y.start).item a =
      { poolPtr := if a = y.start then 0 else (m.item a).poolPtr
        next := if a = x.start then y.stop else (m.item a).next
        prev := if a = y.stop then x.start else (m.item a).prev } := fun a => by
    rw [SmallMem.combine_item (by omega), hyn]
    rfl
  have hmem : ∀ d ∈ l ++ x :: y :: r, d.start ≠ x.start → d.start ≠ y.start → d.start ≠ y.stop →
      (m.combine x.start y.start).item d.start = m.header d := fun d hd h1 h2 h3 => by
    rw [hitem, if_neg h1, if_neg h2, if_neg h3, h.item d hd]
  refine ⟨h.tiled.merge false, mem_cases (fun d hd => ?_) ?_ ?_, mem_cases (fun d hd => ?_) ?_ ?_,
    h.stop, ?_, h.heapPtr, h.addr⟩
  · have := hbx d hd
    have hd16 : 16 ≤ d.size := (h.tiled.bounds (List.mem_append_left _ hd)).2.2
    exact hmem d (List.mem_append_left _ hd) (by omega) (by omega) (by unfold Cell.stop; omega)
  · change (m.combine x.start y.start).item x.start = _
    rw [hitem, if_neg (by omega), if_pos rfl, if_neg (by unfold Cell.stop; omega), h.item x hx]
    have hstop : y.stop = x.start + (x.size + y.size) := by
      unfold Cell.stop
      omega
    rw [hstop, SmallMem.header, hu]
    rfl
  · intro d hd
    have hin : ∀ d ∈ r, d ∈ l ++ x :: y :: r := fun d hd =>
      List.mem_append_right _ (List.mem_cons_of_mem _ (List.mem_cons_of_mem _ hd))
    cases r with
    | nil => exact absurd hd List.not_mem_nil
    | cons e r =>
      have hey : e.start = y.stop := (Tiled.mid.mp h.tiled).2.2.2.2.2.2.1
      have hes := hey
      have he16 : 16 ≤ e.size := (h.tiled.bounds (hin e List.mem_cons_self)).2.2
      have her : ∀ d ∈ r, e.stop ≤ d.start := fun d hd => by
        obtain ⟨-, -, -, -, -, -, -, -, -, h4⟩ := Tiled.mid.mp h.tiled
        exact (h4.bounds hd).1
      unfold Cell.stop at hes her
      rcases List.mem_cons.mp hd with rfl | hd
      · change (m.combine x.start y.start).item e.start = _
        rw [hitem, if_neg (by omega), if_neg (by omega), if_pos hey,
          h.item e (hin e List.mem_cons_self)]
        rfl
      · have := her d hd
        exact hmem d (hin d (List.mem_cons_of_mem _ hd)) (by omega) (by omega)
          (by unfold Cell.stop; omega)
  · exact h.aligned d (List.mem_append_left _ hd)
  · have h2 : x.size % 8 = 0 := (h.aligned x hx).2
    have h3 : y.size % 8 = 0 := (h.aligned y hy).2
    refine ⟨(h.aligned x hx).1, ?_⟩
    change (x.size + y.size) % 8 = 0
    omega
  · exact forall_setPrev (fun _ h => h) fun d hd =>
      h.aligned d (List.mem_append_right _ (List.mem_cons_of_mem _ (List.mem_cons_of_mem _ hd)))
  · change ((m.combine x.start y.start).item m.heapEnd).poolPtr = m.memUsed
    rw [hitem, if_neg (by omega), h.stopPool]

/-- **An item is split.** -/
theorem split (h : SmemRep m (l ++ c :: r)) (hn : sizeofStructMem ≤ n) (hnc : n + sizeofStructMem ≤ c.size)
    (hal : n % rtAlignSize = 0) :
    SmemRep (m.splitItem c.start (c.start + n)) (l ++ { c with size := n, used := c.used } ::
      { start := c.start + n, size := c.size - n, prev := c.start, used := false } ::
        setPrev (c.start + n) r) := by
  have hc : c ∈ l ++ c :: r := List.mem_append_right _ List.mem_cons_self
  have h16n : 16 ≤ n := hn
  have h16c : n + 16 ≤ c.size := hnc
  obtain ⟨hbc, hac⟩ := h.tiled.around
  have hcn := h.next hc
  have hle := (h.tiled.bounds hc).2.1
  have hend : m.memSizeAligned + sizeofStructMem = m.heapEnd := h.stop.symm
  have hsame : SmallMem.Same m (m.splitItem c.start (c.start + n)) :=
    SmallMem.splitItem_same _ _
  have hitem : ∀ a, (m.splitItem c.start (c.start + n)).item a =
      { poolPtr := if a = c.start + n then m.memFreed else (m.item a).poolPtr
        next := if a = c.start then c.start + n else if a = c.start + n then c.stop
          else (m.item a).next
        prev := if c.stop ≠ m.heapEnd ∧ a = c.stop then c.start + n
          else if a = c.start + n then c.start else (m.item a).prev } := fun a => by
    rw [SmallMem.splitItem_item (by omega), hcn, hend]
  have hmem : ∀ d ∈ l ++ c :: r, d.start ≠ c.start → d.start ≠ c.start + n → d.start ≠ c.stop →
      (m.splitItem c.start (c.start + n)).item d.start = m.header d := fun d hd h1 h2 h3 => by
    rw [hitem, if_neg h2, if_neg h1, if_neg h2, if_neg fun hc => h3 hc.2, if_neg h2, h.item d hd]
  unfold Cell.stop at hbc hac hle
  refine ⟨?_, mem_cases (fun d hd => ?_) ?_ (mem_cases (l := []) (by simp) ?_ ?_),
    mem_cases (fun d hd => ?_) ?_ (mem_cases (l := []) (by simp) ?_ ?_), ?_, ?_, ?_, ?_⟩
  · rw [hsame.heapEnd]
    exact h.tiled.split hn hnc _ _
  · have := hbc d hd
    have hd16 : 16 ≤ d.size := (h.tiled.bounds (List.mem_append_left _ hd)).2.2
    rw [hsame.header]
    exact hmem d (List.mem_append_left _ hd) (by omega) (by omega) (by unfold Cell.stop; omega)
  · change (m.splitItem c.start (c.start + n)).item c.start = _
    rw [hsame.header, hitem, if_neg (by omega), if_pos rfl, if_neg fun hc => ?_, if_neg (by omega),
      h.item c hc]
    · rfl
    · have := hc.2
      unfold Cell.stop at this
      omega
  · change (m.splitItem c.start (c.start + n)).item (c.start + n) = _
    have hstop : c.stop = c.start + n + (c.size - n) := by
      unfold Cell.stop
      omega
    rw [hsame.header, hitem, if_pos rfl, if_neg (by omega), if_pos rfl, if_neg (by omega), if_pos rfl,
      hstop]
    rfl
  · intro d hd
    have hin : ∀ d ∈ r, d ∈ l ++ c :: r := fun d hd =>
      List.mem_append_right _ (List.mem_cons_of_mem _ hd)
    cases r with
    | nil => exact absurd hd List.not_mem_nil
    | cons e r =>
      have hec : e.start = c.stop := (Tiled.mid.mp h.tiled).2.2.2.1
      have hes := hec
      have he16 : e.start + 16 ≤ m.heapEnd := h.start_lt (hin e List.mem_cons_self)
      have her : ∀ d ∈ r, e.stop ≤ d.start := fun d hd => by
        obtain ⟨-, -, -, -, -, -, h4⟩ := Tiled.mid.mp h.tiled
        exact (h4.bounds hd).1
      have he : 16 ≤ e.size := (h.tiled.bounds (hin e List.mem_cons_self)).2.2
      unfold Cell.stop at hes her
      rw [hsame.header]
      rcases List.mem_cons.mp hd with rfl | hd
      · change (m.splitItem c.start (c.start + n)).item e.start = _
        rw [hitem, if_neg (by omega), if_neg (by omega), if_neg (by omega),
          if_pos ⟨by omega, hec⟩, h.item e (hin e List.mem_cons_self)]
        rfl
      · have := her d hd
        exact hmem d (hin d (List.mem_cons_of_mem _ hd)) (by omega) (by omega)
          (by unfold Cell.stop; omega)
  · exact h.aligned d (List.mem_append_left _ hd)
  · exact ⟨(h.aligned c hc).1, hal⟩
  · have h1 : c.start % 8 = 0 := (h.aligned c hc).1
    have h2 : c.size % 8 = 0 := (h.aligned c hc).2
    have h3 : n % 8 = 0 := hal
    exact ⟨show (c.start + n) % 8 = 0 by omega, show (c.size - n) % 8 = 0 by omega⟩
  · exact forall_setPrev (fun _ h => h) fun d hd =>
      h.aligned d (List.mem_append_right _ (List.mem_cons_of_mem _ hd))
  · rw [hsame.heapEnd, hsame.memSizeAligned, h.stop]
  · rw [hsame.heapEnd, SmallMem.memUsed, hsame.addr, hitem, if_neg (by omega), h.stopPool]
    rfl
  · rw [hsame.heapPtr, h.heapPtr]
  · rw [hsame.addr, h.addr]

end SmemRep

/-! ## A heap between two calls -/

/-- No two neighbours are free, `lfree` is the lowest free item, and `used` counts the used ones. -/
structure SmemWell (m : SmallMem) (l : List Cell) : Prop extends SmemRep m l where
  noTwoFree : NoTwoFree l
  lfree : m.lfree = lowestFree l m.heapEnd
  used : m.used = sizes (blocks true l)
  room : ∀ b ∈ blocks true l, sizeofStructMem < b.2

namespace SmemRep

variable {m m' : SmallMem} {l r : List Cell} {c d x y : Cell} {n : ℕ}

/-- **`plug_holes`, forward.** -/
theorem plugForward (h : SmemRep m (l ++ c :: r)) (hc : c.used = false) (hr : NoTwoFree r)
    (hlf : m.lfree ≤ c.start) : ∃ c' r', SmemRep (m.plugForward c.start) (l ++ c' :: r') ∧
      c'.start = c.start ∧ c'.used = false ∧ NoTwoFree r' ∧ HeadUsed r' ∧
      blocks true r' = blocks true r ∧ (m.plugForward c.start).lfree = m.lfree ∧
      (m.plugForward c.start).used = m.used ∧ SmallMem.Same m (m.plugForward c.start) := by
  have hmem : c ∈ l ++ c :: r := List.mem_append_right _ List.mem_cons_self
  have hnext := h.next hmem
  have hbehind := h.behind
  unfold SmallMem.plugForward
  dsimp only
  rw [hnext]
  cases r with
  | nil =>
    rw [if_neg fun hn => hn.2.2 hbehind]
    exact ⟨c, [], h, rfl, hc, hr, by simp [HeadUsed], rfl, rfl, rfl, .refl m⟩
  | cons d r =>
    have hdmem : d ∈ l ++ c :: d :: r :=
      List.mem_append_right _ (List.mem_cons_of_mem _ List.mem_cons_self)
    have hcd : c.stop = d.start := hbehind
    have hlt : d.start + 16 ≤ m.heapEnd := h.start_lt hdmem
    have h16 : 16 ≤ c.size := (h.tiled.bounds hmem).2.2
    have hcs : c.start + 16 ≤ d.start := by
      rw [← hcd]
      unfold Cell.stop
      omega
    rw [hcd, h.isUsed hdmem]
    cases hd : d.used with
    | true =>
      rw [if_neg fun hn => Bool.noConfusion hn.2.1]
      refine ⟨c, d :: r, h, rfl, hc, hr, fun e he => ?_, rfl, rfl, rfl, .refl m⟩
      cases he
      exact hd
    | false =>
      rw [if_pos ⟨by omega, rfl, by omega⟩, if_neg (by omega)]
      obtain ⟨h1, h2⟩ := noTwoFree_cons.mp hr
      refine ⟨_, _, h.combine hc, rfl, rfl, noTwoFree_setPrev.mpr h2, headUsed_setPrev.mpr ?_, ?_,
        rfl, rfl, SmallMem.combine_same _ _⟩
      · exact h1.resolve_left (by rw [hd]; simp)
      · rw [blocks_setPrev, blocks_cons, if_neg (by rw [hd]; simp)]

/-- **`plug_holes`, backward.** -/
theorem plugBackward (h : SmemRep m (l ++ c :: r)) (hc : c.used = false) (hl : NoTwoFree l)
    (hr : NoTwoFree r) (hhead : HeadUsed r) (hlf : m.lfree = lowestFree (l ++ c :: r) m.heapEnd)
    (hu : m.used = sizes (blocks true (l ++ c :: r)))
    (hroom : ∀ b ∈ blocks true (l ++ c :: r), sizeofStructMem < b.2) :
    ∃ l', SmemWell (m.plugBackward c.start) l' ∧ blocks true l' = blocks true (l ++ c :: r) ∧
      SmallMem.Same m (m.plugBackward c.start) := by
  have hmem : c ∈ l ++ c :: r := List.mem_append_right _ List.mem_cons_self
  obtain ⟨htl, hprev, h16, -⟩ := Tiled.mid.mp h.tiled
  unfold SmallMem.plugBackward
  dsimp only
  rw [h.prev hmem, hprev]
  rcases List.eq_nil_or_concat l with rfl | ⟨l, b, rfl⟩
  · have h0 : 0 = c.start := htl
    rw [lastStart_nil, if_neg fun hn => hn.1 h0]
    exact ⟨c :: r, ⟨h, noTwoFree_cons.mpr ⟨.inr hhead, hr⟩, hlf, hu, hroom⟩, rfl, .refl m⟩
  · rw [List.concat_eq_append] at *
    have hb : b ∈ (l ++ [b]) ++ c :: r := by simp
    have hbc := (h.tiled.around).1 b (by simp)
    have hb16 : 16 ≤ b.size := (h.tiled.bounds hb).2.2
    unfold Cell.stop at hbc
    rw [lastStart_concat, h.isUsed hb]
    cases hbu : b.used with
    | true =>
      rw [if_neg fun hn => Bool.noConfusion hn.2]
      refine ⟨_, ⟨h, noTwoFree_mid.mpr ⟨hl, hr, .inr ⟨fun e he => ?_, hhead⟩⟩, hlf, hu, hroom⟩,
        rfl, .refl m⟩
      rw [List.getLast?_concat] at he
      cases he
      exact hbu
    | false =>
      have hlow : m.lfree = lowestFree l b.start := by
        rw [hlf, lowestFree_append, lowestFree_append, lowestFree_free hbu]
      have hle : lowestFree l b.start ≤ b.start := by
        have := h.tiled
        rw [List.append_assoc, List.singleton_append] at this
        exact (Tiled.mid.mp this).1.lowestFree_le
      obtain ⟨h1, -, h2⟩ := noTwoFree_mid.mp (show NoTwoFree (l ++ b :: []) from hl)
      have h3 : LastUsed l := (h2.resolve_left (by rw [hbu]; simp)).1
      rw [if_pos ⟨by omega, rfl⟩, if_neg (by omega)]
      rw [List.append_assoc, List.singleton_append] at h
      have hblocks : blocks true (l ++ { b with size := b.size + c.size, used := false } ::
          setPrev b.start r) = blocks true (l ++ [b] ++ c :: r) := by
        simp only [blocks_append, blocks_cons, hbu, hc, blocks_setPrev, blocks_nil,
          Bool.false_eq_true, if_false, List.append_nil]
      refine ⟨_, ⟨h.combine hbu, noTwoFree_mid.mpr ⟨h1, noTwoFree_setPrev.mpr hr,
        .inr ⟨h3, headUsed_setPrev.mpr hhead⟩⟩, ?_, ?_, hblocks ▸ hroom⟩, hblocks, SmallMem.combine_same _ _⟩
      · change m.lfree = _
        rw [hlow, lowestFree_append, lowestFree_free rfl]
      · change m.used = _
        rw [hu, hblocks]

/-- **`plug_holes`** around an item that is free now. -/
theorem plugHoles (h : SmemRep m (l ++ c :: r)) (hc : c.used = false) (hl : NoTwoFree l)
    (hr : NoTwoFree r) (hlf : m.lfree = lowestFree (l ++ c :: r) m.heapEnd)
    (hu : m.used = sizes (blocks true (l ++ c :: r)))
    (hroom : ∀ b ∈ blocks true (l ++ c :: r), sizeofStructMem < b.2) :
    ∃ m' l', m.plugHoles c.start = some m' ∧ SmemWell m' l' ∧
      blocks true l' = blocks true (l ++ c :: r) ∧ SmallMem.Same m m' := by
  have hmem : c ∈ l ++ c :: r := List.mem_append_right _ List.mem_cons_self
  have hlt : c.start + 16 ≤ m.heapEnd := h.start_lt hmem
  have hlow : m.lfree = lowestFree l c.start := by
    rw [hlf, lowestFree_append, lowestFree_free hc]
  have hle := (Tiled.mid.mp h.tiled).1.lowestFree_le
  obtain ⟨c', r', h1, hs, hc', hr', hhead, hb, h2, h3, h4⟩ :=
    h.plugForward hc hr (by rw [hlow]; exact hle)
  have hblocks : blocks true (l ++ c' :: r') = blocks true (l ++ c :: r) := by
    simp only [blocks_append, blocks_cons, hc, hc', hb, Bool.false_eq_true, if_false]
  obtain ⟨l', h5, h6, h7⟩ := h1.plugBackward hc' hl hr' hhead
    (by rw [h2, hlow, lowestFree_append, lowestFree_free hc', hs]) (by rw [h3, hu, hblocks])
    (hblocks ▸ hroom)
  rw [hs] at h5 h7
  exact ⟨_, l', if_pos (by omega), h5, h6.trans hblocks, h4.trans h7⟩

end SmemRep

/-! ## The loops -/

namespace SmemRep

variable {m : SmallMem} {l r : List Cell} {c : Cell} {p a : ℕ}

/-- **The search** ends, with an item that is free and large enough or without one. -/
theorem find (h : SmemRep m (l ++ r)) (ht : Tiled sizeofStructMem p a r m.heapEnd) {size fuel : ℕ}
    (hfuel : r.length < fuel) (hsize : 0 < size) :
    smemFind m size fuel a = some none ∨ ∃ r₁ c r₂, r = r₁ ++ c :: r₂ ∧ c.used = false ∧
      size + sizeofStructMem ≤ c.size ∧ smemFind m size fuel a = some (some c.start) := by
  induction r generalizing l p a fuel with
  | nil =>
    obtain ⟨fuel, rfl⟩ : ∃ n, fuel = n + 1 := ⟨fuel - 1, by simp at hfuel; omega⟩
    have hstop : a = m.memSizeAligned + 16 := Eq.trans ht h.stop
    left
    rw [smemFind, if_neg (by omega)]
  | cons c r ih =>
    obtain ⟨fuel, rfl⟩ : ∃ n, fuel = n + 1 := ⟨fuel - 1, by simp at hfuel; omega⟩
    obtain ⟨hstart, -, hc16, hrest⟩ := ht
    have hc : c ∈ l ++ c :: r := List.mem_append_right _ List.mem_cons_self
    have hfuel' : r.length < fuel := Nat.lt_of_succ_lt_succ hfuel
    subst hstart
    by_cases hend : c.start ≤ m.memSizeAligned - size
    · by_cases hfit : m.isUsed c.start = false ∧
          (m.item c.start).next - (c.start + sizeofStructMem) ≥ size
      · right
        refine ⟨[], c, r, rfl, h.isUsed hc ▸ hfit.1, ?_, ?_⟩
        · have := hfit.2
          rw [h.next hc] at this
          unfold Cell.stop at this
          omega
        · rw [smemFind, if_pos hend, if_pos hfit]
      · have hih := ih (l := l ++ [c]) (by rwa [List.append_assoc, List.singleton_append]) hrest hfuel'
        rw [smemFind, if_pos hend, if_neg hfit, h.next hc]
        rcases hih with h1 | ⟨r₁, d, r₂, rfl, h1⟩
        · exact .inl h1
        · exact .inr ⟨c :: r₁, d, r₂, rfl, h1⟩
    · left
      rw [smemFind, if_neg hend]

/-- **The loop for `lfree`** finds the lowest free item. -/
theorem nextFree (h : SmemRep m (l ++ r)) (ht : Tiled sizeofStructMem p a r m.heapEnd) {fuel : ℕ}
    (hfuel : r.length < fuel) : smemNextFree m fuel a = some (lowestFree r m.heapEnd) := by
  induction r generalizing l p a fuel with
  | nil =>
    obtain ⟨fuel, rfl⟩ : ∃ n, fuel = n + 1 := ⟨fuel - 1, by simp at hfuel; omega⟩
    have hstop : a = m.heapEnd := ht
    rw [smemNextFree, if_neg fun hn => hn.2 hstop, hstop]
    rfl
  | cons c r ih =>
    obtain ⟨fuel, rfl⟩ : ∃ n, fuel = n + 1 := ⟨fuel - 1, by simp at hfuel; omega⟩
    obtain ⟨hstart, -, hc16, hrest⟩ := ht
    have hc : c ∈ l ++ c :: r := List.mem_append_right _ List.mem_cons_self
    have hlt : c.start + 16 ≤ m.heapEnd := h.start_lt hc
    have hfuel' : r.length < fuel := Nat.lt_of_succ_lt_succ hfuel
    subst hstart
    cases hu : c.used with
    | true =>
      rw [smemNextFree, if_pos ⟨h.isUsed hc ▸ hu, by omega⟩, h.next hc, lowestFree_used hu]
      exact ih (l := l ++ [c]) (by rwa [List.append_assoc, List.singleton_append]) hrest hfuel'
    | false =>
      rw [smemNextFree, if_neg fun hn => by rw [h.isUsed hc, hu] at hn; exact Bool.noConfusion hn.1,
        lowestFree_free hu]

theorem length_lt (h : SmemRep m l) : l.length < m.memSizeAligned + 2 := by
  have h1 : 0 + 16 * l.length ≤ m.memSizeAligned + 16 := h.stop ▸ h.tiled.length_le
  omega

end SmemRep

/-! ## Allocation -/

/-- The block that has been taken: `p` is its data, of `n` bytes or more. -/
structure SmemTaken (m m' : SmallMem) (l l' : List Cell) (p n : ℕ) : Prop where
  well : SmemWell m' l'
  same : SmallMem.Same m m'
  block : ∃ b bs cs, blocks true l = bs ++ cs ∧ blocks true l' = bs ++ b :: cs ∧
    p = m.heapPtr + b.1 + sizeofStructMem ∧ n + sizeofStructMem ≤ b.2

namespace SmemRep

variable {m m' : SmallMem} {l r : List Cell} {c : Cell}

/-- The new `lfree`, when the item `c` has just been marked used. -/
theorem taken_lfree (h : SmemRep m (l ++ c :: r))
    (hlf : m.lfree = lowestFree l c.start) :
    (if c.start = m.lfree then smemNextFree m (m.memSizeAligned + 2) m.lfree else some m.lfree) =
      some (lowestFree (l ++ c :: r) m.heapEnd) := by
  have hfuel := h.length_lt
  have hmid := Tiled.mid.mp h.tiled
  rw [lowestFree_append]
  rcases lowestFree_end l with hl | ⟨d, hd, hl⟩
  · rw [hl] at hlf ⊢
    have ht : Tiled sizeofStructMem (lastStart 0 l) c.start (c :: r) m.heapEnd := ⟨rfl, hmid.2⟩
    rw [if_pos hlf.symm, hlf]
    refine h.nextFree ht (Nat.lt_of_le_of_lt ?_ hfuel)
    rw [List.length_append]
    omega
  · have hlt := (h.tiled.around).1 d hd
    have h16 : 16 ≤ d.size := (h.tiled.bounds (List.mem_append_left _ hd)).2.2
    unfold Cell.stop at hlt
    rw [hl] at hlf ⊢
    rw [if_neg (by omega), hlf]

/-- `rt_smem_alloc` after an item has been marked used. -/
theorem taken (h : SmemRep m (l ++ c :: r)) (hno : NoTwoFree (l ++ c :: r))
    (hlf : m.lfree = lowestFree l c.start) (hu : m.used = sizes (blocks true (l ++ c :: r)))
    (hroom : ∀ b ∈ blocks true (l ++ c :: r), sizeofStructMem < b.2)
    {size : ℕ} (hsize : size + sizeofStructMem ≤ c.size) :
    ∃ m', smemTaken m c.start size = some (m.heapPtr + c.start + sizeofStructMem, m') ∧
      SmemWell m' (l ++ c :: r) ∧ SmallMem.Same m m' := by
  have hmem : c ∈ l ++ c :: r := List.mem_append_right _ List.mem_cons_self
  have hle := (h.tiled.bounds hmem).2.1
  have h1 : c.start % 8 = 0 := (h.aligned c hmem).1
  have h2 : m.heapPtr % 8 = 0 := h.heapPtr
  unfold Cell.stop at hle
  unfold smemTaken
  dsimp only
  rw [h.taken_lfree hlf, Option.bind_some, if_pos]
  · exact ⟨_, rfl, ⟨h.congr ⟨rfl, rfl, rfl, rfl⟩ rfl, hno, rfl, hu, hroom⟩, ⟨rfl, rfl, rfl, rfl⟩⟩
  · refine ⟨fun _ => ?_, by omega, ?_, ?_⟩
    · rcases lowestFree_mem (l ++ c :: r) m.heapEnd with h3 | ⟨d, hd, hdu, h3⟩
      · exact .inl h3.1
      · exact .inr (by rw [h3, h.isUsed hd, hdu])
    · change (m.heapPtr + c.start + 16) % 8 = 0
      omega
    · change (m.heapPtr + c.start) % 8 = 0
      omega

end SmemRep

namespace SmemWell

variable {m : SmallMem} {l r : List Cell} {c : Cell} {size : ℕ}

/-- **Taking an item.** -/
theorem take (h : SmemWell m (l ++ c :: r)) (hc : c.used = false)
    (hsize : size + sizeofStructMem ≤ c.size) (hal : size % rtAlignSize = 0) (hpos : 0 < size) :
    ∃ p m' l', smemTake m c.start size = some (p, m') ∧ SmemTaken m m' (l ++ c :: r) l' p size := by
  have hmem : c ∈ l ++ c :: r := List.mem_append_right _ List.mem_cons_self
  have hlow : m.lfree = lowestFree l c.start := by
    rw [h.lfree, lowestFree_append, lowestFree_free hc]
  obtain ⟨hl, hr, hadj⟩ := noTwoFree_mid.mp h.noTwoFree
  have hhead : HeadUsed r := (hadj.resolve_left (by rw [hc]; simp)).2
  have hused := h.used
  have h16 : size + 16 ≤ c.size := hsize
  have hal' : size % 8 = 0 := hal
  have hroom : c.stop - (c.start + sizeofStructMem) = c.size - 16 := by
    change c.start + c.size - (c.start + 16) = c.size - 16
    omega
  have hold : blocks true (l ++ c :: r) = blocks true l ++ blocks true r := by
    rw [blocks_append, blocks_cons, if_neg (by rw [hc]; simp)]
  have hroom' : ∀ n, 16 < n → ∀ b ∈ blocks true l ++ (c.start, n) :: blocks true r,
      sizeofStructMem < b.2 := fun n hn b hb => by
    have hroom := h.room
    rw [hold] at hroom
    rcases List.mem_append.mp hb with hb | hb
    · exact hroom b (List.mem_append_left _ hb)
    · rcases List.mem_cons.mp hb with rfl | hb
      · exact hn
      · exact hroom b (List.mem_append_right _ hb)
  unfold smemTake
  dsimp only
  rw [h.next hmem, hroom]
  by_cases hsplit : c.size - 16 ≥ size + sizeofStructMem + smemMinSizeAligned
  · have hsplit' : c.size - 16 ≥ size + 16 + 16 := hsplit
    have hn : 16 + size + 16 ≤ c.size := by omega
    have hn16 : (16 + size) % 8 = 0 := by omega
    rw [if_pos hsplit, show c.start + sizeofStructMem + size = c.start + (16 + size) by
      rw [Nat.add_assoc]]
    obtain ⟨m₁, hm₁⟩ : ∃ m₁, m₁ =
      (m.splitItem c.start (c.start + (16 + size))).addUsed (size + sizeofStructMem) := ⟨_, rfl⟩
    have hs : SmallMem.Same m (m.splitItem c.start (c.start + (16 + size))) :=
      SmallMem.splitItem_same _ _
    have hs₁ : SmallMem.Same m m₁ := hm₁ ▸ ⟨hs.addr, hs.heapPtr, hs.heapEnd, hs.memSizeAligned⟩
    have hs₂ : SmallMem.Same (m.splitItem c.start (c.start + (16 + size))) m₁ :=
      ⟨hm₁ ▸ rfl, hm₁ ▸ rfl, hm₁ ▸ rfl, hm₁ ▸ rfl⟩
    have hrep := ((h.split (Nat.le_add_right _ _) hn hn16).congr hs₂ (hm₁ ▸ rfl)).markUsed
    have hno := (h.noTwoFree.split (q := c.start + (16 + size)) hhead
      { c with size := 16 + size, used := true } rfl
      { start := c.start + (16 + size), size := c.size - (16 + size), prev := c.start, used := false })
    have hlf : m₁.lfree = lowestFree l c.start := by
      rw [hm₁, ← hlow]
      exact m.splitItem_lfree _ _
    have hblocks : blocks true (l ++ { c with size := 16 + size, used := true } ::
        { start := c.start + (16 + size), size := c.size - (16 + size), prev := c.start
          used := false } :: setPrev (c.start + (16 + size)) r) =
          blocks true l ++ (c.start, 16 + size) :: blocks true r := by
      simp only [blocks_append, blocks_cons, blocks_setPrev, if_true, Bool.false_eq_true, if_false]
    have hu : m₁.used = sizes (blocks true l ++ (c.start, 16 + size) :: blocks true r) := by
      have hadd : m₁.used = m.used + (size + 16) := by
        rw [hm₁]
        exact congrArg (· + (size + 16)) (m.splitItem_used _ _)
      rw [hadd, hused, hold, sizes_append, sizes_append, sizes_cons]
      omega
    obtain ⟨m', h1, h2, h3⟩ := hrep.taken hno hlf (hblocks ▸ hu) (hblocks ▸ hroom' _ (by omega))
      (Nat.le_of_eq (Nat.add_comm _ _))
    rw [← hm₁]
    refine ⟨_, m', _, h1, h2, (hs₁.trans (SmallMem.modify_same _ _)).trans h3, _, _, _,
      hold, hblocks, ?_, Nat.le_of_eq (Nat.add_comm _ _)⟩
    rw [← hs₁.heapPtr]
    rfl
  · obtain ⟨m₁, hm₁⟩ : ∃ m₁, m₁ = m.addUsed (c.stop - c.start) := ⟨_, rfl⟩
    have hs₁ : SmallMem.Same m m₁ := hm₁ ▸ ⟨rfl, rfl, rfl, rfl⟩
    have hrep := (h.toSmemRep.congr hs₁ (hm₁ ▸ rfl)).markUsed
    have hno : NoTwoFree (l ++ { c with used := true } :: r) := noTwoFree_mid.mpr ⟨hl, hr, .inl rfl⟩
    have hlf : m₁.lfree = lowestFree l c.start := by rw [hm₁, ← hlow]; rfl
    have hblocks : blocks true (l ++ { c with used := true } :: r) =
        blocks true l ++ (c.start, c.size) :: blocks true r := by
      simp only [blocks_append, blocks_cons, if_true]
    have hu : m₁.used = sizes (blocks true l ++ (c.start, c.size) :: blocks true r) := by
      have hadd : m₁.used = m.used + (c.stop - c.start) := hm₁ ▸ rfl
      have hstop : c.stop - c.start = c.size := Nat.add_sub_cancel_left _ _
      rw [hadd, hused, hold, sizes_append, sizes_append, sizes_cons, hstop]
      omega
    obtain ⟨m', h1, h2, h3⟩ := hrep.taken hno hlf (hblocks ▸ hu) (hblocks ▸ hroom' _ (by omega)) hsize
    rw [if_neg hsplit, ← hm₁]
    refine ⟨_, m', _, h1, h2, (hs₁.trans (SmallMem.modify_same _ _)).trans h3, _, _, _,
      hold, hblocks, ?_, hsize⟩
    rw [← hs₁.heapPtr]
    rfl

/-- The search begins at `lfree`, and no free item is before it. -/
theorem search (h : SmemWell m l) : ∃ p l₁ l₂, l = l₁ ++ l₂ ∧
    Tiled sizeofStructMem p m.lfree l₂ m.heapEnd ∧ l₂.length < m.memSizeAligned + 2 ∧
    ∀ c ∈ l, c.used = false → c ∈ l₂ := by
  have hlen := h.toSmemRep.length_lt
  rw [h.lfree]
  rcases lowestFree_split l m.heapEnd with ⟨h1, h2⟩ | ⟨l₁, c, l₂, rfl, -, h2, h1⟩
  · rw [h1]
    exact ⟨0, l, [], (List.append_nil l).symm, rfl, by simp, fun c hc hu =>
      absurd (h2 c hc) (by rw [hu]; simp)⟩
  · rw [h1]
    refine ⟨lastStart 0 l₁, l₁, c :: l₂, rfl, ⟨rfl, (Tiled.mid.mp h.tiled).2⟩, ?_, fun d hd hu => ?_⟩
    · rw [List.length_append] at hlen
      omega
    · rcases List.mem_append.mp hd with hd | hd
      · exact absurd (h2 d hd) (by rw [hu]; simp)
      · exact hd

/-- **`rt_smem_alloc`** returns, with a block of the size that it has rounded up to, or with null and
the heap as it was. -/
theorem alloc (h : SmemWell m l) (size : ℕ) : rtSmemAlloc m size = some (none, m) ∨
    ∃ p m' l', size ≠ 0 ∧ rtSmemAlloc m size = some (some p, m') ∧
      SmemTaken m m' l l' p (rtAlign size) := by
  unfold rtSmemAlloc
  by_cases h0 : size = 0
  · exact .inl (if_pos h0)
  rw [if_neg h0]
  dsimp only
  obtain ⟨n, hn⟩ : ∃ n, n = if rtAlign size < smemMinSizeAligned then smemMinSizeAligned
    else rtAlign size := ⟨_, rfl⟩
  rw [← hn]
  have hround : rtAlign size % 8 = 0 := rtAlign_mod size
  have hn8 : n % 8 = 0 := by
    rw [hn]
    split_ifs
    · rfl
    · exact hround
  have hle : rtAlign size ≤ n ∧ 16 ≤ n := by
    by_cases hmin : rtAlign size < 16
    · have : n = 16 := hn.trans (if_pos hmin)
      omega
    · have : n = rtAlign size := hn.trans (if_neg hmin)
      omega
  by_cases hbig : n > m.memSizeAligned
  · exact .inl (if_pos hbig)
  rw [if_neg hbig]
  obtain ⟨p, l₁, l₂, rfl, ht, hfuel, -⟩ := h.search
  rcases h.toSmemRep.find ht hfuel (by omega : 0 < n) with h1 | ⟨r₁, c, r₂, rfl, hc, hfit, h1⟩
  · left
    rw [h1]
    rfl
  · right
    rw [← List.append_assoc] at h
    obtain ⟨p, m', l', h2, h3, h4, b, bs, cs, h5, h6, h7, h8⟩ := h.take hc hfit hn8 (by omega)
    refine ⟨p, m', l', h0, ?_, h3, h4, b, bs, cs, ?_, h6, h7, ?_⟩
    · rw [h1, Option.bind_some]
      dsimp only
      rw [h2]
      rfl
    · rw [← h5, List.append_assoc]
    · exact Nat.le_trans (Nat.add_le_add_right hle.1 _) h8

/-- The item of a block, and how the code finds it. -/
theorem item_of_block (h : SmemWell m l) {b : ℕ × ℕ} (hb : b ∈ blocks true l) :
    ∃ l₁ c r, l = l₁ ++ c :: r ∧ c.used = true ∧ b = (c.start, c.size) ∧
      m.heapPtr + sizeofStructMem + b.1 - sizeofStructMem - m.heapPtr = c.start := by
  obtain ⟨c, hc, hu, rfl⟩ := mem_blocks.mp hb
  obtain ⟨l₁, r, rfl⟩ := List.append_of_mem hc
  refine ⟨l₁, c, r, rfl, hu, rfl, ?_⟩
  change m.heapPtr + 16 + c.start - 16 - m.heapPtr = c.start
  omega

/-- **`rt_smem_free`** of a used block. -/
theorem free (h : SmemWell m l) {b : ℕ × ℕ} (hb : b ∈ blocks true l) :
    ∃ m' l', rtSmemFree m (some (m.heapPtr + sizeofStructMem + b.1)) = some m' ∧ SmemWell m' l' ∧
      SmallMem.Same m m' ∧ (blocks true l).Perm (b :: blocks true l') := by
  obtain ⟨l₁, c, r, rfl, hc, rfl, hptr⟩ := h.item_of_block hb
  have hmem : c ∈ l₁ ++ c :: r := List.mem_append_right _ List.mem_cons_self
  have h8 : c.start % 8 = 0 := (h.aligned c hmem).1
  have hp8 : m.heapPtr % 8 = 0 := h.heapPtr
  have hlt : c.start + 16 ≤ m.heapEnd := h.toSmemRep.start_lt hmem
  have h16 : 16 ≤ c.size := (h.tiled.bounds hmem).2.2
  obtain ⟨hl, hr, -⟩ := noTwoFree_mid.mp h.noTwoFree
  have hc16 : 16 < c.size := h.room _ hb
  have hstop := (h.tiled.bounds hmem).2.1
  unfold Cell.stop at hstop
  -- the header behind the item
  have hpool : m.pool c.stop = m.addr := by
    rw [h.toSmemRep.behind]
    cases r with
    | nil => exact h.stop_pool
    | cons d r => exact h.toSmemRep.pool (by simp)
  have hasserts : (m.heapPtr + sizeofStructMem + c.start) % rtAlignSize = 0 ∧
      m.pool c.start = m.addr ∧ m.isUsed c.start = true ∧
      m.heapPtr + sizeofStructMem ≤ m.heapPtr + sizeofStructMem + c.start ∧
      m.heapPtr + sizeofStructMem + c.start < m.heapPtr + m.heapEnd ∧
      m.pool (m.item c.start).next = m.addr := by
    refine ⟨?_, h.toSmemRep.pool hmem, h.isUsed hmem ▸ hc, by omega, ?_, h.next hmem ▸ hpool⟩
    · change (m.heapPtr + 16 + c.start) % 8 = 0
      omega
    · change m.heapPtr + 16 + c.start < m.heapPtr + m.heapEnd
      omega
  obtain ⟨m₁, hm₁⟩ : ∃ m₁, m₁ = m.modify c.start fun i => { i with poolPtr := m.memFreed } :=
    ⟨_, rfl⟩
  obtain ⟨m₂, hm₂⟩ : ∃ m₂, m₂ = m₁.lowerFree c.start := ⟨_, rfl⟩
  obtain ⟨m₃, hm₃⟩ : ∃ m₃ : SmallMem, m₃ = { m₂ with
    used := m₂.used - ((m₂.item c.start).next - c.start) } := ⟨_, rfl⟩
  have hs₁ : SmallMem.Same m m₁ := hm₁ ▸ SmallMem.modify_same _ _
  have hs₂ : SmallMem.Same m₁ m₂ := hm₂ ▸ SmallMem.lowerFree_same _
  have hs₃ : SmallMem.Same m₂ m₃ := hm₃ ▸ ⟨rfl, rfl, rfl, rfl⟩
  have hitem : m₂.item = m₁.item := hm₂ ▸ SmallMem.lowerFree_item _
  have hrep₁ : SmemRep m₁ (l₁ ++ { c with used := false } :: r) := hm₁ ▸ h.toSmemRep.markFreed
  have hrep : SmemRep m₃ (l₁ ++ { c with used := false } :: r) :=
    hrep₁.congr (hs₂.trans hs₃) (by rw [hm₃]; exact hitem)
  have hold : blocks true (l₁ ++ c :: r) = blocks true l₁ ++ (c.start, c.size) :: blocks true r := by
    rw [blocks_append, blocks_cons, if_pos hc]
  have hnew : blocks true (l₁ ++ { c with used := false } :: r) =
      blocks true l₁ ++ blocks true r := by
    rw [blocks_append, blocks_cons]
    rfl
  have hlf : m₃.lfree = lowestFree (l₁ ++ { c with used := false } :: r) m₃.heapEnd := by
    have h3 : m₃.lfree = min c.start m.lfree := by
      rw [hm₃, hm₂, hm₁]
      exact SmallMem.lowerFree_lfree _
    have h4 : lowestFree (l₁ ++ { c with used := false } :: r) m₃.heapEnd =
        lowestFree l₁ c.start := by
      rw [lowestFree_append, lowestFree_free rfl]
    rw [h3, h.lfree, h4]
    exact h.tiled.min_lowestFree (by decide) hc (Nat.le_refl _) (Nat.lt_add_of_pos_right (by omega))
  have hu : m₃.used = sizes (blocks true (l₁ ++ { c with used := false } :: r)) := by
    have h3 : m₃.used = m.used - (c.stop - c.start) := by
      have hused : m₂.used = m.used := by
        rw [hm₂, hm₁]
        exact SmallMem.lowerFree_used _
      rw [hm₃, ← hused]
      change m₂.used - ((m₂.item c.start).next - c.start) = _
      rw [hitem, hrep₁.next (c := { c with used := false }) (by simp)]
      rfl
    have h4 : c.stop - c.start = c.size := Nat.add_sub_cancel_left _ _
    rw [h3, h.used, hold, hnew, sizes_append, sizes_append, sizes_cons, h4]
    omega
  have hroom : ∀ b ∈ blocks true (l₁ ++ { c with used := false } :: r), sizeofStructMem < b.2 := by
    have hroom := h.room
    rw [hold] at hroom
    rw [hnew]
    intro b hb
    rcases List.mem_append.mp hb with hb | hb
    · exact hroom b (List.mem_append_left _ hb)
    · exact hroom b (List.mem_append_right _ (List.mem_cons_of_mem _ hb))
  obtain ⟨m', l', h5, h6, h7, h8⟩ := hrep.plugHoles rfl hl hr hlf hu hroom
  refine ⟨m', l', ?_, h6, ((hs₁.trans hs₂).trans hs₃).trans h8, ?_⟩
  · unfold rtSmemFree
    dsimp only
    rw [hptr, if_pos hasserts, ← hm₁, ← hm₂, ← hm₃]
    exact h5
  · rw [h7, hold, hnew]
    exact List.perm_middle

/-- **`rt_smem_realloc`** of a used block that it makes smaller. -/
theorem shrink (h : SmemWell m (l ++ c :: r)) (hc : c.used = true) {newsize : ℕ} (hpos : 0 < newsize)
    (hal : newsize % rtAlignSize = 0)
    (hfit : newsize + sizeofStructMem + smemMinSize < c.size - sizeofStructMem) :
    ∃ m₁ m' l', m₁ = { m with used := m.used - (c.size - sizeofStructMem - newsize) } ∧
      (((m₁.splitItem c.start (c.start + sizeofStructMem + newsize)).lowerFree
        (c.start + sizeofStructMem + newsize)).plugHoles (c.start + sizeofStructMem + newsize)) =
          some m' ∧ SmemWell m' l' ∧ SmallMem.Same m m' ∧
      blocks true (l ++ c :: r) = blocks true l ++ (c.start, c.size) :: blocks true r ∧
      blocks true l' = blocks true l ++ (c.start, sizeofStructMem + newsize) :: blocks true r := by
  have hmem : c ∈ l ++ c :: r := List.mem_append_right _ List.mem_cons_self
  have hfit' : newsize + 16 + 12 < c.size - 16 := hfit
  have hc8 : c.size % 8 = 0 := (h.aligned c hmem).2
  have hal' : newsize % 8 = 0 := hal
  have hn8 : (16 + newsize) % 8 = 0 := by omega
  have hn : 16 + newsize + 16 ≤ c.size := by omega
  obtain ⟨hl, hr, -⟩ := noTwoFree_mid.mp h.noTwoFree
  rw [Nat.add_assoc]
  obtain ⟨m₁, hm₁⟩ : ∃ m₁ : SmallMem, m₁ =
    { m with used := m.used - (c.size - sizeofStructMem - newsize) } := ⟨_, rfl⟩
  obtain ⟨m₂, hm₂⟩ : ∃ m₂, m₂ = m₁.splitItem c.start (c.start + (16 + newsize)) := ⟨_, rfl⟩
  obtain ⟨m₃, hm₃⟩ : ∃ m₃, m₃ = m₂.lowerFree (c.start + (16 + newsize)) := ⟨_, rfl⟩
  have hs₁ : SmallMem.Same m m₁ := hm₁ ▸ ⟨rfl, rfl, rfl, rfl⟩
  have hs₂ : SmallMem.Same m₁ m₂ := hm₂ ▸ SmallMem.splitItem_same _ _
  have hs₃ : SmallMem.Same m₂ m₃ := hm₃ ▸ SmallMem.lowerFree_same _
  have hrep₂ := (h.toSmemRep.congr hs₁ (hm₁ ▸ rfl)).split (Nat.le_add_right _ _) hn hn8
  have hs₄ : SmallMem.Same (m₁.splitItem c.start (c.start + (16 + newsize))) m₃ := hm₂ ▸ hs₃
  have hrep := hrep₂.congr hs₄ (by rw [hm₃, hm₂]; exact SmallMem.lowerFree_item _)
  rw [List.append_cons] at hrep
  have hold : blocks true (l ++ c :: r) = blocks true l ++ (c.start, c.size) :: blocks true r := by
    rw [blocks_append, blocks_cons, if_pos hc]
  have hnew : blocks true (l ++ [{ c with size := 16 + newsize, used := c.used }] ++
      { start := c.start + (16 + newsize), size := c.size - (16 + newsize), prev := c.start
        used := false } :: setPrev (c.start + (16 + newsize)) r) =
      blocks true l ++ (c.start, 16 + newsize) :: blocks true r := by
    simp only [blocks_append, blocks_cons, blocks_setPrev, hc, if_true,
      Bool.false_eq_true, if_false, List.append_assoc, List.singleton_append]
  have hlf : m₃.lfree = lowestFree (l ++ [{ c with size := 16 + newsize, used := c.used }] ++
      { start := c.start + (16 + newsize), size := c.size - (16 + newsize), prev := c.start
        used := false } :: setPrev (c.start + (16 + newsize)) r) m₃.heapEnd := by
    have h3 : m₃.lfree = min (c.start + (16 + newsize)) m.lfree := by
      rw [hm₃, hm₂, SmallMem.lowerFree_lfree, SmallMem.splitItem_lfree, hm₁]
    have h4 : ∀ l', lowestFree (l ++ [{ c with size := 16 + newsize, used := c.used }] ++
        { start := c.start + (16 + newsize), size := c.size - (16 + newsize), prev := c.start
          used := false } :: l') m₃.heapEnd = lowestFree l (c.start + (16 + newsize)) := fun l' => by
      rw [lowestFree_append, lowestFree_free rfl, lowestFree_append]
      exact congrArg (lowestFree l) (lowestFree_used (by exact hc))
    rw [h3, h.lfree, h4]
    refine h.tiled.min_lowestFree (by decide) hc (Nat.le_add_right _ _) ?_
    unfold Cell.stop
    omega
  have hu : m₃.used = sizes (blocks true l ++ (c.start, 16 + newsize) :: blocks true r) := by
    have h3 : m₃.used = m.used - (c.size - 16 - newsize) := by
      rw [hm₃, hm₂, SmallMem.lowerFree_used, SmallMem.splitItem_used, hm₁]
    rw [h3, h.used, hold, sizes_append, sizes_append, sizes_cons, sizes_cons]
    omega
  have hroom : ∀ b ∈ blocks true l ++ (c.start, 16 + newsize) :: blocks true r,
      sizeofStructMem < b.2 := fun b hb => by
    have hroom := h.room
    rw [hold] at hroom
    rcases List.mem_append.mp hb with hb | hb
    · exact hroom b (List.mem_append_left _ hb)
    · rcases List.mem_cons.mp hb with rfl | hb
      · exact Nat.lt_add_of_pos_right hpos
      · exact hroom b (List.mem_append_right _ (List.mem_cons_of_mem _ hb))
  obtain ⟨m', l', h5, h6, h7, h8⟩ := hrep.plugHoles rfl
    (noTwoFree_mid.mpr ⟨hl, .nil, .inl hc⟩) (noTwoFree_setPrev.mpr hr) hlf (hnew ▸ hu) (hnew ▸ hroom)
  refine ⟨m₁, m', l', hm₁, ?_, h6, ((hs₁.trans hs₂).trans hs₃).trans h8, hold, h7.trans hnew⟩
  rw [hm₃, hm₂] at h5
  exact h5

/-- **`rt_smem_realloc`** of a used block returns: the block has been freed, the heap is as it was,
or a block of the new size has taken its place. -/
theorem realloc (h : SmemWell m l) {b : ℕ × ℕ} (hb : b ∈ blocks true l) (newsize : ℕ) :
    ∃ p m' l', rtSmemRealloc m (some (m.heapPtr + sizeofStructMem + b.1)) newsize = some (p, m') ∧
      SmemWell m' l' ∧ SmallMem.Same m m' ∧
      ((rtAlign newsize = 0 ∧ p = none ∧ (blocks true l).Perm (b :: blocks true l')) ∨
        (rtAlign newsize ≠ 0 ∧ p = none ∧ m' = m ∧ l' = l) ∨
        (rtAlign newsize ≠ 0 ∧ ∃ b' bs, p = some (m.heapPtr + sizeofStructMem + b'.1) ∧
          rtAlign newsize + sizeofStructMem ≤ b'.2 ∧ (blocks true l).Perm (b :: bs) ∧
          (blocks true l').Perm (b' :: bs))) := by
  have hal : rtAlign newsize % 8 = 0 := rtAlign_mod newsize
  have hidem := rtAlign_rtAlign newsize
  unfold rtSmemRealloc
  dsimp only
  obtain ⟨n, hn⟩ : ∃ n, n = rtAlign newsize := ⟨_, rfl⟩
  rw [← hn] at hal hidem ⊢
  by_cases hbig : n > m.memSizeAligned
  · rw [if_pos hbig]
    exact ⟨none, m, l, rfl, h, .refl m, .inr (.inl ⟨by omega, rfl, rfl, rfl⟩)⟩
  rw [if_neg hbig]
  by_cases h0 : n = 0
  · obtain ⟨m', l', h1, h2, h3, h4⟩ := h.free hb
    rw [if_pos h0, h1]
    exact ⟨none, m', l', rfl, h2, h3, .inl ⟨h0, rfl, h4⟩⟩
  rw [if_neg h0]
  obtain ⟨l₁, c, r, rfl, hc, rfl, hptr⟩ := h.item_of_block hb
  have hmem : c ∈ l₁ ++ c :: r := List.mem_append_right _ List.mem_cons_self
  have h8 : c.start % 8 = 0 := (h.aligned c hmem).1
  have hp8 : m.heapPtr % 8 = 0 := h.heapPtr
  have hc16 : 16 < c.size := h.room _ hb
  have hstop := (h.tiled.bounds hmem).2.1
  unfold Cell.stop at hstop
  have hasserts : (m.heapPtr + sizeofStructMem + c.start) % rtAlignSize = 0 ∧
      m.heapPtr + sizeofStructMem ≤ m.heapPtr + sizeofStructMem + c.start ∧
      m.heapPtr + sizeofStructMem + c.start < m.heapPtr + m.heapEnd := by
    refine ⟨?_, by omega, ?_⟩
    · change (m.heapPtr + 16 + c.start) % 8 = 0
      omega
    · change m.heapPtr + 16 + c.start < m.heapPtr + m.heapEnd
      omega
  have hsize : (m.item c.start).next - c.start - sizeofStructMem = c.size - 16 := by
    rw [h.next hmem]
    change c.start + c.size - c.start - 16 = c.size - 16
    omega
  have hold : blocks true (l₁ ++ c :: r) = blocks true l₁ ++ (c.start, c.size) :: blocks true r := by
    rw [blocks_append, blocks_cons, if_pos hc]
  have hperm : (blocks true (l₁ ++ c :: r)).Perm
      ((c.start, c.size) :: (blocks true l₁ ++ blocks true r)) := by
    rw [hold]
    exact List.perm_middle
  rw [if_pos hasserts, hptr, hsize]
  by_cases hsame : c.size - 16 = n
  · rw [if_pos hsame]
    refine ⟨_, m, _, rfl, h, .refl m, .inr (.inr ⟨h0, (c.start, c.size), _, rfl, ?_, hperm, hperm⟩)⟩
    change n + 16 ≤ c.size
    omega
  rw [if_neg hsame]
  by_cases hfit : n + sizeofStructMem + smemMinSize < c.size - 16
  · obtain ⟨m₁, m', l', hm₁, h1, h2, h3, -, h4⟩ := h.shrink hc (Nat.pos_of_ne_zero h0) hal hfit
    rw [if_pos hfit, ← hm₁, h1]
    refine ⟨_, m', l', rfl, h2, h3, .inr (.inr ⟨h0, (c.start, 16 + n), _, rfl,
      Nat.le_of_eq (Nat.add_comm _ _), hperm, ?_⟩)⟩
    rw [h4]
    exact List.perm_middle
  · rw [if_neg hfit]
    rcases h.alloc n with h1 | ⟨p, m', l', -, h1, h2, h3, b', bs, cs, h4, h5, h6, h7⟩
    · rw [h1]
      exact ⟨none, m, _, rfl, h, .refl m, .inr (.inl ⟨h0, rfl, rfl, rfl⟩)⟩
    · rw [hidem] at h7
      have hb' : (c.start, c.size) ∈ blocks true l' := by
        rw [h4] at hb
        rw [h5]
        rcases List.mem_append.mp hb with hb | hb
        · exact List.mem_append_left _ hb
        · exact List.mem_append_right _ (List.mem_cons_of_mem _ hb)
      obtain ⟨m'', l'', h8, h9, h10, h11⟩ := h2.free hb'
      rw [h3.heapPtr] at h8
      rw [h1]
      refine ⟨some p, m'', l'', ?_, h9, h3.trans h10, .inr (.inr ⟨h0, b', _, ?_, h7, hperm, ?_⟩)⟩
      · dsimp only [Option.bind_some]
        rw [h8]
        rfl
      · rw [h6, Nat.add_right_comm]
      · -- what is live after the block has been taken and the old one freed
        have htaken : (blocks true l').Perm (b' :: (bs ++ cs)) := by
          rw [h5]
          exact List.perm_middle
        rw [h4] at hperm
        exact ((h11.symm.trans htaken).trans ((hperm.cons b').trans (.swap _ _ _))).cons_inv

end SmemWell

/-! ## The callers -/

/-- The heap and the blocks that the callers have, with the sizes they have asked for. -/
structure SmemState where
  heap : SmallMem
  live : ℕ → Option ℕ

/-- The calls. -/
inductive SmemLabel where
  | alloc (size : BitVec 32)
  | realloc (rmem : Option ℕ) (newsize : BitVec 32)
  | free (rmem : Option ℕ)
  deriving DecidableEq, Repr

/-- One call. A block that `rt_smem_realloc` could not resize stays the caller's. -/
def smemStep (s : SmemState) : SmemLabel → Option SmemState
  | .alloc size => (rtSmemAlloc s.heap size.toNat).map fun r =>
    { heap := r.2, live := takeBlock s.live r.1 size.toNat }
  | .realloc rmem newsize =>
    if ownsBlock s.live rmem then
      (rtSmemRealloc s.heap rmem newsize.toNat).map fun r =>
        { heap := r.2
          live := if newsize = 0 then dropBlock s.live rmem
            else if r.1 = none then s.live
            else takeBlock (dropBlock s.live rmem) r.1 newsize.toNat }
    else none
  | .free rmem =>
    if ownsBlock s.live rmem then (rtSmemFree s.heap rmem).map fun m => { heap := m, live := dropBlock s.live rmem }
    else none

/-- A heap that `rt_smem_init` has set up, in memory that ends before the address space does. -/
def SmemInit (s : SmemState) : Prop :=
  (∃ sizeofSmallMem item beginAddr size, beginAddr + size < 2 ^ 32 ∧
    rtSmemInit sizeofSmallMem item beginAddr size = some s.heap) ∧ ∀ p, s.live p = none

/-- The small memory as a system. -/
def smemSystem : System SmemState SmemLabel where
  init := SmemInit
  step := smemStep

/-- The size that a call asks for can be rounded up. -/
def smemFits (_ : SmemState) : SmemLabel → Bool
  | .alloc size => size.toNat ≤ 2 ^ 32 - rtAlignSize
  | .realloc _ newsize => newsize.toNat ≤ 2 ^ 32 - rtAlignSize
  | .free _ => true

/-- The invariant. -/
def SmemInv (s : SmemState) : Prop :=
  ∃ l, SmemWell s.heap l ∧
    LiveBlocks (s.heap.heapPtr + sizeofStructMem) sizeofStructMem s.live (blocks true l)

theorem rtSmemInit_well {sizeofSmallMem : ℕ} {item : ℕ → SmallMemItem} {beginAddr size : ℕ}
    {m : SmallMem} (h : rtSmemInit sizeofSmallMem item beginAddr size = some m) :
    SmemWell m [{ start := 0, size := m.heapEnd, prev := 0, used := false }] := by
  obtain ⟨addr, haddr⟩ : ∃ addr, addr = rtAlign beginAddr := ⟨_, rfl⟩
  obtain ⟨heapPtr, hptr⟩ : ∃ heapPtr, heapPtr = rtAlign (addr + sizeofSmallMem) := ⟨_, rfl⟩
  obtain ⟨n, hn⟩ : ∃ n, n = rtAlignDown (beginAddr + size) - heapPtr - 2 * sizeofStructMem := ⟨_, rfl⟩
  have haddr8 : addr % 8 = 0 := haddr ▸ rtAlign_mod _
  have hptr8 : heapPtr % 8 = 0 := hptr ▸ rtAlign_mod _
  have hn8 : n % 8 = 0 := by
    have h1 : rtAlignDown (beginAddr + size) % 8 = 0 := rtAlignDown_mod _
    have h2 : n = rtAlignDown (beginAddr + size) - heapPtr - 32 := hn
    omega
  unfold rtSmemInit at h
  dsimp only at h
  rw [← haddr, ← hptr, ← hn] at h
  split_ifs at h
  cases h
  have h16 : sizeofStructMem ≤ n + sizeofStructMem := Nat.le_add_left _ _
  refine ⟨⟨⟨rfl, rfl, h16, Nat.zero_add _⟩, fun c hc => ?_, fun c hc => ?_, rfl, ?_, hptr8, ?_⟩,
    .singleton _, rfl, rfl, fun b hb => absurd hb List.not_mem_nil⟩
  · rw [List.mem_singleton.mp hc, SmallMem.modify_item, if_neg (by change 0 ≠ n + 16; omega),
      SmallMem.modify_item, if_pos rfl]
    rw [SmallMem.header, Cell.stop, Nat.zero_add]
    rfl
  · rw [List.mem_singleton.mp hc]
    refine ⟨rfl, ?_⟩
    change (n + 16) % 8 = 0
    omega
  · rw [SmallMem.modify_item]
    exact congrArg SmallMemItem.poolPtr (if_pos rfl)
  · change addr % 2 = 0
    omega

theorem SmemInit.inv {s : SmemState} (h : SmemInit s) : SmemInv s := by
  obtain ⟨⟨_, _, _, _, -, hinit⟩, hlive⟩ := h
  refine ⟨_, rtSmemInit_well hinit, .nil, fun hp => ?_, fun b hb => absurd hb ?_⟩
  · rw [hlive] at hp
    cases hp
  · exact List.not_mem_nil

namespace SmemInv

variable {s s' : SmemState}

theorem alloc {m : SmallMem} {l : List Cell} {live : ℕ → Option ℕ} (hw : SmemWell m l)
    (hl : LiveBlocks (m.heapPtr + sizeofStructMem) sizeofStructMem live (blocks true l)) (size n : ℕ)
    (hn : n ≤ rtAlign size) {p : Option ℕ} {m' : SmallMem} (h : rtSmemAlloc m size = some (p, m')) :
    SmemInv { heap := m', live := takeBlock live p n } := by
  rcases hw.alloc size with h1 | ⟨q, m₁, l', -, h1, hw', hs, b, bs, cs, h4, h5, h6, h7⟩
  · rw [h1] at h
    cases h
    exact ⟨l, hw, hl⟩
  · rw [h1] at h
    cases h
    have hperm : (blocks true l').Perm (b :: blocks true l) := by
      rw [h4, h5]
      exact List.perm_middle
    have hq : q = m.heapPtr + sizeofStructMem + b.1 := by
      rw [h6, Nat.add_right_comm]
    refine ⟨l', hw', ?_⟩
    dsimp only [takeBlock, Option.elim]
    rw [hs.heapPtr, hq]
    exact hl.alloc hperm (hw'.tiled.blocks_nodup (by decide) true)
      (Nat.le_trans (Nat.add_le_add_right hn _) h7)

theorem block (hl : LiveBlocks (s.heap.heapPtr + sizeofStructMem) sizeofStructMem s.live bs) {p : ℕ}
    (hp : ownsBlock s.live (some p) = true) : ∃ b ∈ bs, p = s.heap.heapPtr + sizeofStructMem + b.1 := by
  obtain ⟨n, hn⟩ := Option.isSome_iff_exists.mp hp
  obtain ⟨b, hb, h1, -⟩ := hl.block hn
  exact ⟨b, hb, h1⟩

/-- The size that is asked for is zero when it is zero after rounding. -/
theorem rtAlign_eq_zero {n : BitVec 32} (hn : n.toNat ≤ rtAlign n.toNat) :
    rtAlign n.toNat = 0 ↔ n = 0 := by
  constructor
  · intro h
    apply BitVec.eq_of_toNat_eq
    change n.toNat = 0
    omega
  · rintro rfl
    rfl

/-- `rt_smem_realloc` of no block. -/
theorem reallocNone {m : SmallMem} {l : List Cell} {live : ℕ → Option ℕ} (hw : SmemWell m l)
    (hl : LiveBlocks (m.heapPtr + sizeofStructMem) sizeofStructMem live (blocks true l))
    {n : BitVec 32} (hn : n.toNat ≤ rtAlign n.toNat) {p : Option ℕ} {m' : SmallMem}
    (h : rtSmemRealloc m none n.toNat = some (p, m')) :
    SmemInv { heap := m', live := if n = 0 then live else if p = none then live
                                  else takeBlock live p n.toNat } := by
  unfold rtSmemRealloc at h
  dsimp only at h
  by_cases hbig : rtAlign n.toNat > m.memSizeAligned
  · rw [if_pos hbig] at h
    cases h
    rw [if_pos rfl, ite_self]
    exact ⟨l, hw, hl⟩
  rw [if_neg hbig] at h
  by_cases h0 : n = 0
  · rw [if_pos ((rtAlign_eq_zero hn).mpr h0)] at h
    cases h
    rw [if_pos h0]
    exact ⟨l, hw, hl⟩
  · rw [if_neg fun h' => h0 ((rtAlign_eq_zero hn).mp h')] at h
    rw [if_neg h0]
    have hinv := alloc hw hl (rtAlign n.toNat) n.toNat (by rwa [rtAlign_rtAlign]) h
    cases p <;> exact hinv

/-- `rt_smem_realloc` of a block. -/
theorem reallocSome {m : SmallMem} {l : List Cell} {live : ℕ → Option ℕ} (hw : SmemWell m l)
    (hl : LiveBlocks (m.heapPtr + sizeofStructMem) sizeofStructMem live (blocks true l))
    {b : ℕ × ℕ} (hb : b ∈ blocks true l) {n : BitVec 32} (hn : n.toNat ≤ rtAlign n.toNat)
    {p : Option ℕ} {m' : SmallMem}
    (h : rtSmemRealloc m (some (m.heapPtr + sizeofStructMem + b.1)) n.toNat = some (p, m')) :
    SmemInv { heap := m', live :=
      if n = 0 then Function.update live (m.heapPtr + sizeofStructMem + b.1) none
      else if p = none then live
      else takeBlock (Function.update live (m.heapPtr + sizeofStructMem + b.1) none) p n.toNat } := by
  obtain ⟨p', m₁, l', h2, hw', hs, hcase⟩ := hw.realloc hb n.toNat
  rw [h] at h2
  cases h2
  rcases hcase with ⟨h0, rfl, hperm⟩ | ⟨h0, rfl, rfl, rfl⟩ |
    ⟨h0, b', bs, rfl, hsize, hperm, hperm'⟩
  · -- the block has been freed
    rw [if_pos ((rtAlign_eq_zero hn).mp h0)]
    exact ⟨l', hw', hs.heapPtr ▸ hl.free hperm⟩
  · -- there was no room
    rw [if_neg fun h' => h0 ((rtAlign_eq_zero hn).mpr h'), if_pos rfl]
    exact ⟨_, hw, hl⟩
  · rw [if_neg fun h' => h0 ((rtAlign_eq_zero hn).mpr h'), if_neg (Option.some_ne_none _)]
    refine ⟨l', hw', ?_⟩
    dsimp only [takeBlock, Option.elim]
    rw [hs.heapPtr]
    exact (hl.free hperm).alloc hperm' (hw'.tiled.blocks_nodup (by decide) true)
      (Nat.le_trans (Nat.add_le_add_right hn _) hsize)

/-- **Every call keeps the invariant.** -/
theorem step (h : SmemInv s) {a : SmemLabel} (ha : smemFits s a = true) (hst : smemStep s a = some s') :
    SmemInv s' := by
  obtain ⟨l, hw, hl⟩ := h
  cases a with
  | alloc size =>
    obtain ⟨⟨p, m'⟩, h1, rfl⟩ := Option.map_eq_some_iff.mp hst
    exact alloc hw hl _ _ (le_rtAlign (of_decide_eq_true ha)) h1
  | realloc rmem newsize =>
    have hround : newsize.toNat ≤ rtAlign newsize.toNat := le_rtAlign (of_decide_eq_true ha)
    unfold smemStep at hst
    dsimp only at hst
    by_cases hown : ownsBlock s.live rmem = true
    case neg => rw [if_neg hown] at hst; cases hst
    rw [if_pos hown] at hst
    obtain ⟨⟨p, m'⟩, h1, rfl⟩ := Option.map_eq_some_iff.mp hst
    cases rmem with
    | none =>
      exact reallocNone hw hl hround h1
    | some q =>
      obtain ⟨b, hb, rfl⟩ := block hl hown
      exact reallocSome hw hl hb hround h1
  | free rmem =>
    unfold smemStep at hst
    dsimp only at hst
    by_cases hown : ownsBlock s.live rmem = true
    case neg => rw [if_neg hown] at hst; cases hst
    rw [if_pos hown] at hst
    obtain ⟨m', h1, rfl⟩ := Option.map_eq_some_iff.mp hst
    cases rmem with
    | none =>
      cases h1
      exact ⟨l, hw, hl⟩
    | some q =>
      obtain ⟨b, hb, rfl⟩ := block hl hown
      obtain ⟨m₁, l', h2, hw', hs, hperm⟩ := hw.free hb
      rw [h1] at h2
      cases h2
      exact ⟨l', hw', hs.heapPtr ▸ hl.free hperm⟩

end SmemInv

/-! ## The heap in every run -/

/-- The bytes of the block at `rmem`, as `rt_smem_realloc` counts them. -/
def SmallMem.payload (m : SmallMem) (rmem : ℕ) : ℕ :=
  (m.item (rmem - sizeofStructMem - m.heapPtr)).next - (rmem - sizeofStructMem - m.heapPtr) -
    sizeofStructMem

/-- `rt_smem_free` for all of some blocks. -/
def smemFreeAll (s : SmemState) : List ℕ → Option SmemState
  | [] => some s
  | p :: ps => (smemStep s (.free (some p))).bind fun s' => smemFreeAll s' ps

/-- What a heap with the callers' blocks promises; `l` are its items. -/
structure SmemHeap (s : SmemState) (l : List Cell) : Prop where
  tiled : Tiled sizeofStructMem 0 0 l s.heap.heapEnd
  links : ∀ c ∈ l, (s.heap.item c.start).next = c.stop ∧ (s.heap.item c.start).prev = c.prev ∧
    s.heap.isUsed c.start = c.used
  noTwoFree : NoTwoFree l
  lfree : (∀ c ∈ l, c.used = false → s.heap.lfree ≤ c.start) ∧
    (s.heap.lfree = s.heap.heapEnd ∨ ∃ c ∈ l, c.used = false ∧ s.heap.lfree = c.start)
  used : s.heap.used = ((l.filter fun c => c.used).map Cell.size).sum
  live : ∀ p, s.live p ≠ none ↔
    ∃ c ∈ l, c.used = true ∧ p = s.heap.heapPtr + sizeofStructMem + c.start
  large : ∀ {p n}, s.live p = some n → p % rtAlignSize = 0 ∧ n ≤ s.heap.payload p ∧
    p + s.heap.payload p ≤ s.heap.heapPtr + s.heap.heapEnd
  disjoint : ∀ {p q}, s.live p ≠ none → s.live q ≠ none → p ≠ q →
    p + s.heap.payload p ≤ q ∨ q + s.heap.payload q ≤ p
  returns : ∀ a, (∀ rmem newsize, a = .realloc rmem newsize → ownsBlock s.live rmem = true) →
    (∀ rmem, a = .free rmem → ownsBlock s.live rmem = true) → ∃ s', smemStep s a = some s'
  freed : ∀ ps : List ℕ, ps.Nodup → (∀ p, s.live p ≠ none ↔ p ∈ ps) →
    ∃ s', smemFreeAll s ps = some s' ∧ s'.heap.used = 0 ∧ s'.heap.lfree = 0 ∧
      s'.heap.item 0 = { poolPtr := s'.heap.memFreed, next := s'.heap.heapEnd, prev := 0 }

namespace SmemInv

variable {s s' : SmemState} {m : SmallMem} {l : List Cell} {live : ℕ → Option ℕ}

/-- The calls return: no assertion fails, and the loops end. -/
theorem returns (h : SmemInv s) (a : SmemLabel)
    (hr : ∀ rmem newsize, a = .realloc rmem newsize → ownsBlock s.live rmem = true)
    (hf : ∀ rmem, a = .free rmem → ownsBlock s.live rmem = true) : ∃ s', smemStep s a = some s' := by
  obtain ⟨l, hw, hl⟩ := h
  have halloc : ∀ n, ∃ r, rtSmemAlloc s.heap n = some r := fun n => by
    rcases hw.alloc n with h1 | ⟨p, m', -, -, h1, -⟩
    · exact ⟨_, h1⟩
    · exact ⟨_, h1⟩
  cases a with
  | alloc size =>
    obtain ⟨r, h1⟩ := halloc size.toNat
    exact ⟨_, congrArg (Option.map _) h1⟩
  | realloc rmem newsize =>
    have hown := hr rmem newsize rfl
    unfold smemStep
    dsimp only
    rw [if_pos hown]
    cases rmem with
    | none =>
      have h1 : ∃ r, rtSmemRealloc s.heap none newsize.toNat = some r := by
        unfold rtSmemRealloc
        dsimp only
        split_ifs
        · exact ⟨_, rfl⟩
        · exact ⟨_, rfl⟩
        · exact halloc _
      obtain ⟨r, h1⟩ := h1
      exact ⟨_, congrArg (Option.map _) h1⟩
    | some q =>
      obtain ⟨b, hb, rfl⟩ := block hl hown
      obtain ⟨p', m', l', h1, -⟩ := hw.realloc hb newsize.toNat
      exact ⟨_, congrArg (Option.map _) h1⟩
  | free rmem =>
    have hown := hf rmem rfl
    unfold smemStep
    dsimp only
    rw [if_pos hown]
    cases rmem with
    | none => exact ⟨_, rfl⟩
    | some q =>
      obtain ⟨b, hb, rfl⟩ := block hl hown
      obtain ⟨m', l', h1, -⟩ := hw.free hb
      exact ⟨_, congrArg (Option.map _) h1⟩

/-- One of the blocks is freed. -/
theorem freeStep (h : SmemInv s) {p : ℕ} (hp : s.live p ≠ none) :
    ∃ s', smemStep s (.free (some p)) = some s' ∧ SmemInv s' ∧
      s'.live = Function.update s.live p none := by
  have hown : ownsBlock s.live (some p) = true := Option.isSome_iff_ne_none.mpr hp
  obtain ⟨s', h1⟩ := h.returns (.free (some p)) (fun _ _ he => by cases he)
    fun _ he => by cases he; exact hown
  refine ⟨s', h1, h.step rfl h1, ?_⟩
  unfold smemStep at h1
  dsimp only at h1
  rw [if_pos hown] at h1
  obtain ⟨m', -, rfl⟩ := Option.map_eq_some_iff.mp h1
  rfl

/-- **All of the blocks are freed.** -/
theorem freeAll (h : SmemInv s) {ps : List ℕ} (hnd : ps.Nodup) (hps : ∀ p, s.live p ≠ none ↔ p ∈ ps) :
    ∃ s', smemFreeAll s ps = some s' ∧ SmemInv s' ∧ ∀ p, s'.live p = none := by
  induction ps generalizing s with
  | nil =>
    refine ⟨s, rfl, h, fun p => ?_⟩
    by_contra hp
    exact List.not_mem_nil ((hps p).mp hp)
  | cons p ps ih =>
    obtain ⟨hp, hnd⟩ := List.nodup_cons.mp hnd
    obtain ⟨s₁, h1, hinv, hlive⟩ := h.freeStep ((hps p).mpr List.mem_cons_self)
    have hps₁ : ∀ q, s₁.live q ≠ none ↔ q ∈ ps := fun q => by
      rw [hlive]
      by_cases hq : q = p
      · rw [hq, Function.update_self]
        exact ⟨fun h => absurd rfl h, fun h => absurd h hp⟩
      · rw [Function.update_of_ne hq, hps, List.mem_cons]
        exact or_iff_right hq
    obtain ⟨s', h2, h3⟩ := ih hinv hnd hps₁
    refine ⟨s', ?_, h3⟩
    rw [smemFreeAll, h1]
    exact h2

/-- Without blocks in use the heap is one free item. -/
theorem empty (h : SmemInv s) (hlive : ∀ p, s.live p = none) : s.heap.used = 0 ∧ s.heap.lfree = 0 ∧
    s.heap.item 0 = { poolPtr := s.heap.memFreed, next := s.heap.heapEnd, prev := 0 } := by
  obtain ⟨l, hw, hl⟩ := h
  have hused : blocks true l = [] :=
    List.eq_nil_iff_forall_not_mem.mpr fun b hb => hl.live b hb (hlive _)
  have hne : l ≠ [] := by
    rintro rfl
    have h1 : 0 = s.heap.heapEnd := hw.tiled
    have h2 : s.heap.heapEnd = s.heap.memSizeAligned + 16 := hw.stop
    omega
  have hone := hw.tiled.single hw.noTwoFree hused hne
  rw [hone] at hw
  refine ⟨hw.used, hw.lfree, ?_⟩
  rw [hw.item _ (List.mem_singleton.mpr rfl), SmallMem.header, Cell.stop, Nat.zero_add]
  rfl

/-- Where the block of an item is. -/
theorem payload_eq (hw : SmemWell m l) {c : Cell} (hc : c ∈ l) :
    m.payload (m.heapPtr + sizeofStructMem + c.start) + sizeofStructMem = c.size := by
  have h16 : 16 ≤ c.size := (hw.tiled.bounds hc).2.2
  have hptr : m.heapPtr + sizeofStructMem + c.start - sizeofStructMem - m.heapPtr = c.start := by
    change m.heapPtr + 16 + c.start - 16 - m.heapPtr = c.start
    omega
  rw [SmallMem.payload, hptr, hw.next hc]
  change c.start + c.size - c.start - 16 + 16 = c.size
  omega

/-- The callers have the used items. -/
theorem live_iff (hl : LiveBlocks (m.heapPtr + sizeofStructMem) sizeofStructMem live (blocks true l))
    (p : ℕ) :
    live p ≠ none ↔ ∃ c ∈ l, c.used = true ∧ p = m.heapPtr + sizeofStructMem + c.start := by
  constructor
  · intro hp
    obtain ⟨n, hn⟩ := Option.ne_none_iff_exists'.mp hp
    obtain ⟨b, hb, hpb, -⟩ := hl.block hn
    obtain ⟨c, hc, hu, rfl⟩ := mem_blocks.mp hb
    exact ⟨c, hc, hu, hpb⟩
  · rintro ⟨c, hc, hu, rfl⟩
    exact hl.live _ (mem_blocks.mpr ⟨c, hc, hu, rfl⟩)

theorem large (hw : SmemWell m l)
    (hl : LiveBlocks (m.heapPtr + sizeofStructMem) sizeofStructMem live (blocks true l)) {p n : ℕ}
    (hp : live p = some n) :
    p % rtAlignSize = 0 ∧ n ≤ m.payload p ∧ p + m.payload p ≤ m.heapPtr + m.heapEnd := by
  obtain ⟨b, hb, rfl, hn⟩ := hl.block hp
  obtain ⟨c, hc, -, rfl⟩ := mem_blocks.mp hb
  have h1 : m.payload (m.heapPtr + sizeofStructMem + c.start) + 16 = c.size := payload_eq hw hc
  have h2 : n + 16 ≤ c.size := hn
  have h3 : c.start + c.size ≤ m.heapEnd := (hw.tiled.bounds hc).2.1
  have h4 : c.start % 8 = 0 := (hw.aligned c hc).1
  have h5 : m.heapPtr % 8 = 0 := hw.heapPtr
  change (m.heapPtr + 16 + c.start) % 8 = 0 ∧ n ≤ m.payload (m.heapPtr + 16 + c.start) ∧
    m.heapPtr + 16 + c.start + m.payload (m.heapPtr + 16 + c.start) ≤ _
  change m.payload (m.heapPtr + 16 + c.start) + 16 = c.size at h1
  omega

theorem disjoint (hw : SmemWell m l) {c d : Cell} (hc : c ∈ l) (hd : d ∈ l) (hne : c.start ≠ d.start) :
    m.heapPtr + sizeofStructMem + c.start + m.payload (m.heapPtr + sizeofStructMem + c.start) ≤
        m.heapPtr + sizeofStructMem + d.start ∨
      m.heapPtr + sizeofStructMem + d.start + m.payload (m.heapPtr + sizeofStructMem + d.start) ≤
        m.heapPtr + sizeofStructMem + c.start := by
  have h1 := payload_eq hw hc
  have h2 := payload_eq hw hd
  have h3 : c.start + c.size ≤ d.start ∨ d.start + d.size ≤ c.start :=
    hw.tiled.disjoint hc hd fun he => hne (congrArg Cell.start he)
  omega

end SmemInv

/-- **The small memory.** In every state that calls with sizes of at most `2 ^ 32 - RT_ALIGN_SIZE`
reach, the items tile the heap, no two free ones are neighbours, `lfree` is the lowest free one,
`used` counts the used ones, the callers' blocks are theirs alone, aligned and large enough, every
call returns, and freeing all of the blocks leaves one free item. -/
theorem smem_heap {s : SmemState} (hs : smemSystem.Reach smemFits s) : ∃ l, SmemHeap s l := by
  have h : SmemInv s := hs.invariant (fun _ => SmemInit.inv) fun _ _ _ hI hok hst => hI.step hok hst
  obtain ⟨l, hw, hl⟩ := id h
  refine ⟨l, hw.tiled, fun c hc => ⟨hw.next hc, hw.prev hc, hw.isUsed hc⟩, hw.noTwoFree, ⟨?_, ?_⟩, ?_,
    SmemInv.live_iff hl, fun hp => SmemInv.large hw hl hp, fun {p q} hp hq hne => ?_, h.returns,
    fun ps hnd hps => ?_⟩
  · intro c hc hfree
    obtain ⟨l₁, r, rfl⟩ := List.append_of_mem hc
    rw [hw.lfree, lowestFree_append, lowestFree_free hfree]
    exact (Tiled.mid.mp hw.tiled).1.lowestFree_le
  · rw [hw.lfree]
    rcases lowestFree_mem l s.heap.heapEnd with h1 | h1
    · exact .inl h1.1
    · exact .inr h1
  · rw [hw.used, sizes, blocks, List.map_map]
    simp only [beq_true]
    rfl
  · obtain ⟨c, hc, -, rfl⟩ := (SmemInv.live_iff hl p).mp hp
    obtain ⟨d, hd, -, rfl⟩ := (SmemInv.live_iff hl q).mp hq
    exact SmemInv.disjoint hw hc hd fun he => hne (by rw [he])
  · obtain ⟨s', h1, h2, h3⟩ := h.freeAll hnd hps
    exact ⟨s', h1, h2.empty h3⟩

/-- A fresh heap, in the 256 bytes from address 4096 on. -/
def smem256 : SmemState where
  heap := (rtSmemInit 64 (fun _ => { poolPtr := 0, next := 0, prev := 0 }) 4096 256).get (by decide)
  live _ := none

theorem smem256_init : SmemInit smem256 :=
  ⟨⟨64, fun _ => { poolPtr := 0, next := 0, prev := 0 }, 4096, 256, by decide,
    Option.eq_some_of_isSome (by decide)⟩, fun _ => rfl⟩

/-- A block is shrunk where it lies, and the one before it freed. -/
theorem smem_heap_shrunk : ∃ s, smemSystem.Reach smemFits s ∧
    (s.live 4176 = none ∧ s.live 4216 = some 10 ∧ s.heap.lfree = 0 ∧ s.heap.used = 32) ∧
    ∃ l, SmemHeap s l := by
  obtain ⟨s, hs, hp⟩ := System.exists_reach smemSystem smemFits
    (fun s => s.live 4176 = none ∧ s.live 4216 = some 10 ∧ s.heap.lfree = 0 ∧ s.heap.used = 32)
    smem256_init [.alloc 24, .alloc 64, .realloc (some 4216) 10, .free (some 4176)]
    (by decide)
  exact ⟨s, hs, of_decide_eq_true hp, smem_heap hs⟩

/-- `RT_ALIGN` makes zero of `2 ^ 32 - 1`: the block that is returned has 16 bytes. -/
theorem smem_alloc_wraps : ∃ s, smemSystem.Reach System.anyStep s ∧
    (s.live 4176 = some (2 ^ 32 - 1) ∧ s.heap.payload 4176 = 16) ∧ ¬∃ l, SmemHeap s l := by
  obtain ⟨s, hs, hp⟩ := System.exists_reach smemSystem System.anyStep
    (fun s => s.live 4176 = some (2 ^ 32 - 1) ∧ s.heap.payload 4176 = 16)
    smem256_init [.alloc 0xFFFFFFFF] (by decide)
  obtain ⟨h1, h2⟩ := of_decide_eq_true hp
  refine ⟨s, hs, ⟨h1, h2⟩, ?_⟩
  rintro ⟨l, hl⟩
  have hle := (hl.large h1).2.1
  rw [h2] at hle
  exact absurd hle (by decide)

end RtThread
