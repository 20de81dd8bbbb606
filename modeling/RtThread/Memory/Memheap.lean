import RtThread.Kernel.Align
import RtThread.Lib.Circle
import RtThread.Lib.System
import RtThread.Lib.Tiling

/-!
# Memory heaps

A memory heap is a pool of blocks, each an item and its data: `next` and `prev` link them all, up to
the tail and back to the first one, and `next_free` and `prev_free` the free ones, in a circle with
`free_header`. Addresses and sizes are numbers, and arithmetic is in 32 bits; `item` gives the items,
and `byte` the data.

* `Memheap` and the functions `rtMemheapInit`, `rtMemheapAlloc`, `rtMemheapRealloc`, `rtMemheapFree`;
* `Frame`: where a function may write;
* `MhRep`: the blocks of the pool are the cells of a list;
* `MhWell`: the free list has the free blocks, no two of them side by side;
* **`memheap_invariant`**: the memory heap in every run.
-/

namespace RtThread

/-! ## The heap -/

/-- `RT_MEMHEAP_MAGIC`. -/
abbrev memheapMagic : ℕ := 0x1ea01ea0

/-- `RT_MEMHEAP_USED`. -/
abbrev memheapUsed : ℕ := 1

/-- `RT_MEMHEAP_MINIALLOC`. -/
abbrev memheapMiniAlloc : ℕ := 16

/-- `RT_MEMHEAP_SIZE`: six words. -/
abbrev memheapSize : ℕ := 24

example : memheapMiniAlloc = rtAlign 12 ∧ memheapSize = rtAlign 24 := by decide

/-- `struct rt_memheap_item`. `RT_NULL` is 0. -/
structure MemheapItem where
  magic : ℕ
  poolPtr : ℕ
  next : ℕ
  prev : ℕ
  nextFree : ℕ
  prevFree : ℕ
  deriving DecidableEq, Repr

/-- `struct rt_memheap`, at the address `addr`, with its items and the data in the blocks;
`freeList` is the address of `free_header`. -/
structure Memheap where
  addr : ℕ
  startAddr : ℕ
  poolSize : ℕ
  availableSize : ℕ
  maxUsedSize : ℕ
  blockList : ℕ
  freeList : ℕ
  item : ℕ → MemheapItem
  byte : ℕ → Option UInt8

namespace Memheap

variable (m : Memheap)

/-- `RT_MEMHEAP_IS_USED`. -/
def isUsed (i : ℕ) : Bool := (m.item i).magic % 2 == memheapUsed

/-- `MEMITEM_SIZE`. -/
def memitemSize (i : ℕ) : ℕ := sizeSub (sizeSub (m.item i).next i) memheapSize

/-- Write to the item at `i`. Where it lies there are no data. -/
def modify (i : ℕ) (f : MemheapItem → MemheapItem) : Memheap :=
  { m with
    item := Function.update m.item i (f (m.item i))
    byte := fun a => if i ≤ a ∧ a < i + memheapSize then none else m.byte a }

/-- More bytes are available. -/
def addAvailable (n : ℕ) : Memheap := { m with availableSize := (m.availableSize + n) % 2 ^ 32 }

/-- Fewer bytes are available. -/
def subAvailable (n : ℕ) : Memheap := { m with availableSize := sizeSub m.availableSize n }

/-- `max_used_size` is updated. -/
def updateMax : Memheap :=
  if sizeSub m.poolSize m.availableSize > m.maxUsedSize then
    { m with maxUsedSize := sizeSub m.poolSize m.availableSize }
  else m

/-- A free item is created at `y`, inside of the block `x`. -/
def splitBlock (x y : ℕ) : Memheap :=
  let m := m.modify y fun i => { i with magic := memheapMagic }
  let m := m.modify y fun i => { i with poolPtr := m.addr }
  let m := m.modify y fun i => { i with prev := x }
  let m := m.modify y fun i => { i with next := (m.item x).next }
  let m := m.modify (m.item x).next fun i => { i with prev := y }
  m.modify x fun i => { i with next := y }

/-- Merge `x` with the item `y` behind it. -/
def mergeNext (x y : ℕ) : Memheap :=
  let m := m.modify (m.item y).next fun i => { i with prev := x }
  m.modify x fun i => { i with next := (m.item y).next }

/-- Merge `y` with the item before it. -/
def mergePrev (y : ℕ) : Memheap :=
  let m := m.modify (m.item y).prev fun i => { i with next := (m.item y).next }
  m.modify (m.item y).next fun i => { i with prev := (m.item y).prev }

/-- Take an item off the free list. -/
def removeFree (x : ℕ) : Memheap :=
  let m := m.modify (m.item x).nextFree fun i => { i with prevFree := (m.item x).prevFree }
  m.modify (m.item x).prevFree fun i => { i with nextFree := (m.item x).nextFree }

/-- The item is on no free list. -/
def clearFree (x : ℕ) : Memheap :=
  let m := m.modify x fun i => { i with nextFree := 0 }
  m.modify x fun i => { i with prevFree := 0 }

/-- Insert `x` at the head of the free list. -/
def insertFront (x : ℕ) : Memheap :=
  let m := m.modify x fun i => { i with nextFree := (m.item m.freeList).nextFree }
  let m := m.modify x fun i => { i with prevFree := m.freeList }
  let m := m.modify (m.item m.freeList).nextFree fun i => { i with prevFree := x }
  m.modify m.freeList fun i => { i with nextFree := x }

/-- Insert `x` before `n` in the free list. -/
def insertBefore (x n : ℕ) : Memheap :=
  let m := m.modify x fun i => { i with nextFree := n }
  let m := m.modify x fun i => { i with prevFree := (m.item n).prevFree }
  let m := m.modify (m.item n).prevFree fun i => { i with nextFree := x }
  m.modify n fun i => { i with prevFree := x }

/-- `_remove_next_ptr`. -/
def removeNextPtr (y : ℕ) : Memheap :=
  let m := m.removeFree y
  let m := m.modify (m.item y).next fun i => { i with prev := (m.item y).prev }
  m.modify (m.item y).prev fun i => { i with next := (m.item y).next }

/-- `rt_memcpy(dst, src, n)`, in data that do not overlap. -/
def memcpy (dst src n : ℕ) : Memheap :=
  { m with byte := fun a => if dst ≤ a ∧ a < dst + n then m.byte (src + (a - dst)) else m.byte a }

end Memheap

/-- `rt_memheap_init`, for an object at `addr` with its `free_header` at `freeHeader`. -/
def rtMemheapInit (addr freeHeader : ℕ) (item : ℕ → MemheapItem) (byte : ℕ → Option UInt8)
    (startAddr size : ℕ) : Memheap :=
  let poolSize := rtAlignDown size
  let availableSize := poolSize - 2 * memheapSize
  let m : Memheap :=
    { addr := addr, startAddr := startAddr, poolSize := poolSize, availableSize := availableSize
      maxUsedSize := poolSize - availableSize, blockList := startAddr, freeList := freeHeader
      item := item, byte := byte }
  let m := m.modify freeHeader fun _ =>
    { magic := memheapMagic, poolPtr := addr, next := 0, prev := 0
      nextFree := freeHeader, prevFree := freeHeader }
  let tail := startAddr + availableSize + memheapSize
  let m := m.modify startAddr fun _ =>
    { magic := memheapMagic, poolPtr := addr, next := tail, prev := tail
      nextFree := startAddr, prevFree := startAddr }
  let m := m.insertFront startAddr
  m.modify tail fun _ =>
    { magic := memheapMagic + memheapUsed, poolPtr := addr, next := startAddr, prev := startAddr
      nextFree := 0, prevFree := 0 }

/-! ## Allocation -/

/-- The loop of `rt_memheap_alloc`, with `header_ptr` and `free_size`. There is no result when `fuel`
was not enough. -/
def memheapSearch (m : Memheap) (size : ℕ) : ℕ → ℕ → ℕ → Option (ℕ × ℕ)
  | 0, _, _ => none
  | fuel + 1, headerPtr, freeSize =>
    if headerPtr ≠ m.freeList ∧ freeSize < size then
      let freeSize := m.memitemSize headerPtr
      if freeSize < size then memheapSearch m size fuel (m.item headerPtr).nextFree freeSize
      else memheapSearch m size fuel headerPtr freeSize
    else some (headerPtr, freeSize)

/-- `rt_memheap_alloc` takes the free block `x`. -/
def memheapTake (m : Memheap) (x freeSize size : ℕ) : Memheap :=
  let m :=
    if freeSize ≥ (size + memheapSize + memheapMiniAlloc) % 2 ^ 32 then
      let y := (x + size + memheapSize) % 2 ^ 32
      let m := ((m.splitBlock x y).removeFree x).clearFree x
      ((m.insertFront y).subAvailable (size + memheapSize)).updateMax
    else (((m.subAvailable freeSize).updateMax).removeFree x).clearFree x
  m.modify x fun i => { i with magic := memheapMagic + memheapUsed }

/-- `rt_memheap_alloc`. -/
def rtMemheapAlloc (m : Memheap) (size : ℕ) : Option (Option ℕ × Memheap) :=
  let size := rtAlign size
  let size := if size < memheapMiniAlloc then memheapMiniAlloc else size
  if size < m.availableSize then
    (memheapSearch m size (m.poolSize + 2) (m.item m.freeList).nextFree 0).map fun r =>
      if r.2 ≥ size then (some (r.1 + memheapSize), memheapTake m r.1 r.2 size) else (none, m)
  else some (none, m)

/-- The loop of `rt_memheap_free` with `RT_MEMHEAP_BEST_MODE`: the first free block that is not
smaller, or the end of the free list. -/
def memheapPlace (m : Memheap) (blkSize : ℕ) : ℕ → ℕ → Option ℕ
  | 0, _ => none
  | fuel + 1, n =>
    if n ≠ m.freeList then
      if blkSize ≤ m.memitemSize n then some n else memheapPlace m blkSize fuel (m.item n).nextFree
    else some n

/-- The last part of `rt_memheap_free`: the free block is inserted into the free list. -/
def memheapInsert (best : Bool) (m : Memheap) (x : ℕ) : Option Memheap :=
  let n := (m.item m.freeList).nextFree
  (if best then memheapPlace m (m.memitemSize x) (m.poolSize + 2) n else some n).map fun n =>
    m.insertBefore x n

/-- `rt_memheap_free`; `best` says whether `RT_MEMHEAP_BEST_MODE` is defined. There is no result when
an assertion fails. -/
def rtMemheapFree (best : Bool) (m : Memheap) : Option ℕ → Option Memheap
  | none => some m
  | some ptr =>
    let x := ptr - memheapSize
    let asserts := (m.item x).magic = memheapMagic + memheapUsed ∧
      (m.item (m.item x).next).magic / 2 * 2 = memheapMagic ∧ (m.item x).poolPtr = m.addr
    if asserts then
      let m := m.modify x fun i => { i with magic := memheapMagic }
      let m := m.addAvailable (m.memitemSize x)
      let left := m.isUsed (m.item x).prev = false
      let y := if left then (m.item x).prev else x
      let m := if left then (m.addAvailable memheapSize).mergePrev x else m
      let m :=
        if m.isUsed (m.item y).next = false then
          let new := (m.item y).next
          ((m.addAvailable memheapSize).mergeNext y new).removeFree new
        else m
      if left then some m else memheapInsert best m y
    else none

/-- `rt_memheap_realloc` grows the block `x` into the free block behind it. -/
def memheapGrow (m : Memheap) (ptr x newsize oldsize : ℕ) : Memheap :=
  let next := (m.item x).next
  let m := ((m.subAvailable (sizeSub newsize oldsize)).updateMax).removeNextPtr next
  let new := (ptr + newsize) % 2 ^ 32
  (m.splitBlock x new).insertFront new

/-- `rt_memheap_realloc` shrinks the block `x`. -/
def memheapShrink (m : Memheap) (x newsize : ℕ) : Memheap :=
  let new := (x + newsize + memheapSize) % 2 ^ 32
  let m := m.splitBlock x new
  let next := (m.item new).next
  let m :=
    if m.isUsed next = false then
      ((m.subAvailable (m.memitemSize next)).mergeNext new next).removeFree next
    else m
  let m := m.insertFront new
  m.addAvailable (m.memitemSize new)

/-- `rt_memheap_realloc`. There is no result when an assertion fails. -/
def rtMemheapRealloc (best : Bool) (m : Memheap) (ptr : Option ℕ) (newsize : ℕ) :
    Option (Option ℕ × Memheap) :=
  if newsize = 0 then (rtMemheapFree best m ptr).map fun m => (none, m)
  else
    let newsize := rtAlign newsize
    let newsize := if newsize < memheapMiniAlloc then memheapMiniAlloc else newsize
    match ptr with
    | none => rtMemheapAlloc m newsize
    | some p =>
      let x := p - memheapSize
      let oldsize := m.memitemSize x
      if newsize > oldsize then
        let next := (m.item x).next
        if next > x then
          if m.isUsed next = false ∧
              (m.memitemSize next + oldsize) % 2 ^ 32 > (newsize + memheapMiniAlloc) % 2 ^ 32 then
            some (some p, memheapGrow m p x newsize oldsize)
          else
            (rtMemheapAlloc m newsize).bind fun r =>
              match r.1 with
              | none => some (none, r.2)
              | some q =>
                let n := if oldsize < newsize then oldsize else newsize
                (rtMemheapFree best (r.2.memcpy q p n) (some p)).map fun m => (some q, m)
        else none
      else if (newsize + memheapSize + memheapMiniAlloc) % 2 ^ 32 ≥ oldsize then some (some p, m)
      else some (some p, memheapShrink m x newsize)

/-! ## What the functions write -/

namespace Memheap

variable {m m₁ m₂ : Memheap} {x y n : ℕ}

@[simp] theorem modify_item (m : Memheap) (i a : ℕ) (f : MemheapItem → MemheapItem) :
    (m.modify i f).item a = if a = i then f (m.item a) else m.item a := by
  by_cases h : a = i
  · subst h
    rw [if_pos rfl]
    exact Function.update_self ..
  · rw [if_neg h]
    exact Function.update_of_ne h _ _

@[simp] theorem modify_freeList (m : Memheap) (i : ℕ) (f : MemheapItem → MemheapItem) :
    (m.modify i f).freeList = m.freeList := rfl

theorem splitBlock_item (hne : y ≠ x) (a : ℕ) : (m.splitBlock x y).item a =
    { m.item a with
      magic := if a = y then memheapMagic else (m.item a).magic
      poolPtr := if a = y then m.addr else (m.item a).poolPtr
      next := if a = x then y else if a = y then (m.item x).next else (m.item a).next
      prev := if a = (m.item x).next then y else if a = y then x else (m.item a).prev } := by
  have haddr : ∀ f, (m.modify y f).addr = m.addr := fun _ => rfl
  unfold splitBlock
  simp only [modify_item, if_neg hne.symm, haddr]
  split_ifs <;> simp_all

theorem mergeNext_item (a : ℕ) : (m.mergeNext x y).item a =
    { m.item a with
      next := if a = x then (m.item y).next else (m.item a).next
      prev := if a = (m.item y).next then x else (m.item a).prev } := by
  unfold mergeNext
  simp only [modify_item]
  split_ifs <;> rfl

theorem mergePrev_item (a : ℕ) : (m.mergePrev y).item a =
    { m.item a with
      next := if a = (m.item y).prev then (m.item y).next else (m.item a).next
      prev := if a = (m.item y).next then (m.item y).prev else (m.item a).prev } := by
  obtain ⟨m₁, hm₁⟩ : ∃ m₁, m₁ = m.modify (m.item y).prev fun i =>
    { i with next := (m.item y).next } := ⟨_, rfl⟩
  have hnext : (m₁.item y).next = (m.item y).next := by
    rw [hm₁, modify_item]
    split_ifs <;> rfl
  have hprev : (m₁.item y).prev = (m.item y).prev := by
    rw [hm₁, modify_item]
    split_ifs <;> rfl
  unfold mergePrev
  dsimp only
  rw [← hm₁, hnext, hprev, modify_item, hm₁, modify_item]
  split_ifs <;> rfl

theorem removeFree_item (a : ℕ) : (m.removeFree x).item a =
    { m.item a with
      nextFree := if a = (m.item x).prevFree then (m.item x).nextFree else (m.item a).nextFree
      prevFree := if a = (m.item x).nextFree then (m.item x).prevFree else (m.item a).prevFree } := by
  obtain ⟨m₁, hm₁⟩ : ∃ m₁, m₁ = m.modify (m.item x).nextFree fun i =>
    { i with prevFree := (m.item x).prevFree } := ⟨_, rfl⟩
  have hprev : (m₁.item x).prevFree = (m.item x).prevFree := by
    rw [hm₁, modify_item]
    split_ifs <;> rfl
  have hnext : (m₁.item x).nextFree = (m.item x).nextFree := by
    rw [hm₁, modify_item]
    split_ifs <;> rfl
  unfold removeFree
  dsimp only
  rw [← hm₁, hnext, hprev, modify_item, hm₁, modify_item]
  split_ifs <;> rfl

theorem clearFree_item (a : ℕ) : (m.clearFree x).item a =
    { m.item a with
      nextFree := if a = x then 0 else (m.item a).nextFree
      prevFree := if a = x then 0 else (m.item a).prevFree } := by
  unfold clearFree
  simp only [modify_item]
  split_ifs <;> rfl

theorem insertBefore_item (hne : x ≠ n) (a : ℕ) : (m.insertBefore x n).item a =
    { m.item a with
      nextFree := if a = (m.item n).prevFree then x else if a = x then n else (m.item a).nextFree
      prevFree := if a = n then x else if a = x then (m.item n).prevFree
        else (m.item a).prevFree } := by
  have hn : ∀ (m : Memheap) f, (m.modify x f).item n = m.item n := fun m f => by
    rw [modify_item, if_neg hne.symm]
  unfold insertBefore
  simp only [hn, modify_item]
  split_ifs <;> rfl

theorem insertFront_item (hne : x ≠ m.freeList) (a : ℕ) : (m.insertFront x).item a =
    { m.item a with
      nextFree := if a = m.freeList then x else if a = x then (m.item m.freeList).nextFree
        else (m.item a).nextFree
      prevFree := if a = (m.item m.freeList).nextFree then x else if a = x then m.freeList
        else (m.item a).prevFree } := by
  have hs : ∀ (m' : Memheap) f, m'.freeList = m.freeList →
      (m'.modify x f).item m.freeList = m'.item m.freeList := fun m' f h => by
    rw [modify_item, if_neg hne.symm]
  unfold insertFront
  simp only [modify_freeList, hs, modify_item]
  split_ifs <;> rfl

section

variable (m) (x y n : ℕ)

@[simp] theorem modify_availableSize (f : MemheapItem → MemheapItem) :
    (m.modify x f).availableSize = m.availableSize := rfl

@[simp] theorem addAvailable_availableSize :
    (m.addAvailable n).availableSize = (m.availableSize + n) % 2 ^ 32 := rfl

@[simp] theorem subAvailable_availableSize :
    (m.subAvailable n).availableSize = sizeSub m.availableSize n := rfl

@[simp] theorem updateMax_availableSize : m.updateMax.availableSize = m.availableSize := by
  unfold updateMax
  split_ifs <;> rfl

@[simp] theorem splitBlock_availableSize :
    (m.splitBlock x y).availableSize = m.availableSize := by
  unfold splitBlock
  simp only [modify_availableSize]

@[simp] theorem mergeNext_availableSize : (m.mergeNext x y).availableSize = m.availableSize := by
  unfold mergeNext
  simp only [modify_availableSize]

@[simp] theorem mergePrev_availableSize : (m.mergePrev y).availableSize = m.availableSize := by
  unfold mergePrev
  simp only [modify_availableSize]

@[simp] theorem removeFree_availableSize : (m.removeFree x).availableSize = m.availableSize := by
  unfold removeFree
  simp only [modify_availableSize]

@[simp] theorem clearFree_availableSize : (m.clearFree x).availableSize = m.availableSize := by
  unfold clearFree
  simp only [modify_availableSize]

@[simp] theorem insertFront_availableSize : (m.insertFront x).availableSize = m.availableSize := by
  unfold insertFront
  simp only [modify_availableSize]

@[simp] theorem insertBefore_availableSize :
    (m.insertBefore x n).availableSize = m.availableSize := by
  unfold insertBefore
  simp only [modify_availableSize]

end

/-- `_remove_next_ptr` takes the item off the free list and merges it with the one before. -/
theorem removeNextPtr_eq (y : ℕ) :
    m.removeNextPtr y = (m.removeFree y).mergeNext (m.item y).prev y := by
  obtain ⟨m₁, hm₁⟩ : ∃ m₁, m₁ = m.removeFree y := ⟨_, rfl⟩
  have hprev : (m.item y).prev = (m₁.item y).prev := by rw [hm₁, removeFree_item]
  have hsame : ((m₁.modify (m₁.item y).next fun i => { i with prev := (m₁.item y).prev }).item y).prev =
      (m₁.item y).prev := by
    rw [modify_item]
    split_ifs <;> rfl
  unfold removeNextPtr mergeNext
  dsimp only
  rw [hprev, ← hm₁, hsame]

/-! ## What stays as it is -/

/-- At most the items `xs` are written, and data where they lie; these parts of the heap do not
change. -/
structure Frame (xs : List ℕ) (m m' : Memheap) : Prop where
  addr : m'.addr = m.addr
  startAddr : m'.startAddr = m.startAddr
  poolSize : m'.poolSize = m.poolSize
  freeList : m'.freeList = m.freeList
  item : ∀ a ∉ xs, m'.item a = m.item a
  byte : ∀ a, (∀ x ∈ xs, ¬(x ≤ a ∧ a < x + memheapSize)) → m'.byte a = m.byte a

variable {xs ys : List ℕ}

namespace Frame

theorem refl (xs : List ℕ) (m : Memheap) : Frame xs m m :=
  ⟨rfl, rfl, rfl, rfl, fun _ _ => rfl, fun _ _ => rfl⟩

theorem mono (h : Frame xs m m₁) (hs : ∀ x ∈ xs, x ∈ ys) : Frame ys m m₁ :=
  { h with
    item := fun a ha => h.item a fun hx => ha (hs a hx)
    byte := fun a ha => h.byte a fun x hx => ha x (hs x hx) }

theorem trans (h : Frame xs m m₁) (h' : Frame xs m₁ m₂) : Frame xs m m₂ where
  addr := h'.addr.trans h.addr
  startAddr := h'.startAddr.trans h.startAddr
  poolSize := h'.poolSize.trans h.poolSize
  freeList := h'.freeList.trans h.freeList
  item a ha := (h'.item a ha).trans (h.item a ha)
  byte a ha := (h'.byte a ha).trans (h.byte a ha)

/-- A write to an item. -/
theorem modify (h : Frame xs m m₁) {i : ℕ} (hi : i ∈ xs) (f : MemheapItem → MemheapItem) :
    Frame xs m (m₁.modify i f) where
  addr := h.addr
  startAddr := h.startAddr
  poolSize := h.poolSize
  freeList := h.freeList
  item a ha := by
    refine Eq.trans ?_ (h.item a ha)
    have hne : a ≠ i := fun he => ha (by rwa [he])
    exact Function.update_of_ne hne _ _
  byte a ha := by
    refine Eq.trans ?_ (h.byte a ha)
    exact if_neg (ha i hi)

theorem addAvailable (h : Frame xs m m₁) (n : ℕ) : Frame xs m (m₁.addAvailable n) := { h with }

theorem subAvailable (h : Frame xs m m₁) (n : ℕ) : Frame xs m (m₁.subAvailable n) := { h with }

theorem updateMax (h : Frame xs m m₁) : Frame xs m m₁.updateMax := by
  unfold Memheap.updateMax
  split_ifs
  · exact { h with }
  · exact h

theorem splitBlock (h : Frame xs m m₁) (hne : y ≠ x) (hx : x ∈ xs) (hy : y ∈ xs)
    (hn : (m₁.item x).next ∈ xs) : Frame xs m (m₁.splitBlock x y) := by
  have hread : ∀ (m : Memheap) f, (m.modify y f).item x = m.item x := fun m f => by
    rw [modify_item, if_neg hne.symm]
  unfold Memheap.splitBlock
  simp only [hread]
  refine Frame.modify (Frame.modify (Frame.modify (Frame.modify (Frame.modify (Frame.modify h
    hy _) hy _) hy _) hy _) ?_ _) hx _
  exact hn

theorem mergeNext (h : Frame xs m m₁) (hx : x ∈ xs) (hn : (m₁.item y).next ∈ xs) :
    Frame xs m (m₁.mergeNext x y) := by
  unfold Memheap.mergeNext
  exact (h.modify hn _).modify hx _

theorem mergePrev (h : Frame xs m m₁) (hp : (m₁.item y).prev ∈ xs) (hn : (m₁.item y).next ∈ xs) :
    Frame xs m (m₁.mergePrev y) := by
  unfold Memheap.mergePrev
  refine Frame.modify (Frame.modify h hp _) ?_ _
  rw [modify_item]
  split_ifs <;> exact hn

theorem removeFree (h : Frame xs m m₁) (hp : (m₁.item x).prevFree ∈ xs)
    (hn : (m₁.item x).nextFree ∈ xs) : Frame xs m (m₁.removeFree x) := by
  unfold Memheap.removeFree
  refine Frame.modify (Frame.modify h hn _) ?_ _
  rw [modify_item]
  split_ifs <;> exact hp

theorem clearFree (h : Frame xs m m₁) (hx : x ∈ xs) : Frame xs m (m₁.clearFree x) := by
  unfold Memheap.clearFree
  exact (h.modify hx _).modify hx _

theorem insertFront (h : Frame xs m m₁) (hne : x ≠ m₁.freeList) (hx : x ∈ xs)
    (hs : m₁.freeList ∈ xs) (hn : (m₁.item m₁.freeList).nextFree ∈ xs) :
    Frame xs m (m₁.insertFront x) := by
  unfold Memheap.insertFront
  refine Frame.modify (Frame.modify (Frame.modify (Frame.modify h hx _) hx _) ?_ _) hs _
  simp only [modify_freeList]
  rw [modify_item, if_neg hne.symm, modify_item, if_neg hne.symm]
  exact hn

theorem insertBefore (h : Frame xs m m₁) (hne : x ≠ n) (hx : x ∈ xs) (hn : n ∈ xs)
    (hp : (m₁.item n).prevFree ∈ xs) : Frame xs m (m₁.insertBefore x n) := by
  unfold Memheap.insertBefore
  refine Frame.modify (Frame.modify (Frame.modify (Frame.modify h hx _) hx _) ?_ _) hn _
  rw [modify_item, if_neg hne.symm, modify_item, if_neg hne.symm]
  exact hp

end Frame

/-- The circle of the free list. -/
def FreeCircle (m : Memheap) (F : List ℕ) : Prop :=
  Circle (fun x => (m.item x).nextFree) (fun x => (m.item x).prevFree) m.freeList F

namespace FreeCircle

variable {F G : List ℕ}

theorem congr (h : m.FreeCircle F) (hs : m₁.freeList = m.freeList)
    (hn : ∀ a, (m₁.item a).nextFree = (m.item a).nextFree)
    (hp : ∀ a, (m₁.item a).prevFree = (m.item a).prevFree) : m₁.FreeCircle F := by
  unfold FreeCircle
  rw [hs]
  exact Circle.congr h (fun y _ => hn y) fun y _ => hp y

theorem removeFree (h : m.FreeCircle (F ++ x :: G)) : (m.removeFree x).FreeCircle (F ++ G) := by
  refine Circle.remove h (fun y _ => ?_) fun y _ => ?_
  · rw [removeFree_item]
  · rw [removeFree_item]

theorem clearFree (h : m.FreeCircle F) (hx : x ∉ m.freeList :: F) : (m.clearFree x).FreeCircle F := by
  refine Circle.congr h (fun y hy => ?_) fun y hy => ?_
  · have hne : y ≠ x := fun he => hx (he ▸ hy)
    rw [clearFree_item, if_neg hne]
  · have hne : y ≠ x := fun he => hx (he ▸ hy)
    rw [clearFree_item, if_neg hne, if_neg hne]

theorem insertBefore (h : m.FreeCircle F) (hn : n ∈ m.freeList :: F) (hx : x ∉ m.freeList :: F) :
    ∃ F', F'.Perm (x :: F) ∧ (m.insertBefore x n).FreeCircle F' := by
  have hne : x ≠ n := fun he => hx (he ▸ hn)
  refine Circle.insertBefore h hn hx (fun y => ?_) fun y => ?_
  · rw [insertBefore_item hne]
  · rw [insertBefore_item hne]

theorem insertFront (h : m.FreeCircle F) (hx : x ∉ m.freeList :: F) :
    ∃ F', F'.Perm (x :: F) ∧ (m.insertFront x).FreeCircle F' := by
  have hne : x ≠ m.freeList := fun he => hx (he ▸ List.mem_cons_self)
  have hprev : (m.item (m.item m.freeList).nextFree).prevFree = m.freeList := Circle.prev_next h
  refine Circle.insertBefore h (Between.next_mem h.between) hx (fun y => ?_) fun y => ?_
  · rw [insertFront_item hne, hprev]
  · rw [insertFront_item hne, hprev]

end FreeCircle

attribute [irreducible] splitBlock mergeNext mergePrev removeFree clearFree insertFront insertBefore

/-- The tail marker. -/
def tail (m : Memheap) : ℕ := m.startAddr + m.poolSize - memheapSize

/-- What is written into the item of a used or of a free block. -/
def Marked (m : Memheap) (x : ℕ) (u : Bool) : Prop :=
  (m.item x).magic = memheapMagic + u.toNat ∧ (m.item x).poolPtr = m.addr

theorem Marked.isUsed {u : Bool} (h : m.Marked x u) : m.isUsed x = u := by
  rw [Memheap.isUsed, h.1]
  cases u <;> rfl

/-- Only the pool is written, and the item `free_header`. -/
structure PoolOnly (m m' : Memheap) : Prop where
  startAddr : m'.startAddr = m.startAddr
  poolSize : m'.poolSize = m.poolSize
  freeList : m'.freeList = m.freeList
  item : ∀ a, a ≠ m.freeList → ¬(m.startAddr ≤ a ∧ a ≤ m.tail) → m'.item a = m.item a
  byte : ∀ a, ¬(m.freeList ≤ a ∧ a < m.freeList + memheapSize) →
    ¬(m.startAddr ≤ a ∧ a < m.startAddr + m.poolSize) → m'.byte a = m.byte a

theorem Frame.tail (h : Frame xs m m₁) : m₁.tail = m.tail := by
  rw [Memheap.tail, Memheap.tail, h.startAddr, h.poolSize]

theorem PoolOnly.refl (m : Memheap) : PoolOnly m m := ⟨rfl, rfl, rfl, fun _ _ _ => rfl, fun _ _ _ => rfl⟩

theorem PoolOnly.trans (h : PoolOnly m m₁) (h' : PoolOnly m₁ m₂) : PoolOnly m m₂ where
  startAddr := h'.startAddr.trans h.startAddr
  poolSize := h'.poolSize.trans h.poolSize
  freeList := h'.freeList.trans h.freeList
  item a ha hp := by
    refine (h'.item a (h.freeList ▸ ha) ?_).trans (h.item a ha hp)
    rwa [Memheap.tail, h.startAddr, h.poolSize]
  byte a ha hp := by
    refine (h'.byte a (h.freeList ▸ ha) ?_).trans (h.byte a ha hp)
    rwa [h.startAddr, h.poolSize]

/-- A frame inside of the pool. -/
theorem Frame.poolOnly (h : Frame xs m m₁) (hroom : memheapSize ≤ m.poolSize)
    (hx : ∀ x ∈ xs, x = m.freeList ∨ m.startAddr ≤ x ∧ x ≤ m.tail) : PoolOnly m m₁ where
  startAddr := h.startAddr
  poolSize := h.poolSize
  freeList := h.freeList
  item a ha hp := h.item a fun hmem => (hx a hmem).elim ha hp
  byte a ha hp := h.byte a fun x hmem hin => by
    rcases hx x hmem with rfl | hpool
    · exact ha hin
    · unfold Memheap.tail at hpool
      omega

end Memheap

/-- The blocks of the pool are the cells of `l`. -/
structure MhRep (m : Memheap) (l : List Cell) : Prop where
  tiled : Tiled memheapSize m.tail m.startAddr l m.tail
  links : CellLinks (fun x => (m.item x).next) (fun x => (m.item x).prev) m.tail l m.tail
  mark : ∀ c ∈ l, m.Marked c.start c.used
  tailMark : m.Marked m.tail true
  tailNext : (m.item m.tail).next = m.startAddr
  aligned : ∀ c ∈ l, c.size % rtAlignSize = 0
  room : memheapSize ≤ m.poolSize
  space : m.startAddr + m.poolSize ≤ 2 ^ 32
  outside : m.freeList + memheapSize ≤ m.startAddr ∨ m.startAddr + m.poolSize ≤ m.freeList

namespace MhRep

open Memheap

variable {m m' : Memheap} {l r : List Cell} {c d : Cell} {n : ℕ} {xs : List ℕ}

theorem next (h : MhRep m (l ++ c :: r)) : (m.item c.start).next = c.stop :=
  (CellLinks.mid.mp h.links).2.1

theorem prev (h : MhRep m (l ++ c :: r)) : (m.item c.start).prev = lastStart m.tail l :=
  (CellLinks.mid.mp h.links).1.last

/-- Behind a block there is room for an item. -/
theorem stop_le (h : MhRep m l) (hc : c ∈ l) : c.start + c.size + memheapSize ≤ 2 ^ 32 := by
  have hstop := (h.tiled.bounds hc).2.1
  have hroom := h.room
  have hspace := h.space
  unfold Cell.stop Memheap.tail at hstop
  omega

theorem memitemSize (h : MhRep m (l ++ c :: r)) : m.memitemSize c.start = c.size - memheapSize := by
  have hc : c ∈ l ++ c :: r := List.mem_append_right _ List.mem_cons_self
  have h24 : memheapSize = 24 := rfl
  have hle := h.stop_le hc
  have hc24 := (h.tiled.bounds hc).2.2
  rw [Memheap.memitemSize, h.next, Cell.stop, sizeSub_of_le (Nat.le_add_right _ _) (by omega),
    Nat.add_sub_cancel_left, sizeSub_of_le hc24 (by omega)]

theorem isUsed (h : MhRep m l) (hc : c ∈ l) : m.isUsed c.start = c.used := (h.mark c hc).isUsed

theorem tail_isUsed (h : MhRep m l) : m.isUsed m.tail = true := h.tailMark.isUsed

theorem start_lt (h : MhRep m l) (hc : c ∈ l) : c.start + memheapSize ≤ m.tail := by
  obtain ⟨-, h2, h3⟩ := h.tiled.bounds hc
  unfold Cell.stop at h2
  omega

/-- Other fields of the items are written. -/
theorem congr (h : MhRep m l) (hf : Frame xs m m')
    (hi : ∀ a, (m'.item a).magic = (m.item a).magic ∧ (m'.item a).poolPtr = (m.item a).poolPtr ∧
      (m'.item a).next = (m.item a).next ∧ (m'.item a).prev = (m.item a).prev) : MhRep m' l := by
  have hmark : ∀ {x u}, m.Marked x u → m'.Marked x u := fun hx =>
    ⟨(hi _).1.trans hx.1, ((hi _).2.1.trans hx.2).trans hf.addr.symm⟩
  have htail := hf.tail
  refine ⟨?_, ?_, fun c hc => hmark (h.mark c hc), htail ▸ hmark h.tailMark, ?_, h.aligned, ?_, ?_, ?_⟩
  · rw [htail, hf.startAddr]
    exact h.tiled
  · rw [htail]
    exact h.links.congr (fun c _ => (hi _).2.2.1) (fun c _ => (hi _).2.2.2) (hi _).2.2.2
  · rw [htail, (hi _).2.2.1, h.tailNext, hf.startAddr]
  · rw [hf.poolSize]
    exact h.room
  · rw [hf.startAddr, hf.poolSize]
    exact h.space
  · rw [hf.freeList, hf.startAddr, hf.poolSize]
    exact h.outside

/-- **A block is marked used or free.** -/
theorem markBlock (h : MhRep m (l ++ c :: r)) (u : Bool) :
    MhRep (m.modify c.start fun i => { i with magic := memheapMagic + u.toNat })
      (l ++ { c with used := u } :: r) := by
  obtain ⟨m', hm'⟩ : ∃ m', m' = m.modify c.start fun i =>
    { i with magic := memheapMagic + u.toNat } := ⟨_, rfl⟩
  have hc : c ∈ l ++ c :: r := List.mem_append_right _ List.mem_cons_self
  have hitem : ∀ a, m'.item a = { m.item a with
      magic := if a = c.start then memheapMagic + u.toNat else (m.item a).magic } := fun a => by
    rw [hm', modify_item]
    split_ifs <;> rfl
  have hold : ∀ {x v}, x ≠ c.start → m.Marked x v → m'.Marked x v := fun hx hv => by
    refine ⟨?_, ?_⟩
    · rw [hitem, if_neg hx]
      exact hv.1
    · rw [hitem, hm']
      exact hv.2
  have hne : ∀ d ∈ l ++ r, d.start ≠ c.start := fun d => h.tiled.start_ne (by decide)
  have hlt : c.start + 24 ≤ m.tail := h.start_lt hc
  have htail : m'.tail = m.tail := hm' ▸ rfl
  rw [← hm']
  refine ⟨hm' ▸ h.tiled.mark u, ?_, mem_cases (fun d hd => ?_) ⟨?_, ?_⟩ (fun d hd => ?_), ?_, ?_,
    mem_cases (fun d hd => ?_) (h.aligned c hc) fun d hd => ?_, hm' ▸ h.room, hm' ▸ h.space,
    hm' ▸ h.outside⟩
  · rw [htail]
    refine (h.links.mark u).congr (fun d _ => ?_) (fun d _ => ?_) ?_
    all_goals rw [hitem]
  · exact hold (hne d (List.mem_append_left _ hd)) (h.mark d (List.mem_append_left _ hd))
  · rw [hitem, if_pos rfl]
  · rw [hitem, hm']
    exact (h.mark c hc).2
  · refine hold (hne d (List.mem_append_right _ hd)) (h.mark d ?_)
    exact List.mem_append_right _ (List.mem_cons_of_mem _ hd)
  · rw [htail]
    exact hold (by omega) h.tailMark
  · rw [htail, hitem, h.tailNext, hm']
    rfl
  · exact h.aligned d (List.mem_append_left _ hd)
  · exact h.aligned d (List.mem_append_right _ (List.mem_cons_of_mem _ hd))

/-- **A block is split.** -/
theorem split (h : MhRep m (l ++ c :: r)) (hn : memheapSize ≤ n) (hnc : n + memheapSize ≤ c.size)
    (hal : n % rtAlignSize = 0) :
    MhRep (m.splitBlock c.start (c.start + n)) (l ++ { c with size := n, used := c.used } ::
      { start := c.start + n, size := c.size - n, prev := c.start, used := false } ::
        setPrev (c.start + n) r) := by
  obtain ⟨m', hm'⟩ : ∃ m', m' = m.splitBlock c.start (c.start + n) := ⟨_, rfl⟩
  have hc : c ∈ l ++ c :: r := List.mem_append_right _ List.mem_cons_self
  have h24 : 24 ≤ n := hn
  have h24c : n + 24 ≤ c.size := hnc
  have hnext := h.next
  have hne : c.start + n ≠ c.start := by omega
  have hf : Frame [c.start, c.start + n, c.stop] m m' :=
    hm' ▸ (Frame.refl _ m).splitBlock hne (by simp) (by simp) (by simp [hnext])
  have hitem : ∀ a, m'.item a = { m.item a with
      magic := if a = c.start + n then memheapMagic else (m.item a).magic
      poolPtr := if a = c.start + n then m.addr else (m.item a).poolPtr
      next := if a = c.start then c.start + n else if a = c.start + n then c.stop
        else (m.item a).next
      prev := if a = c.stop then c.start + n else if a = c.start + n then c.start
        else (m.item a).prev } := fun a => by
    rw [hm', splitBlock_item hne, hnext]
  have htiled := h.tiled.split hn hnc c.used false
  -- everything but the new item keeps its mark
  have hold : ∀ {x v}, x ≠ c.start + n → m.Marked x v → m'.Marked x v := fun hx hv => by
    refine ⟨?_, ?_⟩
    · rw [hitem, if_neg hx]
      exact hv.1
    · rw [hitem, if_neg hx, if_neg hx, hf.addr]
      exact hv.2
  have hnew : ∀ d ∈ l ++ [{ c with size := n, used := c.used }] ++ setPrev (c.start + n) r,
      d.start ≠ c.start + n := fun d => by
    rw [List.append_cons] at htiled
    exact htiled.start_ne (by decide)
  have htail : c.start + 24 ≤ m.tail := h.start_lt hc
  have hstop := (h.tiled.bounds hc).2.1
  unfold Cell.stop at hstop
  rw [← hm']
  refine ⟨?_, ?_, mem_cases (fun d hd => ?_) ?_ (mem_cases (l := []) (by simp) ?_ fun d hd => ?_), ?_,
    ?_, mem_cases (fun d hd => ?_) hal (mem_cases (l := []) (by simp) ?_ ?_), ?_, ?_, ?_⟩
  · rw [hf.tail, hf.startAddr]
    exact htiled
  · rw [hf.tail]
    refine h.links.split h.tiled (by decide) (by omega) (by omega) c.used false (fun x => ?_) fun x => ?_
    · rw [hitem]
    · rw [hitem]
  · exact hold (hnew d (by simp [hd])) (h.mark d (List.mem_append_left _ hd))
  · exact hold hne.symm (h.mark c hc)
  · refine ⟨?_, ?_⟩
    · rw [hitem, if_pos rfl]
      rfl
    · rw [hitem, if_pos rfl, if_pos rfl, hf.addr]
  · refine hold (hnew d (List.mem_append_right _ hd)) ?_
    exact forall_setPrev (P := fun d => m.Marked d.start d.used) (fun _ hd => hd) (fun d hd =>
      h.mark d (List.mem_append_right _ (List.mem_cons_of_mem _ hd))) d hd
  · rw [hf.tail]
    exact hold (by omega) h.tailMark
  · rw [hf.tail, hitem, hf.startAddr]
    dsimp only
    rw [if_neg (by omega), if_neg (by omega), h.tailNext]
  · exact h.aligned d (List.mem_append_left _ hd)
  · have h2 : c.size % 8 = 0 := h.aligned c hc
    have h3 : n % 8 = 0 := hal
    change (c.size - n) % 8 = 0
    omega
  · exact forall_setPrev (fun _ h => h) fun d hd =>
      h.aligned d (List.mem_append_right _ (List.mem_cons_of_mem _ hd))
  · rw [hf.poolSize]
    exact h.room
  · rw [hf.startAddr, hf.poolSize]
    exact h.space
  · rw [hf.freeList, hf.startAddr, hf.poolSize]
    exact h.outside

/-- **Two blocks are merged.** -/
theorem merge (h : MhRep m (l ++ c :: d :: r)) (hf : Frame xs m m')
    (hi : ∀ a, m'.item a = { m.item a with
      next := if a = c.start then d.stop else (m.item a).next
      prev := if a = d.stop then c.start else (m.item a).prev }) :
    MhRep m' (l ++ { c with size := c.size + d.size, used := c.used } :: setPrev c.start r) := by
  have hc : c ∈ l ++ c :: d :: r := List.mem_append_right _ List.mem_cons_self
  have hd : d ∈ l ++ c :: d :: r :=
    List.mem_append_right _ (List.mem_cons_of_mem _ List.mem_cons_self)
  have hold : ∀ {x v}, m.Marked x v → m'.Marked x v := fun {x v} hv => by
    refine ⟨?_, ?_⟩
    · rw [hi]
      exact hv.1
    · rw [hi, hf.addr]
      exact hv.2
  have htail : c.start + 24 ≤ m.tail := h.start_lt hc
  have hr : ∀ x ∈ r, x ∈ l ++ c :: d :: r := fun x hx =>
    List.mem_append_right _ (List.mem_cons_of_mem _ (List.mem_cons_of_mem _ hx))
  refine ⟨?_, ?_, mem_cases (fun x hx => ?_) (hold (h.mark c hc)) fun x hx => hold ?_, ?_, ?_,
    mem_cases (fun x hx => ?_) ?_ ?_, ?_, ?_, ?_⟩
  · rw [hf.tail, hf.startAddr]
    exact h.tiled.merge c.used
  · rw [hf.tail]
    refine h.links.merge h.tiled (by decide) c.used (fun x => ?_) fun x => ?_
    · rw [hi]
    · rw [hi]
  · exact hold (h.mark x (List.mem_append_left _ hx))
  · exact forall_setPrev (P := fun d => m.Marked d.start d.used) (fun _ hd => hd)
      (fun x hx => h.mark x (hr x hx)) x hx
  · rw [hf.tail]
    exact hold h.tailMark
  · rw [hf.tail, hi, if_neg (by omega), h.tailNext, hf.startAddr]
  · exact h.aligned x (List.mem_append_left _ hx)
  · have h2 : c.size % 8 = 0 := h.aligned c hc
    have h3 : d.size % 8 = 0 := h.aligned d hd
    change (c.size + d.size) % 8 = 0
    omega
  · exact forall_setPrev (fun _ h => h) fun x hx => h.aligned x (hr x hx)
  · rw [hf.poolSize]
    exact h.room
  · rw [hf.startAddr, hf.poolSize]
    exact h.space
  · rw [hf.freeList, hf.startAddr, hf.poolSize]
    exact h.outside

end MhRep

/-! ## The parts of the functions -/

/-- A heap on the way from `m₀`, with the blocks `l` and the free list `F`; only items of `xs` have
been written. -/
structure MhParts (m₀ : Memheap) (xs : List ℕ) (m : Memheap) (l : List Cell) (F : List ℕ) :
    Prop where
  rep : MhRep m l
  circle : m.FreeCircle F
  list : m.freeList ∈ xs
  tail : m.tail ∈ xs
  starts : ∀ c ∈ l, c.start ∈ xs
  free : ∀ x ∈ F, x ∈ xs
  frame : Memheap.Frame xs m₀ m

namespace MhParts

open Memheap

variable {m₀ m m' : Memheap} {xs : List ℕ} {l l' r : List Cell} {F G : List ℕ} {c d : Cell}
  {x n : ℕ}

/-- The nodes of the free list. -/
theorem mem (h : MhParts m₀ xs m l F) (hx : x ∈ m.freeList :: F) : x ∈ xs := by
  rcases List.mem_cons.mp hx with rfl | hx
  · exact h.list
  · exact h.free x hx

/-- Behind a block. -/
theorem stop_mem (h : MhParts m₀ xs m l F) (hc : c ∈ l) : c.stop ∈ xs := by
  rcases h.rep.tiled.stop_mem hc with he | ⟨d, hd, he⟩
  · exact he ▸ h.tail
  · exact he ▸ h.starts d hd

theorem next (h : MhParts m₀ xs m l F) (hf : Frame xs m m') (hrep : MhRep m' l')
    (hcircle : m'.FreeCircle G) (hs : ∀ c ∈ l', c.start ∈ xs) (hfree : ∀ x ∈ G, x ∈ xs) :
    MhParts m₀ xs m' l' G where
  rep := hrep
  circle := hcircle
  list := hf.freeList ▸ h.list
  tail := hf.tail ▸ h.tail
  starts := hs
  free := hfree
  frame := h.frame.trans hf

theorem addAvailable (h : MhParts m₀ xs m l F) (n : ℕ) : MhParts m₀ xs (m.addAvailable n) l F := by
  have hf := (Frame.refl xs m).addAvailable n
  refine h.next hf (h.rep.congr hf fun a => ⟨rfl, rfl, rfl, rfl⟩) ?_ h.starts h.free
  exact h.circle.congr rfl (fun _ => rfl) fun _ => rfl

theorem subAvailable (h : MhParts m₀ xs m l F) (n : ℕ) : MhParts m₀ xs (m.subAvailable n) l F := by
  have hf := (Frame.refl xs m).subAvailable n
  refine h.next hf (h.rep.congr hf fun a => ⟨rfl, rfl, rfl, rfl⟩) ?_ h.starts h.free
  exact h.circle.congr rfl (fun _ => rfl) fun _ => rfl

theorem updateMax (h : MhParts m₀ xs m l F) : MhParts m₀ xs m.updateMax l F := by
  have hf := (Frame.refl xs m).updateMax
  have hitem : m.updateMax.item = m.item := by
    unfold Memheap.updateMax
    split_ifs <;> rfl
  refine h.next hf (h.rep.congr hf fun a => ?_) (h.circle.congr hf.freeList (fun a => ?_) fun a => ?_)
    h.starts h.free
  all_goals rw [hitem]
  exact ⟨rfl, rfl, rfl, rfl⟩

theorem markBlock (h : MhParts m₀ xs m (l ++ c :: r) F) (u : Bool) :
    MhParts m₀ xs (m.modify c.start fun i => { i with magic := memheapMagic + u.toNat })
      (l ++ { c with used := u } :: r) F := by
  have hc : c ∈ l ++ c :: r := List.mem_append_right _ List.mem_cons_self
  have hf := (Frame.refl xs m).modify (h.starts c hc)
    fun i => { i with magic := memheapMagic + u.toNat }
  refine h.next hf (h.rep.markBlock u) (h.circle.congr rfl (fun a => ?_) fun a => ?_) ?_ h.free
  · rw [modify_item]
    split_ifs <;> rfl
  · rw [modify_item]
    split_ifs <;> rfl
  · refine mem_cases (fun d hd => ?_) (h.starts c hc) fun d hd => ?_
    · exact h.starts d (List.mem_append_left _ hd)
    · exact h.starts d (List.mem_append_right _ (List.mem_cons_of_mem _ hd))

theorem markUsed (h : MhParts m₀ xs m (l ++ c :: r) F) :
    MhParts m₀ xs (m.modify c.start fun i => { i with magic := memheapMagic + memheapUsed })
      (l ++ { c with used := true } :: r) F := h.markBlock true

theorem markFreed (h : MhParts m₀ xs m (l ++ c :: r) F) :
    MhParts m₀ xs (m.modify c.start fun i => { i with magic := memheapMagic })
      (l ++ { c with used := false } :: r) F := h.markBlock false

/-- A block is split. -/
theorem split (h : MhParts m₀ xs m (l ++ c :: r) F) (hn : memheapSize ≤ n)
    (hnc : n + memheapSize ≤ c.size) (hal : n % rtAlignSize = 0) (hx : c.start + n ∈ xs) :
    MhParts m₀ xs (m.splitBlock c.start (c.start + n)) (l ++ { c with size := n, used := c.used } ::
      { start := c.start + n, size := c.size - n, prev := c.start, used := false } ::
        setPrev (c.start + n) r) F := by
  have hc : c ∈ l ++ c :: r := List.mem_append_right _ List.mem_cons_self
  have h24 : 24 ≤ n := hn
  have hne : c.start + n ≠ c.start := by omega
  have hf : Frame xs m (m.splitBlock c.start (c.start + n)) :=
    (Frame.refl xs m).splitBlock hne (h.starts c hc) hx (h.rep.next ▸ h.stop_mem hc)
  refine h.next hf (h.rep.split hn hnc hal) (h.circle.congr hf.freeList (fun a => ?_) fun a => ?_)
    (mem_cases (fun d hd => ?_) (h.starts c hc) (mem_cases (l := []) (by simp) hx ?_)) h.free
  · rw [splitBlock_item hne]
  · rw [splitBlock_item hne]
  · exact h.starts d (List.mem_append_left _ hd)
  · exact forall_setPrev (fun _ h => h) fun d hd =>
      h.starts d (List.mem_append_right _ (List.mem_cons_of_mem _ hd))

/-- Two blocks are merged. -/
theorem merge (h : MhParts m₀ xs m (l ++ c :: d :: r) F) (hf : Frame xs m m')
    (hi : ∀ a, m'.item a = { m.item a with
      next := if a = c.start then d.stop else (m.item a).next
      prev := if a = d.stop then c.start else (m.item a).prev }) :
    MhParts m₀ xs m' (l ++ { c with size := c.size + d.size, used := c.used } ::
      setPrev c.start r) F := by
  have hc : c ∈ l ++ c :: d :: r := List.mem_append_right _ List.mem_cons_self
  refine h.next hf (h.rep.merge hf hi) (h.circle.congr hf.freeList (fun a => ?_) fun a => ?_)
    (mem_cases (fun x hx => ?_) (h.starts c hc) ?_) h.free
  · rw [hi]
  · rw [hi]
  · exact h.starts x (List.mem_append_left _ hx)
  · exact forall_setPrev (fun _ h => h) fun x hx => h.starts x
      (List.mem_append_right _ (List.mem_cons_of_mem _ (List.mem_cons_of_mem _ hx)))

theorem mergeNext (h : MhParts m₀ xs m (l ++ c :: d :: r) F) :
    MhParts m₀ xs (m.mergeNext c.start d.start)
      (l ++ { c with size := c.size + d.size, used := c.used } :: setPrev c.start r) F := by
  have hc : c ∈ l ++ c :: d :: r := List.mem_append_right _ List.mem_cons_self
  have hd : d ∈ l ++ c :: d :: r :=
    List.mem_append_right _ (List.mem_cons_of_mem _ List.mem_cons_self)
  have hnext : (m.item d.start).next = d.stop := by
    have hrep := h.rep
    rw [List.append_cons] at hrep
    exact hrep.next
  refine h.merge ((Frame.refl xs m).mergeNext (h.starts c hc) (hnext ▸ h.stop_mem hd)) fun a => ?_
  rw [mergeNext_item, hnext]

theorem mergePrev (h : MhParts m₀ xs m (l ++ c :: d :: r) F) :
    MhParts m₀ xs (m.mergePrev d.start)
      (l ++ { c with size := c.size + d.size, used := c.used } :: setPrev c.start r) F := by
  have hc : c ∈ l ++ c :: d :: r := List.mem_append_right _ List.mem_cons_self
  have hd : d ∈ l ++ c :: d :: r :=
    List.mem_append_right _ (List.mem_cons_of_mem _ List.mem_cons_self)
  have hrep := h.rep
  rw [List.append_cons] at hrep
  have hnext := hrep.next
  have hprev := hrep.prev
  rw [lastStart_concat] at hprev
  refine h.merge ((Frame.refl xs m).mergePrev (hprev ▸ h.starts c hc) (hnext ▸ h.stop_mem hd))
    fun a => ?_
  rw [mergePrev_item, hnext, hprev]

/-- An item is taken off the free list. -/
theorem removeFree (h : MhParts m₀ xs m l (F ++ x :: G)) :
    MhParts m₀ xs (m.removeFree x) l (F ++ G) := by
  have hx : x ∈ m.freeList :: (F ++ x :: G) :=
    List.mem_cons_of_mem _ (List.mem_append_right _ List.mem_cons_self)
  have hf := (Frame.refl xs m).removeFree (h.mem (Circle.prev_mem h.circle hx))
    (h.mem (Circle.next_mem h.circle hx))
  refine h.next hf (h.rep.congr hf fun a => ?_) h.circle.removeFree h.starts fun y hy => h.free y ?_
  · rw [removeFree_item]
    exact ⟨rfl, rfl, rfl, rfl⟩
  · rcases List.mem_append.mp hy with hy | hy
    · exact List.mem_append_left _ hy
    · exact List.mem_append_right _ (List.mem_cons_of_mem _ hy)

theorem clearFree (h : MhParts m₀ xs m l F) (hx : x ∉ m.freeList :: F) (hxs : x ∈ xs) :
    MhParts m₀ xs (m.clearFree x) l F := by
  have hf := (Frame.refl xs m).clearFree hxs
  refine h.next hf (h.rep.congr hf fun a => ?_) (h.circle.clearFree hx) h.starts h.free
  rw [clearFree_item]
  exact ⟨rfl, rfl, rfl, rfl⟩

/-- An item is inserted into the free list. -/
theorem insertBefore (h : MhParts m₀ xs m l F) (hn : n ∈ m.freeList :: F) (hx : x ∉ m.freeList :: F)
    (hxs : x ∈ xs) : ∃ F', F'.Perm (x :: F) ∧ MhParts m₀ xs (m.insertBefore x n) l F' := by
  have hne : x ≠ n := fun he => hx (he ▸ hn)
  have hf := (Frame.refl xs m).insertBefore hne hxs (h.mem hn) (h.mem (Circle.prev_mem h.circle hn))
  obtain ⟨F', hp, hc⟩ := h.circle.insertBefore hn hx
  refine ⟨F', hp, h.next hf (h.rep.congr hf fun a => ?_) hc h.starts fun y hy => ?_⟩
  · rw [insertBefore_item hne]
    exact ⟨rfl, rfl, rfl, rfl⟩
  · rcases List.mem_cons.mp (hp.subset hy) with rfl | hy
    · exact hxs
    · exact h.free y hy

theorem insertFront (h : MhParts m₀ xs m l F) (hx : x ∉ m.freeList :: F) (hxs : x ∈ xs) :
    ∃ F', F'.Perm (x :: F) ∧ MhParts m₀ xs (m.insertFront x) l F' := by
  have hne : x ≠ m.freeList := fun he => hx (he ▸ List.mem_cons_self)
  have hf := (Frame.refl xs m).insertFront hne hxs h.list
    (h.mem (Circle.next_mem h.circle List.mem_cons_self))
  obtain ⟨F', hp, hc⟩ := h.circle.insertFront hx
  refine ⟨F', hp, h.next hf (h.rep.congr hf fun a => ?_) hc h.starts fun y hy => ?_⟩
  · rw [insertFront_item hne]
    exact ⟨rfl, rfl, rfl, rfl⟩
  · rcases List.mem_cons.mp (hp.subset hy) with rfl | hy
    · exact hxs
    · exact h.free y hy

end MhParts

/-! ## A heap between two calls -/

/-- Where the free blocks begin. -/
def freeStarts (l : List Cell) : List ℕ := (blocks false l).map Prod.fst

/-- The bytes in the free blocks. -/
def freeBytes (l : List Cell) : ℕ := ((blocks false l).map fun b => b.2 - memheapSize).sum

section

variable {l r : List Cell} {c : Cell} {q : ℕ}

@[simp] theorem freeStarts_nil : freeStarts [] = [] := rfl

@[simp] theorem freeStarts_append : freeStarts (l ++ r) = freeStarts l ++ freeStarts r := by
  rw [freeStarts, blocks_append, List.map_append]
  rfl

@[simp] theorem freeStarts_setPrev : freeStarts (setPrev q l) = freeStarts l := by
  rw [freeStarts, blocks_setPrev]
  rfl

theorem freeStarts_free (hc : c.used = false) : freeStarts (c :: l) = c.start :: freeStarts l := by
  rw [freeStarts, blocks_cons, if_pos hc]
  rfl

theorem freeStarts_used (hc : c.used = true) : freeStarts (c :: l) = freeStarts l := by
  rw [freeStarts, blocks_cons, if_neg (by rw [hc]; simp)]
  rfl

theorem mem_freeStarts {x : ℕ} : x ∈ freeStarts l ↔ ∃ c ∈ l, c.used = false ∧ x = c.start := by
  rw [freeStarts, List.mem_map]
  constructor
  · rintro ⟨b, hb, rfl⟩
    obtain ⟨c, hc, hu, rfl⟩ := mem_blocks.mp hb
    exact ⟨c, hc, hu, rfl⟩
  · rintro ⟨c, hc, hu, rfl⟩
    exact ⟨_, mem_blocks.mpr ⟨c, hc, hu, rfl⟩, rfl⟩

@[simp] theorem freeBytes_nil : freeBytes [] = 0 := rfl

@[simp] theorem freeBytes_append : freeBytes (l ++ r) = freeBytes l + freeBytes r := by
  rw [freeBytes, blocks_append, List.map_append, List.sum_append]
  rfl

@[simp] theorem freeBytes_setPrev : freeBytes (setPrev q l) = freeBytes l := by
  rw [freeBytes, blocks_setPrev]
  rfl

theorem freeBytes_free (hc : c.used = false) :
    freeBytes (c :: l) = c.size - memheapSize + freeBytes l := by
  rw [freeBytes, blocks_cons, if_pos hc, List.map_cons, List.sum_cons]
  rfl

theorem freeBytes_used (hc : c.used = true) : freeBytes (c :: l) = freeBytes l := by
  rw [freeBytes, blocks_cons, if_neg (by rw [hc]; simp)]
  rfl

/-- The free bytes lie between the first block and the tail. -/
theorem freeBytes_le {p a e : ℕ} (ht : Tiled memheapSize p a l e) : a + freeBytes l ≤ e := by
  induction l generalizing p a with
  | nil => exact Nat.le_of_eq ht
  | cons c l ih =>
    obtain ⟨rfl, -, -, h⟩ := ht
    have hle := ih h
    unfold Cell.stop at hle
    cases hu : c.used with
    | true =>
      rw [freeBytes_used hu]
      omega
    | false =>
      rw [freeBytes_free hu]
      omega

end

theorem MhRep.freeBytes_lt {m : Memheap} {l : List Cell} (h : MhRep m l) : freeBytes l < 2 ^ 32 := by
  have h24 : memheapSize = 24 := rfl
  have hle := freeBytes_le h.tiled
  have hroom := h.room
  have hspace := h.space
  unfold Memheap.tail at hle
  omega

/-- The items of a heap: those of the blocks, the tail and the header of the free list. -/
def heads (m : Memheap) (l : List Cell) : List ℕ := m.freeList :: m.tail :: l.map Cell.start

/-- The free list has the free blocks, no two of them are neighbours, and `available_size` counts
their bytes. -/
structure MhWell (m : Memheap) (l : List Cell) (F : List ℕ) : Prop extends MhRep m l where
  circle : m.FreeCircle F
  free : F.Perm (freeStarts l)
  noTwoFree : NoTwoFree l
  available : m.availableSize = freeBytes l
  large : ∀ b ∈ blocks true l, memheapMiniAlloc + memheapSize ≤ b.2

/-- The items of a heap lie in the pool, but for the header of the free list. -/
theorem MhRep.heads_in {m : Memheap} {l : List Cell} (h : MhRep m l) :
    ∀ x ∈ heads m l, x = m.freeList ∨ m.startAddr ≤ x ∧ x ≤ m.tail := by
  intro x hx
  rcases List.mem_cons.mp hx with rfl | hx
  · exact .inl rfl
  rcases List.mem_cons.mp hx with rfl | hx
  · exact .inr ⟨h.tiled.le, Nat.le_refl _⟩
  · obtain ⟨c, hc, rfl⟩ := List.mem_map.mp hx
    exact .inr ⟨(h.tiled.bounds hc).1, (Nat.le_add_right _ _).trans (h.start_lt hc)⟩

/-- What a function writes between two such heaps. -/
theorem MhRep.poolOnly {m m' : Memheap} {l l' : List Cell} (h : MhRep m l) (h' : MhRep m' l')
    (hf : Memheap.Frame (heads m l ++ heads m l') m m') : Memheap.PoolOnly m m' := by
  refine hf.poolOnly h.room fun x hx => ?_
  rcases List.mem_append.mp hx with hx | hx
  · exact h.heads_in x hx
  · have hin := h'.heads_in x
    rw [heads, hf.freeList, hf.tail, hf.startAddr] at hin
    exact hin hx

/-- The free list is not longer than the pool. -/
theorem MhRep.free_length {m : Memheap} {l : List Cell} {F : List ℕ} (h : MhRep m l)
    (hF : F.Perm (freeStarts l)) : F.length + 1 < m.poolSize + 2 := by
  have h1 : F.length ≤ l.length := by
    rw [hF.length_eq, freeStarts, blocks, List.map_map, List.length_map]
    exact List.length_filter_le _ _
  have h2 := h.tiled.length_le
  have h3 : m.tail ≤ m.startAddr + m.poolSize := Nat.sub_le _ _
  have h4 : l.length ≤ memheapSize * l.length := Nat.le_mul_of_pos_left _ (by decide)
  omega

namespace MhWell

open Memheap

variable {m m' : Memheap} {l r : List Cell} {F : List ℕ} {c : Cell}

/-- At the beginning of a function. -/
theorem parts (h : MhWell m l F) (ys : List ℕ) : MhParts m (heads m l ++ ys) m l F where
  rep := h.toMhRep
  circle := h.circle
  list := List.mem_append_left _ List.mem_cons_self
  tail := List.mem_append_left _ (List.mem_cons_of_mem _ List.mem_cons_self)
  starts c hc := List.mem_append_left _ (List.mem_cons_of_mem _ (List.mem_cons_of_mem _
    (List.mem_map_of_mem hc)))
  free x hx := by
    obtain ⟨c, hc, -, rfl⟩ := mem_freeStarts.mp (h.free.subset hx)
    exact List.mem_append_left _ (List.mem_cons_of_mem _ (List.mem_cons_of_mem _
      (List.mem_map_of_mem hc)))
  frame := .refl _ m

/-- A free block is on the free list. -/
theorem free_mid (h : MhWell m (l ++ c :: r) F) (hc : c.used = false) :
    ∃ F₁ F₂, F = F₁ ++ c.start :: F₂ ∧ (F₁ ++ F₂).Perm (freeStarts l ++ freeStarts r) := by
  have hperm := h.free
  rw [freeStarts_append, freeStarts_free hc] at hperm
  obtain ⟨F₁, F₂, rfl⟩ := List.append_of_mem (hperm.mem_iff.mpr
    (List.mem_append_right _ List.mem_cons_self))
  refine ⟨F₁, F₂, rfl, ?_⟩
  exact (List.perm_middle.symm.trans (hperm.trans List.perm_middle)).cons_inv

/-- Inside of the pool there is no header of the free list. -/
theorem ne_freeList (h : MhRep m l) {x : ℕ} (hx : m.startAddr ≤ x) (hx' : x ≤ m.tail) :
    x ≠ m.freeList := by
  have hroom := h.room
  have hout := h.outside
  unfold Memheap.tail at hx'
  have h24 : 0 < memheapSize := by decide
  omega

end MhWell

/-- A block has been taken: its data begin at `p` and have `n` bytes or more. -/
structure MhTaken (m m' : Memheap) (l l' : List Cell) (F' : List ℕ) (p n : ℕ) : Prop where
  well : MhWell m' l' F'
  frame : Memheap.Frame (heads m l ++ heads m l') m m'
  block : ∃ b bs cs, blocks true l = bs ++ cs ∧ blocks true l' = bs ++ b :: cs ∧
    p = memheapSize + b.1 ∧ n + memheapSize ≤ b.2

namespace MhWell

open Memheap

variable {m m' : Memheap} {l r : List Cell} {F : List ℕ} {c : Cell} {size : ℕ}

/-- A part of a free block stays free, less the part cut off. -/
theorem bytes_split {f s n w e : ℕ} (h : n + w ≤ s) : f + (s - w + e) = f + (s - n - w + e) + n := by
  omega

/-- **`rt_memheap_alloc` takes a free block** and splits it. -/
theorem takeSplit (h : MhWell m (l ++ c :: r) F) (hc : c.used = false) (h16 : memheapMiniAlloc ≤ size)
    (hal : size % rtAlignSize = 0)
    (hsize : c.size - memheapSize ≥ size + memheapSize + memheapMiniAlloc) :
    ∃ l' F', MhTaken m (memheapTake m c.start (c.size - memheapSize) size) (l ++ c :: r) l' F'
      (c.start + memheapSize) size := by
  have hmem : c ∈ l ++ c :: r := List.mem_append_right _ List.mem_cons_self
  have hsize' : c.size - 24 ≥ size + 24 + 16 := hsize
  have h16' : 16 ≤ size := h16
  have hal' : size % 8 = 0 := hal
  have hroom : size + 24 + 24 ≤ c.size := by omega
  obtain ⟨F₁, F₂, rfl, hperm⟩ := h.free_mid hc
  obtain ⟨hl, hr, hadj⟩ := noTwoFree_mid.mp h.noTwoFree
  have hhead : HeadUsed r := (hadj.resolve_left (by rw [hc]; simp)).2
  have hb := h.tiled.bounds hmem
  have hstop := hb.2.1
  have hspace := h.stop_le hmem
  have h24 : memheapSize = 24 := rfl
  have hmini : memheapMiniAlloc = 16 := rfl
  unfold Cell.stop at hstop
  obtain ⟨y, hy⟩ : ∃ y, y = c.start + (size + memheapSize) := ⟨_, rfl⟩
  have hy' : y = c.start + (size + 24) := hy
  have htest : (size + memheapSize + memheapMiniAlloc) % 2 ^ 32 =
      size + memheapSize + memheapMiniAlloc := Nat.mod_eq_of_lt (by omega)
  have hptr : (c.start + size + memheapSize) % 2 ^ 32 = y := by
    rw [hy, Nat.add_assoc]
    exact Nat.mod_eq_of_lt (by omega)
  obtain ⟨l', hl'⟩ : ∃ l', l' = l ++ { c with size := size + memheapSize, used := true } ::
      { start := y, size := c.size - (size + memheapSize), prev := c.start, used := false } ::
        setPrev y r := ⟨_, rfl⟩
  have hyl : ∀ d ∈ l ++ c :: r, d.start ≠ y := by
    obtain ⟨h1, h2⟩ := h.tiled.around
    refine mem_cases (fun d hd => ?_) (by omega) fun d hd => ?_
    · have := h1 d hd
      have hd24 : 24 ≤ d.size := (h.tiled.bounds (List.mem_append_left _ hd)).2.2
      unfold Cell.stop at this
      omega
    · have := h2 d hd
      unfold Cell.stop at this
      omega
  have hyS : y ≠ m.freeList := ne_freeList h.toMhRep (by omega) (by omega)
  have hyF : y ∉ m.freeList :: (F₁ ++ F₂) := fun hm => by
    rcases List.mem_cons.mp hm with hm | hm
    · exact hyS hm
    · have hF : y ∈ F₁ ++ c.start :: F₂ := by
        rcases List.mem_append.mp hm with hm | hm
        · exact List.mem_append_left _ hm
        · exact List.mem_append_right _ (List.mem_cons_of_mem _ hm)
      obtain ⟨d, hd, -, he⟩ := mem_freeStarts.mp (h.free.subset hF)
      exact hyl d hd he.symm
  have hxF : c.start ∉ m.freeList :: (F₁ ++ F₂) := fun hm => by
    rcases List.mem_cons.mp hm with hm | hm
    · exact ne_freeList h.toMhRep hb.1 (by omega) hm
    · have hnd := (List.nodup_cons.mp h.circle.nodup).2
      exact (List.nodup_cons.mp (List.perm_middle.nodup_iff.mp hnd)).1 hm
  have hys : y ∈ heads m (l ++ c :: r) ++ [y] := List.mem_append_right _ (List.mem_singleton.mpr rfl)
  -- the writes, one after the other
  have p₁ := (h.parts [y]).split (n := size + memheapSize) (Nat.le_add_left _ _)
    hroom (show (size + 24) % 8 = 0 by omega) (hy ▸ hys)
  have p₂ := p₁.removeFree
  have p₃ := p₂.clearFree (p₂.frame.freeList.symm ▸ hxF) ((h.parts [y]).starts c hmem)
  rw [← hy] at p₃
  obtain ⟨F', hF', p₄⟩ := p₃.insertFront (p₃.frame.freeList.symm ▸ hyF) hys
  have p₅ := ((p₄.subAvailable (size + memheapSize)).updateMax).markUsed
  obtain ⟨m', hm'⟩ : ∃ m', m' = memheapTake m c.start (c.size - memheapSize) size := ⟨_, rfl⟩
  have htake : memheapTake m c.start (c.size - memheapSize) size = m' := hm'.symm
  unfold memheapTake at hm'
  dsimp only at hm'
  rw [htest, if_pos hsize, hptr] at hm'
  have p₆ : MhParts m (heads m (l ++ c :: r) ++ [y]) m' l' F' := by
    rw [hm', hl']
    exact p₅
  have hav : m'.availableSize = sizeSub m.availableSize (size + memheapSize) := by
    rw [hm', modify_availableSize, updateMax_availableSize, subAvailable_availableSize,
      insertFront_availableSize, clearFree_availableSize, removeFree_availableSize,
      splitBlock_availableSize]
  have hb₁ : blocks true (l ++ c :: r) = blocks true l ++ blocks true r := by
    rw [blocks_append, blocks_cons, if_neg (by rw [hc]; simp)]
  have hb₂ : blocks true l' = blocks true l ++ (c.start, size + memheapSize) :: blocks true r := by
    simp only [hl', blocks_append, blocks_cons, blocks_setPrev, if_true, Bool.false_eq_true, if_false]
  have hbytes : freeBytes (l ++ c :: r) = freeBytes l' + (size + memheapSize) := by
    rw [hl', freeBytes_append, freeBytes_free hc, freeBytes_append, freeBytes_used rfl,
      freeBytes_free rfl, freeBytes_setPrev]
    exact bytes_split hroom
  rw [htake]
  refine ⟨l', F', ⟨p₆.rep, p₆.circle, ?_, ?_, ?_, fun b hb => ?_⟩, p₆.frame.mono fun x hx => ?_,
    ⟨(c.start, size + memheapSize), _, _, hb₁, hb₂, Nat.add_comm _ _, Nat.le_refl _⟩⟩
  · refine hF'.trans ?_
    rw [hl', freeStarts_append, freeStarts_used rfl, freeStarts_free rfl, freeStarts_setPrev]
    exact (hperm.cons y).trans List.perm_middle.symm
  · rw [hl', hy]
    exact h.noTwoFree.split hhead _ rfl _
  · have hlt := h.freeBytes_lt
    rw [hbytes] at hlt
    rw [hav, h.available, hbytes, sizeSub_of_le (Nat.le_add_left _ _) hlt]
    exact Nat.add_sub_cancel _ _
  · have hlarge := h.large
    rw [hb₁] at hlarge
    rw [hb₂] at hb
    rcases List.mem_append.mp hb with hb | hb
    · exact hlarge b (List.mem_append_left _ hb)
    · rcases List.mem_cons.mp hb with rfl | hb
      · exact Nat.add_le_add_right h16 _
      · exact hlarge b (List.mem_append_right _ hb)
  · rcases List.mem_append.mp hx with hx | hx
    · exact List.mem_append_left _ hx
    · refine List.mem_append_right _ (List.mem_cons_of_mem _ (List.mem_cons_of_mem _ ?_))
      rw [List.mem_singleton.mp hx, hl']
      simp

/-- **`rt_memheap_alloc` takes a free block** as it is. -/
theorem takeWhole (h : MhWell m (l ++ c :: r) F) (hc : c.used = false)
    (h16 : memheapMiniAlloc ≤ size) (hsize : size + memheapSize ≤ c.size)
    (hsmall : ¬c.size - memheapSize ≥ size + memheapSize + memheapMiniAlloc) :
    ∃ l' F', MhTaken m (memheapTake m c.start (c.size - memheapSize) size) (l ++ c :: r) l' F'
      (c.start + memheapSize) size := by
  have hmem : c ∈ l ++ c :: r := List.mem_append_right _ List.mem_cons_self
  obtain ⟨F₁, F₂, rfl, hperm⟩ := h.free_mid hc
  obtain ⟨hl, hr, -⟩ := noTwoFree_mid.mp h.noTwoFree
  have hb := h.tiled.bounds hmem
  have hstop := hb.2.1
  have hspace := h.stop_le hmem
  have h24 : memheapSize = 24 := rfl
  have hmini : memheapMiniAlloc = 16 := rfl
  unfold Cell.stop at hstop
  have htest : (size + memheapSize + memheapMiniAlloc) % 2 ^ 32 =
      size + memheapSize + memheapMiniAlloc := Nat.mod_eq_of_lt (by omega)
  have hxF : c.start ∉ m.freeList :: (F₁ ++ F₂) := fun hm => by
    rcases List.mem_cons.mp hm with hm | hm
    · exact ne_freeList h.toMhRep hb.1 (by omega) hm
    · have hnd := (List.nodup_cons.mp h.circle.nodup).2
      exact (List.nodup_cons.mp (List.perm_middle.nodup_iff.mp hnd)).1 hm
  have p₁ := (((h.parts []).subAvailable (c.size - memheapSize)).updateMax).removeFree
  have p₂ := (p₁.clearFree (p₁.frame.freeList.symm ▸ hxF) ((h.parts []).starts c hmem)).markUsed
  obtain ⟨m', hm'⟩ : ∃ m', m' = memheapTake m c.start (c.size - memheapSize) size := ⟨_, rfl⟩
  have htake : memheapTake m c.start (c.size - memheapSize) size = m' := hm'.symm
  unfold memheapTake at hm'
  dsimp only at hm'
  rw [htest, if_neg hsmall] at hm'
  have p₃ : MhParts m (heads m (l ++ c :: r) ++ []) m' (l ++ { c with used := true } :: r)
      (F₁ ++ F₂) := by
    rw [hm']
    exact p₂
  have hav : m'.availableSize = sizeSub m.availableSize (c.size - memheapSize) := by
    rw [hm', modify_availableSize, clearFree_availableSize, removeFree_availableSize,
      updateMax_availableSize, subAvailable_availableSize]
  have hb₁ : blocks true (l ++ c :: r) = blocks true l ++ blocks true r := by
    rw [blocks_append, blocks_cons, if_neg (by rw [hc]; simp)]
  have hb₂ : blocks true (l ++ { c with used := true } :: r) =
      blocks true l ++ (c.start, c.size) :: blocks true r := by
    rw [blocks_append, blocks_cons, if_pos rfl]
  rw [htake]
  refine ⟨_, _, ⟨p₃.rep, p₃.circle, ?_, ?_, ?_, fun b hb => ?_⟩, p₃.frame.mono fun x hx => ?_,
    ⟨(c.start, c.size), _, _, hb₁, hb₂, Nat.add_comm _ _, hsize⟩⟩
  · rw [freeStarts_append, freeStarts_used rfl]
    exact hperm
  · exact noTwoFree_mid.mpr ⟨hl, hr, .inl rfl⟩
  · have hlt := h.freeBytes_lt
    rw [freeBytes_append, freeBytes_free hc] at hlt
    rw [hav, h.available, freeBytes_append, freeBytes_free hc, freeBytes_append, freeBytes_used rfl,
      sizeSub_of_le (by omega) hlt]
    omega
  · have hlarge := h.large
    rw [hb₁] at hlarge
    rw [hb₂] at hb
    rcases List.mem_append.mp hb with hb | hb
    · exact hlarge b (List.mem_append_left _ hb)
    · rcases List.mem_cons.mp hb with rfl | hb
      · exact Nat.le_trans (Nat.add_le_add_right h16 _) hsize
      · exact hlarge b (List.mem_append_right _ hb)
  · exact List.mem_append_left _ (by rwa [List.append_nil] at hx)

/-- **The search** ends: with a free block that is large enough, or at the end of the list. -/
theorem search (h : MhWell m l F) {G : List ℕ} (hG : ∀ x ∈ G, x ∈ F) {a : ℕ}
    (hb : Between (fun x => (m.item x).nextFree) (fun x => (m.item x).prevFree) a G m.freeList)
    {fuel freeSize : ℕ} (hfuel : G.length + 1 < fuel) (hfree : freeSize < size) :
    (∃ n < size, memheapSearch m size fuel (m.item a).nextFree freeSize = some (m.freeList, n)) ∨
      ∃ l₁ c r, l = l₁ ++ c :: r ∧ c.used = false ∧ size + memheapSize ≤ c.size ∧
        memheapSearch m size fuel (m.item a).nextFree freeSize =
          some (c.start, c.size - memheapSize) := by
  induction G generalizing a fuel freeSize with
  | nil =>
    obtain ⟨fuel, rfl⟩ : ∃ n, fuel = n + 1 := ⟨fuel - 1, by simp at hfuel; omega⟩
    left
    refine ⟨freeSize, hfree, ?_⟩
    have hend : (m.item a).nextFree = m.freeList := hb.1
    rw [memheapSearch, hend, if_neg fun hn => hn.1 rfl]
  | cons x G ih =>
    obtain ⟨fuel, rfl⟩ : ∃ n, fuel = n + 1 := ⟨fuel - 1, by simp at hfuel; omega⟩
    obtain ⟨h1, -, h3⟩ := hb
    have hnext : (m.item a).nextFree = x := h1
    have hx := hG x List.mem_cons_self
    obtain ⟨c, hc, hu, rfl⟩ := mem_freeStarts.mp (h.free.subset hx)
    obtain ⟨l₁, r, rfl⟩ := List.append_of_mem hc
    have hne : c.start ≠ m.freeList := fun he =>
      (List.nodup_cons.mp h.circle.nodup).1 (he ▸ hx)
    have hsize := h.toMhRep.memitemSize
    have hc24 := (h.tiled.bounds hc).2.2
    rw [memheapSearch, hnext, if_pos ⟨hne, hfree⟩]
    dsimp only
    rw [hsize]
    by_cases hlt : c.size - memheapSize < size
    · rw [if_pos hlt]
      refine ih (fun y hy => hG y (List.mem_cons_of_mem _ hy)) h3 ?_ hlt
      rw [List.length_cons] at hfuel
      omega
    · right
      refine ⟨l₁, c, r, rfl, hu, by omega, ?_⟩
      obtain ⟨fuel, rfl⟩ : ∃ n, fuel = n + 1 := ⟨fuel - 1, by simp at hfuel; omega⟩
      rw [if_neg hlt, memheapSearch, if_neg fun hn => hlt hn.2]

theorem length_lt (h : MhWell m l F) : F.length + 1 < m.poolSize + 2 :=
  h.toMhRep.free_length h.free

/-- **`rt_memheap_alloc`** returns, with a block of the size that it has rounded up to, or with null
and the heap as it was. -/
theorem alloc (h : MhWell m l F) (n : ℕ) : rtMemheapAlloc m n = some (none, m) ∨
    ∃ p m' l' F', rtMemheapAlloc m n = some (some p, m') ∧
      MhTaken m m' l l' F' p (max (rtAlign n) memheapMiniAlloc) := by
  unfold rtMemheapAlloc
  dsimp only
  obtain ⟨size, hsize⟩ : ∃ size, size = if rtAlign n < memheapMiniAlloc then memheapMiniAlloc
    else rtAlign n := ⟨_, rfl⟩
  have hal : rtAlign n % 8 = 0 := rtAlign_mod n
  have hmax : size = max (rtAlign n) memheapMiniAlloc := by
    rw [hsize]
    split_ifs <;> omega
  have h16 : memheapMiniAlloc ≤ size := hmax ▸ Nat.le_max_right _ _
  have hal8 : size % rtAlignSize = 0 := by
    rw [hsize]
    split_ifs
    · decide
    · exact hal
  rw [← hsize, ← hmax]
  by_cases hav : size < m.availableSize
  · have hpos : 0 < size := Nat.lt_of_lt_of_le (by decide) h16
    rw [if_pos hav]
    rcases h.search (fun x hx => hx) h.circle.between h.length_lt hpos with ⟨k, hk, hs⟩ | ⟨l₁, c, r, rfl, hc, hfit, hs⟩
    · left
      rw [hs]
      exact congrArg some (if_neg (Nat.not_le_of_lt hk))
    · right
      have hge : c.size - memheapSize ≥ size := Nat.le_sub_of_add_le hfit
      rw [hs, Option.map_some, if_pos hge]
      by_cases hsplit : c.size - memheapSize ≥ size + memheapSize + memheapMiniAlloc
      · obtain ⟨l', F', ht⟩ := h.takeSplit hc h16 hal8 hsplit
        exact ⟨_, _, l', F', rfl, ht⟩
      · obtain ⟨l', F', ht⟩ := h.takeWhole hc h16 hfit hsplit
        exact ⟨_, _, l', F', rfl, ht⟩
  · left
    rw [if_neg hav]

end MhWell

/-! ## Freeing -/

namespace MhParts

open Memheap

variable {m₀ m : Memheap} {xs : List ℕ} {l r : List Cell} {F G : List ℕ} {c : Cell}

/-- **The next neighbour** is merged, if it is free; `m` becomes `g` before. -/
theorem mergeRight (h : MhParts m₀ xs m (l ++ c :: r) F) (hc : c.used = false) (hr : NoTwoFree r)
    (hF : F.Perm (G ++ freeStarts r)) {g : Memheap} (hg : MhParts m₀ xs g (l ++ c :: r) F) :
    ∃ m' c' r' F',
      (if m.isUsed (m.item c.start).next = false then
        (g.mergeNext c.start (m.item c.start).next).removeFree (m.item c.start).next
        else m) = m' ∧
      MhParts m₀ xs m' (l ++ c' :: r') F' ∧ c'.start = c.start ∧ c'.used = false ∧
      NoTwoFree r' ∧ HeadUsed r' ∧ blocks true r' = blocks true r ∧ F'.Perm (G ++ freeStarts r') ∧
      ((m' = m ∧ c' = c ∧ r' = r) ∨ (m'.availableSize = g.availableSize ∧ ∃ n ≥ memheapSize,
        c'.size = c.size + n ∧ freeBytes r = n - memheapSize + freeBytes r' ∧
        m.memitemSize (m.item c.start).next = n - memheapSize)) := by
  have hnext := h.rep.next
  have hbehind := (Tiled.mid.mp h.rep.tiled).2.2.2
  cases r with
  | nil =>
    have htail : (m.item c.start).next = m.tail := hnext.trans hbehind
    rw [htail, h.rep.tail_isUsed, if_neg Bool.true_eq_false.mp]
    exact ⟨m, c, [], F, rfl, h, rfl, hc, hr, by simp [HeadUsed], rfl, hF, .inl ⟨rfl, rfl, rfl⟩⟩
  | cons d r =>
    have hd : d ∈ l ++ c :: d :: r :=
      List.mem_append_right _ (List.mem_cons_of_mem _ List.mem_cons_self)
    have hdnext : (m.item c.start).next = d.start := hnext.trans hbehind.1.symm
    rw [hdnext, h.rep.isUsed hd]
    cases hu : d.used with
    | true =>
      rw [if_neg Bool.true_eq_false.mp]
      refine ⟨m, c, d :: r, F, rfl, h, rfl, hc, hr, fun e he => ?_, rfl, hF, .inl ⟨rfl, rfl, rfl⟩⟩
      cases he
      exact hu
    | false =>
      obtain ⟨h1, h2⟩ := noTwoFree_cons.mp hr
      rw [freeStarts_free hu] at hF
      obtain ⟨F₁, F₂, rfl⟩ := List.append_of_mem (hF.mem_iff.mpr
        (List.mem_append_right _ List.mem_cons_self))
      have hperm : (F₁ ++ F₂).Perm (G ++ freeStarts r) :=
        (List.perm_middle.symm.trans (hF.trans List.perm_middle)).cons_inv
      have hsize : m.memitemSize d.start = d.size - memheapSize := by
        have hrep := h.rep
        rw [List.append_cons] at hrep
        exact hrep.memitemSize
      rw [if_pos rfl]
      refine ⟨_, _, _, _, rfl, hg.mergeNext.removeFree, rfl, hc, noTwoFree_setPrev.mpr h2,
        headUsed_setPrev.mpr (h1.resolve_left (by rw [hu]; simp)), ?_, ?_, .inr ⟨?_, d.size,
          (h.rep.tiled.bounds hd).2.2, rfl, ?_, hsize⟩⟩
      · rw [blocks_setPrev, blocks_cons, if_neg (by rw [hu]; simp)]
      · rwa [freeStarts_setPrev]
      · rw [removeFree_availableSize, mergeNext_availableSize]
      · rw [freeBytes_free hu, freeBytes_setPrev]

/-- The search for a place ends, in the free list or at its end. -/
theorem place {a k : ℕ} (hs : m.freeList ∉ F)
    (hb : Between (fun x => (m.item x).nextFree) (fun x => (m.item x).prevFree) a F m.freeList)
    {fuel : ℕ} (hfuel : F.length < fuel) :
    ∃ n ∈ m.freeList :: F, memheapPlace m k fuel (m.item a).nextFree = some n := by
  induction F generalizing a fuel with
  | nil =>
    obtain ⟨fuel, rfl⟩ : ∃ n, fuel = n + 1 := ⟨fuel - 1, by simp at hfuel; omega⟩
    have hend : (m.item a).nextFree = m.freeList := hb.1
    refine ⟨_, List.mem_cons_self, ?_⟩
    rw [memheapPlace, hend, if_neg (not_not.mpr rfl)]
  | cons x F ih =>
    obtain ⟨fuel, rfl⟩ : ∃ n, fuel = n + 1 := ⟨fuel - 1, by simp at hfuel; omega⟩
    obtain ⟨h1, -, h3⟩ := hb
    have hnext : (m.item a).nextFree = x := h1
    have hne : x ≠ m.freeList := fun he => hs (he ▸ List.mem_cons_self)
    rw [memheapPlace, hnext, if_pos hne]
    by_cases hle : k ≤ m.memitemSize x
    · exact ⟨x, List.mem_cons_of_mem _ List.mem_cons_self, if_pos hle⟩
    · rw [if_neg hle]
      obtain ⟨n, hn, he⟩ := ih (fun hm => hs (List.mem_cons_of_mem _ hm)) h3
        (Nat.lt_of_succ_lt_succ hfuel)
      refine ⟨n, ?_, he⟩
      rcases List.mem_cons.mp hn with rfl | hn
      · exact List.mem_cons_self
      · exact List.mem_cons_of_mem _ (List.mem_cons_of_mem _ hn)

/-- **The free block is inserted** into the free list. -/
theorem insert (h : MhParts m₀ xs m l F) (best : Bool) {x : ℕ} (hx : x ∉ m.freeList :: F)
    (hxs : x ∈ xs) (hlen : F.length + 1 < m.poolSize + 2) :
    ∃ m' F', memheapInsert best m x = some m' ∧ MhParts m₀ xs m' l F' ∧ F'.Perm (x :: F) ∧
      m'.availableSize = m.availableSize := by
  have hplace : ∃ n ∈ m.freeList :: F,
      (if best then memheapPlace m (m.memitemSize x) (m.poolSize + 2) (m.item m.freeList).nextFree
        else some (m.item m.freeList).nextFree) = some n := by
    cases best with
    | false => exact ⟨_, Circle.next_mem h.circle List.mem_cons_self, rfl⟩
    | true =>
      rw [if_pos rfl]
      exact place (List.nodup_cons.mp h.circle.nodup).1 h.circle.between (by omega)
  obtain ⟨n, hn, he⟩ := hplace
  obtain ⟨F', hperm, p⟩ := h.insertBefore hn hx hxs
  refine ⟨_, F', ?_, p, hperm, insertBefore_availableSize _ _ _⟩
  unfold memheapInsert
  dsimp only
  rw [he, Option.map_some]

end MhParts

namespace MhWell

open Memheap

variable {m m' : Memheap} {l r : List Cell} {F : List ℕ} {c : Cell}

/-- The assertions of `rt_memheap_free` hold of a used block. -/
theorem free_asserts (h : MhRep m (l ++ c :: r)) (hc : c.used = true) :
    (m.item c.start).magic = memheapMagic + memheapUsed ∧
      (m.item (m.item c.start).next).magic / 2 * 2 = memheapMagic ∧
      (m.item c.start).poolPtr = m.addr := by
  have hmem : c ∈ l ++ c :: r := List.mem_append_right _ List.mem_cons_self
  have hmark := h.mark c hmem
  have hmagic : ∀ {x u}, m.Marked x u → (m.item x).magic / 2 * 2 = memheapMagic := fun {x u} hx => by
    rw [hx.1]
    cases u <;> rfl
  rw [hc] at hmark
  refine ⟨hmark.1, ?_, hmark.2⟩
  rw [h.next]
  rcases h.tiled.stop_mem hmem with he | ⟨d, hd, he⟩
  · rw [he]
    exact hmagic h.tailMark
  · rw [← he]
    exact hmagic (h.mark d hd)

/-- A block that is not among the free ones is not on the free list. -/
theorem not_free (h : MhRep m (l ++ c :: r)) {F : List ℕ}
    (hF : F.Perm (freeStarts l ++ freeStarts r)) : c.start ∉ m.freeList :: F := fun hm => by
  have hb := h.tiled.bounds (List.mem_append_right l (List.mem_cons_self (a := c)))
  have hstop := hb.2.1
  unfold Cell.stop at hstop
  rcases List.mem_cons.mp hm with hm | hm
  · exact ne_freeList h hb.1 (by omega) hm
  · have hlr := hF.subset hm
    rw [← freeStarts_append] at hlr
    obtain ⟨d, hd, -, he⟩ := mem_freeStarts.mp hlr
    exact h.tiled.start_ne (by decide) hd he.symm

/-- Two blocks that become one have the header of one of them in addition. -/
theorem bytes_merged {w f a c e : ℕ} (ha : w ≤ a) (hc : w ≤ c) :
    f + (a - w) + e + (c - w) + w = f + (a + c - w) + e := by omega

/-- **`rt_memheap_free`** of a used block. -/
theorem freed (h : MhWell m l F) (best : Bool) {b : ℕ × ℕ} (hb : b ∈ blocks true l) :
    ∃ m' l' F', rtMemheapFree best m (some (memheapSize + b.1)) = some m' ∧ MhWell m' l' F' ∧
      Frame (heads m l) m m' ∧ (blocks true l).Perm (b :: blocks true l') := by
  obtain ⟨c, hmem, hc, rfl⟩ := mem_blocks.mp hb
  obtain ⟨l, r, rfl⟩ := List.append_of_mem hmem
  obtain ⟨hl, hr, -⟩ := noTwoFree_mid.mp h.noTwoFree
  have hlarge := h.large
  have hold : blocks true (l ++ c :: r) = blocks true l ++ (c.start, c.size) :: blocks true r := by
    rw [blocks_append, blocks_cons, if_pos hc]
  have hav := h.available
  have hF := h.free
  rw [freeStarts_append, freeStarts_used hc] at hF
  rw [freeBytes_append, freeBytes_used hc] at hav
  rw [hold] at hlarge ⊢
  have hmem₂ : ∀ {b}, b ∈ blocks true l ++ blocks true r →
      memheapMiniAlloc + memheapSize ≤ b.2 := fun hb => by
    rcases List.mem_append.mp hb with hb | hb
    · exact hlarge _ (List.mem_append_left _ hb)
    · exact hlarge _ (List.mem_append_right _ (List.mem_cons_of_mem _ hb))
  have p₁ := (h.parts []).markFreed
  obtain ⟨m₁, hm₁⟩ : ∃ m₁, m₁ = m.modify c.start fun i => { i with magic := memheapMagic } := ⟨_, rfl⟩
  rw [← hm₁] at p₁
  obtain ⟨m₂, hm₂⟩ : ∃ m₂, m₂ = m₁.addAvailable (m₁.memitemSize c.start) := ⟨_, rfl⟩
  have p₂ := p₁.addAvailable (m₁.memitemSize c.start)
  rw [← hm₂] at p₂
  have hav₂ : m₂.availableSize = freeBytes l + freeBytes r + (c.size - memheapSize) := by
    have hlt := p₁.rep.freeBytes_lt
    rw [freeBytes_append, freeBytes_free rfl] at hlt
    dsimp only at hlt
    rw [hm₂, addAvailable_availableSize, p₁.rep.memitemSize, hm₁, modify_availableSize, hav]
    dsimp only
    exact Nat.mod_eq_of_lt (by omega)
  have hprev := p₂.rep.prev
  have hptr : memheapSize + c.start - memheapSize = c.start := Nat.add_sub_cancel_left _ _
  unfold rtMemheapFree
  dsimp only
  rw [hptr, if_pos (free_asserts h.toMhRep hc), ← hm₁, ← hm₂]
  have hxs : heads m (l ++ c :: r) ++ [] = heads m (l ++ c :: r) := List.append_nil _
  have hleft : (LastUsed l ∧ m₂.isUsed (m₂.item c.start).prev = true) ∨
      ∃ l₀ a, l = l₀ ++ [a] ∧ a.used = false ∧ (m₂.item c.start).prev = a.start ∧
        m₂.isUsed a.start = false := by
    rcases List.eq_nil_or_concat l with rfl | ⟨l₀, a, rfl⟩
    · left
      refine ⟨by simp [LastUsed], ?_⟩
      exact Eq.trans (congrArg m₂.isUsed hprev) p₂.rep.tail_isUsed
    · rw [List.concat_eq_append] at *
      have hprev' : (m₂.item c.start).prev = a.start := hprev.trans lastStart_concat
      have hau : m₂.isUsed a.start = a.used := p₂.rep.isUsed (by simp)
      cases hu : a.used with
      | true =>
        left
        refine ⟨fun e he => ?_, hprev' ▸ hau.trans hu⟩
        rw [List.getLast?_concat] at he
        cases he
        exact hu
      | false => exact .inr ⟨l₀, a, rfl, hu, hprev', hau.trans hu⟩
  rcases hleft with ⟨hlast, hused⟩ | ⟨l₀, a, rfl, hau, hprev', hused⟩
  · -- the block is inserted into the free list
    obtain ⟨m₃, c', r', F₃, h1, p₃, hs, hu, hr', hhead, hbl, hF₃, hcase⟩ :=
      p₂.mergeRight rfl hr hF (p₂.addAvailable memheapSize)
    dsimp only at h1 hs hcase
    have hav₃ : m₃.availableSize = freeBytes l + (c'.size - memheapSize) + freeBytes r' := by
      rcases hcase with ⟨rfl, rfl, rfl⟩ | ⟨h2, n, h3, h4, h5, -⟩
      · rw [hav₂]
        exact Nat.add_right_comm _ _ _
      · have hlt := p₃.rep.freeBytes_lt
        rw [freeBytes_append, freeBytes_free hu, ← Nat.add_assoc] at hlt
        have hsum : freeBytes l + freeBytes r + (c.size - memheapSize) + memheapSize =
            freeBytes l + (c'.size - memheapSize) + freeBytes r' := by
          rw [h5, h4, ← Nat.add_assoc, bytes_merged h3 (h.tiled.bounds hmem).2.2, Nat.add_comm n]
        rw [h2, addAvailable_availableSize, hav₂, hsum]
        exact Nat.mod_eq_of_lt hlt
    have hnot := not_free p₃.rep hF₃
    rw [hs] at hnot
    have hlen : F₃.length + 1 < m₃.poolSize + 2 := by
      have := p₃.rep.free_length (F := c'.start :: F₃) (by
        rw [freeStarts_append, freeStarts_free hu]
        exact (hF₃.cons _).trans List.perm_middle.symm)
      rw [List.length_cons] at this
      omega
    obtain ⟨m₄, F₄, h2, p₄, hF₄, hav₄⟩ := p₃.insert best hnot
      (hs ▸ p₃.starts c' (by simp)) hlen
    simp only [hused, Bool.true_eq_false, if_false]
    rw [h1]
    have hblocks : blocks true (l ++ c' :: r') = blocks true l ++ blocks true r := by
      rw [blocks_append, blocks_cons, if_neg (by rw [hu]; simp), hbl]
    refine ⟨m₄, _, F₄, h2, ⟨p₄.rep, p₄.circle, ?_, ?_, ?_, fun b hb => ?_⟩, ?_, ?_⟩
    · rw [freeStarts_append, freeStarts_free hu, hs]
      exact hF₄.trans ((hF₃.cons _).trans List.perm_middle.symm)
    · exact noTwoFree_mid.mpr ⟨hl, hr', .inr ⟨hlast, hhead⟩⟩
    · rw [hav₄, freeBytes_append, freeBytes_free hu]
      omega
    · exact hmem₂ (hblocks ▸ hb)
    · exact hxs ▸ p₄.frame
    · rw [hblocks]
      exact List.perm_middle
  · -- the block is merged with the one before it, which is on the free list
    have hassoc : l₀ ++ [a] ++ { c with used := false } :: r =
        l₀ ++ a :: { c with used := false } :: r := List.append_assoc ..
    rw [hassoc] at p₂
    have p₃ := (p₂.addAvailable memheapSize).mergePrev
    obtain ⟨m₃, hm₃⟩ : ∃ m₃, m₃ = (m₂.addAvailable memheapSize).mergePrev c.start := ⟨_, rfl⟩
    have ha24 := (p₂.rep.tiled.bounds (List.mem_append_right l₀ List.mem_cons_self)).2.2
    have hav₃ : m₃.availableSize = m₂.availableSize + memheapSize := by
      have hlt := p₃.rep.freeBytes_lt
      rw [freeBytes_append, freeBytes_free (by exact hau), freeBytes_setPrev] at hlt
      dsimp only at hlt
      rw [freeBytes_append, freeBytes_free hau, freeBytes_nil] at hav₂
      have hc24 := (h.tiled.bounds hmem).2.2
      rw [hm₃, mergePrev_availableSize, addAvailable_availableSize]
      exact Nat.mod_eq_of_lt (by omega)
    obtain ⟨h1, -, h2⟩ := noTwoFree_mid.mp (show NoTwoFree (l₀ ++ a :: []) from hl)
    have h3 : LastUsed l₀ := (h2.resolve_left (by rw [hau]; simp)).1
    have hF₃ : F.Perm ((freeStarts l₀ ++ [a.start]) ++ freeStarts (setPrev a.start r)) := by
      rw [freeStarts_append, freeStarts_free hau] at hF
      rw [freeStarts_setPrev]
      exact hF
    dsimp only at p₃
    rw [← hm₃] at p₃
    obtain ⟨m₄, c', r', F₄, h4, p₄, hs, hu, hr', hhead, hbl, hF₄, hcase⟩ :=
      p₃.mergeRight hau (noTwoFree_setPrev.mpr hr) hF₃ (p₃.addAvailable memheapSize)
    dsimp only at h4 hs hcase
    simp only [hprev', hused, if_true]
    rw [← hm₃, h4]
    have hblocks : blocks true (l₀ ++ c' :: r') = blocks true (l₀ ++ [a]) ++ blocks true r := by
      simp only [blocks_append, blocks_cons, hu, hau, hbl, blocks_setPrev, blocks_nil,
        Bool.false_eq_true, if_false, List.append_nil]
    have hav₄ : m₄.availableSize = freeBytes l₀ + (c'.size - memheapSize) + freeBytes r' := by
      have hc24 := (h.tiled.bounds hmem).2.2
      rw [freeBytes_append, freeBytes_free hau, freeBytes_nil, Nat.add_zero] at hav₂
      rw [hav₂, bytes_merged ha24 hc24] at hav₃
      rw [freeBytes_setPrev] at hcase
      rcases hcase with ⟨rfl, rfl, rfl⟩ | ⟨h6, n, h7, h8, h9, -⟩
      · dsimp only
        rw [freeBytes_setPrev]
        exact hav₃
      · have hlt := p₄.rep.freeBytes_lt
        rw [freeBytes_append, freeBytes_free hu, ← Nat.add_assoc] at hlt
        have hsum : freeBytes l₀ + (a.size + c.size - memheapSize) + freeBytes r + memheapSize =
            freeBytes l₀ + (c'.size - memheapSize) + freeBytes r' := by
          rw [h9, h8, ← bytes_merged (Nat.le_add_right_of_le ha24) h7]
          ac_rfl
        rw [h6, addAvailable_availableSize, hav₃, hsum]
        exact Nat.mod_eq_of_lt hlt
    refine ⟨m₄, _, F₄, rfl, ⟨p₄.rep, p₄.circle, ?_, ?_, ?_, fun b hb => ?_⟩, ?_, ?_⟩
    · rw [freeStarts_append, freeStarts_free hu, hs]
      rw [List.append_assoc] at hF₄
      exact hF₄
    · exact noTwoFree_mid.mpr ⟨h1, hr', .inr ⟨h3, hhead⟩⟩
    · rw [freeBytes_append, freeBytes_free hu]
      omega
    · exact hmem₂ (hblocks ▸ hb)
    · exact hxs ▸ p₄.frame
    · rw [hblocks]
      exact List.perm_middle

end MhWell

/-! ## Resizing -/

/-- A used block has been resized where it lies: it has `n` bytes of data now. -/
structure MhResized (m m' : Memheap) (l l' : List Cell) (F' : List ℕ) (b : ℕ × ℕ) (n : ℕ) :
    Prop where
  well : MhWell m' l' F'
  frame : Memheap.Frame (heads m l ++ heads m l') m m'
  block : ∃ bs cs, blocks true l = bs ++ b :: cs ∧
    blocks true l' = bs ++ (b.1, memheapSize + n) :: cs

namespace MhWell

open Memheap

variable {m m' : Memheap} {l r : List Cell} {F : List ℕ} {c d : Cell} {newsize : ℕ}

/-- What a block takes of the free block behind it. -/
theorem bytes_grown {f c d n w e : ℕ} (hc : w ≤ c) (hn : c - w < n) (hfit : w + n + w ≤ c + d) :
    f + (d - w + e) - (n - (c - w)) = f + (c + d - (w + n) - w + e) := by
  omega

/-- **A block grows** into the free block behind it. -/
theorem grow (h : MhWell m (l ++ c :: d :: r) F) (hc : c.used = true) (hd : d.used = false)
    (h16 : memheapMiniAlloc ≤ newsize) (hal : newsize % rtAlignSize = 0)
    (hlt : c.size - memheapSize < newsize)
    (hfit : d.size - memheapSize + (c.size - memheapSize) > newsize + memheapMiniAlloc) :
    ∃ l' F', MhResized m (memheapGrow m (memheapSize + c.start) c.start newsize
      (c.size - memheapSize)) (l ++ c :: d :: r) l' F' (c.start, c.size) newsize := by
  have hmem : c ∈ l ++ c :: d :: r := List.mem_append_right _ List.mem_cons_self
  have hmem' : d ∈ l ++ c :: d :: r :=
    List.mem_append_right _ (List.mem_cons_of_mem _ List.mem_cons_self)
  have hassoc : l ++ c :: d :: r = (l ++ [c]) ++ d :: r := List.append_cons ..
  have hc24 : 24 ≤ c.size := (h.tiled.bounds hmem).2.2
  have hd24 : 24 ≤ d.size := (h.tiled.bounds hmem').2.2
  have h16' : 16 ≤ newsize := h16
  have hal' : newsize % 8 = 0 := hal
  have hlt' : c.size - 24 < newsize := hlt
  have hspace : d.start + d.size + 24 ≤ 2 ^ 32 := h.toMhRep.stop_le hmem'
  have hfit' : d.size - 24 + (c.size - 24) > newsize + 16 := hfit
  obtain ⟨F₁, F₂, rfl, hperm⟩ := (hassoc ▸ h : MhWell m ((l ++ [c]) ++ d :: r) F).free_mid hd
  obtain ⟨hl, hdr, -⟩ := noTwoFree_mid.mp h.noTwoFree
  obtain ⟨hdr, hr⟩ := noTwoFree_cons.mp hdr
  have hhead : HeadUsed r := hdr.resolve_left (by rw [hd]; simp)
  have hused : ({ c with size := memheapSize + newsize } : Cell).used = true := hc
  obtain ⟨y, hy⟩ : ∃ y, y = c.start + (memheapSize + newsize) := ⟨_, rfl⟩
  have hys : y ∈ heads m (l ++ c :: d :: r) ++ [y] :=
    List.mem_append_right _ (List.mem_singleton.mpr rfl)
  have hbehind : d.start = c.stop := (Tiled.mid.mp h.tiled).2.2.2.1
  have hnext : (m.item c.start).next = d.start := h.toMhRep.next.trans hbehind.symm
  unfold Cell.stop at hbehind
  have hroom : 24 + newsize + 24 ≤ c.size + d.size := by omega
  have hend : c.start + (24 + newsize) < 2 ^ 32 := by omega
  have hmore : sizeSub newsize (c.size - memheapSize) = newsize - (c.size - memheapSize) :=
    sizeSub_of_le (Nat.le_of_lt hlt) (by omega)
  -- the writes, one after the other
  have p₁ := ((h.parts [y]).subAvailable (newsize - (c.size - memheapSize))).updateMax
  obtain ⟨m₁, hm₁⟩ : ∃ m₁, m₁ = (m.subAvailable (newsize - (c.size - memheapSize))).updateMax :=
    ⟨_, rfl⟩
  rw [← hm₁] at p₁
  have hprev : (m₁.item d.start).prev = c.start := by
    have hrep := p₁.rep
    rw [hassoc] at hrep
    exact hrep.prev.trans lastStart_concat
  have p₂ := p₁.removeFree.mergeNext.split (n := memheapSize + newsize) (Nat.le_add_right _ _)
    hroom (show (24 + newsize) % 8 = 0 by omega)
    (hy ▸ hys)
  dsimp only at p₂
  rw [← hy] at p₂
  have hnot : y ∉ m.freeList :: (F₁ ++ F₂) := by
    have hrep := p₂.rep
    rw [List.append_cons] at hrep
    refine p₂.frame.freeList ▸ not_free hrep (hperm.trans ?_)
    rw [freeStarts_append, freeStarts_append, freeStarts_used hc, freeStarts_used hused,
      freeStarts_setPrev, freeStarts_setPrev]
  obtain ⟨F', hF', p₃⟩ := p₂.insertFront (p₂.frame.freeList.symm ▸ hnot) hys
  have hm' : memheapGrow m (memheapSize + c.start) c.start newsize (c.size - memheapSize) =
      (((m₁.removeFree d.start).mergeNext c.start d.start).splitBlock c.start y).insertFront y := by
    have hptr : (memheapSize + c.start + newsize) % 2 ^ 32 = y := by
      rw [hy, Nat.add_comm memheapSize, Nat.add_assoc]
      exact Nat.mod_eq_of_lt hend
    unfold memheapGrow
    dsimp only
    rw [hnext, hptr, hmore, ← hm₁, removeNextPtr_eq, hprev]
  rw [hm']
  obtain ⟨m', hm₃⟩ : ∃ m', m' =
    (((m₁.removeFree d.start).mergeNext c.start d.start).splitBlock c.start y).insertFront y := ⟨_, rfl⟩
  have hav : m'.availableSize = sizeSub m.availableSize (newsize - (c.size - memheapSize)) := by
    rw [hm₃, insertFront_availableSize, splitBlock_availableSize, mergeNext_availableSize,
      removeFree_availableSize, hm₁, updateMax_availableSize, subAvailable_availableSize]
  rw [← hm₃] at p₃ ⊢
  have hb₁ : blocks true (l ++ c :: d :: r) = blocks true l ++ (c.start, c.size) :: blocks true r := by
    simp only [blocks_append, blocks_cons, hc, hd, if_true, Bool.false_eq_true, if_false]
  obtain ⟨l', hl'⟩ : ∃ l', l' = l ++ { c with size := memheapSize + newsize } ::
      { start := y, size := c.size + d.size - (memheapSize + newsize), prev := c.start, used := false } ::
        setPrev y (setPrev c.start r) := ⟨_, rfl⟩
  rw [← hl'] at p₃
  have hb₂ : blocks true l' = blocks true l ++ (c.start, memheapSize + newsize) :: blocks true r := by
    simp only [hl', blocks_append, blocks_cons, blocks_setPrev, hc, if_true, Bool.false_eq_true,
      if_false]
  refine ⟨l', F', ⟨p₃.rep, p₃.circle, ?_, ?_, ?_, fun b hb => ?_⟩, p₃.frame.mono fun x hx => ?_,
    ⟨_, _, hb₁, hb₂⟩⟩
  · refine hF'.trans ?_
    rw [hl', freeStarts_append, freeStarts_used hused, freeStarts_free rfl, freeStarts_setPrev,
      freeStarts_setPrev]
    rw [freeStarts_append, freeStarts_used hc, freeStarts_nil, List.append_nil] at hperm
    exact (hperm.cons y).trans List.perm_middle.symm
  · rw [hl']
    refine noTwoFree_mid.mpr ⟨hl, noTwoFree_cons.mpr ⟨.inr ?_, ?_⟩, .inl hc⟩
    · exact headUsed_setPrev.mpr (headUsed_setPrev.mpr hhead)
    · exact noTwoFree_setPrev.mpr (noTwoFree_setPrev.mpr hr)
  · have h24 : memheapSize = 24 := rfl
    have hbytes := h.freeBytes_lt
    rw [freeBytes_append, freeBytes_used hc, freeBytes_free hd] at hbytes
    rw [hav, h.available, hl', freeBytes_append, freeBytes_used hc, freeBytes_free hd,
      sizeSub_of_le (by omega) hbytes, freeBytes_append, freeBytes_used hused, freeBytes_free rfl,
      freeBytes_setPrev, freeBytes_setPrev]
    exact bytes_grown hc24 hlt hroom
  · have hlarge := h.large
    rw [hb₁] at hlarge
    rw [hb₂] at hb
    rcases List.mem_append.mp hb with hb | hb
    · exact hlarge b (List.mem_append_left _ hb)
    · rcases List.mem_cons.mp hb with rfl | hb
      · exact (Nat.add_le_add_right h16 _).trans (Nat.le_of_eq (Nat.add_comm _ _))
      · exact hlarge b (List.mem_append_right _ (List.mem_cons_of_mem _ hb))
  · rcases List.mem_append.mp hx with hx | hx
    · exact List.mem_append_left _ hx
    · refine List.mem_append_right _ (List.mem_cons_of_mem _ (List.mem_cons_of_mem _ ?_))
      rw [List.mem_singleton.mp hx, hl']
      simp

/-- **A block shrinks**: what is left over becomes a free block. -/
theorem shrink (h : MhWell m (l ++ c :: r) F) (hc : c.used = true) (h16 : memheapMiniAlloc ≤ newsize)
    (hal : newsize % rtAlignSize = 0)
    (hfit : newsize + memheapSize + memheapMiniAlloc < c.size - memheapSize) :
    ∃ l' F', MhResized m (memheapShrink m c.start newsize) (l ++ c :: r) l' F' (c.start, c.size)
      newsize := by
  have h24 : memheapSize = 24 := rfl
  have hmem : c ∈ l ++ c :: r := List.mem_append_right _ List.mem_cons_self
  have h16' : 16 ≤ newsize := h16
  have hal' : newsize % 8 = 0 := hal
  have hspace : c.start + c.size + 24 ≤ 2 ^ 32 := h.toMhRep.stop_le hmem
  have hfit' : newsize + 24 + 16 < c.size - 24 := hfit
  have hroom : 24 + newsize + 24 ≤ c.size := by omega
  have hend : c.start + (24 + newsize) < 2 ^ 32 := by omega
  obtain ⟨hl, hr, -⟩ := noTwoFree_mid.mp h.noTwoFree
  have hused : ({ c with size := memheapSize + newsize } : Cell).used = true := hc
  obtain ⟨y, hy⟩ : ∃ y, y = c.start + (memheapSize + newsize) := ⟨_, rfl⟩
  have hys : y ∈ heads m (l ++ c :: r) ++ [y] := List.mem_append_right _ (List.mem_singleton.mpr rfl)
  have p₁ := (h.parts [y]).split (n := memheapSize + newsize) (Nat.le_add_right _ _)
    hroom (show (24 + newsize) % 8 = 0 by omega) (hy ▸ hys)
  have hassoc : ∀ e s, l ++ { c with size := memheapSize + newsize } :: e :: s =
      (l ++ [{ c with size := memheapSize + newsize }]) ++ e :: s := fun _ _ => List.append_cons ..
  rw [← hy, hassoc] at p₁
  obtain ⟨m₁, hm₁⟩ : ∃ m₁, m₁ = m.splitBlock c.start y := ⟨_, rfl⟩
  rw [← hm₁] at p₁
  have hF : F.Perm (freeStarts (l ++ [{ c with size := memheapSize + newsize }]) ++
      freeStarts (setPrev y r)) := by
    have hF := h.free
    rw [freeStarts_append, freeStarts_used hc] at hF
    rw [freeStarts_append, freeStarts_used hused, freeStarts_nil, List.append_nil,
      freeStarts_setPrev]
    exact hF
  obtain ⟨m₂, e, r', F₂, h1, p₂, hs, hu, hr', hhead, hbl, hF₂, hcase⟩ :=
    p₁.mergeRight rfl (noTwoFree_setPrev.mpr hr) hF
      (p₁.subAvailable (m₁.memitemSize (m₁.item y).next))
  dsimp only at h1 hs hcase
  have hnot := not_free p₂.rep hF₂
  rw [hs] at hnot
  obtain ⟨F', hF', p₃⟩ := p₂.insertFront hnot hys
  have hsize : (m₂.insertFront y).memitemSize y = e.size - memheapSize := by
    have := p₃.rep.memitemSize
    rwa [hs] at this
  have p₄ := p₃.addAvailable ((m₂.insertFront y).memitemSize y)
  obtain ⟨m', hm'⟩ : ∃ m', m' =
    (m₂.insertFront y).addAvailable ((m₂.insertFront y).memitemSize y) := ⟨_, rfl⟩
  have hshrink : memheapShrink m c.start newsize = m' := by
    have hptr : (c.start + newsize + memheapSize) % 2 ^ 32 = y := by
      rw [hy, Nat.add_assoc, Nat.add_comm newsize]
      exact Nat.mod_eq_of_lt hend
    unfold memheapShrink
    dsimp only
    rw [hptr, ← hm₁, h1, hm']
  have hav : m'.availableSize = (m₂.availableSize + (e.size - memheapSize)) % 2 ^ 32 := by
    rw [hm', addAvailable_availableSize, insertFront_availableSize, hsize]
  have hav₁ : m₁.availableSize = freeBytes l + freeBytes r := by
    rw [hm₁, splitBlock_availableSize, h.available, freeBytes_append, freeBytes_used hc]
  rw [hshrink]
  rw [← hm', ← List.append_cons] at p₄
  obtain ⟨l', hl'⟩ : ∃ l', l' = l ++ { c with size := memheapSize + newsize } :: e :: r' := ⟨_, rfl⟩
  rw [← hl'] at p₄
  have hb₁ : blocks true (l ++ c :: r) = blocks true l ++ (c.start, c.size) :: blocks true r := by
    rw [blocks_append, blocks_cons, if_pos hc]
  have hb₂ : blocks true l' = blocks true l ++ (c.start, memheapSize + newsize) :: blocks true r := by
    rw [hl', blocks_append, blocks_cons, if_pos hused, blocks_cons, if_neg (by rw [hu]; simp), hbl,
      blocks_setPrev]
  refine ⟨l', F', ⟨p₄.rep, p₄.circle, ?_, ?_, ?_, fun b hb => ?_⟩, p₄.frame.mono fun x hx => ?_,
    ⟨_, _, hb₁, hb₂⟩⟩
  · refine hF'.trans ((hF₂.cons y).trans ?_)
    rw [hl', freeStarts_append, freeStarts_append, freeStarts_used hused, freeStarts_used hused,
      freeStarts_nil, List.append_nil, freeStarts_free hu, hs]
    exact List.perm_middle.symm
  · rw [hl']
    exact noTwoFree_mid.mpr ⟨hl, noTwoFree_cons.mpr ⟨.inr hhead, hr'⟩, .inl hc⟩
  · have hbytes := p₄.rep.freeBytes_lt
    rw [hl', freeBytes_append, freeBytes_used hused, freeBytes_free hu] at hbytes
    rw [hav, hl', freeBytes_append, freeBytes_used hused, freeBytes_free hu]
    rw [freeBytes_setPrev] at hcase
    have hsum : m₂.availableSize = freeBytes l + freeBytes r' := by
      rcases hcase with ⟨rfl, rfl, rfl⟩ | ⟨h2, n, h3, h4, h5, h6⟩
      · rw [hav₁, freeBytes_setPrev]
      · have hold := h.freeBytes_lt
        rw [freeBytes_append, freeBytes_used hc] at hold
        rw [h6, subAvailable_availableSize, hav₁, sizeSub_of_le (by omega) hold] at h2
        omega
    rw [hsum, Nat.mod_eq_of_lt (by omega)]
    omega
  · have hlarge := h.large
    rw [hb₁] at hlarge
    rw [hb₂] at hb
    rcases List.mem_append.mp hb with hb | hb
    · exact hlarge b (List.mem_append_left _ hb)
    · rcases List.mem_cons.mp hb with rfl | hb
      · exact (Nat.add_le_add_right h16 _).trans (Nat.le_of_eq (Nat.add_comm _ _))
      · exact hlarge b (List.mem_append_right _ (List.mem_cons_of_mem _ hb))
  · rcases List.mem_append.mp hx with hx | hx
    · exact List.mem_append_left _ hx
    · refine List.mem_append_right _ (List.mem_cons_of_mem _ (List.mem_cons_of_mem _ ?_))
      rw [List.mem_singleton.mp hx, hl', ← hs]
      simp

end MhWell

/-! ## Data -/

/-- The data in the blocks `bs` stay as they are. -/
def DataKept (m m' : Memheap) (bs : List (ℕ × ℕ)) : Prop :=
  ∀ b ∈ bs, ∀ a, memheapSize + b.1 ≤ a → a < b.1 + b.2 → m'.byte a = m.byte a

/-- The block `b` has been replaced by one at `p`, for `n` bytes: it has the data of `b`, and the other
blocks are as they were. -/
structure MhReplaced (m m' : Memheap) (l l' : List Cell) (b : ℕ × ℕ) (p n : ℕ) : Prop where
  block : ∃ b' bs, p = memheapSize + b'.1 ∧ n + memheapSize ≤ b'.2 ∧
    (blocks true l).Perm (b :: bs) ∧ (blocks true l').Perm (b' :: bs) ∧ DataKept m m' bs
  copied : ∀ i < n, memheapSize + i < b.2 → m'.byte (p + i) = m.byte (memheapSize + b.1 + i)

namespace MhWell

open Memheap

variable {m m' m₁ : Memheap} {l l' : List Cell} {F : List ℕ} {b : ℕ × ℕ} {u : Bool} {a n : ℕ}

/-- In the data of a block there is no item. -/
theorem outside_heads (h : MhRep m l) (hb : b ∈ blocks u l) (ha : memheapSize + b.1 ≤ a)
    (ha' : a < b.1 + b.2) : ∀ x ∈ heads m l, ¬(x ≤ a ∧ a < x + memheapSize) := by
  have h24 : memheapSize = 24 := rfl
  obtain ⟨c, hc, -, rfl⟩ := mem_blocks.mp hb
  have hbounds := h.tiled.bounds hc
  have hstop := hbounds.2.1
  have hroom := h.room
  have htail : m.tail + memheapSize = m.startAddr + m.poolSize :=
    Nat.sub_add_cancel (hroom.trans (Nat.le_add_left _ _))
  unfold Cell.stop at hstop
  dsimp only at ha ha'
  intro x hx
  rcases List.mem_cons.mp hx with rfl | hx
  · rcases h.outside with hout | hout
    · omega
    · omega
  rcases List.mem_cons.mp hx with rfl | hx
  · omega
  · obtain ⟨d, hd, rfl⟩ := List.mem_map.mp hx
    by_cases hcd : d = c
    · subst hcd
      omega
    · have hd24 := (h.tiled.bounds hd).2.2
      rcases h.tiled.disjoint hc hd (Ne.symm hcd) with h1 | h1
      · unfold Cell.stop at h1
        omega
      · unfold Cell.stop at h1
        omega

/-- The data in a block that is there before and after. -/
theorem kept (h : MhRep m l) (h' : MhRep m' l') (hf : Frame (heads m l ++ heads m l') m m')
    (hb : b ∈ blocks u l) (ha : memheapSize + b.1 ≤ a) (ha' : a < b.1 + b.2) {b' : ℕ × ℕ}
    (hb' : b' ∈ blocks u l') (ha₁ : memheapSize + b'.1 ≤ a) (ha₂ : a < b'.1 + b'.2) :
    m'.byte a = m.byte a := by
  refine hf.byte a fun x hx => ?_
  rcases List.mem_append.mp hx with hx | hx
  · exact outside_heads h hb ha ha' x hx
  · have hheads : heads m' l' = heads m l' := by rw [heads, heads, hf.freeList, hf.tail]
    exact outside_heads h' hb' ha₁ ha₂ x (hheads ▸ hx)

/-- Data are written. -/
theorem writeData (h : MhWell m l F) (byte : ℕ → Option UInt8) :
    MhWell { m with byte := byte } l F :=
  ⟨⟨h.tiled, h.links, h.mark, h.tailMark, h.tailNext, h.aligned, h.room, h.space, h.outside⟩, h.circle,
    h.free, h.noTwoFree, h.available, h.large⟩

/-- A block that has been resized where it lies. -/
theorem resized_replaced {F' : List ℕ} (h : MhRep m l) (hr : MhResized m m' l l' F' b n) :
    MhReplaced m m' l l' b (memheapSize + b.1) n := by
  obtain ⟨bs, cs, h1, h2⟩ := hr.block
  have hb : b ∈ blocks true l := h1 ▸ List.mem_append_right _ List.mem_cons_self
  have hb' : (b.1, memheapSize + n) ∈ blocks true l' :=
    h2 ▸ List.mem_append_right _ List.mem_cons_self
  refine ⟨⟨(b.1, memheapSize + n), bs ++ cs, rfl, Nat.le_of_eq (Nat.add_comm _ _),
    h1 ▸ List.perm_middle, h2 ▸ List.perm_middle, fun b₀ hb₀ a ha ha' => ?_⟩, fun i hi hib => ?_⟩
  · have hmem : b₀ ∈ blocks true l ∧ b₀ ∈ blocks true l' := by
      rw [h1, h2]
      rcases List.mem_append.mp hb₀ with hb₀ | hb₀
      · exact ⟨List.mem_append_left _ hb₀, List.mem_append_left _ hb₀⟩
      · exact ⟨List.mem_append_right _ (List.mem_cons_of_mem _ hb₀),
          List.mem_append_right _ (List.mem_cons_of_mem _ hb₀)⟩
    exact kept h hr.well.toMhRep hr.frame hmem.1 ha ha' hmem.2 ha ha'
  · refine kept h hr.well.toMhRep hr.frame hb (Nat.le_add_right _ _) (by omega) hb' ?_ ?_
    · exact Nat.le_add_right _ _
    · dsimp only
      omega

/-- A block that has moved: its data have been copied, and it has been freed. -/
theorem moved {F₁ : List ℕ} {p : ℕ} (h : MhWell m l F) (ht : MhTaken m m₁ l l' F₁ p n)
    (hb : b ∈ blocks true l) (hlt : b.2 - memheapSize ≤ n) (best : Bool) :
    ∃ m₂ l₂ F₂, rtMemheapFree best (m₁.memcpy p (memheapSize + b.1) (b.2 - memheapSize))
        (some (memheapSize + b.1)) = some m₂ ∧ MhWell m₂ l₂ F₂ ∧ PoolOnly m m₂ ∧
      MhReplaced m m₂ l l₂ b p n := by
  obtain ⟨b', bs, cs, h1, h2, hp, hn⟩ := ht.block
  have hsub : ∀ {b₀}, b₀ ∈ blocks true l → b₀ ∈ blocks true l' := fun hb₀ => by
    rw [h1] at hb₀
    rw [h2]
    rcases List.mem_append.mp hb₀ with hb₀ | hb₀
    · exact List.mem_append_left _ hb₀
    · exact List.mem_append_right _ (List.mem_cons_of_mem _ hb₀)
  have hb' : b' ∈ blocks true l' := h2 ▸ List.mem_append_right _ List.mem_cons_self
  obtain ⟨byte, hbyte⟩ : ∃ byte, byte =
    (m₁.memcpy p (memheapSize + b.1) (b.2 - memheapSize)).byte := ⟨_, rfl⟩
  have hcopy : m₁.memcpy p (memheapSize + b.1) (b.2 - memheapSize) = { m₁ with byte := byte } :=
    hbyte ▸ rfl
  have hread : ∀ a, byte a = if p ≤ a ∧ a < p + (b.2 - memheapSize) then
      m₁.byte (memheapSize + b.1 + (a - p)) else m₁.byte a := fun a => hbyte ▸ rfl
  obtain ⟨m₂, l₂, F₂, h3, h4, h5, h6⟩ := (ht.well.writeData byte).freed best (hsub hb)
  have hafter : ∀ {b₀}, b₀ ∈ blocks true l' → ∀ a, memheapSize + b₀.1 ≤ a → a < b₀.1 + b₀.2 →
      m₂.byte a = byte a := fun hb₀ a ha ha' =>
    h5.byte a (outside_heads (ht.well.writeData byte).toMhRep hb₀ ha ha')
  have hnd := ht.well.tiled.blocks_nodup (by decide) true
  have hperm : (blocks true l').Perm (b' :: (bs ++ cs)) := h2 ▸ List.perm_middle
  have hb₂ : (blocks true l).Perm (b :: (bs ++ cs).erase b) := by
    rw [h1]
    exact List.perm_cons_erase (h1 ▸ hb)
  have hl₂ : (blocks true l₂).Perm (b' :: (bs ++ cs).erase b) := by
    have hall := h6.symm.trans (hperm.trans ((h1 ▸ hb₂).cons b'))
    exact (hall.trans (.swap _ _ _)).cons_inv
  rw [hcopy, h3]
  have hcopied : PoolOnly m₁ { m₁ with byte := byte } := by
    obtain ⟨c', hc', -, hbc⟩ := mem_blocks.mp hb'
    have hin := (ht.well.tiled.bounds hc')
    have hroom := ht.well.room
    have h24 : memheapSize = 24 := rfl
    unfold Cell.stop Memheap.tail at hin
    rw [hbc] at hp hn
    dsimp only at hp hn
    refine ⟨rfl, rfl, rfl, fun _ _ _ => rfl, fun a _ ha => ?_⟩
    exact (hread a).trans (if_neg (by omega))
  have hwritten : PoolOnly m m₂ := (h.toMhRep.poolOnly ht.well.toMhRep ht.frame).trans
    (hcopied.trans (h5.poolOnly ht.well.room (ht.well.writeData byte).toMhRep.heads_in))
  refine ⟨m₂, l₂, F₂, rfl, h4, hwritten, ⟨b', _, hp, hn, hb₂, hl₂, fun b₀ hb₀ a ha ha' => ?_⟩,
    fun i hi hib => ?_⟩
  · have hmem : b₀ ∈ blocks true l := h1 ▸ List.mem_of_mem_erase hb₀
    have hne : b₀.1 ≠ b'.1 := fun he => by
      have hnd' := (hperm.map Prod.fst).nodup_iff.mp hnd
      rw [List.map_cons, List.nodup_cons] at hnd'
      exact hnd'.1 (he ▸ List.mem_map_of_mem (List.mem_of_mem_erase hb₀))
    have hdisj := ht.well.tiled.blocks_disjoint (hsub hmem) hb' hne
    rw [hafter (hsub hmem) a ha ha', hread, if_neg (by omega)]
    exact kept h.toMhRep ht.well.toMhRep ht.frame hmem ha ha' (hsub hmem) ha ha'
  · rw [hafter hb' _ (by omega) (by omega), hread, if_pos (by omega), Nat.add_sub_cancel_left]
    exact kept h.toMhRep ht.well.toMhRep ht.frame hb (Nat.le_add_right _ _) (by omega) (hsub hb)
      (Nat.le_add_right _ _) (by omega)

/-- **`rt_memheap_realloc`** of a used block returns: the block has been freed, the heap is as it was,
or a block of the new size has taken its place. -/
theorem realloc (h : MhWell m l F) (best : Bool) (hb : b ∈ blocks true l) {newsize : ℕ}
    (hnew : m.isUsed (m.item b.1).next = false → newsize ≤ 2 ^ 32 - (rtAlignSize + memheapMiniAlloc)) :
    ∃ q m' l' F', rtMemheapRealloc best m (some (memheapSize + b.1)) newsize = some (q, m') ∧
      MhWell m' l' F' ∧ PoolOnly m m' ∧
      ((newsize = 0 ∧ q = none ∧ (blocks true l).Perm (b :: blocks true l') ∧
          DataKept m m' (blocks true l')) ∨
        (newsize ≠ 0 ∧ q = none ∧ m' = m ∧ l' = l) ∨
        (newsize ≠ 0 ∧ ∃ p, q = some p ∧
          MhReplaced m m' l l' b p (max (rtAlign newsize) memheapMiniAlloc))) := by
  have h24 : memheapSize = 24 := rfl
  unfold rtMemheapRealloc
  by_cases h0 : newsize = 0
  · obtain ⟨m', l', F', h1, h2, h3, h4⟩ := h.freed best hb
    rw [if_pos h0, h1]
    refine ⟨none, m', l', F', rfl, h2, h3.poolOnly h.room h.toMhRep.heads_in,
      .inl ⟨h0, rfl, h4, fun b₀ hb₀ a ha ha' => ?_⟩⟩
    have hmem : b₀ ∈ blocks true l := h4.symm.subset (List.mem_cons_of_mem _ hb₀)
    exact h3.byte a (outside_heads h.toMhRep hmem ha ha')
  rw [if_neg h0]
  dsimp only
  obtain ⟨n, hn⟩ : ∃ n, n = if rtAlign newsize < memheapMiniAlloc then memheapMiniAlloc
    else rtAlign newsize := ⟨_, rfl⟩
  have hal : rtAlign newsize % 8 = 0 := rtAlign_mod newsize
  have hmax : n = max (rtAlign newsize) memheapMiniAlloc := by
    rw [hn]
    split_ifs <;> omega
  have h16 : memheapMiniAlloc ≤ n := hmax ▸ Nat.le_max_right _ _
  have hal8 : n % rtAlignSize = 0 := by
    rw [hn]
    split_ifs
    · decide
    · exact hal
  have hidem : max (rtAlign n) memheapMiniAlloc = n := by
    have hround : rtAlign n = n := by
      rw [hn]
      split_ifs
      · decide
      · exact rtAlign_rtAlign newsize
    rw [hround]
    exact Nat.max_eq_left h16
  rw [← hn, ← hmax]
  obtain ⟨c, hmem, hc, rfl⟩ := mem_blocks.mp hb
  obtain ⟨l, r, rfl⟩ := List.append_of_mem hmem
  have hptr : memheapSize + c.start - memheapSize = c.start := Nat.add_sub_cancel_left _ _
  have hstop := (h.tiled.bounds hmem).2.1
  have hc24 := (h.tiled.bounds hmem).2.2
  have hspace : c.start + c.size + 24 ≤ 2 ^ 32 := h.toMhRep.stop_le hmem
  unfold Cell.stop at hstop
  dsimp only at hnew ⊢
  rw [hptr, h.toMhRep.memitemSize]
  by_cases hgt : n > c.size - memheapSize
  · have hnext : (m.item c.start).next > c.start := by
      rw [h.toMhRep.next]
      unfold Cell.stop
      omega
    rw [if_pos hgt, if_pos hnext]
    by_cases hfree : m.isUsed (m.item c.start).next = false ∧
        (m.memitemSize (m.item c.start).next + (c.size - memheapSize)) % 2 ^ 32 >
          (n + memheapMiniAlloc) % 2 ^ 32
    · rw [if_pos hfree]
      have hbehind := (Tiled.mid.mp h.tiled).2.2.2
      have hle : n + 16 < 2 ^ 32 := by
        have hle : newsize ≤ 2 ^ 32 - 24 := hnew hfree.1
        have hround : rtAlign newsize = (newsize + 7) % 2 ^ 32 - (newsize + 7) % 2 ^ 32 % 8 := rfl
        rw [hmax, hround]
        change max _ 16 + 16 < _
        omega
      cases r with
      | nil =>
        have htail : (m.item c.start).next = m.tail := h.toMhRep.next.trans hbehind
        rw [htail, h.toMhRep.tail_isUsed] at hfree
        exact absurd hfree.1 Bool.true_eq_false.mp
      | cons d r =>
        have hd : d ∈ l ++ c :: d :: r :=
          List.mem_append_right _ (List.mem_cons_of_mem _ List.mem_cons_self)
        have hdnext : (m.item c.start).next = d.start := h.toMhRep.next.trans hbehind.1.symm
        have hdsize : m.memitemSize d.start = d.size - memheapSize := by
          have hrep := h.toMhRep
          rw [List.append_cons] at hrep
          exact hrep.memitemSize
        have hdspace := h.toMhRep.stop_le hd
        have hdstart : d.start = c.start + c.size := hbehind.1
        have hmini : memheapMiniAlloc = 16 := rfl
        rw [hdnext, h.toMhRep.isUsed hd, hdsize, Nat.mod_eq_of_lt hle, Nat.mod_eq_of_lt (by omega)]
          at hfree
        obtain ⟨l', F', hr⟩ := h.grow hc hfree.1 h16 hal8 hgt hfree.2
        exact ⟨_, _, l', F', rfl, hr.well, h.toMhRep.poolOnly hr.well.toMhRep hr.frame,
          .inr (.inr ⟨h0, _, rfl, resized_replaced h.toMhRep hr⟩)⟩
    · rw [if_neg hfree]
      rcases h.alloc n with h1 | ⟨q, m₁, l₁, F₁, h1, ht⟩
      · rw [h1]
        exact ⟨none, m, _, F, rfl, h, .refl m, .inr (.inl ⟨h0, rfl, rfl, rfl⟩)⟩
      · rw [hidem] at ht
        obtain ⟨m₂, l₂, F₂, h2, h3, h5, h4⟩ := h.moved ht hb (Nat.le_of_lt hgt) best
        rw [h1]
        dsimp only [Option.bind_some]
        rw [if_pos hgt, h2]
        exact ⟨some q, m₂, l₂, F₂, rfl, h3, h5, .inr (.inr ⟨h0, q, rfl, h4⟩)⟩
  · have hmini : memheapMiniAlloc = 16 := rfl
    rw [if_neg hgt, Nat.mod_eq_of_lt (by omega : n + memheapSize + memheapMiniAlloc < 2 ^ 32)]
    by_cases hsame : n + memheapSize + memheapMiniAlloc ≥ c.size - memheapSize
    · have hold := List.perm_cons_erase hb
      rw [if_pos hsame]
      refine ⟨_, m, _, F, rfl, h, .refl m, .inr (.inr ⟨h0, _, rfl, ⟨(c.start, c.size), _, rfl, ?_, hold, hold,
        fun _ _ _ _ _ => rfl⟩, fun i _ _ => rfl⟩)⟩
      dsimp only
      omega
    · rw [if_neg hsame]
      obtain ⟨l', F', hr⟩ := h.shrink hc h16 hal8 (Nat.lt_of_not_le hsame)
      exact ⟨_, _, l', F', rfl, hr.well, h.toMhRep.poolOnly hr.well.toMhRep hr.frame,
        .inr (.inr ⟨h0, _, rfl, resized_replaced h.toMhRep hr⟩)⟩

end MhWell

/-! ## The callers -/

/-- The heap and the blocks that the callers have, with the sizes they have asked for. -/
structure MemheapState where
  heap : Memheap
  live : ℕ → Option ℕ

/-- The calls, and a write of a caller to its block. -/
inductive MemheapLabel where
  | alloc (size : BitVec 32)
  | realloc (ptr : Option ℕ) (newsize : BitVec 32)
  | free (ptr : Option ℕ)
  | store (ptr i : ℕ) (b : UInt8)
  deriving DecidableEq, Repr

/-- The block that is passed. -/
def MemheapLabel.ptr : MemheapLabel → Option ℕ
  | .alloc _ => none
  | .realloc ptr _ => ptr
  | .free ptr => ptr
  | .store ptr _ _ => some ptr

/-- A caller passes null or a block that it has, and writes inside of its blocks. -/
def memheapAllowed (s : MemheapState) : MemheapLabel → Bool
  | .alloc _ => true
  | .realloc ptr _ => ownsBlock s.live ptr
  | .free ptr => ownsBlock s.live ptr
  | .store ptr i _ => (s.live ptr).any fun n => i < n

/-- One call, or one write. A block that `rt_memheap_realloc` could not resize stays the caller's. -/
def memheapCall (best : Bool) (s : MemheapState) : MemheapLabel → Option MemheapState
  | .alloc size => (rtMemheapAlloc s.heap size.toNat).map fun r =>
    { heap := r.2, live := takeBlock s.live r.1 size.toNat }
  | .realloc ptr newsize => (rtMemheapRealloc best s.heap ptr newsize.toNat).map fun r =>
    { heap := r.2
      live := if newsize = 0 then dropBlock s.live ptr
        else if r.1 = none then s.live
        else takeBlock (dropBlock s.live ptr) r.1 newsize.toNat }
  | .free ptr => (rtMemheapFree best s.heap ptr).map fun m =>
    { heap := m, live := dropBlock s.live ptr }
  | .store ptr i b =>
    some { s with heap := { s.heap with byte := Function.update s.heap.byte (ptr + i) (some b) } }

def memheapStep (best : Bool) (s : MemheapState) (a : MemheapLabel) : Option MemheapState :=
  if memheapAllowed s a then memheapCall best s a else none

/-- A heap that `rt_memheap_init` has set up. The object is not in the memory, and both fit into the
address space. -/
def MemheapInit (s : MemheapState) : Prop :=
  (∃ addr freeHeader item byte startAddr size, 2 * memheapSize ≤ rtAlignDown size ∧
    size + memheapSize + memheapMiniAlloc ≤ 2 ^ 32 ∧
    startAddr + size ≤ 2 ^ 32 ∧
    (freeHeader + memheapSize ≤ startAddr ∨ startAddr + size ≤ freeHeader) ∧
    s.heap = rtMemheapInit addr freeHeader item byte startAddr size) ∧ ∀ p, s.live p = none

/-- The memory heap as a system. -/
def memheapSystem (best : Bool) : System MemheapState MemheapLabel where
  init := MemheapInit
  step := memheapStep best

/-- The request is below the pool size. -/
def memheapFits (s : MemheapState) : MemheapLabel → Bool
  | .alloc size => size.toNat < s.heap.poolSize
  | .realloc _ newsize => newsize.toNat < s.heap.poolSize
  | _ => true

/-- No sum of sizes that the call computes wraps. -/
def memheapNoWrap (s : MemheapState) : MemheapLabel → Bool
  | .alloc size => size.toNat ≤ 2 ^ 32 - rtAlignSize
  | .realloc ptr newsize => newsize.toNat ≤ 2 ^ 32 - rtAlignSize ∧
    (ptr.all fun p => s.heap.isUsed (s.heap.item (p - memheapSize)).next ||
      newsize.toNat ≤ 2 ^ 32 - (rtAlignSize + memheapMiniAlloc)) = true
  | _ => true

/-- The invariant. -/
def MemheapInv (s : MemheapState) : Prop :=
  s.heap.poolSize + memheapSize + memheapMiniAlloc ≤ 2 ^ 32 ∧ ∃ l F, MhWell s.heap l F ∧
    LiveBlocks memheapSize memheapSize s.live (blocks true l)

theorem rtMemheapInit_well (addr : ℕ) (item : ℕ → MemheapItem) (byte : ℕ → Option UInt8)
    {freeHeader startAddr size : ℕ} (hsize : 2 * memheapSize ≤ rtAlignDown size)
    (hspace : startAddr + size ≤ 2 ^ 32)
    (hout : freeHeader + memheapSize ≤ startAddr ∨ startAddr + size ≤ freeHeader) :
    (rtMemheapInit addr freeHeader item byte startAddr size).poolSize = rtAlignDown size ∧
      MhWell (rtMemheapInit addr freeHeader item byte startAddr size)
        [{ start := startAddr, size := rtAlignDown size - memheapSize
           prev := startAddr + rtAlignDown size - memheapSize, used := false }] [startAddr] := by
  obtain ⟨pool, hpool⟩ : ∃ pool, pool = rtAlignDown size := ⟨_, rfl⟩
  have hle : pool ≤ size := hpool ▸ Nat.sub_le _ _
  have hpool8 : pool % 8 = 0 := hpool ▸ rtAlignDown_mod size
  have h48 : 2 * 24 ≤ pool := hpool ▸ hsize
  have h24 : memheapSize = 24 := rfl
  obtain ⟨tail, htail⟩ : ∃ tail, tail = startAddr + pool - memheapSize := ⟨_, rfl⟩
  have hroom : memheapSize ≤ pool - memheapSize := by omega
  have hend : startAddr + (pool - memheapSize) = tail := by omega
  have hptr : startAddr + (pool - 2 * memheapSize) + memheapSize = tail := by omega
  have haligned : (pool - 24) % 8 = 0 := by omega
  have hspace' : startAddr + pool ≤ 2 ^ 32 := by omega
  have hout' : freeHeader + memheapSize ≤ startAddr ∨ startAddr + pool ≤ freeHeader :=
    hout.imp_right fun h => (Nat.add_le_add_left hle _).trans h
  obtain ⟨m₂, hm₂⟩ : ∃ m₂ : Memheap, m₂ = Memheap.modify (Memheap.modify
    { addr := addr, startAddr := startAddr, poolSize := pool, availableSize := pool - 2 * memheapSize
      maxUsedSize := pool - (pool - 2 * memheapSize), blockList := startAddr, freeList := freeHeader
      item := item, byte := byte } freeHeader fun _ =>
    { magic := memheapMagic, poolPtr := addr, next := 0, prev := 0
      nextFree := freeHeader, prevFree := freeHeader }) startAddr fun _ =>
    { magic := memheapMagic, poolPtr := addr, next := tail, prev := tail
      nextFree := startAddr, prevFree := startAddr } := ⟨_, rfl⟩
  obtain ⟨m, hm⟩ : ∃ m, m = (m₂.insertFront startAddr).modify tail fun _ =>
    { magic := memheapMagic + memheapUsed, poolPtr := addr, next := startAddr, prev := startAddr
      nextFree := 0, prevFree := 0 } := ⟨_, rfl⟩
  have hinit : rtMemheapInit addr freeHeader item byte startAddr size = m := by
    unfold rtMemheapInit
    dsimp only
    rw [← hpool, hptr, ← hm₂, hm]
  have hne : startAddr ≠ freeHeader ∧ tail ≠ freeHeader ∧ startAddr ≠ tail := by omega
  have hlist : m₂.freeList = freeHeader := hm₂ ▸ rfl
  have hs₂ : m₂.item startAddr = { magic := memheapMagic, poolPtr := addr, next := tail
                                   prev := tail, nextFree := startAddr, prevFree := startAddr } := by
    rw [hm₂, Memheap.modify_item, if_pos rfl]
  have hf₂ : m₂.item freeHeader = { magic := memheapMagic, poolPtr := addr, next := 0, prev := 0
                                    nextFree := freeHeader, prevFree := freeHeader } := by
    rw [hm₂, Memheap.modify_item, if_neg hne.1.symm, Memheap.modify_item, if_pos rfl]
  have hfree : (m₂.item m₂.freeList).nextFree = freeHeader := by rw [hlist, hf₂]
  have hf : Memheap.Frame [startAddr, freeHeader, tail] m₂ m := by
    rw [hm]
    refine ((Memheap.Frame.refl _ m₂).insertFront (hlist ▸ hne.1) ?_ ?_ ?_).modify ?_ _
    · simp
    · simp [hlist]
    · simp [hfree]
    · simp
  have hitem : ∀ a ≠ tail, m.item a = { m₂.item a with
      nextFree := if a = freeHeader then startAddr else if a = startAddr then freeHeader
        else (m₂.item a).nextFree
      prevFree := if a = freeHeader then startAddr else if a = startAddr then freeHeader
        else (m₂.item a).prevFree } := fun a ha => by
    rw [hm, Memheap.modify_item, if_neg ha, Memheap.insertFront_item (hlist ▸ hne.1), hfree, hlist]
  have hs : m.item startAddr = { magic := memheapMagic, poolPtr := addr, next := tail, prev := tail
                                 nextFree := freeHeader, prevFree := freeHeader } := by
    rw [hitem _ hne.2.2, hs₂, if_neg hne.1, if_pos rfl]
  have hh : (m.item freeHeader).nextFree = startAddr ∧ (m.item freeHeader).prevFree = startAddr := by
    rw [hitem _ hne.2.1.symm]
    exact ⟨if_pos rfl, if_pos rfl⟩
  have ht : m.item tail = { magic := memheapMagic + memheapUsed, poolPtr := addr, next := startAddr
                            prev := startAddr, nextFree := 0, prevFree := 0 } := by
    rw [hm, Memheap.modify_item, if_pos rfl]
  have hfields : m.addr = addr ∧ m.startAddr = startAddr ∧ m.poolSize = pool ∧
      m.freeList = freeHeader := by
    refine ⟨hf.addr.trans ?_, hf.startAddr.trans ?_, hf.poolSize.trans ?_, hf.freeList.trans hlist⟩
    all_goals rw [hm₂]; rfl
  have htl : m.tail = tail := by rw [Memheap.tail, hfields.2.1, hfields.2.2.1, htail]
  have hav : m.availableSize = pool - 2 * memheapSize := by
    rw [hm, Memheap.modify_availableSize, Memheap.insertFront_availableSize, hm₂]
    rfl
  rw [hinit, ← hpool, ← htail]
  have hrep : MhRep m [{ start := startAddr, size := pool - memheapSize, prev := tail
                         used := false }] := by
    refine ⟨?_, ?_, fun c hc => ?_, ?_, ?_, fun c hc => ?_, ?_, ?_, ?_⟩
    · rw [htl, hfields.2.1]
      exact ⟨rfl, rfl, hroom, hend⟩
    · rw [htl]
      refine ⟨congrArg MemheapItem.prev hs, ?_, congrArg MemheapItem.prev ht⟩
      change (m.item startAddr).next = startAddr + (pool - memheapSize)
      rw [hs, hend]
    · rw [List.mem_singleton.mp hc]
      exact ⟨congrArg MemheapItem.magic hs, (congrArg MemheapItem.poolPtr hs).trans hfields.1.symm⟩
    · rw [htl]
      exact ⟨congrArg MemheapItem.magic ht, (congrArg MemheapItem.poolPtr ht).trans hfields.1.symm⟩
    · rw [htl, ht, hfields.2.1]
    · rw [List.mem_singleton.mp hc]
      exact haligned
    · rw [hfields.2.2.1]
      exact hpool ▸ (Nat.le_of_add_right_le (Nat.two_mul memheapSize ▸ hsize))
    · rw [hfields.2.1, hfields.2.2.1]
      exact hspace'
    · rw [hfields.2.2.2, hfields.2.1, hfields.2.2.1]
      exact hout'
  refine ⟨hfields.2.2.1, hrep, ⟨?_, ?_⟩, .refl _, .singleton _, ?_,
    fun b hb => absurd hb List.not_mem_nil⟩
  · rw [hfields.2.2.2]
    simp [hne.1.symm]
  · rw [hfields.2.2.2]
    refine ⟨hh.1, congrArg MemheapItem.prevFree hs, congrArg MemheapItem.nextFree hs, hh.2⟩
  · rw [hav]
    change pool - 2 * 24 = pool - 24 - 24 + 0
    omega

theorem MemheapInit.inv {s : MemheapState} (h : MemheapInit s) : MemheapInv s := by
  obtain ⟨⟨addr, freeHeader, item, byte, startAddr, size, hsize, hobj, hspace, hout, heq⟩, hlive⟩ := h
  obtain ⟨hpool, hwell⟩ := rtMemheapInit_well addr item byte hsize hspace hout
  rw [← heq] at hpool hwell
  refine ⟨?_, _, _, hwell, .nil, fun hp => ?_, fun b hb => absurd hb List.not_mem_nil⟩
  · have hle : rtAlignDown size ≤ size := Nat.sub_le _ _
    rw [hpool]
    omega
  · rw [hlive] at hp
    cases hp

namespace MemheapInv

open MhWell

variable {best : Bool} {s s' : MemheapState} {m m' : Memheap} {l : List Cell} {F : List ℕ}
  {live : ℕ → Option ℕ}

/-- What a step does: the invariant stays, and the data of the other blocks do, too. -/
structure Keeps (s s' : MemheapState) (p : Option ℕ) : Prop where
  inv : MemheapInv s'
  other : ∀ {q n}, s.live q = some n → p ≠ some q →
    s'.live q = some n ∧ ∀ i < n, s'.heap.byte (q + i) = s.heap.byte (q + i)

theorem round {n : ℕ} (hn : n ≤ 2 ^ 32 - rtAlignSize) : n ≤ max (rtAlign n) memheapMiniAlloc :=
  (le_rtAlign hn).trans (Nat.le_max_left _ _)

/-- `rt_memheap_realloc` rounds the size, and then `rt_memheap_alloc` does. -/
theorem round_twice {n k : ℕ} (hn : n ≤ 2 ^ 32 - rtAlignSize)
    (hk : k = if rtAlign n < memheapMiniAlloc then memheapMiniAlloc else rtAlign n) :
    n ≤ max (rtAlign k) memheapMiniAlloc := by
  refine (round hn).trans ?_
  rw [hk]
  split_ifs with h1
  · exact max_le ((Nat.le_of_lt h1).trans (Nat.le_max_right _ _)) (Nat.le_max_right _ _)
  · rw [rtAlign_rtAlign]

/-- No sum wraps for sizes below the pool size. -/
theorem fits_noWrap (hpool : s.heap.poolSize + memheapSize + memheapMiniAlloc ≤ 2 ^ 32)
    {a : MemheapLabel} (hfit : memheapFits s a = true) : memheapNoWrap s a = true := by
  have h24 : memheapSize = 24 := rfl
  have hmini : memheapMiniAlloc = 16 := rfl
  have h8 : rtAlignSize = 8 := rfl
  cases a with
  | alloc size =>
    have hlt : size.toNat < s.heap.poolSize := of_decide_eq_true hfit
    exact decide_eq_true (by omega)
  | realloc ptr newsize =>
    have hlt : newsize.toNat < s.heap.poolSize := of_decide_eq_true hfit
    have hle : newsize.toNat ≤ 2 ^ 32 - (rtAlignSize + memheapMiniAlloc) := by omega
    refine decide_eq_true ⟨by omega, ?_⟩
    rw [Option.all_eq_true]
    intro p _
    rw [decide_eq_true hle, Bool.or_true]
  | free => rfl
  | store => rfl

/-- The block of a pointer that a caller has. -/
theorem block (hl : LiveBlocks memheapSize memheapSize live (blocks true l)) {p n : ℕ}
    (hp : live p = some n) :
    ∃ b ∈ blocks true l, p = memheapSize + b.1 ∧ n + memheapSize ≤ b.2 := hl.block hp

/-- `rt_memheap_alloc` keeps the invariant. -/
theorem alloc (hpool : m.poolSize + memheapSize + memheapMiniAlloc ≤ 2 ^ 32) (hw : MhWell m l F)
    (hl : LiveBlocks memheapSize memheapSize live (blocks true l)) {size n : ℕ}
    (hn : n ≤ max (rtAlign size) memheapMiniAlloc) {p : Option ℕ}
    (h : rtMemheapAlloc m size = some (p, m')) :
    Keeps { heap := m, live := live } { heap := m', live := takeBlock live p n } none := by
  rcases hw.alloc size with h1 | ⟨q, m₁, l', F', h1, ht⟩
  · rw [h1] at h
    cases h
    exact ⟨⟨hpool, l, F, hw, hl⟩, fun hq _ => ⟨hq, fun _ _ => rfl⟩⟩
  · rw [h1] at h
    cases h
    obtain ⟨b, bs, cs, h2, h3, rfl, h4⟩ := ht.block
    have hperm : (blocks true l').Perm (b :: blocks true l) := by
      rw [h2, h3]
      exact List.perm_middle
    have hnd := ht.well.tiled.blocks_nodup (by decide) true
    refine ⟨⟨ht.frame.poolSize ▸ hpool, l', F', ht.well, hl.alloc hperm hnd
      ((Nat.add_le_add_right hn _).trans h4)⟩, fun {q k} hq _ => ?_⟩
    obtain ⟨b', hb', rfl, h5⟩ := block hl hq
    have hmem : b' ∈ blocks true l' := hperm.symm.subset (List.mem_cons_of_mem _ hb')
    have hne : memheapSize + b'.1 ≠ memheapSize + b.1 := fun he => by
      have hnd' := (hperm.map Prod.fst).nodup_iff.mp hnd
      rw [List.map_cons, List.nodup_cons] at hnd'
      exact hnd'.1 (Nat.add_left_cancel he ▸ List.mem_map_of_mem hb')
    refine ⟨?_, fun i hi => kept hw.toMhRep ht.well.toMhRep ht.frame hb' (Nat.le_add_right _ _)
      (by omega) hmem (Nat.le_add_right _ _) (by omega)⟩
    exact (Function.update_of_ne hne _ _).trans hq

/-- The data of the other blocks. -/
theorem other {bs : List (ℕ × ℕ)} {b : ℕ × ℕ}
    (hl : LiveBlocks memheapSize memheapSize live (blocks true l))
    (hperm : (blocks true l).Perm (b :: bs)) (hk : DataKept m m' bs) {q n : ℕ}
    (hq : live q = some n) (hne : memheapSize + b.1 ≠ q) :
    ∀ i < n, m'.byte (q + i) = m.byte (q + i) := fun i hi => by
  obtain ⟨b', hb', rfl, h1⟩ := block hl hq
  have hmem : b' ∈ bs := by
    rcases List.mem_cons.mp (hperm.subset hb') with rfl | hb'
    · exact absurd rfl hne
    · exact hb'
  exact hk b' hmem _ (Nat.le_add_right _ _) (by omega)

variable (best) in
/-- `rt_memheap_free` keeps the invariant. -/
theorem freed (hpool : m.poolSize + memheapSize + memheapMiniAlloc ≤ 2 ^ 32) (hw : MhWell m l F)
    (hl : LiveBlocks memheapSize memheapSize live (blocks true l)) {p : Option ℕ}
    (hp : ownsBlock live p = true) : ∃ m', rtMemheapFree best m p = some m' ∧
      Keeps { heap := m, live := live } { heap := m', live := dropBlock live p } p := by
  cases p with
  | none => exact ⟨m, rfl, ⟨hpool, l, F, hw, hl⟩, fun hq _ => ⟨hq, fun _ _ => rfl⟩⟩
  | some p =>
    obtain ⟨n, hn⟩ := Option.isSome_iff_exists.mp hp
    obtain ⟨b, hb, rfl, -⟩ := block hl hn
    obtain ⟨m', l', F', h1, h2, h3, h4⟩ := hw.freed best hb
    refine ⟨m', h1, ⟨h3.poolSize ▸ hpool, l', F', h2, hl.free h4⟩, fun {q k} hq hne => ?_⟩
    have hne' : q ≠ memheapSize + b.1 := fun he => hne (he ▸ rfl)
    refine ⟨(Function.update_of_ne hne' _ _).trans hq, other hl h4 (fun b' hb' a ha ha' => ?_) hq
      hne'.symm⟩
    exact h3.byte a (outside_heads hw.toMhRep (h4.symm.subset (List.mem_cons_of_mem _ hb')) ha ha')

variable (best) in
/-- `rt_memheap_realloc` keeps the invariant, and the data. -/
theorem realloc (hpool : m.poolSize + memheapSize + memheapMiniAlloc ≤ 2 ^ 32) (hw : MhWell m l F)
    (hl : LiveBlocks memheapSize memheapSize live (blocks true l)) {p : Option ℕ}
    (hp : ownsBlock live p = true) {n : BitVec 32}
    (hn : memheapNoWrap { heap := m, live := live } (.realloc p n) = true) :
    ∃ q m', rtMemheapRealloc best m p n.toNat = some (q, m') ∧
      Keeps { heap := m, live := live }
        { heap := m'
          live :=
            if n = 0 then dropBlock live p
            else if q = none then live
            else takeBlock (dropBlock live p) q n.toNat } p ∧
      ∀ p' q', p = some p' → q = some q' → n ≠ 0 →
        ∀ i < min (m.memitemSize (p' - memheapSize)) n.toNat, m'.byte (q' + i) = m.byte (p' + i) := by
  obtain ⟨hsize, hbehind⟩ := of_decide_eq_true hn
  have hround := round hsize
  have h0 : n.toNat = 0 ↔ n = 0 :=
    ⟨fun h => BitVec.eq_of_toNat_eq h, fun h => by rw [h]; rfl⟩
  cases p with
  | none =>
    unfold rtMemheapRealloc
    by_cases hz : n = 0
    · rw [if_pos (h0.mpr hz)]
      refine ⟨none, m, rfl, ?_, fun _ _ hp => by cases hp⟩
      rw [if_pos hz]
      exact ⟨⟨hpool, l, F, hw, hl⟩, fun hq _ => ⟨hq, fun _ _ => rfl⟩⟩
    · rw [if_neg fun h => hz (h0.mp h)]
      dsimp only
      obtain ⟨k, hk⟩ : ∃ k, k = if rtAlign n.toNat < memheapMiniAlloc then memheapMiniAlloc
        else rtAlign n.toNat := ⟨_, rfl⟩
      have hle := round_twice hsize hk
      have hcases := hw.alloc k
      have hsome : ∃ q m', rtMemheapAlloc m k = some (q, m') := by
        rcases hcases with h1 | ⟨q, m', -, -, h1, -⟩
        · exact ⟨_, _, h1⟩
        · exact ⟨_, _, h1⟩
      obtain ⟨q, m', h1⟩ := hsome
      have hkeep := alloc hpool hw hl hle h1
      rw [← hk, h1]
      refine ⟨q, m', rfl, ?_, fun _ _ hp => by cases hp⟩
      rw [if_neg hz]
      cases q <;> exact hkeep
  | some p =>
    obtain ⟨k, hk⟩ := Option.isSome_iff_exists.mp hp
    obtain ⟨b, hb, rfl, -⟩ := block hl hk
    have hnew : m.isUsed (m.item b.1).next = false →
        n.toNat ≤ 2 ^ 32 - (rtAlignSize + memheapMiniAlloc) := by
      intro hfree
      rw [Option.all_some, Nat.add_sub_cancel_left, hfree, Bool.false_or] at hbehind
      exact of_decide_eq_true hbehind
    obtain ⟨q, m', l', F', h1, h2, h3, h4⟩ := hw.realloc best hb hnew
    refine ⟨q, m', h1, ?_, ?_⟩
    · rcases h4 with ⟨hz, rfl, hperm, hkept⟩ | ⟨hz, rfl, rfl, rfl⟩ | ⟨hz, q', rfl, hr⟩
      · rw [if_pos (h0.mp hz)]
        refine ⟨⟨h3.poolSize ▸ hpool, l', F', h2, hl.free hperm⟩, fun {q k} hq hne => ?_⟩
        have hne' : q ≠ memheapSize + b.1 := fun he => hne (he ▸ rfl)
        exact ⟨(Function.update_of_ne hne' _ _).trans hq, other hl hperm hkept hq hne'.symm⟩
      · rw [if_neg fun h => hz (h0.mpr h), if_pos rfl]
        exact ⟨⟨hpool, l', F', h2, hl⟩, fun hq _ => ⟨hq, fun _ _ => rfl⟩⟩
      · obtain ⟨b', bs, rfl, h5, h6, h7, h8⟩ := hr.block
        have hnd := h2.tiled.blocks_nodup (by decide) true
        rw [if_neg fun h => hz (h0.mpr h), if_neg (Option.some_ne_none _)]
        refine ⟨⟨h3.poolSize ▸ hpool, l', F', h2, (hl.free h6).alloc h7 hnd
          ((Nat.add_le_add_right hround _).trans h5)⟩, fun {q k} hq hne => ?_⟩
        have hne' : q ≠ memheapSize + b.1 := fun he => hne (he ▸ rfl)
        refine ⟨?_, other hl h6 h8 hq hne'.symm⟩
        obtain ⟨b₀, hb₀, rfl, -⟩ := block hl hq
        have hmem : b₀ ∈ bs := by
          rcases List.mem_cons.mp (h6.subset hb₀) with rfl | hb₀
          · exact absurd rfl hne'
          · exact hb₀
        have hne'' : memheapSize + b₀.1 ≠ memheapSize + b'.1 := fun he => by
          have hnd' := (h7.map Prod.fst).nodup_iff.mp hnd
          rw [List.map_cons, List.nodup_cons] at hnd'
          exact hnd'.1 (Nat.add_left_cancel he ▸ List.mem_map_of_mem hmem)
        exact (Function.update_of_ne hne'' _ _).trans ((Function.update_of_ne hne' _ _).trans hq)
    · rintro p' q' hp' rfl hz i hi
      cases hp'
      rcases h4 with ⟨-, hq, -⟩ | ⟨-, hq, -⟩ | ⟨-, q'', hq, hr⟩
      · cases hq
      · cases hq
      · cases hq
        obtain ⟨c, hc, -, rfl⟩ := mem_blocks.mp hb
        obtain ⟨l₁, r, rfl⟩ := List.append_of_mem hc
        rw [Nat.add_sub_cancel_left, hw.toMhRep.memitemSize] at hi
        refine hr.copied i ((Nat.lt_of_lt_of_le hi (Nat.min_le_right _ _)).trans_le hround) ?_
        have := Nat.lt_of_lt_of_le hi (Nat.min_le_left _ _)
        dsimp only
        omega

/-- A write keeps the invariant. -/
theorem store (hpool : m.poolSize + memheapSize + memheapMiniAlloc ≤ 2 ^ 32) (hw : MhWell m l F)
    (hl : LiveBlocks memheapSize memheapSize live (blocks true l)) {p i n : ℕ} (hp : live p = some n)
    (hi : i < n) (v : UInt8) : Keeps { heap := m, live := live }
      { heap := { m with byte := Function.update m.byte (p + i) (some v) }, live := live }
      (some p) := by
  refine ⟨⟨hpool, l, F, hw.writeData _, hl⟩, fun {q k} hq hne => ⟨hq, fun j hj => ?_⟩⟩
  obtain ⟨b, hb, rfl, h1⟩ := block hl hp
  obtain ⟨b', hb', rfl, h2⟩ := block hl hq
  have hb₁ : b.1 ≠ b'.1 := fun he => hne (congrArg (fun x => some (memheapSize + x)) he)
  have hdisj := hw.tiled.blocks_disjoint hb hb' hb₁
  exact Function.update_of_ne (by omega) _ _

variable (best) in
/-- **Every call returns and keeps the invariant.** -/
theorem step (h : MemheapInv s) {a : MemheapLabel} (ha : memheapAllowed s a = true)
    (hfit : memheapNoWrap s a = true) : ∃ s', memheapStep best s a = some s' ∧ Keeps s s' a.ptr := by
  obtain ⟨hpool, l, F, hw, hl⟩ := h
  unfold memheapStep
  rw [if_pos ha]
  cases a with
  | alloc size =>
    have hround := round (of_decide_eq_true hfit)
    have hsome : ∃ q m', rtMemheapAlloc s.heap size.toNat = some (q, m') := by
      rcases hw.alloc size.toNat with h1 | ⟨q, m', -, -, h1, -⟩
      · exact ⟨_, _, h1⟩
      · exact ⟨_, _, h1⟩
    obtain ⟨q, m', h1⟩ := hsome
    exact ⟨_, congrArg (Option.map _) h1, alloc hpool hw hl hround h1⟩
  | realloc ptr newsize =>
    obtain ⟨q, m', h1, h2, -⟩ := realloc best hpool hw hl ha hfit
    exact ⟨_, congrArg (Option.map _) h1, h2⟩
  | free ptr =>
    obtain ⟨m', h1, h2⟩ := freed best hpool hw hl ha
    exact ⟨_, congrArg (Option.map _) h1, h2⟩
  | store ptr i v =>
    obtain ⟨n, hn, hi⟩ := Option.any_eq_true .. |>.mp ha
    exact ⟨_, rfl, store hpool hw hl hn (of_decide_eq_true hi) v⟩

/-- A call that has returned has kept the invariant. -/
theorem kept_by (h : MemheapInv s) {a : MemheapLabel} (hfit : memheapNoWrap s a = true)
    (hst : memheapStep best s a = some s') : Keeps s s' a.ptr := by
  have ha : memheapAllowed s a = true := by
    unfold memheapStep at hst
    by_contra hna
    rw [if_neg hna] at hst
    cases hst
  obtain ⟨s₁, h₁, hk⟩ := h.step best ha hfit
  rw [hst] at h₁
  exact Option.some.inj h₁ ▸ hk

end MemheapInv

/-! ## The heap in every run -/

/-- What a heap with the callers' blocks promises; `l` are its blocks and `F` the free list. -/
structure MemheapHeap (best : Bool) (s : MemheapState) (l : List Cell) (F : List ℕ) : Prop where
  tiled : Tiled memheapSize s.heap.tail s.heap.startAddr l s.heap.tail
  links : ∀ c ∈ l, (s.heap.item c.start).next = c.stop ∧ (s.heap.item c.start).prev = c.prev ∧
    s.heap.isUsed c.start = c.used
  tail : (s.heap.item s.heap.tail).next = s.heap.startAddr ∧
    (s.heap.item s.heap.tail).prev = lastStart s.heap.tail l ∧ s.heap.isUsed s.heap.tail = true
  circle : s.heap.FreeCircle F
  free : ∀ x, x ∈ F ↔ ∃ c ∈ l, c.used = false ∧ x = c.start
  noTwoFree : NoTwoFree l
  available : s.heap.availableSize =
    ((l.filter fun c => !c.used).map fun c => c.size - memheapSize).sum
  live : ∀ p, s.live p ≠ none ↔ ∃ c ∈ l, c.used = true ∧ p = memheapSize + c.start
  large : ∀ {p n}, s.live p = some n → n ≤ s.heap.memitemSize (p - memheapSize) ∧
    s.heap.startAddr ≤ p ∧ p + s.heap.memitemSize (p - memheapSize) ≤ s.heap.tail
  disjoint : ∀ {p q}, s.live p ≠ none → s.live q ≠ none → p ≠ q →
    p + s.heap.memitemSize (p - memheapSize) ≤ q ∨ q + s.heap.memitemSize (q - memheapSize) ≤ p
  returns : ∀ a, memheapAllowed s a = true → memheapFits s a = true →
    ∃ s', memheapStep best s a = some s'
  keeps : ∀ {a s'}, memheapFits s a = true → memheapStep best s a = some s' →
    ∀ {q n}, s.live q = some n → a.ptr ≠ some q →
      s'.live q = some n ∧ ∀ i < n, s'.heap.byte (q + i) = s.heap.byte (q + i)
  realloc : ∀ {p q m'} {newsize : BitVec 32}, s.live p ≠ none → newsize ≠ 0 →
    newsize.toNat < s.heap.poolSize →
    rtMemheapRealloc best s.heap (some p) newsize.toNat = some (some q, m') →
    ∀ i < min (s.heap.memitemSize (p - memheapSize)) newsize.toNat,
      m'.byte (q + i) = s.heap.byte (p + i)

namespace MemheapInv

variable {best : Bool} {m : Memheap} {l : List Cell} {live : ℕ → Option ℕ}

/-- The callers have the used blocks. -/
theorem live_iff (hl : LiveBlocks memheapSize memheapSize live (blocks true l)) (p : ℕ) :
    live p ≠ none ↔ ∃ c ∈ l, c.used = true ∧ p = memheapSize + c.start := by
  constructor
  · intro hp
    obtain ⟨n, hn⟩ := Option.ne_none_iff_exists'.mp hp
    obtain ⟨b, hb, hpb, -⟩ := hl.block hn
    obtain ⟨c, hc, hu, rfl⟩ := mem_blocks.mp hb
    exact ⟨c, hc, hu, hpb⟩
  · rintro ⟨c, hc, hu, rfl⟩
    exact hl.live _ (mem_blocks.mpr ⟨c, hc, hu, rfl⟩)

/-- The size of a block, as the code computes it. -/
theorem size_eq (h : MhRep m l) {c : Cell} (hc : c ∈ l) :
    m.memitemSize (memheapSize + c.start - memheapSize) = c.size - memheapSize := by
  obtain ⟨l, r, rfl⟩ := List.append_of_mem hc
  rw [Nat.add_sub_cancel_left, h.memitemSize]

end MemheapInv

/-- **Memory heaps.** In every state that calls with sizes below the pool size reach, the blocks tile
the pool up to the tail, the free list has exactly the free ones, no two of them are neighbours,
`available_size` is the sum of their bytes, the callers' blocks are theirs alone and large enough,
every call returns and keeps the data of the other blocks, and `rt_memheap_realloc` keeps the first
bytes of the block. -/
theorem memheap_invariant {best : Bool} {s : MemheapState}
    (hs : (memheapSystem best).Reach memheapFits s) : ∃ l F, MemheapHeap best s l F := by
  have h : MemheapInv s := by
    refine hs.invariant (fun _ => MemheapInit.inv) fun s a s' hI hfit hst => ?_
    exact (hI.kept_by (MemheapInv.fits_noWrap hI.1 hfit) hst).inv
  obtain ⟨hpool, l, F, hw, hl⟩ := id h
  have hmem : ∀ c ∈ l, (s.heap.item c.start).next = c.stop ∧ (s.heap.item c.start).prev = c.prev ∧
      s.heap.isUsed c.start = c.used := fun c hc => by
    obtain ⟨l₁, r, rfl⟩ := List.append_of_mem hc
    exact ⟨hw.toMhRep.next, hw.toMhRep.prev.trans (Tiled.mid.mp hw.tiled).2.1.symm,
      hw.toMhRep.isUsed hc⟩
  refine ⟨l, F, hw.tiled, hmem, ⟨hw.tailNext, hw.links.last, hw.toMhRep.tail_isUsed⟩, hw.circle,
    fun x => hw.free.mem_iff.trans mem_freeStarts, hw.noTwoFree, ?_, MemheapInv.live_iff hl,
    fun {p n} hp => ?_, fun {p q} hp hq hne => ?_, fun a ha hfit => ?_,
    fun {a s'} hfit hst {q n} hq hne => ?_, fun {p q m' n} hp hz hn hr => ?_⟩
  · rw [hw.available, freeBytes, blocks, List.map_map]
    simp only [beq_false]
    rfl
  · obtain ⟨b, hb, rfl, h1⟩ := hl.block hp
    obtain ⟨c, hc, -, rfl⟩ := mem_blocks.mp hb
    have hbounds := hw.tiled.bounds hc
    have hstop := hbounds.2.1
    have hc24 := hbounds.2.2
    unfold Cell.stop at hstop
    dsimp only at h1 ⊢
    rw [MemheapInv.size_eq hw.toMhRep hc]
    omega
  · obtain ⟨c, hc, -, rfl⟩ := (MemheapInv.live_iff hl p).mp hp
    obtain ⟨d, hd, -, rfl⟩ := (MemheapInv.live_iff hl q).mp hq
    have h1 := (hw.tiled.bounds hc).2.2
    have h2 := (hw.tiled.bounds hd).2.2
    have hdisj := hw.tiled.disjoint hc hd fun he => hne (by rw [he])
    rw [MemheapInv.size_eq hw.toMhRep hc, MemheapInv.size_eq hw.toMhRep hd]
    unfold Cell.stop at hdisj
    omega
  · obtain ⟨s', h1, -⟩ := h.step best ha (MemheapInv.fits_noWrap hpool hfit)
    exact ⟨s', h1⟩
  · exact (h.kept_by (MemheapInv.fits_noWrap hpool hfit) hst).other hq hne
  · have hown : ownsBlock s.live (some p) = true := Option.isSome_iff_ne_none.mpr hp
    obtain ⟨q', m₁, h1, -, h2⟩ := MemheapInv.realloc best hpool hw hl hown
      (MemheapInv.fits_noWrap (a := .realloc (some p) n) hpool (decide_eq_true hn))
    rw [hr] at h1
    cases h1
    exact h2 p q rfl rfl hz

/-- A fresh heap, in the 256 bytes from address 4096 on. -/
def memheap256 : MemheapState where
  heap := rtMemheapInit 1024 1040 (fun _ => { magic := 0, poolPtr := 0, next := 0, prev := 0
                                              nextFree := 0, prevFree := 0 }) (fun _ => none) 4096 256
  live _ := none

theorem memheap256_init : MemheapInit memheap256 :=
  ⟨⟨1024, 1040, _, _, 4096, 256, by decide, by decide, by decide, by decide, rfl⟩, fun _ => rfl⟩

/-- A block is moved to grow, with its data; then the blocks before it are free and merged. -/
theorem memheap_invariant_moved : ∃ s, (memheapSystem true).Reach memheapFits s ∧
    (s.live 4120 = none ∧ s.live 4232 = some 50 ∧ s.heap.byte (4232 + 3) = some 7 ∧
      s.heap.availableSize = 104) ∧ ∃ l F, MemheapHeap true s l F := by
  obtain ⟨s, hs, hp⟩ := System.exists_reach (memheapSystem true) memheapFits
    (fun s => s.live 4120 = none ∧ s.live 4232 = some 50 ∧ s.heap.byte (4232 + 3) = some 7 ∧
      s.heap.availableSize = 104) memheap256_init
    [.alloc 20, .store 4120 3 7, .alloc 40, .realloc (some 4120) 50, .free (some 4168)]
    (by decide +kernel)
  exact ⟨s, hs, of_decide_eq_true hp, memheap_invariant hs⟩

end RtThread
