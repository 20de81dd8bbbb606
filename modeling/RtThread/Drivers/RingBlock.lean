import Mathlib.Data.List.Pairwise
import Mathlib.Data.List.Perm.Subperm
import RtThread.Lib.Chain
import RtThread.Lib.Cyclic
import RtThread.Lib.System

/-!
# The ring block buffer of the device drivers

`components/drivers/ipc/ringblk_buf.c`. Blocks of any sizes are cut from the buffer one behind the
other, round and round; a block may be freed at any place of the ring. The descriptors of the blocks
lie in an array; those in use are linked in `blkList` in order of allocation, the others in
`freeList`.

* `Rbb` and its operations `blkAlloc`, `blkPut`, `blkGet`, `blkFree`;
* `Lists m l f`: the lists of the blocks `l` in use and of the free descriptors `f`, whatever was
  allocated; one lemma for each operation;
* `Blocks m l f`: the blocks `l` in use, sorted by address up to a rotation, and the free
  descriptors `f`; one lemma for each operation;
* **`ringBlock_invariant`**: in every run the blocks lie apart inside the buffer in the order of
  their allocation, and `blkGet` returns the first one that is put, each once.
-/

namespace RtThread

/-- `enum rt_rbb_status`. -/
inductive RbbStatus where
  | unused | inited | put | get
  deriving DecidableEq, Repr

/-- `struct rt_rbb_blk`; `buf` is an address. -/
structure RbbBlk where
  status : RbbStatus
  size : ℕ
  buf : ℕ
  next : Option ℕ
  deriving DecidableEq, Repr

/-- `struct rt_rbb`, with the array of blocks; a block is named by its index. The tail is `none`
while it points to the list head. -/
structure Rbb where
  buf : ℕ
  bufSize : ℕ
  blkMaxNum : ℕ
  blk : ℕ → RbbBlk
  blkList : Option ℕ
  tail : Option ℕ
  freeList : Option ℕ

/-- The difference of two pointers as an `rt_size_t`. -/
def ptrDiff (p q : ℕ) : ℕ := (p + (2 ^ 32 - q)) % 2 ^ 32

/-- The pointer that is `n` bytes behind. -/
def ptrAdd (p n : ℕ) : ℕ := (p + n) % 2 ^ 32

namespace Rbb

variable (m : Rbb)

/-- The links between the blocks. -/
def links (i : ℕ) : Option ℕ := (m.blk i).next

/-- Write a block. -/
def setBlk (i : ℕ) (b : RbbBlk) : Rbb := { m with blk := Function.update m.blk i b }

/-- The link of a node of `blk_list`; `none` is the list head. -/
def next : Option ℕ → Option ℕ
  | none => m.blkList
  | some i => (m.blk i).next

/-- Write the link of a node of `blk_list`. -/
def setNext (node x : Option ℕ) : Rbb :=
  match node with
  | none => { m with blkList := x }
  | some i => m.setBlk i { m.blk i with next := x }

/-- `rt_slist_insert` into `free_list`. -/
def freeInsert (i : ℕ) : Rbb :=
  { m.setBlk i { m.blk i with next := m.freeList } with freeList := some i }

/-- The body of the loop of `rt_rbb_init`. -/
def initBlk (i : ℕ) : Rbb :=
  (m.setBlk i { m.blk i with status := .unused, next := none }).freeInsert i

/-- `rt_rbb_init`. -/
def init (buf bufSize : ℕ) (blockSet : ℕ → RbbBlk) (blkMaxNum : ℕ) : Rbb :=
  (List.range blkMaxNum).foldl initBlk
    ⟨buf, bufSize, blkMaxNum, blockSet, none, none, none⟩

/-- `find_empty_blk_in_set`. The loop of `rt_slist_remove` stops at the first entry. Nothing is
returned when the assertion fails. -/
def findEmptyBlkInSet : Option (Option ℕ × Rbb) :=
  match m.freeList with
  | none => some (none, m)
  | some i =>
    if (m.blk i).status = .unused then some (some i, { m with freeList := (m.blk i).next })
    else none

/-- `list_append`. -/
def listAppend (n : ℕ) : Rbb :=
  { (m.setNext m.tail (some n)).setNext (some n) none with tail := some n }

/-- `list_remove`. -/
def listRemove (n : ℕ) : Option Rbb :=
  (findPrev m.links n (m.blkMaxNum + 1) none m.blkList).map fun node =>
    if m.next node = none then m
    else
      { (m.setNext node ((m.next node).bind m.links)).setNext (some n) none with
        tail := if m.tail = some n then node else m.tail }

/-- Append a new block and fill it in. -/
def place (i buf size : ℕ) : Rbb :=
  (m.listAppend i).setBlk i
    { (m.listAppend i).blk i with status := .inited, buf := buf, size := size }

/-- The space for a new block when `blk_list` runs from `head` to `tail`. -/
def space (head tail : RbbBlk) (blkSize : ℕ) : Option ℕ :=
  let stop := ptrAdd tail.buf tail.size
  if head.buf ≤ tail.buf then
    if ptrDiff (ptrAdd m.buf m.bufSize) stop ≥ blkSize then some stop
    else if ptrDiff head.buf m.buf ≥ blkSize then some m.buf
    else none
  else if ptrDiff head.buf stop ≥ blkSize then some stop
  else none

/-- `rt_rbb_blk_alloc`. A descriptor for which there is no space is not put back. -/
def blkAlloc (blkSize : ℕ) : Option (Option ℕ × Rbb) :=
  if blkSize < 2 ^ 24 then
    match m.findEmptyBlkInSet with
    | none => none
    | some (none, m) => some (none, m)
    | some (some i, m) =>
      match m.blkList, m.tail with
      | none, _ => some (some i, m.place i m.buf blkSize)
      | some head, some tail =>
        match m.space (m.blk head) (m.blk tail) blkSize with
        | some buf => some (some i, m.place i buf blkSize)
        | none => some (none, m)
      | some _, none => none
  else none

/-- `rt_rbb_blk_put`. -/
def blkPut (i : ℕ) : Option Rbb :=
  if (m.blk i).status = .inited then some (m.setBlk i { m.blk i with status := .put }) else none

/-- The loop of `rt_rbb_blk_get`. -/
def getLoop : ℕ → Option ℕ → Option (Option ℕ)
  | _, none => some none
  | 0, some _ => none
  | n + 1, some i =>
    if (m.blk i).status = .put then some (some i) else getLoop n (m.blk i).next

/-- `rt_rbb_blk_get`. -/
def blkGet : Option (Option ℕ × Rbb) :=
  match m.getLoop m.blkMaxNum m.blkList with
  | none => none
  | some none => some (none, m)
  | some (some i) => some (some i, m.setBlk i { m.blk i with status := .get })

/-- `rt_rbb_blk_free`. -/
def blkFree (i : ℕ) : Option Rbb :=
  if (m.blk i).status = .unused then none
  else
    (m.listRemove i).map fun m =>
      (m.setBlk i { m.blk i with status := .unused }).freeInsert i

end Rbb

theorem ptrDiff_eq {p q : ℕ} (hq : q ≤ p) (hp : p < 2 ^ 32) : ptrDiff p q = p - q := by
  have h : p + (2 ^ 32 - q) = p - q + 2 ^ 32 := by omega
  rw [ptrDiff, h, Nat.add_mod_right, Nat.mod_eq_of_lt (by omega)]

theorem ptrAdd_eq {p n : ℕ} (h : p + n < 2 ^ 32) : ptrAdd p n = p + n := Nat.mod_eq_of_lt h

namespace Rbb

/-! ## Writes -/

section Writes

variable (m : Rbb) (i j n : ℕ) (b : RbbBlk) (p x : Option ℕ)

@[simp] theorem setBlk_blk_self : (m.setBlk i b).blk i = b := Function.update_self _ _ _

variable {i j} in
theorem setBlk_blk_of_ne (h : j ≠ i) : (m.setBlk i b).blk j = m.blk j :=
  Function.update_of_ne h _ _

theorem links_setBlk : (m.setBlk i b).links = Function.update m.links i b.next := by
  funext j
  by_cases h : j = i
  · rw [h, Function.update_self, links, setBlk_blk_self]
  · rw [Function.update_of_ne h, links, setBlk_blk_of_ne m b h, links]

theorem links_setNext : (m.setNext p x).links = p.elim m.links fun i => Function.update m.links i x := by
  cases p with
  | none => rfl
  | some i => exact links_setBlk m i _

/-- A link is all that is written. -/
theorem setNext_blk : (m.setNext p x).blk j = { m.blk j with next := (m.setNext p x).links j } := by
  cases p with
  | none => rfl
  | some i =>
    by_cases h : j = i
    · rw [links, h, setNext, setBlk_blk_self]
    · rw [links, setNext, setBlk_blk_of_ne m _ h]

@[simp] theorem setNext_freeList : (m.setNext p x).freeList = m.freeList := by cases p <;> rfl

@[simp] theorem setNext_blkMaxNum : (m.setNext p x).blkMaxNum = m.blkMaxNum := by cases p <;> rfl

@[simp] theorem setNext_buf : (m.setNext p x).buf = m.buf := by cases p <;> rfl

@[simp] theorem setNext_bufSize : (m.setNext p x).bufSize = m.bufSize := by cases p <;> rfl

theorem setNext_blkList :
    (m.setNext p x).blkList = p.elim x fun _ => m.blkList := by cases p <;> rfl

end Writes

/-! ## The blocks in use -/

section Inv

variable (m : Rbb)

/-- Block `i` ends before block `j` starts. -/
def Before (i j : ℕ) : Prop := (m.blk i).buf + (m.blk i).size ≤ (m.blk j).buf

/-- The block is not empty and lies in the buffer. -/
def Inside (i : ℕ) : Prop :=
  0 < (m.blk i).size ∧ m.buf ≤ (m.blk i).buf ∧
    (m.blk i).buf + (m.blk i).size ≤ m.buf + m.bufSize

/-- The lists of the blocks `l` in use and of the free descriptors `f`, wherever the blocks lie. -/
structure Lists (l f : List ℕ) : Prop where
  chain : NextChain m.links m.blkList l
  tail : m.tail = l.getLast?
  free : NextChain m.links m.freeList f
  apart : ∀ i ∈ f, i ∉ l
  index : ∀ i ∈ l, i < m.blkMaxNum
  freeIndex : ∀ i ∈ f, i < m.blkMaxNum
  live : ∀ i < m.blkMaxNum, (m.blk i).status ≠ .unused ↔ i ∈ l

/-- **The blocks `l` are in use, the descriptors `f` are free.** -/
structure Blocks (l f : List ℕ) : Prop where
  bound : m.buf + m.bufSize < 2 ^ 32
  chain : NextChain m.links m.blkList l
  tail : m.tail = l.getLast?
  free : NextChain m.links m.freeList f
  apart : ∀ i ∈ f, i ∉ l
  index : ∀ i ∈ l, i < m.blkMaxNum
  freeIndex : ∀ i ∈ f, i < m.blkMaxNum
  live : ∀ i < m.blkMaxNum, (m.blk i).status ≠ .unused ↔ i ∈ l
  inside : ∀ i ∈ l, m.Inside i
  sorted : CyclicSorted m.Before l

theorem Blocks.lists {m : Rbb} {l f : List ℕ} (h : m.Blocks l f) : m.Lists l f :=
  ⟨h.chain, h.tail, h.free, h.apart, h.index, h.freeIndex, h.live⟩

/-- The lists, and where the blocks lie. -/
theorem Lists.blocks {m : Rbb} {l f : List ℕ} (h : m.Lists l f) (hb : m.buf + m.bufSize < 2 ^ 32)
    (hi : ∀ i ∈ l, m.Inside i) (hs : CyclicSorted m.Before l) : m.Blocks l f :=
  ⟨hb, h.chain, h.tail, h.free, h.apart, h.index, h.freeIndex, h.live, hi, hs⟩

end Inv

/-! ## The lists -/

namespace Lists

variable {m : Rbb} {l f l₁ l₂ : List ℕ} {i j n : ℕ}

/-- The loop of `rt_rbb_init` links the descriptors in `free_list`. -/
theorem foldl_initBlk (L : List ℕ) (hL : L.Nodup) (m : Rbb) (f : List ℕ)
    (hf : NextChain m.links m.freeList f) (hd : ∀ i ∈ L, i ∉ f) :
    ∃ m', L.foldl initBlk m = m' ∧ NextChain m'.links m'.freeList (L.reverse ++ f) ∧
      m'.buf = m.buf ∧ m'.bufSize = m.bufSize ∧ m'.blkMaxNum = m.blkMaxNum ∧
      m'.blkList = m.blkList ∧ m'.tail = m.tail ∧
      ∀ i, (m'.blk i).status = if i ∈ L then .unused else (m.blk i).status := by
  induction L generalizing m f with
  | nil => exact ⟨m, rfl, hf, rfl, rfl, rfl, rfl, rfl, fun i => by simp⟩
  | cons a L ih =>
    obtain ⟨haL, hL'⟩ := List.nodup_cons.mp hL
    have haf := hd a List.mem_cons_self
    have hlinks : (m.initBlk a).links = Function.update m.links a m.freeList := by
      rw [initBlk, freeInsert]
      change (Rbb.setBlk _ a _).links = _
      rw [links_setBlk, links_setBlk, Function.update_idem]
      rfl
    have hpush : NextChain (m.initBlk a).links (m.initBlk a).freeList (a :: f) := by
      rw [hlinks]
      exact hf.push haf
    have hstatus : ∀ i, ((m.initBlk a).blk i).status =
        if i = a then .unused else (m.blk i).status := fun i => by
      change (((Rbb.setBlk _ a _).setBlk a _).blk i).status = _
      by_cases h : i = a
      · rw [if_pos h, h, setBlk_blk_self, setBlk_blk_self]
      · rw [if_neg h, setBlk_blk_of_ne _ _ h, setBlk_blk_of_ne _ _ h]
    obtain ⟨m', h1, h2, h3, h4, h5, h6, h7, h8⟩ := ih hL' (m.initBlk a) (a :: f) hpush
      fun i hi => List.not_mem_cons_of_ne_of_not_mem (fun e => haL (e ▸ hi))
        (hd i (List.mem_cons_of_mem _ hi))
    refine ⟨m', h1, ?_, h3, h4, h5, h6, h7, fun i => ?_⟩
    · rw [List.reverse_cons, List.append_assoc, List.singleton_append]
      exact h2
    · rw [h8, hstatus]
      by_cases hi : i ∈ L
      · rw [if_pos hi, if_pos (List.mem_cons_of_mem _ hi)]
      · rw [if_neg hi]
        by_cases h : i = a <;> simp [h, hi]

/-- **`rt_rbb_init`.** -/
theorem init (buf bufSize : ℕ) (blockSet : ℕ → RbbBlk) (n : ℕ) :
    Lists (Rbb.init buf bufSize blockSet n) [] (List.range n).reverse ∧
      (Rbb.init buf bufSize blockSet n).buf = buf ∧
      (Rbb.init buf bufSize blockSet n).bufSize = bufSize ∧
      (Rbb.init buf bufSize blockSet n).blkMaxNum = n := by
  obtain ⟨m, h1, h2, h3, h4, h5, h6, h7, h8⟩ := foldl_initBlk (List.range n) List.nodup_range
    ⟨buf, bufSize, n, blockSet, none, none, none⟩ [] .nil fun _ _ => List.not_mem_nil
  rw [Rbb.init, h1]
  rw [List.append_nil] at h2
  have hfree : ∀ i ∈ (List.range n).reverse, i < m.blkMaxNum := fun i hi => by
    rw [h5]
    exact List.mem_range.mp (List.mem_reverse.mp hi)
  have hlive : ∀ i < m.blkMaxNum, (m.blk i).status ≠ .unused ↔ i ∈ [] := fun i hi => by
    rw [h5] at hi
    rw [h8, if_pos (List.mem_range.mpr hi)]
    simp
  exact ⟨⟨by rw [h6]; exact .nil, h7, h2, fun _ _ => List.not_mem_nil,
    fun i hi => absurd hi List.not_mem_nil, hfree, hlive⟩, h3, h4, h5⟩

/-- **`list_append`** behind a list with the tail `m.tail`. -/
theorem listAppend_chain (hl : NextChain m.links m.blkList l) (ht : m.tail = l.getLast?)
    (hn : n ∉ l) : NextChain (m.listAppend n).links (m.listAppend n).blkList (l ++ [n]) ∧
      ∀ j, j ∉ l → j ≠ n → (m.listAppend n).links j = m.links j := by
  have hlinks : (m.listAppend n).links = l.getLast?.elim (Function.update m.links n none)
      fun b => Function.update (Function.update m.links b (some n)) n none := by
    rw [listAppend]
    change ((m.setNext m.tail (some n)).setNext (some n) none).links = _
    rw [links_setNext, links_setNext, ht]
    cases l.getLast? <;> rfl
  have hhead : (m.listAppend n).blkList = l.getLast?.elim (some n) fun _ => m.blkList := by
    rw [listAppend]
    change ((m.setNext m.tail (some n)).setNext (some n) none).blkList = _
    rw [setNext_blkList, setNext_blkList, ht]
    rfl
  refine ⟨?_, fun j hj hjn => ?_⟩
  · rw [hlinks, hhead]
    exact hl.appendLast hn
  · rw [hlinks]
    cases hg : l.getLast? with
    | none => exact Function.update_of_ne hjn _ _
    | some b =>
      have hjb : j ≠ b := fun e => hj (e ▸ List.mem_of_getLast? hg)
      exact (Function.update_of_ne hjn _ _).trans (Function.update_of_ne hjb _ _)

theorem listAppend_blk (m : Rbb) (n j : ℕ) :
    (m.listAppend n).blk j = { m.blk j with next := (m.listAppend n).links j } := by
  rw [listAppend]
  change ((m.setNext m.tail (some n)).setNext (some n) none).blk j = _
  rw [setNext_blk, setNext_blk]
  rfl

/-- What `place` leaves of the other blocks. -/
theorem place_blk_of_ne (m : Rbb) (buf size : ℕ) (h : j ≠ i) :
    (m.place i buf size).blk j = { m.blk j with next := (m.listAppend i).links j } := by
  rw [place, setBlk_blk_of_ne _ _ h, listAppend_blk]

theorem place_blk_self (m : Rbb) (i buf size : ℕ) :
    (m.place i buf size).blk i = ⟨.inited, size, buf, (m.listAppend i).links i⟩ := by
  rw [place, setBlk_blk_self]
  rfl

theorem place_links (m : Rbb) (i buf size : ℕ) :
    (m.place i buf size).links = (m.listAppend i).links := by
  rw [place, links_setBlk]
  exact Function.update_eq_self _ _

theorem place_buf (m : Rbb) (i buf size : ℕ) : (m.place i buf size).buf = m.buf := by
  change ((m.setNext m.tail (some i)).setNext (some i) none).buf = _
  rw [setNext_buf, setNext_buf]

theorem place_bufSize (m : Rbb) (i buf size : ℕ) :
    (m.place i buf size).bufSize = m.bufSize := by
  change ((m.setNext m.tail (some i)).setNext (some i) none).bufSize = _
  rw [setNext_bufSize, setNext_bufSize]

theorem place_blkMaxNum (m : Rbb) (i buf size : ℕ) :
    (m.place i buf size).blkMaxNum = m.blkMaxNum := by
  change ((m.setNext m.tail (some i)).setNext (some i) none).blkMaxNum = _
  rw [setNext_blkMaxNum, setNext_blkMaxNum]

theorem place_freeList (m : Rbb) (i buf size : ℕ) :
    (m.place i buf size).freeList = m.freeList := by
  change ((m.setNext m.tail (some i)).setNext (some i) none).freeList = _
  rw [setNext_freeList, setNext_freeList]

/-- **A block is placed** at the end of the list. -/
theorem place (h : m.Lists l f) (buf size : ℕ) (hi : i < m.blkMaxNum) (hl : i ∉ l) (hf : i ∉ f) :
    (m.place i buf size).Lists (l ++ [i]) f := by
  obtain ⟨hchain, hlinks⟩ := listAppend_chain h.chain h.tail hl
  refine ⟨?_, ?_, ?_, fun j hj => ?_, fun j hj => ?_, fun j hj => ?_, fun j hj => ?_⟩
  · rw [place_links]
    exact hchain
  · rw [List.getLast?_append_cons, List.getLast?_singleton]
    rfl
  · rw [place_links, place_freeList]
    exact h.free.frame fun j hj => hlinks j (h.apart j hj) fun e => hf (e ▸ hj)
  · have hji : j ≠ i := fun e => hf (e ▸ hj)
    simp [h.apart j hj, hji]
  · rw [place_blkMaxNum]
    rcases List.mem_append.mp hj with hj | hj
    · exact h.index j hj
    · exact List.mem_singleton.mp hj ▸ hi
  · rw [place_blkMaxNum]
    exact h.freeIndex j hj
  · rw [place_blkMaxNum] at hj
    by_cases hji : j = i
    · simp [hji, place_blk_self]
    · rw [place_blk_of_ne m buf size hji]
      simp [h.live j hj, hji]

/-- **The first free descriptor** is taken out of its list. -/
theorem takeFree (h : m.Lists l (i :: f)) :
    m.findEmptyBlkInSet = some (some i, { m with freeList := m.links i }) ∧
      { m with freeList := m.links i }.Lists l f ∧ i < m.blkMaxNum ∧ i ∉ l ∧ i ∉ f ∧
      m.freeList = some i := by
  have hl := h.apart i List.mem_cons_self
  have hi := h.freeIndex i List.mem_cons_self
  have hnd := List.nodup_cons.mp h.free.nodup
  have hfree := h.free
  have hunused : (m.blk i).status = .unused := by
    by_contra hc
    exact hl ((h.live i hi).mp hc)
  generalize hx : m.freeList = x at hfree
  cases hfree with
  | cons ht =>
    refine ⟨?_, ?_, hi, hl, hnd.1, rfl⟩
    · rw [findEmptyBlkInSet, hx]
      exact if_pos hunused
    · exact ⟨h.chain, h.tail, ht, fun j hj => h.apart j (List.mem_cons_of_mem _ hj), h.index,
        fun j hj => h.freeIndex j (List.mem_cons_of_mem _ hj), h.live⟩

/-- **`rt_rbb_blk_alloc`**, case by case: there is no descriptor, it is the first block, or there is
space between the tail and the head or not. -/
theorem blkAlloc_cases (h : m.Lists l f) {size : ℕ} (hsize : size < 2 ^ 24) :
    (f = [] ∧ m.freeList = none ∧ m.blkAlloc size = some (none, m)) ∨
      ∃ i f', f = i :: f' ∧ m.freeList = some i ∧
        ((l = [] ∧ m.blkList = none ∧ m.blkAlloc size =
            some (some i, { m with freeList := m.links i }.place i m.buf size)) ∨
          ∃ a b, m.blkList = some a ∧ m.tail = some b ∧ l.head? = some a ∧ l.getLast? = some b ∧
            m.blkAlloc size = match m.space (m.blk a) (m.blk b) size with
              | some buf => some (some i, { m with freeList := m.links i }.place i buf size)
              | none => some (none, { m with freeList := m.links i })) := by
  cases f with
  | nil =>
    have hnone : m.freeList = none := h.free.eq_nil_iff.mp rfl
    refine .inl ⟨rfl, hnone, ?_⟩
    rw [blkAlloc, if_pos hsize, findEmptyBlkInSet, hnone]
  | cons i f =>
    obtain ⟨htake, -, -, -, -, hfree⟩ := h.takeFree
    refine .inr ⟨i, f, rfl, hfree, ?_⟩
    cases hb : m.blkList with
    | none =>
      refine .inl ⟨h.chain.eq_nil_iff.mpr hb, rfl, ?_⟩
      rw [blkAlloc, if_pos hsize, htake]
      dsimp only
      rw [hb]
    | some a =>
      have ha : l.head? = some a := h.chain.head?.trans hb
      obtain ⟨b, hlast⟩ : ∃ b, l.getLast? = some b := by
        cases l with
        | nil => cases ha
        | cons c l => exact ⟨_, List.getLast?_eq_some_getLast (List.cons_ne_nil c l)⟩
      have ht : m.tail = some b := h.tail.trans hlast
      refine .inr ⟨a, b, rfl, ht, ha, hlast, ?_⟩
      rw [blkAlloc, if_pos hsize, htake]
      dsimp only
      rw [hb, ht]
      rfl

/-- **A block in use changes its status.** -/
theorem setStatus (h : m.Lists l f) (hi : i ∈ l) {st : RbbStatus} (hst : st ≠ .unused) :
    (m.setBlk i { m.blk i with status := st }).Lists l f := by
  have hlinks : (m.setBlk i { m.blk i with status := st }).links = m.links := by
    rw [links_setBlk]
    exact Function.update_eq_self i m.links
  refine ⟨hlinks ▸ h.chain, h.tail, hlinks ▸ h.free, h.apart, h.index, h.freeIndex, fun j hj => ?_⟩
  by_cases hji : j = i
  · rw [hji, setBlk_blk_self]
    exact ⟨fun _ => hi, fun _ => hst⟩
  · rw [setBlk_blk_of_ne _ _ hji]
    exact h.live j hj

theorem length_le (h : m.Lists l f) : l.length ≤ m.blkMaxNum := by
  have hsub : l ⊆ List.range m.blkMaxNum := fun i hi => List.mem_range.mpr (h.index i hi)
  have := (List.Nodup.subperm h.chain.nodup hsub).length_le
  rwa [List.length_range] at this

/-- **The loop of `rt_rbb_blk_get`** looks for the first block that is put. -/
theorem getLoop_spec {x : Option ℕ} (hl : NextChain m.links x l) (hn : l.length ≤ n) :
    m.getLoop n x = some (l.find? fun i => (m.blk i).status = .put) := by
  induction hl generalizing n with
  | nil => cases n <;> rfl
  | @cons i l hl ih =>
    cases n with
    | zero => cases hn
    | succ n =>
      rw [getLoop, List.find?_cons]
      by_cases hi : (m.blk i).status = .put
      · rw [if_pos hi, decide_eq_true hi]
      · rw [if_neg hi, decide_eq_false hi]
        exact ih (Nat.le_of_succ_le_succ hn)

/-- **`rt_rbb_blk_get`** takes the first block that is put. -/
theorem blkGet (h : m.Lists l f) :
    m.blkGet = some (match l.find? fun i => (m.blk i).status = .put with
      | none => (none, m)
      | some i => (some i, m.setBlk i { m.blk i with status := .get })) := by
  rw [Rbb.blkGet, getLoop_spec h.chain h.length_le]
  cases l.find? fun i => (m.blk i).status = .put <;> rfl

/-- The link of the node before `n`. -/
theorem next_getLast? {x : Option ℕ} (hx : m.blkList = x)
    (hl : NextChain m.links x (l₁ ++ n :: l₂)) : m.next l₁.getLast? = some n := by
  rcases List.eq_nil_or_concat l₁ with rfl | ⟨t, b, rfl⟩
  · rw [List.getLast?_nil, Rbb.next, hx, ← hl.head?]
    rfl
  · rw [List.concat_eq_append] at *
    rw [List.append_assoc] at hl
    rw [List.getLast?_append_cons, List.getLast?_singleton]
    exact hl.suffix.head?.symm

/-- **`list_remove`.** -/
theorem listRemove (h : m.Lists l f) (hi : i ∈ l) :
    ∃ m' l₁ l₂, l = l₁ ++ i :: l₂ ∧ m.listRemove i = some m' ∧
      NextChain m'.links m'.blkList (l₁ ++ l₂) ∧ m'.tail = (l₁ ++ l₂).getLast? ∧
      (∀ j, j ∉ l → m'.links j = m.links j) ∧ (∀ j, m'.blk j = { m.blk j with next := m'.links j }) ∧
      m'.buf = m.buf ∧ m'.bufSize = m.bufSize ∧ m'.blkMaxNum = m.blkMaxNum ∧
      m'.freeList = m.freeList := by
  obtain ⟨l₁, l₂, rfl, hp⟩ := h.chain.findPrev_spec none hi (Nat.le_succ_of_le h.length_le)
  rw [Option.or_none] at hp
  have hnext := next_getLast? rfl h.chain
  have hnd := List.nodup_middle.mp h.chain.nodup
  obtain ⟨hn, hnd⟩ := List.nodup_cons.mp hnd
  refine ⟨{ (m.setNext l₁.getLast? (m.links i)).setNext (some i) none with
    tail := if m.tail = some i then l₁.getLast? else m.tail }, l₁, l₂, rfl, ?_, ?_⟩
  · rw [Rbb.listRemove, hp, Option.map_some, hnext, if_neg (Option.some_ne_none i), Option.bind_some]
  have hlinks : ((m.setNext l₁.getLast? (m.links i)).setNext (some i) none).links =
      Function.update (l₁.getLast?.elim m.links fun b => Function.update m.links b (m.links i))
        i none := by
    rw [links_setNext, links_setNext]
    rfl
  have hhead : ((m.setNext l₁.getLast? (m.links i)).setNext (some i) none).blkList =
      l₁.getLast?.elim (m.links i) fun _ => m.blkList := by
    rw [setNext_blkList, setNext_blkList]
    rfl
  refine ⟨?_, ?_, fun j hj => ?_, fun j => ?_, ?_, ?_, ?_, ?_⟩
  · change NextChain ((m.setNext l₁.getLast? (m.links i)).setNext (some i) none).links
      ((m.setNext l₁.getLast? (m.links i)).setNext (some i) none).blkList _
    rw [hlinks, hhead]
    refine h.chain.remove.frame fun j hj => ?_
    have hji : j ≠ i := fun e => hn (e ▸ hj)
    exact Function.update_of_ne hji _ _
  · -- the tail moves when the last block goes
    dsimp only
    rw [h.tail]
    rcases List.eq_nil_or_concat l₂ with rfl | ⟨t, b, rfl⟩
    · rw [List.getLast?_append_cons, List.getLast?_singleton, if_pos rfl, List.append_nil]
    · rw [List.concat_eq_append] at *
      have hb : b ≠ i := fun e => hn (by simp [e])
      have e1 : (l₁ ++ i :: (t ++ [b])).getLast? = some b :=
        List.getLast?_eq_some_iff.mpr ⟨l₁ ++ i :: t, by simp⟩
      have e2 : (l₁ ++ (t ++ [b])).getLast? = some b :=
        List.getLast?_eq_some_iff.mpr ⟨l₁ ++ t, by simp⟩
      rw [e1, e2, if_neg fun e => hb (Option.some.inj e)]
  · change ((m.setNext l₁.getLast? (m.links i)).setNext (some i) none).links j = _
    have hji : j ≠ i := fun e => hj (by simp [e])
    rw [hlinks, Function.update_of_ne hji]
    cases hg : l₁.getLast? with
    | none => rfl
    | some b =>
      have hjb : j ≠ b := fun e => hj (List.mem_append_left _ (e ▸ List.mem_of_getLast? hg))
      exact Function.update_of_ne hjb _ _
  · change ((m.setNext l₁.getLast? (m.links i)).setNext (some i) none).blk j = _
    rw [setNext_blk, setNext_blk]
    rfl
  · exact (setNext_buf _ _ _).trans (setNext_buf _ _ _)
  · exact (setNext_bufSize _ _ _).trans (setNext_bufSize _ _ _)
  · exact (setNext_blkMaxNum _ _ _).trans (setNext_blkMaxNum _ _ _)
  · exact (setNext_freeList _ _ _).trans (setNext_freeList _ _ _)

/-- **`rt_rbb_blk_free`**: the block leaves its place, wherever that is. -/
theorem blkFree (h : m.Lists l f) (hi : i < m.blkMaxNum) {m' : Rbb}
    (hr : m.blkFree i = some m') :
    ∃ l₁ l₂, l = l₁ ++ i :: l₂ ∧ m'.Lists (l₁ ++ l₂) (i :: f) ∧
      (∃ links : ℕ → Option ℕ, ∀ j, j ≠ i → m'.blk j = { m.blk j with next := links j }) ∧
      m'.buf = m.buf ∧ m'.bufSize = m.bufSize ∧ m'.blkMaxNum = m.blkMaxNum := by
  rw [Rbb.blkFree] at hr
  split_ifs at hr with hu
  have hil : i ∈ l := (h.live i hi).mp hu
  have hif : i ∉ f := fun hc => h.apart i hc hil
  obtain ⟨m₁, l₁, l₂, rfl, h1, hchain, htail, hlinks, hblk, hb, hbs, hmax, hfree⟩ := h.listRemove hil
  rw [h1, Option.map_some] at hr
  obtain ⟨hn, hnd⟩ := List.nodup_cons.mp (List.nodup_middle.mp h.chain.nodup)
  have hsub : (l₁ ++ l₂).Sublist (l₁ ++ i :: l₂) :=
    (List.Sublist.refl l₁).append (List.sublist_cons_self i l₂)
  have hne : ∀ j ∈ l₁ ++ l₂, j ≠ i := fun j hj e => hn (e ▸ hj)
  obtain ⟨m₂, hm₂⟩ : ∃ m₂, m₂ =
    (m₁.setBlk i { m₁.blk i with status := .unused }).freeInsert i := ⟨_, rfl⟩
  dsimp only at hr
  rw [← hm₂] at hr
  have hm' := Option.some.inj hr
  subst hm'
  have hl2 : m₂.links = Function.update m₁.links i m₁.freeList := by
    rw [hm₂, freeInsert]
    change (Rbb.setBlk _ i _).links = _
    rw [links_setBlk, links_setBlk, Function.update_idem]
    rfl
  have hblk2 : ∀ j, j ≠ i → m₂.blk j = m₁.blk j := fun j hj => by
    rw [hm₂]
    change ((m₁.setBlk i _).setBlk i _).blk j = _
    rw [setBlk_blk_of_ne _ _ hj, setBlk_blk_of_ne _ _ hj]
  have hunused : (m₂.blk i).status = .unused := by
    rw [hm₂]
    change (((m₁.setBlk i _).setBlk i _).blk i).status = _
    rw [setBlk_blk_self, setBlk_blk_self]
  have hdata : ∀ j, j ≠ i → m₂.blk j = { m.blk j with next := m₁.links j } := fun j hj => by
    rw [hblk2 j hj, hblk]
  have hmem : ∀ j, j ∈ l₁ ++ i :: l₂ ↔ j ∈ l₁ ++ l₂ ∨ j = i := fun j => by
    simp only [List.mem_append, List.mem_cons]
    tauto
  have hmax2 : m₂.blkMaxNum = m.blkMaxNum := by
    rw [hm₂]
    exact hmax
  refine ⟨l₁, l₂, rfl, ⟨?_, ?_, ?_, fun j hj => ?_, fun j hj => ?_, fun j hj => ?_,
    fun j hj => ?_⟩, ⟨m₁.links, hdata⟩, ?_, ?_, hmax2⟩
  · rw [hl2, hm₂]
    exact hchain.frame fun j hj => Function.update_of_ne (hne j hj) _ _
  · rw [hm₂]
    exact htail
  · rw [hl2, hm₂]
    change NextChain _ (some i) _
    rw [hfree]
    exact (h.free.frame fun j hj => hlinks j (h.apart j hj)).push hif
  · rcases List.mem_cons.mp hj with rfl | hj
    · exact hn
    · exact fun hc => h.apart j hj (hsub.subset hc)
  · rw [hmax2]
    exact h.index j (hsub.subset hj)
  · rw [hmax2]
    rcases List.mem_cons.mp hj with rfl | hj
    · exact hi
    · exact h.freeIndex j hj
  · rw [hmax2] at hj
    by_cases hji : j = i
    · rw [hji, hunused]
      exact ⟨fun hc => absurd rfl hc, fun hc => absurd hc hn⟩
    · rw [hdata j hji]
      exact (h.live j hj).trans ((hmem j).trans (or_iff_left hji))
  · rw [hm₂]
    exact hb
  · rw [hm₂]
    exact hbs

end Lists

/-! ## The blocks -/

namespace Blocks

open Rbb.Lists

variable {m : Rbb} {l f l₁ l₂ : List ℕ} {i j n : ℕ}

/-- **`rt_rbb_init`.** -/
theorem init (buf bufSize : ℕ) (hb : buf + bufSize < 2 ^ 32) (blockSet : ℕ → RbbBlk) (n : ℕ) :
    Blocks (Rbb.init buf bufSize blockSet n) [] (List.range n).reverse := by
  obtain ⟨h, hbuf, hsize, -⟩ := Lists.init buf bufSize blockSet n
  refine h.blocks ?_ (fun i hi => absurd hi List.not_mem_nil) (.of_pairwise List.Pairwise.nil)
  rw [hbuf, hsize]
  exact hb

theorem head_le (hp : l.Pairwise m.Before) {a : ℕ} (ha : l.head? = some a) (hj : j ∈ l) :
    (m.blk a).buf ≤ (m.blk j).buf := by
  cases l with
  | nil => cases ha
  | cons b l =>
    cases ha
    rcases List.mem_cons.mp hj with rfl | hj
    · exact Nat.le_refl _
    · exact Nat.le_trans (Nat.le_add_right _ _) ((List.pairwise_cons.mp hp).1 j hj)

theorem le_last (hp : l.Pairwise m.Before) {b : ℕ} (hb : l.getLast? = some b) (hj : j ∈ l) :
    (m.blk j).buf + (m.blk j).size ≤ (m.blk b).buf + (m.blk b).size := by
  obtain ⟨t, rfl⟩ := List.getLast?_eq_some_iff.mp hb
  rcases List.mem_append.mp hj with hj | hj
  · have := (List.pairwise_append.mp hp).2.2 j hj b List.mem_cons_self
    exact Nat.le_trans this (Nat.le_add_right _ _)
  · exact List.mem_singleton.mp hj ▸ Nat.le_refl _

/-- **The space that is found** lies in the buffer, behind one part of the blocks and before the
rest. -/
theorem space_spec (h : m.Blocks l f) {a b size buf : ℕ} (ha : l.head? = some a)
    (hb : l.getLast? = some b) (hs : m.space (m.blk a) (m.blk b) size = some buf) :
    (m.buf ≤ buf ∧ buf + size ≤ m.buf + m.bufSize) ∧
      ∃ l₁ l₂, l = l₁ ++ l₂ ∧ (l₂ ++ l₁).Pairwise m.Before ∧
        (∀ j ∈ l₁, buf + size ≤ (m.blk j).buf) ∧
        ∀ j ∈ l₂, (m.blk j).buf + (m.blk j).size ≤ buf := by
  have hbound := h.bound
  have hma := h.inside a (List.mem_of_head? ha)
  have hmb := h.inside b (List.mem_of_getLast? hb)
  rw [Inside] at hma hmb
  have he1 : ptrDiff (m.buf + m.bufSize) ((m.blk b).buf + (m.blk b).size) =
      m.buf + m.bufSize - ((m.blk b).buf + (m.blk b).size) := ptrDiff_eq hmb.2.2 h.bound
  have he2 : ptrDiff (m.blk a).buf m.buf = (m.blk a).buf - m.buf := ptrDiff_eq hma.2.1 (by omega)
  have hstop : ptrAdd (m.blk b).buf (m.blk b).size = (m.blk b).buf + (m.blk b).size :=
    ptrAdd_eq (by omega)
  rw [space, hstop, ptrAdd_eq hbound, he1, he2] at hs
  rcases h.sorted.sorted_or_wrapped with hp | ⟨a', l₁, l₂, b', rfl, hp⟩
  · -- one turn: behind the tail or at the start of the buffer
    rw [if_pos (head_le hp ha (List.mem_of_getLast? hb))] at hs
    split_ifs at hs with c1 c2
    · cases hs
      refine ⟨by omega, [], l, rfl, by rwa [List.append_nil], fun j hj => ?_, fun j hj => ?_⟩
      · exact absurd hj List.not_mem_nil
      · exact le_last hp hb hj
    · cases hs
      refine ⟨by omega, l, [], (List.append_nil l).symm, hp, fun j hj => ?_, fun j hj => ?_⟩
      · have := head_le hp ha hj
        omega
      · exact absurd hj List.not_mem_nil
  · -- two turns: between the tail and the head
    cases ha
    rw [← List.append_assoc, List.getLast?_append_cons, List.getLast?_singleton] at hb
    cases hb
    have hba : m.Before b a := (List.pairwise_append.mp hp).2.2 b (by simp) a List.mem_cons_self
    rw [Before] at hba
    rw [if_neg (by omega), ptrDiff_eq hba (by omega)] at hs
    split_ifs at hs with c
    cases hs
    refine ⟨by omega, _, _, rfl, hp, fun j hj => ?_, fun j hj => ?_⟩
    · have := head_le (List.pairwise_append.mp hp).2.1 rfl hj
      omega
    · exact le_last (List.pairwise_append.mp hp).1 (by simp) hj

/-- Only links are written while a block is placed, so the others stay in order. -/
theorem place_sorted {buf size : ℕ} (hl : i ∉ l)
    (hs : ∃ l₁ l₂, l = l₁ ++ l₂ ∧ (l₂ ++ l₁).Pairwise m.Before ∧
      (∀ j ∈ l₁, buf + size ≤ (m.blk j).buf) ∧
      ∀ j ∈ l₂, (m.blk j).buf + (m.blk j).size ≤ buf) :
    CyclicSorted (m.place i buf size).Before (l ++ [i]) := by
  obtain ⟨l₁, l₂, rfl, hp, h1, h2⟩ := hs
  have hne : ∀ j ∈ l₂ ++ l₁, j ≠ i := fun j hj e => hl (by
    rw [List.mem_append] at hj ⊢
    exact e ▸ hj.symm)
  refine .append (hp.imp_of_mem fun {j k} hj hk hjk => ?_) (fun j hj => ?_) fun j hj => ?_
  · rw [Before, place_blk_of_ne m buf size (hne j hj), place_blk_of_ne m buf size (hne k hk)]
    exact hjk
  · rw [Before, place_blk_self,
      place_blk_of_ne m buf size (hne j (List.mem_append_right _ hj))]
    exact h1 j hj
  · rw [Before, place_blk_self,
      place_blk_of_ne m buf size (hne j (List.mem_append_left _ hj))]
    exact h2 j hj

/-- **A block is placed** where it lies inside and in order. -/
theorem place (h : m.Blocks l f) {buf size : ℕ} (hi : i < m.blkMaxNum) (hl : i ∉ l) (hf : i ∉ f)
    (hin : 0 < size ∧ m.buf ≤ buf ∧ buf + size ≤ m.buf + m.bufSize)
    (hs : CyclicSorted (m.place i buf size).Before (l ++ [i])) :
    (m.place i buf size).Blocks (l ++ [i]) f := by
  refine (h.lists.place buf size hi hl hf).blocks ?_ (fun j hj => ?_) hs
  · rw [place_buf, place_bufSize]
    exact h.bound
  · rw [Inside, place_buf, place_bufSize]
    rcases List.mem_append.mp hj with hj | hj
    · rw [place_blk_of_ne m buf size fun e : j = i => hl (e ▸ hj)]
      exact h.inside j hj
    · rw [List.mem_singleton.mp hj, place_blk_self]
      exact hin

/-- **`rt_rbb_blk_alloc`**: it appends a block or leaves the blocks as they are. The first block is
not compared with the buffer. -/
theorem blkAlloc (h : m.Blocks l f) {size : ℕ} (h0 : 0 < size)
    (hsize : m.blkList = none → size ≤ m.bufSize) {r : Option ℕ} {m' : Rbb}
    (hr : m.blkAlloc size = some (r, m')) :
    (r = none ∧ (∃ f', m'.Blocks l f') ∧ m'.blk = m.blk) ∨
      ∃ i, r = some i ∧ i ∉ l ∧ (∃ f', m'.Blocks (l ++ [i]) f') ∧
        (m'.blk i).status = .inited ∧ ∀ j, j ≠ i → (m'.blk j).status = (m.blk j).status := by
  have hlt : size < 2 ^ 24 := by
    by_contra hc
    rw [Rbb.blkAlloc, if_neg hc] at hr
    cases hr
  rcases h.lists.blkAlloc_cases hlt with ⟨rfl, -, he⟩ | ⟨i, f, rfl, -, hcases⟩
  · rw [he] at hr
    cases hr
    exact .inl ⟨rfl, ⟨_, h⟩, rfl⟩
  obtain ⟨-, hl', hi, hl, hf, -⟩ := h.lists.takeFree
  obtain ⟨m₁, hm₁⟩ : ∃ m₁, m₁ = { m with freeList := m.links i } := ⟨_, rfl⟩
  have h₁ : m₁.Blocks l f := by
    rw [hm₁]
    exact hl'.blocks h.bound h.inside h.sorted
  -- the block is placed at `buf`
  have hplace : ∀ buf, (m.buf ≤ buf ∧ buf + size ≤ m.buf + m.bufSize) →
      (∃ l₁ l₂, l = l₁ ++ l₂ ∧ (l₂ ++ l₁).Pairwise m.Before ∧
        (∀ j ∈ l₁, buf + size ≤ (m.blk j).buf) ∧
        ∀ j ∈ l₂, (m.blk j).buf + (m.blk j).size ≤ buf) →
      some (some i, m₁.place i buf size) = some (r, m') →
      ∃ i, r = some i ∧ i ∉ l ∧ (∃ f', m'.Blocks (l ++ [i]) f') ∧
        (m'.blk i).status = .inited ∧ ∀ j, j ≠ i → (m'.blk j).status = (m.blk j).status := by
    intro buf hin hgap he
    cases he
    have hi₁ : i < m₁.blkMaxNum := by
      rw [hm₁]
      exact hi
    have hin₁ : 0 < size ∧ m₁.buf ≤ buf ∧ buf + size ≤ m₁.buf + m₁.bufSize := by
      rw [hm₁]
      exact ⟨h0, hin⟩
    refine ⟨i, rfl, hl, ⟨f, h₁.place hi₁ hl hf hin₁ (place_sorted hl ?_)⟩, ?_, fun j hj => ?_⟩
    · rw [hm₁]
      exact hgap
    · rw [place_blk_self]
    · rw [place_blk_of_ne _ _ _ hj, hm₁]
  rw [← hm₁] at hcases
  rcases hcases with ⟨hnil, hb, he⟩ | ⟨a, b, -, -, ha, hb, he⟩
  · rw [he] at hr
    have hfit := hsize hb
    refine .inr (hplace m.buf ⟨Nat.le_refl _, by omega⟩ ⟨[], [], hnil, ?_⟩ hr)
    exact ⟨List.Pairwise.nil, fun j hj => absurd hj List.not_mem_nil,
      fun j hj => absurd hj List.not_mem_nil⟩
  · cases hs : m.space (m.blk a) (m.blk b) size with
    | none =>
      rw [he, hs] at hr
      cases hr
      exact .inl ⟨rfl, ⟨f, h₁⟩, by rw [hm₁]⟩
    | some buf =>
      rw [he, hs] at hr
      obtain ⟨hin, hgap⟩ := h.space_spec ha hb hs
      exact .inr (hplace buf hin hgap hr)

/-- **A block in use changes its status.** -/
theorem setStatus (h : m.Blocks l f) (hi : i ∈ l) {st : RbbStatus} (hst : st ≠ .unused) :
    (m.setBlk i { m.blk i with status := st }).Blocks l f := by
  have hdata : ∀ j, ((m.setBlk i { m.blk i with status := st }).blk j).buf = (m.blk j).buf ∧
      ((m.setBlk i { m.blk i with status := st }).blk j).size = (m.blk j).size := fun j => by
    by_cases hj : j = i
    · rw [hj, setBlk_blk_self]
      exact ⟨rfl, rfl⟩
    · rw [setBlk_blk_of_ne _ _ hj]
      exact ⟨rfl, rfl⟩
  have hbefore : (m.setBlk i { m.blk i with status := st }).Before = m.Before := by
    funext j k
    rw [Before, (hdata j).1, (hdata j).2, (hdata k).1, ← Before]
  refine (h.lists.setStatus hi hst).blocks h.bound (fun j hj => ?_) (hbefore ▸ h.sorted)
  rw [Inside, (hdata j).1, (hdata j).2]
  exact h.inside j hj

/-- **`rt_rbb_blk_free`**: the block leaves its place, wherever that is. -/
theorem blkFree (h : m.Blocks l f) (hi : i < m.blkMaxNum) {m' : Rbb}
    (hr : m.blkFree i = some m') :
    ∃ l₁ l₂, l = l₁ ++ i :: l₂ ∧ m'.Blocks (l₁ ++ l₂) (i :: f) ∧
      ∀ j, j ≠ i → (m'.blk j).status = (m.blk j).status := by
  obtain ⟨l₁, l₂, rfl, hl, ⟨links, hdata⟩, hb, hbs, -⟩ := h.lists.blkFree hi hr
  have hn := (List.nodup_cons.mp (List.nodup_middle.mp h.chain.nodup)).1
  have hsub : (l₁ ++ l₂).Sublist (l₁ ++ i :: l₂) :=
    (List.Sublist.refl l₁).append (List.sublist_cons_self i l₂)
  have hne : ∀ j ∈ l₁ ++ l₂, j ≠ i := fun j hj e => hn (e ▸ hj)
  refine ⟨l₁, l₂, rfl, hl.blocks ?_ (fun j hj => ?_) ?_, fun j hj => by rw [hdata j hj]⟩
  · rw [hb, hbs]
    exact h.bound
  · have hin := h.inside j (hsub.subset hj)
    rw [Inside] at hin ⊢
    rw [hdata j (hne j hj), hb, hbs]
    exact hin
  · obtain ⟨k₁, k₂, hk, hp⟩ := h.sorted.sublist hsub
    refine ⟨k₁, k₂, hk, hp.imp_of_mem fun {j k} hj hk' hjk => ?_⟩
    have hmem' : ∀ j ∈ k₂ ++ k₁, j ∈ l₁ ++ l₂ := fun j hj => by
      rw [hk]
      exact List.mem_append.mpr (List.mem_append.mp hj).symm
    rw [Before, hdata j (hne j (hmem' j hj)), hdata k (hne k (hmem' k hk'))]
    exact hjk

end Blocks

end Rbb

/-! ## Runs -/

/-- A call of the interface, with its arguments. -/
inductive RbbCall where
  | alloc (blkSize : ℕ)
  | put (i : ℕ)
  | get
  | free (i : ℕ)
  deriving DecidableEq, Repr

/-- The buffer with a record of its use: the number of the allocation that returned each block, how
many there were, and the numbers of the blocks that `blkGet` returned, the latest first. -/
structure RbbState where
  rbb : Rbb
  num : ℕ → ℕ
  count : ℕ
  got : List ℕ

namespace RbbState

variable (s : RbbState)

/-- Blocks of `1 .. bufSize` bytes are allocated, and descriptors of the array are used. -/
def step : RbbCall → Option RbbState
  | .alloc blkSize =>
    if 1 ≤ blkSize ∧ blkSize ≤ s.rbb.bufSize then
      match s.rbb.blkAlloc blkSize with
      | none => none
      | some (none, m) => some { s with rbb := m }
      | some (some i, m) =>
        some { s with rbb := m, num := Function.update s.num i s.count, count := s.count + 1 }
    else none
  | .put i =>
    if i < s.rbb.blkMaxNum then (s.rbb.blkPut i).map fun m => { s with rbb := m } else none
  | .get =>
    match s.rbb.blkGet with
    | none => none
    | some (none, m) => some { s with rbb := m }
    | some (some i, m) => some { s with rbb := m, got := s.num i :: s.got }
  | .free i =>
    if i < s.rbb.blkMaxNum then (s.rbb.blkFree i).map fun m => { s with rbb := m } else none

/-- A buffer after `rt_rbb_init`, anywhere below `2 ^ 32`. -/
def Start : Prop :=
  ∃ buf bufSize blockSet blkMaxNum, buf + bufSize < 2 ^ 32 ∧
    s.rbb = Rbb.init buf bufSize blockSet blkMaxNum ∧ s.count = 0 ∧ s.got = []

/-- The block is allocated and not freed. -/
def Live (i : ℕ) : Prop := i < s.rbb.blkMaxNum ∧ (s.rbb.blk i).status ≠ .unused

/-- The block is put and not got. -/
def IsPut (i : ℕ) : Prop := i < s.rbb.blkMaxNum ∧ (s.rbb.blk i).status = .put

/-- The blocks of the list have increasing allocation numbers; no number was returned twice, and
those of the blocks that are not got were not returned. -/
structure Order (l : List ℕ) : Prop where
  sorted : l.Pairwise fun i j => s.num i < s.num j
  count : ∀ i ∈ l, s.num i < s.count
  got_count : ∀ n ∈ s.got, n < s.count
  got_nodup : s.got.Nodup
  fresh : ∀ i ∈ l, (s.rbb.blk i).status ≠ .get → s.num i ∉ s.got

end RbbState

/-- The runs of the ring block buffer. -/
def rbbSystem : System RbbState RbbCall where
  init := RbbState.Start
  step := RbbState.step

namespace RbbState

variable {s s' : RbbState} {l f : List ℕ} {i : ℕ}

/-- An allocation is the latest one. -/
theorem Order.alloc (h : s.Order l) (hi : i ∉ l) {m : Rbb}
    (hst : ∀ j, j ≠ i → (m.blk j).status = (s.rbb.blk j).status) :
    Order { s with rbb := m, num := Function.update s.num i s.count, count := s.count + 1 }
      (l ++ [i]) := by
  have hne : ∀ j ∈ l, j ≠ i := fun j hj e => hi (e ▸ hj)
  have hnum : ∀ j ∈ l, Function.update s.num i s.count j = s.num j := fun j hj =>
    Function.update_of_ne (hne j hj) _ _
  have hself : Function.update s.num i s.count i = s.count := Function.update_self _ _ _
  refine ⟨?_, fun j hj => ?_, fun n hn => Nat.lt_succ_of_lt (h.got_count n hn), h.got_nodup,
    fun j hj hg => ?_⟩ <;> dsimp only at *
  · refine List.pairwise_append.mpr ⟨h.sorted.imp_of_mem fun {j k} hj hk hjk => ?_,
      List.pairwise_singleton _ _, fun j hj k hk => ?_⟩
    · rw [hnum j hj, hnum k hk]
      exact hjk
    · rw [List.mem_singleton.mp hk, hself, hnum j hj]
      exact h.count j hj
  · rcases List.mem_append.mp hj with hj | hj
    · rw [hnum j hj]
      exact Nat.lt_succ_of_lt (h.count j hj)
    · rw [List.mem_singleton.mp hj, hself]
      exact Nat.lt_succ_self _
  · rcases List.mem_append.mp hj with hj | hj
    · rw [hst j (hne j hj)] at hg
      rw [hnum j hj]
      exact h.fresh j hj hg
    · rw [List.mem_singleton.mp hj, hself]
      exact fun hc => Nat.lt_irrefl _ (h.got_count _ hc)

/-- The numbers stay when statuses change, none away from `get`. -/
theorem Order.congr (h : s.Order l) {m : Rbb} {l' : List ℕ} (hl : l'.Sublist l)
    (hst : ∀ j ∈ l', (m.blk j).status ≠ .get → (s.rbb.blk j).status ≠ .get) :
    Order { s with rbb := m } l' :=
  ⟨h.sorted.sublist hl, fun j hj => h.count j (hl.subset hj), h.got_count, h.got_nodup,
    fun j hj hg => h.fresh j (hl.subset hj) (hst j hj hg)⟩

/-- A block that was put is returned for the first time. -/
theorem Order.get (h : s.Order l) (hi : i ∈ l) (hp : (s.rbb.blk i).status ≠ .get) :
    Order { s with rbb := s.rbb.setBlk i { s.rbb.blk i with status := .get },
                   got := s.num i :: s.got } l := by
  refine ⟨h.sorted, h.count, fun n hn => ?_, List.nodup_cons.mpr ⟨h.fresh i hi hp, h.got_nodup⟩,
    fun j hj hg => ?_⟩
  · rcases List.mem_cons.mp hn with rfl | hn
    · exact h.count i hi
    · exact h.got_count n hn
  · dsimp only at hg ⊢
    have hji : j ≠ i := by
      rintro rfl
      rw [Rbb.setBlk_blk_self] at hg
      exact hg rfl
    rw [Rbb.setBlk_blk_of_ne _ _ hji] at hg
    -- different places of the list have different numbers
    have hsymm : Std.Symm fun j k => s.num j ≠ s.num k := ⟨fun _ _ => Ne.symm⟩
    have hne : s.num j ≠ s.num i := (h.sorted.imp Nat.ne_of_lt).forall hj hi hji
    exact List.not_mem_cons_of_ne_of_not_mem hne (h.fresh j hj hg)

/-- **What one call keeps.** -/
theorem step_inv (h : ∃ l f, s.rbb.Blocks l f ∧ s.Order l) {c : RbbCall}
    (hs : s.step c = some s') : ∃ l f, s'.rbb.Blocks l f ∧ s'.Order l := by
  obtain ⟨l, f, hb, ho⟩ := h
  cases c with
  | alloc blkSize =>
    rw [step] at hs
    split_ifs at hs with hsize
    cases hr : s.rbb.blkAlloc blkSize with
    | none =>
      rw [hr] at hs
      cases hs
    | some rm =>
      obtain ⟨r, m⟩ := rm
      rw [hr] at hs
      rcases hb.blkAlloc hsize.1 (fun _ => hsize.2) hr with ⟨rfl, ⟨f', hb'⟩, hblk⟩ |
        ⟨i, rfl, hi, ⟨f', hb'⟩, -, hst⟩
      · cases hs
        exact ⟨l, f', hb', ho.congr (List.Sublist.refl l) fun j _ hg => hblk ▸ hg⟩
      · cases hs
        exact ⟨l ++ [i], f', hb', ho.alloc hi hst⟩
  | put i =>
    rw [step] at hs
    split_ifs at hs with hi
    rw [Rbb.blkPut] at hs
    split_ifs at hs with hp
    · cases hs
      have hil : i ∈ l := (hb.live i hi).mp (by rw [hp]; decide)
      refine ⟨l, f, hb.setStatus hil (by decide), ho.congr (List.Sublist.refl l) fun j _ hg => ?_⟩
      by_cases hji : j = i
      · rw [hji, hp]
        decide
      · rwa [Rbb.setBlk_blk_of_ne _ _ hji] at hg
    · cases hs
  | get =>
    rw [step, hb.lists.blkGet] at hs
    cases hf : l.find? fun i => (s.rbb.blk i).status = .put with
    | none =>
      rw [hf] at hs
      cases hs
      exact ⟨l, f, hb, ho⟩
    | some i =>
      rw [hf] at hs
      cases hs
      have hi := List.mem_of_find?_eq_some hf
      have hp : (s.rbb.blk i).status = .put := by simpa using List.find?_some hf
      exact ⟨l, f, hb.setStatus hi (by decide), ho.get hi (by rw [hp]; decide)⟩
  | free i =>
    rw [step] at hs
    split_ifs at hs with hi
    obtain ⟨m, hm, rfl⟩ := Option.map_eq_some_iff.mp hs
    obtain ⟨l₁, l₂, rfl, hb', hst⟩ := hb.blkFree hi hm
    have hn := (List.nodup_cons.mp (List.nodup_middle.mp hb.chain.nodup)).1
    refine ⟨l₁ ++ l₂, i :: f, hb', ho.congr
      ((List.Sublist.refl l₁).append (List.sublist_cons_self i l₂)) fun j hj hg => ?_⟩
    have hji : j ≠ i := fun e => hn (e ▸ hj)
    rwa [hst j hji] at hg

/-- The first block of the list that is put is the one allocated first. -/
theorem first_put (hb : s.rbb.Blocks l f) (ho : s.Order l)
    (hf : (l.find? fun i => (s.rbb.blk i).status = .put) = some i) :
    s.IsPut i ∧ s.num i ∉ s.got ∧ ∀ j, s.IsPut j → j ≠ i → s.num i < s.num j := by
  have hi := List.mem_of_find?_eq_some hf
  have hp : (s.rbb.blk i).status = .put := by simpa using List.find?_some hf
  refine ⟨⟨hb.index i hi, hp⟩, ho.fresh i hi (by rw [hp]; decide), fun j hj hji => ?_⟩
  obtain ⟨-, l₁, l₂, rfl, h1⟩ := List.find?_eq_some_iff_append.mp hf
  have hjl : j ∈ l₁ ++ i :: l₂ := (hb.live j hj.1).mp (by rw [hj.2]; decide)
  rcases List.mem_append.mp hjl with hj1 | hj2
  · have := h1 j hj1
    simp [hj.2] at this
  · exact (List.pairwise_cons.mp (List.pairwise_append.mp ho.sorted).2.1).1 j
      ((List.mem_cons.mp hj2).resolve_left hji)

theorem Start.inv (h : s.Start) : ∃ l f, s.rbb.Blocks l f ∧ s.Order l := by
  obtain ⟨buf, bufSize, blockSet, n, hb, hr, hc, hg⟩ := h
  refine ⟨[], _, hr ▸ Rbb.Blocks.init buf bufSize hb blockSet n, ⟨List.Pairwise.nil, ?_, ?_, ?_, ?_⟩⟩
  · exact fun i hi => absurd hi List.not_mem_nil
  · rw [hg]
    exact fun n hn => absurd hn List.not_mem_nil
  · rw [hg]
    exact List.nodup_nil
  · exact fun i hi => absurd hi List.not_mem_nil

end RbbState

/-- The blocks in use lie apart inside the buffer, linked in the order of their allocation, which is
the order of their addresses up to a rotation. `blkGet` returns the block allocated first among those
that are put, and none twice. -/
structure RingOk (s : RbbState) : Prop where
  list : ∃ l, NextChain s.rbb.links s.rbb.blkList l ∧ s.rbb.tail = l.getLast? ∧
    (∀ i, i ∈ l ↔ s.Live i) ∧ (l.Pairwise fun i j => s.num i < s.num j) ∧
    CyclicSorted s.rbb.Before l
  inside : ∀ i, s.Live i → s.rbb.Inside i
  apart : ∀ i j, s.Live i → s.Live j → i ≠ j → s.rbb.Before i j ∨ s.rbb.Before j i
  get : ∃ r m, s.rbb.blkGet = some (r, m) ∧
    match r with
    | none => m = s.rbb ∧ ∀ i, ¬ s.IsPut i
    | some i => m = s.rbb.setBlk i { s.rbb.blk i with status := .get } ∧ s.IsPut i ∧
        s.num i ∉ s.got ∧ ∀ j, s.IsPut j → j ≠ i → s.num i < s.num j
  once : s.got.Nodup

/-- **In every run of the ring block buffer** the blocks are in order. -/
theorem ringBlock_invariant {s : RbbState} (h : rbbSystem.Reach System.anyStep s) : RingOk s := by
  obtain ⟨l, f, hb, ho⟩ := h.invariant (I := fun s => ∃ l f, s.rbb.Blocks l f ∧ s.Order l)
    (fun _ => RbbState.Start.inv) fun _ _ _ hi _ hs => RbbState.step_inv hi hs
  have hlive : ∀ i, i ∈ l ↔ s.Live i := fun i => by
    refine ⟨fun hi => ⟨hb.index i hi, (hb.live i (hb.index i hi)).mpr hi⟩, fun hi => ?_⟩
    exact (hb.live i hi.1).mp hi.2
  have hsymm : Std.Symm fun i j => s.rbb.Before i j ∨ s.rbb.Before j i := ⟨fun _ _ => Or.symm⟩
  have hp : l.Pairwise fun i j => s.rbb.Before i j ∨ s.rbb.Before j i :=
    hb.sorted.pairwise .inl Or.symm
  refine ⟨⟨l, hb.chain, hb.tail, hlive, ho.sorted, hb.sorted⟩,
    fun i hi => hb.inside i ((hlive i).mpr hi),
    fun i j hi hj hij => hp.forall ((hlive i).mpr hi) ((hlive j).mpr hj) hij, ?_, ho.got_nodup⟩
  rw [hb.lists.blkGet]
  cases hf : l.find? fun i => (s.rbb.blk i).status = .put with
  | none =>
    refine ⟨none, _, rfl, rfl, fun i hi => ?_⟩
    have := List.find?_eq_none.mp hf i ((hlive i).mpr ⟨hi.1, by rw [hi.2]; decide⟩)
    simp [hi.2] at this
  | some i => exact ⟨some i, _, rfl, rfl, RbbState.first_put hb ho hf⟩

/-- The first block is freed and a third one is placed before the second. -/
theorem ringBlock_invariant_wrapped : ∃ s : RbbState,
    (s.rbb.blkList = some 1 ∧ s.rbb.tail = some 2 ∧ (s.rbb.blk 1).buf = 103 ∧
      (s.rbb.blk 2).buf = 100 ∧ s.got = [0]) ∧ RingOk s := by
  have h0 : RbbState.Start
      ⟨Rbb.init 100 8 (fun _ => ⟨.unused, 0, 0, none⟩) 3, fun _ => 0, 0, []⟩ :=
    ⟨100, 8, _, 3, by decide, rfl, rfl, rfl⟩
  obtain ⟨s, hs, hp⟩ := System.exists_reach rbbSystem System.anyStep
    (fun s => decide (s.rbb.blkList = some 1 ∧ s.rbb.tail = some 2 ∧ (s.rbb.blk 1).buf = 103 ∧
      (s.rbb.blk 2).buf = 100 ∧ s.got = [0])) h0
    [.alloc 3, .alloc 3, .put 2, .get, .free 2, .alloc 3, .put 1] (by decide)
  exact ⟨s, of_decide_eq_true hp, ringBlock_invariant hs⟩

end RtThread
