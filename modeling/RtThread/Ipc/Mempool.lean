import RtThread.Ipc.Calls
import RtThread.Kernel.Align
import RtThread.Lib.Chain

/-!
# Memory pools

`mempool.c`: the blocks of a pool start with a word that links the free ones and names the pool of
the allocated ones. `rt_mp_alloc` waits in a loop: its sections are `mpAlloc` up to `rt_schedule`,
`mpWoken`, which looks at the error code and reduces the time-out, and `mpRetry`, the loop again.

* `mpInit`, `mpCreate`, `mpTake`, `mpAlloc`, `mpWoken`, `mpRetry`, `mpFree`;
* `MpWell`: the free list of every pool and the blocks handed out are together its blocks;
  `MpWell.take`, `MpWell.put`;
* `MpTimed`: what a waiting thread has waited and has yet to wait add up to its time-out;
* **`mp_conservation`**.
-/

set_option linter.unusedSectionVars false

namespace RtThread

open Kernel

/-- `sizeof(rt_uint8_t *)`. -/
abbrev pointerSize : ℕ := 4

/-- `struct rt_mempool`. -/
structure Mempool where
  startAddress : ℕ
  blockSize : ℕ
  blockList : Option ℕ
  blockTotalCount : ℕ
  blockFreeCount : ℕ
  deriving DecidableEq, Repr

/-- The word before a block: the next free block, or the pool. -/
inductive MpWord (P : Type) where
  | next (b : Option ℕ)
  | owner (p : P)
  deriving DecidableEq, Repr

/-- The pools, the words before the blocks, and the blocks handed out to callers. -/
structure MpData (P : Type) where
  pool : P → Mempool
  header : ℕ → MpWord P
  allocated : List ℕ

/-- The locals of `rt_mp_alloc`: `woken` says that the error code has been looked at. `requested`,
`calledAt` and `sleptAt` record the time-out asked for, and when the call and its last suspension
happened. -/
structure MpLocals (P : Type) where
  mp : P
  time : BitVec 32
  beforeSleep : BitVec 32
  woken : Bool
  requested : BitVec 32
  calledAt : ℕ
  sleptAt : ℕ
  deriving DecidableEq, Repr

/-- The calls on memory pools. -/
abbrev MpCalls (T P : Type) := CallState T P (MpLocals P) (MpData P)

/-- How a section of `rt_mp_alloc` ends: with a block, with `RT_NULL`, or not with a return. -/
inductive MpResult where
  | block (address : ℕ)
  | null
  | goesOn
  deriving DecidableEq, Repr

/-- The steps of the memory pool system. -/
inductive MpLabel (T P : Type) where
  | env (a : EnvLabel T)
  | alloc (mp : P) (time : BitVec 32)
  | woken
  | retry
  | free (block : ℕ)
  deriving DecidableEq, Repr

variable {T P : Type} [DecidableEq T] [DecidableEq P]

/-! ## The code -/

/-- The loop of `rt_mp_init` and `rt_mp_create` over the blocks, and the null link after it. There is
one block at least. -/
def mpFormat (header : ℕ → MpWord P) (start stride total : ℕ) : ℕ → MpWord P :=
  Function.update
    ((List.range total).foldl (fun header offset => Function.update header (start + offset * stride)
      (.next (some (start + (offset + 1) * stride)))) header)
    (start + (total - 1) * stride) (.next none)

/-- The pool `rt_mp_init` and `rt_mp_create` set up, with the words they write. -/
def mpSetup (header : ℕ → MpWord P) (start blockSize total : ℕ) : Mempool × (ℕ → MpWord P) :=
  ({ startAddress := start, blockSize := blockSize, blockList := some start
     blockTotalCount := total, blockFreeCount := total },
    mpFormat header start (blockSize + pointerSize) total)

/-- `rt_mp_init`. -/
def mpInit (header : ℕ → MpWord P) (start size blockSize : ℕ) : Mempool × (ℕ → MpWord P) :=
  mpSetup header start (rtAlign blockSize) (rtAlignDown size / (rtAlign blockSize + pointerSize))

/-- `rt_mp_create`, with the memory at `start`. -/
def mpCreate (header : ℕ → MpWord P) (start blockCount blockSize : ℕ) :
    Mempool × (ℕ → MpWord P) :=
  mpSetup header start (rtAlign blockSize) blockCount

/-- `rt_mp_alloc` after its loop: take the first block of the free list. There is no result where
the code would follow a null pointer, or take a pool for a block. -/
def mpTake (d : MpData P) (mp : P) : Option (ℕ × MpData P) :=
  match (d.pool mp).blockList with
  | none => none
  | some b =>
    match d.header b with
    | .owner _ => none
    | .next n => some (b,
      { pool := Function.update d.pool mp { d.pool mp with
          blockFreeCount := (d.pool mp).blockFreeCount - 1
          blockList := n }
        header := Function.update d.header b (.owner mp)
        allocated := b :: d.allocated })

/-- `rt_mp_alloc` suspends its thread. -/
def mpSuspend (k : Kernel T P) (c : T) (mp : P) (time : ℤ) : Kernel T P :=
  let k := k.setThread c fun th => { th with error := .eok }
  let k := (k.threadSuspendWithFlag c .uninterruptible).2
  let k := { k with list := k.list.insertAfterHead (.suspend mp) c }
  if 0 < time then k.setThread c fun th => { th with threadTimer := true } else k

/-- The locals when the thread suspends itself. -/
def MpLocals.asleep (l : MpLocals P) (tick : BitVec 32) (now : ℕ) : MpLocals P :=
  { l with
    beforeSleep := if 0 < l.time.toInt then tick else l.beforeSleep
    woken := false
    sleptAt := now }

/-- The loop of `rt_mp_alloc`, from its head to the return or to `rt_schedule`. -/
def mpLoop (s : MpCalls T P) (thread : Option T) (l : MpLocals P) :
    Option (MpResult × MpCalls T P) :=
  if (s.data.pool l.mp).blockFreeCount ≠ 0 then
    (mpTake s.data l.mp).map fun r => (.block (r.1 + pointerSize), s.withData r.2)
  else if l.time = 0 then some (.null, s)
  else if timeoutOk l.time then
    thread.map fun c => (.goesOn, s.block c (mpSuspend s.kernel c l.mp l.time.toInt) l.time
      (l.asleep s.tick s.now))
  else none

/-- `rt_mp_alloc` up to its `rt_schedule`. -/
def mpAlloc (s : MpCalls T P) (mp : P) (time : BitVec 32) : Option (MpResult × MpCalls T P) :=
  mpLoop s s.self
    { mp := mp, time := time, beforeSleep := 0, woken := true, requested := time
      calledAt := s.now, sleptAt := s.now }

/-- `rt_mp_alloc` after its `rt_schedule`, before it disables the interrupts again. -/
def mpWoken (s : MpCalls T P) (c : T) : MpResult × MpCalls T P :=
  let l := s.locals c
  if (s.kernel.thread c).error ≠ .eok then (.null, s.leave c)
  else (.goesOn, { s with locals := Function.update s.locals c { l with
    woken := true
    time := timeLeft l.time l.beforeSleep s.tick } })

/-- `rt_mp_alloc` from there to the return or to `rt_schedule`. -/
def mpRetry (s : MpCalls T P) (c : T) : Option (MpResult × MpCalls T P) :=
  mpLoop (s.leave c) (some c) (s.locals c)

/-- `rt_mp_free`. There is no result where the word before the block is not a pool. -/
def mpFree (s : MpCalls T P) (block : ℕ) : Option (MpCalls T P) :=
  let b := block - pointerSize
  match s.data.header b with
  | .next _ => none
  | .owner mp =>
    let s' := s.withData
      { pool := Function.update s.data.pool mp { s.data.pool mp with
          blockFreeCount := (s.data.pool mp).blockFreeCount + 1
          blockList := some b }
        header := Function.update s.data.header b (.next (s.data.pool mp).blockList)
        allocated := s.data.allocated.erase b }
    match s.kernel.list (.suspend mp) with
    | [] => some s'
    | t :: _ => some (s'.withKernel (s.kernel.ipcResumeThread .eok t))

/-! ## The system -/

/-- One step of the threads and their environment, with what it returns. Only blocks that have been
handed out are freed. -/
def mpStep (s : MpCalls T P) : MpLabel T P → Option (MpResult × MpCalls T P)
  | .env a => (envStep s a).map fun s => (.goesOn, s)
  | .alloc mp time => mpAlloc s mp time
  | .woken =>
    (s.caller.filter fun c => !(s.locals c).woken).map fun c => mpWoken s c
  | .retry => (s.caller.filter fun c => (s.locals c).woken).bind fun c => mpRetry s c
  | .free block =>
    if pointerSize ≤ block ∧ block - pointerSize ∈ s.data.allocated then
      (mpFree s block).map fun s => (.goesOn, s)
    else none

/-- The addresses of a pool's blocks, with the word before each. -/
def Mempool.blocks (m : Mempool) : List ℕ :=
  (List.range m.blockTotalCount).map fun i => m.startAddress + i * (m.blockSize + pointerSize)

/-- The pool `p` is as `rt_mp_init` or `rt_mp_create` has left it, with one block at least. -/
def MpCreated (d : MpData P) (p : P) : Prop :=
  1 ≤ (d.pool p).blockTotalCount ∧
  ∃ header start, ∃ created : Mempool × (ℕ → MpWord P),
    ((∃ size blockSize, created = mpInit header start size blockSize) ∨
      ∃ blockCount blockSize, created = mpCreate header start blockCount blockSize) ∧
    d.pool p = created.1 ∧ ∀ b ∈ created.1.blocks, d.header b = created.2 b

/-- Threads and pools, initialized; every pool has memory of its own. -/
structure MpInit (s : MpCalls T P) : Prop where
  calls : CallInit s
  created : ∀ p, MpCreated s.data p
  fits : ∀ p, (s.data.pool p).startAddress + (s.data.pool p).blockTotalCount *
    ((s.data.pool p).blockSize + pointerSize) ≤ 2 ^ 32
  apart : ∀ p q b, b ∈ (s.data.pool p).blocks → b ∈ (s.data.pool q).blocks → p = q
  allocated : s.data.allocated = []

/-- The memory pools as a system. -/
def mpSystem (T P : Type) [DecidableEq T] [DecidableEq P] : System (MpCalls T P) (MpLabel T P) where
  init := MpInit
  step s a := (mpStep s a).map Prod.snd

/-! ## The free lists -/

/-- The link of a block. -/
def MpData.next (d : MpData P) (b : ℕ) : Option ℕ :=
  match d.header b with
  | .next n => n
  | .owner _ => none

/-- The blocks of `p` that have been handed out. -/
def MpData.handedOut (d : MpData P) (p : P) : List ℕ :=
  d.allocated.filter fun b => b ∈ (d.pool p).blocks

/-- `l` is the free list of `p`; with the blocks handed out it makes up the pool. -/
structure PoolWell (d : MpData P) (p : P) (l : List ℕ) : Prop where
  chain : NextChain d.next (d.pool p).blockList l
  link : ∀ b ∈ l, ∃ n, d.header b = .next n
  count : (d.pool p).blockFreeCount = l.length
  perm : (l ++ d.handedOut p).Perm (d.pool p).blocks

/-- Every pool has its free list, and the blocks handed out name their pools. -/
structure MpWell (d : MpData P) (free : P → List ℕ) : Prop where
  pool : ∀ p, PoolWell d p (free p)
  owner : ∀ b ∈ d.allocated, ∃ p, b ∈ (d.pool p).blocks ∧ d.header b = .owner p
  nodup : d.allocated.Nodup
  apart : ∀ p q b, b ∈ (d.pool p).blocks → b ∈ (d.pool q).blocks → p = q

/-- The words written by the loop that sets a pool up. -/
theorem foldl_update_apply {α β : Type} [DecidableEq α] (f : ℕ → α) (g : ℕ → β)
    (hf : Function.Injective f) (h : α → β) (n : ℕ) :
    (∀ i < n, ((List.range n).foldl (fun h i => Function.update h (f i) (g i)) h) (f i) = g i) := by
  induction n with
  | zero => intro i hi; cases hi
  | succ n ih =>
    intro i hi
    rw [List.range_succ, List.foldl_append]
    by_cases hin : i = n
    · subst hin
      exact Function.update_self ..
    · have hne : f i ≠ f n := fun e => hin (hf e)
      exact (Function.update_of_ne hne _ _).trans (ih i (by omega))

omit [DecidableEq P] in
/-- The word in front of a block. -/
theorem mpFormat_apply (header : ℕ → MpWord P) (start stride : ℕ) {total i : ℕ} (hs : 0 < stride)
    (hi : i < total) : mpFormat header start stride total (start + i * stride) =
      if i = total - 1 then .next none else .next (some (start + (i + 1) * stride)) := by
  have hinj : Function.Injective fun i => start + i * stride := fun i j hij =>
    Nat.eq_of_mul_eq_mul_right hs (Nat.add_left_cancel hij)
  rw [mpFormat]
  by_cases hlast : i = total - 1
  · rw [if_pos hlast, ← hlast]
    exact Function.update_self ..
  · have hne : start + i * stride ≠ start + (total - 1) * stride := fun e => hlast (hinj e)
    rw [if_neg hlast, Function.update_of_ne hne]
    exact foldl_update_apply (fun i => start + i * stride)
      (fun i => .next (some (start + (i + 1) * stride))) hinj header total i hi

/-- **A pool that has been set up** is one list of all its blocks. -/
theorem mpFormat_chain (header : ℕ → MpWord P) (start stride : ℕ) {total : ℕ} (hs : 0 < stride)
    (ht : 0 < total) {d : MpData P} (hd : ∀ i < total, d.header (start + i * stride) =
      mpFormat header start stride total (start + i * stride)) :
    NextChain d.next (some start) ((List.range total).map fun i => start + i * stride) ∧
      ∀ i < total, ∃ n, d.header (start + i * stride) = .next n := by
  have hword : ∀ i < total, d.header (start + i * stride) =
      if i = total - 1 then .next none else .next (some (start + (i + 1) * stride)) := fun i hi => by
    rw [hd i hi, mpFormat_apply header start stride hs hi]
  have h0 : start = (fun i => start + i * stride) 0 := by simp
  refine ⟨?_, fun i hi => ?_⟩
  · nth_rewrite 1 [h0]
    refine NextChain.ofRange (fun i => start + i * stride) ht (fun i hi => ?_) ?_
    · rw [MpData.next, hword i (by omega), if_neg (by omega)]
    · rw [MpData.next, hword (total - 1) (by omega), if_pos rfl]
  · rw [hword i hi]
    split_ifs
    · exact ⟨_, rfl⟩
    · exact ⟨_, rfl⟩

variable {d d' : MpData P} {free : P → List ℕ} {p q : P} {b : ℕ} {l : List ℕ}

theorem MpData.next_congr (h : d'.header b = d.header b) : d'.next b = d.next b := by
  rw [MpData.next, MpData.next, h]

/-- Only the pool's own record and words matter. -/
theorem PoolWell.frame (h : PoolWell d p l) (hpool : d'.pool p = d.pool p)
    (hheader : ∀ b ∈ (d.pool p).blocks, d'.header b = d.header b)
    (hout : d'.handedOut p = d.handedOut p) : PoolWell d' p l := by
  have hl : ∀ b ∈ l, d'.header b = d.header b := fun b hb =>
    hheader b (h.perm.subset (List.mem_append_left _ hb))
  refine ⟨?_, fun b hb => ?_, ?_, ?_⟩
  · rw [hpool]
    exact h.chain.frame fun b hb => MpData.next_congr (hl b hb)
  · rw [hl b hb]
    exact h.link b hb
  · rw [hpool]
    exact h.count
  · rw [hpool, hout]
    exact h.perm

namespace MpWell

theorem mem_free (h : MpWell d free) (hb : b ∈ free p) : b ∈ (d.pool p).blocks :=
  (h.pool p).perm.subset (List.mem_append_left _ hb)

/-- A block is free or handed out, not both. -/
theorem not_allocated (h : MpWell d free) (hb : b ∈ free p) : b ∉ d.allocated := fun ha => by
  obtain ⟨n, hn⟩ := (h.pool p).link b hb
  obtain ⟨q, -, hq⟩ := h.owner b ha
  rw [hn] at hq
  cases hq

/-- A pool with free blocks has a first one, which `rt_mp_alloc` takes. -/
theorem mpTake_eq (h : MpWell d free) (hp : (d.pool p).blockFreeCount ≠ 0) :
    ∃ b n t, free p = b :: t ∧ d.header b = .next n ∧ NextChain d.next n t ∧ b ∉ t ∧
      mpTake d p = some (b,
        { pool := Function.update d.pool p { d.pool p with
            blockFreeCount := (d.pool p).blockFreeCount - 1
            blockList := n }
          header := Function.update d.header b (.owner p)
          allocated := b :: d.allocated }) := by
  obtain ⟨b, hb⟩ : ∃ b, (d.pool p).blockList = some b := by
    cases hc : (d.pool p).blockList with
    | some b => exact ⟨b, rfl⟩
    | none =>
      have := (h.pool p).chain
      rw [hc] at this
      rw [(h.pool p).count, this.eq_nil] at hp
      exact absurd rfl hp
  have hchain := (h.pool p).chain
  rw [hb] at hchain
  obtain ⟨t, ht, htail⟩ := hchain.pop
  obtain ⟨n, hn⟩ := (h.pool p).link b (ht ▸ List.mem_cons_self)
  have hnd := hchain.nodup
  rw [ht] at hnd
  rw [MpData.next, hn] at htail
  refine ⟨b, n, t, ht, hn, htail, (List.nodup_cons.mp hnd).1, ?_⟩
  rw [mpTake, hb]
  dsimp only
  rw [hn]

/-- A change to one block of the pool `p`, whose new free list is `l`. -/
theorem update (h : MpWell d free) (hb : b ∈ (d.pool p).blocks)
    (hblocks : ∀ q, (d'.pool q).blocks = (d.pool q).blocks)
    (hpool : ∀ q ≠ p, d'.pool q = d.pool q) (hheader : ∀ c ≠ b, d'.header c = d.header c)
    (hp : PoolWell d' p l) (hout : ∀ c ≠ b, c ∈ d'.allocated ↔ c ∈ d.allocated)
    (hfilter : ∀ q ≠ p, d'.handedOut q = d.handedOut q)
    (howner : b ∈ d'.allocated → d'.header b = .owner p) (hnd : d'.allocated.Nodup) :
    MpWell d' (Function.update free p l) := by
  refine ⟨fun q => ?_, fun c hc => ?_, hnd, fun q r c => ?_⟩
  · by_cases hq : q = p
    · subst hq
      rw [Function.update_self]
      exact hp
    · rw [Function.update_of_ne hq]
      refine (h.pool q).frame (hpool q hq) (fun c hc => hheader c fun e => ?_) (hfilter q hq)
      subst e
      exact hq (h.apart q p c hc hb)
  · by_cases hcb : c = b
    · subst hcb
      exact ⟨p, (hblocks p).symm ▸ hb, howner hc⟩
    · obtain ⟨q, hq, ho⟩ := h.owner c ((hout c hcb).mp hc)
      exact ⟨q, (hblocks q).symm ▸ hq, (hheader c hcb).trans ho⟩
  · rw [hblocks q, hblocks r]
    exact h.apart q r c

/-- **Taking a block.** -/
theorem take (h : MpWell d free) (hp : (d.pool p).blockFreeCount ≠ 0) :
    ∃ b t d', mpTake d p = some (b, d') ∧ free p = b :: t ∧ d'.allocated = b :: d.allocated ∧
      MpWell d' (Function.update free p t) ∧ ∀ q, (d'.pool q).blocks = (d.pool q).blocks := by
  obtain ⟨b, n, t, ht, hn, htail, hbt, htake⟩ := h.mpTake_eq hp
  have hbp : b ∈ free p := ht ▸ List.mem_cons_self
  have hb := h.mem_free hbp
  have hblocks : ∀ q, (Function.update d.pool p { d.pool p with
      blockFreeCount := (d.pool p).blockFreeCount - 1
      blockList := n } q).blocks = (d.pool q).blocks := fun q => by
    by_cases hq : q = p
    · subst hq; rw [Function.update_self]; rfl
    · rw [Function.update_of_ne hq]
  refine ⟨b, t, _, htake, ht, rfl, h.update hb hblocks (fun q hq => Function.update_of_ne hq _ _)
    (fun c hc => Function.update_of_ne hc _ _) ⟨?_, fun c hc => ?_, ?_, ?_⟩ (fun c hc => ?_)
    (fun q hq => ?_) (fun _ => Function.update_self ..)
    (List.nodup_cons.mpr ⟨h.not_allocated hbp, h.nodup⟩), hblocks⟩
  · dsimp only
    rw [Function.update_self]
    refine htail.frame fun c hc => ?_
    have hcb : c ≠ b := fun e => hbt (e ▸ hc)
    exact MpData.next_congr (Function.update_of_ne hcb _ _)
  · have hcb : c ≠ b := fun e => hbt (e ▸ hc)
    obtain ⟨m, hm⟩ := (h.pool p).link c (ht ▸ List.mem_cons_of_mem _ hc)
    exact ⟨m, (Function.update_of_ne hcb _ _).trans hm⟩
  · dsimp only
    rw [Function.update_self, (h.pool p).count, ht]
    rfl
  · rw [MpData.handedOut, hblocks]
    dsimp only
    rw [List.filter_cons, if_pos (decide_eq_true hb)]
    refine List.perm_middle.trans ?_
    have := (h.pool p).perm
    rwa [ht] at this
  · exact ⟨fun hm => (List.mem_cons.mp hm).resolve_left hc, List.mem_cons_of_mem _⟩
  · have hbq : b ∉ (d.pool q).blocks := fun hbq => hq (h.apart q p b hbq hb)
    rw [MpData.handedOut, hblocks]
    dsimp only
    rw [List.filter_cons, if_neg (by rw [decide_eq_true_eq]; exact hbq)]
    rfl

/-- **Putting a block back** into the pool it names, its own. -/
theorem put (h : MpWell d free) (hb : b ∈ d.allocated) (ho : d.header b = .owner p) :
    b ∈ (d.pool p).blocks ∧
    MpWell
      { pool := Function.update d.pool p { d.pool p with
          blockFreeCount := (d.pool p).blockFreeCount + 1
          blockList := some b }
        header := Function.update d.header b (.next (d.pool p).blockList)
        allocated := d.allocated.erase b } (Function.update free p (b :: free p)) ∧
    ∀ q, (Function.update d.pool p { d.pool p with
      blockFreeCount := (d.pool p).blockFreeCount + 1
      blockList := some b } q).blocks = (d.pool q).blocks := by
  have hbp : b ∈ (d.pool p).blocks := by
    obtain ⟨q, hq, hoq⟩ := h.owner b hb
    rw [ho] at hoq
    cases hoq
    exact hq
  have hbf : b ∉ free p := fun hf => h.not_allocated hf hb
  have hblocks : ∀ q, (Function.update d.pool p { d.pool p with
      blockFreeCount := (d.pool p).blockFreeCount + 1
      blockList := some b } q).blocks = (d.pool q).blocks := fun q => by
    by_cases hq : q = p
    · subst hq; rw [Function.update_self]; rfl
    · rw [Function.update_of_ne hq]
  refine ⟨hbp, h.update hbp hblocks (fun q hq => Function.update_of_ne hq _ _)
    (fun c hc => Function.update_of_ne hc _ _) ⟨?_, fun c hc => ?_, ?_, ?_⟩
    (fun c hc => List.mem_erase_of_ne hc) (fun q hq => ?_)
    (fun hm => absurd hm h.nodup.not_mem_erase) (h.nodup.erase b), hblocks⟩
  · dsimp only
    rw [Function.update_self]
    refine .cons ?_
    rw [MpData.next]
    dsimp only
    rw [Function.update_self]
    refine (h.pool p).chain.frame fun c hc => ?_
    have hcb : c ≠ b := fun e => hbf (e ▸ hc)
    exact MpData.next_congr (Function.update_of_ne hcb _ _)
  · by_cases hcb : c = b
    · subst hcb
      exact ⟨_, Function.update_self ..⟩
    · obtain ⟨m, hm⟩ := (h.pool p).link c ((List.mem_cons.mp hc).resolve_left hcb)
      exact ⟨m, (Function.update_of_ne hcb _ _).trans hm⟩
  · dsimp only
    rw [Function.update_self, (h.pool p).count]
    rfl
  · rw [MpData.handedOut, hblocks]
    dsimp only
    have hout : ((d.allocated.erase b).filter fun b => b ∈ (d.pool p).blocks) =
        (d.handedOut p).erase b := by
      rw [MpData.handedOut, h.nodup.erase_eq_filter, (h.nodup.filter _).erase_eq_filter,
        List.filter_comm]
    rw [hout, List.cons_append]
    have hmem : b ∈ d.handedOut p := List.mem_filter.mpr ⟨hb, decide_eq_true hbp⟩
    refine List.perm_middle.symm.trans ?_
    exact ((List.perm_cons_erase hmem).symm.append_left _).trans (h.pool p).perm
  · have hbq : b ∉ (d.pool q).blocks := fun hbq => hq (h.apart q p b hbq hbp)
    rw [MpData.handedOut, hblocks]
    dsimp only
    rw [h.nodup.erase_eq_filter, List.filter_filter, MpData.handedOut]
    refine List.filter_congr fun c _ => ?_
    by_cases hcb : c = b
    · subst hcb
      rw [decide_eq_false hbq, Bool.false_and]
    · simp [hcb]

end MpWell

/-- The pools as they have been created. -/
theorem MpInit.well {s : MpCalls T P} (h : MpInit s) :
    MpWell s.data fun p => (s.data.pool p).blocks := by
  refine ⟨fun p => ?_, fun b hb => ?_, ?_, h.apart⟩
  · obtain ⟨htotal, header, start, created, hc, hpool, hheader⟩ := h.created p
    obtain ⟨blockSize, total, rfl⟩ : ∃ blockSize total,
        created = mpSetup header start blockSize total := by
      rcases hc with ⟨size, blockSize, rfl⟩ | ⟨blockCount, blockSize, rfl⟩
      · exact ⟨_, _, rfl⟩
      · exact ⟨_, _, rfl⟩
    have hblocks : (s.data.pool p).blocks =
        (List.range total).map fun i => start + i * (blockSize + pointerSize) := by
      rw [hpool]; rfl
    rw [hpool] at htotal
    obtain ⟨hchain, hlink⟩ := mpFormat_chain header start (blockSize + pointerSize)
      (Nat.succ_pos _) (Nat.lt_of_lt_of_le Nat.zero_lt_one htotal) (d := s.data) fun i hi =>
        hheader _ (List.mem_map.mpr ⟨i, List.mem_range.mpr hi, rfl⟩)
    refine ⟨?_, fun b hb => ?_, ?_, ?_⟩
    · rw [hblocks, hpool]
      exact hchain
    · rw [hblocks] at hb
      obtain ⟨i, hi, rfl⟩ := List.mem_map.mp hb
      exact hlink i (List.mem_range.mp hi)
    · rw [hblocks, hpool, List.length_map, List.length_range]
      rfl
    · rw [MpData.handedOut, h.allocated, List.filter_nil, List.append_nil]
  · rw [h.allocated] at hb
    cases hb
  · rw [h.allocated]
    exact List.nodup_nil

/-! ## Time -/

/-- The time-out asked for is over. -/
def MpElapsed (l : MpLocals P) (now : ℕ) : Prop :=
  0 ≤ l.requested.toInt ∧ l.requested.toNat ≤ now - l.calledAt

/-- At the head of the loop: the time passed since the call and `time` add up to the time-out. -/
structure AtLoop (l : MpLocals P) (now : ℕ) : Prop where
  called : l.calledAt ≤ now
  forever : l.requested.toInt < 0 → l.time = l.requested
  left : 0 ≤ l.requested.toInt →
    0 ≤ l.time.toInt ∧ l.requested.toNat ≤ now - l.calledAt + l.time.toNat

/-- Suspended, or resumed but not yet looking at the error code. -/
structure Asleep (s : MpCalls T P) (t : T) (l : MpLocals P) : Prop where
  called : l.calledAt ≤ l.sleptAt
  slept : l.sleptAt ≤ s.now
  forever : l.requested.toInt < 0 → l.time = l.requested ∧
    (s.kernel.thread t).threadTimer = false ∧ (s.kernel.thread t).error = .eok
  timed : 0 ≤ l.requested.toInt → 0 < l.time.toInt ∧
    l.beforeSleep = BitVec.ofNat 32 l.sleptAt ∧
    s.timeoutTick t = BitVec.ofNat 32 l.sleptAt + l.time ∧
    l.requested.toNat ≤ l.sleptAt - l.calledAt + l.time.toNat ∧
    ((s.kernel.thread t).error = .eok ∨ l.requested.toNat ≤ s.now - l.calledAt)

/-- **The time of a thread inside `rt_mp_alloc`.** -/
def MpTimed (s : MpCalls T P) (t : T) : Prop :=
  ((s.locals t).woken = true → AtLoop (s.locals t) s.now) ∧
    ((s.locals t).woken = false → Asleep s t (s.locals t))

/-- Only the locals, the time, the timer and the error code matter. -/
theorem MpTimed.congr {s s' : MpCalls T P} {t : T} (h : MpTimed s t)
    (hlocals : s'.locals t = s.locals t) (hnow : s'.now = s.now)
    (htick : s'.timeoutTick t = s.timeoutTick t)
    (herror : (s'.kernel.thread t).error = (s.kernel.thread t).error)
    (htimer : (s'.kernel.thread t).threadTimer = (s.kernel.thread t).threadTimer) :
    MpTimed s' t := by
  obtain ⟨hloop, hasleep⟩ := h
  rw [MpTimed, hlocals, hnow]
  refine ⟨hloop, fun hw => ?_⟩
  obtain ⟨h1, h2, h3, h4⟩ := hasleep hw
  refine ⟨h1, hnow ▸ h2, ?_, ?_⟩
  · rw [herror, htimer]
    exact h3
  · rw [herror, htick, hnow]
    exact h4

/-- A timer that is due has run for its time. -/
theorem le_of_timerDue {now slept : ℕ} {time : BitVec 32} (hle : slept ≤ now)
    (hpos : 0 < time.toInt)
    (hdue : timerDue (BitVec.ofNat 32 now) (BitVec.ofNat 32 slept + time) = true) :
    time.toNat ≤ now - slept := by
  rw [timerDue, decide_eq_true_eq, BitVec.toNat_sub, BitVec.toNat_add, BitVec.toNat_ofNat,
    BitVec.toNat_ofNat] at hdue
  have := time.isLt
  rw [BitVec.toInt_eq_toNat_cond] at hpos
  unfold rtTickHalf at hdue
  split_ifs at hpos <;> omega

/-- What `timeLeft` takes off the time-out has passed. -/
theorem timeLeft_spec {now slept : ℕ} {time : BitVec 32} (hle : slept ≤ now)
    (hpos : 0 < time.toInt) :
    0 ≤ (timeLeft time (BitVec.ofNat 32 slept) (BitVec.ofNat 32 now)).toInt ∧
      time.toNat ≤ now - slept +
        (timeLeft time (BitVec.ofNat 32 slept) (BitVec.ofNat 32 now)).toNat := by
  rw [timeLeft, if_pos hpos]
  dsimp only
  have hlt := time.isLt
  rw [BitVec.toInt_eq_toNat_cond] at hpos
  split_ifs with hneg
  · rw [BitVec.toInt_eq_toNat_cond, BitVec.toNat_sub, BitVec.toNat_sub, BitVec.toNat_ofNat,
      BitVec.toNat_ofNat] at hneg
    refine ⟨by simp, ?_⟩
    change time.toNat ≤ now - slept + 0
    split_ifs at hpos hneg <;> omega
  · refine ⟨Int.not_lt.mp hneg, ?_⟩
    rw [BitVec.toNat_sub, BitVec.toNat_sub, BitVec.toNat_ofNat, BitVec.toNat_ofNat]
    split_ifs at hpos <;> omega

theorem AtLoop.elapsed {l : MpLocals P} {now : ℕ} (h : AtLoop l now) (ht : l.time = 0) :
    MpElapsed l now := by
  have hr : 0 ≤ l.requested.toInt := by
    by_contra hneg
    have hf := h.forever (Int.not_le.mp hneg)
    rw [← hf, ht] at hneg
    exact hneg (by simp)
  have hl := (h.left hr).2
  rw [ht] at hl
  exact ⟨hr, hl⟩

/-! ## The steps -/

theorem mpSuspend_waits {k : Kernel T P} {c : T} (hk : Linked k)
    (hc : (k.thread c).stat = .running) (mp : P) (time : ℤ) :
    Waits k (mpSuspend k c mp time) c mp (decide (0 < time)) .eok := by
  obtain ⟨k₁, hk₁⟩ : ∃ k₁, k₁ = k.setThread c fun th => { th with error := .eok } := ⟨_, rfl⟩
  have hrun₁ : (k₁.thread c).stat = .running := by rw [hk₁, setThread_self]; exact hc
  have hlink₁ : Linked k₁ := hk₁ ▸ hk.setThread c _ rfl
  obtain ⟨k₂, hk₂⟩ : ∃ k₂, k₂ = { k₁.suspendSelf c .uninterruptible with
      list := (k₁.suspendSelf c .uninterruptible).list.insertAfterHead (.suspend mp) c } :=
    ⟨_, rfl⟩
  have heq : mpSuspend k c mp time = if 0 < time then
      k₂.setThread c fun th => { th with threadTimer := true } else k₂ := by
    unfold mpSuspend
    rw [← hk₁]
    dsimp only
    rw [threadSuspend_eq hrun₁, hk₂]
  have hthread : k₂.thread = (k₁.suspendSelf c .uninterruptible).thread := by rw [hk₂]
  have hself : k₂.thread c = { k₁.thread c with
      stat := .suspend .uninterruptible, threadTimer := false } := by
    rw [hthread, Kernel.suspendSelf, setThread_self]; rfl
  have hother : ∀ u ≠ c, k₂.thread u = k.thread u := fun u hu => by
    rw [hthread, Kernel.suspendSelf, setThread_of_ne _ hu, scheduleRemoveThread_thread, hk₁,
      setThread_of_ne _ hu]
  have hlink : Linked k₂ := by
    rw [hk₂]
    refine (hlink₁.suspendSelf c .uninterruptible).link (h := .suspend mp)
      (hlink₁.unlinked_listRemove c) (.refl _) ?_
    rw [Kernel.suspendSelf, setThread_self]
    rfl
  have hwait : ∀ x u, u ∈ k₂.waiters x ↔ (x = mp ∧ u = c) ∨ u ∈ k.waiters x := fun x u => by
    have h1 : (k₁.suspendSelf c .uninterruptible).waiters x = k.waiters x := by
      rw [suspendSelf_waiters hlink₁ hrun₁, hk₁]; rfl
    by_cases hx : x = mp
    · subst hx
      have h2 : k₂.waiters x = c :: k.waiters x := by
        rw [← h1, hk₂]; exact Function.update_self ..
      rw [h2, List.mem_cons]
      simp
    · have h2 : k₂.waiters x = k.waiters x := by
        rw [← h1, hk₂]
        refine Function.update_of_ne (fun e => hx ?_) _ _
        exact Head.suspend.inj e
      rw [h2]
      simp [hx]
  rw [heq]
  by_cases ht : 0 < time
  · rw [if_pos ht, decide_eq_true ht]
    refine ⟨hlink.setThread c _ rfl, ?_, ?_, ?_, fun u hu => ?_, ?_, hwait⟩
    · rw [setThread_self, hself]; rfl
    · rw [setThread_self]
    · rw [setThread_self, hself, hk₁, setThread_self]
    · rw [setThread_of_ne _ hu, hother u hu]
    · rw [setThread_object, hk₂, hk₁]; rfl
  · rw [if_neg ht, decide_eq_false ht]
    refine ⟨hlink, ?_, ?_, ?_, hother, ?_, hwait⟩
    · rw [hself]; rfl
    · rw [hself]
    · rw [hself, hk₁, setThread_self]
    · rw [hk₂, hk₁]; rfl

/-- A block has been handed out to a caller on `mp`, which nobody had. -/
def MpHanded (d d' : MpData P) (mp : P) (address : ℕ) : Prop :=
  ∃ b, address = b + pointerSize ∧ b ∈ (d.pool mp).blocks ∧ b ∉ d.allocated ∧
    d'.allocated = b :: d.allocated

/-- The invariant of the memory pools. -/
structure MpInv (s : MpCalls T P) : Prop where
  calls : CallInv s
  well : ∃ free, MpWell s.data free
  timed : ∀ t ∈ s.inside, MpTimed s t

/-- What a section of `rt_mp_alloc` has done, by its result. -/
def MpOutcome (s s' : MpCalls T P) (l : MpLocals P) : MpResult → Prop
  | .block address => MpHanded s.data s'.data l.mp address
  | .null => s'.data = s.data ∧ MpElapsed l s.now
  | .goesOn => s'.data = s.data

namespace MpInv

variable {s s' : MpCalls T P} {c t : T} {l : MpLocals P} {r : MpResult} {mp : P}

theorem init (h : MpInit s) : MpInv s := by
  refine ⟨h.calls.inv, ⟨_, h.well⟩, fun t ht => ?_⟩
  rw [h.calls.inside] at ht
  cases ht

/-- **The environment.** A thread that times out has waited for its time. -/
theorem env (h : MpInv s) {a : EnvLabel T} (hs : envStep s a = some s') :
    MpInv s' ∧ s'.data = s.data := by
  obtain ⟨hcalls, hf⟩ := envStep_frame h.calls hs
  refine ⟨⟨hcalls, hf.data ▸ h.well, fun t ht => ?_⟩, hf.data⟩
  rw [hf.inside] at ht
  obtain ⟨hloop, hasleep⟩ := h.timed t ht
  have hnow := hf.now
  rw [MpTimed, hf.locals]
  refine ⟨fun hw => ?_, fun hw => ?_⟩
  · obtain ⟨h1, h2, h3⟩ := hloop hw
    exact ⟨h1.trans hnow, h2, fun hr => ⟨(h3 hr).1, by have := (h3 hr).2; omega⟩⟩
  · obtain ⟨h1, h2, h3, h4⟩ := hasleep hw
    refine ⟨h1, h2.trans hnow, fun hr => ?_, fun hr => ?_⟩
    · obtain ⟨e1, e2, e3⟩ := h3 hr
      rcases hf.calls t ht with hu | hout
      · exact ⟨e1, hu.timer.trans e2, hu.error.trans e3⟩
      · have := hout.running
        rw [e2] at this
        cases this
    · obtain ⟨e1, e2, e3, e4, e5⟩ := h4 hr
      refine ⟨e1, e2, (hf.timeoutTick t ht).trans e3, e4, ?_⟩
      rcases hf.calls t ht with hu | hout
      · rw [hu.error]
        exact e5.imp_right fun h => by omega
      · have hdue := hout.due
        rw [e3, CallState.tick] at hdue
        have := le_of_timerDue h2 e1 hdue
        exact .inr (by omega)

/-- A thread suspends itself in `rt_mp_alloc`. -/
theorem block (h : MpInv s) (hc : s.self = some c) (hl : AtLoop l s.now) (htime : l.time ≠ 0) :
    MpInv (s.block c (mpSuspend s.kernel c l.mp l.time.toInt) l.time (l.asleep s.tick s.now)) := by
  obtain ⟨-, hrun, -⟩ := CallState.self_iff.mp hc
  have hw := mpSuspend_waits h.calls.linked hrun l.mp l.time.toInt
  obtain ⟨s', hs'⟩ : ∃ s', s' = s.block c (mpSuspend s.kernel c l.mp l.time.toInt) l.time
    (l.asleep s.tick s.now) := ⟨_, rfl⟩
  have hkernel : s'.kernel = mpSuspend s.kernel c l.mp l.time.toInt := by rw [hs']; rfl
  have htick : s'.timeoutTick = if 0 < l.time.toInt then
      Function.update s.timeoutTick c (s.tick + l.time) else s.timeoutTick := by rw [hs']; rfl
  rw [← hs']
  refine ⟨hs' ▸ h.calls.block hc hw l.time _, hs' ▸ h.well, fun t ht => ?_⟩
  have hnow : s'.now = s.now := by rw [hs']; rfl
  by_cases htc : t = c
  · subst htc
    have hlocals : s'.locals t = l.asleep s.tick s.now := by rw [hs']; exact Function.update_self ..
    rw [MpTimed, hlocals]
    refine ⟨fun hw' => absurd hw' Bool.false_ne_true, fun _ => ⟨hl.called, hnow ▸ Nat.le_refl _, fun hr => ?_,
      fun hr => ?_⟩⟩
    · have hr' : l.requested.toInt < 0 := hr
      have hneg : ¬ 0 < l.time.toInt := by
        rw [hl.forever hr]
        omega
      rw [hkernel]
      exact ⟨hl.forever hr, hw.timer.trans (decide_eq_false hneg), hw.error⟩
    · obtain ⟨h0, hle⟩ := hl.left hr
      have hne : l.time.toInt ≠ 0 := fun e => htime (BitVec.eq_of_toInt_eq e)
      have hpos : 0 < l.time.toInt := by omega
      rw [hkernel, htick, if_pos hpos, Function.update_self]
      exact ⟨hpos, if_pos hpos, rfl, hle, .inl hw.error⟩
  · have hin : t ∈ s.inside := by
      rw [hs'] at ht
      exact (List.mem_cons.mp ht).resolve_left htc
    have hth : s'.kernel.thread t = s.kernel.thread t := hkernel ▸ hw.thread t htc
    refine (h.timed t hin).congr ?_ hnow ?_ (by rw [hth]) (by rw [hth])
    · rw [hs']; exact Function.update_of_ne htc _ _
    · rw [htick]
      split_ifs
      · exact Function.update_of_ne htc _ _
      · rfl

/-- **The loop of `rt_mp_alloc`.** -/
theorem loop (h : MpInv s) {thread : Option T} (hthread : ∀ c, thread = some c → s.self = some c)
    (hl : AtLoop l s.now) (hs : mpLoop s thread l = some (r, s')) :
    MpInv s' ∧ MpOutcome s s' l r := by
  obtain ⟨free, hwell⟩ := h.well
  unfold mpLoop at hs
  split_ifs at hs with hfree htime hok
  · obtain ⟨b, t, d', htake, hbt, halloc, hwell', -⟩ := hwell.take hfree
    rw [htake] at hs
    cases hs
    have hb : b ∈ free l.mp := hbt ▸ List.mem_cons_self
    refine ⟨⟨h.calls.withData d', ⟨_, hwell'⟩, fun t ht => ?_⟩, b, rfl, hwell.mem_free hb,
      hwell.not_allocated hb, halloc⟩
    exact (h.timed t ht).congr rfl rfl rfl rfl rfl
  · cases hs
    exact ⟨h, rfl, hl.elapsed htime⟩
  · obtain ⟨c, hc, hs⟩ := Option.map_eq_some_iff.mp hs
    cases hs
    exact ⟨h.block (hthread c hc) hl htime, rfl⟩

/-- **`rt_mp_alloc`** up to its `rt_schedule`. -/
theorem alloc (h : MpInv s) {time : BitVec 32} (hs : mpAlloc s mp time = some (r, s')) :
    MpInv s' ∧ MpOutcome s s' { mp := mp, time := time, beforeSleep := 0, woken := true
                                requested := time, calledAt := s.now, sleptAt := s.now } r :=
  h.loop (fun _ => id) ⟨Nat.le_refl _, fun _ => rfl, fun hr => ⟨hr, Nat.le_add_left ..⟩⟩ hs

theorem leave (h : MpInv s) (hc : s.caller = some c) : MpInv (s.leave c) :=
  ⟨h.calls.leave hc, h.well, fun t ht =>
    (h.timed t (List.mem_of_mem_erase ht)).congr rfl rfl rfl rfl rfl⟩

/-- **`rt_mp_alloc`** looks at the error code. -/
theorem woken (h : MpInv s) (hc : s.caller = some c) (hw : (s.locals c).woken = false) :
    MpInv (mpWoken s c).2 ∧ MpOutcome s (mpWoken s c).2 (s.locals c) (mpWoken s c).1 := by
  obtain ⟨-, hrun, hin⟩ := CallState.caller_iff.mp hc
  obtain ⟨h1, h2, h3, h4⟩ := (h.timed c hin).2 hw
  unfold mpWoken
  dsimp only
  split_ifs with herr
  · refine ⟨h.leave hc, rfl, ?_⟩
    have hr : 0 ≤ (s.locals c).requested.toInt :=
      Int.not_lt.mp fun hneg => herr (h3 hneg).2.2
    exact ⟨hr, (h4 hr).2.2.2.2.resolve_left herr⟩
  · refine ⟨⟨⟨h.calls.linked, h.calls.waiter, h.calls.timer, h.calls.suspended, h.calls.nodup⟩,
      h.well, fun t ht => ?_⟩, rfl⟩
    by_cases htc : t = c
    · subst htc
      rw [MpTimed]
      dsimp only
      rw [Function.update_self]
      refine ⟨fun _ => ⟨h1.trans h2, fun hr => ?_, fun hr => ?_⟩, fun hf => absurd hf.symm Bool.false_ne_true⟩
      · have hr' : (s.locals t).requested.toInt < 0 := hr
        have hneg : ¬ 0 < (s.locals t).time.toInt := by
          rw [(h3 hr).1]
          omega
        refine Eq.trans ?_ (h3 hr).1
        exact if_neg hneg
      · obtain ⟨e1, e2, -, e4, -⟩ := h4 hr
        have := timeLeft_spec h2 e1
        dsimp only
        rw [e2, CallState.tick]
        exact ⟨this.1, by have := this.2; omega⟩
    · exact (h.timed t ht).congr (Function.update_of_ne htc _ _) rfl rfl rfl rfl

/-- **`rt_mp_alloc`** tries again. -/
theorem retry (h : MpInv s) (hc : s.caller = some c) (hw : (s.locals c).woken = true)
    (hs : mpRetry s c = some (r, s')) : MpInv s' ∧ MpOutcome s s' (s.locals c) r := by
  have hself := h.calls.self_leave hc
  obtain ⟨-, -, hin⟩ := CallState.caller_iff.mp hc
  exact (h.leave hc).loop (fun _ e => by rw [← Option.some.inj e]; exact hself)
    ((h.timed c hin).1 hw) hs

/-- Waking a waiting thread. -/
theorem resume (h : MpInv s) (ht : t ∈ s.kernel.waiters mp) :
    MpInv (s.withKernel (s.kernel.ipcResumeThread .eok t)) := by
  have hk := ipcResumeThread_woken h.calls.linked ht .eok
  refine ⟨h.calls.resume ht .eok, h.well, fun u hu => ?_⟩
  by_cases hut : u = t
  · subst hut
    obtain ⟨hloop, hasleep⟩ := h.timed u hu
    refine ⟨hloop, fun hw => ?_⟩
    obtain ⟨h1, h2, h3, h4⟩ := hasleep hw
    refine ⟨h1, h2, fun hr => ⟨(h3 hr).1, hk.timer, hk.error⟩, fun hr => ?_⟩
    obtain ⟨e1, e2, e3, e4, -⟩ := h4 hr
    exact ⟨e1, e2, e3, e4, .inl hk.error⟩
  · have hun := hk.untouched u hut
    exact (h.timed u hu).congr rfl rfl rfl hun.error hun.timer

/-- **`rt_mp_free`** puts a block that has been handed out back into its own pool. -/
theorem freed (h : MpInv s) {b : ℕ} (hb : b ∈ s.data.allocated) :
    ∃ p s', mpFree s (b + pointerSize) = some s' ∧ MpInv s' ∧ b ∈ (s.data.pool p).blocks ∧
      s'.data.allocated = s.data.allocated.erase b ∧
      (∀ q, (s'.data.pool q).blocks = (s.data.pool q).blocks) ∧
      ∀ free, MpWell s.data free → MpWell s'.data (Function.update free p (b :: free p)) := by
  obtain ⟨free, hwell⟩ := h.well
  obtain ⟨p, -, ho⟩ := hwell.owner b hb
  obtain ⟨hbp, hwell', hblocks⟩ := hwell.put hb ho
  obtain ⟨d', hd'⟩ : ∃ d' : MpData P, d' =
      { pool := Function.update s.data.pool p { s.data.pool p with
          blockFreeCount := (s.data.pool p).blockFreeCount + 1
          blockList := some b }
        header := Function.update s.data.header b (.next (s.data.pool p).blockList)
        allocated := s.data.allocated.erase b } := ⟨_, rfl⟩
  have hinv : MpInv (s.withData d') := by
    refine ⟨h.calls.withData d', ⟨_, hd' ▸ hwell'⟩, fun t ht => ?_⟩
    exact (h.timed t ht).congr rfl rfl rfl rfl rfl
  have hall : d'.allocated = s.data.allocated.erase b := by rw [hd']
  have hbl : ∀ q, (d'.pool q).blocks = (s.data.pool q).blocks := by rw [hd']; exact hblocks
  have hany : ∀ free, MpWell s.data free → MpWell d' (Function.update free p (b :: free p)) :=
    fun free hf => hd' ▸ (hf.put hb ho).2.1
  have heq : mpFree s (b + pointerSize) = match s.kernel.waiters p with
      | [] => some (s.withData d')
      | t :: _ => some ((s.withData d').withKernel (s.kernel.ipcResumeThread .eok t)) := by
    unfold mpFree
    rw [Nat.add_sub_cancel]
    dsimp only
    rw [ho, hd']
  cases hw : s.kernel.waiters p with
  | nil =>
    rw [hw] at heq
    exact ⟨p, _, heq, hinv, hbp, hall, hbl, hany⟩
  | cons t l =>
    rw [hw] at heq
    have ht : t ∈ (s.withData d').kernel.waiters p := by
      change t ∈ s.kernel.waiters p
      rw [hw]
      exact List.mem_cons_self
    exact ⟨p, _, heq, hinv.resume ht, hbp, hall, hbl, hany⟩

/-- **Every step keeps the invariant.** -/
theorem step (h : MpInv s) {a : MpLabel T P} (hs : mpStep s a = some (r, s')) : MpInv s' := by
  cases a with
  | env a =>
    obtain ⟨s₁, h₁, he⟩ := Option.map_eq_some_iff.mp hs
    cases he
    exact (h.env h₁).1
  | alloc mp time => exact (h.alloc hs).1
  | woken =>
    obtain ⟨c, hc, he⟩ := Option.map_eq_some_iff.mp hs
    obtain ⟨hc, hw⟩ := Option.filter_eq_some_iff.mp hc
    have := (h.woken hc (by simpa using hw)).1
    rw [he] at this
    exact this
  | retry =>
    obtain ⟨c, hc, he⟩ := Option.bind_eq_some_iff.mp hs
    obtain ⟨hc, hw⟩ := Option.filter_eq_some_iff.mp hc
    exact (h.retry hc hw he).1
  | free block =>
    simp only [mpStep] at hs
    split_ifs at hs with hb
    obtain ⟨s₁, h₁, he⟩ := Option.map_eq_some_iff.mp hs
    cases he
    obtain ⟨p, s₂, h₂, hinv, -⟩ := h.freed hb.2
    rw [Nat.sub_add_cancel hb.1, h₁] at h₂
    exact Option.some.inj h₂ ▸ hinv

end MpInv

/-! ## Conservation -/

/-- The books of the memory pools balance; `free` are the free lists. -/
structure MpConserved (s : MpCalls T P) (free : P → List ℕ) : Prop where
  list : ∀ p, NextChain s.data.next (s.data.pool p).blockList (free p)
  count : ∀ p, (s.data.pool p).blockFreeCount = (free p).length
  split : ∀ p, ∀ b ∈ (s.data.pool p).blocks, b ∈ free p ↔ b ∉ s.data.allocated
  own : ∀ p, ∀ b ∈ free p, b ∈ (s.data.pool p).blocks
  allocated : s.data.allocated.Nodup ∧ ∀ b ∈ s.data.allocated, ∃ p, b ∈ (s.data.pool p).blocks
  available : ∀ mp time, (s.data.pool mp).blockFreeCount ≠ 0 →
    ∃ address s', mpAlloc s mp time = some (.block address, s')
  handed : ∀ {mp time address s'}, mpAlloc s mp time = some (.block address, s') →
    MpHanded s.data s'.data mp address
  handedLater : ∀ {c address s'}, s.caller = some c → (s.locals c).woken = true →
    mpRetry s c = some (.block address, s') → MpHanded s.data s'.data (s.locals c).mp address
  freed : ∀ b ∈ s.data.allocated, ∃ p s', mpFree s (b + pointerSize) = some s' ∧
    b ∈ (s.data.pool p).blocks ∧ (s'.data.pool p).blockList = some b ∧
    s'.data.allocated = s.data.allocated.erase b ∧
    MpWell s'.data (Function.update free p (b :: free p))
  null : ∀ {mp time s'}, mpAlloc s mp time = some (.null, s') → time = 0
  nullWoken : ∀ {c s'}, s.caller = some c → (s.locals c).woken = false →
    mpWoken s c = (.null, s') → MpElapsed (s.locals c) s.now
  nullLater : ∀ {c s'}, s.caller = some c → (s.locals c).woken = true →
    mpRetry s c = some (.null, s') → MpElapsed (s.locals c) s.now

/-- **Memory pools conserve their blocks.** In every reachable state every block is free or handed
out, `block_free_count` counts the free ones, a block is handed to one caller at a time and freed
into its own pool, and `RT_NULL` is returned only after the time-out. -/
theorem mp_conservation {s : MpCalls T P} (hs : (mpSystem T P).Reach System.anyStep s) :
    ∃ free, MpConserved s free := by
  have h : MpInv s := hs.invariant (fun _ => MpInv.init) fun s a s' hI _ hst => by
    obtain ⟨⟨r, s₁⟩, h₁, rfl⟩ := Option.map_eq_some_iff.mp hst
    exact hI.step h₁
  obtain ⟨free, hwell⟩ := h.well
  refine ⟨free, fun p => (hwell.pool p).chain, fun p => (hwell.pool p).count, fun p b hb => ?_,
    fun p b => hwell.mem_free, ⟨hwell.nodup, fun b hb => ?_⟩, fun mp time hfree => ?_,
    fun hc => (h.alloc hc).2, fun hc hw hr => (h.retry hc hw hr).2, fun b hb => ?_, fun hc => ?_,
    fun {c s'} hc hw hr => ?_, fun hc hw hr => (h.retry hc hw hr).2.2⟩
  · refine ⟨hwell.not_allocated, fun hna => ?_⟩
    have hm := (hwell.pool p).perm.symm.subset hb
    refine (List.mem_append.mp hm).resolve_right fun hout => hna ?_
    exact (List.mem_filter.mp hout).1
  · obtain ⟨p, hp, -⟩ := hwell.owner b hb
    exact ⟨p, hp⟩
  · obtain ⟨b, t, d', htake, -⟩ := hwell.take hfree
    refine ⟨b + pointerSize, s.withData d', ?_⟩
    unfold mpAlloc mpLoop
    rw [if_pos hfree, htake]
    rfl
  · obtain ⟨p, s', h1, hinv, h2, h3, -, h4⟩ := h.freed hb
    refine ⟨p, s', h1, h2, ?_, h3, h4 free hwell⟩
    have := ((h4 free hwell).pool p).chain.head?
    rw [Function.update_self] at this
    exact this.symm
  · unfold mpAlloc mpLoop at hc
    split_ifs at hc with h1 h2 h3
    · obtain ⟨x, -, hx⟩ := Option.map_eq_some_iff.mp hc
      cases hx
    · exact h2
    · obtain ⟨x, -, hx⟩ := Option.map_eq_some_iff.mp hc
      cases hx
  · have := (h.woken hc hw).2
    rw [hr] at this
    exact this.2

/-- A pool of two blocks at address 64, for two threads. -/
def twoBlocks : MpCalls (Fin 2) Unit :=
  let created := mpInit (P := Unit) (fun _ => .next none) 64 32 8
  .initial (fun _ => 10) (fun _ => .mutexInit)
    (fun _ => { mp := (), time := 0, beforeSleep := 0, woken := false, requested := 0
                calledAt := 0, sleptAt := 0 })
    { pool := fun _ => created.1, header := created.2, allocated := [] }

/-- Thread 0 waits for a block of the empty pool; thread 1 frees one and takes it again. -/
theorem mp_conservation_race : ∃ s, (mpSystem (Fin 2) Unit).Reach System.anyStep s ∧
    s.inside = [0] ∧ s.data.allocated = [64, 76] ∧ ∃ free, MpConserved s free := by
  obtain ⟨s, hs, hp⟩ := System.exists_reach (mpSystem (Fin 2) Unit) System.anyStep
    (fun s => s.inside = [0] ∧ s.data.allocated = [64, 76])
    (s := twoBlocks) ⟨CallState.initial_init (fun _ => by decide) _ _ _,
      fun () => ⟨by decide, _, _, _, .inl ⟨_, _, rfl⟩, rfl, fun _ _ => rfl⟩, fun () => by decide,
      fun _ _ _ _ _ => rfl, rfl⟩
    [.env (.startup 0), .env .start, .alloc () 0, .alloc () 0, .alloc () 5, .env (.startup 1),
      .env .schedule, .env .tick, .free 68, .alloc () 0] (by decide)
  obtain ⟨h1, h2⟩ := of_decide_eq_true hp
  exact ⟨s, hs, h1, h2, mp_conservation hs⟩

end RtThread
