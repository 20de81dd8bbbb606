import Mathlib.Data.List.TakeWhile
import RtThread.Drivers.RingBlock

/-!
# Queues of blocks

`rt_rbb_blk_queue_get` takes a run of blocks that are put. It looks at the block after the next one
before it has tested the next one, starts with a block of any size, and compares the addresses of two
blocks only for their order.

* `queueGet`: the function; `queueRun`: the blocks of a list that its loop takes;
* `queueGet_eq`: what it does, as one equation;
* `QueueTaken`: the blocks that are taken are a run of blocks that are put, adjacent, and together
  not longer than asked; `QueueFits`: the condition under which they are;
* `queueTaken_iff`: exactly when the queue is what it should be.
-/

namespace RtThread

/-- `struct rt_rbb_blk_queue`. -/
structure RbbQueue where
  blocks : Option ℕ
  blkNum : ℕ

/-- The variables of the loop of `rt_rbb_blk_queue_get`, with the ring block buffer. -/
structure QueueLoop where
  rbb : Rbb
  lastBlock : Option ℕ
  dataTotalSize : ℕ
  blkQueue : RbbQueue

namespace QueueLoop

variable (q : QueueLoop) (queueDataLen : ℕ)

/-- The end of the loop body: remove the current block. -/
def take (i : ℕ) : QueueLoop where
  rbb := q.rbb.setBlk i { q.rbb.blk i with status := .get }
  lastBlock := some i
  dataTotalSize := (q.dataTotalSize + (q.rbb.blk i).size) % 2 ^ 32
  blkQueue := { q.blkQueue with blkNum := q.blkQueue.blkNum + 1 }

/-- The loop body at the node `i`; there is no result when it breaks the loop. -/
def body (i : ℕ) : Option QueueLoop :=
  match q.lastBlock with
  | none =>
    if (q.rbb.blk i).status = .put then
      some (QueueLoop.take { q with blkQueue := { blocks := some i, blkNum := 0 } } i)
    else some q
  | some lastBlock =>
    if (q.rbb.blk i).status ≠ .put ∨ (q.rbb.blk lastBlock).buf > (q.rbb.blk i).buf ∨
        (q.dataTotalSize + (q.rbb.blk i).size) % 2 ^ 32 > queueDataLen then none
    else some (q.take i)

/-- The loop. The inner `none` stands for `rt_slist_next` of a null node, the outer one for a loop
that does not end in `n` turns. -/
def loop : ℕ → QueueLoop → ℕ → Option ℕ → Option (Option QueueLoop)
  | 0, _, _, _ => none
  | n + 1, q, node, tmp =>
    match q.body queueDataLen node with
    | none => some (some q)
    | some q =>
      match tmp with
      | none => some none
      | some node => loop n q node (q.rbb.blk node).next

/-- What is left of the variables: the total, the queue and the ring block buffer. -/
def result : ℕ × RbbQueue × Rbb := (q.dataTotalSize, q.blkQueue, q.rbb)

end QueueLoop

namespace Rbb

variable (m : Rbb) (queueDataLen : ℕ)

/-- `rt_rbb_blk_queue_get`. -/
def queueGet (blkQueue : RbbQueue) : Option (Option (ℕ × RbbQueue × Rbb)) :=
  match m.blkList with
  | none => some (some (0, blkQueue, m))
  | some node =>
    (QueueLoop.loop queueDataLen m.blkMaxNum
      { rbb := m, lastBlock := none, dataTotalSize := 0, blkQueue := blkQueue } node
      (m.blk node).next).map fun q => q.map QueueLoop.result

/-! ## The blocks that are taken -/

/-- The loop breaks at the block `i`. -/
def QueueStops (lastBlock total i : ℕ) : Prop :=
  (m.blk i).status ≠ .put ∨ (m.blk lastBlock).buf > (m.blk i).buf ∨
    (total + (m.blk i).size) % 2 ^ 32 > queueDataLen

instance (lastBlock total i : ℕ) : Decidable (m.QueueStops queueDataLen lastBlock total i) := by
  unfold QueueStops
  infer_instance

/-- The blocks of a list that are taken, and whether the loop breaks before the end. -/
def queueRun : ℕ → ℕ → List ℕ → List ℕ × Bool
  | _, _, [] => ([], false)
  | lastBlock, total, i :: l =>
    if m.QueueStops queueDataLen lastBlock total i then ([], true)
    else
      let r := queueRun i ((total + (m.blk i).size) % 2 ^ 32) l
      (i :: r.1, r.2)

/-- The total of the code. -/
def queueSum (total : ℕ) (l : List ℕ) : ℕ :=
  l.foldl (fun total i => (total + (m.blk i).size) % 2 ^ 32) total

/-- The blocks of `l` are marked as taken. -/
def mark (l : List ℕ) : Rbb :=
  { m with blk := fun i => if i ∈ l then { m.blk i with status := .get } else m.blk i }

/-- The sizes of blocks. -/
def sizes (l : List ℕ) : ℕ := (l.map fun i => (m.blk i).size).sum

/-- The block `j` begins where `i` ends. -/
def Adjacent (i j : ℕ) : Prop := (m.blk i).buf + (m.blk i).size = (m.blk j).buf

/-- The blocks of `l` that have got the status of taken ones. -/
def takenBlocks (m m' : Rbb) (l : List ℕ) : List ℕ :=
  l.filter fun i => (m.blk i).status ≠ .get ∧ (m'.blk i).status = .get

/-- The result of `rt_rbb_blk_queue_get` is a queue of blocks that were put, follow each other in the
list and in the buffer, and have together the size that is returned, at most `queueDataLen`. -/
structure QueueTaken (l : List ℕ) (r : ℕ × RbbQueue × Rbb) : Prop where
  marked : r.2.2 = m.mark (takenBlocks m r.2.2 l)
  put : ∀ i ∈ takenBlocks m r.2.2 l, (m.blk i).status = .put
  consecutive : ∃ l₁ l₂, l = l₁ ++ takenBlocks m r.2.2 l ++ l₂
  adjacent : (takenBlocks m r.2.2 l).IsChain m.Adjacent
  total : r.1 = m.sizes (takenBlocks m r.2.2 l)
  le : r.1 ≤ queueDataLen
  queue : takenBlocks m r.2.2 l ≠ [] →
    r.2.1.blocks = (takenBlocks m r.2.2 l).head? ∧
      r.2.1.blkNum = (takenBlocks m r.2.2 l).length

/-- There are no blocks; or those that are put begin with adjacent ones, not longer than
`queueDataLen`, behind which there is a block that breaks the loop. -/
def QueueFits (l : List ℕ) : Prop :=
  l = [] ∨ ∃ l₁ b run x l₂, l = l₁ ++ (b :: run ++ x :: l₂) ∧
    (∀ i ∈ l₁, (m.blk i).status ≠ .put) ∧ (∀ i ∈ b :: run, (m.blk i).status = .put) ∧
    (b :: run).IsChain m.Adjacent ∧ m.sizes (b :: run) ≤ queueDataLen ∧
    m.QueueStops queueDataLen ((b :: run).getLast (List.cons_ne_nil b run)) (m.sizes (b :: run)) x

/-! ## The loop -/

section
variable {m queueDataLen} {l l₁ l₂ run : List ℕ} {i b x total : ℕ}

theorem mark_blk (m : Rbb) (l : List ℕ) (i : ℕ) :
    (m.mark l).blk i = if i ∈ l then { m.blk i with status := .get } else m.blk i := rfl

theorem mark_links (m : Rbb) (l : List ℕ) : (m.mark l).links = m.links := by
  funext i
  rw [links, mark_blk]
  split_ifs
  · rfl
  · rfl

theorem mark_nil (m : Rbb) : m.mark [] = m := by
  rw [mark]
  simp

theorem mark_buf (m : Rbb) (l : List ℕ) (i : ℕ) : ((m.mark l).blk i).buf = (m.blk i).buf := by
  rw [mark_blk]
  split_ifs
  · rfl
  · rfl

theorem mark_size (m : Rbb) (l : List ℕ) (i : ℕ) : ((m.mark l).blk i).size = (m.blk i).size := by
  rw [mark_blk]
  split_ifs
  · rfl
  · rfl

theorem mark_status (m : Rbb) (l : List ℕ) (i : ℕ) :
    ((m.mark l).blk i).status = if i ∈ l then .get else (m.blk i).status := by
  rw [mark_blk]
  split_ifs
  · rfl
  · rfl

/-- One more block is marked. -/
theorem mark_setBlk (m : Rbb) (l : List ℕ) (i : ℕ) :
    (m.mark l).setBlk i { (m.mark l).blk i with status := .get } = m.mark (l ++ [i]) := by
  have hblk : Function.update (m.mark l).blk i { (m.mark l).blk i with status := .get } =
      (m.mark (l ++ [i])).blk := by
    funext j
    rw [mark_blk m (l ++ [i])]
    by_cases hj : j = i
    · subst hj
      rw [Function.update_self, if_pos (List.mem_append_right _ (List.mem_singleton_self j)),
        mark_blk]
      split_ifs
      · rfl
      · rfl
    · rw [Function.update_of_ne hj, mark_blk]
      by_cases hl : j ∈ l
      · rw [if_pos hl, if_pos (List.mem_append_left _ hl)]
      · rw [if_neg hl, if_neg fun hc => (List.mem_append.mp hc).elim hl fun h =>
          hj (List.mem_singleton.mp h)]
  rw [setBlk, hblk]
  rfl

/-- Behind the first block, the loop breaks where the run ends. -/
theorem body_some {q : QueueLoop} {taken : List ℕ} {lastBlock : ℕ} (hq : q.rbb = m.mark taken)
    (hlast : q.lastBlock = some lastBlock) (hi : i ∉ taken) : q.body queueDataLen i =
      if m.QueueStops queueDataLen lastBlock q.dataTotalSize i then none else some (q.take i) := by
  rw [QueueLoop.body, hlast, hq]
  dsimp only
  rw [mark_status, if_neg hi, mark_buf, mark_buf, mark_size]
  rfl

/-- **The loop, behind the first block**: it takes the blocks of `queueRun`, and follows a null node
unless it breaks. -/
theorem loop_run (queueDataLen : ℕ) {n : ℕ} {q : QueueLoop} {taken : List ℕ}
    {lastBlock node : ℕ}
    (hq : q.rbb = m.mark taken) (hlast : q.lastBlock = some lastBlock)
    (hl : NextChain m.links (some node) (node :: l))
    (hdisj : ∀ i ∈ node :: l, i ∉ taken) (hn : l.length < n) :
    (QueueLoop.loop queueDataLen n q node (m.links node)).map (fun q => q.map QueueLoop.result) =
      some (if (m.queueRun queueDataLen lastBlock q.dataTotalSize (node :: l)).2 then
          some (m.queueSum q.dataTotalSize
              (m.queueRun queueDataLen lastBlock q.dataTotalSize (node :: l)).1,
            ⟨q.blkQueue.blocks, q.blkQueue.blkNum +
              (m.queueRun queueDataLen lastBlock q.dataTotalSize (node :: l)).1.length⟩,
            m.mark (taken ++ (m.queueRun queueDataLen lastBlock q.dataTotalSize (node :: l)).1))
        else none) := by
  induction l generalizing n q taken lastBlock node with
  | nil =>
    obtain ⟨n, rfl⟩ := Nat.exists_eq_succ_of_ne_zero (Nat.ne_of_gt hn)
    have htmp : m.links node = none := by
      obtain ⟨t, ht, hnext⟩ := hl.pop
      cases ht
      exact hnext.eq_nil_iff.mp rfl
    rw [QueueLoop.loop, body_some hq hlast (hdisj node List.mem_cons_self), queueRun, htmp]
    by_cases hstop : m.QueueStops queueDataLen lastBlock q.dataTotalSize node
    · rw [if_pos hstop, if_pos hstop, List.append_nil, ← hq]
      rfl
    · rw [if_neg hstop, if_neg hstop]
      rfl
  | cons k l ih =>
    obtain ⟨n, rfl⟩ := Nat.exists_eq_succ_of_ne_zero (Nat.ne_of_gt (Nat.zero_lt_of_lt hn))
    obtain ⟨t, ht, hnext⟩ := hl.pop
    cases ht
    have htmp : m.links node = some k := hnext.head?.symm
    rw [QueueLoop.loop, body_some hq hlast (hdisj node List.mem_cons_self), queueRun, htmp]
    by_cases hstop : m.QueueStops queueDataLen lastBlock q.dataTotalSize node
    · rw [if_pos hstop, if_pos hstop, List.append_nil, ← hq]
      rfl
    · rw [if_neg hstop, if_neg hstop]
      have hq' : (q.take node).rbb = m.mark (taken ++ [node]) := by
        rw [QueueLoop.take, hq]
        exact mark_setBlk m taken node
      have hnd := List.nodup_cons.mp hl.nodup
      have hdisj' : ∀ i ∈ k :: l, i ∉ taken ++ [node] := fun i hi hc => by
        rcases List.mem_append.mp hc with hc | hc
        · exact hdisj i (List.mem_cons_of_mem _ hi) hc
        · exact hnd.1 (List.mem_singleton.mp hc ▸ hi)
      have hih := ih hq' rfl (htmp ▸ hnext) hdisj' (Nat.lt_of_succ_lt_succ hn)
      have hlink : ((q.take node).rbb.blk k).next = m.links k := by
        rw [hq']
        exact congrFun (mark_links m _) k
      have htotal : (q.take node).dataTotalSize =
          (q.dataTotalSize + (m.blk node).size) % 2 ^ 32 := by
        rw [QueueLoop.take, hq, mark_size]
      rw [htotal] at hih
      dsimp only
      rw [hlink, hih]
      have hnum : ∀ x : ℕ, q.blkQueue.blkNum + 1 + x = q.blkQueue.blkNum + (x + 1) :=
        fun x => by omega
      rw [List.append_assoc]
      simp only [QueueLoop.take, hnum]
      rfl

/-- The total with the first block. -/
theorem queueSum_cons (m : Rbb) (b : ℕ) (l : List ℕ) :
    m.queueSum 0 (b :: l) = m.queueSum ((m.blk b).size % 2 ^ 32) l := by
  rw [queueSum, List.foldl_cons, Nat.zero_add, ← queueSum]

/-- **The loop, before the first block**: it looks for one that is put. -/
theorem loop_find {n : ℕ} {q : QueueLoop} {node : ℕ} (hq : q.rbb = m) (hlast : q.lastBlock = none)
    (htotal : q.dataTotalSize = 0) (hl : NextChain m.links (some node) (node :: l))
    (hn : l.length < n) :
    (QueueLoop.loop queueDataLen n q node (m.links node)).map (fun q => q.map QueueLoop.result) =
      some (match (node :: l).dropWhile fun i => (m.blk i).status ≠ .put with
        | [] => none
        | b :: rest =>
          if (m.queueRun queueDataLen b ((m.blk b).size % 2 ^ 32) rest).2 then
            some (m.queueSum 0 (b :: (m.queueRun queueDataLen b ((m.blk b).size % 2 ^ 32) rest).1),
              ⟨some b, 1 + (m.queueRun queueDataLen b ((m.blk b).size % 2 ^ 32) rest).1.length⟩,
              m.mark (b :: (m.queueRun queueDataLen b ((m.blk b).size % 2 ^ 32) rest).1))
          else none) := by
  have hbody : q.body queueDataLen node = if (m.blk node).status = .put then
      some (QueueLoop.take { q with blkQueue := { blocks := some node, blkNum := 0 } } node)
      else some q := by
    rw [QueueLoop.body, hlast, hq]
  induction l generalizing n node with
  | nil =>
    obtain ⟨n, rfl⟩ := Nat.exists_eq_succ_of_ne_zero (Nat.ne_of_gt hn)
    have htmp : m.links node = none := by
      obtain ⟨t, ht, hnext⟩ := hl.pop
      cases ht
      exact hnext.eq_nil_iff.mp rfl
    rw [QueueLoop.loop, hbody, htmp, List.dropWhile_cons]
    by_cases hput : (m.blk node).status = .put
    · rw [if_pos hput, if_neg (by simp [hput])]
      rfl
    · rw [if_neg hput, if_pos (by simp [hput])]
      rfl
  | cons k l ih =>
    obtain ⟨n, rfl⟩ := Nat.exists_eq_succ_of_ne_zero (Nat.ne_of_gt (Nat.zero_lt_of_lt hn))
    obtain ⟨t, ht, hnext⟩ := hl.pop
    cases ht
    have htmp : m.links node = some k := hnext.head?.symm
    rw [QueueLoop.loop, hbody, htmp, List.dropWhile_cons]
    by_cases hput : (m.blk node).status = .put
    · rw [if_pos hput, if_neg (by simp [hput])]
      have hq' : (QueueLoop.take { q with blkQueue := { blocks := some node, blkNum := 0 } }
          node).rbb = m.mark [node] := by
        rw [QueueLoop.take]
        dsimp only
        rw [hq]
        have hset := mark_setBlk m [] node
        rwa [mark_nil] at hset
      have hnd := List.nodup_cons.mp hl.nodup
      have hdisj : ∀ i ∈ k :: l, i ∉ [node] := fun i hi hc =>
        hnd.1 (List.mem_singleton.mp hc ▸ hi)
      have hrun := loop_run queueDataLen hq' rfl (htmp ▸ hnext) hdisj
        (Nat.lt_of_succ_lt_succ hn)
      have hlink : ((QueueLoop.take { q with blkQueue := { blocks := some node, blkNum := 0 } }
          node).rbb.blk k).next = m.links k := by
        rw [hq']
        exact congrFun (mark_links m _) k
      have hfirst : (QueueLoop.take { q with blkQueue := { blocks := some node, blkNum := 0 } }
          node).dataTotalSize = (m.blk node).size % 2 ^ 32 := by
        rw [QueueLoop.take]
        dsimp only
        rw [htotal, hq, Nat.zero_add]
      rw [hfirst] at hrun
      dsimp only
      rw [hlink, hrun, queueSum_cons]
      rfl
    · rw [if_neg hput, if_pos (by simp [hput])]
      have hlink : (q.rbb.blk k).next = m.links k := by
        rw [hq]
        rfl
      dsimp only
      rw [hlink]
      refine ih (htmp ▸ hnext) (Nat.lt_of_succ_lt_succ hn) ?_
      rw [QueueLoop.body, hlast, hq]

/-- **`rt_rbb_blk_queue_get`, as an equation.** -/
theorem queueGet_eq {f : List ℕ} (h : m.Lists l f) (blkQueue : RbbQueue) :
    m.queueGet queueDataLen blkQueue = some (if l = [] then some (0, blkQueue, m) else
      match l.dropWhile fun i => (m.blk i).status ≠ .put with
      | [] => none
      | b :: rest =>
        if (m.queueRun queueDataLen b ((m.blk b).size % 2 ^ 32) rest).2 then
          some (m.queueSum 0 (b :: (m.queueRun queueDataLen b ((m.blk b).size % 2 ^ 32) rest).1),
            ⟨some b, 1 + (m.queueRun queueDataLen b ((m.blk b).size % 2 ^ 32) rest).1.length⟩,
            m.mark (b :: (m.queueRun queueDataLen b ((m.blk b).size % 2 ^ 32) rest).1))
        else none) := by
  rw [queueGet]
  cases l with
  | nil =>
    rw [h.chain.eq_nil_iff.mp rfl, if_pos rfl]
  | cons node l =>
    have hhead : m.blkList = some node := h.chain.head?.symm
    have hchain := h.chain
    rw [hhead] at hchain
    rw [hhead, if_neg (List.cons_ne_nil node l)]
    exact loop_find rfl rfl rfl hchain (Nat.lt_of_succ_le h.length_le)

/-! ## The run of blocks -/

/-- The total of the code is the sum of the sizes, where it does not wrap. -/
theorem queueSum_eq (h : total + m.sizes run < 2 ^ 32) :
    m.queueSum total run = total + m.sizes run := by
  induction run generalizing total with
  | nil => rfl
  | cons i run ih =>
    rw [sizes, List.map_cons, List.sum_cons, ← sizes] at h ⊢
    have hstep : (total + (m.blk i).size) % 2 ^ 32 = total + (m.blk i).size :=
      Nat.mod_eq_of_lt (by omega)
    have hih : m.queueSum (total + (m.blk i).size) run = total + (m.blk i).size + m.sizes run :=
      ih (by omega)
    rw [queueSum, List.foldl_cons, hstep, ← queueSum, hih]
    omega

/-- **Where the run ends**: at the end of the list, or at a block that breaks the loop. All of its
blocks are put. -/
theorem queueRun_spec (m : Rbb) (queueDataLen b total : ℕ) (l : List ℕ) :
    (∀ i ∈ (m.queueRun queueDataLen b total l).1, (m.blk i).status = .put) ∧
    ((m.queueRun queueDataLen b total l).2 = true → ∃ x l₂,
      l = (m.queueRun queueDataLen b total l).1 ++ x :: l₂ ∧
      m.QueueStops queueDataLen
        ((b :: (m.queueRun queueDataLen b total l).1).getLast (List.cons_ne_nil _ _))
        (m.queueSum total (m.queueRun queueDataLen b total l).1) x) := by
  induction l generalizing b total with
  | nil => exact ⟨fun i hi => absurd hi List.not_mem_nil, fun h => absurd h Bool.false_ne_true⟩
  | cons i l ih =>
    rw [queueRun]
    by_cases hstop : m.QueueStops queueDataLen b total i
    · rw [if_pos hstop]
      exact ⟨fun i hi => absurd hi List.not_mem_nil, fun _ => ⟨i, l, rfl, hstop⟩⟩
    · rw [if_neg hstop]
      obtain ⟨hput, hend⟩ := ih i ((total + (m.blk i).size) % 2 ^ 32)
      refine ⟨fun j hj => ?_, fun h => ?_⟩
      · rcases List.mem_cons.mp hj with rfl | hj
        · by_contra hc
          exact hstop (.inl hc)
        · exact hput j hj
      · obtain ⟨x, l₂, hl, hx⟩ := hend h
        refine ⟨x, l₂, ?_, ?_⟩
        · rw [List.cons_append, ← hl]
        · rw [List.getLast_cons (List.cons_ne_nil _ _)]
          exact hx

/-- Adjacent blocks that are put are taken, up to one that breaks the loop. -/
theorem queueRun_eq (hlen : queueDataLen < 2 ^ 32) (hput : ∀ i ∈ run, (m.blk i).status = .put)
    (hadj : (b :: run).IsChain m.Adjacent) (hsum : total + m.sizes run ≤ queueDataLen)
    (hx : m.QueueStops queueDataLen ((b :: run).getLast (List.cons_ne_nil b run))
      (total + m.sizes run) x) :
    m.queueRun queueDataLen b total (run ++ x :: l₂) = (run, true) := by
  induction run generalizing b total with
  | nil =>
    rw [List.nil_append, queueRun]
    exact if_pos hx
  | cons i run ih =>
    rw [List.isChain_cons_cons] at hadj
    rw [sizes, List.map_cons, List.sum_cons, ← sizes] at hsum hx
    have hstep : (total + (m.blk i).size) % 2 ^ 32 = total + (m.blk i).size :=
      Nat.mod_eq_of_lt (by omega)
    have hgo : ¬ m.QueueStops queueDataLen b total i := by
      rintro (hc | hc | hc)
      · exact hc (hput i List.mem_cons_self)
      · have heq := hadj.1
        rw [Adjacent] at heq
        omega
      · rw [hstep] at hc
        omega
    have hih : m.queueRun queueDataLen i (total + (m.blk i).size) (run ++ x :: l₂) = (run, true) := ih
      (fun j hj => hput j (List.mem_cons_of_mem _ hj)) hadj.2 (by omega) (by
        rw [List.getLast_cons (List.cons_ne_nil _ _), ← Nat.add_assoc] at hx
        exact hx)
    rw [List.cons_append, queueRun, if_neg hgo, hstep, hih]

/-- The blocks that are marked are those that have got the status. -/
theorem takenBlocks_mark (hnd : (l₁ ++ run ++ l₂).Nodup)
    (hput : ∀ i ∈ run, (m.blk i).status = .put) :
    takenBlocks m (m.mark run) (l₁ ++ run ++ l₂) = run := by
  obtain ⟨hnd₁, -, hdisj₂⟩ := List.nodup_append.mp hnd
  obtain ⟨-, -, hdisj₁⟩ := List.nodup_append.mp hnd₁
  have hout : ∀ k : List ℕ, (∀ i ∈ k, i ∉ run) → takenBlocks m (m.mark run) k = [] := by
    intro k hk
    refine List.filter_eq_nil_iff.mpr fun i hi => ?_
    rw [mark_status, if_neg (hk i hi)]
    simp
  have hin : takenBlocks m (m.mark run) run = run := by
    refine List.filter_eq_self.mpr fun i hi => ?_
    rw [mark_status, if_pos hi, hput i hi]
    rfl
  have happ : takenBlocks m (m.mark run) (l₁ ++ run ++ l₂) = takenBlocks m (m.mark run) l₁ ++
      takenBlocks m (m.mark run) run ++ takenBlocks m (m.mark run) l₂ := by
    rw [takenBlocks, List.filter_append, List.filter_append]
    rfl
  rw [happ, hin, hout l₁ fun i hi hr => hdisj₁ i hi i hr rfl,
    hout l₂ fun i hi hr => hdisj₂ i (List.mem_append_right _ hr) i hi rfl, List.nil_append,
    List.append_nil]

/-- **When the queue is what it should be**, for the lists of any blocks. -/
theorem queueTaken_iff {f : List ℕ} (h : m.Lists l f) (hlen : queueDataLen < 2 ^ 32)
    (blkQueue : RbbQueue) : ∃ r, m.queueGet queueDataLen blkQueue = some r ∧
      ((∃ r', r = some r' ∧ m.QueueTaken queueDataLen l r') ↔ m.QueueFits queueDataLen l) := by
  refine ⟨_, queueGet_eq h blkQueue, ?_⟩
  by_cases hnil : l = []
  · subst hnil
    rw [if_pos rfl]
    refine ⟨fun _ => .inl rfl, fun _ => ⟨_, rfl, ?_⟩⟩
    exact ⟨(mark_nil m).symm, fun i hi => absurd hi List.not_mem_nil, ⟨[], [], rfl⟩,
      List.IsChain.nil, rfl, Nat.zero_le _, fun hc => absurd rfl hc⟩
  rw [if_neg hnil]
  constructor
  · rintro ⟨r', hr', htaken⟩
    cases hdrop : l.dropWhile fun i => (m.blk i).status ≠ .put with
    | nil =>
      rw [hdrop] at hr'
      cases hr'
    | cons b rest =>
      rw [hdrop] at hr'
      dsimp only at hr'
      obtain ⟨hput, hend⟩ := queueRun_spec m queueDataLen b ((m.blk b).size % 2 ^ 32) rest
      generalize hrun : m.queueRun queueDataLen b ((m.blk b).size % 2 ^ 32) rest = run at hr' hput hend
      by_cases hstop : run.2 = true
      · rw [if_pos hstop] at hr'
        obtain ⟨x, l₂, hrest, hx⟩ := hend hstop
        have hl : l = (l.takeWhile fun i => (m.blk i).status ≠ .put) ++ (b :: run.1) ++ x :: l₂ := by
          conv_lhs => rw [← List.takeWhile_append_dropWhile (l := l)
            (p := fun i => (m.blk i).status ≠ .put), hdrop, hrest]
          rw [List.append_assoc, List.cons_append]
        have hb : (m.blk b).status = .put := by
          have hne := List.head?_dropWhile_not (fun i => (m.blk i).status ≠ .put) l
          rw [hdrop] at hne
          simpa using hne
        have hputs : ∀ i ∈ b :: run.1, (m.blk i).status = .put := fun i hi => by
          rcases List.mem_cons.mp hi with rfl | hi
          · exact hb
          · exact hput i hi
        have hnd := h.chain.nodup
        rw [hl] at hnd
        have hmark := takenBlocks_mark hnd hputs
        rw [← hl] at hmark
        cases hr'
        have hadj := htaken.adjacent
        have htotal := htaken.total
        have hle := htaken.le
        dsimp only at hadj htotal hle
        rw [hmark] at hadj htotal
        rw [queueSum_cons] at htotal hle
        rw [htotal] at hle hx
        refine .inr ⟨l.takeWhile fun i => (m.blk i).status ≠ .put, b, run.1, x, l₂, ?_,
          fun i hi => ?_, hputs, hadj, hle, hx⟩
        · rw [← List.append_assoc]
          exact hl
        · simpa using List.mem_takeWhile_imp hi
      · rw [if_neg hstop] at hr'
        cases hr'
  · intro hfits
    obtain ⟨l₁, b, run, x, l₂, rfl, hpre, hput, hadj, hsum, hx⟩ := hfits.resolve_left hnil
    have hdrop : (l₁ ++ (b :: run ++ x :: l₂)).dropWhile (fun i => (m.blk i).status ≠ .put) =
        b :: (run ++ x :: l₂) := by
      rw [List.dropWhile_append_of_pos fun i hi => by simpa using hpre i hi, List.cons_append,
        List.dropWhile_cons, if_neg (by simp [hput b List.mem_cons_self])]
    have hsize : m.sizes (b :: run) = (m.blk b).size + m.sizes run := by
      rw [sizes, List.map_cons, List.sum_cons, ← sizes]
    rw [hsize] at hsum hx
    have hfirst : (m.blk b).size % 2 ^ 32 = (m.blk b).size := Nat.mod_eq_of_lt (by omega)
    have hrun : m.queueRun queueDataLen b (m.blk b).size (run ++ x :: l₂) = (run, true) :=
      queueRun_eq hlen (fun i hi => hput i (List.mem_cons_of_mem _ hi)) hadj hsum hx
    have htotal : m.queueSum 0 (b :: run) = m.sizes (b :: run) := by
      rw [queueSum_eq (by omega), Nat.zero_add]
    rw [hdrop]
    dsimp only
    rw [hfirst, hrun]
    dsimp only
    rw [if_pos rfl, htotal]
    have hnd := h.chain.nodup
    rw [← List.append_assoc] at hnd
    have hmark := takenBlocks_mark hnd hput
    rw [List.append_assoc] at hmark
    refine ⟨_, rfl, ?_⟩
    refine ⟨?_, ?_, ?_, ?_, ?_, ?_, fun _ => ?_⟩
    · dsimp only
      rw [hmark]
    · dsimp only
      rw [hmark]
      exact hput
    · dsimp only
      rw [hmark]
      exact ⟨l₁, x :: l₂, (List.append_assoc ..).symm⟩
    · dsimp only
      rw [hmark]
      exact hadj
    · dsimp only
      rw [hmark]
    · dsimp only
      rw [hsize]
      exact hsum
    · dsimp only
      rw [hmark]
      refine ⟨rfl, ?_⟩
      rw [List.length_cons, Nat.add_comm]

/-! ## The calls keep the lists -/

/-- Marking blocks in use keeps the lists. -/
theorem Lists.mark {f : List ℕ} (h : m.Lists l f) (hrun : ∀ i ∈ run, i ∈ l) :
    (m.mark run).Lists l f := by
  have hlinks := mark_links m run
  refine ⟨hlinks ▸ h.chain, h.tail, hlinks ▸ h.free, h.apart, h.index, h.freeIndex, fun i hi => ?_⟩
  rw [mark_status]
  split_ifs with hmem
  · exact ⟨fun _ => hrun i hmem, fun _ => by decide⟩
  · exact h.live i hi

/-- Marking blocks in use keeps them in place. -/
theorem Blocks.mark {f : List ℕ} (h : m.Blocks l f) (hrun : ∀ i ∈ run, i ∈ l) :
    (m.mark run).Blocks l f := by
  have hbefore : (m.mark run).Before = m.Before := by
    funext i j
    rw [Before, mark_buf, mark_size, mark_buf, ← Before]
  refine (h.lists.mark hrun).blocks h.bound (fun i hi => ?_) (hbefore ▸ h.sorted)
  rw [Inside, mark_buf, mark_size]
  exact h.inside i hi

/-- The blocks that are taken are blocks in use. -/
theorem queueGet_mark {f : List ℕ} (h : m.Lists l f) {blkQueue : RbbQueue}
    {r : ℕ × RbbQueue × Rbb} (hr : m.queueGet queueDataLen blkQueue = some (some r)) :
    ∃ run, r.2.2 = m.mark run ∧ ∀ i ∈ run, i ∈ l := by
  rw [queueGet_eq h] at hr
  have hr' := Option.some.inj hr
  by_cases hnil : l = []
  · rw [if_pos hnil] at hr'
    cases hr'
    exact ⟨[], (mark_nil m).symm, fun i hi => absurd hi List.not_mem_nil⟩
  rw [if_neg hnil] at hr'
  cases hdrop : l.dropWhile fun i => (m.blk i).status ≠ .put with
  | nil =>
    rw [hdrop] at hr'
    cases hr'
  | cons b rest =>
    rw [hdrop] at hr'
    dsimp only at hr'
    obtain ⟨-, hend⟩ := queueRun_spec m queueDataLen b ((m.blk b).size % 2 ^ 32) rest
    generalize m.queueRun queueDataLen b ((m.blk b).size % 2 ^ 32) rest = run at hr' hend
    by_cases hstop : run.2 = true
    · rw [if_pos hstop] at hr'
      cases hr'
      obtain ⟨x, l₂, hrest, -⟩ := hend hstop
      have hsub : ∀ i ∈ b :: rest, i ∈ l := fun i hi =>
        List.dropWhile_subset _ (hdrop ▸ hi)
      refine ⟨b :: run.1, rfl, fun i hi => hsub i ?_⟩
      rw [hrest]
      rcases List.mem_cons.mp hi with rfl | hi
      · exact List.mem_cons_self
      · exact List.mem_cons_of_mem _ (List.mem_append_left _ hi)
    · rw [if_neg hstop] at hr'
      cases hr'

end

end Rbb

end RtThread
