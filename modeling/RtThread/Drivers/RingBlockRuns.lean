import RtThread.Drivers.RingBlockQueue

/-!
# Runs of the ring block buffer with blocks of any sizes

`rt_rbb_blk_alloc` takes a descriptor before it looks for space, and does not put it back when there
is none; and it does not compare the first block with the buffer.

* `Rbb.call`, `rbbRuns`: the calls, with all arguments that the assertions accept;
* `Lists.call`: what every call keeps; `Blocks.call`: what every call keeps whose block fits;
* **`rbb_alloc_failed`**: when a failed allocation changes nothing, and the number of descriptors in
  the runs where it does;
* **`rbb_alloc_inside`**: when a block lies inside the buffer;
* **`rbb_queue_get`**: when a queue of blocks is what it should be.
-/

namespace RtThread

/-! ## The calls -/

/-- A call of the interface. -/
inductive RbbOp where
  | alloc (blkSize : ℕ)
  | put (i : ℕ)
  | get
  | free (i : ℕ)
  | queueGet (queueDataLen : ℕ)
  deriving DecidableEq, Repr

/-- A call; there is no step when an assertion fails, a descriptor is not one of the array, or a null
node is followed. -/
def Rbb.call (m : Rbb) : RbbOp → Option Rbb
  | .alloc blkSize => (m.blkAlloc blkSize).map fun r => r.2
  | .put i => if i < m.blkMaxNum then m.blkPut i else none
  | .get => m.blkGet.map fun r => r.2
  | .free i => if i < m.blkMaxNum then m.blkFree i else none
  | .queueGet queueDataLen => (m.queueGet queueDataLen ⟨none, 0⟩).bind fun r => r.map fun r => r.2.2

/-- The runs of a ring block buffer after `rt_rbb_init`, anywhere below `2 ^ 32`. -/
def rbbRuns : System Rbb RbbOp where
  init m := ∃ buf bufSize blockSet blkMaxNum, buf + bufSize < 2 ^ 32 ∧
    m = Rbb.init buf bufSize blockSet blkMaxNum
  step m op := m.call op

namespace Rbb

/-- There is no free descriptor, or there is space for the block. -/
def RoomFor (m : Rbb) (blkSize : ℕ) : Prop :=
  m.freeList = none ∨ match m.blkList, m.tail with
    | some head, some tail => m.space (m.blk head) (m.blk tail) blkSize ≠ none
    | _, _ => True

instance (m : Rbb) (blkSize : ℕ) : Decidable (m.RoomFor blkSize) := by
  unfold RoomFor
  split <;> infer_instance

/-- There are blocks already, or the block is not larger than the buffer. -/
def FirstFits (m : Rbb) (blkSize : ℕ) : Prop := m.blkList ≠ none ∨ blkSize ≤ m.bufSize

instance (m : Rbb) (blkSize : ℕ) : Decidable (m.FirstFits blkSize) := by
  unfold FirstFits
  infer_instance

/-- An allocation finds space, where it finds a descriptor. -/
def callRoom (m : Rbb) : RbbOp → Bool
  | .alloc blkSize => m.RoomFor blkSize
  | _ => true

/-- An allocation is one of at least one byte, and of no more than the buffer if it is the first. -/
def callFits (m : Rbb) : RbbOp → Bool
  | .alloc blkSize => 0 < blkSize ∧ m.FirstFits blkSize
  | _ => true

section
variable {m m' : Rbb} {l f : List ℕ}

/-- **What one call keeps**, whatever is allocated. -/
theorem Lists.call (h : m.Lists l f) {op : RbbOp} (hc : m.call op = some m') :
    ∃ l' f', m'.Lists l' f' ∧ m'.blkMaxNum = m.blkMaxNum ∧
      (m.callRoom op = true → l'.length + f'.length = l.length + f.length) := by
  cases op with
  | alloc blkSize =>
    obtain ⟨⟨r, m₁⟩, hr, rfl⟩ := Option.map_eq_some_iff.mp hc
    have hlt : blkSize < 2 ^ 24 := by
      by_contra hno
      rw [blkAlloc, if_neg hno] at hr
      cases hr
    rcases h.blkAlloc_cases hlt with ⟨rfl, -, he⟩ | ⟨i, f', rfl, -, hcases⟩
    · rw [he] at hr
      cases hr
      exact ⟨l, [], h, rfl, fun _ => rfl⟩
    obtain ⟨-, hl', hi, hl, hf, hfree⟩ := h.takeFree
    have hlen : (l ++ [i]).length + f'.length = l.length + (i :: f').length := by
      rw [List.length_append, List.length_singleton, List.length_cons]
      omega
    rcases hcases with ⟨-, -, he⟩ | ⟨a, b, ha, hb, -, -, he⟩
    · rw [he] at hr
      cases hr
      exact ⟨l ++ [i], f', hl'.place _ _ hi hl hf, place_blkMaxNum _ _ _ _, fun _ => hlen⟩
    · cases hs : m.space (m.blk a) (m.blk b) blkSize with
      | none =>
        rw [he, hs] at hr
        cases hr
        refine ⟨l, f', hl', rfl, fun hroom => ?_⟩
        have hroom' : m.RoomFor blkSize := of_decide_eq_true hroom
        rw [RoomFor, ha, hb] at hroom'
        rcases hroom' with hnone | hspace
        · rw [hfree] at hnone
          cases hnone
        · exact absurd hs hspace
      | some buf =>
        rw [he, hs] at hr
        cases hr
        exact ⟨l ++ [i], f', hl'.place _ _ hi hl hf, place_blkMaxNum _ _ _ _, fun _ => hlen⟩
  | put i =>
    simp only [Rbb.call] at hc
    split_ifs at hc with hi
    rw [blkPut] at hc
    split_ifs at hc with hst
    cases hc
    have hil : i ∈ l := (h.live i hi).mp (by rw [hst]; decide)
    exact ⟨l, f, h.setStatus hil (by decide), rfl, fun _ => rfl⟩
  | get =>
    obtain ⟨⟨r, m₁⟩, hr, rfl⟩ := Option.map_eq_some_iff.mp hc
    rw [h.blkGet] at hr
    cases hf : l.find? fun i => (m.blk i).status = .put with
    | none =>
      rw [hf] at hr
      cases hr
      exact ⟨l, f, h, rfl, fun _ => rfl⟩
    | some i =>
      rw [hf] at hr
      cases hr
      exact ⟨l, f, h.setStatus (List.mem_of_find?_eq_some hf) (by decide), rfl, fun _ => rfl⟩
  | free i =>
    simp only [Rbb.call] at hc
    split_ifs at hc with hi
    obtain ⟨l₁, l₂, rfl, h', -, -, -, hmax⟩ := h.blkFree hi hc
    refine ⟨_, _, h', hmax, fun _ => ?_⟩
    simp only [List.length_append, List.length_cons]
    omega
  | queueGet queueDataLen =>
    obtain ⟨r, hr, hr'⟩ := Option.bind_eq_some_iff.mp hc
    obtain ⟨r', rfl, rfl⟩ := Option.map_eq_some_iff.mp hr'
    obtain ⟨run, hmark, hrun⟩ := queueGet_mark h hr
    rw [hmark]
    exact ⟨l, f, h.mark hrun, rfl, fun _ => rfl⟩

/-- In every run there are the two lists. -/
theorem reach_lists {ok : Rbb → RbbOp → Bool} (h : rbbRuns.Reach ok m) : ∃ l f, m.Lists l f := by
  refine h.invariant (I := fun m => ∃ l f, m.Lists l f) ?_ ?_
  · rintro _ ⟨buf, bufSize, blockSet, n, -, rfl⟩
    exact ⟨_, _, (Lists.init buf bufSize blockSet n).1⟩
  · rintro s op s' ⟨l, f, hI⟩ _ hc
    obtain ⟨l', f', hI', -, -⟩ := hI.call hc
    exact ⟨l', f', hI'⟩

/-- **What one call keeps**, when it does not allocate a first block that is too large. -/
theorem Blocks.call (h : m.Blocks l f) {op : RbbOp} (hok : m.callFits op = true)
    (hc : m.call op = some m') : ∃ l' f', m'.Blocks l' f' := by
  cases op with
  | alloc blkSize =>
    obtain ⟨⟨r, m₁⟩, hr, rfl⟩ := Option.map_eq_some_iff.mp hc
    have hfits : 0 < blkSize ∧ m.FirstFits blkSize := of_decide_eq_true hok
    rcases h.blkAlloc hfits.1 (fun hb => hfits.2.resolve_left (not_not.mpr hb)) hr with
      ⟨-, ⟨f', h'⟩, -⟩ | ⟨i, -, -, ⟨f', h'⟩, -⟩
    · exact ⟨l, f', h'⟩
    · exact ⟨_, f', h'⟩
  | put i =>
    simp only [Rbb.call] at hc
    split_ifs at hc with hi
    rw [blkPut] at hc
    split_ifs at hc with hst
    cases hc
    have hil : i ∈ l := (h.live i hi).mp (by rw [hst]; decide)
    exact ⟨l, f, h.setStatus hil (by decide)⟩
  | get =>
    obtain ⟨⟨r, m₁⟩, hr, rfl⟩ := Option.map_eq_some_iff.mp hc
    rw [h.lists.blkGet] at hr
    cases hf : l.find? fun i => (m.blk i).status = .put with
    | none =>
      rw [hf] at hr
      cases hr
      exact ⟨l, f, h⟩
    | some i =>
      rw [hf] at hr
      cases hr
      exact ⟨l, f, h.setStatus (List.mem_of_find?_eq_some hf) (by decide)⟩
  | free i =>
    simp only [Rbb.call] at hc
    split_ifs at hc with hi
    obtain ⟨l₁, l₂, rfl, h', -⟩ := h.blkFree hi hc
    exact ⟨_, _, h'⟩
  | queueGet queueDataLen =>
    obtain ⟨r, hr, hr'⟩ := Option.bind_eq_some_iff.mp hc
    obtain ⟨r', rfl, rfl⟩ := Option.map_eq_some_iff.mp hr'
    obtain ⟨run, hmark, hrun⟩ := queueGet_mark h.lists hr
    rw [hmark]
    exact ⟨l, f, h.mark hrun⟩

/-- In the runs whose blocks fit, they lie in the buffer. -/
theorem reach_blocks (h : rbbRuns.Reach callFits m) : ∃ l f, m.Blocks l f := by
  refine h.invariant (I := fun m => ∃ l f, m.Blocks l f) ?_ ?_
  · rintro _ ⟨buf, bufSize, blockSet, n, hb, rfl⟩
    exact ⟨_, _, Blocks.init buf bufSize hb blockSet n⟩
  · rintro s op s' ⟨l, f, hI⟩ hok hc
    exact hI.call hok hc

/-- In the runs whose allocations find space, no descriptor is lost. -/
theorem reach_length (h : rbbRuns.Reach callRoom m) :
    ∃ l f, m.Lists l f ∧ l.length + f.length = m.blkMaxNum := by
  refine h.invariant (I := fun m => ∃ l f, m.Lists l f ∧ l.length + f.length = m.blkMaxNum) ?_ ?_
  · rintro _ ⟨buf, bufSize, blockSet, n, -, rfl⟩
    obtain ⟨hl, -, -, hmax⟩ := Lists.init buf bufSize blockSet n
    refine ⟨_, _, hl, ?_⟩
    rw [hmax, List.length_nil, Nat.zero_add, List.length_reverse, List.length_range]
  · rintro s op s' ⟨l, f, hI, hlen⟩ hok hc
    obtain ⟨l', f', hI', hmax, hlen'⟩ := hI.call hc
    refine ⟨l', f', hI', ?_⟩
    rw [hlen' hok, hlen, hmax]

end

end Rbb

/-! ## Failed allocations -/

/-- A failed allocation changes nothing when there is no descriptor; where there is one, it is taken
out of the free list. -/
theorem Rbb.Lists.alloc_failed {m : Rbb} {l f : List ℕ} (h : m.Lists l f) {blkSize : ℕ}
    (hsize : blkSize < 2 ^ 24) :
    (∀ m', m.blkAlloc blkSize = some (none, m') → m' = m) ↔ m.RoomFor blkSize := by
  rcases h.blkAlloc_cases hsize with ⟨-, hnone, he⟩ | ⟨i, f', rfl, hfree, hcases⟩
  · refine ⟨fun _ => .inl hnone, fun _ m' hm' => ?_⟩
    rw [he] at hm'
    cases hm'
    rfl
  rcases hcases with ⟨-, hb, he⟩ | ⟨a, b, ha, hb, -, -, he⟩
  · refine ⟨fun _ => .inr ?_, fun _ m' hm' => ?_⟩
    · rw [hb]
      trivial
    · rw [he] at hm'
      cases hm'
  have hlost : (m.links i) ≠ some i := fun e => by
    have hchain := h.free
    rw [hfree] at hchain
    obtain ⟨t, ht, hnext⟩ := hchain.pop
    cases ht
    rw [e] at hnext
    obtain ⟨t, rfl, -⟩ := hnext.pop
    exact (List.nodup_cons.mp h.free.nodup).1 List.mem_cons_self
  cases hs : m.space (m.blk a) (m.blk b) blkSize with
  | none =>
    constructor
    · intro hsame
      rw [hs] at he
      have hm := congrArg Rbb.freeList (hsame _ he)
      exact absurd (hm.trans hfree) hlost
    · intro hroom
      rw [RoomFor, ha, hb, hfree] at hroom
      rcases hroom with hnone | hspace
      · cases hnone
      · exact absurd hs hspace
  | some buf =>
    refine ⟨fun _ => .inr ?_, fun _ m' hm' => ?_⟩
    · rw [ha, hb]
      dsimp only
      rw [hs]
      exact Option.some_ne_none buf
    · rw [he, hs] at hm'
      cases hm'

/-- **When a failed allocation changes nothing**: in every state, exactly when there is no free
descriptor or there is space; and in the runs where that is so, the descriptors of the two lists are
all that there are. -/
theorem rbb_alloc_failed (m : Rbb) :
    (rbbRuns.Reach System.anyStep m → ∀ blkSize < 2 ^ 24,
      ((∀ m', m.blkAlloc blkSize = some (none, m') → m' = m) ↔ m.RoomFor blkSize)) ∧
    (rbbRuns.Reach Rbb.callRoom m →
      ∃ l f, NextChain m.links m.blkList l ∧ NextChain m.links m.freeList f ∧
        l.length + f.length = m.blkMaxNum) := by
  refine ⟨fun h blkSize hsize => ?_, fun h => ?_⟩
  · obtain ⟨l, f, hl⟩ := Rbb.reach_lists h
    exact hl.alloc_failed hsize
  · obtain ⟨l, f, hl, hlen⟩ := Rbb.reach_length h
    exact ⟨l, f, hl.chain, hl.free, hlen⟩

/-- A block is allocated and freed, and all descriptors are there. -/
theorem rbb_alloc_failed_freed : ∃ m : Rbb, rbbRuns.Reach Rbb.callRoom m ∧
    (∀ m', m.blkAlloc 9 = some (none, m') → m' = m) ∧
    ∃ l f, NextChain m.links m.blkList l ∧ NextChain m.links m.freeList f ∧
      l.length + f.length = m.blkMaxNum := by
  obtain ⟨m, hm, hp⟩ := System.exists_reach rbbRuns Rbb.callRoom (fun m => decide (m.RoomFor 9))
    ⟨100, 8, fun _ => ⟨.unused, 0, 0, none⟩, 2, by decide, rfl⟩ [.alloc 4, .free 1]
    (by decide)
  have hany : rbbRuns.Reach System.anyStep m := hm.mono fun _ _ _ => rfl
  exact ⟨m, hm, ((rbb_alloc_failed m).1 hany 9 (by decide)).mpr (of_decide_eq_true hp),
    (rbb_alloc_failed m).2 hm⟩

/-- **An allocation that fails for want of space loses a descriptor**: after a block of eight bytes, a
second one. -/
theorem rbb_alloc_lost : ∃ m : Rbb, rbbRuns.Reach System.anyStep m ∧
    ∃ m', m.blkAlloc 8 = some (none, m') ∧ m.freeList = some 0 ∧ m'.freeList = none := by
  obtain ⟨m, hm, hp⟩ := System.exists_reach rbbRuns System.anyStep
    (fun m => decide (m.freeList = some 0 ∧ ((m.blkAlloc 8).any fun r : Option ℕ × Rbb =>
      decide (r.1 = none ∧ r.2.freeList = none)) = true))
    ⟨100, 8, fun _ => ⟨.unused, 0, 0, none⟩, 2, by decide, rfl⟩ [.alloc 8] (by decide)
  obtain ⟨hfree, hp⟩ := of_decide_eq_true hp
  obtain ⟨⟨r, m'⟩, hr, hp⟩ := (Option.any_eq_true _ _).mp hp
  obtain ⟨hnone, hfree'⟩ := of_decide_eq_true hp
  dsimp only at hnone hfree'
  rw [hnone] at hr
  exact ⟨m, hm, m', hr, hfree, hfree'⟩

/-! ## The first block -/

/-- **When a block lies inside the buffer**: in every run whose blocks fit, exactly when there are
blocks already or it is not larger than the buffer. -/
theorem rbb_alloc_inside {m : Rbb} (h : rbbRuns.Reach Rbb.callFits m) :
    ∀ (blkSize i : ℕ) (m' : Rbb), 0 < blkSize → m.blkAlloc blkSize = some (some i, m') →
      (m'.Inside i ↔ m.FirstFits blkSize) := by
  intro blkSize i m' hpos hr
  obtain ⟨l, f, hb⟩ := Rbb.reach_blocks h
  constructor
  · intro hin
    by_contra hno
    obtain ⟨hnone, hlarge⟩ := not_or.mp hno
    have hnone' := not_not.mp hnone
    have hlt : blkSize < 2 ^ 24 := by
      by_contra hc
      rw [Rbb.blkAlloc, if_neg hc] at hr
      cases hr
    rcases hb.lists.blkAlloc_cases hlt with ⟨-, -, he⟩ | ⟨j, f', -, -, hcases⟩
    · rw [he] at hr
      cases hr
    rcases hcases with ⟨-, -, he⟩ | ⟨a, b, ha, -⟩
    · rw [he] at hr
      cases hr
      rw [Rbb.Inside, Rbb.Lists.place_blk_self, Rbb.Lists.place_buf,
        Rbb.Lists.place_bufSize] at hin
      dsimp only at hin
      omega
    · rw [hnone'] at ha
      cases ha
  · intro hfits
    rcases hb.blkAlloc hpos (fun he => hfits.resolve_left (not_not.mpr he)) hr with
      ⟨hnone, -⟩ | ⟨j, hj, -, ⟨f', hb'⟩, -⟩
    · cases hnone
    · obtain rfl := Option.some.inj hj
      exact hb'.inside i (List.mem_append_right _ (List.mem_singleton_self i))

/-- A second block. -/
theorem rbb_alloc_inside_second : ∃ m : Rbb, rbbRuns.Reach Rbb.callFits m ∧
    ∃ m', m.blkAlloc 4 = some (some 0, m') ∧ m'.Inside 0 := by
  obtain ⟨m, hm, hp⟩ := System.exists_reach rbbRuns Rbb.callFits
    (fun m => decide (m.blkList ≠ none ∧
      ((m.blkAlloc 4).any fun r : Option ℕ × Rbb => decide (r.1 = some 0)) = true))
    ⟨100, 8, fun _ => ⟨.unused, 0, 0, none⟩, 2, by decide, rfl⟩ [.alloc 4] (by decide)
  obtain ⟨hlist, hp⟩ := of_decide_eq_true hp
  obtain ⟨⟨r, m'⟩, hr, hp⟩ := (Option.any_eq_true _ _).mp hp
  have hsome : r = some 0 := of_decide_eq_true hp
  rw [hsome] at hr
  exact ⟨m, hm, m', hr, (rbb_alloc_inside hm 4 0 m' (by decide) hr).mpr (.inl hlist)⟩

/-- **A first block that is larger than the buffer** is allocated. -/
theorem rbb_alloc_outside : ∃ m : Rbb, rbbRuns.Reach System.anyStep m ∧
    ∃ m', m.blkAlloc 9 = some (some 1, m') ∧ ¬ m'.Inside 1 := by
  obtain ⟨m, hm, hp⟩ := System.exists_reach rbbRuns System.anyStep
    (fun m => (m.blkAlloc 9).any fun r : Option ℕ × Rbb => decide (r.1 = some 1 ∧ (r.2.blk 1).size = 9 ∧
      (r.2.blk 1).buf = 100 ∧ r.2.buf = 100 ∧ r.2.bufSize = 8))
    ⟨100, 8, fun _ => ⟨.unused, 0, 0, none⟩, 2, by decide, rfl⟩ [] (by decide)
  obtain ⟨⟨r, m'⟩, hr, hp⟩ := (Option.any_eq_true _ _).mp hp
  obtain ⟨hsome, hsize, hbuf, hb, hbs⟩ := of_decide_eq_true hp
  dsimp only at hsome hsize hbuf hb hbs
  rw [hsome] at hr
  refine ⟨m, hm, m', hr, fun hin => ?_⟩
  rw [Rbb.Inside, hsize, hbuf, hb, hbs] at hin
  omega

/-! ## Queues -/

/-- **When `rt_rbb_blk_queue_get` does what it says**: in every run, with blocks of any sizes, it ends,
and it takes a queue of adjacent blocks that are put, without following a null node, exactly when the
blocks are such that it fits. -/
theorem rbb_queue_get {m : Rbb} (h : rbbRuns.Reach System.anyStep m) :
    ∃ l, NextChain m.links m.blkList l ∧
      ∀ (queueDataLen : ℕ) (blkQueue : RbbQueue), 0 < queueDataLen → queueDataLen < 2 ^ 32 →
        ∃ r, m.queueGet queueDataLen blkQueue = some r ∧
          ((∃ r', r = some r' ∧ m.QueueTaken queueDataLen l r') ↔ m.QueueFits queueDataLen l) := by
  obtain ⟨l, f, hl⟩ := Rbb.reach_lists h
  exact ⟨l, hl.chain, fun queueDataLen blkQueue _ hlen => Rbb.queueTaken_iff hl hlen blkQueue⟩

/-- Two blocks that are put, and a third one that is not. -/
theorem rbb_queue_get_two : ∃ m : Rbb, rbbRuns.Reach System.anyStep m ∧
    ∃ r, m.queueGet 8 ⟨none, 0⟩ = some (some r) ∧ m.QueueTaken 8 [2, 1, 0] r := by
  obtain ⟨m, hm, hp⟩ := System.exists_reach rbbRuns System.anyStep
    (fun m => decide ((m.blkList = some 2 ∧ (m.blk 2).next = some 1 ∧ (m.blk 1).next = some 0 ∧
      (m.blk 0).next = none) ∧ m.blk 2 = ⟨.put, 3, 100, some 1⟩ ∧ m.blk 1 = ⟨.put, 3, 103, some 0⟩ ∧
      (m.blk 0).status = .inited))
    ⟨100, 16, fun _ => ⟨.unused, 0, 0, none⟩, 3, by decide, rfl⟩
    [.alloc 3, .alloc 3, .alloc 3, .put 2, .put 1] (by decide)
  obtain ⟨⟨h0, h2, h1, h3⟩, hb2, hb1, hb0⟩ := of_decide_eq_true hp
  obtain ⟨l, hl, hget⟩ := rbb_queue_get hm
  have hlist : NextChain m.links m.blkList [2, 1, 0] := by
    rw [h0]
    refine .cons ?_
    rw [Rbb.links, h2]
    refine .cons ?_
    rw [Rbb.links, h1]
    refine .cons ?_
    rw [Rbb.links, h3]
    exact .nil
  obtain rfl := hl.unique hlist
  obtain ⟨r, hr, hiff⟩ := hget 8 ⟨none, 0⟩ (by decide) (by decide)
  obtain ⟨r', rfl, htaken⟩ := hiff.mpr (.inr ⟨[], 2, [1], 0, [], rfl, by simp, by simp [hb2, hb1],
    by simp [Rbb.Adjacent, hb2, hb1], by simp [Rbb.sizes, hb2, hb1], .inl (by rw [hb0]; decide)⟩)
  exact ⟨m, hm, r', hr, htaken⟩

/-- **The only block is put**: the function follows the null node behind it. -/
theorem rbb_queue_get_null : ∃ m : Rbb, rbbRuns.Reach System.anyStep m ∧
    m.queueGet 8 ⟨none, 0⟩ = some none := by
  obtain ⟨m, hm, hp⟩ := System.exists_reach rbbRuns System.anyStep
    (fun m => (m.queueGet 8 ⟨none, 0⟩).any (·.isNone))
    ⟨100, 8, fun _ => ⟨.unused, 0, 0, none⟩, 2, by decide, rfl⟩ [.alloc 4, .put 1]
    (by decide)
  refine ⟨m, hm, ?_⟩
  cases hq : m.queueGet 8 ⟨none, 0⟩ with
  | none =>
    rw [hq] at hp
    cases hp
  | some r =>
    cases r with
    | none => rfl
    | some r =>
      rw [hq] at hp
      cases hp

end RtThread
