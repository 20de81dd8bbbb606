import RtThread.Lib.Extents
import RtThread.Memory.SlabHeap

/-!
# The statistics of the slab heap

* `Slab.callUsed`: the values that `used` takes in a call;
* `slabAlloc_used`, `slabFree_used`: what the calls do to `used` and `max`;
* `Accounted`: `used` is what the blocks of the heap have;
* **`slab_usage`**: so it is after every sequence of calls, and `max` is the greatest value that `used`
  has had.
-/

namespace RtThread

/-! ## What the calls do to `used` -/

namespace Slab

variable (m : Slab)

/-- The values that `used` takes in `rt_slab_alloc`. -/
def allocUsed (size : ℕ) : List ℕ :=
  match m.slabAlloc size with
  | some (some _, m') => [m'.used]
  | _ => []

/-- The values that `used` takes in `rt_slab_free`. -/
def freeUsed (ptr : Option ℕ) : List ℕ :=
  match ptr with
  | none => []
  | some ptr => ((m.slabFree (some ptr)).map fun m' => m'.used).toList

/-- The values that `used` takes when a block is allocated anew and the old one is freed. -/
def moveUsed (ptr size : ℕ) : List ℕ :=
  match m.slabAlloc size with
  | some (some _, m') => m'.used :: m'.freeUsed (some ptr)
  | _ => []

/-- The values that `used` takes in `rt_slab_realloc`. -/
def reallocUsed (ptr : Option ℕ) (size : ℕ) : List ℕ :=
  match ptr with
  | none => m.allocUsed size
  | some ptr =>
    if size = 0 then m.freeUsed (some ptr)
    else
      let kup := m.memusage (m.btokup ptr)
      match kup.type with
      | .large => m.moveUsed ptr size
      | .small =>
        if (m.zone (ptr / rtMmPageSize - kup.size)).chunksize = (zoneindex size).2 then []
        else m.moveUsed ptr (zoneindex size).2
      | _ => []

/-- The values that `used` takes in a call, in their order. -/
def callUsed : SlabLabel → List ℕ
  | .alloc size => m.allocUsed size.toNat
  | .realloc ptr size => m.reallocUsed ptr size.toNat
  | .free ptr => m.freeUsed ptr
  | .write _ _ => []

end Slab

section

variable {k : ℕ} {m m' : Slab} {g g' : SlabLists} {p q n size z zi : ℕ}

/-- `used` grows by `n`, and `max` is raised to it. -/
def UsageRaised (m m' : Slab) (n : ℕ) : Prop :=
  m'.used = (m.used + n) % 2 ^ 32 ∧ m'.max = max m.max m'.used

theorem memStat_used (m : Slab) (n : ℕ) : UsageRaised m (m.memStat n) n := by
  refine ⟨rfl, ?_⟩
  change (if (m.used + n) % 2 ^ 32 > m.max then (m.used + n) % 2 ^ 32 else m.max) =
    max m.max ((m.used + n) % 2 ^ 32)
  rw [max_def]
  split_ifs <;> omega

theorem allocLarge_used (h : m.allocLarge size = some (some p, m')) :
    UsageRaised m m' (alignTo size rtMmPageSize) := by
  simp only [Slab.allocLarge] at h
  split at h
  · cases h
  · cases h
  · cases h
    exact memStat_used _ _

theorem allocChunk_used (h : m.allocChunk zi size z = some (some p, m')) :
    UsageRaised m m' (m.zone z).chunksize := by
  simp only [Slab.allocChunk] at h
  by_cases hf : (m.zone z).nfree > 0
  · rw [if_pos hf] at h
    by_cases hu : (m.zone z).take.uindex + 1 ≠ (m.zone z).take.nmax
    · rw [if_pos hu] at h
      cases h
      exact memStat_used _ _
    · rw [if_neg hu] at h
      split at h
      · cases h
      · cases h
        exact memStat_used _ _
  · rw [if_neg hf] at h
    cases h

theorem takeZone_used {r : Option ℕ} (h : m.takeZone = some (r, m')) :
    m'.used = m.used ∧ m'.max = m.max := by
  simp only [Slab.takeZone] at h
  split at h
  · cases h
    exact ⟨rfl, rfl⟩
  · split at h <;> cases h
    · exact ⟨rfl, rfl⟩
    · exact ⟨rfl, rfl⟩

theorem allocZone_used (h : m.allocZone zi size = some (some p, m')) : UsageRaised m m' size := by
  simp only [Slab.allocZone] at h
  split at h
  · cases h
  · cases h
  · next z m₁ hz =>
    have hsame := takeZone_used hz
    cases h
    have hc := memStat_used ((m₁.setZone z (m₁.newZone zi size z)).setArray zi (some z)) size
    rw [UsageRaised, ← hsame.1, ← hsame.2]
    exact hc

/-- **`rt_slab_alloc`** adds what it gives. -/
theorem slabAlloc_used (h : SlabInv k m g) (hr : m.slabAlloc size = some (some p, m')) :
    UsageRaised m m' (m.given size) := by
  have hlim := h.shape.limit
  rw [Slab.slabAlloc] at hr
  by_cases h0 : size = 0
  · rw [if_pos h0] at hr
    cases hr
  · rw [if_neg h0] at hr
    rw [Slab.given]
    by_cases hl : size ≥ m.zoneLimit
    · rw [if_pos hl] at hr ⊢
      exact allocLarge_used hr
    · obtain ⟨h1, h2, -⟩ := zoneindex_spec (n := size) (by omega) (by omega)
      rw [if_neg hl] at hr ⊢
      dsimp only at hr
      rw [if_pos h2] at hr
      cases hz : m.zoneArray (zoneindex size).1 with
      | some z =>
        rw [hz] at hr
        obtain ⟨hzz, hzi, -⟩ := h.head_zone hz
        have hcs : (m.zone z).chunksize = (zoneindex size).2 := by
          rw [(h.zoneOk hzz).size, hzi, h1]
        rw [← hcs]
        exact allocChunk_used hr
      | none =>
        rw [hz] at hr
        exact allocZone_used hr

theorem retireZone_used (h : m.retireZone z = some m') : m'.used = m.used ∧ m'.max = m.max := by
  simp only [Slab.retireZone] at h
  split at h
  · cases h
  · next pz _ =>
    cases h
    cases pz with
    | none => exact ⟨rfl, rfl⟩
    | some y => exact ⟨rfl, rfl⟩

theorem releaseZone_used (h : m.releaseZone = some m') : m'.used = m.used ∧ m'.max = m.max := by
  simp only [Slab.releaseZone] at h
  split at h
  · cases h
  · obtain ⟨pages, -, rfl⟩ := Option.map_eq_some_iff.mp h
    exact ⟨rfl, rfl⟩

theorem freeChunk_used (h : m.freeChunk p = some m') :
    m'.used = (m.memUnstat (m.zone (p / rtMmPageSize - (m.memusage (m.btokup p)).size)).chunksize).used ∧
      m'.max = m.max := by
  simp only [Slab.freeChunk] at h
  split_ifs at h
  · split at h
    · cases h
    · next m₁ hm =>
      have h1 := retireZone_used hm
      split_ifs at h
      · have h2 := releaseZone_used h
        exact ⟨h2.1.trans h1.1, h2.2.trans h1.2⟩
      · cases h
        exact h1
  · cases h
    exact ⟨rfl, rfl⟩

/-- **`rt_slab_free`** takes off what the block has. -/
theorem slabFree_used (h : m.slabFree (some p) = some m') :
    m'.used = (m.memUnstat (m.blockSize p)).used ∧ m'.max = m.max := by
  simp only [Slab.slabFree] at h
  simp only [Slab.blockSize]
  split_ifs at h ⊢
  · simp only [Slab.freeLarge] at h
    split_ifs at h
    obtain ⟨pages, -, rfl⟩ := Option.map_eq_some_iff.mp h
    exact ⟨rfl, rfl⟩
  · exact freeChunk_used h

/-! ## What `used` counts -/

/-- `used` is what the blocks have. -/
def Accounted (m : Slab) (g : SlabLists) : Prop :=
  ∃ f, Extents f (Block m g) ∧ m.used = extentSum (2 ^ 32) f

/-- The blocks of a heap have less than 2^32 bytes, all together. -/
theorem SlabInv.extentSum_lt {f : ℕ → ℕ} (h : SlabInv k m g) (hf : Extents f (Block m g)) :
    extentSum (2 ^ 32) f < 2 ^ 32 := by
  have hlim : m.heapEnd < pageCount := h.pages.limit
  have hp : pageCount = 1048576 := rfl
  have hz : rtMmPageSize = 4096 := rfl
  have hblock : ∀ p, f p ≠ 0 → Block m g p (f p) :=
    fun p hp => (hf p (f p)).mpr ⟨rfl, Nat.pos_of_ne_zero hp⟩
  have hle : extentSum (2 ^ 32) f ≤ m.heapEnd * rtMmPageSize :=
    extentSum_le (fun p hp => (h.block_range (hblock p hp)).2) fun p q hpq hp hq => h.block_disjoint (hblock p hp) (hblock q hq) hpq
  rw [hz] at hle
  omega

theorem SlabInv.block_lt (h : SlabInv k m g) (hb : Block m g p n) : p < 2 ^ 32 := by
  have hlim : m.heapEnd < pageCount := h.pages.limit
  have hp : pageCount = 1048576 := rfl
  have hz : rtMmPageSize = 4096 := rfl
  have hin := (h.block_range hb).2
  have hn := h.block_pos hb
  rw [hz] at hin
  omega

/-- **A block that is allocated.** -/
theorem Accounted.alloc (hc : Accounted m g) (h' : SlabInv k m' g') (hcount : UsageRaised m m' n)
    (hn : 0 < n) (hnew : ∀ k, ¬ Block m g p k)
    (hb : ∀ q k, Block m' g' q k ↔ Block m g q k ∨ q = p ∧ k = n) : Accounted m' g' := by
  obtain ⟨f, hf, hused⟩ := hc
  have hf' := hf.take hn hnew hb
  refine ⟨_, hf', ?_⟩
  have hp : p < 2 ^ 32 := h'.block_lt ((hb p n).mpr (.inr ⟨rfl, rfl⟩))
  have hsum := extentSum_update (n := n) (f := f) hp
  have hlt := h'.extentSum_lt hf'
  rw [hf.eq_zero hnew, Nat.add_zero] at hsum
  rw [hcount.1, hused, ← hsum]
  exact Nat.mod_eq_of_lt hlt

/-- **A block that is freed.** -/
theorem Accounted.free (hc : Accounted m g) (h : SlabInv k m g) (hp : Block m g p n)
    (hused' : m'.used = (m.memUnstat n).used)
    (hb : ∀ q k, Block m' g' q k ↔ Block m g q k ∧ q ≠ p) :
    Accounted m' g' ∧ m'.used ≤ m.used := by
  obtain ⟨f, hf, hused⟩ := hc
  have hsum := extentSum_update (n := 0) (f := f) (h.block_lt hp)
  have hlt := h.extentSum_lt hf
  rw [((hf p n).mp hp).1, Nat.add_zero] at hsum
  have heq : m'.used = extentSum (2 ^ 32) (Function.update f p 0) := by
    rw [hused']
    change (m.used + (2 ^ 32 - 1) * n) % 2 ^ 32 = _
    omega
  exact ⟨⟨_, hf.drop hb, heq⟩, by omega⟩

/-- The heap between two changes, with the values that `used` has had. -/
structure UsageInv (m : Slab) (g : SlabLists) (reached : List ℕ) : Prop where
  inv : SlabInv 2 m g
  spare : g.spare = []
  used : Accounted m g
  now : m.used ∈ reached
  max : IsGreatest {u | u ∈ reached} m.max

namespace UsageInv

variable {reached : List ℕ}

/-- **`rt_slab_alloc`** gives a block, or changes nothing. -/
theorem alloc (h : UsageInv m g reached) (hs : size < 2 ^ 32) :
    (m.slabAlloc size = some (none, m)) ∨ ∃ p m' g', m.slabAlloc size = some (some p, m') ∧
      UsageInv m' g' (reached ++ [m'.used]) ∧ (∀ k, ¬ Block m g p k) ∧ size ≤ m.given size ∧
      ∀ q k, Block m' g' q k ↔ Block m g q k ∨ q = p ∧ k = m.given size := by
  obtain ⟨-, h2⟩ | ⟨h1, p, m', g', h2, h3, h4, h5, h6⟩ := h.inv.alloc h.spare size
  · exact .inl h2
  · have hcount := slabAlloc_used h.inv h2
    have hbound := h.inv.given_bounds h1 hs
    have hpos : 0 < m.given size := Nat.lt_of_lt_of_le (Nat.pos_of_ne_zero h1.1) hbound.1
    refine .inr ⟨p, m', g', h2, ⟨h3, h4, h.used.alloc h3 hcount hpos h5 h6, by simp, ?_, ?_⟩, h5,
      hbound.1, h6⟩
    · rw [hcount.2]
      rcases le_total m.max m'.used with hle | hle
      · rw [max_eq_right hle]
        exact List.mem_append_right _ (List.mem_singleton_self _)
      · rw [max_eq_left hle]
        exact List.mem_append_left _ h.max.1
    · intro u hu
      rw [hcount.2]
      rcases List.mem_append.mp hu with hu | hu
      · exact le_max_of_le_left (h.max.2 hu)
      · rw [List.mem_singleton.mp hu]
        exact le_max_right _ _

/-- **`rt_slab_free`** of a block. -/
theorem free (h : UsageInv m g reached) (hb : Block m g p n) :
    ∃ m' g', m.slabFree (some p) = some m' ∧ UsageInv m' g' (reached ++ [m'.used]) ∧
      ∀ q k, Block m' g' q k ↔ Block m g q k ∧ q ≠ p := by
  obtain ⟨m', g', h1, h2, h3, h4⟩ := h.inv.free hb
  have hused := slabFree_used h1
  rw [h.inv.blockSize_eq hb] at hused
  obtain ⟨hacc, hle⟩ := h.used.free h.inv hb hused.1 h4
  refine ⟨m', g', h1, ⟨h2, h3.trans h.spare, hacc, by simp, ?_, ?_⟩, h4⟩
  · rw [hused.2]
    exact List.mem_append_left _ h.max.1
  · intro u hu
    rw [hused.2]
    rcases List.mem_append.mp hu with hu | hu
    · exact h.max.2 hu
    · rw [List.mem_singleton.mp hu]
      exact hle.trans (h.max.2 h.now)

/-- Allocating anew and freeing the old block. -/
theorem move (h : UsageInv m g reached) (hb : Block m g p n) (hs : size < 2 ^ 32) :
    (m.moveBlock p size = some (none, m) ∧ m.moveUsed p size = []) ∨
      ∃ q m' g' k, m.moveBlock p size = some (some q, m') ∧
        UsageInv m' g' (reached ++ m.moveUsed p size) ∧ size ≤ k ∧
        ∀ x y, Block m' g' x y ↔ (Block m g x y ∧ x ≠ p) ∨ x = q ∧ y = k := by
  rw [Slab.moveBlock, Slab.moveUsed]
  obtain h1 | ⟨q, m₁, g₁, h1, h2, h3, h4, h5⟩ := h.alloc hs
  · rw [h1]
    exact .inl ⟨rfl, rfl⟩
  · obtain ⟨m₂, g₂, h6, h7, h8⟩ := h2.free ((h5 p n).mpr (.inl hb))
    have hqp : q ≠ p := fun e => h3 n (e ▸ hb)
    rw [h1]
    dsimp only [Slab.freeUsed]
    rw [h6]
    refine .inr ⟨q, m₂, g₂, _, rfl, ?_, h4, fun x y => ?_⟩
    · rw [List.append_assoc] at h7
      exact h7
    · rw [h8, h5]
      constructor
      · rintro ⟨hx | hx, hxp⟩
        · exact .inl ⟨hx, hxp⟩
        · exact .inr hx
      · rintro (⟨hx, hxp⟩ | ⟨rfl, hy⟩)
        · exact ⟨.inl hx, hxp⟩
        · exact ⟨.inr ⟨rfl, hy⟩, hqp⟩

/-- **`rt_slab_realloc`** of a block to another size. -/
theorem realloc (h : UsageInv m g reached) (hb : Block m g p n) (h0 : size ≠ 0) (hs : size < 2 ^ 32) :
    (m.slabRealloc (some p) size = some (none, m) ∧ m.reallocUsed (some p) size = []) ∨
      ∃ q m' g' k, m.slabRealloc (some p) size = some (some q, m') ∧
        UsageInv m' g' (reached ++ m.reallocUsed (some p) size) ∧ size ≤ k ∧
        ∀ x y, Block m' g' x y ↔ (Block m g x y ∧ x ≠ p) ∨ x = q ∧ y = k := by
  simp only [Slab.slabRealloc, Slab.reallocUsed]
  rw [if_neg h0, if_neg h0]
  rcases id hb with ⟨r, hr, rfl, rfl⟩ | ⟨z, hz, hp, rfl⟩
  · rw [h.inv.usage_large hr]
    exact h.move hb hs
  · obtain ⟨h1, h2⟩ := h.inv.zone_of hz hp
    rw [h1, h2]
    dsimp only
    rw [if_pos (h.inv.magic z hz)]
    obtain ⟨hle, hlt⟩ := zoneindex_le (Nat.pos_of_ne_zero h0) hs
    by_cases hc : (m.zone z).chunksize = (zoneindex size).2
    · rw [if_pos hc, if_pos hc, List.append_nil]
      refine .inr ⟨p, m, g, _, rfl, h, hle.trans (Nat.le_of_eq hc.symm), fun x y => ?_⟩
      by_cases hxp : x = p
      · subst hxp
        refine ⟨fun hx => .inr ⟨rfl, h.inv.block_unique hx hb⟩, ?_⟩
        rintro (⟨-, hne⟩ | ⟨-, rfl⟩)
        · exact absurd rfl hne
        · exact hb
      · simp [hxp]
    · rw [if_neg hc, if_neg hc]
      obtain h3 | ⟨q, m', g', k, h3, h4, h5, h6⟩ := h.move hb hlt
      · exact .inl h3
      · exact .inr ⟨q, m', g', k, h3, h4, hle.trans h5, h6⟩

end UsageInv

end

/-! ## Runs -/

namespace SlabState

variable {s s' : SlabState} {sizeofSlab : ℕ} {reached : List ℕ} {p size : ℕ}

/-- The bytes of a callers' block: the chunk size of its zone, or all its pages. -/
def weight (s : SlabState) (p : ℕ) : ℕ := if s.live p = none then 0 else s.heap.blockSize p

/-- What holds between the calls, with the values that `used` has had. -/
def UsageOk (s : SlabState) (reached : List ℕ) : Prop :=
  ∃ g, UsageInv s.heap g reached ∧ HoldsBlocks s.live (Block s.heap g)

/-- **`rt_slab_init`.** -/
theorem UsageOk.start (h : s.Start sizeofSlab) : s.UsageOk [0] := by
  have hzero : s.heap.used = 0 ∧ s.heap.max = 0 := by
    obtain ⟨m₀, beginAddr, size, hi, -⟩ := h
    rw [Slab.slabInit] at hi
    split at hi
    · cases hi
    · dsimp only at hi
      split at hi
      · rw [← Option.some.inj hi]
        exact ⟨rfl, rfl⟩
      · cases hi
  have hlive : s.live = fun _ => none := by
    obtain ⟨m₀, beginAddr, size, -, hl⟩ := h
    exact hl
  obtain ⟨g, hg, hsp, hl⟩ := Start.inv h
  refine ⟨g, ⟨hg, hsp, ⟨fun _ => 0, fun p n => ?_, ?_⟩, ?_, ?_⟩, hl⟩
  · refine iff_of_false (fun hb => hl.live p n hb ?_) fun hc => ?_
    · rw [hlive]
    · exact absurd hc.2 (Nat.not_lt_of_le (Nat.le_of_eq hc.1.symm))
  · rw [hzero.1, extentSum_zero fun _ => rfl]
  · rw [hzero.1]
    exact List.mem_singleton_self 0
  · rw [hzero.2]
    refine ⟨List.mem_singleton_self 0, fun u hu => ?_⟩
    rw [List.mem_singleton.mp hu]

/-- **One call or write.** -/
theorem UsageOk.step (h : s.UsageOk reached) {a : SlabLabel} (hs : s.step a = some s') :
    s'.UsageOk (reached ++ s.heap.callUsed a) := by
  obtain ⟨g, hg, hl⟩ := h
  have hfree : ∀ {p n m'}, Block s.heap g p n → s.heap.slabFree (some p) = some m' →
      UsageOk ⟨m', Function.update s.live p none⟩ (reached ++ s.heap.freeUsed (some p)) := by
    intro p n m' hb hr
    obtain ⟨m₁, g', h1, h2, h3⟩ := hg.free hb
    rw [h1] at hr
    cases hr
    dsimp only [Slab.freeUsed]
    rw [h1]
    exact ⟨g', h2, hl.drop h3⟩
  have halloc : ∀ {size r}, size < 2 ^ 32 → s.heap.slabAlloc size = some r →
      UsageOk ⟨r.2, takeBlock s.live r.1 size⟩ (reached ++ s.heap.allocUsed size) := by
    intro size r hlt hr
    rw [Slab.allocUsed]
    obtain h1 | ⟨p, m', g', h1, h2, h3, h4, h5⟩ := hg.alloc hlt
    · rw [h1] at hr ⊢
      cases hr
      dsimp only
      rw [List.append_nil]
      exact ⟨g, hg, hl⟩
    · rw [h1] at hr ⊢
      cases hr
      exact ⟨g', h2, hl.take h4 h5⟩
  cases a with
  | alloc size =>
    obtain ⟨r, hr, rfl⟩ := Option.map_eq_some_iff.mp hs
    exact halloc size.toNat_lt hr
  | realloc ptr size =>
    simp only [SlabState.step] at hs
    split_ifs at hs with hown
    obtain ⟨r, hr, rfl⟩ := Option.map_eq_some_iff.mp hs
    cases ptr with
    | none =>
      have h1 := halloc size.toNat_lt hr
      have hsame : reallocLive s.live none r.1 size.toNat = takeBlock s.live r.1 size.toNat := by
        rw [reallocLive]
        by_cases h0 : size.toNat = 0
        · rw [Slab.slabRealloc, Slab.slabAlloc, if_pos h0] at hr
          rw [if_pos h0, ← Option.some.inj hr]
          rfl
        · rw [if_neg h0]
          split_ifs with hn
          · rw [hn]
            rfl
          · rfl
      rw [hsame]
      exact h1
    | some p =>
      obtain ⟨n, hb⟩ := Inv.owns hl hown
      by_cases h0 : size.toNat = 0
      · simp only [Slab.slabRealloc] at hr
        rw [if_pos h0] at hr
        obtain ⟨m', hm, rfl⟩ := Option.map_eq_some_iff.mp hr
        have h1 := hfree hb hm
        simp only [Slab.callUsed, Slab.reallocUsed]
        rw [if_pos h0, reallocLive, if_pos h0]
        exact h1
      · rw [reallocLive, if_neg h0]
        obtain ⟨h1, h2⟩ | ⟨q, m', g', k, h1, h2, h3, h4⟩ := hg.realloc hb h0 size.toNat_lt
        · rw [h1] at hr
          cases hr
          rw [Slab.callUsed, h2, List.append_nil]
          exact ⟨g, hg, hl⟩
        · rw [h1] at hr
          cases hr
          rw [if_neg (Option.some_ne_none q)]
          -- the old block goes before the new one comes
          have hd : HoldsBlocks (Function.update s.live p none)
              (fun x y => Block s.heap g x y ∧ x ≠ p) := hl.drop fun x y => Iff.rfl
          exact ⟨g', h2, hd.take h3 h4⟩
  | free ptr =>
    simp only [SlabState.step] at hs
    split_ifs at hs with hown
    obtain ⟨m', hr, rfl⟩ := Option.map_eq_some_iff.mp hs
    cases ptr with
    | none =>
      cases hr
      dsimp only [Slab.callUsed, Slab.freeUsed]
      rw [List.append_nil]
      exact ⟨g, hg, hl⟩
    | some p =>
      obtain ⟨n, hb⟩ := Inv.owns hl hown
      exact hfree hb hr
  | write p w =>
    simp only [SlabState.step] at hs
    split_ifs at hs with ht
    cases hs
    obtain ⟨n, hb⟩ := Inv.owns hl (Option.isSome_iff_ne_none.mpr ht.1)
    have ht' := ht.2
    rw [hg.inv.blockSize_eq hb] at ht'
    obtain ⟨h1, h2⟩ := hg.inv.write hb ht'
    obtain ⟨f, hf, hused⟩ := hg.used
    have hsame : (s.heap.write w).used = s.heap.used ∧ (s.heap.write w).max = s.heap.max := by
      cases w <;> exact ⟨rfl, rfl⟩
    rw [Slab.callUsed, List.append_nil]
    refine ⟨g, ⟨h1, hg.spare, ⟨f, hf.congr h2, hsame.1.trans hused⟩, ?_, ?_⟩, hl.congr h2⟩
    · rw [hsame.1]
      exact hg.now
    · rw [hsame.2]
      exact hg.max

end SlabState

/-- The calls on a slab heap, with all the values that `used` has had from the start. -/
def slabUsageSystem (sizeofSlab : ℕ) : System (SlabState × List ℕ) SlabLabel where
  init s := s.1.Start sizeofSlab ∧ s.2 = [0]
  step s a := (s.1.step a).map fun s' => (s', s.2 ++ s.1.heap.callUsed a)

/-- **Main result.** After every sequence of calls `used` is the sum of the callers' blocks, each with
the chunk size of its zone or with all its pages; it is zero again when they have none; and `max` is the
greatest value it has had at any time. -/
theorem slab_usage {sizeofSlab : ℕ} {s : SlabState × List ℕ}
    (hs : (slabUsageSystem sizeofSlab).Reach System.anyStep s) :
    s.1.heap.used = ∑ p ∈ Finset.range (2 ^ 32), s.1.weight p ∧
      ((∀ p, s.1.live p = none) → s.1.heap.used = 0) ∧
      IsGreatest {u | u ∈ s.2} s.1.heap.max := by
  have h : s.1.UsageOk s.2 := by
    refine hs.invariant (I := fun s => s.1.UsageOk s.2) (fun s h0 => ?_) fun s a s' hI _ hst => ?_
    · rw [h0.2]
      exact .start h0.1
    · obtain ⟨t, ht, rfl⟩ := Option.map_eq_some_iff.mp hst
      exact hI.step ht
  obtain ⟨g, hg, hl⟩ := h
  obtain ⟨f, hf, hused⟩ := hg.used
  have hweight : Extents s.1.weight (Block s.1.heap g) := by
    intro p n
    rw [SlabState.weight]
    constructor
    · intro hb
      rw [if_neg (hl.live p n hb)]
      exact ⟨hg.inv.blockSize_eq hb, hg.inv.block_pos hb⟩
    · rintro ⟨hn, hpos⟩
      split_ifs at hn with hp
      · omega
      · obtain ⟨n', hb⟩ := SlabState.Inv.owns hl (Option.isSome_iff_ne_none.mpr hp)
        rw [← hn, hg.inv.blockSize_eq hb]
        exact hb
  have hsum : s.1.heap.used = extentSum (2 ^ 32) s.1.weight := by
    rw [hweight.unique hf]
    exact hused
  refine ⟨hsum, fun hnone => ?_, hg.max⟩
  rw [hsum]
  refine extentSum_zero fun p => ?_
  rw [SlabState.weight, if_pos (hnone p)]

/-- A chunk of 40 bytes has been made a block of five pages, and `max` counts both. -/
theorem slab_usage_realloc : ∃ s : SlabState × List ℕ,
    (s.1.heap.used = 20480 ∧ s.1.heap.max = 20520 ∧ s.2 = [0, 40, 20520, 20480]) ∧
    s.1.heap.used = ∑ p ∈ Finset.range (2 ^ 32), s.1.weight p ∧
      ((∀ p, s.1.live p = none) → s.1.heap.used = 0) ∧
      IsGreatest {u | u ∈ s.2} s.1.heap.max := by
  obtain ⟨s, hs, hp⟩ := (slabUsageSystem 364).exists_reach System.anyStep
    (fun s => decide (s.1.heap.used = 20480 ∧ s.1.heap.max = 20520 ∧ s.2 = [0, 40, 20520, 20480]))
    (s := (slab63, [0])) ⟨slab63_start, rfl⟩
    [.alloc 40, .realloc (some 0x3028) 20000] (by decide)
  exact ⟨s, of_decide_eq_true hp, slab_usage hs⟩

end RtThread
