import Mathlib.Algebra.BigOperators.Group.List.Basic
import Mathlib.Algebra.Ring.Nat
import Mathlib.Data.List.Chain
import Mathlib.Data.List.Nodup

/-!
# Tilings

A heap with a header before every block is a list of cells: each begins where the one before ends,
and knows where that one begins. `Tiled h p a l e`: the cells of `l`, of size `h` at least, lie from
`a` to `e`; `p` is what the first knows.

* `Tiled.append`, `Tiled.bounds`, `Tiled.disjoint`: where the cells are;
* `Tiled.split`, `Tiled.merge`: a cell becomes two, and two become one;
* `CellLinks`: the links from cell to cell, and what splitting and merging writes;
* `blocks`: the used or the free blocks of a tiling; `LiveBlocks`: the callers have the used ones;
* `NoTwoFree`: no two neighbours are free; `Tiled.single`: then a tiling without used cells is one
  cell.
-/

namespace RtThread

/-- A block with its header, and where the block before begins. -/
structure Cell where
  start : ℕ
  size : ℕ
  prev : ℕ
  used : Bool
  deriving DecidableEq, Repr

/-- Where a cell ends. -/
def Cell.stop (c : Cell) : ℕ := c.start + c.size

/-- The first cell is now behind `p`. -/
def setPrev (p : ℕ) : List Cell → List Cell
  | [] => []
  | c :: l => { c with prev := p } :: l

/-- The cells of `l` lie from `a` to `e`. -/
def Tiled (h : ℕ) : ℕ → ℕ → List Cell → ℕ → Prop
  | _, a, [], e => a = e
  | p, a, c :: l, e => c.start = a ∧ c.prev = p ∧ h ≤ c.size ∧ Tiled h a c.stop l e

/-- No two neighbours are free. -/
def NoTwoFree (l : List Cell) : Prop := l.IsChain fun c d => c.used = true ∨ d.used = true

/-- Where the last cell of a list begins. -/
def lastStart (p : ℕ) (l : List Cell) : ℕ := l.getLast?.elim p Cell.start

section

variable {h p a e n q : ℕ} {l m : List Cell} {c d : Cell}

@[simp] theorem lastStart_nil : lastStart p [] = p := rfl

@[simp] theorem lastStart_concat : lastStart p (l ++ [c]) = c.start := by
  rw [lastStart, List.getLast?_concat]
  rfl

theorem lastStart_cons : lastStart p (c :: l) = lastStart c.start l := by
  cases l with
  | nil => rfl
  | cons d l =>
    rw [lastStart, lastStart, List.getLast?_cons_cons, List.getLast?_cons]
    rfl

/-- A cell of a list around `c`. -/
theorem mem_cases {P : Cell → Prop} (hl : ∀ d ∈ l, P d) (hc : P c) (hm : ∀ d ∈ m, P d) :
    ∀ d ∈ l ++ c :: m, P d := fun d hd => by
  rcases List.mem_append.mp hd with hd | hd
  · exact hl d hd
  · rcases List.mem_cons.mp hd with rfl | hd
    · exact hc
    · exact hm d hd

/-- Only the first cell changes, and only in what it knows. -/
theorem forall_setPrev {P : Cell → Prop} (hP : ∀ c, P c → P { c with prev := q })
    (hl : ∀ d ∈ l, P d) : ∀ d ∈ setPrev q l, P d := by
  cases l with
  | nil => exact hl
  | cons c l =>
    intro d hd
    rcases List.mem_cons.mp hd with rfl | hd
    · exact hP c (hl c List.mem_cons_self)
    · exact hl d (List.mem_cons_of_mem _ hd)

namespace Tiled

/-- A tiling in two parts. -/
theorem append : Tiled h p a (l ++ m) e ↔
    ∃ b, Tiled h p a l b ∧ Tiled h (lastStart p l) b m e := by
  induction l generalizing p a with
  | nil =>
    refine ⟨fun ht => ⟨a, rfl, ht⟩, ?_⟩
    rintro ⟨b, rfl, ht⟩
    exact ht
  | cons c l ih =>
    rw [List.cons_append]
    constructor
    · rintro ⟨h1, h2, h3, h4⟩
      obtain ⟨b, h5, h6⟩ := ih.mp h4
      rw [← h1] at h5 h6
      exact ⟨b, ⟨h1, h2, h3, h1 ▸ h5⟩, lastStart_cons ▸ h6⟩
    · rintro ⟨b, ⟨h1, h2, h3, h4⟩, h5⟩
      refine ⟨h1, h2, h3, ih.mpr ⟨b, h4, ?_⟩⟩
      rw [lastStart_cons, h1] at h5
      exact h5

/-- A tiling around a cell. -/
theorem mid : Tiled h p a (l ++ c :: m) e ↔ Tiled h p a l c.start ∧ c.prev = lastStart p l ∧
    h ≤ c.size ∧ Tiled h c.start c.stop m e := by
  rw [append]
  constructor
  · rintro ⟨b, h1, rfl, h2, h3, h4⟩
    exact ⟨h1, h2, h3, h4⟩
  · rintro ⟨h1, h2, h3, h4⟩
    exact ⟨c.start, h1, rfl, h2, h3, h4⟩

theorem le (ht : Tiled h p a l e) : a ≤ e := by
  induction l generalizing p a with
  | nil => exact Nat.le_of_eq ht
  | cons c l ih =>
    obtain ⟨rfl, -, -, h4⟩ := ht
    exact Nat.le_trans (Nat.le_add_right _ _) (ih h4)

/-- There is room for so many cells. -/
theorem length_le (ht : Tiled h p a l e) : a + h * l.length ≤ e := by
  induction l generalizing p a with
  | nil => exact Nat.le_of_eq ht
  | cons c l ih =>
    obtain ⟨rfl, -, h3, h4⟩ := ht
    have hle := ih h4
    unfold Cell.stop at hle
    rw [List.length_cons, Nat.mul_succ]
    omega

/-- Where the cells are. -/
theorem bounds (ht : Tiled h p a l e) (hc : c ∈ l) : a ≤ c.start ∧ c.stop ≤ e ∧ h ≤ c.size := by
  obtain ⟨l, m, rfl⟩ := List.append_of_mem hc
  obtain ⟨h1, -, h3, h4⟩ := mid.mp ht
  exact ⟨h1.le, h4.le, h3⟩

/-- Behind a cell there is another, or the end. -/
theorem stop_mem (ht : Tiled h p a l e) (hc : c ∈ l) : c.stop = e ∨ ∃ d ∈ l, d.start = c.stop := by
  obtain ⟨l, m, rfl⟩ := List.append_of_mem hc
  obtain ⟨-, -, -, h4⟩ := mid.mp ht
  cases m with
  | nil => exact .inl h4
  | cons d m => exact .inr ⟨d, by simp, h4.1⟩

/-- The cells before and behind a cell. -/
theorem around (ht : Tiled h p a (l ++ c :: m) e) :
    (∀ d ∈ l, d.stop ≤ c.start) ∧ ∀ d ∈ m, c.stop ≤ d.start := by
  obtain ⟨h1, -, -, h4⟩ := mid.mp ht
  exact ⟨fun d hd => (h1.bounds hd).2.1, fun d hd => (h4.bounds hd).1⟩

/-- **Different cells are disjoint.** -/
theorem disjoint (ht : Tiled h p a l e) (hc : c ∈ l) (hd : d ∈ l) (hne : c ≠ d) :
    c.stop ≤ d.start ∨ d.stop ≤ c.start := by
  obtain ⟨l, m, rfl⟩ := List.append_of_mem hc
  obtain ⟨h1, h2⟩ := ht.around
  rcases List.mem_append.mp hd with hd | hd
  · exact .inr (h1 d hd)
  · exact .inl (h2 d ((List.mem_cons.mp hd).resolve_left hne.symm))

/-- Cells with a header begin at different places. -/
theorem start_ne (ht : Tiled h p a (l ++ c :: m) e) (hh : 0 < h) {d : Cell} (hd : d ∈ l ++ m) :
    d.start ≠ c.start := by
  obtain ⟨h1, h2⟩ := ht.around
  have hc := (ht.bounds (List.mem_append_right _ List.mem_cons_self)).2.2
  have hd' : d ∈ l ++ c :: m := by
    rcases List.mem_append.mp hd with hd | hd
    · exact List.mem_append_left _ hd
    · exact List.mem_append_right _ (List.mem_cons_of_mem _ hd)
  have hs := (ht.bounds hd').2.2
  unfold Cell.stop at h1 h2
  rcases List.mem_append.mp hd with hd | hd
  · have := h1 d hd
    omega
  · have := h2 d hd
    omega

theorem setPrev (ht : Tiled h p a l e) : Tiled h q a (setPrev q l) e := by
  cases l with
  | nil => exact ht
  | cons c l => exact ⟨ht.1, rfl, ht.2.2⟩

/-- A cell is marked used or free. -/
theorem mark (ht : Tiled h p a (l ++ c :: m) e) (u : Bool) :
    Tiled h p a (l ++ { c with used := u } :: m) e := by
  have hmid := mid.mp ht
  exact mid.mpr hmid

/-- **A cell becomes two.** -/
theorem split (ht : Tiled h p a (l ++ c :: m) e) (hn : h ≤ n) (hc : n + h ≤ c.size) (u v : Bool) :
    Tiled h p a (l ++ { c with size := n, used := u } ::
      { start := c.start + n, size := c.size - n, prev := c.start, used := v } ::
        RtThread.setPrev (c.start + n) m) e := by
  obtain ⟨h1, h2, h3, h4⟩ := mid.mp ht
  refine mid.mpr ⟨h1, h2, hn, rfl, rfl, ?_, ?_⟩
  · change h ≤ c.size - n
    omega
  · have hstop : c.start + n + (c.size - n) = c.stop := by
      unfold Cell.stop
      omega
    change Tiled h _ (c.start + n + (c.size - n)) _ e
    rw [hstop]
    exact h4.setPrev

/-- **Two cells become one.** -/
theorem merge (ht : Tiled h p a (l ++ c :: d :: m) e) (u : Bool) :
    Tiled h p a (l ++ { c with size := c.size + d.size, used := u } ::
      RtThread.setPrev c.start m) e := by
  obtain ⟨h1, h2, h3, h4, -, -, h5⟩ := mid.mp ht
  have hstop : c.start + (c.size + d.size) = d.stop := by
    unfold Cell.stop at h4 ⊢
    omega
  refine mid.mpr ⟨h1, h2, Nat.le_trans h3 (Nat.le_add_right _ _), ?_⟩
  change Tiled h _ (c.start + (c.size + d.size)) _ e
  rw [hstop]
  exact h5.setPrev

end Tiled

/-! ## Links -/

/-- From each place `next` leads to the one behind, and `prev` back; `e` is the place behind the last
cell, and `p` is before the first one. -/
def CellLinks (next prev : ℕ → ℕ) : ℕ → List Cell → ℕ → Prop
  | p, [], e => prev e = p
  | p, c :: l, e => prev c.start = p ∧ next c.start = c.stop ∧ CellLinks next prev c.start l e

namespace CellLinks

variable {next prev next' prev' : ℕ → ℕ}

theorem mid : CellLinks next prev p (l ++ c :: m) e ↔
    CellLinks next prev p l c.start ∧ next c.start = c.stop ∧ CellLinks next prev c.start m e := by
  induction l generalizing p with
  | nil => exact Iff.rfl
  | cons d l ih =>
    rw [List.cons_append, CellLinks, ih, CellLinks, and_assoc, and_assoc]

/-- A cell is marked used or free. -/
theorem mark (hl : CellLinks next prev p (l ++ c :: m) e) (u : Bool) :
    CellLinks next prev p (l ++ { c with used := u } :: m) e := by
  have hmid := mid.mp hl
  exact mid.mpr hmid

/-- **Only the links of the cells matter**, and the one back from the end. -/
theorem congr (hl : CellLinks next prev p l e) (hn : ∀ c ∈ l, next' c.start = next c.start)
    (hp : ∀ c ∈ l, prev' c.start = prev c.start) (he : prev' e = prev e) :
    CellLinks next' prev' p l e := by
  induction l generalizing p with
  | nil => exact he.trans hl
  | cons c l ih =>
    obtain ⟨h1, h2, h3⟩ := hl
    refine ⟨(hp c List.mem_cons_self).trans h1, (hn c List.mem_cons_self).trans h2, ih h3 ?_ ?_⟩
    · exact fun d hd => hn d (List.mem_cons_of_mem _ hd)
    · exact fun d hd => hp d (List.mem_cons_of_mem _ hd)

theorem last (hl : CellLinks next prev p l e) : prev e = lastStart p l := by
  induction l generalizing p with
  | nil => exact hl
  | cons c l ih => exact lastStart_cons ▸ ih hl.2.2

/-- The first cell is now behind `q`. -/
theorem setPrev (hl : CellLinks next prev p l e) {p' : ℕ} (ht : Tiled h p' a l e) (hh : 0 < h)
    (hn : ∀ x, a ≤ x → next' x = next x) (hp : ∀ x, a ≤ x → prev' x = if x = a then q else prev x) :
    CellLinks next' prev' q (setPrev q l) e := by
  cases l with
  | nil =>
    have he : a = e := ht
    change prev' e = q
    rw [hp e (Nat.le_of_eq he), if_pos he.symm]
  | cons c l =>
    obtain ⟨-, h2, h3⟩ := hl
    obtain ⟨h4, -, h5, h6⟩ := ht
    have hlt : a < c.stop := by
      unfold Cell.stop
      omega
    have hbehind : ∀ d ∈ l, a < d.start := fun d hd => Nat.lt_of_lt_of_le hlt (h6.bounds hd).1
    have hend : a < e := Nat.lt_of_lt_of_le hlt h6.le
    refine ⟨?_, ?_, h3.congr ?_ ?_ ?_⟩
    · change prev' c.start = q
      rw [hp _ (Nat.le_of_eq h4.symm), if_pos h4]
    · change next' c.start = c.stop
      rw [hn _ (Nat.le_of_eq h4.symm), h2]
    · exact fun d hd => hn _ (Nat.le_of_lt (hbehind d hd))
    · intro d hd
      rw [hp _ (Nat.le_of_lt (hbehind d hd)), if_neg (Nat.ne_of_gt (hbehind d hd))]
    · rw [hp _ (Nat.le_of_lt hend), if_neg (Nat.ne_of_gt hend)]

/-- **A cell becomes two.** -/
theorem split (hl : CellLinks next prev p (l ++ c :: m) e) (ht : Tiled h p a (l ++ c :: m) e)
    (hh : 0 < h) (hn : 0 < n) (hc : n < c.size) (u v : Bool)
    (hnext : ∀ x, next' x = if x = c.start then c.start + n
      else if x = c.start + n then c.stop else next x)
    (hprev : ∀ x, prev' x = if x = c.stop then c.start + n
      else if x = c.start + n then c.start else prev x) :
    CellLinks next' prev' p (l ++ { c with size := n, used := u } ::
      { start := c.start + n, size := c.size - n, prev := c.start, used := v } ::
        RtThread.setPrev (c.start + n) m) e := by
  obtain ⟨h1, h2, h3⟩ := mid.mp hl
  obtain ⟨h4, -, -, h5⟩ := Tiled.mid.mp ht
  have hbefore : ∀ d ∈ l, d.start < c.start := fun d hd => by
    have hd' := h4.bounds hd
    have hsize := hd'.2.2
    have hstop := hd'.2.1
    unfold Cell.stop at hstop
    omega
  unfold Cell.stop at h5
  refine mid.mpr ⟨h1.congr ?_ ?_ ?_, ?_, ?_, ?_, h3.setPrev h5 hh ?_ ?_⟩
  · intro d hd
    have := hbefore d hd
    rw [hnext, if_neg (by omega), if_neg (by omega)]
  · intro d hd
    have := hbefore d hd
    rw [hprev, if_neg (by unfold Cell.stop; omega), if_neg (by omega)]
  · rw [hprev, if_neg (by unfold Cell.stop; omega), if_neg (by omega)]
  · change next' c.start = c.start + n
    rw [hnext, if_pos rfl]
  · change prev' (c.start + n) = c.start
    rw [hprev, if_neg (by unfold Cell.stop; omega), if_pos rfl]
  · change next' (c.start + n) = c.start + n + (c.size - n)
    rw [hnext, if_neg (by omega), if_pos rfl]
    unfold Cell.stop
    omega
  · intro x hx
    rw [hnext, if_neg (by omega), if_neg (by omega)]
  · intro x hx
    have hxn : x ≠ c.start + n := by omega
    change prev' x = if x = c.stop then c.start + n else prev x
    rw [hprev, if_neg hxn]

/-- **Two cells become one.** -/
theorem merge (hl : CellLinks next prev p (l ++ c :: d :: m) e)
    (ht : Tiled h p a (l ++ c :: d :: m) e) (hh : 0 < h) (u : Bool)
    (hnext : ∀ x, next' x = if x = c.start then d.stop else next x)
    (hprev : ∀ x, prev' x = if x = d.stop then c.start else prev x) :
    CellLinks next' prev' p (l ++ { c with size := c.size + d.size, used := u } ::
      RtThread.setPrev c.start m) e := by
  obtain ⟨h1, h2, h3, h4, h5⟩ := mid.mp hl
  obtain ⟨h6, -, h7, h8, -, h9, h10⟩ := Tiled.mid.mp ht
  have hbefore : ∀ d ∈ l, d.start < c.start := fun d hd => by
    have hd' := h6.bounds hd
    have hsize := hd'.2.2
    have hstop := hd'.2.1
    unfold Cell.stop at hstop
    omega
  unfold Cell.stop at h8
  have hstop : d.stop = c.start + (c.size + d.size) := by
    unfold Cell.stop
    omega
  refine mid.mpr ⟨h1.congr ?_ ?_ ?_, ?_, h5.setPrev h10 hh ?_ ?_⟩
  · intro x hx
    have := hbefore x hx
    rw [hnext, if_neg (by omega)]
  · intro x hx
    have := hbefore x hx
    rw [hprev, if_neg (by omega)]
  · rw [hprev, if_neg (by omega)]
  · change next' c.start = c.start + (c.size + d.size)
    rw [hnext, if_pos rfl, hstop]
  · intro x hx
    rw [hnext, if_neg (by omega)]
  · exact fun x _ => hprev x

end CellLinks

/-! ## The blocks -/

/-- The used or the free blocks: where they begin and how large they are. -/
def blocks (u : Bool) (l : List Cell) : List (ℕ × ℕ) :=
  (l.filter fun c => c.used == u).map fun c => (c.start, c.size)

@[simp] theorem blocks_nil (u : Bool) : blocks u [] = [] := rfl

@[simp] theorem blocks_append (u : Bool) : blocks u (l ++ m) = blocks u l ++ blocks u m := by
  rw [blocks, List.filter_append, List.map_append]
  rfl

theorem blocks_cons (u : Bool) : blocks u (c :: l) =
    if c.used = u then (c.start, c.size) :: blocks u l else blocks u l := by
  unfold blocks
  by_cases hu : c.used = u
  · rw [if_pos hu, List.filter_cons_of_pos (by simpa using hu), List.map_cons]
  · rw [if_neg hu, List.filter_cons_of_neg (by simpa using hu)]

@[simp] theorem blocks_setPrev (u : Bool) : blocks u (setPrev q l) = blocks u l := by
  cases l with
  | nil => rfl
  | cons c l => rw [setPrev, blocks_cons, blocks_cons]

theorem mem_blocks {u : Bool} {b : ℕ × ℕ} :
    b ∈ blocks u l ↔ ∃ c ∈ l, c.used = u ∧ b = (c.start, c.size) := by
  rw [blocks, List.mem_map]
  refine exists_congr fun c => ?_
  rw [List.mem_filter, beq_iff_eq, and_assoc, eq_comm (a := b)]

/-- The first free block, or the end. -/
def lowestFree (l : List Cell) (e : ℕ) : ℕ := (blocks false l).head?.elim e Prod.fst

theorem lowestFree_append {e : ℕ} : lowestFree (l ++ m) e = lowestFree l (lowestFree m e) := by
  unfold lowestFree
  rw [blocks_append]
  cases blocks false l <;> rfl

theorem lowestFree_free {e : ℕ} (hc : c.used = false) : lowestFree (c :: l) e = c.start := by
  rw [lowestFree, blocks_cons, if_pos hc]
  rfl

theorem lowestFree_used {e : ℕ} (hc : c.used = true) : lowestFree (c :: l) e = lowestFree l e := by
  rw [lowestFree, blocks_cons, if_neg (by rw [hc]; simp)]
  rfl

/-- The lowest free block is a cell, or the end. -/
theorem lowestFree_mem (l : List Cell) (e : ℕ) :
    (lowestFree l e = e ∧ blocks false l = []) ∨
      ∃ c ∈ l, c.used = false ∧ lowestFree l e = c.start := by
  unfold lowestFree
  cases hb : blocks false l with
  | nil => exact .inl ⟨rfl, rfl⟩
  | cons b bs =>
    obtain ⟨c, hc, hu, rfl⟩ := mem_blocks.mp (hb ▸ List.mem_cons_self : b ∈ blocks false l)
    exact .inr ⟨c, hc, hu, rfl⟩

/-- Before the lowest free block there are used ones only. -/
theorem lowestFree_split (l : List Cell) (e : ℕ) :
    (lowestFree l e = e ∧ ∀ c ∈ l, c.used = true) ∨
      ∃ l₁ c l₂, l = l₁ ++ c :: l₂ ∧ c.used = false ∧ (∀ d ∈ l₁, d.used = true) ∧
        lowestFree l e = c.start := by
  induction l with
  | nil => exact .inl ⟨rfl, fun c hc => absurd hc List.not_mem_nil⟩
  | cons d l ih =>
    cases hd : d.used with
    | false =>
      exact .inr ⟨[], d, l, rfl, hd, fun c hc => absurd hc List.not_mem_nil, lowestFree_free hd⟩
    | true =>
      rw [lowestFree_used hd]
      rcases ih with ⟨h1, h2⟩ | ⟨l₁, c, l₂, rfl, hc, h2, h3⟩
      · exact .inl ⟨h1, List.forall_mem_cons.mpr ⟨hd, h2⟩⟩
      · exact .inr ⟨d :: l₁, c, l₂, rfl, hc, List.forall_mem_cons.mpr ⟨hd, h2⟩, h3⟩

/-- Without free blocks the lowest free one is the end; else it does not depend on the end. -/
theorem lowestFree_end (l : List Cell) : (∀ e, lowestFree l e = e) ∨
    ∃ c ∈ l, ∀ e, lowestFree l e = c.start := by
  unfold lowestFree
  cases hb : blocks false l with
  | nil => exact .inl fun e => rfl
  | cons b bs =>
    obtain ⟨c, hc, -, rfl⟩ := mem_blocks.mp (hb ▸ List.mem_cons_self : b ∈ blocks false l)
    exact .inr ⟨c, hc, fun e => rfl⟩

/-- The lowest free block is not behind the end. -/
theorem Tiled.lowestFree_le (ht : Tiled h p a l e) : lowestFree l e ≤ e := by
  rcases lowestFree_mem l e with h1 | ⟨c, hc, -, h1⟩
  · exact Nat.le_of_eq h1.1
  · rw [h1]
    have := (ht.bounds hc).2.1
    unfold Cell.stop at this
    omega

/-- **A part of a used cell becomes free**: it may be the lowest free block. -/
theorem Tiled.min_lowestFree (ht : Tiled h p a (l ++ c :: m) e) (hh : 0 < h) (hc : c.used = true)
    (hle : c.start ≤ n) (hlt : n < c.stop) :
    min n (lowestFree (l ++ c :: m) e) = lowestFree l n := by
  rw [lowestFree_append, lowestFree_used hc]
  obtain ⟨h1, h2⟩ := ht.around
  rcases lowestFree_end l with h4 | ⟨d, hd, h4⟩
  · have hlow : c.stop ≤ lowestFree m e := by
      rcases lowestFree_mem m e with h5 | ⟨d, hd, -, h5⟩
      · rw [h5.1]
        exact (Tiled.mid.mp ht).2.2.2.le
      · rw [h5]
        exact h2 d hd
    rw [h4, h4, Nat.min_eq_left (by omega)]
  · have h6 := h1 d hd
    have h7 := (ht.bounds (List.mem_append_left _ hd)).2.2
    unfold Cell.stop at h6
    rw [h4, h4, Nat.min_eq_right (by omega)]

/-- The sizes of some blocks. -/
def sizes (bs : List (ℕ × ℕ)) : ℕ := (bs.map Prod.snd).sum

@[simp] theorem sizes_nil : sizes [] = 0 := rfl

@[simp] theorem sizes_cons {b : ℕ × ℕ} {bs : List (ℕ × ℕ)} : sizes (b :: bs) = b.2 + sizes bs := by
  rw [sizes, List.map_cons, List.sum_cons]
  rfl

@[simp] theorem sizes_append {bs cs : List (ℕ × ℕ)} : sizes (bs ++ cs) = sizes bs + sizes cs := by
  rw [sizes, List.map_append, List.sum_append]
  rfl

/-- Used blocks begin at different places. -/
theorem Tiled.blocks_nodup (ht : Tiled h p a l e) (hh : 0 < h) (u : Bool) :
    ((blocks u l).map Prod.fst).Nodup := by
  induction l generalizing p a with
  | nil => exact List.nodup_nil
  | cons c l ih =>
    have hc : ∀ d ∈ l, d.start ≠ c.start := fun d hd =>
      Tiled.start_ne (l := []) ht hh (List.mem_append_right _ hd)
    obtain ⟨-, -, -, h4⟩ := ht
    rw [blocks_cons]
    split_ifs
    · rw [List.map_cons, List.nodup_cons]
      refine ⟨fun hm => ?_, ih h4⟩
      obtain ⟨b, hb, hbc⟩ := List.mem_map.mp hm
      obtain ⟨d, hd, -, rfl⟩ := mem_blocks.mp hb
      exact hc d hd hbc
    · exact ih h4

/-- **Different blocks are disjoint.** -/
theorem Tiled.blocks_disjoint (ht : Tiled h p a l e) {u v : Bool} {b b' : ℕ × ℕ}
    (hb : b ∈ blocks u l) (hb' : b' ∈ blocks v l) (hne : b.1 ≠ b'.1) :
    b.1 + b.2 ≤ b'.1 ∨ b'.1 + b'.2 ≤ b.1 := by
  obtain ⟨c, hc, -, rfl⟩ := mem_blocks.mp hb
  obtain ⟨d, hd, -, rfl⟩ := mem_blocks.mp hb'
  exact ht.disjoint hc hd fun he => hne (congrArg Cell.start he)

/-! ## Live blocks -/

/-- The callers' blocks: `live` has the sizes that have been asked for. A block's data begin `k`
behind where it begins, and it has `h` bytes besides. -/
structure LiveBlocks (k h : ℕ) (live : ℕ → Option ℕ) (bs : List (ℕ × ℕ)) : Prop where
  nodup : (bs.map Prod.fst).Nodup
  block : ∀ {p n}, live p = some n → ∃ b ∈ bs, p = k + b.1 ∧ n + h ≤ b.2
  live : ∀ b ∈ bs, live (k + b.1) ≠ none

/-- A caller passes null or a block that it has. -/
def ownsBlock (live : ℕ → Option ℕ) (p : Option ℕ) : Bool := p.all fun p => (live p).isSome

/-- A caller no longer has the block. -/
def dropBlock (live : ℕ → Option ℕ) (p : Option ℕ) : ℕ → Option ℕ :=
  p.elim live fun p => Function.update live p none

/-- A caller has the block that has been returned. -/
def takeBlock (live : ℕ → Option ℕ) (p : Option ℕ) (size : ℕ) : ℕ → Option ℕ :=
  p.elim live fun p => Function.update live p (some size)

namespace LiveBlocks

variable {k : ℕ} {live : ℕ → Option ℕ} {bs cs : List (ℕ × ℕ)} {b : ℕ × ℕ}

theorem congr (hl : LiveBlocks k h live bs) (hp : bs.Perm cs) : LiveBlocks k h live cs where
  nodup := (hp.map Prod.fst).nodup_iff.mp hl.nodup
  block hp' := by
    obtain ⟨b, hb, h1⟩ := hl.block hp'
    exact ⟨b, hp.mem_iff.mp hb, h1⟩
  live b hb := hl.live b (hp.mem_iff.mpr hb)

/-- **A block is freed.** -/
theorem free (hl : LiveBlocks k h live bs) (hp : bs.Perm (b :: cs)) :
    LiveBlocks k h (Function.update live (k + b.1) none) cs := by
  have hl' := hl.congr hp
  have hnd := hl'.nodup
  rw [List.map_cons, List.nodup_cons] at hnd
  have hne : ∀ c ∈ cs, k + c.1 ≠ k + b.1 := fun c hc he =>
    hnd.1 (List.mem_map.mpr ⟨c, hc, Nat.add_left_cancel he⟩)
  refine ⟨hnd.2, fun {p n} hpn => ?_, fun c hc => ?_⟩
  · by_cases hpb : p = k + b.1
    · rw [hpb, Function.update_self] at hpn
      cases hpn
    · rw [Function.update_of_ne hpb] at hpn
      obtain ⟨c, hc, h1, h2⟩ := hl'.block hpn
      rcases List.mem_cons.mp hc with rfl | hc
      · exact absurd h1 hpb
      · exact ⟨c, hc, h1, h2⟩
  · rw [Function.update_of_ne (hne c hc)]
    exact hl'.live c (List.mem_cons_of_mem _ hc)

/-- **A block is allocated.** -/
theorem alloc (hl : LiveBlocks k h live bs) (hp : cs.Perm (b :: bs)) (hnd : (cs.map Prod.fst).Nodup)
    {n : ℕ} (hn : n + h ≤ b.2) : LiveBlocks k h (Function.update live (k + b.1) (some n)) cs := by
  refine ⟨hnd, fun {p x} hpx => ?_, fun c hc => ?_⟩
  · by_cases hpb : p = k + b.1
    · rw [hpb, Function.update_self] at hpx
      cases hpx
      exact ⟨b, hp.mem_iff.mpr List.mem_cons_self, hpb, hn⟩
    · rw [Function.update_of_ne hpb] at hpx
      obtain ⟨c, hc, h1⟩ := hl.block hpx
      exact ⟨c, hp.mem_iff.mpr (List.mem_cons_of_mem _ hc), h1⟩
  · by_cases hcb : k + c.1 = k + b.1
    · rw [hcb, Function.update_self]
      simp
    · rw [Function.update_of_ne hcb]
      rcases List.mem_cons.mp (hp.mem_iff.mp hc) with rfl | hc
      · exact absurd rfl hcb
      · exact hl.live c hc

end LiveBlocks

/-! ## Free neighbours -/

/-- The first cell is not free. -/
def HeadUsed (l : List Cell) : Prop := ∀ c ∈ l.head?, c.used = true

/-- The last cell is not free. -/
def LastUsed (l : List Cell) : Prop := ∀ c ∈ l.getLast?, c.used = true

theorem headUsed_setPrev : HeadUsed (setPrev q l) ↔ HeadUsed l := by
  cases l with
  | nil => exact Iff.rfl
  | cons c l => simp [HeadUsed, setPrev]

theorem noTwoFree_cons : NoTwoFree (c :: l) ↔ (c.used = true ∨ HeadUsed l) ∧ NoTwoFree l := by
  rw [NoTwoFree, List.isChain_cons]
  refine and_congr_left fun _ => ?_
  cases c.used <;> simp [HeadUsed]

theorem noTwoFree_setPrev : NoTwoFree (setPrev q l) ↔ NoTwoFree l := by
  cases l with
  | nil => exact Iff.rfl
  | cons c l => rw [setPrev, noTwoFree_cons, noTwoFree_cons]

/-- Free neighbours around a cell. -/
theorem noTwoFree_mid : NoTwoFree (l ++ c :: m) ↔
    NoTwoFree l ∧ NoTwoFree m ∧ (c.used = true ∨ LastUsed l ∧ HeadUsed m) := by
  have h1 : NoTwoFree (l ++ c :: m) ↔
      NoTwoFree l ∧ NoTwoFree (c :: m) ∧ (LastUsed l ∨ c.used = true) := by
    rw [NoTwoFree, List.isChain_append]
    refine and_congr_right fun _ => and_congr_right fun _ => ?_
    cases hc : c.used <;> simp [LastUsed, hc]
  rw [h1, noTwoFree_cons]
  tauto

/-- A cell becomes a used and a free one. -/
theorem NoTwoFree.split (hl : NoTwoFree (l ++ c :: m)) (hm : HeadUsed m) (d : Cell) (hd : d.used = true)
    (r : Cell) : NoTwoFree (l ++ d :: r :: setPrev q m) := by
  obtain ⟨h1, h2, -⟩ := noTwoFree_mid.mp hl
  exact noTwoFree_mid.mpr ⟨h1, noTwoFree_cons.mpr ⟨.inr (headUsed_setPrev.mpr hm),
    noTwoFree_setPrev.mpr h2⟩, .inl hd⟩

/-- **Without used cells, there is one.** -/
theorem Tiled.single (ht : Tiled h p a l e) (hl : NoTwoFree l) (hu : blocks true l = [])
    (hne : l ≠ []) : l = [{ start := a, size := e - a, prev := p, used := false }] := by
  cases l with
  | nil => exact absurd rfl hne
  | cons c l =>
    have hfree : ∀ d ∈ c :: l, d.used = false := fun d hd => by
      by_contra hd'
      have hused : d.used = true := by
        rwa [Bool.not_eq_false] at hd'
      have := mem_blocks.mpr ⟨d, hd, hused, rfl⟩
      rw [hu] at this
      exact List.not_mem_nil this
    have hc := hfree c List.mem_cons_self
    cases l with
    | nil =>
      obtain ⟨h1, h2, -, h4⟩ := ht
      have hsize : e - a = c.size := by
        rw [← h4, Cell.stop, h1]
        omega
      rw [hsize, ← h1, ← h2, ← hc]
    | cons d l =>
      have hd := hfree d (List.mem_cons_of_mem _ List.mem_cons_self)
      rcases (noTwoFree_cons.mp hl).1 with h | h
      · rw [hc] at h
        cases h
      · have := h d rfl
        rw [hd] at this
        cases this

end

end RtThread
