import Mathlib.Data.Nat.Fib.Basic

/-!
# Height-balanced trees and the path above a subtree

Binary trees whose nodes carry a height, read from either **side**: `join d t a h u` has `t` on the side
`d` and `u` on the other one. A **frame** is a node above a subtree with its other subtree, and a list of
frames, the nearest first, is what is above it.

* `HTree`, `HTree.inorder`, `HTree.walk`, `HTree.Balanced`; `TreeFrame`, `plug`, `FitsBelow`: the heights of the
  frames are right for a subtree of a given height;
* **`HTree.balanced_rotate`**, **`HTree.balanced_midmount`**: the two ways to mend a node one of whose
  subtrees is higher by two; `HTree.fib_height_le`: how high a balanced tree is;
* `exists_plug`: every member is a node below some frames; `walk_plug`: what comes before and after it.
-/

namespace RtThread

/-- The two sides of a node. -/
inductive Side where
  | left
  | right
  deriving DecidableEq, Repr

/-- The other side. -/
def Side.other : Side → Side
  | .left => .right
  | .right => .left

@[simp] theorem Side.other_other (d : Side) : d.other.other = d := by
  cases d <;> rfl

theorem Side.eq_or (d e : Side) : d = e ∨ d = e.other := by
  cases d <;> cases e <;> simp [Side.other]

/-- A binary tree whose nodes carry a height. -/
inductive HTree (α : Type) where
  | nil
  | node (l : HTree α) (a : α) (h : ℕ) (r : HTree α)

namespace HTree

variable {α : Type}

/-- The height in the root, zero for no tree. -/
def height : HTree α → ℕ
  | nil => 0
  | node _ _ h _ => h

def root : HTree α → Option α
  | nil => none
  | node _ a _ _ => some a

def inorder : HTree α → List α
  | nil => []
  | node l a _ r => l.inorder ++ a :: r.inorder

/-- The node `a` with `t` on the side `d` and `u` on the other. -/
def join (d : Side) (t : HTree α) (a : α) (h : ℕ) (u : HTree α) : HTree α :=
  match d with
  | .left => node t a h u
  | .right => node u a h t

/-- The members as they are met when walking towards the side `e`. -/
def walk (e : Side) (t : HTree α) : List α :=
  match e with
  | .left => t.inorder.reverse
  | .right => t.inorder

/-- Heights are right, and those of the two subtrees of a node differ by at most one. -/
def Balanced : HTree α → Prop
  | nil => True
  | node l _ h r => l.Balanced ∧ r.Balanced ∧ h = max l.height r.height + 1 ∧
      l.height ≤ r.height + 1 ∧ r.height ≤ l.height + 1

variable {d e : Side} {t u x y z w : HTree α} {a b c g : α} {h k : ℕ}

@[simp] theorem height_join : (join d t a h u).height = h := by
  cases d <;> rfl

@[simp] theorem root_join : (join d t a h u).root = some a := by
  cases d <;> rfl

theorem join_other : join d.other t a h u = join d u a h t := by
  cases d <;> rfl

theorem mem_inorder_join : b ∈ (join d t a h u).inorder ↔ b = a ∨ b ∈ t.inorder ∨ b ∈ u.inorder := by
  cases d with
  | left => simp [join, inorder, or_left_comm]
  | right =>
    simp only [join, inorder, List.mem_append, List.mem_cons]
    rw [or_left_comm, or_comm (a := b ∈ u.inorder)]

theorem inorder_join_perm : (join d t a h u).inorder.Perm (a :: (t.inorder ++ u.inorder)) := by
  cases d with
  | left => exact List.perm_middle
  | right => exact List.perm_middle.trans (List.perm_append_comm.cons a)

theorem walk_join : (join d t a h u).walk d = u.walk d ++ a :: t.walk d := by
  cases d with
  | left => simp [join, walk, inorder]
  | right => rfl

theorem walk_join_other : (join d t a h u).walk d.other = t.walk d.other ++ a :: u.walk d.other := by
  rw [← walk_join, join_other]

theorem walk_perm : (t.walk e).Perm t.inorder := by
  cases e with
  | left => exact List.reverse_perm _
  | right => exact List.Perm.refl _

theorem mem_walk : a ∈ t.walk e ↔ a ∈ t.inorder := walk_perm.mem_iff

theorem balanced_join : (join d t a h u).Balanced ↔ t.Balanced ∧ u.Balanced ∧
    h = max t.height u.height + 1 ∧ t.height ≤ u.height + 1 ∧ u.height ≤ t.height + 1 := by
  cases d with
  | left => exact Iff.rfl
  | right =>
    simp only [join, Balanced]
    rw [Nat.max_comm]
    constructor
    · rintro ⟨hu, ht, hh, h1, h2⟩
      exact ⟨ht, hu, hh, h2, h1⟩
    · rintro ⟨ht, hu, hh, h1, h2⟩
      exact ⟨hu, ht, hh, h2, h1⟩

theorem root_mem (ha : t.root = some a) : a ∈ t.inorder := by
  cases t with
  | nil => cases ha
  | node l b h r =>
    cases ha
    exact List.mem_append_right _ List.mem_cons_self

theorem root_ne (ha : a ∉ t.inorder) : t.root ≠ some a := fun h => ha (root_mem h)

/-- A tree with a root is a node, seen from either side. -/
theorem exists_join (d : Side) (ha : t.root = some a) : ∃ x h y, t = join d x a h y := by
  cases t with
  | nil => cases ha
  | node l b h r =>
    cases ha
    cases d with
    | left => exact ⟨l, h, r, rfl⟩
    | right => exact ⟨r, h, l, rfl⟩

theorem exists_join_of_height (d : Side) (ht : 0 < t.height) : ∃ x a h y, t = join d x a h y := by
  cases hr : t.root with
  | none =>
    cases t with
    | nil => exact absurd ht (Nat.lt_irrefl 0)
    | node l a h r => cases hr
  | some a =>
    obtain ⟨x, h, y, he⟩ := exists_join d hr
    exact ⟨x, a, h, y, he⟩

/-- **A balanced tree is flat**: a height takes as many members as the Fibonacci trees have. -/
theorem fib_height_le (ht : t.Balanced) : Nat.fib (t.height + 2) ≤ t.inorder.length + 1 := by
  induction t with
  | nil => exact Nat.le_refl 1
  | node l a h r ihl ihr =>
    obtain ⟨hl, hr, hh, h1, h2⟩ := ht
    have hfib : Nat.fib (h + 2) ≤ Nat.fib (l.height + 2) + Nat.fib (r.height + 2) := by
      rcases Nat.le_total l.height r.height with hle | hle
      · rw [hh, Nat.max_eq_right hle]
        exact Nat.fib_add_two.trans_le (Nat.add_le_add_right (Nat.fib_mono (by omega)) _)
      · rw [hh, Nat.max_eq_left hle, Nat.add_comm (Nat.fib (l.height + 2))]
        exact Nat.fib_add_two.trans_le (Nat.add_le_add_right (Nat.fib_mono (by omega)) _)
    have hlen : (node l a h r).inorder.length = l.inorder.length + (r.inorder.length + 1) := by
      simp [inorder]
    rw [hlen]
    exact hfib.trans (by have := ihl hl; have := ihr hr; omega)

/-! ## Mending a node -/

theorem inorder_rotate {h' k' : ℕ} : (join d x c h (join d y a k z)).inorder =
    (join d (join d x c h' y) a k' z).inorder := by
  cases d <;> simp [join, inorder]

theorem inorder_midmount {h' k' l l' : ℕ} :
    (join d (join d x c h y) g k (join d w a l z)).inorder =
      (join d (join d x c h' (join d y g k' w)) a l' z).inorder := by
  cases d <;> simp [join, inorder]

/-- Heights do not matter for the order. -/
theorem inorder_join_congr {t' u' : HTree α} (ht : t'.inorder = t.inorder) (hu : u'.inorder = u.inorder) :
    (join d t' a k u').inorder = (join d t a h u).inorder := by
  cases d <;> simp [join, inorder, ht, hu]

/-- **Rotation.** -/
theorem balanced_rotate (hx : (join d x c h y).Balanced) (hz : z.Balanced) (hh : h = z.height + 2)
    (hxy : y.height ≤ x.height) :
    (join d x c (y.height + 2) (join d y a (y.height + 1) z)).Balanced ∧
      (y.height + 2 = h ∨ y.height + 2 = h + 1) := by
  obtain ⟨hx, hy, he, h1, h2⟩ := balanced_join.mp hx
  refine ⟨balanced_join.mpr ⟨hx, balanced_join.mpr ⟨hy, hz, ?_, ?_, ?_⟩, ?_, ?_, ?_⟩, ?_⟩
  all_goals
    try rw [height_join]
    omega

/-- **Double rotation.** -/
theorem balanced_midmount (hx : (join d x c h (join d y g k w)).Balanced) (hz : z.Balanced)
    (hh : h = z.height + 2) (hxk : x.height < k) :
    (join d (join d x c k y) g h (join d w a k z)).Balanced := by
  obtain ⟨hx, hy, he, h1, h2⟩ := balanced_join.mp hx
  obtain ⟨hy, hw, hk, h3, h4⟩ := balanced_join.mp hy
  rw [height_join] at *
  refine balanced_join.mpr ⟨balanced_join.mpr ⟨hx, hy, ?_, ?_, ?_⟩,
    balanced_join.mpr ⟨hw, hz, ?_, ?_, ?_⟩, ?_, ?_, ?_⟩
  all_goals
    try rw [height_join, height_join]
    omega

end HTree

/-! ## The path above a subtree -/

/-- A node above a subtree: the side of the subtree, the node with its height, and its other
subtree. -/
structure TreeFrame (α : Type) where
  side : Side
  node : α
  height : ℕ
  sibling : HTree α

open HTree

variable {α : Type} {d e : Side} {t t' u : HTree α} {a b : α} {h h' k : ℕ} {f : TreeFrame α}
  {p p' : List (TreeFrame α)}

/-- The tree of a frame and the subtree below it. -/
def TreeFrame.fill (f : TreeFrame α) (t : HTree α) : HTree α := join f.side t f.node f.height f.sibling

/-- The tree of a path and the subtree below it. -/
def plug : List (TreeFrame α) → HTree α → HTree α
  | [], t => t
  | f :: p, t => plug p (f.fill t)

/-- The node right above the subtree. -/
def top (p : List (TreeFrame α)) : Option α := p.head?.map TreeFrame.node

/-- The members on the path and beside it. -/
def pathNodes : List (TreeFrame α) → List α
  | [] => []
  | f :: p => f.node :: (f.sibling.inorder ++ pathNodes p)

theorem plug_append : plug (p ++ p') t = plug p' (plug p t) := by
  induction p generalizing t with
  | nil => rfl
  | cons f p ih => exact ih

theorem inorder_plug_perm : (plug p t).inorder.Perm (t.inorder ++ pathNodes p) := by
  induction p generalizing t with
  | nil => rw [pathNodes, List.append_nil]; rfl
  | cons f p ih =>
    refine (ih (t := f.fill t)).trans ?_
    refine (List.Perm.append_right (pathNodes p) inorder_join_perm).trans ?_
    rw [pathNodes, List.cons_append, List.append_assoc]
    exact List.perm_middle.symm

/-- What is in the hole only matters for the order of the whole. -/
theorem inorder_plug_congr (ht : t'.inorder = t.inorder) :
    (plug p t').inorder = (plug p t).inorder := by
  induction p generalizing t t' with
  | nil => exact ht
  | cons f p ih => exact ih (inorder_join_congr ht rfl)

theorem mem_inorder_plug : a ∈ (plug p t).inorder ↔ a ∈ t.inorder ∨ a ∈ pathNodes p := by
  rw [inorder_plug_perm.mem_iff, List.mem_append]

/-- The root is on the path, whatever is below. -/
theorem root_plug_cons : ∃ b ∈ pathNodes (f :: p), ∀ t, (plug (f :: p) t).root = some b := by
  induction p generalizing f with
  | nil => exact ⟨f.node, List.mem_cons_self, fun t => root_join⟩
  | cons g p ih =>
    obtain ⟨b, hb, hroot⟩ := ih (f := g)
    exact ⟨b, List.mem_cons_of_mem _ (List.mem_append_right _ hb), fun t => hroot (f.fill t)⟩

/-- **Every member is the root of a subtree.** -/
theorem exists_plug (ha : a ∈ t.inorder) : ∃ p l h r, t = plug p (node l a h r) := by
  induction t with
  | nil => cases ha
  | node l b h r ihl ihr =>
    rw [inorder, List.mem_append, List.mem_cons] at ha
    cases ha with
    | inl ha =>
      obtain ⟨p, l', h', r', he⟩ := ihl ha
      refine ⟨p ++ [⟨.left, b, h, r⟩], l', h', r', ?_⟩
      rw [plug_append, ← he]
      rfl
    | inr ha =>
      cases ha with
      | inl ha => exact ⟨[], l, h, r, by rw [ha]; rfl⟩
      | inr ha =>
        obtain ⟨p, l', h', r', he⟩ := ihr ha
        refine ⟨p ++ [⟨.right, b, h, l⟩], l', h', r', ?_⟩
        rw [plug_append, ← he]
        rfl

/-! ## Walking along the order -/

/-- The members that come after the subtree, towards the side `e`. -/
def pathAfter (e : Side) : List (TreeFrame α) → List α
  | [] => []
  | f :: p => if f.side = e then pathAfter e p else f.node :: (f.sibling.walk e ++ pathAfter e p)

/-- The members that come before it. -/
def pathBefore (e : Side) : List (TreeFrame α) → List α
  | [] => []
  | f :: p => if f.side = e then pathBefore e p ++ (f.sibling.walk e ++ [f.node]) else pathBefore e p

/-- **The walk through the whole tree.** -/
theorem walk_plug : (plug p t).walk e = pathBefore e p ++ (t.walk e ++ pathAfter e p) := by
  induction p generalizing t with
  | nil => simp [plug, pathBefore, pathAfter]
  | cons f p ih =>
    rw [plug, ih, pathBefore, pathAfter, TreeFrame.fill]
    by_cases hf : f.side = e
    · rw [if_pos hf, if_pos hf, ← hf, walk_join]
      simp
    · rw [if_neg hf, if_neg hf]
      have he : e = f.side.other := (Side.eq_or e f.side).resolve_left (Ne.symm hf)
      rw [he, walk_join_other]
      simp

/-- What is in the hole of the order. -/
theorem inorder_plug : (plug p t).inorder = pathBefore .right p ++ (t.inorder ++ pathAfter .right p) :=
  walk_plug (e := .right)

/-- On a path that only goes left nothing comes before. -/
theorem inorder_plug_left (hp : ∀ f ∈ p, f.side = .left) :
    (plug p t).inorder = t.inorder ++ pathAfter .right p := by
  have hb : pathBefore .right p = [] := by
    induction p with
    | nil => rfl
    | cons f p ih =>
      rw [pathBefore, if_neg, ih fun g hg => hp g (List.mem_cons_of_mem _ hg)]
      rw [hp f List.mem_cons_self]
      nofun
  rw [inorder_plug, hb, List.nil_append]

/-- A node that makes way for its subtrees. -/
theorem inorder_plug_erase [DecidableEq α] {l r : HTree α} (hd : (plug p (node l a h r)).inorder.Nodup)
    (ht : t.inorder = l.inorder ++ r.inorder) :
    (plug p t).inorder = (plug p (node l a h r)).inorder.erase a := by
  rw [inorder_plug, ht, inorder_plug, inorder]
  rw [inorder_plug, inorder, List.append_assoc, ← List.append_assoc, List.cons_append] at hd
  have hnot := (List.nodup_cons.mp (List.nodup_middle.mp hd)).1
  rw [List.append_assoc, List.append_assoc, ← List.append_assoc, ← List.append_assoc (pathBefore _ _),
    List.cons_append, List.erase_append_right, List.erase_cons_head]
  exact fun hm => hnot (List.mem_append_left _ hm)

/-! ## Heights along the path -/

/-- The heights on a path are right for a subtree of the height `h` below it, and the whole then has the
height `k`. -/
inductive FitsBelow : ℕ → List (TreeFrame α) → ℕ → Prop where
  | nil {h : ℕ} : FitsBelow h [] h
  | cons {f : TreeFrame α} {p : List (TreeFrame α)} {h k : ℕ} : f.sibling.Balanced →
      f.height = max h f.sibling.height + 1 → h ≤ f.sibling.height + 1 → f.sibling.height ≤ h + 1 →
      FitsBelow f.height p k → FitsBelow h (f :: p) k

theorem balanced_plug (ht : t.Balanced) (hp : FitsBelow t.height p k) :
    (plug p t).Balanced ∧ (plug p t).height = k := by
  induction p generalizing t with
  | nil =>
    cases hp
    exact ⟨ht, rfl⟩
  | cons f p ih =>
    cases hp with
    | cons hs hf h1 h2 hp =>
      refine ih (balanced_join.mpr ⟨ht, hs, hf, h1, h2⟩) ?_
      rw [TreeFrame.fill, height_join]
      exact hp

/-- The parts of a balanced tree. -/
theorem balanced_of_plug (hp : (plug p t).Balanced) :
    t.Balanced ∧ FitsBelow t.height p (plug p t).height := by
  induction p generalizing t with
  | nil => exact ⟨hp, .nil⟩
  | cons f p ih =>
    obtain ⟨hb, hf⟩ := ih hp
    obtain ⟨ht, hs, hh, h1, h2⟩ := balanced_join.mp hb
    rw [TreeFrame.fill, height_join] at hf
    exact ⟨ht, .cons hs hh h1 h2 hf⟩

theorem FitsBelow.split (hp : FitsBelow h (p ++ p') k) : ∃ m, FitsBelow h p m ∧ FitsBelow m p' k := by
  induction p generalizing h with
  | nil => exact ⟨h, .nil, hp⟩
  | cons f p ih =>
    cases hp with
    | cons hs hf h1 h2 hp =>
      obtain ⟨m, hm, hm'⟩ := ih hp
      exact ⟨m, .cons hs hf h1 h2 hm, hm'⟩

/-- Heights grow on the way up. -/
theorem FitsBelow.le (hp : FitsBelow h p k) : h + p.length ≤ k := by
  induction hp with
  | nil => exact Nat.le_refl _
  | @cons f p h k _ hf _ _ _ ih =>
    rw [List.length_cons]
    omega

theorem length_le_inorder_plug : t.inorder.length + p.length ≤ (plug p t).inorder.length := by
  rw [inorder_plug_perm.length_eq, List.length_append]
  refine Nat.add_le_add_left ?_ _
  induction p with
  | nil => exact Nat.le_refl _
  | cons f p ih =>
    rw [pathNodes, List.length_cons, List.length_cons, List.length_append]
    omega

end RtThread
