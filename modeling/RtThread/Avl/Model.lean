import RtThread.Lib.AvlTree

/-!
# The AVL trees of `libadt`

`components/utilities/libadt/avl/avl.c` and `avl.h`: nodes with two child pointers, a parent pointer and a
height, linked by the caller, as `_aspace_bst_insert` of `components/mm/avl_adpt.c` does, and taken out
by `util_avl_remove`.

* `AvlNode`, `Avl`; `Avl.rebalance`, `Avl.remove`, `Avl.link`, `Avl.bstInsert`, `Avl.first`, `Avl.next`: the
  code, where a pair of functions that mirror each other is one function of the side;
* `TreeRep`, `TreeAt`: the nodes make up a tree, or a subtree below a path.
-/

set_option linter.unusedSectionVars false

namespace RtThread

/-- `struct util_avl_struct`. -/
structure AvlNode (α : Type) where
  avlLeft : Option α
  avlRight : Option α
  parent : Option α
  height : ℕ
  deriving DecidableEq

namespace AvlNode

variable {α : Type} (n : AvlNode α)

/-- The child on a side. -/
def child : Side → Option α
  | .left => n.avlLeft
  | .right => n.avlRight

def setChild (d : Side) (x : Option α) : AvlNode α :=
  match d with
  | .left => { n with avlLeft := x }
  | .right => { n with avlRight := x }

def setParent (q : Option α) : AvlNode α := { n with parent := q }

def setHeight (h : ℕ) : AvlNode α := { n with height := h }

end AvlNode

/-- The nodes, and `struct util_avl_root`. -/
structure Avl (α : Type) where
  node : α → AvlNode α
  rootNode : Option α

/-- What `nodeplace` points to: `root_node`, or a child pointer of a node. -/
inductive AvlPlace (α : Type) where
  | root
  | child (a : α) (d : Side)
  deriving DecidableEq

namespace Avl

variable {α : Type} [DecidableEq α] (s : Avl α)

/-- Write a node. -/
def modify (a : α) (f : AvlNode α → AvlNode α) : Avl α :=
  { s with node := Function.update s.node a (f (s.node a)) }

def setChild (a : α) (d : Side) (x : Option α) : Avl α := s.modify a fun n => n.setChild d x

def setParent (a : α) (p : Option α) : Avl α := s.modify a fun n => n.setParent p

def setHeight (a : α) (h : ℕ) : Avl α := s.modify a fun n => n.setHeight h

/-- `if (x != NULL) x->parent = p`. -/
def adopt (x p : Option α) : Avl α :=
  match x with
  | none => s
  | some a => s.setParent a p

def deref : AvlPlace α → Option α
  | .root => s.rootNode
  | .child a d => (s.node a).child d

def setPlace (place : AvlPlace α) (x : Option α) : Avl α :=
  match place with
  | .root => { s with rootNode := x }
  | .child a d => s.setChild a d x

/-- `NODE_PLACE`, and the root for a node without a parent. -/
def nodePlace (a : α) : AvlPlace α :=
  match (s.node a).parent with
  | none => .root
  | some p => if (s.node p).avlLeft = some a then .child p .left else .child p .right

/-- `HEIGHT_OF`. -/
def heightOf : Option α → ℕ
  | none => 0
  | some a => (s.node a).height

/-! ## Rebalancing -/

/-- `rotate_right` for the left side, `rotate_left` for the right one. -/
def rotate (d : Side) (axis child : α) (grandchild : Option α) (place : AvlPlace α) (height : ℕ) :
    Avl α :=
  let s := s.setChild axis d grandchild
  let s := s.setChild child d.other (some axis)
  let s := s.setHeight axis (height + 1)
  let s := s.setHeight child ((s.node axis).height + 1)
  let s := s.setParent child (s.node axis).parent
  let s := s.setParent axis (some child)
  let s := s.setPlace place (some child)
  s.adopt grandchild (some axis)

/-- `midmount_right` for the left side, `midmount_left` for the right one. -/
def midmount (d : Side) (axis child grandchild : α) (place : AvlPlace α) (height : ℕ) : Avl α :=
  let s := s.setChild child d.other ((s.node grandchild).child d)
  let s := s.setChild axis d ((s.node grandchild).child d.other)
  let s := s.setChild grandchild d (some child)
  let s := s.setChild grandchild d.other (some axis)
  let s := s.setHeight grandchild (s.node child).height
  let s := s.setHeight child height
  let s := s.setHeight axis height
  let s := s.setParent grandchild (s.node axis).parent
  let s := s.setParent child (some grandchild)
  let s := s.setParent axis (some grandchild)
  let s := s.adopt ((s.node child).child d.other) (some child)
  let s := s.adopt ((s.node axis).child d) (some axis)
  s.setPlace place (some grandchild)

/-- The branch of `util_avl_rebalance` for a node that is too high on the side `d`: the new nodes, and
the next axis. A null pointer that is followed gives nothing. -/
def mend (d : Side) (axis : α) (place : AvlPlace α) : Option (Avl α × Option α) :=
  match (s.node axis).child d with
  | none => none
  | some child =>
    let grandchild := (s.node child).child d.other
    let height := s.heightOf grandchild
    if height ≤ s.heightOf ((s.node child).child d) then
      let s := s.rotate d axis child grandchild place height
      some (s, (s.node child).parent)
    else
      match grandchild with
      | none => none
      | some grandchild =>
        let s := s.midmount d axis child grandchild place height
        some (s, (s.node grandchild).parent)

/-- The body of the loop of `util_avl_rebalance`; there is no next axis after `break`. -/
def rebalanceStep (axis : α) : Option (Avl α × Option α) :=
  let place := s.nodePlace axis
  let lheight := s.heightOf (s.node axis).avlLeft
  let rheight := s.heightOf (s.node axis).avlRight
  if rheight + 1 < lheight then s.mend .left axis place
  else if lheight + 1 < rheight then s.mend .right axis place
  else
    let height := (if lheight < rheight then rheight else lheight) + 1
    if height = (s.node axis).height then some (s, none)
    else some (s.setHeight axis height, (s.node axis).parent)

/-- `util_avl_rebalance`, for at most `n` turns of the loop. -/
def rebalance : ℕ → Avl α → Option α → Option (Avl α)
  | _, s, none => some s
  | 0, _, some _ => none
  | n + 1, s, some axis => (s.rebalanceStep axis).bind fun r => rebalance n r.1 r.2

/-! ## Removing a node -/

/-- The loop of `util_avl_remove` that looks for the successor and its parent. -/
def successorLoop : ℕ → α → α → Option (α × α)
  | 0, _, _ => none
  | n + 1, sparent, successor =>
    match (s.node successor).avlLeft with
    | none => some (sparent, successor)
    | some x => successorLoop n successor x

/-- The deletion in `util_avl_remove` of a node without a right child. -/
def removeLeft (node : α) (place : AvlPlace α) : Avl α :=
  let s := s.setPlace place (s.node node).avlLeft
  s.adopt (s.node node).avlLeft (s.node node).parent

/-- The deletion of a node whose right child has no left child. -/
def removeRight (node rchild : α) (place : AvlPlace α) : Avl α :=
  let s := s.setPlace place (some rchild)
  let s := s.setChild rchild .left (s.node node).avlLeft
  let s := s.adopt (s.node rchild).avlLeft (some rchild)
  s.setParent rchild (s.node node).parent

/-- The deletion of a node whose successor is further down. -/
def removeNext (node sparent successor : α) (place : AvlPlace α) : Avl α :=
  let s := s.setPlace place (some successor)
  let s := s.setChild sparent .left (s.node successor).avlRight
  let s := s.setChild successor .left (s.node node).avlLeft
  let s := s.setChild successor .right (s.node node).avlRight
  let s := s.adopt (s.node successor).avlLeft (some successor)
  let s := s.adopt (s.node successor).avlRight (some successor)
  let s := s.adopt (s.node sparent).avlLeft (some sparent)
  s.setParent successor (s.node node).parent

/-- `util_avl_remove`, for loops of at most `n` turns. -/
def remove (n : ℕ) (node : α) : Option (Avl α) :=
  if s.rootNode = none then some s
  else
    let place := s.nodePlace node
    match (s.node node).avlRight with
    | none => rebalance n (s.removeLeft node place) (s.node node).parent
    | some rchild =>
      match (s.node rchild).avlLeft with
      | none =>
        (rebalance n (s.removeRight node rchild place) (some rchild)).bind fun s =>
          rebalance n s (s.node rchild).parent
      | some x =>
        (s.successorLoop n rchild x).bind fun r =>
          (rebalance n (s.removeNext node r.1 r.2 place) (some r.1)).bind fun s =>
            rebalance n s (some r.2)

/-! ## Inserting a node -/

/-- `util_avl_link`. -/
def link (newNode : α) (parent : Option α) (place : AvlPlace α) : Avl α :=
  (s.modify newNode fun _ => ⟨none, none, parent, 1⟩).setPlace place (some newNode)

/-- The loop of `_aspace_bst_insert`: the parent and the place of a new node with the key `k`, none when
there is a node with the key. -/
def findPlace {κ : Type} [LinearOrder κ] (key : α → κ) (k : κ) :
    ℕ → Option α → AvlPlace α → Option (Option (Option α × AvlPlace α))
  | 0, _, _ => none
  | n + 1, current, next =>
    match s.deref next with
    | none => some (some (current, next))
    | some c =>
      if k < key c then findPlace key k n (some c) (.child c .left)
      else if key c < k then findPlace key k n (some c) (.child c .right)
      else some none

/-- `_aspace_bst_insert`. -/
def bstInsert {κ : Type} [LinearOrder κ] (key : α → κ) (n : ℕ) (x : α) : Option (Avl α) :=
  (s.findPlace key (key x) n none .root).bind fun r =>
    match r with
    | none => some s
    | some (current, next) => rebalance n (s.link x current next) current

/-! ## Enumeration -/

/-- Follow the child pointers on a side as far as they go. -/
def extreme (d : Side) : ℕ → α → Option α
  | 0, _ => none
  | n + 1, a =>
    match (s.node a).child d with
    | none => some a
    | some b => extreme d n b

/-- Follow the parent pointers up from the side `e`. -/
def ascend (e : Side) : ℕ → α → Option (Option α)
  | 0, _ => none
  | n + 1, a =>
    match (s.node a).parent with
    | none => some none
    | some p => if (s.node p).child e = some a then ascend e n p else some (some p)

/-- The neighbour of a node towards the side `e`. -/
def neighbour (e : Side) (n : ℕ) : Option α → Option (Option α)
  | none => some none
  | some a =>
    match (s.node a).child e with
    | some b => (s.extreme e.other n b).map some
    | none => s.ascend e n a

/-- The outermost member on a side. -/
def outermost (d : Side) (n : ℕ) : Option (Option α) :=
  match s.rootNode with
  | none => some none
  | some a => (s.extreme d n a).map some

/-- `util_avl_next`. -/
def next (n : ℕ) (a : Option α) : Option (Option α) := s.neighbour .right n a

/-- `util_avl_prev`. -/
def prev (n : ℕ) (a : Option α) : Option (Option α) := s.neighbour .left n a

/-- `util_avl_first`. -/
def first (n : ℕ) : Option (Option α) := s.outermost .left n

/-- `util_avl_last`. -/
def last (n : ℕ) : Option (Option α) := s.outermost .right n

end Avl

/-! ## The tree of the nodes -/

variable {α : Type} [DecidableEq α] {s s' : Avl α} {node node' : α → AvlNode α} {d e : Side}
  {x y q r : Option α} {a b c : α} {h k : ℕ} {t u : HTree α} {f : TreeFrame α} {p : List (TreeFrame α)}

namespace AvlNode

/-- The node with the child `x` on the side `d` and the child `y` on the other. -/
def of (d : Side) (x y q : Option α) (h : ℕ) : AvlNode α :=
  match d with
  | .left => ⟨x, y, q, h⟩
  | .right => ⟨y, x, q, h⟩

@[simp] theorem child_of : (of d x y q h).child d = x := by
  cases d <;> rfl

@[simp] theorem child_other_of : (of d x y q h).child d.other = y := by
  cases d <;> rfl

@[simp] theorem setChild_of : (of d x y q h).setChild d r = of d r y q h := by
  cases d <;> rfl

@[simp] theorem setChild_other_of : (of d x y q h).setChild d.other r = of d x r q h := by
  cases d <;> rfl

@[simp] theorem parent_of : (of d x y q h).parent = q := by
  cases d <;> rfl

@[simp] theorem height_of : (of d x y q h).height = h := by
  cases d <;> rfl

@[simp] theorem setParent_of : (of d x y q h).setParent r = of d x y r h := by
  cases d <;> rfl

@[simp] theorem setHeight_of : (of d x y q h).setHeight k = of d x y q k := by
  cases d <;> rfl

end AvlNode

/-- The nodes make up the tree `t` below the parent `q`. -/
def TreeRep (node : α → AvlNode α) : Option α → HTree α → Prop
  | _, .nil => True
  | q, .node l a h r => node a = ⟨l.root, r.root, q, h⟩ ∧ TreeRep node (some a) l ∧ TreeRep node (some a) r

/-- The nodes of a path, above a child pointer `x`. -/
def PathRep (s : Avl α) : List (TreeFrame α) → Option α → Prop
  | [], x => s.rootNode = x
  | f :: p, x => s.node f.node = .of f.side x f.sibling.root (top p) f.height ∧
      TreeRep s.node (some f.node) f.sibling ∧ PathRep s p (some f.node)

/-- The nodes make up a path with a subtree below it. -/
structure TreeAt (s : Avl α) (p : List (TreeFrame α)) (t : HTree α) : Prop where
  path : PathRep s p t.root
  tree : TreeRep s.node (top p) t
  nodup : (plug p t).inorder.Nodup

/-- The pointer at the end of a path. -/
def placeOf : List (TreeFrame α) → AvlPlace α
  | [] => .root
  | f :: _ => .child f.node f.side

theorem rep_join : TreeRep node q (.join d t a h u) ↔
    node a = .of d t.root u.root q h ∧ TreeRep node (some a) t ∧ TreeRep node (some a) u := by
  cases d with
  | left => exact Iff.rfl
  | right =>
    constructor
    · rintro ⟨hn, hu, ht⟩
      exact ⟨hn, ht, hu⟩
    · rintro ⟨hn, ht, hu⟩
      exact ⟨hn, hu, ht⟩

/-- Only the nodes of the tree matter. -/
theorem TreeRep.congr (ht : TreeRep node q t) (hn : ∀ b ∈ t.inorder, node' b = node b) : TreeRep node' q t := by
  induction t generalizing q with
  | nil => trivial
  | node l a h r ihl ihr =>
    obtain ⟨ha, hl, hr⟩ := ht
    refine ⟨(hn a ?_).trans ha, ihl hl fun b hb => hn b ?_, ihr hr fun b hb => hn b ?_⟩
    · exact List.mem_append_right _ List.mem_cons_self
    · exact List.mem_append_left _ hb
    · exact List.mem_append_right _ (List.mem_cons_of_mem _ hb)

/-- The root gets another parent. -/
theorem TreeRep.adopt (ht : TreeRep node q t) (hd : t.inorder.Nodup)
    (hn : ∀ b ∈ t.inorder, node' b = if t.root = some b then (node b).setParent r else node b) :
    TreeRep node' r t := by
  cases t with
  | nil => trivial
  | node l a h u =>
    obtain ⟨ha, hl, hu⟩ := ht
    obtain ⟨hnot, -⟩ := List.nodup_cons.mp (List.nodup_middle.mp hd)
    rw [List.mem_append, not_or] at hnot
    have hrest : ∀ b ∈ (HTree.node l a h u).inorder, b ≠ a → node' b = node b := by
      intro b hb hne
      rw [hn b hb, HTree.root, if_neg]
      exact fun he => hne (Option.some.inj he).symm
    refine ⟨?_, hl.congr fun b hb => ?_, hu.congr fun b hb => ?_⟩
    · rw [hn a (List.mem_append_right _ List.mem_cons_self), HTree.root, if_pos rfl, ha]
      rfl
    · exact hrest b (List.mem_append_left _ hb) fun he => hnot.1 (he ▸ hb)
    · exact hrest b (List.mem_append_right _ (List.mem_cons_of_mem _ hb)) fun he => hnot.2 (he ▸ hb)

namespace Avl

/-! What a write does to a node. -/

theorem node_modify {f : AvlNode α → AvlNode α} : (s.modify a f).node b =
    if b = a then f (s.node b) else s.node b := by
  unfold modify
  by_cases h : b = a
  · rw [if_pos h, h]
    exact Function.update_self _ _ _
  · rw [if_neg h]
    exact Function.update_of_ne h _ _

@[simp] theorem node_setChild : (s.setChild a d x).node b =
    if b = a then (s.node b).setChild d x else s.node b := node_modify

@[simp] theorem node_setParent : (s.setParent a x).node b =
    if b = a then (s.node b).setParent x else s.node b := node_modify

@[simp] theorem node_setHeight : (s.setHeight a h).node b =
    if b = a then (s.node b).setHeight h else s.node b := node_modify

@[simp] theorem node_adopt : (s.adopt x q).node b =
    if x = some b then (s.node b).setParent q else s.node b := by
  cases x with
  | none => rfl
  | some a =>
    rw [Avl.adopt, node_setParent]
    by_cases h : b = a
    · rw [if_pos h, if_pos (congrArg some h.symm)]
    · rw [if_neg h, if_neg fun he => h (Option.some.inj he).symm]

/-- A write to the pointer at the end of a path. -/
theorem node_setPlace_of_ne (h : top p ≠ some b) : (s.setPlace (placeOf p) x).node b = s.node b := by
  cases p with
  | nil => rfl
  | cons f p =>
    show (s.setChild f.node f.side x).node b = _
    rw [node_setChild]
    exact if_neg fun he => h (congrArg some he.symm)

@[simp] theorem rootNode_setChild : (s.setChild a d x).rootNode = s.rootNode := rfl

@[simp] theorem rootNode_setParent : (s.setParent a x).rootNode = s.rootNode := rfl

@[simp] theorem rootNode_adopt : (s.adopt x q).rootNode = s.rootNode := by
  cases x <;> rfl

@[simp] theorem rootNode_setPlace : (s.setPlace (placeOf p) x).rootNode =
    if p = [] then x else s.rootNode := by
  cases p <;> rfl

/-- Writes to other nodes. -/
theorem setPlace_congr (hb : s'.node b = s.node b) :
    (s'.setPlace (placeOf p) x).node b = (s.setPlace (placeOf p) x).node b := by
  cases p with
  | nil => exact hb
  | cons f p =>
    show (s'.setChild f.node f.side x).node b = (s.setChild f.node f.side x).node b
    rw [node_setChild, node_setChild, hb]

end Avl

theorem top_mem (h : top p = some b) : b ∈ pathNodes p := by
  cases p with
  | nil => cases h
  | cons f p =>
    cases h
    exact List.mem_cons_self

/-- Only the nodes of the path matter. -/
theorem PathRep.congr (hp : PathRep s p x) (hn : ∀ b ∈ pathNodes p, s'.node b = s.node b)
    (hr : s'.rootNode = s.rootNode) : PathRep s' p x := by
  induction p generalizing x with
  | nil => exact hr.trans hp
  | cons f p ih =>
    obtain ⟨hf, hs, hp⟩ := hp
    refine ⟨(hn _ List.mem_cons_self).trans hf, hs.congr fun b hb => hn b ?_, ih hp fun b hb => hn b ?_⟩
    · exact List.mem_cons_of_mem _ (List.mem_append_left _ hb)
    · exact List.mem_cons_of_mem _ (List.mem_append_right _ hb)

/-- The pointer at the end of the path is written. -/
theorem PathRep.set (hp : PathRep s p x) (hd : (pathNodes p).Nodup)
    (hn : ∀ b ∈ pathNodes p, s'.node b = (s.setPlace (placeOf p) y).node b)
    (hr : s'.rootNode = (s.setPlace (placeOf p) y).rootNode) : PathRep s' p y := by
  cases p with
  | nil => exact hr
  | cons f p =>
    obtain ⟨hf, hs, hp⟩ := hp
    obtain ⟨hnot, -⟩ := List.nodup_cons.mp hd
    have hrest : ∀ b ∈ f.sibling.inorder ++ pathNodes p, s'.node b = s.node b := by
      intro b hb
      rw [hn b (List.mem_cons_of_mem _ hb)]
      apply Avl.node_setPlace_of_ne
      intro he
      exact hnot ((Option.some.inj he).symm ▸ hb)
    refine ⟨?_, hs.congr fun b hb => hrest b (List.mem_append_left _ hb),
      hp.congr (fun b hb => hrest b (List.mem_append_right _ hb)) hr⟩
    rw [hn _ List.mem_cons_self]
    show (s.setChild f.node f.side y).node f.node = _
    rw [Avl.node_setChild, if_pos rfl, hf, AvlNode.setChild_of]

namespace TreeAt

/-- The members of the subtree and those of the path are distinct. -/
theorem nodup_append (h : TreeAt s p t) : (t.inorder ++ pathNodes p).Nodup :=
  inorder_plug_perm.nodup_iff.mp h.nodup

theorem not_mem_path (h : TreeAt s p t) (hb : b ∈ t.inorder) : b ∉ pathNodes p := fun hc =>
  List.disjoint_of_nodup_append h.nodup_append hb hc

theorem top_ne (h : TreeAt s p t) (hb : b ∈ t.inorder) : top p ≠ some b := fun hc =>
  h.not_mem_path hb (top_mem hc)

/-- Another subtree takes the place of the one below the path. -/
theorem replace (h : TreeAt s p t) (hu : TreeRep s'.node (top p) u) (hd : u.inorder.Subperm t.inorder)
    (hn : ∀ b ∈ pathNodes p, s'.node b = (s.setPlace (placeOf p) u.root).node b)
    (hr : s'.rootNode = (s.setPlace (placeOf p) u.root).rootNode) : TreeAt s' p u := by
  refine ⟨h.path.set h.nodup_append.of_append_right hn hr, hu, ?_⟩
  rw [inorder_plug_perm.nodup_iff]
  obtain ⟨l, hl, hs⟩ := hd
  rw [← (hl.append_right _).nodup_iff]
  exact h.nodup_append.sublist (hs.append_right _)

/-- Down into a subtree. -/
theorem down (h : TreeAt s p (.join d t a k u)) : TreeAt s (⟨d, a, k, u⟩ :: p) t := by
  obtain ⟨hn, ht, hu⟩ := rep_join.mp h.tree
  refine ⟨⟨hn, hu, ?_⟩, ht, h.nodup⟩
  have hp := h.path
  rw [HTree.root_join] at hp
  exact hp

/-- Up to the node above. -/
theorem up (h : TreeAt s (⟨d, a, k, u⟩ :: p) t) : TreeAt s p (.join d t a k u) := by
  obtain ⟨hn, hu, hp⟩ := h.path
  refine ⟨?_, rep_join.mpr ⟨hn, h.tree, hu⟩, h.nodup⟩
  rw [HTree.root_join]
  exact hp

end TreeAt

end RtThread
