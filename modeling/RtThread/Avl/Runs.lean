import RtThread.Avl.Remove
import RtThread.Lib.System

/-!
# Runs of an AVL tree

Nodes are inserted by their keys and removed in any order.

* `findPlace_spec`, **`insert_spec`**: the descent ends at the ordered place, and the tree is balanced with
  the new node in its place;
* `neighbour_spec`, `outermost_spec`: stepping to the neighbour of a node, and to the ends;
* `AvlSet`, `AvlLabel`, `AvlSet.step`: the tree with the set of its members;
* **`avl_invariant`**: in every run the nodes are a balanced tree with exact heights and matching parent
  pointers, the order of its members is that of their keys, and the enumeration functions follow it;
* **`avl_depth`**: the tree is as flat as a Fibonacci tree, and so is the descent to a place.
-/

namespace RtThread

variable {α κ : Type} [DecidableEq α] [LinearOrder κ] {key : α → κ} {s s' : Avl α} {d e : Side}
  {a b c x : α} {h n : ℕ} {k : κ} {t u y z : HTree α} {p p' : List (TreeFrame α)} {l l₁ l₂ : List α}

/-! ## Inserting a node -/

/-- The keys ascend. -/
def Ascending (key : α → κ) (l : List α) : Prop := l.Pairwise fun a b => key a < key b

theorem TreeAt.deref (hs : TreeAt s p t) : s.deref (placeOf p) = t.root := by
  cases p with
  | nil => exact hs.path
  | cons f p =>
    show (s.node f.node).child f.side = t.root
    rw [hs.path.1, AvlNode.child_of]

/-- **The descent ends at the ordered place**, or at a node with the key. -/
theorem findPlace_spec (hs : TreeAt s p t) (hsort : Ascending key (plug p t).inorder)
    (hb : ∀ b ∈ pathBefore .right p, key b < k) (ha : ∀ b ∈ pathAfter .right p, k < key b)
    (hn : t.inorder.length < n) :
    (∃ p', s.findPlace key k n (top p) (placeOf p) = some (some (top p', placeOf p')) ∧
      plug p' .nil = plug p t ∧ (∀ b ∈ pathBefore .right p', key b < k) ∧
      ∀ b ∈ pathAfter .right p', k < key b) ∨
    s.findPlace key k n (top p) (placeOf p) = some none ∧ ∃ c ∈ t.inorder, key c = k := by
  induction t generalizing p n with
  | nil =>
    obtain ⟨n, rfl⟩ : ∃ i, n = i + 1 := ⟨n - 1, by omega⟩
    refine .inl ⟨p, ?_, rfl, hb, ha⟩
    rw [Avl.findPlace, hs.deref]
    rfl
  | node l c h r ihl ihr =>
    obtain ⟨n, rfl⟩ : ∃ i, n = i + 1 := ⟨n - 1, by omega⟩
    simp only [HTree.inorder, List.length_append, List.length_cons] at hn
    have hnode : Ascending key (l.inorder ++ c :: r.inorder) := by
      rw [inorder_plug] at hsort
      exact (List.pairwise_append.mp (List.pairwise_append.mp hsort).2.1).1
    obtain ⟨-, hcr, hlc⟩ := List.pairwise_append.mp hnode
    obtain ⟨hcr, -⟩ := List.pairwise_cons.mp hcr
    rw [Avl.findPlace, hs.deref]
    dsimp only [HTree.root]
    by_cases hlt : k < key c
    · rw [if_pos hlt]
      have hdown : TreeAt s (⟨.left, c, h, r⟩ :: p) l := TreeAt.down (d := .left) hs
      refine (ihl hdown hsort hb (fun b hmem => ?_) (by omega)).imp id fun hres => ⟨hres.1, ?_⟩
      · rw [pathAfter, if_neg (by simp), List.mem_cons, List.mem_append] at hmem
        cases hmem with
        | inl hbc => exact hbc ▸ hlt
        | inr hmem =>
          cases hmem with
          | inl hmem => exact lt_trans hlt (hcr b hmem)
          | inr hmem => exact ha b hmem
      · obtain ⟨c', hc', hkey⟩ := hres.2
        exact ⟨c', List.mem_append_left _ hc', hkey⟩
    · rw [if_neg hlt]
      by_cases hgt : key c < k
      · rw [if_pos hgt]
        have hdown : TreeAt s (⟨.right, c, h, l⟩ :: p) r := TreeAt.down (d := .right) hs
        refine (ihr hdown hsort (fun b hmem => ?_) ha (by omega)).imp id fun hres => ⟨hres.1, ?_⟩
        · rw [pathBefore, if_pos rfl, List.mem_append, List.mem_append, List.mem_singleton] at hmem
          cases hmem with
          | inl hmem => exact hb b hmem
          | inr hmem =>
            cases hmem with
            | inl hmem => exact lt_trans (hlc b hmem c List.mem_cons_self) hgt
            | inr hbc => exact hbc ▸ hgt
        · obtain ⟨c', hc', hkey⟩ := hres.2
          exact ⟨c', List.mem_append_right _ (List.mem_cons_of_mem _ hc'), hkey⟩
      · rw [if_neg hgt]
        refine .inr ⟨rfl, c, List.mem_append_right _ List.mem_cons_self, ?_⟩
        exact le_antisymm (not_lt.mp hlt) (not_lt.mp hgt)

/-- `util_avl_link`. -/
theorem TreeAt.link (hs : TreeAt s p .nil) (hx : x ∉ pathNodes p) :
    TreeAt (s.link x (top p) (placeOf p)) p (.node .nil x 1 .nil) := by
  have hnd : (pathNodes p).Nodup := hs.nodup_append
  refine ⟨hs.path.set hnd (fun b hb => ?_) ?_, ⟨?_, trivial, trivial⟩, ?_⟩
  · refine Avl.setPlace_congr (Avl.node_modify.trans (if_neg ?_))
    rintro rfl
    exact hx hb
  · unfold Avl.link
    rw [Avl.rootNode_setPlace, Avl.rootNode_setPlace]
    rfl
  · unfold Avl.link
    rw [Avl.node_setPlace_of_ne fun he => hx (top_mem he), Avl.node_modify, if_pos rfl]
    rfl
  · rw [inorder_plug_perm.nodup_iff]
    exact List.nodup_cons.mpr ⟨hx, hnd⟩

/-- **`_aspace_bst_insert`.** -/
theorem insert_spec (hs : IsTree s t) (ht : t.Balanced) (hsort : Ascending key t.inorder)
    (hx : x ∉ t.inorder) (hn : t.inorder.length < n) :
    ∃ s' t', s.bstInsert key n x = some s' ∧ IsTree s' t' ∧ t'.Balanced ∧ Ascending key t'.inorder ∧
      ∀ a, a ∈ t'.inorder ↔ a ∈ t.inorder ∨ a = x ∧ ∀ c ∈ t.inorder, key c ≠ key x := by
  have hfind := findPlace_spec (p := []) (k := key x) hs hsort (fun _ hb => nomatch hb)
    (fun _ hb => nomatch hb) hn
  unfold Avl.bstInsert
  cases hfind with
  | inr hfind =>
    obtain ⟨hfind, c, hc, hkey⟩ := hfind
    refine ⟨s, t, ?_, hs, ht, hsort, fun a => ⟨.inl, fun h => h.elim id fun h => ?_⟩⟩
    · rw [show s.findPlace key (key x) n none .root = some none from hfind]
      rfl
    · exact absurd hkey (h.2 c hc)
  | inl hfind =>
    obtain ⟨p, hfind, he, hb, ha⟩ := hfind
    have he : plug p .nil = t := he
    subst he
    have hat : TreeAt s p .nil := hs.at
    obtain ⟨-, hfit⟩ := balanced_of_plug ht
    have hpath : x ∉ pathNodes p := fun hmem => hx (mem_inorder_plug.mpr (.inr hmem))
    have hlen := length_le_inorder_plug (t := .nil) (p := p)
    have hleaf : (HTree.node .nil x 1 .nil).Balanced :=
      ⟨trivial, trivial, rfl, Nat.zero_le _, Nat.zero_le _⟩
    obtain ⟨s', t', hres, hw, hb', hi⟩ := rebalance_spec (n := n) hfit (hat.link hpath) hleaf
      (Nat.le_refl 1) (Nat.zero_le _) (by omega)
    have hold : (plug p (.nil : HTree α)).inorder = pathBefore .right p ++ pathAfter .right p :=
      inorder_plug
    have hnew : t'.inorder = pathBefore .right p ++ x :: pathAfter .right p := hi.trans inorder_plug
    refine ⟨s', t', ?_, hw, hb', ?_, fun a => ?_⟩
    · rw [show s.findPlace key (key x) n none .root = some (some (top p, placeOf p)) from hfind]
      exact hres
    · rw [hold] at hsort
      obtain ⟨h1, h2, h3⟩ := List.pairwise_append.mp hsort
      rw [hnew]
      refine List.pairwise_append.mpr ⟨h1, List.pairwise_cons.mpr ⟨ha, h2⟩, fun b hmem c hc => ?_⟩
      cases List.mem_cons.mp hc with
      | inl hcx => exact hcx ▸ hb b hmem
      | inr hc => exact h3 b hmem c hc
    · rw [hnew, hold, List.mem_append, List.mem_append, List.mem_cons, or_left_comm]
      constructor
      · intro h
        cases h with
        | inl hax =>
          refine .inr ⟨hax, fun c hc => ?_⟩
          cases List.mem_append.mp hc with
          | inl hc => exact (hb c hc).ne
          | inr hc => exact (ha c hc).ne'
        | inr h => exact .inl h
      · exact fun h => h.elim .inr fun h => .inl h.1

/-! ## Enumeration -/

theorem extreme_join (hs : TreeAt s p (.join d y a h z))
    (ih : ∀ p c n, TreeAt s p y → y.root = some c → y.inorder.length ≤ n →
      ∃ b, s.extreme d n c = some b ∧ (y.walk d.other).head? = some b)
    (hn : (HTree.join d y a h z).inorder.length ≤ n) :
    ∃ b, s.extreme d n a = some b ∧ ((HTree.join d y a h z).walk d.other).head? = some b := by
  have hlen : y.inorder.length < n := by
    rw [HTree.inorder_join_perm.length_eq, List.length_cons, List.length_append] at hn
    omega
  obtain ⟨n, rfl⟩ : ∃ i, n = i + 1 := ⟨n - 1, by omega⟩
  rw [HTree.walk_join_other, Avl.extreme, hs.node_eq, AvlNode.child_of]
  cases hroot : y.root with
  | none =>
    cases y with
    | node l c k r => cases hroot
    | nil =>
      refine ⟨a, rfl, ?_⟩
      cases d <;> rfl
  | some c =>
    obtain ⟨b, hb, hhead⟩ := ih _ c n hs.down hroot (by omega)
    refine ⟨b, hb, ?_⟩
    rw [List.head?_append, hhead]
    rfl

/-- **The end of a subtree.** -/
theorem extreme_spec (hs : TreeAt s p t) (ha : t.root = some a) (hn : t.inorder.length ≤ n) :
    ∃ b, s.extreme d n a = some b ∧ (t.walk d.other).head? = some b := by
  induction t generalizing p a n with
  | nil => cases ha
  | node l c h r ihl ihr =>
    cases ha
    cases d with
    | left => exact extreme_join (d := .left) hs (fun _ _ _ h1 h2 h3 => ihl h1 h2 h3) hn
    | right => exact extreme_join (d := .right) hs (fun _ _ _ h1 h2 h3 => ihr h1 h2 h3) hn

/-- **The way up** leads to the first member after the subtree. -/
theorem ascend_spec (hs : TreeAt s p t) (ha : t.root = some a) (hn : p.length < n) :
    s.ascend e n a = some (pathAfter e p).head? := by
  induction p generalizing t a n with
  | nil =>
    obtain ⟨n, rfl⟩ : ∃ i, n = i + 1 := ⟨n - 1, by omega⟩
    obtain ⟨x, h, y, rfl⟩ := HTree.exists_join e ha
    rw [Avl.ascend, hs.node_eq, AvlNode.parent_of]
    rfl
  | cons f p ih =>
    obtain ⟨n, rfl⟩ : ∃ i, n = i + 1 := ⟨n - 1, by omega⟩
    have hf := hs.path.1
    have hsib : f.sibling.root ≠ some a := by
      intro hroot
      refine hs.not_mem_path (HTree.root_mem ha) ?_
      exact List.mem_cons_of_mem _ (List.mem_append_left _ (HTree.root_mem hroot))
    obtain ⟨x, h, y, rfl⟩ := HTree.exists_join e ha
    rw [Avl.ascend, hs.node_eq, AvlNode.parent_of, pathAfter]
    dsimp only [top, List.head?_cons, Option.map_some]
    rw [hf, HTree.root_join]
    by_cases hside : f.side = e
    · subst hside
      rw [if_pos rfl, AvlNode.child_of, if_pos rfl]
      have hup : TreeAt s p (f.fill (HTree.join f.side x a h y)) := TreeAt.up hs
      exact ih (n := n) hup HTree.root_join (by rw [List.length_cons] at hn; omega)
    · have he : e = f.side.other := (Side.eq_or e f.side).resolve_left (Ne.symm hside)
      rw [if_neg hside, he, AvlNode.child_other_of, if_neg hsib]
      rfl

/-- **The neighbour of a member** is the next one of the walk. -/
theorem neighbour_spec (hs : IsTree s t) (hw : t.walk e = l₁ ++ a :: l₂) (hn : t.inorder.length < n) :
    s.neighbour e n (some a) = some l₂.head? := by
  have ha : a ∈ t.inorder := by
    rw [← HTree.mem_walk (e := e), hw]
    exact List.mem_append_right _ List.mem_cons_self
  obtain ⟨p, l, h, r, rfl⟩ := exists_plug ha
  have hlen := length_le_inorder_plug (t := .node l a h r) (p := p)
  obtain ⟨y, k, z, he⟩ := HTree.exists_join e (t := .node l a h r) rfl
  rw [he] at hs hw hn hlen
  have hat : TreeAt s p (.join e y a k z) := hs.at
  have hwalk : (plug p (.join e y a k z)).walk e =
      (pathBefore e p ++ z.walk e) ++ a :: (y.walk e ++ pathAfter e p) := by
    rw [walk_plug, HTree.walk_join]
    simp
  have hnd : ((plug p (.join e y a k z)).walk e).Nodup := HTree.walk_perm.nodup_iff.mpr hs.nodup
  have hnd₁ := (List.nodup_cons.mp (List.nodup_middle.mp (hw ▸ hnd))).1
  have hnd₂ := (List.nodup_cons.mp (List.nodup_middle.mp (hwalk ▸ hnd))).1
  have hafter : l₂ = y.walk e ++ pathAfter e p := by
    rw [hw] at hwalk
    exact ((List.append_cons_inj_of_notMem (fun h => hnd₁ (List.mem_append_left _ h))
      (fun h => hnd₁ (List.mem_append_right _ h))).mp hwalk).2.2
  rw [hafter, Avl.neighbour, hat.node_eq, AvlNode.child_of]
  cases hroot : y.root with
  | none =>
    cases y with
    | node l' c k r' => cases hroot
    | nil =>
      dsimp only
      rw [ascend_spec hat HTree.root_join (by omega)]
      cases e <;> rfl
  | some c =>
    have hylen : y.inorder.length ≤ n := by
      rw [HTree.inorder_join_perm.length_eq, List.length_cons, List.length_append] at hlen
      omega
    obtain ⟨b, hb, hhead⟩ := extreme_spec (d := e.other) hat.down hroot hylen
    rw [Side.other_other] at hhead
    dsimp only
    rw [hb, List.head?_append, hhead]
    rfl

theorem outermost_spec (hs : IsTree s t) (hn : t.inorder.length < n) :
    s.outermost d n = some (t.walk d.other).head? := by
  have hroot : s.rootNode = t.root := hs.path
  unfold Avl.outermost
  rw [hroot]
  cases ha : t.root with
  | none =>
    cases t with
    | node l c h r => cases ha
    | nil => cases d <;> rfl
  | some a =>
    obtain ⟨b, hb, hhead⟩ := extreme_spec (d := d) hs ha (Nat.le_of_lt hn)
    dsimp only
    rw [hb, hhead]
    rfl

/-! ## Runs -/

/-- A tree with the set of its members. -/
structure AvlSet (α : Type) where
  avl : Avl α
  members : Finset α

/-- A node that is in no tree is inserted; a member is removed. -/
inductive AvlLabel (α : Type) where
  | insert (x : α)
  | remove (x : α)
  deriving DecidableEq

namespace AvlSet

/-- One operation, with more turns for every loop than there are members. A node with a key that is there
already is not inserted. -/
def step (key : α → κ) (s : AvlSet α) : AvlLabel α → Option (AvlSet α)
  | .insert x =>
    if x ∈ s.members then none
    else
      (s.avl.bstInsert key (s.members.card + 1) x).map fun avl =>
        { avl := avl
          members := if ∀ c ∈ s.members, key c ≠ key x then insert x s.members else s.members }
  | .remove x =>
    if x ∈ s.members then
      (s.avl.remove (s.members.card + 1) x).map fun avl =>
        { avl := avl, members := s.members.erase x }
    else none

/-- `util_avl_first`, `util_avl_next`, `util_avl_last` and `util_avl_prev` enumerate a list. -/
structure Enumerates (s : Avl α) (n : ℕ) (l : List α) : Prop where
  first : s.first n = some l.head?
  last : s.last n = some l.getLast?
  next : ∀ l₁ a l₂, l = l₁ ++ a :: l₂ → s.next n (some a) = some l₂.head?
  prev : ∀ l₁ a l₂, l = l₁ ++ a :: l₂ → s.prev n (some a) = some l₁.getLast?

/-- The nodes are a tree, with their parents and exact heights; it is balanced, and its order is the one
in which the members are enumerated. -/
structure Ok (key : α → κ) (s : AvlSet α) : Prop where
  tree : ∃ t, IsTree s.avl t ∧ t.Balanced ∧ Ascending key t.inorder ∧
    (∀ a, a ∈ t.inorder ↔ a ∈ s.members) ∧ Enumerates s.avl (s.members.card + 1) t.inorder
  insert : ∀ x ∉ s.members, (s.step key (.insert x)).isSome
  remove : ∀ x ∈ s.members, (s.step key (.remove x)).isSome

end AvlSet

/-- The runs from the empty tree. -/
def avlSystem (key : α → κ) : System (AvlSet α) (AvlLabel α) where
  init s := s.avl.rootNode = none ∧ s.members = ∅
  step := AvlSet.step key

namespace AvlSet

variable {s s' : AvlSet α}

/-- What every run keeps. -/
def Inv (key : α → κ) (s : AvlSet α) : Prop :=
  ∃ t, IsTree s.avl t ∧ t.Balanced ∧ Ascending key t.inorder ∧ ∀ a, a ∈ t.inorder ↔ a ∈ s.members

theorem length_inorder (hs : IsTree s.avl t) (hm : ∀ a, a ∈ t.inorder ↔ a ∈ s.members) :
    t.inorder.length = s.members.card := by
  rw [← List.toFinset_card_of_nodup (show t.inorder.Nodup from hs.nodup)]
  congr 1
  ext a
  rw [List.mem_toFinset]
  exact hm a

theorem Inv.insert (h : Inv key s) (hx : x ∉ s.members) :
    ∃ s', s.step key (.insert x) = some s' ∧ Inv key s' := by
  obtain ⟨t, hw, hb, hsort, hm⟩ := h
  have hlen := length_inorder hw hm
  obtain ⟨avl, t', hres, hw', hb', hsort', hm'⟩ := insert_spec (n := s.members.card + 1) hw hb hsort
    (fun hmem => hx ((hm x).mp hmem)) (by omega)
  rw [step, if_neg hx, hres, Option.map_some]
  refine ⟨_, rfl, t', hw', hb', hsort', fun a => ?_⟩
  rw [hm' a, hm a]
  have hkeys : (∀ c ∈ t.inorder, key c ≠ key x) ↔ ∀ c ∈ s.members, key c ≠ key x :=
    forall_congr' fun c => imp_congr_left (hm c)
  rw [hkeys]
  by_cases hnew : ∀ c ∈ s.members, key c ≠ key x
  · rw [if_pos hnew, Finset.mem_insert, or_comm]
    exact or_congr_left (and_iff_left hnew)
  · rw [if_neg hnew]
    exact or_iff_left fun h => hnew h.2

theorem Inv.remove (h : Inv key s) (hx : x ∈ s.members) :
    ∃ s', s.step key (.remove x) = some s' ∧ Inv key s' := by
  obtain ⟨t, hw, hb, hsort, hm⟩ := h
  have hlen := length_inorder hw hm
  obtain ⟨avl, t', hres, hw', hb', hi⟩ := remove_spec (n := s.members.card + 1) hw hb
    ((hm x).mpr hx) (by omega)
  rw [step, if_pos hx, hres, Option.map_some]
  refine ⟨_, rfl, t', hw', hb', ?_, fun a => ?_⟩
  · rw [hi]
    exact hsort.sublist (List.erase_sublist)
  · have hnd : t.inorder.Nodup := hw.nodup
    rw [hi, hnd.mem_erase_iff, Finset.mem_erase, hm a]

theorem step_inv (h : Inv key s) {l : AvlLabel α} (hst : s.step key l = some s') : Inv key s' := by
  cases l with
  | insert x =>
    by_cases hx : x ∈ s.members
    · rw [step, if_pos hx] at hst
      cases hst
    · obtain ⟨s₁, hs₁, hinv⟩ := h.insert hx
      rw [hs₁] at hst
      cases hst
      exact hinv
  | remove x =>
    by_cases hx : x ∈ s.members
    · obtain ⟨s₁, hs₁, hinv⟩ := h.remove hx
      rw [hs₁] at hst
      cases hst
      exact hinv
    · rw [step, if_neg hx] at hst
      cases hst

/-- **The enumeration functions follow the order.** -/
theorem enumerates {s : Avl α} (hs : IsTree s t) (hn : t.inorder.length < n) :
    Enumerates s n t.inorder where
  first := outermost_spec (d := .left) hs hn
  last := by
    rw [← List.head?_reverse]
    exact outermost_spec (d := .right) hs hn
  next l₁ a l₂ hl := neighbour_spec (e := .right) hs hl hn
  prev l₁ a l₂ hl := by
    have hrev : t.walk .left = l₂.reverse ++ a :: l₁.reverse := by
      show t.inorder.reverse = _
      rw [hl]
      simp
    rw [← List.head?_reverse]
    exact neighbour_spec (e := .left) hs hrev hn

end AvlSet

/-- **AVL trees.** In every run of insertions and removals the nodes are a balanced tree with exact heights
and matching pointers, its order is that of the keys of its members, the enumeration functions follow this
order, and every operation on it succeeds. -/
theorem avl_invariant {s : AvlSet α} (hs : (avlSystem key).Reach System.anyStep s) : s.Ok key := by
  have hinv : AvlSet.Inv key s := by
    refine hs.invariant (I := AvlSet.Inv key) (fun s h => ?_) fun _ _ _ h _ hst => AvlSet.step_inv h hst
    refine ⟨.nil, ⟨h.1, trivial, List.nodup_nil⟩, trivial, List.Pairwise.nil, fun a => ?_⟩
    rw [h.2]
    exact iff_of_false List.not_mem_nil (Finset.notMem_empty a)
  refine ⟨?_, fun x hx => ?_, fun x hx => ?_⟩
  · obtain ⟨t, hw, hb, hsort, hm⟩ := hinv
    refine ⟨t, hw, hb, hsort, hm, AvlSet.enumerates hw ?_⟩
    rw [AvlSet.length_inorder hw hm]
    exact Nat.lt_succ_self _
  · obtain ⟨s', hs', -⟩ := hinv.insert hx
    rw [hs']
    rfl
  · obtain ⟨s', hs', -⟩ := hinv.remove hx
    rw [hs']
    rfl

/-- Four nodes are inserted, which takes a rotation, and the root is removed. -/
theorem avl_invariant_four : ∃ s : AvlSet ℕ, (avlSystem (id : ℕ → ℕ)).Reach System.anyStep s ∧
    (s.avl.rootNode = some 3 ∧ s.members = {1, 3, 4}) ∧ s.Ok id := by
  obtain ⟨s, hs, hp⟩ := System.exists_reach (avlSystem (id : ℕ → ℕ)) System.anyStep
    (fun s => decide (s.avl.rootNode = some 3 ∧ s.members = {1, 3, 4}))
    (s := { avl := { node := fun _ => ⟨none, none, none, 0⟩, rootNode := none }, members := ∅ })
    ⟨rfl, rfl⟩ [.insert 1, .insert 2, .insert 3, .insert 4, .remove 2] (by decide)
  exact ⟨s, hs, of_decide_eq_true hp, avl_invariant hs⟩

/-! ## The depth -/

/-- A turn of the descent goes one level down. -/
theorem findPlace_turns (k : κ) (hs : TreeAt s p t) (ht : t.Balanced) (hn : t.height < n) :
    (s.findPlace key k n (top p) (placeOf p)).isSome := by
  induction t generalizing p n with
  | nil =>
    obtain ⟨n, rfl⟩ : ∃ i, n = i + 1 := ⟨n - 1, by omega⟩
    rw [Avl.findPlace, hs.deref]
    rfl
  | node l c h r ihl ihr =>
    obtain ⟨n, rfl⟩ : ∃ i, n = i + 1 := ⟨n - 1, by omega⟩
    obtain ⟨hl, hr, hh, -⟩ := ht
    have hn' : h < n + 1 := hn
    rw [Avl.findPlace, hs.deref]
    dsimp only [HTree.root]
    split_ifs
    · exact ihl (TreeAt.down (d := .left) hs) hl (by omega)
    · exact ihr (TreeAt.down (d := .right) hs) hr (by omega)
    · rfl

/-- **The depth is logarithmic.** In every run the height `h` in the root has `fib (h + 2) ≤ n + 1` for `n`
members, and the descent to the place of any key takes at most one turn more. -/
theorem avl_depth {s : AvlSet α} (hs : (avlSystem key).Reach System.anyStep s) (k : κ) :
    Nat.fib (s.avl.heightOf s.avl.rootNode + 2) ≤ s.members.card + 1 ∧
      (s.avl.findPlace key k (s.avl.heightOf s.avl.rootNode + 1) none .root).isSome := by
  obtain ⟨t, hw, hb, -, hm⟩ : AvlSet.Inv key s := by
    refine hs.invariant (I := AvlSet.Inv key) (fun s h => ?_) fun _ _ _ h _ hst => AvlSet.step_inv h hst
    refine ⟨.nil, ⟨h.1, trivial, List.nodup_nil⟩, trivial, List.Pairwise.nil, fun a => ?_⟩
    rw [h.2]
    exact iff_of_false List.not_mem_nil (Finset.notMem_empty a)
  have hh : s.avl.heightOf s.avl.rootNode = t.height := by
    rw [show s.avl.rootNode = t.root from hw.path]
    exact hw.tree.heightOf
  rw [hh, ← AvlSet.length_inorder hw hm]
  exact ⟨HTree.fib_height_le hb, findPlace_turns (p := []) k hw hb (Nat.lt_succ_self _)⟩

/-- A tree of four nodes is three high. -/
theorem avl_depth_four : ∃ s : AvlSet ℕ, s.members.card = 4 ∧
    (Nat.fib (s.avl.heightOf s.avl.rootNode + 2) ≤ s.members.card + 1 ∧
      (s.avl.findPlace id 7 (s.avl.heightOf s.avl.rootNode + 1) none .root).isSome) := by
  obtain ⟨s, hs, hp⟩ := System.exists_reach (avlSystem (id : ℕ → ℕ)) System.anyStep
    (fun s => decide (s.members.card = 4))
    (s := { avl := { node := fun _ => ⟨none, none, none, 0⟩, rootNode := none }, members := ∅ })
    ⟨rfl, rfl⟩ [.insert 1, .insert 2, .insert 3, .insert 4] (by decide)
  exact ⟨s, of_decide_eq_true hp, avl_depth hs 7⟩

end RtThread
