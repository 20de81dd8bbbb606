import RtThread.Avl.Rebalance

/-!
# Removing a node from an AVL tree

`util_avl_remove`: the node is spliced out, or the next one takes its place with the height that it had
further down, and the tree is rebalanced from where a subtree has become lower, and once more from the
node that has moved.

* `TreeAt.removeLeft`, `TreeAt.removeRight`, `TreeAt.removeNext`: the three deletions;
* **`remove_spec`**: the tree is balanced again and holds the other members in their order.
-/

set_option linter.unusedSectionVars false

namespace RtThread

variable {α : Type} [DecidableEq α] {s s' : Avl α} {d e : Side} {a b c g : α} {h k m : ℕ}
  {t u x y z w : HTree α} {f : TreeFrame α} {p p' : List (TreeFrame α)}

/-! ## The deletions -/

theorem TreeRep.parent_root {q : Option α} (ht : TreeRep s.node q t) (hb : t.root = some b) :
    (s.node b).setParent q = s.node b := by
  cases t with
  | nil => cases hb
  | node l a h r =>
    cases hb
    rw [ht.1]
    rfl

/-- A node with one subtree makes way for it. -/
theorem TreeAt.splice (hs : TreeAt s p (.join d .nil a k t)) :
    TreeAt ((s.setPlace (placeOf p) t.root).adopt t.root (top p)) p t := by
  obtain ⟨ha, -, ht⟩ := rep_join.mp hs.tree
  have hin : ∀ b ∈ t.inorder, b ∈ (HTree.join d .nil a k t).inorder := fun b hb =>
    HTree.mem_inorder_join.mpr (.inr (.inr hb))
  have hnd := hs.nodup_append.of_append_left
  rw [HTree.inorder_join_perm.nodup_iff] at hnd
  refine hs.replace (ht.adopt hnd.of_cons fun b hb => ?_) ?_ (fun b hb => ?_) ?_
  · rw [Avl.node_adopt, Avl.node_setPlace_of_ne (hs.top_ne (hin b hb))]
  · exact (List.sublist_cons_self a t.inorder).subperm.trans
      (HTree.inorder_join_perm (t := .nil)).symm.subperm
  · rw [Avl.node_adopt, if_neg]
    exact fun he => hs.not_mem_path (hin b (HTree.root_mem he)) hb
  · rw [Avl.rootNode_adopt]

/-- Another node takes the place of a node with its subtrees. -/
theorem TreeAt.subst (hs : TreeAt s p (.node t a h u)) (hc : c ∉ (plug p (.node t a h u)).inorder)
    (hnode : s'.node c = ⟨t.root, u.root, top p, k⟩)
    (ht : ∀ b ∈ t.inorder, s'.node b =
      if t.root = some b then (s.node b).setParent (some c) else s.node b)
    (hu : ∀ b ∈ u.inorder, s'.node b =
      if u.root = some b then (s.node b).setParent (some c) else s.node b)
    (hn : ∀ b ∈ pathNodes p, s'.node b = (s.setPlace (placeOf p) (some c)).node b)
    (hr : s'.rootNode = (s.setPlace (placeOf p) (some c)).rootNode) : TreeAt s' p (.node t c k u) := by
  obtain ⟨-, htr, hur⟩ := hs.tree
  have hnd := hs.nodup_append
  rw [inorder_plug_perm.mem_iff] at hc
  refine ⟨hs.path.set hnd.of_append_right hn hr, ⟨hnode, ?_, ?_⟩, ?_⟩
  · exact htr.adopt hnd.of_append_left.of_append_left ht
  · exact hur.adopt hnd.of_append_left.of_append_right.of_cons hu
  · rw [inorder_plug_perm.nodup_iff]
    have hperm : ∀ b m, ((HTree.node t b m u).inorder ++ pathNodes p).Perm
        (b :: (t.inorder ++ u.inorder ++ pathNodes p)) := fun b m =>
      List.Perm.append_right (pathNodes p) List.perm_middle
    rw [(hperm a h).nodup_iff, List.nodup_cons] at hnd
    rw [(hperm c k).nodup_iff, List.nodup_cons]
    refine ⟨fun hmem => ?_, hnd.2⟩
    rw [(hperm a h).mem_iff] at hc
    exact hc (List.mem_cons_of_mem _ hmem)

/-- The distinct members around a node. -/
theorem TreeAt.nodup_node (hs : TreeAt s p (.node t a h u)) : (a :: (t.inorder ++ u.inorder)).Nodup := by
  have hnd := hs.nodup_append.of_append_left
  rwa [HTree.inorder, List.nodup_middle] at hnd

/-- **A node without a right child.** -/
theorem TreeAt.removeLeft (hs : TreeAt s p (.node t a h .nil)) :
    TreeAt (s.removeLeft a (placeOf p)) p t := by
  obtain ⟨ha, ht, -⟩ := hs.tree
  have hin : a ∈ (HTree.node t a h .nil).inorder := List.mem_append_right _ List.mem_cons_self
  have heq : s.removeLeft a (placeOf p) = (s.setPlace (placeOf p) t.root).adopt t.root (top p) := by
    unfold Avl.removeLeft
    dsimp only
    rw [Avl.node_setPlace_of_ne (hs.top_ne hin), ha]
  rw [heq]
  exact TreeAt.splice (d := .right) hs

/-- **A node whose right child has no left child.** -/
theorem TreeAt.removeRight (hs : TreeAt s p (.node t a h (.node .nil c k u))) :
    TreeAt (s.removeRight a c (placeOf p)) p (.node t c k u) := by
  obtain ⟨ha, ht, hc, -, hu⟩ := hs.tree
  have hnd := hs.nodup_node
  simp only [HTree.inorder, List.nil_append, List.nodup_cons, List.mem_append, List.mem_cons,
    not_or] at hnd
  obtain ⟨⟨hat, hac, hau⟩, hnd⟩ := hnd
  obtain ⟨hcnot, hnd⟩ := List.nodup_cons.mp (List.nodup_middle.mp hnd)
  rw [List.mem_append, not_or] at hcnot
  have hdisj := List.disjoint_of_nodup_append hnd
  have hin : ∀ b, b = a ∨ b ∈ t.inorder ∨ b = c ∨ b ∈ u.inorder →
      b ∈ (HTree.node t a h (.node .nil c k u)).inorder := by
    intro b hb
    simp only [HTree.inorder, List.nil_append, List.mem_append, List.mem_cons]
    tauto
  -- the child is taken out of the tree first
  have hdown : TreeAt s (⟨.right, a, h, t⟩ :: p) (.node .nil c k u) := TreeAt.down (d := .right) hs
  have hout := (TreeAt.splice (d := .left) hdown).up
  have hcout : c ∉ (plug p (.node t a h u)).inorder := by
    rw [inorder_plug_perm.mem_iff, List.mem_append, not_or]
    refine ⟨?_, hs.not_mem_path (hin c (.inr (.inr (.inl rfl))))⟩
    simp only [HTree.inorder, List.mem_append, List.mem_cons, not_or]
    exact ⟨hcnot.1, Ne.symm hac, hcnot.2⟩
  have hta := hs.top_ne (hin a (.inl rfl))
  have heq : s.removeRight a c (placeOf p) =
      (((s.setPlace (placeOf p) (some c)).setChild c .left t.root).adopt t.root (some c)).setParent c
        (top p) := by
    have hleft : (((s.setPlace (placeOf p) (some c)).node a)).avlLeft = t.root := by
      rw [Avl.node_setPlace_of_ne hta, ha]
    have hleft' : ((((s.setPlace (placeOf p) (some c)).setChild c .left t.root).node c)).avlLeft =
        t.root := by
      rw [Avl.node_setChild, if_pos rfl]
      rfl
    have hparent : (((((s.setPlace (placeOf p) (some c)).setChild c .left t.root).adopt t.root
        (some c)).node a)).parent = top p := by
      rw [Avl.node_adopt, if_neg (HTree.root_ne hat), Avl.node_setChild, if_neg hac,
        Avl.node_setPlace_of_ne hta, ha]
    unfold Avl.removeRight
    dsimp only
    rw [hleft, hleft', hparent]
  rw [heq]
  have hkeep : ∀ b, b ≠ a → b ∉ u.inorder →
      ((s.setPlace (placeOf (⟨.right, a, h, t⟩ :: p)) u.root).adopt u.root (some a)).node b = s.node b := by
    intro b hba hbu
    rw [Avl.node_adopt, if_neg (HTree.root_ne hbu), Avl.node_setPlace_of_ne]
    exact fun he => hba (Option.some.inj he).symm
  refine hout.subst hcout ?_ (fun b hb => ?_) (fun b hb => ?_) (fun b hb => ?_) ?_
  · rw [Avl.node_setParent, if_pos rfl, Avl.node_adopt, if_neg (HTree.root_ne hcnot.1), Avl.node_setChild,
      if_pos rfl, Avl.node_setPlace_of_ne (hs.top_ne (hin c (.inr (.inr (.inl rfl))))), hc]
    rfl
  · have hbc : b ≠ c := fun e => hcnot.1 (e ▸ hb)
    have hold : (s.setPlace (placeOf (⟨.right, a, h, t⟩ :: p)) u.root |>.adopt u.root (some a)).node b =
        s.node b := hkeep b (fun e => hat (e ▸ hb)) (hdisj hb)
    rw [Avl.node_setParent, if_neg hbc, Avl.node_adopt, Avl.node_setChild, if_neg hbc,
      Avl.node_setPlace_of_ne (hs.top_ne (hin b (.inr (.inl hb))))]
    exact hold ▸ rfl
  · have hbc : b ≠ c := fun e => hcnot.2 (e ▸ hb)
    have hbt : b ∉ t.inorder := fun hbt => hdisj hbt hb
    have hba : top (⟨.right, a, h, t⟩ :: p) ≠ some b := fun he =>
      hau ((show a = b from Option.some.inj he) ▸ hb)
    rw [Avl.node_setParent, if_neg hbc, Avl.node_adopt, if_neg (HTree.root_ne hbt), Avl.node_setChild,
      if_neg hbc, Avl.node_setPlace_of_ne (hs.top_ne (hin b (.inr (.inr (.inr hb)))))]
    rw [Avl.node_adopt, Avl.node_setPlace_of_ne hba]
    by_cases hroot : u.root = some b
    · rw [if_pos hroot, if_pos hroot]
      exact (hu.parent_root hroot).symm
    · rw [if_neg hroot, if_neg hroot]
  · have hout : ∀ b' ∈ (HTree.node t a h (.node .nil c k u)).inorder, b ≠ b' := by
      rintro b' hb' rfl
      exact hs.not_mem_path hb' hb
    have hbt : b ∉ t.inorder := fun hbt => hout b (hin b (.inr (.inl hbt))) rfl
    have hbu : b ∉ u.inorder := fun hbu => hout b (hin b (.inr (.inr (.inr hbu)))) rfl
    rw [Avl.node_setParent, if_neg (hout c (hin c (.inr (.inr (.inl rfl))))), Avl.node_adopt,
      if_neg (HTree.root_ne hbt), Avl.node_setChild, if_neg (hout c (hin c (.inr (.inr (.inl rfl)))))]
    exact Avl.setPlace_congr (hkeep b (hout a (hin a (.inl rfl))) hbu).symm
  · rw [Avl.rootNode_setParent, Avl.rootNode_adopt, Avl.rootNode_setChild, Avl.rootNode_setPlace,
      Avl.rootNode_setPlace, Avl.rootNode_adopt]
    rfl

/-- **A node whose successor is further down.** -/
theorem TreeAt.removeNext (hs : TreeAt s p (.node t a h (plug (f :: p') (.node .nil c k u))))
    (hside : f.side = .left) :
    TreeAt (s.removeNext a f.node c (placeOf p)) p (.node t c k (plug (f :: p') u)) := by
  obtain ⟨ha, ht, -⟩ := hs.tree
  obtain ⟨r, hr, hroot⟩ := root_plug_cons (f := f) (p := p')
  -- the distinct members
  have hnd := hs.nodup_node
  rw [List.nodup_cons, List.mem_append, not_or, mem_inorder_plug, not_or] at hnd
  obtain ⟨⟨hat, hau, hap⟩, hnd⟩ := hnd
  have hdisj := List.disjoint_of_nodup_append hnd
  have hnd' := inorder_plug_perm.nodup_iff.mp hnd.of_append_right
  obtain ⟨hcup, hup⟩ := List.nodup_cons.mp (show (c :: (u.inorder ++ pathNodes (f :: p'))).Nodup from hnd')
  rw [List.mem_append, not_or] at hcup
  have hup := List.disjoint_of_nodup_append hup
  have hf : f.node ∈ pathNodes (f :: p') := List.mem_cons_self
  have hac : a ≠ c := fun e => hau (e ▸ List.mem_cons_self)
  have haf : a ≠ f.node := fun e => hap (e ▸ hf)
  have hcf : c ≠ f.node := fun e => hcup.2 (e ▸ hf)
  have hau : a ∉ u.inorder := fun h => hau (List.mem_cons_of_mem _ h)
  have htup : ∀ b ∈ t.inorder, b ≠ c ∧ b ∉ u.inorder ∧ b ∉ pathNodes (f :: p') := by
    intro b hb
    have hnot := not_or.mp fun h => hdisj hb (mem_inorder_plug.mpr h)
    exact ⟨fun e => hnot.1 (e ▸ List.mem_cons_self), fun h => hnot.1 (List.mem_cons_of_mem _ h), hnot.2⟩
  have hct : c ∉ t.inorder := fun h => (htup c h).1 rfl
  have hft : f.node ∉ t.inorder := fun h => (htup f.node h).2.2 hf
  have hin : ∀ b, b = a ∨ b ∈ t.inorder ∨ b = c ∨ b ∈ u.inorder ∨ b ∈ pathNodes (f :: p') →
      b ∈ (HTree.node t a h (plug (f :: p') (.node .nil c k u))).inorder := by
    intro b hb
    simp only [HTree.inorder, List.mem_append, List.mem_cons, mem_inorder_plug, List.nil_append]
    tauto
  -- the successor is taken out of the tree first
  have hdown : TreeAt s (f :: p' ++ ⟨.right, a, h, t⟩ :: p) (.node .nil c k u) :=
    TreeAt.downs (TreeAt.down (d := .right) hs)
  have hsplice := TreeAt.splice (d := .left) hdown
  have hout : TreeAt ((s.setChild f.node .left u.root).adopt u.root (some f.node)) p
      (.node t a h (plug (f :: p') u)) := by
    rw [← hside]
    exact TreeAt.up (d := .right) (TreeAt.ups hsplice)
  have hcout : c ∉ (plug p (.node t a h (plug (f :: p') u))).inorder := by
    rw [mem_inorder_plug, not_or]
    refine ⟨?_, hs.not_mem_path (hin c (.inr (.inr (.inl rfl))))⟩
    simp only [HTree.inorder, List.mem_append, List.mem_cons, not_or, mem_inorder_plug]
    exact ⟨hct, Ne.symm hac, hcup.1, hcup.2⟩
  have hta := hs.top_ne (hin a (.inl rfl))
  have htc := hs.top_ne (hin c (.inr (.inr (.inl rfl))))
  obtain ⟨hc, -, hu⟩ := hdown.tree
  have hru : u.root ≠ some r := fun he => hup (HTree.root_mem he) hr
  have hrc : r ≠ c := fun e => hcup.2 (e ▸ hr)
  have hra : r ≠ a := fun e => hap (e ▸ hr)
  have heq : s.removeNext a f.node c (placeOf p) =
      (((((((s.setPlace (placeOf p) (some c)).setChild f.node .left u.root).setChild c .left t.root).setChild
        c .right (some r)).adopt t.root (some c)).adopt (some r) (some c)).adopt u.root
          (some f.node)).setParent c (top p) := by
    obtain ⟨s₀, h₀⟩ : ∃ s₀, s₀ = s.setPlace (placeOf p) (some c) := ⟨_, rfl⟩
    have ha₀ : s₀.node a = ⟨t.root, some r, top p, h⟩ := by
      rw [h₀, Avl.node_setPlace_of_ne hta, ha, hroot]
    have hc₀ : s₀.node c = ⟨none, u.root, some f.node, k⟩ := by
      rw [h₀, Avl.node_setPlace_of_ne htc, hc]
      rfl
    unfold Avl.removeNext
    rw [← h₀]
    by_cases hrf : r = f.node
    · simp [ha₀, hc₀, hac, haf, hcf, Ne.symm haf, Ne.symm hcf, HTree.root_ne hat, HTree.root_ne hau,
        HTree.root_ne hct, HTree.root_ne hft, hrf, AvlNode.setChild, AvlNode.setParent]
    · simp [ha₀, hc₀, hac, haf, hcf, hra, Ne.symm hcf, HTree.root_ne hat, HTree.root_ne hau,
        HTree.root_ne hct, HTree.root_ne hft, hrf, AvlNode.setChild]
  have hkeep : ∀ b, b ≠ f.node → b ∉ u.inorder →
      ((s.setChild f.node .left u.root).adopt u.root (some f.node)).node b = s.node b := by
    intro b hbf hbu
    rw [Avl.node_adopt, if_neg (HTree.root_ne hbu), Avl.node_setChild, if_neg hbf]
  rw [heq]
  refine hout.subst hcout ?_ (fun b hb => ?_) (fun b hb => ?_) (fun b hb => ?_) ?_
  · have hc₀ : (s.setPlace (placeOf p) (some c)).node c = ⟨none, u.root, some f.node, k⟩ := by
      rw [Avl.node_setPlace_of_ne htc, hc]
      rfl
    rw [hroot]
    simp [hc₀, hcf, hrc, HTree.root_ne hct, HTree.root_ne hcup.1, AvlNode.setChild, AvlNode.setParent]
  · obtain ⟨hbc, hbu, hbp⟩ := htup b hb
    have hbf : b ≠ f.node := fun e => hbp (e ▸ hf)
    have hbr : r ≠ b := fun e => hbp (e ▸ hr)
    rw [hkeep b hbf hbu]
    simp only [Avl.node_setParent, Avl.node_adopt, Avl.node_setChild, if_neg hbc, if_neg hbf,
      if_neg (HTree.root_ne hbu), Option.some.injEq, if_neg hbr]
    rw [Avl.node_setPlace_of_ne (hs.top_ne (hin b (.inr (.inl hb))))]
  · have hbt : b ∉ t.inorder := by
      intro hbt
      exact (mem_inorder_plug.mp hb).elim (htup b hbt).2.1 (htup b hbt).2.2
    have hbc : b ≠ c := by
      rintro rfl
      exact (mem_inorder_plug.mp hb).elim hcup.1 hcup.2
    have hbin := hin b (.inr (.inr (.inr (mem_inorder_plug.mp hb))))
    rw [hroot]
    simp only [Avl.node_setParent, Avl.node_adopt, Avl.node_setChild, if_neg hbc,
      if_neg (HTree.root_ne hbt), Option.some.injEq]
    rw [Avl.node_setPlace_of_ne (hs.top_ne hbin)]
    by_cases hbr : r = b
    · have hub : u.root ≠ some b := hbr ▸ hru
      simp only [if_pos hbr, if_neg hub]
    · rw [if_neg hbr, if_neg hbr]
  · have hout : ∀ b' ∈ (HTree.node t a h (plug (f :: p') (.node .nil c k u))).inorder, b ≠ b' := by
      rintro b' hb' rfl
      exact hs.not_mem_path hb' hb
    have hbt : b ∉ t.inorder := fun h => hout b (hin b (.inr (.inl h))) rfl
    have hbu : b ∉ u.inorder := fun h => hout b (hin b (.inr (.inr (.inr (.inl h))))) rfl
    have hbc : b ≠ c := hout c (hin c (.inr (.inr (.inl rfl))))
    have hbp : ∀ b' ∈ pathNodes (f :: p'), b ≠ b' := fun b' hb' =>
      hout b' (hin b' (.inr (.inr (.inr (.inr hb')))))
    simp only [Avl.node_setParent, Avl.node_adopt, Avl.node_setChild, if_neg hbc, if_neg (hbp _ hf),
      if_neg (HTree.root_ne hbt), if_neg (HTree.root_ne hbu), Option.some.injEq,
      if_neg (Ne.symm (hbp r hr))]
    exact Avl.setPlace_congr (hkeep b (hbp _ hf) hbu).symm
  · simp

/-! ## The whole function -/

/-- **The loop finds the first node of the right subtree.** -/
theorem successorLoop_spec {n : ℕ} (hs : TreeAt s (⟨.left, b, h, u⟩ :: p) t) (hc : t.root = some c)
    (hn : t.inorder.length ≤ n) : ∃ f q g k r, HTree.node t b h u = plug (f :: q) (.node .nil g k r) ∧
      (∀ x ∈ f :: q, x.side = .left) ∧ s.successorLoop n b c = some (f.node, g) := by
  induction t generalizing b h u p c n with
  | nil => cases hc
  | node l a k r ih _ =>
    cases hc
    obtain ⟨ha, hl, -⟩ := hs.tree
    obtain ⟨n, rfl⟩ : ∃ i, n = i + 1 :=
      ⟨n - 1, by simp only [HTree.inorder, List.length_append, List.length_cons] at hn; omega⟩
    rw [Avl.successorLoop, ha]
    cases hroot : l.root with
    | none =>
      cases l with
      | node l b h r => cases hroot
      | nil =>
        refine ⟨⟨.left, b, h, u⟩, [], a, k, r, rfl, fun x hx => ?_, rfl⟩
        rw [List.mem_singleton.mp hx]
    | some c =>
      have hlen : l.inorder.length ≤ n := by
        simp only [HTree.inorder, List.length_append, List.length_cons] at hn
        omega
      obtain ⟨f, q, g, k', r', he, hleft, hloop⟩ := ih (TreeAt.down (d := .left) hs) hroot hlen
      refine ⟨f, q ++ [⟨.left, b, h, u⟩], g, k', r', ?_, fun x hx => ?_, hloop⟩
      · rw [← List.cons_append, plug_append, ← he]
        rfl
      · rw [← List.cons_append, List.mem_append, List.mem_singleton] at hx
        cases hx with
        | inl hx => exact hleft x hx
        | inr hx => rw [hx]

/-- A loop that starts above a node of a balanced tree does nothing. -/
theorem rebalance_parent {n : ℕ} (hs : IsTree s t) (ht : t.Balanced) (hc : c ∈ t.inorder) (hn : 0 < n) :
    Avl.rebalance n s (s.node c).parent = some s := by
  obtain ⟨p, l, k, r, rfl⟩ := exists_plug hc
  have hparent : (s.node c).parent = top p := by
    rw [(hs.at).tree.1]
  rw [hparent]
  cases hp : top p with
  | none => cases n <;> rfl
  | some b => exact rebalance_balanced hs ht (mem_inorder_plug.mpr (.inr (top_mem hp))) hn

/-- Rebalancing where the next node has taken the place of a node with its right child. -/
theorem rebalance_removeRight {n : ℕ} (hs : TreeAt s p (.node t c k u)) (ht : t.Balanced) (hu : u.Balanced)
    (hk : k = u.height + 1) (h1 : t.height ≤ k + 1) (h2 : k ≤ t.height + 1)
    (hp : FitsBelow (max t.height k + 1) p h) (hn : p.length + 1 < n) :
    ∃ s' t', ((Avl.rebalance n s (some c)).bind fun s => Avl.rebalance n s (s.node c).parent) = some s' ∧
      IsTree s' t' ∧ t'.Balanced ∧ t'.inorder = (plug p (.node t c k u)).inorder := by
  obtain ⟨n, rfl⟩ : ∃ i, n = i + 1 := ⟨n - 1, by omega⟩
  have hloop : Avl.rebalance (n + 1) s (some c) =
      (s.rebalanceStep c).bind fun r => Avl.rebalance n r.1 r.2 := rfl
  cases rebalanceStep_node hs ht hu (by omega) (by omega) with
  | inl hstop =>
    obtain ⟨hb, hstep⟩ := hstop
    have hfirst : Avl.rebalance (n + 1) s (some c) = some s := by
      rw [hloop, hstep, Option.bind_some]
      cases n <;> rfl
    have hparent : (s.node c).parent = top p := by
      rw [hs.tree.1]
    rw [hfirst, Option.bind_some, hparent]
    have hheight : (HTree.node t c k u).height = k := rfl
    have hmax := hb.2.2.1
    exact rebalance_spec hp hs hb (by omega) (by omega) (by omega)
  | inr hgo =>
    obtain ⟨-, s₁, t₁, hstep, hat, hb, hi, hlo, hhi, hh⟩ := hgo
    obtain ⟨s₂, t₂, hres, hw, hb₂, hi₂⟩ := rebalance_spec (n := n) hp hat hb (by omega) (by omega) (by omega)
    have horder : t₂.inorder = (plug p (.node t c k u)).inorder := hi₂.trans (inorder_plug_congr hi)
    refine ⟨s₂, t₂, ?_, hw, hb₂, horder⟩
    rw [hloop, hstep, Option.bind_some, hres, Option.bind_some]
    refine rebalance_parent hw hb₂ ?_ (Nat.succ_pos _)
    rw [horder]
    exact mem_inorder_plug.mpr (.inl (List.mem_append_right _ List.mem_cons_self))

/-- Rebalancing where the next node has come from further down, with its height there. The first loop ends
below it or passes it, and never ends at it. -/
theorem rebalance_removeNext {n m : ℕ} {q : List (TreeFrame α)} (hs : TreeAt s (q ++ ⟨.right, c, k, t⟩ :: p) u)
    (ht : t.Balanced) (hu : u.Balanced) (hk : k = u.height + 1) (hq : FitsBelow k q m) (hpos : q ≠ [])
    (h1 : t.height ≤ m + 1) (h2 : m ≤ t.height + 1) (hp : FitsBelow (max t.height m + 1) p h)
    (hn : q.length + p.length + 1 < n) :
    ∃ s' t', ((Avl.rebalance n s (top (q ++ ⟨.right, c, k, t⟩ :: p))).bind fun s =>
        Avl.rebalance n s (some c)) = some s' ∧
      IsTree s' t' ∧ t'.Balanced ∧ t'.inorder = (plug (q ++ ⟨.right, c, k, t⟩ :: p) u).inorder := by
  have hlen : 0 < q.length := List.length_pos_of_ne_nil hpos
  have hgrow := hq.le
  obtain ⟨s₁, t₁, j, hat, hb, hi, hhi, hlo, hj, hres⟩ :=
    rebalance_part (n := n) hq hs hu (by omega) (by omega) (by omega)
  have hup : TreeAt s₁ p (.node t c k t₁) := hat.up
  -- the loop from the node that has moved
  have hsecond : ∀ i, p.length < i → ∃ s' t', Avl.rebalance (i + 1) s₁ (some c) = some s' ∧ IsTree s' t' ∧
      t'.Balanced ∧ t'.inorder = (plug (q ++ ⟨.right, c, k, t⟩ :: p) u).inorder := by
    intro i hlt
    have hloop : Avl.rebalance (i + 1) s₁ (some c) =
        (s₁.rebalanceStep c).bind fun r => Avl.rebalance i r.1 r.2 := rfl
    cases rebalanceStep_node hup ht hb (by omega) (by omega) with
    | inl hstop =>
      have hmax := hstop.1.2.2.1
      omega
    | inr hgo =>
      obtain ⟨-, s₂, t₂, hstep, hat₂, hb₂, hi₂, hlo₂, hhi₂, hh₂⟩ := hgo
      obtain ⟨s₃, t₃, hres₃, hw, hb₃, hi₃⟩ :=
        rebalance_spec (n := i) hp hat₂ hb₂ (by omega) (by omega) hlt
      refine ⟨s₃, t₃, ?_, hw, hb₃, ?_⟩
      · rw [hloop, hstep, Option.bind_some]
        exact hres₃
      · rw [hi₃, plug_append, plug]
        refine inorder_plug_congr (hi₂.trans ?_)
        exact HTree.inorder_join_congr (d := .right) hi rfl
  cases hres with
  | inl hres =>
    obtain ⟨i, rfl⟩ : ∃ i, j = i + 1 := ⟨j - 1, by omega⟩
    obtain ⟨s', t', hr, hw, hb', hi'⟩ := hsecond i (by omega)
    refine ⟨s', t', ?_, hw, hb', hi'⟩
    rw [hres, show top (⟨.right, c, k, t⟩ :: p) = some c from rfl, hr, Option.bind_some]
    refine rebalance_balanced hw hb' ?_ (by omega)
    rw [hi', plug_append, plug]
    refine mem_inorder_plug.mpr (.inl (HTree.mem_inorder_join.mpr (.inl rfl)))
  | inr hres =>
    obtain ⟨i, rfl⟩ : ∃ i, n = i + 1 := ⟨n - 1, by omega⟩
    obtain ⟨s', t', hr, hw, hb', hi'⟩ := hsecond i (by omega)
    refine ⟨s', t', ?_, hw, hb', hi'⟩
    rw [hres.1, Option.bind_some]
    exact hr

/-- **`util_avl_remove`.** -/
theorem remove_spec {n : ℕ} (hs : IsTree s t) (ht : t.Balanced) (ha : a ∈ t.inorder)
    (hn : t.inorder.length < n) : ∃ s' t', s.remove n a = some s' ∧ IsTree s' t' ∧ t'.Balanced ∧
      t'.inorder = t.inorder.erase a := by
  obtain ⟨p, l, h, r, rfl⟩ := exists_plug ha
  obtain ⟨hb, hfit⟩ := balanced_of_plug ht
  obtain ⟨hl, hr, hh, h1, h2⟩ := hb
  have hat : TreeAt s p (.node l a h r) := hs.at
  have hrootNode : s.rootNode ≠ none := by
    intro hnone
    have hroot : s.rootNode = (plug p (.node l a h r)).root := hs.path
    rw [hroot] at hnone
    cases htree : plug p (.node l a h r) with
    | nil =>
      rw [htree] at ha
      cases ha
    | node l' b h' r' =>
      rw [htree] at hnone
      cases hnone
  have hplace : s.nodePlace a = placeOf p := TreeAt.nodePlace (d := .left) hat
  have hnode : s.node a = ⟨l.root, r.root, top p, h⟩ := hat.tree.1
  have hlen := length_le_inorder_plug (t := .node l a h r) (p := p)
  unfold Avl.remove
  rw [if_neg hrootNode]
  dsimp only
  rw [hplace, hnode]
  cases r with
  | nil =>
    have hzero : (HTree.nil : HTree α).height = 0 := rfl
    obtain ⟨s', t', hres, hw, hb', hi⟩ := rebalance_spec (n := n) hfit hat.removeLeft hl
      (show l.height ≤ h + 1 by omega) (show h ≤ l.height + 1 by omega) (by omega)
    refine ⟨s', t', hres, hw, hb', hi.trans (inorder_plug_erase hs.nodup ?_)⟩
    exact (List.append_nil _).symm
  | node x c k u =>
    obtain ⟨hx, hu, hk, h3, h4⟩ := hr
    have hc : s.node c = ⟨x.root, u.root, some a, k⟩ := hat.tree.2.2.1
    dsimp only [HTree.root]
    rw [hc]
    have hfit' : FitsBelow (max l.height k + 1) p (plug p (.node l a h (.node x c k u))).height := hh ▸ hfit
    cases hxr : x.root with
    | none =>
      cases x with
      | node l' b h' r' => cases hxr
      | nil =>
        have hzero : (HTree.nil : HTree α).height = 0 := rfl
        rw [hzero] at hk
        have hlen' : (HTree.node l a h (.node .nil c k u)).inorder.length =
            l.inorder.length + (u.inorder.length + 2) := by
          simp [HTree.inorder]
        have hk' : (HTree.node .nil c k u).height = k := rfl
        obtain ⟨s', t', hres, hw, hb', hi⟩ := rebalance_removeRight (n := n) hat.removeRight hl hu
          (by omega) (by omega) (by omega) hfit' (by omega)
        exact ⟨s', t', hres, hw, hb', hi.trans (inorder_plug_erase hs.nodup rfl)⟩
    | some y =>
      have hdown : TreeAt s (⟨.left, c, k, u⟩ :: ⟨.right, a, h, l⟩ :: p) x :=
        TreeAt.down (d := .left) (TreeAt.down (d := .right) hat)
      have hxlen : x.inorder.length ≤ n := by
        simp only [HTree.inorder, List.length_append, List.length_cons] at hlen
        omega
      obtain ⟨f, q, g, m, v, he, hleft, hloop⟩ := successorLoop_spec hdown hxr hxlen
      rw [he] at hat hs ht hfit hn hlen h1 h2 hh ha ⊢
      have hbelow : IsTree s (plug ((f :: q) ++ ⟨.right, a, h, l⟩ :: p) (.node .nil g m v)) := by
        rw [plug_append]
        exact hs
      have hbal : (plug ((f :: q) ++ ⟨.right, a, h, l⟩ :: p) (.node .nil g m v)).Balanced := by
        rw [plug_append]
        exact ht
      obtain ⟨⟨-, hv, hm, -, hvm⟩, hfits⟩ := balanced_of_plug hbal
      obtain ⟨H, hq, hrest⟩ := hfits.split
      cases hrest with
      | cons hl hh h1 h2 hp =>
        have hzero : (HTree.nil : HTree α).height = 0 := rfl
        have hmax : max l.height H + 1 = h := by
          rw [Nat.max_comm]
          exact hh.symm
        have hcount := length_le_inorder_plug (t := .node .nil g m v) (p := (f :: q) ++ ⟨.right, a, h, l⟩ :: p)
        rw [plug_append, List.length_append, List.length_cons, List.length_cons] at hcount
        have hcount' : (plug (⟨.right, a, h, l⟩ :: p) (plug (f :: q) (.node .nil g m v))).inorder.length <
            n := hn
        have hafter := hat.removeNext (hleft f List.mem_cons_self)
        obtain ⟨s', t', hres, hw, hb', hi⟩ := rebalance_removeNext (n := n)
          (TreeAt.downs (TreeAt.down (d := .right) hafter)) hl hv (by omega) hq (List.cons_ne_nil f q) h2 h1
          (hmax ▸ hp) (by rw [List.length_cons]; omega)
        refine ⟨s', t', ?_, hw, hb', hi.trans ?_⟩
        · dsimp only
          rw [hloop, Option.bind_some]
          exact hres
        · rw [plug_append]
          refine inorder_plug_erase hs.nodup ?_
          show l.inorder ++ g :: (plug (f :: q) v).inorder = _
          rw [inorder_plug_left hleft, inorder_plug_left hleft]
          rfl

end RtThread
