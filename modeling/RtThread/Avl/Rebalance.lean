import RtThread.Avl.Model

/-!
# Rebalancing an AVL tree

`util_avl_rebalance` on the nodes of a tree, from a subtree whose height has changed by one.

* `TreeAt.rotate`, `TreeAt.midmount`: what the rotations do to the nodes; `mend_spec`, `rebalanceStep_spec`: one
  turn of the loop;
* **`rebalance_part`**, **`rebalance_spec`**: the loop over a part of the path, and the whole loop; it ends
  with a balanced tree of the same members in the same order;
* `rebalance_balanced`: it leaves a balanced tree alone.
-/

set_option linter.unusedSectionVars false

namespace RtThread

variable {α : Type} [DecidableEq α] {s s' : Avl α} {d e : Side} {a b c g : α} {h k m : ℕ}
  {t u x y z w : HTree α} {f : TreeFrame α} {p p' : List (TreeFrame α)}

namespace TreeAt

theorem node_eq (hs : TreeAt s p (.join d t a k u)) : s.node a = .of d t.root u.root (top p) k :=
  (rep_join.mp hs.tree).1

/-- `NODE_PLACE`. -/
theorem nodePlace (hs : TreeAt s p (.join d t a k u)) : s.nodePlace a = placeOf p := by
  unfold Avl.nodePlace
  rw [hs.node_eq, AvlNode.parent_of]
  cases p with
  | nil => rfl
  | cons f p =>
    obtain ⟨hf, hsib, -⟩ := hs.path
    rw [HTree.root_join] at hf
    show (if (s.node f.node).avlLeft = some a then _ else _) = AvlPlace.child f.node f.side
    cases hside : f.side with
    | left => rw [hf, hside, if_pos (by rfl)]
    | right =>
      rw [hf, hside, if_neg]
      intro hroot
      have hmem : a ∈ f.sibling.inorder := HTree.root_mem hroot
      refine hs.not_mem_path (HTree.mem_inorder_join.mpr (.inl rfl)) ?_
      exact List.mem_cons_of_mem _ (List.mem_append_left _ hmem)

/-- The members of a subtree with two nodes at the top. -/
theorem nodup_two (hs : TreeAt s p (.join d (.join d x c k y) a h z)) :
    (a :: c :: (x.inorder ++ y.inorder ++ z.inorder)).Nodup := by
  have h1 := hs.nodup_append.of_append_left
  rw [HTree.inorder_join_perm.nodup_iff] at h1
  refine (List.Perm.nodup_iff (List.Perm.cons a ?_)).mp h1
  exact HTree.inorder_join_perm.append_right _

/-- **Rotation.** -/
theorem rotate (hs : TreeAt s p (.join d (.join d x c k y) a h z)) :
    TreeAt (s.rotate d a c y.root (placeOf p) m) p (.join d x c (m + 2) (.join d y a (m + 1) z)) := by
  obtain ⟨ha, hxy, hz⟩ := rep_join.mp hs.tree
  obtain ⟨hc, hx, hy⟩ := rep_join.mp hxy
  rw [HTree.root_join] at ha
  have hnd := hs.nodup_two
  simp only [List.nodup_cons, List.mem_cons, List.mem_append, not_or] at hnd
  obtain ⟨⟨hac, ⟨hax, hay⟩, haz⟩, ⟨⟨hcx, hcy⟩, hcz⟩, hnd⟩ := hnd
  have hdxy := List.disjoint_of_nodup_append hnd.of_append_left
  have hdz := List.disjoint_of_nodup_append hnd
  obtain ⟨s₁, hnode, hroot, hrot⟩ : ∃ s₁ : Avl α, (∀ b, s₁.node b =
      if b = c then .of d x.root (some a) (top p) (m + 2)
      else if b = a then .of d y.root z.root (some c) (m + 1) else s.node b) ∧
      s₁.rootNode = s.rootNode ∧
      s.rotate d a c y.root (placeOf p) m = (s₁.setPlace (placeOf p) (some c)).adopt y.root (some a) := by
    refine ⟨_, fun b => ?_, ?_, rfl⟩
    · by_cases hbc : b = c
      · simp [hbc, ha, hc, hac, Ne.symm hac]
      · by_cases hba : b = a
        · simp [hba, ha, hac]
        · simp [hbc, hba]
    · rfl
  have hkeep : ∀ b, b ≠ a → b ≠ c → s₁.node b = s.node b := by
    intro b hba hbc
    rw [hnode, if_neg hbc, if_neg hba]
  have hin : ∀ b ∈ (HTree.join d (.join d x c k y) a h z).inorder, b ∉ y.inorder →
      (s.rotate d a c y.root (placeOf p) m).node b = s₁.node b := by
    intro b hb hby
    rw [hrot, Avl.node_adopt, if_neg (HTree.root_ne hby), Avl.node_setPlace_of_ne (hs.top_ne hb)]
  have hmem : ∀ b, b = a ∨ b = c ∨ b ∈ x.inorder ∨ b ∈ y.inorder ∨ b ∈ z.inorder →
      b ∈ (HTree.join d (.join d x c k y) a h z).inorder := by
    intro b hb
    rw [HTree.mem_inorder_join, HTree.mem_inorder_join]
    tauto
  refine hs.replace (rep_join.mpr ⟨?_, ?_, rep_join.mpr ⟨?_, ?_, ?_⟩⟩) ?_ ?_ ?_
  · rw [hin c (hmem c (.inr (.inl rfl))) hcy, hnode, if_pos rfl, HTree.root_join]
  · refine hx.congr fun b hb => ?_
    rw [hin b (hmem b (.inr (.inr (.inl hb)))) (hdxy hb), hkeep b (fun e => hax (e ▸ hb)) fun e => hcx (e ▸ hb)]
  · rw [hin a (hmem a (.inl rfl)) hay, hnode, if_neg hac, if_pos rfl]
  · refine hy.adopt hnd.of_append_left.of_append_right fun b hb => ?_
    rw [hrot, Avl.node_adopt, Avl.node_setPlace_of_ne (hs.top_ne (hmem b (.inr (.inr (.inr (.inl hb)))))),
      hkeep b (fun e => hay (e ▸ hb)) fun e => hcy (e ▸ hb)]
  · refine hz.congr fun b hb => ?_
    rw [hin b (hmem b (.inr (.inr (.inr (.inr hb))))) fun hby => hdz (List.mem_append_right _ hby) hb,
      hkeep b (fun e => haz (e ▸ hb)) fun e => hcz (e ▸ hb)]
  · exact (List.Perm.of_eq HTree.inorder_rotate).subperm
  · intro b hb
    have hout : ∀ b', b' = a ∨ b' = c ∨ b' ∈ x.inorder ∨ b' ∈ y.inorder ∨ b' ∈ z.inorder → b ≠ b' := by
      rintro b' hb' rfl
      exact hs.not_mem_path (hmem b hb') hb
    rw [hrot, Avl.node_adopt, if_neg, HTree.root_join]
    · exact Avl.setPlace_congr (hkeep b (hout a (.inl rfl)) (hout c (.inr (.inl rfl))))
    · intro he
      exact hout b (.inr (.inr (.inr (.inl (HTree.root_mem he))))) rfl
  · rw [hrot, Avl.rootNode_adopt, Avl.rootNode_setPlace, Avl.rootNode_setPlace, hroot, HTree.root_join]

/-- The members of a subtree with three nodes at the top. -/
theorem nodup_three {m : ℕ} (hs : TreeAt s p (.join d (.join d x c k (.join d y g m w)) a h z)) :
    (a :: c :: g :: (x.inorder ++ y.inorder ++ w.inorder ++ z.inorder)).Nodup := by
  have h1 := hs.nodup_two
  refine (List.Perm.nodup_iff (List.Perm.cons a (List.Perm.cons c ?_))).mp h1
  refine ((HTree.inorder_join_perm.append_left x.inorder).append_right _).trans ?_
  rw [List.append_assoc, List.append_assoc, List.append_assoc]
  exact List.perm_middle.trans (List.Perm.of_eq (by simp))

/-- **Double rotation.** -/
theorem midmount {m : ℕ} (hs : TreeAt s p (.join d (.join d x c k (.join d y g m w)) a h z)) :
    TreeAt (s.midmount d a c g (placeOf p) m) p (.join d (.join d x c m y) g k (.join d w a m z)) := by
  obtain ⟨ha, hxy, hz⟩ := rep_join.mp hs.tree
  obtain ⟨hc, hx, hyw⟩ := rep_join.mp hxy
  obtain ⟨hg, hy, hw⟩ := rep_join.mp hyw
  rw [HTree.root_join] at ha hc
  have hnd := hs.nodup_three
  simp only [List.nodup_cons, List.mem_cons, List.mem_append, not_or] at hnd
  obtain ⟨⟨hac, hag, ⟨⟨hax, hay⟩, haw⟩, haz⟩, ⟨hcg, ⟨⟨hcx, hcy⟩, hcw⟩, hcz⟩, ⟨⟨⟨hgx, hgy⟩, hgw⟩, hgz⟩, hnd⟩ := hnd
  have hdz := List.disjoint_of_nodup_append hnd
  have hdw := List.disjoint_of_nodup_append hnd.of_append_left
  have hdy := List.disjoint_of_nodup_append hnd.of_append_left.of_append_left
  obtain ⟨s₁, hnode, hroot, hrot⟩ : ∃ s₁ : Avl α, (∀ b, s₁.node b =
      if b = g then .of d (some c) (some a) (top p) k
      else if b = c then .of d x.root y.root (some g) m
      else if b = a then .of d w.root z.root (some g) m else s.node b) ∧
      s₁.rootNode = s.rootNode ∧
      s.midmount d a c g (placeOf p) m =
        ((s₁.adopt ((s₁.node c).child d.other) (some c)).adopt
          (((s₁.adopt ((s₁.node c).child d.other) (some c)).node a).child d) (some a)).setPlace
            (placeOf p) (some g) := by
    refine ⟨_, fun b => ?_, ?_, rfl⟩
    · by_cases hbg : b = g
      · simp [hbg, ha, hc, hg, hac, hag, hcg, Ne.symm hac, Ne.symm hag, Ne.symm hcg]
      · by_cases hbc : b = c
        · simp [hbc, hc, hg, hac, hcg, Ne.symm hac]
        · by_cases hba : b = a
          · simp [hba, ha, hg, hac, hag, Ne.symm hcg]
          · simp [hbg, hbc, hba]
    · rfl
  have hy₁ : (s₁.node c).child d.other = y.root := by
    rw [hnode, if_neg hcg, if_pos rfl, AvlNode.child_other_of]
  have hw₁ : ((s₁.adopt y.root (some c)).node a).child d = w.root := by
    rw [Avl.node_adopt, if_neg (HTree.root_ne hay), hnode, if_neg hag, if_neg hac, if_pos rfl,
      AvlNode.child_of]
  rw [hy₁, hw₁] at hrot
  have hkeep : ∀ b, b ≠ a → b ≠ c → b ≠ g → s₁.node b = s.node b := by
    intro b hba hbc hbg
    rw [hnode, if_neg hbg, if_neg hbc, if_neg hba]
  have hmem : ∀ b, b = a ∨ b = c ∨ b = g ∨ b ∈ x.inorder ∨ b ∈ y.inorder ∨ b ∈ w.inorder ∨
      b ∈ z.inorder → b ∈ (HTree.join d (.join d x c k (.join d y g m w)) a h z).inorder := by
    intro b hb
    rw [HTree.mem_inorder_join, HTree.mem_inorder_join, HTree.mem_inorder_join]
    tauto
  have hin : ∀ b ∈ (HTree.join d (.join d x c k (.join d y g m w)) a h z).inorder,
      b ∉ y.inorder → b ∉ w.inorder → (s.midmount d a c g (placeOf p) m).node b = s₁.node b := by
    intro b hb hby hbw
    rw [hrot, Avl.node_setPlace_of_ne (hs.top_ne hb), Avl.node_adopt, if_neg (HTree.root_ne hbw),
      Avl.node_adopt, if_neg (HTree.root_ne hby)]
  refine hs.replace (rep_join.mpr ⟨?_, rep_join.mpr ⟨?_, ?_, ?_⟩, rep_join.mpr ⟨?_, ?_, ?_⟩⟩) ?_ ?_ ?_
  · rw [hin g (hmem g (.inr (.inr (.inl rfl)))) hgy hgw, hnode, if_pos rfl, HTree.root_join,
      HTree.root_join]
  · rw [hin c (hmem c (.inr (.inl rfl))) hcy hcw, hnode, if_neg hcg, if_pos rfl]
  · refine hx.congr fun b hb => ?_
    rw [hin b (hmem b (.inr (.inr (.inr (.inl hb))))) (hdy hb) (hdw (List.mem_append_left _ hb)),
      hkeep b (fun e => hax (e ▸ hb)) (fun e => hcx (e ▸ hb)) fun e => hgx (e ▸ hb)]
  · refine hy.adopt (hnd.of_append_left.of_append_left.of_append_right) fun b hb => ?_
    have hbw : b ∉ w.inorder := hdw (List.mem_append_right _ hb)
    rw [hrot, Avl.node_setPlace_of_ne (hs.top_ne (hmem b (.inr (.inr (.inr (.inr (.inl hb))))))),
      Avl.node_adopt, if_neg (HTree.root_ne hbw), Avl.node_adopt,
      hkeep b (fun e => hay (e ▸ hb)) (fun e => hcy (e ▸ hb)) fun e => hgy (e ▸ hb)]
  · rw [hin a (hmem a (.inl rfl)) hay haw, hnode, if_neg hag, if_neg hac, if_pos rfl]
  · refine hw.adopt hnd.of_append_left.of_append_right fun b hb => ?_
    have hby : b ∉ y.inorder := fun hby => hdw (List.mem_append_right _ hby) hb
    rw [hrot, Avl.node_setPlace_of_ne (hs.top_ne (hmem b (.inr (.inr (.inr (.inr (.inr (.inl hb)))))))),
      Avl.node_adopt, Avl.node_adopt, if_neg (HTree.root_ne hby),
      hkeep b (fun e => haw (e ▸ hb)) (fun e => hcw (e ▸ hb)) fun e => hgw (e ▸ hb)]
  · refine hz.congr fun b hb => ?_
    have hnot : b ∉ x.inorder ++ y.inorder ++ w.inorder := fun hc => hdz hc hb
    rw [List.mem_append, List.mem_append, not_or, not_or] at hnot
    rw [hin b (hmem b (.inr (.inr (.inr (.inr (.inr (.inr hb))))))) hnot.1.2 hnot.2,
      hkeep b (fun e => haz (e ▸ hb)) (fun e => hcz (e ▸ hb)) fun e => hgz (e ▸ hb)]
  · exact (List.Perm.of_eq HTree.inorder_midmount).subperm
  · intro b hb
    have hout : ∀ b', b' ∈ (HTree.join d (.join d x c k (.join d y g m w)) a h z).inorder → b ≠ b' := by
      rintro b' hb' rfl
      exact hs.not_mem_path hb' hb
    rw [hrot, HTree.root_join]
    apply Avl.setPlace_congr
    rw [Avl.node_adopt, if_neg, Avl.node_adopt, if_neg]
    · exact hkeep b (hout a (hmem a (.inl rfl))) (hout c (hmem c (.inr (.inl rfl))))
        (hout g (hmem g (.inr (.inr (.inl rfl)))))
    · intro he
      exact hout b (hmem b (.inr (.inr (.inr (.inr (.inl (HTree.root_mem he))))))) rfl
    · intro he
      exact hout b (hmem b (.inr (.inr (.inr (.inr (.inr (.inl (HTree.root_mem he)))))))) rfl
  · rw [hrot, Avl.rootNode_setPlace, Avl.rootNode_setPlace, Avl.rootNode_adopt, Avl.rootNode_adopt, hroot,
      HTree.root_join]

end TreeAt

/-! ## One turn of the loop -/

theorem TreeRep.heightOf {q : Option α} (ht : TreeRep s.node q t) : s.heightOf t.root = t.height := by
  cases t with
  | nil => rfl
  | node l a h r =>
    show (s.node a).height = h
    rw [ht.1]

/-- **A node that is too high on one side is mended.** -/
theorem mend_spec (hs : TreeAt s p (.join d t a k u)) (ht : t.Balanced) (hu : u.Balanced)
    (hh : t.height = u.height + 2) : ∃ s' t', s.mend d a (placeOf p) = some (s', top p) ∧ TreeAt s' p t' ∧
      t'.Balanced ∧ t'.inorder = (HTree.join d t a k u).inorder ∧
      (t'.height = t.height ∨ t'.height = t.height + 1) := by
  obtain ⟨x, c, h, y, rfl⟩ := HTree.exists_join_of_height d (t := t) (by omega)
  obtain ⟨ha, hxy, -⟩ := rep_join.mp hs.tree
  obtain ⟨hc, hx, hy⟩ := rep_join.mp hxy
  rw [HTree.root_join] at ha
  rw [HTree.height_join] at hh ⊢
  unfold Avl.mend
  rw [ha, AvlNode.child_of]
  dsimp only
  rw [hc, AvlNode.child_other_of, AvlNode.child_of, hx.heightOf, hy.heightOf]
  by_cases hle : y.height ≤ x.height
  · rw [if_pos hle]
    have hr := hs.rotate (m := y.height)
    obtain ⟨hb, hheight⟩ := HTree.balanced_rotate (a := a) ht hu hh hle
    refine ⟨_, _, ?_, hr, hb, HTree.inorder_rotate, ?_⟩
    · rw [hr.node_eq, AvlNode.parent_of]
    · rw [HTree.height_join]
      exact hheight
  · rw [if_neg hle]
    rw [Nat.not_le] at hle
    obtain ⟨y, g, m, w, rfl⟩ := HTree.exists_join_of_height d (t := y) (by omega)
    rw [HTree.height_join] at hle ⊢
    rw [HTree.root_join]
    dsimp only
    have hr := hs.midmount
    refine ⟨_, _, ?_, hr, HTree.balanced_midmount ht hu hh hle, HTree.inorder_midmount, ?_⟩
    · rw [hr.node_eq, AvlNode.parent_of]
    · rw [HTree.height_join]
      exact .inl rfl

/-- The height of a node is written. -/
theorem TreeAt.setHeight (hs : TreeAt s p (.join d t a k u)) : TreeAt (s.setHeight a h) p (.join d t a h u) := by
  obtain ⟨ha, ht, hu⟩ := rep_join.mp hs.tree
  have hin : a ∈ (HTree.join d t a k u).inorder := HTree.mem_inorder_join.mpr (.inl rfl)
  have hnd := hs.nodup_append.of_append_left
  rw [HTree.inorder_join_perm.nodup_iff, List.nodup_cons, List.mem_append, not_or] at hnd
  have hkeep : ∀ b, b ≠ a → (s.setHeight a h).node b = s.node b := by
    intro b hb
    rw [Avl.node_setHeight, if_neg hb]
  have hinorder : (HTree.join d t a h u).inorder = (HTree.join d t a k u).inorder :=
    HTree.inorder_join_congr rfl rfl
  refine ⟨?_, rep_join.mpr ⟨?_, ?_, ?_⟩, ?_⟩
  · have hp := hs.path
    rw [HTree.root_join] at hp ⊢
    exact hp.congr (fun b hb => hkeep b fun e => hs.not_mem_path hin (e ▸ hb)) rfl
  · rw [Avl.node_setHeight, if_pos rfl, ha, AvlNode.setHeight_of]
  · exact ht.congr fun b hb => hkeep b fun e => hnd.1.1 (e ▸ hb)
  · exact hu.congr fun b hb => hkeep b fun e => hnd.1.2 (e ▸ hb)
  · rw [inorder_plug_congr hinorder]
    exact hs.nodup

theorem rebalanceStep_node (hs : TreeAt s p (.node t a k u)) (ht : t.Balanced) (hu : u.Balanced)
    (h1 : t.height ≤ u.height + 2) (h2 : u.height ≤ t.height + 2) :
    ((HTree.node t a k u).Balanced ∧ s.rebalanceStep a = some (s, none)) ∨
      ¬ (HTree.node t a k u).Balanced ∧ ∃ s' t', s.rebalanceStep a = some (s', top p) ∧ TreeAt s' p t' ∧ t'.Balanced ∧
        t'.inorder = (HTree.node t a k u).inorder ∧ max t.height u.height ≤ t'.height ∧
        t'.height ≤ max t.height u.height + 1 ∧
        (t.height ≤ u.height + 1 → u.height ≤ t.height + 1 → t'.height = max t.height u.height + 1) := by
  have hplace : s.nodePlace a = placeOf p := TreeAt.nodePlace (d := .left) hs
  obtain ⟨ha, htr, hur⟩ := hs.tree
  have hstep : s.rebalanceStep a = if u.height + 1 < t.height then s.mend .left a (placeOf p)
      else if t.height + 1 < u.height then s.mend .right a (placeOf p)
      else if (if t.height < u.height then u.height else t.height) + 1 = k then some (s, none)
      else some (s.setHeight a ((if t.height < u.height then u.height else t.height) + 1), top p) := by
    unfold Avl.rebalanceStep
    dsimp only
    rw [hplace, ha, htr.heightOf, hur.heightOf]
  rw [hstep]
  by_cases hl : u.height + 1 < t.height
  · rw [if_pos hl]
    obtain ⟨s', t', hm, hat, hb, hi, hh⟩ := mend_spec (d := .left) hs ht hu (by omega)
    refine .inr ⟨fun hbal => ?_, s', t', hm, hat, hb, hi, by omega, by omega, fun h => by omega⟩
    exact absurd hbal.2.2.2.1 (by omega)
  · rw [if_neg hl]
    by_cases hr : t.height + 1 < u.height
    · rw [if_pos hr]
      obtain ⟨s', t', hm, hat, hb, hi, hh⟩ := mend_spec (d := .right) hs hu ht (by omega)
      refine .inr ⟨fun hbal => ?_, s', t', hm, hat, hb, hi, by omega, by omega, fun _ h => by omega⟩
      exact absurd hbal.2.2.2.2 (by omega)
    · rw [if_neg hr]
      have hmax : (if t.height < u.height then u.height else t.height) = max t.height u.height := by
        by_cases hlt : t.height < u.height
        · rw [if_pos hlt]
          omega
        · rw [if_neg hlt]
          omega
      rw [hmax]
      by_cases hk : max t.height u.height + 1 = k
      · rw [if_pos hk]
        exact .inl ⟨⟨ht, hu, hk.symm, by omega, by omega⟩, rfl⟩
      · rw [if_neg hk]
        refine .inr ⟨fun hbal => hk hbal.2.2.1.symm, _, _, rfl, TreeAt.setHeight (d := .left) hs,
          ⟨ht, hu, rfl, by omega, by omega⟩, rfl, ?_, ?_, ?_⟩
        · exact Nat.le_succ _
        · exact Nat.le_refl _
        · exact fun _ _ => rfl

/-- **One turn of the loop.** It ends at a node that is balanced with the right height; otherwise the
node is mended and the loop goes on above it. -/
theorem rebalanceStep_spec (hs : TreeAt s p (.join d t a k u)) (ht : t.Balanced) (hu : u.Balanced)
    (h1 : t.height ≤ u.height + 2) (h2 : u.height ≤ t.height + 2) :
    ((HTree.join d t a k u).Balanced ∧ s.rebalanceStep a = some (s, none)) ∨
      ¬ (HTree.join d t a k u).Balanced ∧ ∃ s' t', s.rebalanceStep a = some (s', top p) ∧ TreeAt s' p t' ∧ t'.Balanced ∧
        t'.inorder = (HTree.join d t a k u).inorder ∧ max t.height u.height ≤ t'.height ∧
        t'.height ≤ max t.height u.height + 1 ∧
        (t.height ≤ u.height + 1 → u.height ≤ t.height + 1 → t'.height = max t.height u.height + 1) := by
  cases d with
  | left => exact rebalanceStep_node hs ht hu h1 h2
  | right =>
    rw [Nat.max_comm]
    refine (rebalanceStep_node hs hu ht h2 h1).imp id ?_
    rintro ⟨hnot, s', t', hm, hat, hb, hi, hlo, hhi, hh⟩
    exact ⟨hnot, s', t', hm, hat, hb, hi, hlo, hhi, fun h h' => hh h' h⟩

/-! ## The loop -/

/-- Up to the end of a part of the path. -/
theorem TreeAt.ups (hs : TreeAt s (p ++ p') t) : TreeAt s p' (plug p t) := by
  induction p generalizing t with
  | nil => exact hs
  | cons f p ih => exact ih (TreeAt.up hs)

/-- Down along a part of the path. -/
theorem TreeAt.downs (hs : TreeAt s p' (plug p t)) : TreeAt s (p ++ p') t := by
  induction p generalizing t with
  | nil => exact hs
  | cons f p ih => exact TreeAt.down (ih hs)

/-- **The loop over a part of the path** whose heights are right for a subtree of nearly the height of
the one below it. It ends there, with the height at the upper end as it was, or goes on above. -/
theorem rebalance_part {n : ℕ} (hp : FitsBelow h p k) (hs : TreeAt s (p ++ p') t) (ht : t.Balanced)
    (h1 : t.height ≤ h + 1) (h2 : h ≤ t.height + 1) (hn : p.length < n) :
    ∃ s' t' m, TreeAt s' p' t' ∧ t'.Balanced ∧ t'.inorder = (plug p t).inorder ∧
      t'.height ≤ k + 1 ∧ k ≤ t'.height + 1 ∧ n ≤ m + p.length ∧
      (Avl.rebalance n s (top (p ++ p')) = Avl.rebalance m s' (top p') ∨
        Avl.rebalance n s (top (p ++ p')) = some s' ∧ t'.height = k) := by
  induction hp generalizing s t n with
  | nil => exact ⟨s, t, n, hs, ht, rfl, h1, h2, Nat.le_refl _, .inl rfl⟩
  | @cons f p h k hsib hf hle hge hfit ih =>
    obtain ⟨n, rfl⟩ : ∃ i, n = i + 1 := ⟨n - 1, by rw [List.length_cons] at hn; omega⟩
    rw [List.length_cons] at hn ⊢
    have hup : TreeAt s (p ++ p') (f.fill t) := TreeAt.up hs
    have hloop : Avl.rebalance (n + 1) s (top (f :: p ++ p')) =
        (s.rebalanceStep f.node).bind fun r => Avl.rebalance n r.1 r.2 := rfl
    rw [hloop]
    cases rebalanceStep_spec hup ht hsib (by omega) (by omega) with
    | inl hstop =>
      obtain ⟨hb, hstep⟩ := hstop
      have hheight : (f.fill t).height = f.height := HTree.height_join
      have hplug : (plug p (f.fill t)).Balanced ∧ (plug p (f.fill t)).height = k :=
        balanced_plug hb (hheight ▸ hfit)
      obtain ⟨hb', hk⟩ := hplug
      refine ⟨s, _, n, hup.ups, hb', rfl, ?_, ?_, by omega, .inr ⟨?_, hk⟩⟩
      · omega
      · omega
      · rw [hstep, Option.bind_some]
        cases n <;> rfl
    | inr hgo =>
      obtain ⟨-, s', t', hstep, hat, hb, hi, hlo, hhi, hh⟩ := hgo
      obtain ⟨s'', t'', m, hat', hb', hi', hlo', hhi', hm, hres⟩ :=
        ih (n := n) hat hb (by omega) (by omega) (by omega)
      refine ⟨s'', t'', m, hat', hb', hi'.trans (inorder_plug_congr hi), hlo', hhi', by omega, ?_⟩
      rw [hstep, Option.bind_some]
      exact hres

/-- The nodes make up the whole tree. -/
def IsTree (s : Avl α) (t : HTree α) : Prop := TreeAt s [] t

/-- The tree seen from below a path. -/
theorem IsTree.at (hs : IsTree s (plug p t)) : TreeAt s p t := by
  have h := TreeAt.downs hs
  rwa [List.append_nil] at h

/-- **The whole loop.** -/
theorem rebalance_spec {n : ℕ} (hp : FitsBelow h p k) (hs : TreeAt s p t) (ht : t.Balanced)
    (h1 : t.height ≤ h + 1) (h2 : h ≤ t.height + 1) (hn : p.length < n) :
    ∃ s' t', Avl.rebalance n s (top p) = some s' ∧ IsTree s' t' ∧ t'.Balanced ∧
      t'.inorder = (plug p t).inorder := by
  have hs' : TreeAt s (p ++ []) t := by
    rw [List.append_nil]
    exact hs
  obtain ⟨s', t', m, hat, hb, hi, -, -, hm, hres⟩ := rebalance_part hp hs' ht h1 h2 hn
  rw [List.append_nil] at hres
  refine ⟨s', t', ?_, hat, hb, hi⟩
  cases hres with
  | inl hres =>
    rw [hres]
    cases m <;> rfl
  | inr hres => exact hres.1

/-- **Nothing is done in a balanced tree.** -/
theorem rebalance_balanced {n : ℕ} (hs : IsTree s t) (ht : t.Balanced) (ha : a ∈ t.inorder) (hn : 0 < n) :
    Avl.rebalance n s (some a) = some s := by
  obtain ⟨n, rfl⟩ : ∃ i, n = i + 1 := ⟨n - 1, by omega⟩
  obtain ⟨p, l, h, r, rfl⟩ := exists_plug ha
  obtain ⟨hb, -⟩ := balanced_of_plug ht
  obtain ⟨hl, hr, hh, h1, h2⟩ := id hb
  have hstep : s.rebalanceStep a = some (s, none) := by
    cases rebalanceStep_node hs.at hl hr (by omega) (by omega) with
    | inl hstop => exact hstop.2
    | inr hgo => exact absurd hb hgo.1
  show (s.rebalanceStep a).bind _ = _
  rw [hstep, Option.bind_some]
  cases n <;> rfl

end RtThread
