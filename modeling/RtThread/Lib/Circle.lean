import Mathlib.Data.List.Nodup

/-!
# Circular lists

`Between next prev a l b`: the nodes of `l` lie between `a` and `b`, linked in both directions.
`Circle next prev s l`: they lie in a circle, between the sentinel `s` and itself.

* `Between.mid`, `Between.congr`: two parts, and which links matter;
* `Circle.remove`, `Circle.pushBack`, `Circle.pushFront`, `Circle.insertBefore`: the operations;
* `Circle.prev_next`: behind a node and back.
-/

namespace RtThread

variable {α : Type}

/-- The nodes of `l` lie between `a` and `b`. -/
def Between (next prev : α → α) : α → List α → α → Prop
  | a, [], b => next a = b ∧ prev b = a
  | a, x :: l, b => next a = x ∧ prev x = a ∧ Between next prev x l b

/-- The nodes of `l` lie in a circle with `s`. -/
structure Circle (next prev : α → α) (s : α) (l : List α) : Prop where
  nodup : (s :: l).Nodup
  between : Between next prev s l s

section

variable {next prev next' prev' : α → α} {a b s x y n : α} {l m : List α}

namespace Between

/-- Two parts. -/
theorem mid : Between next prev a (l ++ x :: m) b ↔
    Between next prev a l x ∧ Between next prev x m b := by
  induction l generalizing a with
  | nil => exact and_assoc.symm
  | cons y l ih =>
    rw [List.cons_append, Between, Between, ih, and_assoc, and_assoc]

/-- **Only the links between the nodes matter.** -/
theorem congr (h : Between next prev a l b) (hn : ∀ y ∈ a :: l, next' y = next y)
    (hp : ∀ y ∈ b :: l, prev' y = prev y) : Between next' prev' a l b := by
  induction l generalizing a with
  | nil => exact ⟨(hn a List.mem_cons_self).trans h.1, (hp b List.mem_cons_self).trans h.2⟩
  | cons x l ih =>
    obtain ⟨h1, h2, h3⟩ := h
    refine ⟨(hn a List.mem_cons_self).trans h1, ?_, ih h3 ?_ ?_⟩
    · exact (hp x (List.mem_cons_of_mem _ List.mem_cons_self)).trans h2
    · exact fun y hy => hn y (List.mem_cons_of_mem _ hy)
    · intro y hy
      rcases List.mem_cons.mp hy with rfl | hy
      · exact hp y List.mem_cons_self
      · exact hp y (List.mem_cons_of_mem _ (List.mem_cons_of_mem _ hy))

/-- The last node. -/
theorem prev_mem (h : Between next prev a l b) : prev b ∈ a :: l := by
  induction l generalizing a with
  | nil => exact h.2 ▸ List.mem_cons_self
  | cons x l ih => exact List.mem_cons_of_mem _ (ih h.2.2)

/-- The first node. -/
theorem next_mem (h : Between next prev a l b) : next a ∈ b :: l := by
  cases l with
  | nil => exact h.1 ▸ List.mem_cons_self
  | cons x l => exact List.mem_cons_of_mem _ (h.1 ▸ List.mem_cons_self)

/-- The node behind the first one. -/
theorem prev_next (h : Between next prev a l b) : prev (next a) = a := by
  cases l with
  | nil => rw [h.1, h.2]
  | cons x l => rw [h.1, h.2.1]

variable [DecidableEq α]

/-- A node at the end. -/
theorem snoc (h : Between next prev a l b) (hnd : (a :: l).Nodup) (hb : b ∉ l) (hx : x ∉ a :: l)
    (hxb : x ≠ b) (hn : ∀ y, next' y = if y = prev b then x else if y = x then b else next y)
    (hp : ∀ y, prev' y = if y = b then x else if y = x then prev b else prev y) :
    Between next' prev' a (l ++ [x]) b := by
  induction l generalizing a with
  | nil =>
    obtain ⟨h1, h2⟩ := h
    have hxa : x ≠ a := fun he => hx (he ▸ List.mem_cons_self)
    refine ⟨?_, ?_, ?_, ?_⟩
    · rw [hn, h2, if_pos rfl]
    · rw [hp, if_neg hxb, if_pos rfl, h2]
    · rw [hn, h2, if_neg hxa, if_pos rfl]
    · rw [hp, if_pos rfl]
  | cons y l ih =>
    obtain ⟨h1, h2, h3⟩ := h
    obtain ⟨ha, hnd⟩ := List.nodup_cons.mp hnd
    have hx' : x ∉ y :: l := fun he => hx (List.mem_cons_of_mem _ he)
    have hxa : a ≠ x := fun he => hx (he ▸ List.mem_cons_self)
    have hxy : y ≠ x := fun he => hx' (he ▸ List.mem_cons_self)
    have hab : a ≠ prev b := fun he => ha (he ▸ h3.prev_mem)
    have hyb : y ≠ b := fun he => hb (he ▸ List.mem_cons_self)
    refine ⟨?_, ?_, ih h3 hnd (fun he => hb (List.mem_cons_of_mem _ he)) hx'⟩
    · rw [hn, if_neg hab, if_neg hxa, h1]
    · rw [hp, if_neg hyb, if_neg hxy, h2]

/-- A node is taken out. -/
theorem join (h : Between next prev a l x) (h' : Between next prev x m b)
    (hnd : (a :: (l ++ x :: m)).Nodup) (hb : b ∉ l ++ x :: m)
    (hn : ∀ y, y ≠ x → next' y = if y = prev x then next x else next y)
    (hp : ∀ y, y ≠ x → prev' y = if y = next x then prev x else prev y) :
    Between next' prev' a (l ++ m) b := by
  induction l generalizing a with
  | nil =>
    obtain ⟨h1, h2⟩ := h
    obtain ⟨ha, hnd⟩ := List.nodup_cons.mp hnd
    obtain ⟨hx, hnd⟩ := List.nodup_cons.mp hnd
    have hax : a ≠ x := fun he => ha (he ▸ List.mem_cons_self)
    have hbx : b ≠ x := fun he => hb (he ▸ List.mem_cons_self)
    cases m with
    | nil =>
      obtain ⟨h3, h4⟩ := h'
      refine ⟨?_, ?_⟩
      · rw [hn a hax, if_pos h2.symm, h3]
      · rw [hp b hbx, if_pos h3.symm, h2]
    | cons y m =>
      obtain ⟨h3, h4, h5⟩ := h'
      have hyx : y ≠ x := fun he => hx (he ▸ List.mem_cons_self)
      refine ⟨?_, ?_, h5.congr ?_ ?_⟩
      · rw [hn a hax, if_pos h2.symm, h3]
      · rw [hp y hyx, if_pos h3.symm, h2]
      · intro z hz
        have hzx : z ≠ x := fun he => hx (he ▸ hz)
        have hza : z ≠ prev x := fun he =>
          ha (h2 ▸ he ▸ List.mem_cons_of_mem _ hz)
        rw [hn z hzx, if_neg hza]
      · intro z hz
        have hzy : z ≠ y ∧ z ≠ x := by
          rcases List.mem_cons.mp hz with rfl | hz
          · exact ⟨fun he => hb (he ▸ List.mem_cons_of_mem _ List.mem_cons_self), hbx⟩
          · exact ⟨fun he => (List.nodup_cons.mp hnd).1 (he ▸ hz),
              fun he => hx (he ▸ List.mem_cons_of_mem _ hz)⟩
        rw [hp z hzy.2, if_neg fun he => hzy.1 (he.trans h3)]
  | cons y l ih =>
    obtain ⟨h1, h2, h3⟩ := h
    obtain ⟨ha, hnd⟩ := List.nodup_cons.mp hnd
    have hy := (List.nodup_cons.mp hnd).1
    have hlx : x ∈ y :: (l ++ x :: m) :=
      List.mem_cons_of_mem _ (List.mem_append_right _ List.mem_cons_self)
    have hax : a ≠ x := fun he => ha (he ▸ hlx)
    have hyx : y ≠ x := fun he => hy (he ▸ List.mem_append_right _ List.mem_cons_self)
    have hap : a ≠ prev x := fun he => ha (he ▸ by
      rcases List.mem_cons.mp h3.prev_mem with h | h
      · exact h ▸ List.mem_cons_self
      · exact List.mem_cons_of_mem _ (List.mem_append_left _ h))
    have hyn : y ≠ next x := fun he => by
      rcases List.mem_cons.mp h'.next_mem with h | h
      · exact hb (h ▸ he ▸ List.mem_cons_self)
      · exact hy (he ▸ List.mem_append_right _ (List.mem_cons_of_mem _ h))
    refine ⟨?_, ?_, ih h3 hnd fun he => hb (List.mem_cons_of_mem _ he)⟩
    · rw [hn a hax, if_neg hap, h1]
    · rw [hp y hyx, if_neg hyn, h2]

end Between

namespace Circle

/-- Behind the sentinel and back. -/
theorem prev_next (h : Circle next prev s l) : prev (next s) = s := h.between.prev_next

/-- The node behind a node. -/
theorem next_mem (h : Circle next prev s l) (hx : x ∈ s :: l) : next x ∈ s :: l := by
  rcases List.mem_cons.mp hx with rfl | hx
  · exact h.between.next_mem
  · obtain ⟨l, m, rfl⟩ := List.append_of_mem hx
    have hm := (Between.mid.mp h.between).2.next_mem
    rcases List.mem_cons.mp hm with hm | hm
    · exact hm ▸ List.mem_cons_self
    · exact List.mem_cons_of_mem _ (List.mem_append_right _ (List.mem_cons_of_mem _ hm))

/-- The node before a node. -/
theorem prev_mem (h : Circle next prev s l) (hx : x ∈ s :: l) : prev x ∈ s :: l := by
  rcases List.mem_cons.mp hx with rfl | hx
  · exact h.between.prev_mem
  · obtain ⟨l, m, rfl⟩ := List.append_of_mem hx
    have hm := (Between.mid.mp h.between).1.prev_mem
    rcases List.mem_cons.mp hm with hm | hm
    · exact hm ▸ List.mem_cons_self
    · exact List.mem_cons_of_mem _ (List.mem_append_left _ hm)

theorem congr (h : Circle next prev s l) (hn : ∀ y ∈ s :: l, next' y = next y)
    (hp : ∀ y ∈ s :: l, prev' y = prev y) : Circle next' prev' s l :=
  ⟨h.nodup, h.between.congr hn hp⟩

variable [DecidableEq α]

/-- **A node is removed.** -/
theorem remove (h : Circle next prev s (l ++ x :: m))
    (hn : ∀ y, y ≠ x → next' y = if y = prev x then next x else next y)
    (hp : ∀ y, y ≠ x → prev' y = if y = next x then prev x else prev y) :
    Circle next' prev' s (l ++ m) := by
  obtain ⟨h1, h2⟩ := Between.mid.mp h.between
  have hs := (List.nodup_cons.mp h.nodup).1
  refine ⟨?_, h1.join h2 h.nodup hs hn hp⟩
  refine h.nodup.sublist ?_
  exact ((List.Sublist.refl l).append (List.sublist_cons_self x m)).cons_cons s

/-- **A node is inserted before the sentinel.** -/
theorem pushBack (h : Circle next prev s l) (hx : x ∉ s :: l)
    (hnext : ∀ y, next' y = if y = prev s then x else if y = x then s else next y)
    (hprev : ∀ y, prev' y = if y = s then x else if y = x then prev s else prev y) :
    Circle next' prev' s (l ++ [x]) := by
  obtain ⟨hs, -⟩ := List.nodup_cons.mp h.nodup
  have hxs : x ≠ s := fun he => hx (he ▸ List.mem_cons_self)
  refine ⟨?_, h.between.snoc h.nodup hs hx hxs hnext hprev⟩
  rw [← List.cons_append]
  exact (List.perm_append_singleton x _).nodup_iff.mpr (List.nodup_cons.mpr ⟨hx, h.nodup⟩)

/-- **A node is inserted behind the sentinel.** -/
theorem pushFront (h : Circle next prev s l) (hx : x ∉ s :: l)
    (hnext : ∀ y, next' y = if y = s then x else if y = x then next s else next y)
    (hprev : ∀ y, prev' y = if y = next s then x else if y = x then s else prev y) :
    Circle next' prev' s (x :: l) := by
  obtain ⟨hs, hnd⟩ := List.nodup_cons.mp h.nodup
  have hxs : x ≠ s := fun he => hx (he ▸ List.mem_cons_self)
  have hxl : x ∉ l := fun he => hx (List.mem_cons_of_mem _ he)
  have hxn : x ≠ next s := fun he => hx (he ▸ h.between.next_mem)
  refine ⟨(List.Perm.swap x s l).nodup_iff.mpr (List.nodup_cons.mpr ⟨hx, h.nodup⟩), ?_, ?_, ?_⟩
  · rw [hnext, if_pos rfl]
  · rw [hprev, if_neg hxn, if_pos rfl]
  · cases l with
    | nil =>
      obtain ⟨h1, h2⟩ := h.between
      refine ⟨?_, ?_⟩
      · rw [hnext, if_neg hxs, if_pos rfl, h1]
      · rw [hprev, h1, if_pos rfl]
    | cons y l =>
      obtain ⟨h1, h2, h3⟩ := h.between
      have hys : y ≠ s := fun he => hs (he ▸ List.mem_cons_self)
      refine ⟨?_, ?_, h3.congr (fun z hz => ?_) fun z hz => ?_⟩
      · rw [hnext, if_neg hxs, if_pos rfl, h1]
      · rw [hprev, h1, if_pos rfl]
      · have hzs : z ≠ s := fun he => hs (he ▸ hz)
        have hzx : z ≠ x := fun he => hxl (he ▸ hz)
        rw [hnext, if_neg hzs, if_neg hzx]
      · have hzy : z ≠ y ∧ z ≠ x := by
          rcases List.mem_cons.mp hz with rfl | hz
          · exact ⟨hys.symm, hxs.symm⟩
          · exact ⟨fun he => (List.nodup_cons.mp hnd).1 (he ▸ hz),
              fun he => hxl (he ▸ List.mem_cons_of_mem _ hz)⟩
        rw [hprev, h1, if_neg hzy.1, if_neg hzy.2]

/-- **A node is inserted** before another, or before the sentinel. -/
theorem insertBefore (h : Circle next prev s l) (hn : n ∈ s :: l) (hx : x ∉ s :: l)
    (hnext : ∀ y, next' y = if y = prev n then x else if y = x then n else next y)
    (hprev : ∀ y, prev' y = if y = n then x else if y = x then prev n else prev y) :
    ∃ l', l'.Perm (x :: l) ∧ Circle next' prev' s l' := by
  obtain ⟨hs, hnd⟩ := List.nodup_cons.mp h.nodup
  have hxs : x ≠ s := fun he => hx (he ▸ List.mem_cons_self)
  rcases List.mem_cons.mp hn with rfl | hn
  · refine ⟨l ++ [x], List.perm_append_comm, ?_, h.between.snoc h.nodup hs hx hxs hnext hprev⟩
    rw [← List.cons_append]
    exact (List.perm_append_singleton x _).nodup_iff.mpr (List.nodup_cons.mpr ⟨hx, h.nodup⟩)
  · obtain ⟨l, m, rfl⟩ := List.append_of_mem hn
    obtain ⟨h1, h2⟩ := Between.mid.mp h.between
    have hperm : (l ++ [x] ++ n :: m).Perm (x :: (l ++ n :: m)) := by
      rw [List.append_assoc, List.singleton_append]
      exact List.perm_middle
    have hnl : n ∉ l ∧ n ∉ m := by
      have hnd' := List.perm_middle.nodup_iff.mp hnd
      have := (List.nodup_cons.mp hnd').1
      exact ⟨fun he => this (List.mem_append_left _ he), fun he => this (List.mem_append_right _ he)⟩
    have hsl : (s :: l).Nodup := by
      refine h.nodup.sublist ?_
      exact (List.sublist_append_left l _).cons_cons s
    have hxl : x ∉ s :: l := fun he => by
      rcases List.mem_cons.mp he with he | he
      · exact hxs he
      · exact hx (List.mem_cons_of_mem _ (List.mem_append_left _ he))
    have hxn : x ≠ n := fun he => hx (he ▸ List.mem_cons_of_mem _ (List.mem_append_right _
      List.mem_cons_self))
    refine ⟨l ++ [x] ++ n :: m, hperm, ?_, Between.mid.mpr
      ⟨h1.snoc hsl hnl.1 hxl hxn hnext hprev, h2.congr ?_ ?_⟩⟩
    · refine (hperm.cons s).nodup_iff.mpr ?_
      exact (List.Perm.swap x s _).nodup_iff.mpr (List.nodup_cons.mpr ⟨hx, h.nodup⟩)
    · intro y hy
      have hmem : y ∈ l ++ n :: m := List.mem_append_right _ hy
      have hyp : y ≠ prev n := fun he => by
        rcases List.mem_cons.mp (he ▸ h1.prev_mem : y ∈ s :: l) with h | h
        · exact hs (h ▸ hmem)
        · exact (List.nodup_append.mp hnd).2.2 y h y hy rfl
      have hyx : y ≠ x := fun he => hx (he ▸ List.mem_cons_of_mem _ hmem)
      rw [hnext, if_neg hyp, if_neg hyx]
    · intro y hy
      have hyn : y ≠ n ∧ y ≠ x := by
        rcases List.mem_cons.mp hy with rfl | hy
        · exact ⟨fun he => hs (he ▸ List.mem_append_right _ List.mem_cons_self), hxs.symm⟩
        · exact ⟨fun he => hnl.2 (he ▸ hy), fun he => hx (he ▸ List.mem_cons_of_mem _
            (List.mem_append_right _ (List.mem_cons_of_mem _ hy)))⟩
      rw [hprev, if_neg hyn.1, if_neg hyn.2]

end Circle

end

end RtThread
