import Mathlib.Data.List.Nodup
import Mathlib.Data.List.TakeWhile

/-!
# Skip lists as rows

A skip list of `n` levels is a row of nodes for each level, each a sublist of the one below it; the
lowest, of level `n - 1`, has all the nodes. A place is found from the top row down: on each row the search
goes on behind the node it came down on, while the next node passes a test.

* `walkFrom`, `rowHead`: the search on one row and down to a row; `insertBehind`;
* `SkipRows`: the rows; `SkipRows.remove`; `StackedRows`: rows whose order is not known;
* **`SkipRows.rowHead_eq`**: when no node that fails stands before one that passes, the search finds the
  last node that passes;
* **`SkipRows.insert`**: inserting there, into the lowest row and as many above it as one likes.
-/

set_option linter.unusedSectionVars false

namespace RtThread

section

variable {α : Type} [DecidableEq α]

/-- What follows a node on a row; `none` is the head of the row. -/
def behind : Option α → List α → List α
  | none, l => l
  | some _, [] => []
  | some a, b :: l => if b = a then l else behind (some a) l

/-- The last node in a row of nodes that pass, behind a node. -/
def walkFrom (pass : α → Bool) (start : Option α) (row : List α) : Option α :=
  (((behind start row).takeWhile pass).getLast?).or start

/-- The search down to a row. -/
def rowHead (pass : α → Bool) (rows : ℕ → List α) : ℕ → Option α
  | 0 => walkFrom pass none (rows 0)
  | l + 1 => walkFrom pass (rowHead pass rows l) (rows (l + 1))

/-- Insert a node behind another one. -/
def insertBehind : Option α → α → List α → List α
  | none, a, l => a :: l
  | some _, _, [] => []
  | some n, a, b :: l => if b = n then b :: a :: l else b :: insertBehind (some n) a l

variable {pass : α → Bool} {rows : ℕ → List α} {n l : ℕ} {a b : α} {row u v : List α}

@[simp] theorem behind_none : behind none row = row := by
  cases row <;> rfl

@[simp] theorem insertBehind_none : insertBehind none a row = a :: row := by
  cases row <;> rfl

theorem behind_cons : behind (some a) (b :: row) = if b = a then row else behind (some a) row := rfl

theorem insertBehind_cons (c : α) : insertBehind (some c) a (b :: row) =
    if b = c then b :: a :: row else b :: insertBehind (some c) a row := rfl

theorem behind_append (hb : b ∉ u) : behind (some b) (u ++ b :: v) = v := by
  induction u with
  | nil => exact if_pos rfl
  | cons c u ih =>
    have hcb : c ≠ b := fun e => hb (e ▸ List.mem_cons_self)
    rw [List.cons_append, behind_cons, if_neg hcb]
    exact ih fun hm => hb (List.mem_cons_of_mem _ hm)

theorem insertBehind_append (hb : b ∉ u) :
    insertBehind (some b) a (u ++ b :: v) = u ++ b :: a :: v := by
  induction u with
  | nil => exact if_pos rfl
  | cons c u ih =>
    have hcb : c ≠ b := fun e => hb (e ▸ List.mem_cons_self)
    rw [List.cons_append, insertBehind_cons, if_neg hcb, ih fun hm => hb (List.mem_cons_of_mem _ hm)]
    rfl

/-- No other nodes come onto the row. -/
theorem insertBehind_subset {head : Option α} : insertBehind head a row ⊆ a :: row := by
  cases head with
  | none => exact fun b hb => insertBehind_none (α := α) ▸ hb
  | some n =>
    induction row with
    | nil => exact List.nil_subset _
    | cons b row ih =>
      intro c hc
      rw [insertBehind_cons] at hc
      split_ifs at hc with hbn
      · rw [List.mem_cons, List.mem_cons] at hc ⊢
        exact or_left_comm.mp hc
      · rcases List.mem_cons.mp hc with rfl | hc
        · exact List.mem_cons_of_mem _ List.mem_cons_self
        · rcases List.mem_cons.mp (ih hc) with rfl | hc
          · exact List.mem_cons_self
          · exact List.mem_cons_of_mem _ (List.mem_cons_of_mem _ hc)

theorem countP_insertBehind {head : Option α} {p : α → Bool} (ha : p a = false) :
    (insertBehind head a row).countP p = row.countP p := by
  have hno : ¬p a = true := by rw [ha]; exact Bool.false_ne_true
  cases head with
  | none => rw [insertBehind_none, List.countP_cons_of_neg hno]
  | some n =>
    induction row with
    | nil => rfl
    | cons b row ih =>
      rw [insertBehind_cons]
      split_ifs
      · rw [List.countP_cons, List.countP_cons_of_neg hno, List.countP_cons]
      · rw [List.countP_cons, ih, List.countP_cons]

/-- **Behind the last node that passes.** -/
theorem insertBehind_getLast (hnd : row.Nodup) :
    insertBehind (row.takeWhile pass).getLast? a row = row.takeWhile pass ++ a :: row.dropWhile pass := by
  cases hlast : (row.takeWhile pass).getLast? with
  | none =>
    rw [List.getLast?_eq_none_iff] at hlast
    have hrow := List.takeWhile_append_dropWhile (p := pass) (l := row)
    rw [hlast, List.nil_append] at hrow
    rw [hlast, hrow, insertBehind_none]
    rfl
  | some b =>
    obtain ⟨u, hu⟩ := List.getLast?_eq_some_iff.mp hlast
    have hrow : row = u ++ b :: row.dropWhile pass := by
      conv_lhs => rw [← List.takeWhile_append_dropWhile (p := pass) (l := row), hu]
      rw [List.append_assoc]
      rfl
    have hb : b ∉ u := by
      intro hm
      rw [hrow] at hnd
      exact (List.disjoint_of_nodup_append hnd) hm List.mem_cons_self
    conv_lhs => rw [hrow]
    rw [insertBehind_append hb, hu, List.append_assoc]
    rfl

/-- No node that fails stands before one that passes. -/
def PassFirst (pass : α → Bool) (row : List α) : Prop :=
  row.Pairwise fun a b => pass b = true → pass a = true

theorem PassFirst.takeWhile_eq (h : PassFirst pass row) : row.takeWhile pass = row.filter pass := by
  induction row with
  | nil => rfl
  | cons b row ih =>
    obtain ⟨hb, h⟩ := List.pairwise_cons.mp h
    by_cases hp : pass b = true
    · rw [List.takeWhile_cons_of_pos hp, List.filter_cons_of_pos hp, ih h]
    · rw [List.takeWhile_cons_of_neg hp, List.filter_cons_of_neg hp]
      refine (List.filter_eq_nil_iff.mpr fun c hc hpc => hp (hb c hc hpc)).symm

theorem PassFirst.dropWhile_eq (h : PassFirst pass row) :
    row.dropWhile pass = row.filter fun b => !pass b := by
  induction row with
  | nil => rfl
  | cons b row ih =>
    obtain ⟨hb, h⟩ := List.pairwise_cons.mp h
    by_cases hp : pass b = true
    · rw [List.dropWhile_cons_of_pos hp, ih h, List.filter_cons_of_neg (by rw [hp]; simp)]
    · rw [List.dropWhile_cons_of_neg hp, List.filter_cons_of_pos (by simpa using hp)]
      refine congrArg (b :: ·) (List.filter_eq_self.mpr fun c hc => ?_).symm
      rw [Bool.not_eq_true']
      exact Bool.eq_false_iff.mpr fun hpc => hp (hb c hc hpc)

/-- **Going on behind a node that passes.** -/
theorem walkFrom_getLast {start : Option α} (h : PassFirst pass row) (hnd : row.Nodup)
    (hstart : ∀ b, start = some b → b ∈ row ∧ pass b = true) :
    walkFrom pass start row = (row.takeWhile pass).getLast? := by
  cases start with
  | none =>
    unfold walkFrom
    rw [behind_none, Option.or_none]
  | some b =>
    obtain ⟨hb, hp⟩ := hstart b rfl
    obtain ⟨u, v, rfl⟩ := List.append_of_mem hb
    have hbu : b ∉ u := fun hm => (List.disjoint_of_nodup_append hnd) hm List.mem_cons_self
    have hu : ∀ c ∈ u, pass c = true := fun c hc =>
      (List.pairwise_append.mp h).2.2 c hc b List.mem_cons_self hp
    unfold walkFrom
    rw [behind_append hbu, List.takeWhile_append_of_pos hu, List.takeWhile_cons_of_pos hp]
    cases hlast : (v.takeWhile pass).getLast? with
    | none =>
      rw [List.getLast?_eq_none_iff] at hlast
      rw [hlast, List.getLast?_append]
      rfl
    | some c =>
      rw [List.getLast?_append, List.getLast?_cons, hlast]
      rfl

/-- **The rows of a skip list.** -/
structure SkipRows (n : ℕ) (rows : ℕ → List α) : Prop where
  sub : ∀ l, l + 1 < n → (rows l).Sublist (rows (l + 1))
  nodup : (rows (n - 1)).Nodup

namespace SkipRows

variable (h : SkipRows n rows)
include h

/-- Every row is a sublist of the lowest. -/
theorem sublist (hl : l < n) : (rows l).Sublist (rows (n - 1)) := by
  obtain ⟨k, hk⟩ : ∃ k, l + k = n - 1 := ⟨n - 1 - l, by omega⟩
  induction k generalizing l with
  | zero =>
    rw [← hk, Nat.add_zero]
  | succ k ih => exact (h.sub l (by omega)).trans (ih (by omega) (by omega))

theorem row_nodup (hl : l < n) : (rows l).Nodup := h.nodup.sublist (h.sublist hl)

theorem remove (a : α) : SkipRows n fun l => (rows l).erase a where
  sub l hl := (h.sub l hl).erase a
  nodup := h.nodup.erase a

variable (hp : PassFirst pass (rows (n - 1)))
include hp

theorem row_passFirst (hl : l < n) : PassFirst pass (rows l) := List.Pairwise.sublist (h.sublist hl) hp

/-- **The search finds the last node that passes.** -/
theorem rowHead_eq (hl : l < n) : rowHead pass rows l = ((rows l).takeWhile pass).getLast? := by
  induction l with
  | zero => exact walkFrom_getLast (h.row_passFirst hp hl) (h.row_nodup hl) fun _ hb => nomatch hb
  | succ l ih =>
    rw [rowHead, ih (by omega)]
    refine walkFrom_getLast (h.row_passFirst hp hl) (h.row_nodup hl) fun b hb => ?_
    have hmem := List.mem_of_getLast? hb
    exact ⟨(h.sub l (by omega)).subset ((List.takeWhile_subset pass) hmem),
      List.mem_takeWhile_imp hmem⟩

/-- The row with the node inserted where the search ends. -/
theorem insertBehind_rowHead (hl : l < n) : insertBehind (rowHead pass rows l) a (rows l) =
    (rows l).filter pass ++ a :: (rows l).filter fun b => !pass b := by
  have hrow := h.row_passFirst hp hl
  rw [h.rowHead_eq hp hl, insertBehind_getLast (h.row_nodup hl), hrow.takeWhile_eq, hrow.dropWhile_eq]

/-- **Insertion** into the rows from a level on. -/
theorem insert (hn : 0 < n) (ha : a ∉ rows (n - 1)) (k : ℕ) (hk : k ≤ n - 1) :
    SkipRows n fun l => if k ≤ l then insertBehind (rowHead pass rows l) a (rows l) else rows l where
  sub l hl := by
    by_cases hkl : k ≤ l
    · simp only [if_pos hkl, if_pos (Nat.le_succ_of_le hkl)]
      rw [h.insertBehind_rowHead hp (by omega), h.insertBehind_rowHead hp hl]
      exact ((h.sub l hl).filter _).append (((h.sub l hl).filter _).cons_cons a)
    · simp only [if_neg hkl]
      refine (h.sub l hl).trans ?_
      split_ifs
      · rw [h.insertBehind_rowHead hp hl]
        have hrow := h.row_passFirst hp hl
        rw [← hrow.takeWhile_eq, ← hrow.dropWhile_eq]
        conv_lhs => rw [← List.takeWhile_append_dropWhile (p := pass) (l := rows (l + 1))]
        exact (List.Sublist.refl _).append (List.sublist_cons_self a _)
      · exact List.Sublist.refl _
  nodup := by
    simp only [if_pos hk]
    rw [h.insertBehind_rowHead hp (by omega)]
    have hperm : ((rows (n - 1)).filter pass ++ a :: (rows (n - 1)).filter fun b => !pass b).Perm
        (a :: rows (n - 1)) :=
      List.perm_middle.trans ((List.filter_append_perm pass _).cons a)
    exact hperm.nodup_iff.mpr (List.nodup_cons.mpr ⟨ha, h.nodup⟩)

end SkipRows

/-! ## Rows in any order -/

theorem behind_subset {start : Option α} : behind start row ⊆ row := by
  cases start with
  | none => rw [behind_none]; exact List.Subset.refl _
  | some c =>
    induction row with
    | nil => exact List.Subset.refl _
    | cons b row ih =>
      rw [behind_cons]
      split_ifs
      · exact List.subset_cons_self b row
      · exact fun x hx => List.mem_cons_of_mem _ (ih hx)

theorem walkFrom_mem {start : Option α} (hstart : ∀ c, start = some c → c ∈ row)
    (hb : walkFrom pass start row = some b) : b ∈ row := by
  rcases Option.or_eq_some_iff.mp hb with hlast | ⟨-, hs⟩
  · exact behind_subset ((List.takeWhile_subset pass) (List.mem_of_getLast? hlast))
  · exact hstart b hs

/-- Inserting behind a node of the row. -/
theorem insertBehind_perm {head : Option α} (h : ∀ b, head = some b → b ∈ row) :
    (insertBehind head a row).Perm (a :: row) := by
  cases head with
  | none => rw [insertBehind_none]
  | some c =>
    induction row with
    | nil => exact absurd (h c rfl) List.not_mem_nil
    | cons b row ih =>
      rw [insertBehind_cons]
      split_ifs with hb
      · exact List.Perm.swap a b row
      · have hc : c ∈ row := (List.mem_cons.mp (h c rfl)).resolve_left fun e => hb e.symm
        have hp := ih fun d hd => (Option.some.inj hd) ▸ hc
        exact (hp.cons b).trans (List.Perm.swap a b row)

/-- Rows without repetitions, each within the one below it. -/
structure StackedRows (n : ℕ) (rows : ℕ → List α) : Prop where
  sub : ∀ l, l + 1 < n → rows l ⊆ rows (l + 1)
  nodup : ∀ l, l < n → (rows l).Nodup

namespace StackedRows

variable (h : StackedRows n rows)
include h

theorem subset (hl : l < n) : rows l ⊆ rows (n - 1) := by
  obtain ⟨k, hk⟩ : ∃ k, l + k = n - 1 := ⟨n - 1 - l, by omega⟩
  induction k generalizing l with
  | zero =>
    rw [← hk, Nat.add_zero]
    exact List.Subset.refl _
  | succ k ih => exact List.Subset.trans (h.sub l (by omega)) (ih (by omega) (by omega))

theorem remove (a : α) : StackedRows n fun l => (rows l).erase a where
  sub l hl b hb := by
    have hnd := (h.nodup l (by omega)).mem_erase_iff.mp hb
    exact (h.nodup (l + 1) hl).mem_erase_iff.mpr ⟨hnd.1, h.sub l hl hnd.2⟩
  nodup l hl := (h.nodup l hl).erase a

/-- The search stays on the rows. -/
theorem rowHead_mem (hl : l < n) (hb : rowHead pass rows l = some b) : b ∈ rows l := by
  induction l generalizing b with
  | zero =>
    have hnone : ∀ c, (none : Option α) = some c → c ∈ rows 0 := fun _ hc => nomatch hc
    exact walkFrom_mem hnone hb
  | succ l ih => exact walkFrom_mem (fun c hc => h.sub l hl (ih (by omega) hc)) hb

/-- A row with the node inserted where the search ends. -/
theorem insertBehind_perm (hl : l < n) (a : α) :
    (insertBehind (rowHead pass rows l) a (rows l)).Perm (a :: rows l) :=
  RtThread.insertBehind_perm fun _ hb => h.rowHead_mem hl hb

/-- **Insertion** into the rows from a level on, wherever the search ends. -/
theorem insert (ha : a ∉ rows (n - 1)) (k : ℕ) :
    StackedRows n fun l =>
      if k ≤ l then insertBehind (rowHead pass rows l) a (rows l) else rows l where
  sub l hl := by
    intro b hb
    by_cases hkl : k ≤ l
    · simp only [if_pos hkl, if_pos (Nat.le_succ_of_le hkl)] at hb ⊢
      rw [(h.insertBehind_perm (by omega) a).mem_iff, List.mem_cons] at hb
      rw [(h.insertBehind_perm hl a).mem_iff, List.mem_cons]
      exact hb.imp_right fun hb => h.sub l hl hb
    · simp only [if_neg hkl] at hb ⊢
      split_ifs
      · rw [(h.insertBehind_perm hl a).mem_iff, List.mem_cons]
        exact .inr (h.sub l hl hb)
      · exact h.sub l hl hb
  nodup l hl := by
    split_ifs
    · refine (h.insertBehind_perm hl a).nodup_iff.mpr (List.nodup_cons.mpr ⟨?_, h.nodup l hl⟩)
      exact fun hm => ha (h.subset hl hm)
    · exact h.nodup l hl

end StackedRows

end

end RtThread
