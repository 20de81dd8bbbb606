import Mathlib.Data.List.Nodup
import Mathlib.Data.List.Perm.Basic

/-!
# Families of intrusive lists

A node carries one link, so it hangs on at most one of a family of lists. `Queues H N` is the family,
indexed by list heads. Removing a node needs no head: the node is taken off whatever list it is on.

* `remove`, `insertAt`, `insertByKey`;
* `At q loc`: every node is linked at most once, namely at `loc`; kept by `remove` (`At.remove`) and
  by inserting an unlinked node (`At.insertAt`);
* `Once q`: every node is linked at most once, wherever; `Once.moveBack`, `Once.moveFront`: a node is
  taken off its list and put on another;
* `insertByKey_perm`, **`insertByKey_sorted`**: insertion before the first larger key.
-/

set_option linter.unusedSectionVars false

namespace RtThread

/-- A family of lists of nodes, one for each head. -/
abbrev Queues (H N : Type) : Type := H → List N

namespace Queues

variable {H N : Type} [DecidableEq H] [DecidableEq N]

/-- Take `n` off the list it is on. -/
def remove (q : Queues H N) (n : N) : Queues H N := fun h => (q h).erase n

/-- Put `n` at the front of list `h`. -/
def insertAfterHead (q : Queues H N) (h : H) (n : N) : Queues H N :=
  Function.update q h (n :: q h)

/-- Put `n` at the end of list `h`. -/
def insertBeforeHead (q : Queues H N) (h : H) (n : N) : Queues H N :=
  Function.update q h (q h ++ [n])

/-- Put `n` before the first node with a larger key, at the end when there is none. -/
def insertByKey (key : N → ℕ) (n : N) : List N → List N
  | [] => [n]
  | m :: l => if key n < key m then n :: m :: l else m :: insertByKey key n l

theorem insertByKey_perm (key : N → ℕ) (n : N) (l : List N) :
    (insertByKey key n l).Perm (n :: l) := by
  induction l with
  | nil => exact .refl _
  | cons m l ih =>
    simp only [insertByKey]
    split_ifs
    · exact .refl _
    · exact (ih.cons m).trans (.swap n m l)

@[simp] theorem mem_insertByKey {key : N → ℕ} {n m : N} {l : List N} :
    m ∈ insertByKey key n l ↔ m = n ∨ m ∈ l := by
  rw [(insertByKey_perm key n l).mem_iff, List.mem_cons]

theorem insertByKey_ne_nil (key : N → ℕ) (n : N) (l : List N) : insertByKey key n l ≠ [] := by
  intro h
  have : n ∈ insertByKey key n l := mem_insertByKey.mpr (Or.inl rfl)
  rw [h] at this
  exact List.not_mem_nil this

/-- A list in the order of its keys. -/
def SortedBy (key : N → ℕ) (l : List N) : Prop := l.Pairwise fun a b => key a ≤ key b

instance (key : N → ℕ) (l : List N) : Decidable (SortedBy key l) :=
  inferInstanceAs (Decidable (l.Pairwise fun a b => key a ≤ key b))

/-- **Insertion keeps the order.** -/
theorem insertByKey_sorted {key : N → ℕ} {n : N} {l : List N} (hl : SortedBy key l) :
    SortedBy key (insertByKey key n l) := by
  induction l with
  | nil => exact List.pairwise_singleton _ _
  | cons m l ih =>
    obtain ⟨hm, hl'⟩ := List.pairwise_cons.mp hl
    simp only [insertByKey]
    split_ifs with h
    · refine List.pairwise_cons.mpr ⟨fun a ha => ?_, hl⟩
      rcases List.mem_cons.mp ha with rfl | ha
      · exact Nat.le_of_lt h
      · exact Nat.le_trans (Nat.le_of_lt h) (hm a ha)
    · refine List.pairwise_cons.mpr ⟨fun a ha => ?_, ih hl'⟩
      rcases mem_insertByKey.mp ha with rfl | ha
      · exact Nat.le_of_not_lt h
      · exact hm a ha

/-! ## Every node at most once -/

/-- Every node is linked at most once, namely at `loc`. -/
structure At (q : Queues H N) (loc : N → Option H) : Prop where
  nodup : ∀ h, (q h).Nodup
  mem : ∀ n h, n ∈ q h ↔ loc n = some h

variable {q : Queues H N} {loc : N → Option H}

theorem At.unlinked (hq : At q loc) {n : N} (hn : loc n = none) (h : H) : n ∉ q h := fun hm => by
  rw [hq.mem, hn] at hm; cases hm

theorem At.unique (hq : At q loc) {n : N} {h h' : H} (hn : n ∈ q h) (hn' : n ∈ q h') : h = h' :=
  Option.some.inj (((hq.mem n h).mp hn).symm.trans ((hq.mem n h').mp hn'))

theorem remove_apply (n : N) (h : H) : (q.remove n) h = (q h).erase n := rfl

theorem At.mem_remove (hq : At q loc) {n m : N} {h : H} :
    m ∈ (q.remove n) h ↔ m ≠ n ∧ m ∈ q h := (hq.nodup h).mem_erase_iff

/-- **Removing a node unlinks it.** -/
theorem At.remove (hq : At q loc) (n : N) : At (q.remove n) (Function.update loc n none) where
  nodup h := (hq.nodup h).erase n
  mem m h := by
    rw [hq.mem_remove]
    by_cases hm : m = n
    · subst hm; simp
    · rw [Function.update_of_ne hm, ← hq.mem]; simp [hm]

theorem remove_of_unlinked (hn : ∀ h, n ∉ q h) : q.remove n = q := by
  funext h; exact List.erase_of_not_mem (hn h)

/-- **Inserting an unlinked node links it once.** -/
theorem At.insert (hq : At q loc) {n : N} (hn : loc n = none) {h : H} {l : List N}
    (hl : l.Perm (n :: q h)) :
    At (Function.update q h l) (Function.update loc n (some h)) where
  nodup h' := by
    by_cases hh : h' = h
    · subst hh
      rw [Function.update_self, hl.nodup_iff, List.nodup_cons]
      exact ⟨hq.unlinked hn _, hq.nodup _⟩
    · rw [Function.update_of_ne hh]; exact hq.nodup h'
  mem m h' := by
    by_cases hh : h' = h
    · subst hh
      rw [Function.update_self, hl.mem_iff, List.mem_cons]
      by_cases hm : m = n
      · subst hm; simp
      · rw [Function.update_of_ne hm, hq.mem]; simp [hm]
    · rw [Function.update_of_ne hh, hq.mem]
      by_cases hm : m = n
      · subst hm; simp [hn, Ne.symm hh]
      · rw [Function.update_of_ne hm]

theorem At.insertAfterHead (hq : At q loc) {n : N} (hn : loc n = none) (h : H) :
    At (q.insertAfterHead h n) (Function.update loc n (some h)) := hq.insert hn (.refl _)

theorem At.insertBeforeHead (hq : At q loc) {n : N} (hn : loc n = none) (h : H) :
    At (q.insertBeforeHead h n) (Function.update loc n (some h)) :=
  hq.insert hn (List.perm_append_singleton n (q h))

/-! ## Nodes that are moved -/

/-- Every node is linked at most once. -/
def Once (q : Queues H N) : Prop := ∃ loc, At q loc

variable {n m : N} {h h' : H}

theorem Once.empty : Once (fun _ => [] : Queues H N) :=
  ⟨fun _ => none, fun _ => List.nodup_nil, fun _ _ => iff_of_false List.not_mem_nil nofun⟩

theorem Once.unique (hq : Once q) (hn : n ∈ q h) (hn' : n ∈ q h') : h = h' := by
  obtain ⟨loc, hat⟩ := hq
  exact hat.unique hn hn'

theorem Once.mem_remove (hq : Once q) : m ∈ (q.remove n) h ↔ m ≠ n ∧ m ∈ q h := by
  obtain ⟨loc, hat⟩ := hq
  exact hat.mem_remove

theorem Once.remove (hq : Once q) (n : N) : Once (q.remove n) := by
  obtain ⟨loc, hat⟩ := hq
  exact ⟨_, hat.remove n⟩

/-- **A node is put on a list** after it has been taken off its own. -/
theorem Once.move (hq : Once q) {l : List N} (hl : l.Perm (n :: (q.remove n) h)) :
    Once (Function.update (q.remove n) h l) ∧ ∀ m h', m ∈ Function.update (q.remove n) h l h' ↔
      (m = n ∧ h' = h) ∨ (m ≠ n ∧ m ∈ q h') := by
  obtain ⟨loc, hat⟩ := hq
  refine ⟨⟨_, (hat.remove n).insert (Function.update_self n none loc) hl⟩, fun m h' => ?_⟩
  by_cases hh : h' = h
  · rw [hh, Function.update_self, hl.mem_iff, List.mem_cons, hat.mem_remove]
    simp
  · rw [Function.update_of_ne hh, hat.mem_remove]
    simp [hh]

theorem Once.moveBack (hq : Once q) (n : N) (h : H) :
    Once ((q.remove n).insertBeforeHead h n) ∧
      ∀ m h', m ∈ ((q.remove n).insertBeforeHead h n) h' ↔
        (m = n ∧ h' = h) ∨ (m ≠ n ∧ m ∈ q h') :=
  hq.move (List.perm_append_singleton n _)

theorem Once.moveFront (hq : Once q) (n : N) (h : H) :
    Once ((q.remove n).insertAfterHead h n) ∧
      ∀ m h', m ∈ ((q.remove n).insertAfterHead h n) h' ↔
        (m = n ∧ h' = h) ∨ (m ≠ n ∧ m ∈ q h') :=
  hq.move (.refl _)

end Queues

end RtThread
