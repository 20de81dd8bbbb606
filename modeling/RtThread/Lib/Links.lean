import RtThread.Lib.Circle
import RtThread.Lib.Queues

/-!
# Doubly linked lists in memory

The intrusive lists of `Queues`, as they lie in memory: list heads and nodes have two links each, a
list is the circle of its head, and a node on no list is linked to itself.

* `Links` with `insertAfter`, `insertBefore`, `remove`, as sequences of writes;
* `Represents L q`: the links stand for the lists `q`; **`Represents.remove`**,
  **`Represents.insertAfter`**, **`Represents.insertBefore`**: the operations do to the links what those
  of `Queues` do to the lists, when the node that is inserted is on no list;
* `Represents.next_ne`: no linked node is linked to itself.
-/

set_option linter.unusedSectionVars false

namespace RtThread

/-- The links of the list nodes. -/
structure Links (N : Type) where
  next : N → N
  prev : N → N

namespace Links

variable {N : Type} [DecidableEq N] (L : Links N)

/-- Write a link to the next node. -/
def setNext (n x : N) : Links N := { L with next := Function.update L.next n x }

/-- Write a link to the previous node. -/
def setPrev (n x : N) : Links N := { L with prev := Function.update L.prev n x }

/-- Insert `n` behind `l`. -/
def insertAfter (l n : N) : Links N :=
  let L := L.setPrev (L.next l) n
  let L := L.setNext n (L.next l)
  let L := L.setNext l n
  L.setPrev n l

/-- Insert `n` before `l`. -/
def insertBefore (l n : N) : Links N :=
  let L := L.setNext (L.prev l) n
  let L := L.setPrev n (L.prev l)
  let L := L.setPrev l n
  L.setNext n l

/-- Take `n` out and link it to itself. -/
def remove (n : N) : Links N :=
  let L := L.setPrev (L.next n) (L.prev n)
  let L := L.setNext (L.prev n) (L.next n)
  let L := L.setPrev n n
  L.setNext n n

/-- Every node is linked to itself. -/
def self : Links N := ⟨id, id⟩

variable {L} {n l y : N}

theorem insertAfter_next : (L.insertAfter l n).next y =
    if y = l then n else if y = n then L.next l else L.next y := by
  simp only [insertAfter, setNext, setPrev, Function.update_apply]

theorem insertAfter_prev (h : n ≠ L.next l) : (L.insertAfter l n).prev y =
    if y = L.next l then n else if y = n then l else L.prev y := by
  simp only [insertAfter, setNext, setPrev, Function.update_apply]
  by_cases hy : y = n
  · rw [if_pos hy, if_pos hy, if_neg fun e => h (hy ▸ e)]
  · rw [if_neg hy, if_neg hy]

theorem insertBefore_next (h : n ≠ L.prev l) : (L.insertBefore l n).next y =
    if y = L.prev l then n else if y = n then l else L.next y := by
  simp only [insertBefore, setNext, setPrev, Function.update_apply]
  by_cases hy : y = n
  · rw [if_pos hy, if_pos hy, if_neg fun e => h (hy ▸ e)]
  · rw [if_neg hy, if_neg hy]

theorem insertBefore_prev : (L.insertBefore l n).prev y =
    if y = l then n else if y = n then L.prev l else L.prev y := by
  simp only [insertBefore, setNext, setPrev, Function.update_apply]

theorem remove_next (h : y ≠ n) :
    (L.remove n).next y = if y = L.prev n then L.next n else L.next y := by
  simp only [remove, setNext, setPrev, Function.update_apply, if_neg h, ite_self]

theorem remove_prev (h : y ≠ n) :
    (L.remove n).prev y = if y = L.next n then L.prev n else L.prev y := by
  simp only [remove, setNext, setPrev, Function.update_apply, if_neg h]

@[simp] theorem remove_next_self : (L.remove n).next n = n := by
  simp [remove, setNext]

@[simp] theorem remove_prev_self : (L.remove n).prev n = n := by
  simp [remove, setNext, setPrev]

end Links

/-! ## Lists -/

section Represents

variable {H N : Type} [DecidableEq H] [DecidableEq N]

/-- **The links stand for the lists**: those of a list head and its nodes form a circle, and a node on
no list is linked to itself. -/
structure Represents (L : Links (H ⊕ N)) (q : Queues H N) : Prop where
  circle : ∀ h, Circle L.next L.prev (.inl h) ((q h).map .inr)
  once : ∃ loc, Queues.At q loc
  alone : ∀ {n}, (∀ h, n ∉ q h) → L.next (.inr n) = .inr n ∧ L.prev (.inr n) = .inr n

namespace Represents

variable {L L' : Links (H ⊕ N)} {q : Queues H N} {h h' : H} {n m : N} {x y : H ⊕ N}

theorem nodup (hr : Represents L q) (h : H) : (q h).Nodup :=
  hr.once.elim fun _ hl => hl.nodup h

theorem unique (hr : Represents L q) (hn : n ∈ q h) (hn' : n ∈ q h') : h = h' :=
  hr.once.elim fun _ hl => hl.unique hn hn'

/-- The nodes of a circle. -/
theorem mem_circle : x ∈ (.inl h :: (q h).map .inr : List (H ⊕ N)) ↔
    x = .inl h ∨ ∃ n ∈ q h, x = .inr n := by
  rw [List.mem_cons, List.mem_map]
  simp only [eq_comm]

/-- Circles do not meet. -/
theorem apart (hr : Represents L q) (hne : h' ≠ h)
    (hx : x ∈ (.inl h :: (q h).map .inr : List (H ⊕ N)))
    (hy : y ∈ (.inl h' :: (q h').map .inr : List (H ⊕ N))) : y ≠ x := by
  rintro rfl
  rcases mem_circle.mp hx with rfl | ⟨n, hn, rfl⟩ <;> rcases mem_circle.mp hy with hy | ⟨m, hm, hy⟩
  · exact hne (Sum.inl.inj hy).symm
  · cases hy
  · cases hy
  · obtain rfl := Sum.inr.inj hy
    exact hne (hr.unique hm hn)

/-- A node on no list is in no circle. -/
theorem not_mem_circle (hn : ∀ h, n ∉ q h) (h : H) :
    (.inr n : H ⊕ N) ∉ (.inl h :: (q h).map .inr : List (H ⊕ N)) := fun hx => by
  rcases mem_circle.mp hx with hx | ⟨m, hm, hx⟩
  · cases hx
  · exact hn h (Sum.inr.inj hx ▸ hm)

/-- **A linked node is not linked to itself.** -/
theorem next_ne (hr : Represents L q) (hn : n ∈ q h) : L.next (.inr n) ≠ .inr n := by
  obtain ⟨l, m, hq⟩ := List.append_of_mem hn
  have hc := hr.circle h
  rw [hq, List.map_append, List.map_cons] at hc
  have hmem := (Between.mid.mp hc.between).2.next_mem
  have hnd := List.nodup_append.mp (List.nodup_cons.mp hc.nodup).2
  intro he
  rw [he] at hmem
  rcases List.mem_cons.mp hmem with e | e
  · cases e
  · exact (List.nodup_cons.mp hnd.2.1).1 e

/-- The node behind a list head is on its list. -/
theorem mem_of_next (hr : Represents L q) (he : L.next (.inl h) = .inr n) : n ∈ q h := by
  have hmem := (hr.circle h).between.next_mem
  rw [he] at hmem
  rcases mem_circle.mp hmem with e | ⟨m, hm, e⟩
  · cases e
  · exact Sum.inr.inj e ▸ hm

/-- What an operation on one circle leaves alone. -/
theorem of_circle (hr : Represents L q) {l : List N} {loc : N → Option H}
    (hat : Queues.At (Function.update q h l) loc)
    (hc : Circle L'.next L'.prev (.inl h) (l.map .inr))
    (hf : ∀ y, y ∉ (.inl h :: (q h).map .inr : List (H ⊕ N)) →
      y ∉ (.inl h :: l.map .inr : List (H ⊕ N)) → L'.next y = L.next y ∧ L'.prev y = L.prev y)
    (ha : ∀ n ∈ q h, n ∉ l → L'.next (.inr n) = .inr n ∧ L'.prev (.inr n) = .inr n) :
    Represents L' (Function.update q h l) := by
  have hl : ∀ {h'}, h' ≠ h → ∀ n ∈ q h', n ∉ l := fun {h'} hne n hn hnl => by
    have h1 : n ∈ Function.update q h l h := by rw [Function.update_self]; exact hnl
    have h2 : n ∈ Function.update q h l h' := by rw [Function.update_of_ne hne]; exact hn
    exact hne (hat.unique h2 h1)
  refine ⟨fun h' => ?_, ⟨loc, hat⟩, fun {n} hn => ?_⟩
  · by_cases hne : h' = h
    · subst hne
      rw [Function.update_self]
      exact hc
    · rw [Function.update_of_ne hne]
      have hout : ∀ y ∈ (.inl h' :: (q h').map .inr : List (H ⊕ N)),
          L'.next y = L.next y ∧ L'.prev y = L.prev y := fun y hy => by
        refine hf y (fun hx => hr.apart hne hx hy rfl) fun hx => ?_
        rcases mem_circle.mp hy with rfl | ⟨n, hn, rfl⟩
        · rcases List.mem_cons.mp hx with e | e
          · exact hne (Sum.inl.inj e)
          · obtain ⟨m, -, e⟩ := List.mem_map.mp e
            cases e
        · rcases List.mem_cons.mp hx with e | e
          · cases e
          · obtain ⟨m, hm, e⟩ := List.mem_map.mp e
            exact hl hne n hn (Sum.inr.inj e ▸ hm)
      exact (hr.circle h').congr (fun y hy => (hout y hy).1) fun y hy => (hout y hy).2
  · have hnl : n ∉ l := fun hc => hn h (by rw [Function.update_self]; exact hc)
    by_cases hnq : n ∈ q h
    · exact ha n hnq hnl
    · have hall : ∀ h', n ∉ q h' := fun h' hc => by
        by_cases hne : h' = h
        · exact hnq (hne ▸ hc)
        · exact hn h' (by rw [Function.update_of_ne hne]; exact hc)
      obtain ⟨h1, h2⟩ := hf (.inr n) (not_mem_circle hall h) fun hx => by
        rcases List.mem_cons.mp hx with e | e
        · cases e
        · obtain ⟨m, hm, e⟩ := List.mem_map.mp e
          exact hnl (Sum.inr.inj e ▸ hm)
      obtain ⟨h3, h4⟩ := hr.alone hall
      exact ⟨h1.trans h3, h2.trans h4⟩

theorem unlinked (hr : Represents L q) (hn : ∀ h, n ∉ q h) :
    ∃ loc, Queues.At q loc ∧ loc n = none := by
  obtain ⟨loc, hat⟩ := hr.once
  refine ⟨loc, hat, ?_⟩
  cases hl : loc n with
  | none => rfl
  | some h => exact absurd ((hat.mem n h).mpr hl) (hn h)

/-- **`insertAfter` a list head**, of a node on no list. -/
theorem insertAfter (hr : Represents L q) (hn : ∀ h, n ∉ q h) (h : H) :
    Represents (L.insertAfter (.inl h) (.inr n)) (q.insertAfterHead h n) := by
  obtain ⟨loc, hat, hloc⟩ := hr.unlinked hn
  have hout := not_mem_circle hn h
  have hc := hr.circle h
  have hne : (.inr n : H ⊕ N) ≠ L.next (.inl h) := fun e => hout (e ▸ hc.between.next_mem)
  refine hr.of_circle (hat.insertAfterHead hloc h) ?_ (fun y hy hy' => ?_) fun m hm hm' => ?_
  · rw [List.map_cons]
    exact hc.pushFront hout (fun y => Links.insertAfter_next) fun y => Links.insertAfter_prev hne
  · have h1 : y ≠ .inl h := fun e => hy (e ▸ List.mem_cons_self)
    have h2 : y ≠ .inr n := fun e => hy' (by simp [e])
    have h3 : y ≠ L.next (.inl h) := fun e => hy (e ▸ hc.between.next_mem)
    rw [Links.insertAfter_next, Links.insertAfter_prev hne, if_neg h1, if_neg h2, if_neg h3,
      if_neg h2]
    exact ⟨rfl, rfl⟩
  · exact absurd (List.mem_cons_of_mem n hm) hm'

/-- **`insertBefore` a list head**, of a node on no list. -/
theorem insertBefore (hr : Represents L q) (hn : ∀ h, n ∉ q h) (h : H) :
    Represents (L.insertBefore (.inl h) (.inr n)) (q.insertBeforeHead h n) := by
  obtain ⟨loc, hat, hloc⟩ := hr.unlinked hn
  have hout := not_mem_circle hn h
  have hc := hr.circle h
  have hne : (.inr n : H ⊕ N) ≠ L.prev (.inl h) := fun e => hout (e ▸ hc.between.prev_mem)
  refine hr.of_circle (hat.insertBeforeHead hloc h) ?_ (fun y hy hy' => ?_) fun m hm hm' => ?_
  · rw [List.map_append, List.map_singleton]
    exact hc.pushBack hout (fun y => Links.insertBefore_next hne) fun y => Links.insertBefore_prev
  · have h1 : y ≠ .inl h := fun e => hy (e ▸ List.mem_cons_self)
    have h2 : y ≠ .inr n := fun e => hy' (by simp [e])
    have h3 : y ≠ L.prev (.inl h) := fun e => hy (e ▸ hc.between.prev_mem)
    rw [Links.insertBefore_next hne, Links.insertBefore_prev, if_neg h1, if_neg h2, if_neg h3,
      if_neg h2]
    exact ⟨rfl, rfl⟩
  · exact absurd (List.mem_append_left [n] hm) hm'

/-- `remove` of a node that is linked to itself. -/
theorem remove_self (hn : L.next x = x ∧ L.prev x = x) : L.remove x = L := by
  have h1 : (L.remove x).next = L.next := by
    funext y
    by_cases hy : y = x
    · rw [hy, Links.remove_next_self, hn.1]
    · rw [Links.remove_next hy, hn.2, if_neg hy]
  have h2 : (L.remove x).prev = L.prev := by
    funext y
    by_cases hy : y = x
    · rw [hy, Links.remove_prev_self, hn.2]
    · rw [Links.remove_prev hy, hn.1, if_neg hy]
  exact congrArg₂ Links.mk h1 h2

/-- **`remove`**, of any node. -/
theorem remove (hr : Represents L q) (n : N) :
    Represents (L.remove (.inr n)) (q.remove n) := by
  by_cases hn : ∀ h, n ∉ q h
  · rw [remove_self (hr.alone hn), Queues.remove_of_unlinked hn]
    exact hr
  · obtain ⟨h, hn⟩ := not_forall.mp hn
    have hn : n ∈ q h := not_not.mp hn
    obtain ⟨l, m, hq⟩ := List.append_of_mem hn
    have hc := hr.circle h
    have hin : (.inr n : H ⊕ N) ∈ (.inl h :: (q h).map .inr : List (H ⊕ N)) :=
      mem_circle.mpr (.inr ⟨n, hn, rfl⟩)
    have hnext := hc.next_mem hin
    have hprev := hc.prev_mem hin
    -- the other lists do not contain the node
    have hrem : q.remove n = Function.update q h (l ++ m) := by
      funext h'
      rw [Queues.remove_apply]
      by_cases hne : h' = h
      · subst hne
        have hnd := hr.nodup h'
        rw [hq] at hnd
        have hnl : n ∉ l := fun e => (List.nodup_append.mp hnd).2.2 n e n List.mem_cons_self rfl
        rw [Function.update_self, hq, List.erase_append_right _ hnl, List.erase_cons_head]
      · rw [Function.update_of_ne hne]
        exact List.erase_of_not_mem fun hm => hne (hr.unique hm hn)
    obtain ⟨loc, hat⟩ := hr.once
    have hat' := hat.remove n
    rw [hrem] at hat' ⊢
    refine hr.of_circle hat' ?_ (fun y hy _ => ?_) fun k hk hk' => ?_
    · rw [hq, List.map_append, List.map_cons] at hc
      rw [List.map_append]
      exact hc.remove (fun y hy => Links.remove_next hy) fun y hy => Links.remove_prev hy
    · have h1 : y ≠ .inr n := fun e => hy (e ▸ hin)
      have h2 : y ≠ L.prev (.inr n) := fun e => hy (e ▸ hprev)
      have h3 : y ≠ L.next (.inr n) := fun e => hy (e ▸ hnext)
      rw [Links.remove_next h1, Links.remove_prev h1, if_neg h2, if_neg h3]
      exact ⟨rfl, rfl⟩
    · have hkn : k = n := by
        rw [hq, List.mem_append, List.mem_cons] at hk
        rw [List.mem_append] at hk'
        tauto
      subst hkn
      exact ⟨Links.remove_next_self, Links.remove_prev_self⟩

/-- No node is linked. -/
theorem self : Represents (Links.self : Links (H ⊕ N)) fun _ => [] :=
  ⟨fun _ => ⟨List.nodup_singleton _, rfl, rfl⟩,
    ⟨fun _ => none, fun _ => List.nodup_nil, fun _ _ => by simp⟩, fun _ => ⟨rfl, rfl⟩⟩

end Represents

end Represents

end RtThread
