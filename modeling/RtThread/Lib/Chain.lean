import Mathlib.Data.List.Nodup

/-!
# Singly linked lists

`NextChain next h l`: the nodes reached from the pointer `h` along the link fields `next` are those
of `l`, in this order, and the last link is null.

* `NextChain.unique`, `NextChain.nodup`, `NextChain.frame`: it is one list, without repetition, and
  depends on the links of its nodes only; `chainList` computes it;
* `NextChain.push`, `NextChain.pop`, `NextChain.append`, `NextChain.insertAfter`,
  `NextChain.unlink`: the operations; `NextChain.appendLast` and `NextChain.remove` are the ones that
  also serve the list head;
* `findPrev`: the loop that looks for the node before a node; `NextChain.findPrev_spec`;
* `NextChain.ofRange`: a table linked from each entry to the next.
-/

namespace RtThread

/-- The list that starts at a pointer. -/
inductive NextChain {α : Type} (next : α → Option α) : Option α → List α → Prop where
  | nil : NextChain next none []
  | cons {a : α} {l : List α} : NextChain next (next a) l → NextChain next (some a) (a :: l)

/-- Follow the links from a pointer, over at most `n` nodes. -/
def chainList {α : Type} (next : α → Option α) : ℕ → Option α → List α
  | 0, _ => []
  | _ + 1, none => []
  | n + 1, some a => a :: chainList next n (next a)

/-- The loop that looks for the node before `a`, from the node `p` with the link `x`; the list head
is `none`. It stops at the last node when `a` is not there. -/
def findPrev {α : Type} [DecidableEq α] (next : α → Option α) (a : α) :
    ℕ → Option α → Option α → Option (Option α)
  | 0, _, _ => none
  | _ + 1, p, none => some p
  | n + 1, p, some b => if b = a then some p else findPrev next a n (some b) (next b)

namespace NextChain

variable {α : Type} {next next' : α → Option α} {h : Option α} {a b : α} {l l' : List α}

theorem unique (hl : NextChain next h l) (hl' : NextChain next h l') : l = l' := by
  induction hl generalizing l' with
  | nil => cases hl'; rfl
  | cons _ ih =>
    cases hl' with
    | cons hl' => rw [ih hl']

theorem chainList_eq (hl : NextChain next h l) {n : ℕ} (hn : l.length ≤ n) :
    chainList next n h = l := by
  induction hl generalizing n with
  | nil => cases n <;> rfl
  | @cons a l _ ih =>
    cases n with
    | zero => cases hn
    | succ n =>
      rw [chainList, ih (Nat.le_of_succ_le_succ hn)]

theorem head? (hl : NextChain next h l) : l.head? = h := by
  cases hl <;> rfl

theorem eq_nil (hl : NextChain next none l) : l = [] := by
  cases hl; rfl

theorem eq_nil_iff (hl : NextChain next h l) : l = [] ↔ h = none := by
  cases hl <;> simp

/-- **Taking the first node off.** -/
theorem pop (hl : NextChain next (some a) l) : ∃ t, l = a :: t ∧ NextChain next (next a) t := by
  cases hl with
  | cons ht => exact ⟨_, rfl, ht⟩

/-- The nodes after `a` are the list of its link. -/
theorem suffix (hl : NextChain next h (l ++ a :: l')) : NextChain next (next a) l' := by
  induction l generalizing h with
  | nil =>
    cases hl with
    | cons ht => exact ht
  | cons b l ih =>
    cases hl with
    | cons ht => exact ih ht

/-- **No repetition**: the list of a node does not contain the node. -/
theorem nodup (hl : NextChain next h l) : l.Nodup := by
  induction hl with
  | nil => exact List.nodup_nil
  | @cons a l hl ih =>
    refine List.nodup_cons.mpr ⟨fun ha => ?_, ih⟩
    -- otherwise `l` would be equal to a proper suffix of itself
    obtain ⟨s, t, rfl⟩ := List.append_of_mem ha
    have := congrArg List.length (hl.unique hl.suffix)
    simp only [List.length_append, List.length_cons] at this
    omega

/-- **Only the links of the nodes matter.** -/
theorem frame (hl : NextChain next h l) (hf : ∀ b ∈ l, next' b = next b) : NextChain next' h l := by
  induction hl with
  | nil => exact .nil
  | @cons a l hl ih =>
    have := ih fun b hb => hf b (List.mem_cons_of_mem _ hb)
    rw [← hf a List.mem_cons_self] at this
    exact .cons this

variable [DecidableEq α]

/-- **Pushing a node.** -/
theorem push (hl : NextChain next h l) (ha : a ∉ l) :
    NextChain (Function.update next a h) (some a) (a :: l) := by
  refine .cons ?_
  rw [Function.update_self]
  refine hl.frame fun b hb => ?_
  have hba : b ≠ a := fun e => ha (e ▸ hb)
  exact Function.update_of_ne hba _ _

/-- **Linking a node behind another.** -/
theorem insertAfter (hl : NextChain next h (l ++ b :: l')) (ha : a ∉ l ++ b :: l') :
    NextChain (Function.update (Function.update next a (next b)) b (some a)) h
      (l ++ b :: a :: l') := by
  have hab : a ≠ b := fun e => ha (by simp [e])
  have hnd := hl.nodup
  induction l generalizing h with
  | nil =>
    cases hl with
    | cons ht =>
      refine .cons ?_
      rw [Function.update_self]
      refine .cons ?_
      rw [Function.update_of_ne hab, Function.update_self]
      refine ht.frame fun c hc => ?_
      have hcb : c ≠ b := fun e => (List.nodup_cons.mp hnd).1 (e ▸ hc)
      have hca : c ≠ a := fun e => ha (e ▸ List.mem_cons_of_mem _ hc)
      rw [Function.update_of_ne hcb, Function.update_of_ne hca]
  | cons c l ih =>
    cases hl with
    | cons ht =>
      have hmem : b ∈ l ++ b :: l' := by simp
      have hcb : c ≠ b := fun e => (List.nodup_cons.mp hnd).1 (e ▸ hmem)
      have hca : c ≠ a := fun e => ha (e ▸ List.mem_cons_self)
      refine .cons ?_
      rw [Function.update_of_ne hcb, Function.update_of_ne hca]
      exact ih ht (fun hm => ha (List.mem_cons_of_mem _ hm)) (List.nodup_cons.mp hnd).2

/-- **Linking a node at the end.** -/
theorem append (hl : NextChain next h (l ++ [b])) (ha : a ∉ l ++ [b]) :
    NextChain (Function.update (Function.update next a none) b (some a)) h (l ++ [b, a]) := by
  have hnone : next b = none := by
    cases hc : next b with
    | none => rfl
    | some c =>
      have := hl.suffix
      rw [hc] at this
      cases this
  have := hl.insertAfter ha
  rwa [hnone] at this

/-- **Unlinking the node behind another.** -/
theorem unlink (hl : NextChain next h (l ++ b :: a :: l')) :
    NextChain (Function.update next b (next a)) h (l ++ b :: l') := by
  have hnd := hl.nodup
  induction l generalizing h with
  | nil =>
    cases hl with
    | cons hb =>
      obtain ⟨t, ht, ha⟩ : ∃ t, l' = t ∧ NextChain next (next a) t := by
        generalize next b = x at hb
        cases hb with
        | cons ha => exact ⟨_, rfl, ha⟩
      subst ht
      refine .cons ?_
      rw [Function.update_self]
      refine ha.frame fun c hc => ?_
      have hcb : c ≠ b := fun e =>
        (List.nodup_cons.mp hnd).1 (e ▸ List.mem_cons_of_mem _ hc)
      rw [Function.update_of_ne hcb]
  | cons c l ih =>
    cases hl with
    | cons ht =>
      have hcb : c ≠ b := fun e => (List.nodup_cons.mp hnd).1 (e ▸ by simp)
      refine .cons ?_
      rw [Function.update_of_ne hcb]
      exact ih ht (List.nodup_cons.mp hnd).2

/-- **Linking a node at the end**, of a list that may be empty. -/
theorem appendLast (hl : NextChain next h l) (ha : a ∉ l) :
    NextChain (l.getLast?.elim (Function.update next a none)
        fun b => Function.update (Function.update next b (some a)) a none)
      (l.getLast?.elim (some a) fun _ => h) (l ++ [a]) := by
  rcases List.eq_nil_or_concat l with rfl | ⟨l, b, rfl⟩
  · refine .cons ?_
    rw [List.getLast?_nil, Option.elim_none, Function.update_self]
    exact .nil
  · have hba : b ≠ a := fun e => ha (by simp [e])
    rw [List.concat_eq_append] at *
    rw [List.getLast?_append_cons, List.getLast?_singleton, Option.elim_some, Option.elim_some,
      Function.update_comm hba, List.append_assoc]
    exact hl.append ha

/-- **Taking a node out**, with the node before it or the list head. -/
theorem remove (hl : NextChain next h (l ++ a :: l')) :
    NextChain (l.getLast?.elim next fun b => Function.update next b (next a))
      (l.getLast?.elim (next a) fun _ => h) (l ++ l') := by
  rcases List.eq_nil_or_concat l with rfl | ⟨l, b, rfl⟩
  · cases hl with
    | cons ht => exact ht
  · rw [List.concat_eq_append] at *
    rw [List.getLast?_append_cons, List.getLast?_singleton, List.append_assoc]
    rw [List.append_assoc] at hl
    exact hl.unlink

/-- **The loop finds the node before `a`.** -/
theorem findPrev_spec {n : ℕ} (p : Option α) (hl : NextChain next h l) (ha : a ∈ l)
    (hn : l.length ≤ n) :
    ∃ l₁ l₂, l = l₁ ++ a :: l₂ ∧ findPrev next a n p h = some (l₁.getLast?.or p) := by
  induction hl generalizing n p with
  | nil => cases ha
  | @cons b l hl ih =>
    cases n with
    | zero => cases hn
    | succ n =>
      rw [findPrev]
      by_cases hb : b = a
      · subst hb
        rw [if_pos rfl]
        exact ⟨[], l, rfl, rfl⟩
      · rw [if_neg hb]
        obtain ⟨l₁, l₂, h1, h2⟩ := ih (some b) ((List.mem_cons.mp ha).resolve_left (Ne.symm hb))
          (Nat.le_of_succ_le_succ hn)
        refine ⟨b :: l₁, l₂, by rw [h1]; rfl, ?_⟩
        rw [h2, List.getLast?_cons]
        cases l₁.getLast? <;> rfl

omit [DecidableEq α] in
/-- **A table linked from each entry to the next.** -/
theorem ofRange (f : ℕ → α) {n : ℕ} (hn : 0 < n)
    (hlink : ∀ i, i + 1 < n → next (f i) = some (f (i + 1))) (hlast : next (f (n - 1)) = none) :
    NextChain next (some (f 0)) ((List.range n).map f) := by
  -- from the last entry backwards
  have hsuf : ∀ k, k < n → NextChain next (some (f (n - 1 - k)))
      ((List.range' (n - 1 - k) (k + 1)).map f) := fun k => by
    induction k with
    | zero =>
      intro _
      change NextChain next (some (f (n - 1))) [f (n - 1)]
      refine .cons ?_
      rw [hlast]
      exact .nil
    | succ k ih =>
      intro hk
      have h1 := ih (by omega)
      have h2 : n - 1 - (k + 1) + 1 = n - 1 - k := by omega
      rw [List.range'_succ, List.map_cons]
      refine .cons ?_
      rw [hlink _ (by omega), h2]
      exact h1
  have := hsuf (n - 1) (by omega)
  rw [Nat.sub_self, Nat.sub_add_cancel hn, ← List.range_eq_range'] at this
  exact this

end NextChain

end RtThread
