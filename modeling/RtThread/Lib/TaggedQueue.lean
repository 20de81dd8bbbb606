import Mathlib.Data.List.Perm.Basic

/-!
# A queue with tags

Items are put at the end of a queue, some with a tag. They leave it at the front, taken, or dropped when there
is no room, or the first one with a tag is taken.

* `QueueEvent`, `QueueEvent.apply`, `replay`: what happens to the queue, the last event first;
* **`replay_perm`**: each item that was put was taken, or dropped, or is still there, once;
* `takeFrom_map`: the first tagged item of a list that is the image of another.
-/

set_option linter.unusedSectionVars false

namespace RtThread

/-- What happens to a queue of items `M` with tags `B`; an item is dropped when the queue is full. -/
inductive QueueEvent (M B : Type) where
  | put (m : M) (b : Option B)
  | take (m : M)
  | takeFrom (b : B) (m : M)
  | drop (m : M) (full : Bool)
  deriving DecidableEq

namespace QueueEvent

variable {M B : Type} [DecidableEq M] [DecidableEq B]

/-- The queue without its first item, which is to be `m`. -/
def front (m : M) : List (M × Option B) → Option (List (M × Option B))
  | [] => none
  | p :: q => if p.1 = m then some q else none

/-- One event. -/
def apply (q : List (M × Option B)) : QueueEvent M B → Option (List (M × Option B))
  | put m b => some (q ++ [(m, b)])
  | take m => front m q
  | takeFrom b m =>
    if (q.find? fun p => decide (p.2 = some b)).map (·.1) = some m then
      some (q.eraseP fun p => decide (p.2 = some b))
    else none
  | drop m full => if full then front m q else none

/-- The item that an event puts. -/
def arrival : QueueEvent M B → Option M
  | put m _ => some m
  | _ => none

/-- The item that an event takes. -/
def delivery : QueueEvent M B → Option M
  | take m => some m
  | takeFrom _ m => some m
  | _ => none

/-- The item that an event drops. -/
def loss : QueueEvent M B → Option M
  | drop m _ => some m
  | _ => none

end QueueEvent

open QueueEvent

section

variable {M B : Type} [DecidableEq M] [DecidableEq B] {m : M} {b : B} {q q' : List (M × Option B)}
  {log : List (QueueEvent M B)}

/-- The queue after the events, the last one first. -/
def replay : List (QueueEvent M B) → Option (List (M × Option B))
  | [] => some []
  | e :: log => (replay log).bind fun q => e.apply q

theorem front_perm (h : front m q = some q') : (q.map (·.1)).Perm (m :: q'.map (·.1)) := by
  cases q with
  | nil => cases h
  | cons p q =>
    unfold front at h
    dsimp only at h
    by_cases hp : p.1 = m
    · rw [if_pos hp] at h
      obtain rfl := Option.some.inj h
      rw [List.map_cons, hp]
    · rw [if_neg hp] at h
      cases h

theorem eraseP_perm {p : M × Option B} {f : M × Option B → Bool} (h : q.find? f = some p) :
    q.Perm (p :: q.eraseP f) := by
  induction q with
  | nil => cases h
  | cons a q ih =>
    rw [List.find?_cons] at h
    cases hf : f a with
    | true =>
      rw [hf] at h
      obtain rfl := Option.some.inj h
      rw [List.eraseP_cons_of_pos hf]
    | false =>
      rw [hf] at h
      rw [List.eraseP_cons_of_neg (by rw [hf]; exact Bool.false_ne_true)]
      exact ((ih h).cons a).trans (List.Perm.swap p a _)

/-- **Accounting**: each item that was put was taken, or dropped, or is still in the queue. -/
theorem replay_perm (h : replay log = some q) :
    (log.filterMap arrival).Perm (log.filterMap delivery ++ log.filterMap loss ++ q.map (·.1)) := by
  induction log generalizing q with
  | nil =>
    obtain rfl := Option.some.inj h
    exact List.Perm.refl _
  | cons e log ih =>
    obtain ⟨q₀, h₀, he⟩ := Option.bind_eq_some_iff.mp h
    have hrest := ih h₀
    cases e with
    | put m b =>
      obtain rfl := Option.some.inj he
      have hnew : ((log.filterMap delivery ++ log.filterMap loss ++ q₀.map (·.1)) ++ [m]).Perm
          (m :: (log.filterMap delivery ++ log.filterMap loss ++ q₀.map (·.1))) :=
        List.perm_append_singleton _ _
      show (m :: log.filterMap arrival).Perm
        (log.filterMap delivery ++ log.filterMap loss ++ (q₀ ++ [(m, b)]).map (·.1))
      rw [List.map_append, ← List.append_assoc]
      exact (hrest.cons m).trans hnew.symm
    | take m =>
      show (log.filterMap arrival).Perm (m :: log.filterMap delivery ++ log.filterMap loss ++ q.map (·.1))
      exact hrest.trans (((front_perm he).append_left _).trans List.perm_middle)
    | takeFrom b m =>
      show (log.filterMap arrival).Perm (m :: log.filterMap delivery ++ log.filterMap loss ++ q.map (·.1))
      unfold apply at he
      dsimp only at he
      by_cases hm : (q₀.find? fun p => decide (p.2 = some b)).map (·.1) = some m
      · rw [if_pos hm] at he
        obtain rfl := Option.some.inj he
        obtain ⟨p, hp, rfl⟩ := Option.map_eq_some_iff.mp hm
        exact hrest.trans ((((eraseP_perm hp).map (·.1)).append_left _).trans List.perm_middle)
      · rw [if_neg hm] at he
        cases he
    | drop m full =>
      show (log.filterMap arrival).Perm (log.filterMap delivery ++ (m :: log.filterMap loss) ++ q.map (·.1))
      have hfull : full = true := by
        cases full with
        | false => cases he
        | true => rfl
      subst hfull
      refine hrest.trans (((front_perm he).append_left _).trans ?_)
      rw [List.append_assoc, List.append_assoc]
      refine List.Perm.append_left _ ?_
      exact List.perm_middle

/-- **The first tagged item** of the image of a list. -/
theorem takeFrom_map {α : Type} [DecidableEq α] {l : List α} {f : α → M × Option B} {x : α}
    (hx : (l.filter fun y => decide ((f y).2 = some b)).head? = some x) :
    (takeFrom b (f x).1).apply (l.map f) = some ((l.erase x).map f) := by
  have hfind : ((l.map f).find? fun p => decide (p.2 = some b)) = some (f x) ∧
      (l.map f).eraseP (fun p => decide (p.2 = some b)) = (l.erase x).map f := by
    induction l with
    | nil => cases hx
    | cons a l ih =>
      rw [List.map_cons, List.find?_cons]
      by_cases ha : (f a).2 = some b
      · rw [List.filter_cons, if_pos (decide_eq_true ha)] at hx
        obtain rfl := Option.some.inj hx
        rw [List.eraseP_cons, List.erase_cons_head, decide_eq_true ha]
        exact ⟨rfl, rfl⟩
      · rw [List.filter_cons, if_neg (by simpa using ha)] at hx
        have hax : a ≠ x := by
          rintro rfl
          have hmem := List.mem_of_head? hx
          exact ha (of_decide_eq_true (List.mem_filter.mp hmem).2)
        obtain ⟨h₁, h₂⟩ := ih hx
        rw [List.eraseP_cons, List.erase_cons_tail (by simpa using hax), h₂, decide_eq_false ha]
        exact ⟨h₁, rfl⟩
  unfold apply
  dsimp only
  rw [hfind.1, hfind.2, Option.map_some, if_pos rfl]

end

end RtThread
