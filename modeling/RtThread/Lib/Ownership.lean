import Mathlib.Data.List.Count

/-!
# Blocks and their owners

Blocks are numbered as they are allocated. An owner has one block or none, and the numbers of the
blocks that are freed are listed.

* `Owned n freed own`: of the first `n` blocks those without an owner are freed once, the others not;
* **`Owned.alloc`**, **`Owned.release`**: an owner gets the next block, and frees the one that it has;
* `Owned.freed_iff`: all blocks are freed when no owner has one;
* `Lost`: a block that is not freed and has no owner; `Lost.alloc`, `Lost.release`: it stays lost;
* `Owned.lost`: an owner that gets a block while it has another loses that.
-/

namespace RtThread

/-- Each of `n` blocks has one owner, or is freed once. -/
structure Owned {ι : Type} (n : ℕ) (freed : List ℕ) (own : ι → Option ℕ) : Prop where
  lt : ∀ {i k}, own i = some k → k < n
  unique : ∀ {i j k}, own i = some k → own j = some k → i = j
  held : ∀ {i k}, own i = some k → k ∉ freed
  once : ∀ {k}, k < n → (∀ i, own i ≠ some k) → freed.count k = 1
  fresh : ∀ {k}, n ≤ k → k ∉ freed

/-- A block that nobody can free any more. -/
structure Lost {ι : Type} (n : ℕ) (freed : List ℕ) (own : ι → Option ℕ) (k : ℕ) : Prop where
  lt : k < n
  held : k ∉ freed
  nobody : ∀ i, own i ≠ some k

variable {ι : Type} {n k : ℕ} {freed : List ℕ} {own : ι → Option ℕ} {i j : ι}

theorem Owned.empty : Owned 0 [] fun _ : ι => none :=
  ⟨fun h => (nomatch h), fun h => (nomatch h), fun h => (nomatch h),
    fun h => absurd h (Nat.not_lt_zero _), fun _ => List.not_mem_nil⟩

/-- **All blocks are freed** when no owner has one, and only then. -/
theorem Owned.freed_iff (h : Owned n freed own) :
    (∀ k < n, freed.count k = 1) ↔ ∀ i, own i = none := by
  constructor
  · intro hall i
    by_contra hi
    obtain ⟨k, hk⟩ := Option.ne_none_iff_exists'.mp hi
    have hone := hall k (h.lt hk)
    rw [List.count_eq_zero.mpr (h.held hk)] at hone
    exact Nat.zero_ne_one hone
  · intro hnone k hk
    refine h.once hk fun i hi => ?_
    rw [hnone i] at hi
    cases hi

theorem Lost.not_freed (h : Lost n freed own k) : ¬ ∀ k < n, freed.count k = 1 := by
  intro hall
  have hone := hall k h.lt
  rw [List.count_eq_zero.mpr h.held] at hone
  exact Nat.zero_ne_one hone

section

variable [DecidableEq ι]

theorem update_none {b : ℕ} (h : Function.update own i none j = some b) : j ≠ i ∧ own j = some b := by
  by_cases hj : j = i
  · rw [hj, Function.update_self] at h
    cases h
  · rw [Function.update_of_ne hj] at h
    exact ⟨hj, h⟩

theorem update_some {b : ℕ} (h : Function.update own i (some n) j = some b) :
    (j = i ∧ b = n) ∨ (j ≠ i ∧ own j = some b) := by
  by_cases hj : j = i
  · rw [hj, Function.update_self] at h
    exact .inl ⟨hj, (Option.some.inj h).symm⟩
  · rw [Function.update_of_ne hj] at h
    exact .inr ⟨hj, h⟩

/-- **An owner that has no block gets one.** -/
theorem Owned.alloc (h : Owned n freed own) (hi : own i = none) :
    Owned (n + 1) freed (Function.update own i (some n)) := by
  constructor
  case lt =>
    intro j k hj
    rcases update_some hj with ⟨-, rfl⟩ | ⟨-, hj⟩
    · exact Nat.lt_succ_self k
    · exact Nat.lt_succ_of_lt (h.lt hj)
  case unique =>
    intro j j' k hj hj'
    rcases update_some hj with ⟨hji, hk⟩ | ⟨-, hj⟩ <;>
      rcases update_some hj' with ⟨hji', hk'⟩ | ⟨-, hj'⟩
    · rw [hji, hji']
    · exact absurd (h.lt hj') (Nat.not_lt.mpr (Nat.le_of_eq hk.symm))
    · exact absurd (h.lt hj) (Nat.not_lt.mpr (Nat.le_of_eq hk'.symm))
    · exact h.unique hj hj'
  case held =>
    intro j k hj
    rcases update_some hj with ⟨-, rfl⟩ | ⟨-, hj⟩
    · exact h.fresh (Nat.le_refl k)
    · exact h.held hj
  case once =>
    intro k hk hno
    have hne : k ≠ n := by
      rintro rfl
      exact hno i (Function.update_self ..)
    refine h.once (Nat.lt_of_le_of_ne (Nat.le_of_lt_succ hk) hne) fun j hj => hno j ?_
    rw [Function.update_of_ne, hj]
    rintro rfl
    rw [hi] at hj
    cases hj
  case fresh => exact fun hk => h.fresh (Nat.le_of_succ_le hk)

/-- **An owner frees what it has.** -/
theorem Owned.release (h : Owned n freed own) (i : ι) :
    Owned n (freed ++ (own i).toList) (Function.update own i none) := by
  constructor
  case lt => exact fun hj => h.lt (update_none hj).2
  case unique => exact fun hj hj' => h.unique (update_none hj).2 (update_none hj').2
  case held =>
    intro j k hj hm
    obtain ⟨hne, hj⟩ := update_none hj
    rcases List.mem_append.mp hm with hm | hm
    · exact h.held hj hm
    · exact hne (h.unique hj (Option.mem_toList.mp hm))
  case once =>
    intro k hk hno
    rw [List.count_append]
    by_cases hik : own i = some k
    · rw [hik, List.count_eq_zero.mpr (h.held hik), Option.toList_some, List.count_singleton_self]
    · have hnil : (own i).toList.count k = 0 :=
        List.count_eq_zero.mpr fun hm => hik (Option.mem_toList.mp hm)
      rw [hnil, Nat.add_zero]
      refine h.once hk fun j hj => hno j ?_
      rw [Function.update_of_ne, hj]
      rintro rfl
      exact hik hj
  case fresh =>
    intro k hk hm
    rcases List.mem_append.mp hm with hm | hm
    · exact h.fresh hk hm
    · exact absurd (h.lt (Option.mem_toList.mp hm)) (Nat.not_lt.mpr hk)

theorem Lost.alloc (h : Lost n freed own k) (i : ι) :
    Lost (n + 1) freed (Function.update own i (some n)) k := by
  refine ⟨Nat.lt_succ_of_lt h.lt, h.held, fun j hj => ?_⟩
  rcases update_some hj with ⟨-, rfl⟩ | ⟨-, hj⟩
  · exact absurd h.lt (Nat.lt_irrefl _)
  · exact h.nobody j hj

theorem Lost.release (h : Lost n freed own k) (i : ι) :
    Lost n (freed ++ (own i).toList) (Function.update own i none) k := by
  refine ⟨h.lt, fun hm => ?_, fun j hj => h.nobody j (update_none hj).2⟩
  rcases List.mem_append.mp hm with hm | hm
  · exact h.held hm
  · exact h.nobody i (Option.mem_toList.mp hm)

/-- **An owner that has a block gets another one**: the first is lost. -/
theorem Owned.lost (h : Owned n freed own) (hi : own i = some k) :
    Lost (n + 1) freed (Function.update own i (some n)) k := by
  refine ⟨Nat.lt_succ_of_lt (h.lt hi), h.held hi, fun j hj => ?_⟩
  rcases update_some hj with ⟨-, rfl⟩ | ⟨hne, hj⟩
  · exact absurd (h.lt hi) (Nat.lt_irrefl _)
  · exact hne (h.unique hj hi)

end

end RtThread
