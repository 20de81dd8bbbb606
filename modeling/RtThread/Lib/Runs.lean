import Mathlib.Tactic.Common

/-!
# Lists of runs

A **run** `(a, k)` stands for the `k` positions from `a` on. `Runs lo l`: the runs of `l` are not
empty, sorted, disjoint and not adjacent, and none starts before `lo`.

* `cover l i`: how many runs of `l` contain the position `i`;
* `takeRuns`, `putRun`: cutting positions from the first run that is long enough, and merging a run
  into the list; `cover_takeRuns`, `cover_putRun`, `Runs.takeRuns`, `Runs.putRun`;
* **`Runs.ext`**: a list of runs is determined by the positions it covers.
-/

namespace RtThread

/-- Whether a position is in a run, as a number. -/
def inRun (r : ℕ × ℕ) (i : ℕ) : ℕ := if r.1 ≤ i ∧ i < r.1 + r.2 then 1 else 0

/-- The number of runs that contain a position. -/
def cover : List (ℕ × ℕ) → ℕ → ℕ
  | [], _ => 0
  | r :: l, i => inRun r i + cover l i

/-- Runs in ascending order from `lo` on, none empty, with a gap between any two. -/
def Runs : ℕ → List (ℕ × ℕ) → Prop
  | _, [] => True
  | lo, r :: l => lo ≤ r.1 ∧ 0 < r.2 ∧ Runs (r.1 + r.2 + 1) l

/-- Cut `n` positions off the front of the first run that has as many. -/
def takeRuns (n : ℕ) : List (ℕ × ℕ) → Option (ℕ × List (ℕ × ℕ))
  | [] => none
  | (a, k) :: l =>
    if n < k then some (a, (a + n, k - n) :: l)
    else if k = n then some (a, l)
    else (takeRuns n l).map fun r => (r.1, (a, k) :: r.2)

/-- Extend the first run of a list by `n` positions at its end, up to its successor. -/
def growRun (b k n : ℕ) : List (ℕ × ℕ) → List (ℕ × ℕ)
  | [] => [(b, k + n)]
  | (c, m) :: l => if b + (k + n) = c then (b, k + n + m) :: l else (b, k + n) :: (c, m) :: l

/-- Merge the run `(a, n)` into a list. -/
def putRun (a n : ℕ) : List (ℕ × ℕ) → List (ℕ × ℕ)
  | [] => [(a, n)]
  | (b, k) :: l =>
    if b + k = a then growRun b k n l
    else if b = a + n then (a, k + n) :: l
    else if a + n < b then (a, n) :: (b, k) :: l
    else (b, k) :: putRun a n l

section

variable {lo lo' : ℕ} {a b k n i p : ℕ} {l l' : List (ℕ × ℕ)} {r : ℕ × ℕ}

theorem inRun_pos : 0 < inRun r i ↔ r.1 ≤ i ∧ i < r.1 + r.2 := by
  unfold inRun
  split_ifs with h <;> simp [h]

theorem inRun_of_not (h : ¬ (r.1 ≤ i ∧ i < r.1 + r.2)) : inRun r i = 0 := if_neg h

theorem inRun_self (h : 0 < r.2) : inRun r r.1 = 1 := if_pos ⟨Nat.le_refl _, by omega⟩

/-- A run cut in two. -/
theorem inRun_add (a k n i : ℕ) : inRun (a, k + n) i = inRun (a, k) i + inRun (a + k, n) i := by
  simp only [inRun]
  split_ifs <;> omega

@[simp] theorem cover_nil (i : ℕ) : cover [] i = 0 := rfl

@[simp] theorem cover_cons (r : ℕ × ℕ) (l : List (ℕ × ℕ)) (i : ℕ) :
    cover (r :: l) i = inRun r i + cover l i := rfl

theorem takeRuns_cons (r : ℕ × ℕ) : takeRuns n (r :: l) =
    if n < r.2 then some (r.1, (r.1 + n, r.2 - n) :: l)
    else if r.2 = n then some (r.1, l)
    else (takeRuns n l).map fun q => (q.1, r :: q.2) := rfl

theorem growRun_nil : growRun b k n [] = [(b, k + n)] := rfl

theorem growRun_cons (r : ℕ × ℕ) : growRun b k n (r :: l) =
    if b + (k + n) = r.1 then (b, k + n + r.2) :: l else (b, k + n) :: r :: l := rfl

theorem putRun_nil : putRun a n [] = [(a, n)] := rfl

theorem putRun_cons (r : ℕ × ℕ) : putRun a n (r :: l) =
    if r.1 + r.2 = a then growRun r.1 r.2 n l
    else if r.1 = a + n then (a, r.2 + n) :: l
    else if a + n < r.1 then (a, n) :: r :: l
    else r :: putRun a n l := rfl

theorem cover_pos : 0 < cover l i ↔ ∃ r ∈ l, r.1 ≤ i ∧ i < r.1 + r.2 := by
  induction l with
  | nil => simp
  | cons r l ih =>
    rw [cover_cons, Nat.add_pos_iff_pos_or_pos, inRun_pos, ih]
    simp

theorem cover_eq_zero (h : cover l i = 0) (hr : r ∈ l) : ¬ (r.1 ≤ i ∧ i < r.1 + r.2) := by
  intro hi
  have := cover_pos.mpr ⟨r, hr, hi⟩
  omega

@[simp] theorem cover_append (l l' : List (ℕ × ℕ)) (i : ℕ) :
    cover (l ++ l') i = cover l i + cover l' i := by
  induction l with
  | nil => simp
  | cons r l ih =>
    rw [List.cons_append, cover_cons, cover_cons, ih]
    omega

theorem cover_perm (h : l.Perm l') (i : ℕ) : cover l i = cover l' i := by
  induction h with
  | nil => rfl
  | cons r _ ih => rw [cover_cons, cover_cons, ih]
  | swap r s l =>
    simp only [cover_cons]
    omega
  | trans _ _ ih ih' => rw [ih, ih']

/-- **Where nothing is covered twice, different runs have no position in common.** -/
theorem disjoint_of_cover {s : ℕ × ℕ} (hc : ∀ i, cover l i ≤ 1) (hr : r ∈ l) (hs : s ∈ l)
    (hne : r ≠ s) (hi : r.1 ≤ i ∧ i < r.1 + r.2) : ¬ (s.1 ≤ i ∧ i < s.1 + s.2) := by
  intro hi'
  induction l with
  | nil => cases hr
  | cons t l ih =>
    have hci := hc i
    rw [cover_cons] at hci
    rcases List.mem_cons.mp hr with rfl | hrl
    · rcases List.mem_cons.mp hs with rfl | hsl
      · exact hne rfl
      · have h1 := inRun_pos.mpr hi
        have h2 : 0 < cover l i := cover_pos.mpr ⟨s, hsl, hi'⟩
        omega
    · rcases List.mem_cons.mp hs with rfl | hsl
      · have h1 := inRun_pos.mpr hi'
        have h2 : 0 < cover l i := cover_pos.mpr ⟨r, hrl, hi⟩
        omega
      · exact ih (fun i => by have := hc i; rw [cover_cons] at this; omega) hrl hsl

theorem nodup_of_cover (hc : ∀ i, cover l i ≤ 1) (hpos : ∀ r ∈ l, 0 < r.2) : l.Nodup := by
  induction l with
  | nil => exact List.nodup_nil
  | cons r l ih =>
    refine List.nodup_cons.mpr ⟨fun hr => ?_, ih (fun i => ?_) fun s hs =>
      hpos s (List.mem_cons_of_mem _ hs)⟩
    · have h0 := hpos r List.mem_cons_self
      have h1 := hc r.1
      have h2 : 0 < cover l r.1 := cover_pos.mpr ⟨r, hr, Nat.le_refl _, by omega⟩
      rw [cover_cons, inRun_self h0] at h1
      omega
    · have := hc i
      rw [cover_cons] at this
      omega

/-- The same, for the bounds of the runs. -/
theorem apart_of_cover {s : ℕ × ℕ} (hc : ∀ i, cover l i ≤ 1) (hr : r ∈ l) (hs : s ∈ l)
    (hne : r ≠ s) (hpos : 0 < r.2) (hpos' : 0 < s.2) : r.1 + r.2 ≤ s.1 ∨ s.1 + s.2 ≤ r.1 := by
  have hd := fun i => disjoint_of_cover (i := i) hc hr hs hne
  have h1 := hd r.1 ⟨Nat.le_refl _, by omega⟩
  have h2 := hd s.1
  omega

/-! ## Cutting and merging -/

/-- **Cutting moves positions from the list to the caller.** -/
theorem cover_takeRuns (h : takeRuns n l = some (p, l')) (i : ℕ) :
    cover l i = cover l' i + inRun (p, n) i := by
  induction l generalizing l' with
  | nil => cases h
  | cons r l ih =>
    obtain ⟨a, k⟩ := r
    simp only [takeRuns_cons] at h
    split_ifs at h with h1 h2
    · cases h
      have hk : n + (k - n) = k := by omega
      have := inRun_add p n (k - n) i
      rw [hk] at this
      simp only [cover_cons]
      omega
    · cases h
      subst h2
      simp only [cover_cons]
      omega
    · obtain ⟨⟨p', l₁⟩, h1, h2⟩ := Option.map_eq_some_iff.mp h
      cases h2
      have := ih h1
      dsimp only at this
      simp only [cover_cons]
      omega

theorem cover_growRun (b k n i : ℕ) (l : List (ℕ × ℕ)) :
    cover (growRun b k n l) i = inRun (b, k) i + inRun (b + k, n) i + cover l i := by
  have h1 := inRun_add b k n i
  cases l with
  | nil => simp only [growRun_nil, cover_cons, cover_nil]; omega
  | cons r l =>
    obtain ⟨c, m⟩ := r
    have h2 := inRun_add b (k + n) m i
    simp only [growRun_cons]
    split_ifs with h
    · rw [h] at h2
      simp only [cover_cons]
      omega
    · simp only [cover_cons]
      omega

/-- **Merging a run adds its positions.** -/
theorem cover_putRun (a n i : ℕ) (l : List (ℕ × ℕ)) :
    cover (putRun a n l) i = cover l i + inRun (a, n) i := by
  induction l with
  | nil => simp only [putRun_nil, cover_cons, cover_nil]; omega
  | cons r l ih =>
    obtain ⟨b, k⟩ := r
    simp only [putRun_cons]
    split_ifs with h1 h2 h3
    · rw [cover_growRun, h1]
      simp only [cover_cons]
      omega
    · have := inRun_add a n k i
      rw [Nat.add_comm n k, ← h2] at this
      simp only [cover_cons]
      omega
    · simp only [cover_cons]
      omega
    · simp only [cover_cons]
      omega

/-- Nothing is cut off exactly if every run is too short. -/
theorem takeRuns_eq_none : takeRuns n l = none ↔ ∀ r ∈ l, r.2 < n := by
  induction l with
  | nil => simp [takeRuns]
  | cons r l ih =>
    obtain ⟨a, k⟩ := r
    rw [List.forall_mem_cons, ← ih]
    simp only [takeRuns_cons]
    split_ifs with h1 h2
    · simp only [false_iff, not_and]
      omega
    · simp only [false_iff, not_and]
      omega
    · rw [Option.map_eq_none_iff]
      have : k < n := by omega
      simp [this]

theorem Runs.mono (h : Runs lo l) (hle : lo' ≤ lo) : Runs lo' l := by
  cases l with
  | nil => trivial
  | cons r l => exact ⟨by have := h.1; omega, h.2⟩

theorem Runs.le (h : Runs lo l) (hr : r ∈ l) : lo ≤ r.1 := by
  induction l generalizing lo with
  | nil => cases hr
  | cons s l ih =>
    rcases List.mem_cons.mp hr with rfl | hr
    · exact h.1
    · have h1 := h.1
      have h2 := ih h.2.2 hr
      omega

theorem Runs.pos (h : Runs lo l) (hr : r ∈ l) : 0 < r.2 := by
  induction l generalizing lo with
  | nil => cases hr
  | cons s l ih =>
    rcases List.mem_cons.mp hr with rfl | hr
    · exact h.2.1
    · exact ih h.2.2 hr

/-- Any two runs are in order, with a gap between them. -/
theorem Runs.pairwise (h : Runs lo l) : l.Pairwise fun r s => r.1 + r.2 < s.1 := by
  induction l generalizing lo with
  | nil => exact .nil
  | cons r l ih => exact List.pairwise_cons.mpr ⟨fun s hs => h.2.2.le hs, ih h.2.2⟩

theorem Runs.cover_lt (h : Runs lo l) (hi : i < lo) : cover l i = 0 := by
  by_contra hc
  obtain ⟨r, hr, hi'⟩ := cover_pos.mp (Nat.pos_of_ne_zero hc)
  have := h.le hr
  omega

/-- A list of runs is no longer than the range they lie in. -/
theorem Runs.length_le {hi : ℕ} (h : Runs lo l) (hb : ∀ r ∈ l, r.1 + r.2 ≤ hi) :
    l.length ≤ hi - lo := by
  induction l generalizing lo with
  | nil => exact Nat.zero_le _
  | cons r l ih =>
    obtain ⟨h1, h2, h3⟩ := h
    have := ih h3 fun s hs => hb s (List.mem_cons_of_mem _ hs)
    have := hb r List.mem_cons_self
    rw [List.length_cons]
    omega

theorem Runs.takeRuns (h : Runs lo l) (hn : 0 < n) (ht : takeRuns n l = some (p, l')) :
    Runs lo l' := by
  induction l generalizing lo l' with
  | nil => cases ht
  | cons r l ih =>
    obtain ⟨a, k⟩ := r
    obtain ⟨h1, h2, h3⟩ := h
    dsimp only at h1 h2 h3
    simp only [takeRuns_cons] at ht
    split_ifs at ht with hnk hk
    · cases ht
      have he : p + n + (k - n) + 1 = p + k + 1 := by omega
      refine ⟨by dsimp only; omega, by dsimp only; omega, ?_⟩
      dsimp only
      rw [he]
      exact h3
    · cases ht
      exact h3.mono (by omega)
    · obtain ⟨⟨p', l₁⟩, ht1, ht2⟩ := Option.map_eq_some_iff.mp ht
      cases ht2
      exact ⟨h1, h2, ih h3 ht1⟩

theorem Runs.growRun (h : Runs (b + k + 1) l) (hk : 0 < k) (hlo : lo ≤ b)
    (hf : ∀ i, b + k ≤ i → i < b + k + n → cover l i = 0) : Runs lo (growRun b k n l) := by
  cases l with
  | nil => exact ⟨hlo, by dsimp only; omega, trivial⟩
  | cons r l =>
    obtain ⟨c, m⟩ := r
    obtain ⟨h1, h2, h3⟩ := h
    dsimp only at h1 h2 h3
    have hc : ¬ (c < b + k + n) := fun hc =>
      cover_eq_zero (hf c (by omega) hc) List.mem_cons_self ⟨Nat.le_refl _, by dsimp only; omega⟩
    simp only [growRun_cons]
    split_ifs with he
    · refine ⟨hlo, by dsimp only; omega, ?_⟩
      have he' : b + (k + n + m) + 1 = c + m + 1 := by omega
      dsimp only
      rw [he']
      exact h3
    · exact ⟨hlo, by dsimp only; omega, by dsimp only; omega, h2, h3⟩

/-- **A run that the list does not cover is merged in its place.** -/
theorem Runs.putRun (h : Runs lo l) (hn : 0 < n) (hlo : lo ≤ a)
    (hf : ∀ i, a ≤ i → i < a + n → cover l i = 0) : Runs lo (putRun a n l) := by
  induction l generalizing lo with
  | nil => exact ⟨hlo, hn, trivial⟩
  | cons r l ih =>
    obtain ⟨b, k⟩ := r
    obtain ⟨h1, h2, h3⟩ := h
    dsimp only at h1 h2 h3
    have hf' : ∀ i, a ≤ i → i < a + n → cover l i = 0 := fun i hi hi' => by
      have := hf i hi hi'
      rw [cover_cons] at this
      omega
    -- the head does not meet the new run
    have hb : ¬ (a ≤ b ∧ b < a + n) := fun hb =>
      cover_eq_zero (hf b hb.1 hb.2) List.mem_cons_self ⟨Nat.le_refl _, by dsimp only; omega⟩
    have ha : ¬ (b ≤ a ∧ a < b + k) := fun ha =>
      cover_eq_zero (hf a (Nat.le_refl _) (by omega)) List.mem_cons_self ha
    simp only [putRun_cons]
    split_ifs with c1 c2 c3
    · subst c1
      exact h3.growRun h2 h1 fun i hi hi' => hf' i hi hi'
    · refine ⟨hlo, by dsimp only; omega, ?_⟩
      have he : a + (k + n) + 1 = b + k + 1 := by omega
      dsimp only
      rw [he]
      exact h3
    · exact ⟨hlo, hn, by dsimp only; omega, h2, h3⟩
    · exact ⟨h1, h2, ih h3 (by omega) hf'⟩

end

/-! ## One list for a set of positions -/

section

variable {lo lo' : ℕ} {i : ℕ} {l l' : List (ℕ × ℕ)} {r : ℕ × ℕ}

/-- The first position that is covered is the start of the first run. -/
theorem Runs.cover_head (h : Runs lo (r :: l)) : cover (r :: l) r.1 = 1 := by
  rw [cover_cons, inRun_self h.2.1, h.2.2.cover_lt (by omega)]

theorem Runs.cover_before (h : Runs lo (r :: l)) (hi : i < r.1) : cover (r :: l) i = 0 :=
  Runs.cover_lt ⟨Nat.le_refl r.1, h.2⟩ hi

theorem Runs.cover_mid (h : Runs lo (r :: l)) (hi : r.1 ≤ i) (hi' : i < r.1 + r.2) :
    cover (r :: l) i = 1 := by
  rw [cover_cons, h.2.2.cover_lt (by omega), inRun, if_pos ⟨hi, hi'⟩]

theorem Runs.cover_gap (h : Runs lo (r :: l)) : cover (r :: l) (r.1 + r.2) = 0 := by
  rw [cover_cons, h.2.2.cover_lt (by omega), inRun_of_not (by omega)]

theorem Runs.eq_nil (h : Runs lo l) (hc : ∀ i, cover l i = 0) : l = [] := by
  cases l with
  | nil => rfl
  | cons r l =>
    have := hc r.1
    rw [h.cover_head] at this
    cases this

/-- **A list of runs is determined by the positions it covers.** -/
theorem Runs.ext (h : Runs lo l) (h' : Runs lo' l') (hc : ∀ i, cover l i = cover l' i) :
    l = l' := by
  induction l generalizing lo lo' l' with
  | nil => exact (h'.eq_nil fun i => (hc i).symm).symm
  | cons r l ih =>
    cases l' with
    | nil => exact h.eq_nil hc
    | cons s l' =>
      -- the first runs start at the same place
      have h1 : r.1 = s.1 := by
        rcases Nat.lt_trichotomy r.1 s.1 with hlt | heq | hgt
        · have := hc r.1
          rw [h.cover_head, h'.cover_before hlt] at this
          cases this
        · exact heq
        · have := hc s.1
          rw [h'.cover_head, h.cover_before hgt] at this
          cases this
      -- and end at the same place, the first one that is not covered
      have h2 : r.2 = s.2 := by
        rcases Nat.lt_trichotomy r.2 s.2 with hlt | heq | hgt
        · have := hc (r.1 + r.2)
          rw [h.cover_gap, h'.cover_mid (by omega) (by omega)] at this
          cases this
        · exact heq
        · have := hc (s.1 + s.2)
          rw [h'.cover_gap, h.cover_mid (by omega) (by omega)] at this
          cases this
      have hrs : r = s := Prod.ext h1 h2
      subst hrs
      rw [ih h.2.2 h'.2.2 fun i => by
        have := hc i
        simp only [cover_cons] at this
        omega]

end

end RtThread
