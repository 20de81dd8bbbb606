import RtThread.Timer.Model

/-!
# The order of the timer list

All timers on a list lie in a window behind a **base**, a tick that is not more than half the range back,
such as the present tick or that of the pass before. The list is sorted by the distance from the base, and
timers with the same `timeout_tick` stand in the order in which they were started.

* `TimerOrder`: the invariant; `TimerOrder.due_iff`: what is due is not after the present tick;
* `TimerOrder.due_first`: the due timers come first;
* **`TimerOrder.timerStart`**: a start keeps the order, and `TimerOrder.bottom_timerStart` names the place;
* **`timerOrder_of_remaining`**: the invariant for the present tick as the base.
-/

set_option linter.unusedSectionVars false

namespace RtThread

variable {T : Type} [DecidableEq T] {levels : ℕ} {s : TimerState T} {soft : Bool} {base : Tick}

namespace TimerState

/-- The distance of a timer's `timeout_tick` from the base. -/
def away (s : TimerState T) (base : Tick) (t : T) : ℕ := offset base (s.timer t).timeoutTick

/-- The distance of the present tick from the base. -/
def elapsed (s : TimerState T) (base : Tick) : ℕ := offset base s.tick

/-- In the order of `timeout_tick` and of start. -/
def Before (s : TimerState T) (base : Tick) (t u : T) : Prop :=
  s.away base t < s.away base u ∨ s.away base t = s.away base u ∧ s.startedAt t < s.startedAt u

instance (s : TimerState T) (base : Tick) (t u : T) : Decidable (s.Before base t u) :=
  inferInstanceAs (Decidable (_ ∨ _))

end TimerState

open TimerState

/-- `RT_TICK_MAX / 2`. -/
theorem halfTickMax_toNat : halfTickMax.toNat = halfRange 32 := rfl

theorem halfRange_eq : halfRange 32 = 2147483647 := rfl

/-- **The order invariant.** The present tick and the remaining times are less than half the range of
ticks ahead of the base and the present tick, and a period does not reach more than that beyond a timer that
is still to be called. -/
structure TimerOrder (levels : ℕ) (soft : Bool) (base : Tick) (s : TimerState T) : Prop where
  someRow : 0 < levels
  rows : SkipRows levels (s.rows soft)
  sorted : (s.bottom levels soft).Pairwise (s.Before base)
  activated : ∀ t ∈ s.bottom levels soft, (s.timer t).activated = true ∧ (s.timer t).soft = soft
  started : ∀ t, s.startedAt t < s.starts
  late : s.elapsed base < halfRange 32
  period : ∀ t ∈ s.bottom levels soft, (s.timer t).initTick.toNat < halfRange 32
  near : ∀ t ∈ s.bottom levels soft, s.away base t < s.elapsed base + halfRange 32
  span : ∀ t ∈ s.bottom levels soft, ∀ u ∈ s.bottom levels soft,
    s.elapsed base + (s.timer u).initTick.toNat + halfRange 32 ≤ s.away base t + 2 ^ 32

namespace TimerOrder

variable (h : TimerOrder levels soft base s) {t u : T}
include h

/-- **A timer is due** when it is not after the present tick. -/
theorem due_iff (ht : t ∈ s.bottom levels soft) : s.due t ↔ s.away base t ≤ s.elapsed base := by
  have hlate := h.late
  have hnear := h.near t ht
  rw [halfRange_eq] at hlate hnear
  unfold due
  rw [BitVec.lt_def, halfTickMax_toNat]
  refine reached_iff (b := base) ?_ ?_
  · show s.elapsed base < s.away base t + halfRange 32
    rw [halfRange_eq]
    omega
  · show s.away base t + halfRange 32 ≤ s.elapsed base + 2 ^ 32
    rw [halfRange_eq]
    omega

/-- The due timers come first. -/
theorem due_first {l : List T} (hb : s.bottom levels soft = t :: l) (ht : ¬s.due t) :
    ∀ u ∈ s.bottom levels soft, ¬s.due u := by
  have hsorted := h.sorted
  rw [hb] at hsorted
  have hmem : t ∈ s.bottom levels soft := by
    rw [hb]
    exact List.mem_cons_self
  rw [h.due_iff hmem] at ht
  intro u hu
  rw [h.due_iff hu]
  rw [hb] at hu
  rcases List.mem_cons.mp hu with rfl | hu
  · exact ht
  · rcases (List.pairwise_cons.mp hsorted).1 u hu with hlt | heq <;> omega

end TimerOrder

/-! ## Starting a timer -/

namespace TimerState

variable {t u : T}

theorem timerStart_timer : (s.timerStart levels t).timer = Function.update s.timer t
    { s.timer t with activated := true, timeoutTick := s.tick + (s.timer t).initTick } := by
  unfold timerStart timerInsert setTimer timerRemove
  simp only [Function.update_self, Function.update_idem]

theorem timerStart_self : (s.timerStart levels t).timer t =
    { s.timer t with activated := true, timeoutTick := s.tick + (s.timer t).initTick } := by
  rw [timerStart_timer, Function.update_self]

theorem timerStart_of_ne (hu : u ≠ t) : (s.timerStart levels t).timer u = s.timer u := by
  rw [timerStart_timer, Function.update_of_ne hu]

/-- Whether to go on behind a timer when one is inserted with a given `timeout_tick`. -/
def passesAt (s : TimerState T) (timeout : Tick) (u : T) : Bool :=
  decide ((s.timer u).timeoutTick - timeout = 0) ||
    !decide ((s.timer u).timeoutTick - timeout < halfTickMax)

/-- **The rows behind a start.** -/
theorem timerStart_rows (levels : ℕ) (ht : (s.timer t).soft = soft) : ∃ top ≤ levels - 1, ∃ pass : T → Bool,
    (∀ u ≠ t, pass u = s.passesAt (s.tick + (s.timer t).initTick) u) ∧
    (s.timerStart levels t).rows soft = fun l =>
      if top ≤ l then insertBehind (rowHead pass (fun l => (s.rows soft l).erase t) l) t
        ((s.rows soft l).erase t)
      else (s.rows soft l).erase t := by
  subst ht
  obtain ⟨s₁, hs₁⟩ : ∃ s₁, s₁ = (s.timerRemove t).setTimer t fun x =>
      { x with activated := false, timeoutTick := s.tick + x.initTick } := ⟨_, rfl⟩
  have hrows : s₁.rows = fun soft l => (s.rows soft l).erase t := by rw [hs₁]; rfl
  have hself : s₁.timer t =
      { s.timer t with activated := false, timeoutTick := s.tick + (s.timer t).initTick } := by
    rw [hs₁]
    exact Function.update_self ..
  have hother : ∀ u ≠ t, s₁.timer u = s.timer u := by
    intro u hu
    rw [hs₁]
    exact Function.update_of_ne hu ..
  have hstart : (s.timerStart levels t).rows = (s₁.timerInsert levels t).rows := by
    rw [hs₁]
    rfl
  have hsoft : (s₁.timer t).soft = (s.timer t).soft := by rw [hself]
  refine ⟨levels - 1 - rowsAbove (levels - 1) (s₁.randomNr + 1), Nat.sub_le _ _, s₁.passes t,
    fun u hu => ?_, ?_⟩
  · unfold passes passesAt
    rw [hother u hu, hself]
  · rw [hstart]
    unfold timerInsert
    simp only [hsoft, hrows, Function.update_self]

/-- A start leaves the other list, but for the timer itself. -/
theorem timerStart_otherRows {l : ℕ} (ht : (s.timer t).soft ≠ soft) :
    (s.timerStart levels t).rows soft l = (s.rows soft l).erase t := by
  unfold timerStart timerInsert setTimer timerRemove
  simp only [Function.update_self]
  rw [Function.update_of_ne ht.symm]

end TimerState

/-- Going on behind the timers that are not after the new one. -/
theorem passesAt_iff {x : Tick} {u : T} (hup : s.away base u < offset base x + halfRange 32)
    (hlow : offset base x + halfRange 32 ≤ s.away base u + 2 ^ 32) :
    s.passesAt x u = true ↔ s.away base u ≤ offset base x := by
  unfold passesAt
  rw [Bool.or_eq_true, Bool.not_eq_true', decide_eq_true_eq, decide_eq_false_iff_not, BitVec.lt_def,
    halfTickMax_toNat]
  exact notAfter_iff hup hlow

namespace TimerOrder

variable (h : TimerOrder levels soft base s) {t u : T}
include h

/-- The distance at which a timer is started. -/
theorem away_start (hinit : (s.timer t).initTick.toNat < halfRange 32) :
    offset base (s.tick + (s.timer t).initTick) = s.elapsed base + (s.timer t).initTick.toNat := by
  have hlate := h.late
  rw [halfRange_eq] at hlate hinit
  refine offset_add ?_
  show s.elapsed base + (s.timer t).initTick.toNat < 2 ^ 32
  omega

/-- **Where a timer is inserted.** -/
theorem bottom_timerStart (ht : (s.timer t).soft = soft)
    (hinit : (s.timer t).initTick.toNat < halfRange 32)
    (hspan : ∀ u ∈ s.bottom levels soft, u ≠ t →
      s.elapsed base + (s.timer t).initTick.toNat + halfRange 32 ≤ s.away base u + 2 ^ 32) :
    ∃ l₁ l₂, (s.bottom levels soft).erase t = l₁ ++ l₂ ∧
      (s.timerStart levels t).bottom levels soft = l₁ ++ t :: l₂ ∧
      (∀ u ∈ l₁, s.away base u ≤ s.elapsed base + (s.timer t).initTick.toNat) ∧
      (∀ u ∈ l₂, s.elapsed base + (s.timer t).initTick.toNat < s.away base u) ∧
      SkipRows levels ((s.timerStart levels t).rows soft) := by
  obtain ⟨top, htop, pass, hpass, hrows⟩ := timerStart_rows levels ht
  have hold : SkipRows levels fun l => (s.rows soft l).erase t := h.rows.remove t
  have hmem : ∀ u ∈ (s.bottom levels soft).erase t, u ≠ t ∧ u ∈ s.bottom levels soft := fun u hu =>
    h.rows.nodup.mem_erase_iff.mp hu
  have hiff : ∀ u ∈ (s.bottom levels soft).erase t,
      (pass u = true ↔ s.away base u ≤ s.elapsed base + (s.timer t).initTick.toNat) := by
    intro u hu
    obtain ⟨hut, hub⟩ := hmem u hu
    have haway := h.away_start hinit
    rw [hpass u hut, ← haway]
    refine passesAt_iff ?_ ?_
    · rw [haway]
      have hnear := h.near u hub
      omega
    · rw [haway]
      exact hspan u hub hut
  have hfirst : PassFirst pass ((s.bottom levels soft).erase t) := by
    refine (List.Pairwise.sublist List.erase_sublist h.sorted).imp_of_mem fun {a b} ha hb hab hpb => ?_
    rw [hiff b hb] at hpb
    rw [hiff a ha]
    rcases hab with hlt | heq <;> omega
  have hnew : t ∉ (s.bottom levels soft).erase t := fun hin => (hmem t hin).1 rfl
  refine ⟨((s.bottom levels soft).erase t).takeWhile pass, ((s.bottom levels soft).erase t).dropWhile pass,
    (List.takeWhile_append_dropWhile ..).symm, ?_, fun u hu => ?_, fun u hu => ?_, ?_⟩
  · show (s.timerStart levels t).rows soft (levels - 1) = _
    rw [hrows, hfirst.takeWhile_eq, hfirst.dropWhile_eq]
    simp only [if_pos htop]
    exact hold.insertBehind_rowHead hfirst (Nat.sub_lt h.someRow Nat.one_pos)
  · exact (hiff u (List.takeWhile_subset _ hu)).mp (List.mem_takeWhile_imp hu)
  · rw [hfirst.dropWhile_eq] at hu
    obtain ⟨hu, hno⟩ := List.mem_filter.mp hu
    refine Nat.lt_of_not_le fun hle => ?_
    rw [(hiff u hu).mpr hle] at hno
    cases hno
  · rw [hrows]
    exact hold.insert hfirst h.someRow hnew top htop

theorem away_timerStart (hinit : (s.timer t).initTick.toNat < halfRange 32) :
    (s.timerStart levels t).away base u =
      if u = t then s.elapsed base + (s.timer t).initTick.toNat else s.away base u := by
  unfold away
  by_cases hu : u = t
  · rw [if_pos hu, hu, timerStart_self]
    exact h.away_start hinit
  · rw [if_neg hu, timerStart_of_ne hu]

/-- **A start keeps the order.** -/
theorem timerStart (ht : (s.timer t).soft = soft)
    (hinit : (s.timer t).initTick.toNat < halfRange 32)
    (hspan : ∀ u ∈ s.bottom levels soft, u ≠ t →
      s.elapsed base + (s.timer t).initTick.toNat + halfRange 32 ≤ s.away base u + 2 ^ 32) :
    TimerOrder levels soft base (s.timerStart levels t) := by
  obtain ⟨l₁, l₂, hl, hbot, hl₁, hl₂, hrows⟩ := h.bottom_timerStart ht hinit hspan
  have hmem : ∀ u ∈ l₁ ++ l₂, u ≠ t ∧ u ∈ s.bottom levels soft := fun u hu =>
    h.rows.nodup.mem_erase_iff.mp (hl ▸ hu)
  have hnew : ∀ u ∈ (s.timerStart levels t).bottom levels soft, u = t ∨ u ≠ t ∧ u ∈ s.bottom levels soft := by
    intro u hu
    rw [hbot, List.mem_append, List.mem_cons] at hu
    rcases hu with hu | rfl | hu
    · exact .inr (hmem u (List.mem_append_left _ hu))
    · exact .inl rfl
    · exact .inr (hmem u (List.mem_append_right _ hu))
  have haway : ∀ u, (s.timerStart levels t).away base u =
      if u = t then s.elapsed base + (s.timer t).initTick.toNat else s.away base u := fun u =>
    h.away_timerStart hinit
  have hperiod : ∀ u ∈ (s.timerStart levels t).bottom levels soft,
      ((s.timerStart levels t).timer u).initTick = (s.timer u).initTick ∧
        (s.timer u).initTick.toNat < halfRange 32 := by
    intro u hu
    rcases hnew u hu with rfl | ⟨hut, hub⟩
    · rw [timerStart_self]
      exact ⟨rfl, hinit⟩
    · rw [timerStart_of_ne hut]
      exact ⟨rfl, h.period u hub⟩
  have hstamp : ∀ u, (s.timerStart levels t).startedAt u = if u = t then s.starts else s.startedAt u := by
    intro u
    show Function.update s.startedAt t s.starts u = _
    rw [Function.update_apply]
  have helapsed : (s.timerStart levels t).elapsed base = s.elapsed base := rfl
  have hkeep : ∀ u ∈ l₁ ++ l₂, ∀ v ∈ l₁ ++ l₂, s.Before base u v →
      (s.timerStart levels t).Before base u v := by
    intro u hu v hv huv
    unfold Before
    rw [haway, haway, hstamp, hstamp, if_neg (hmem u hu).1, if_neg (hmem v hv).1, if_neg (hmem u hu).1,
      if_neg (hmem v hv).1]
    exact huv
  have hold : (l₁ ++ l₂).Pairwise (s.Before base) :=
    hl ▸ List.Pairwise.sublist List.erase_sublist h.sorted
  refine ⟨h.someRow, hrows, ?_, fun u hu => ?_, fun u => ?_, h.late, fun u hu => ?_, fun u hu => ?_,
    fun u hu v hv => ?_⟩
  · rw [hbot]
    obtain ⟨h₁, h₂, h₁₂⟩ := List.pairwise_append.mp (hold.imp_of_mem (hkeep _ · _ ·))
    refine List.pairwise_append.mpr ⟨h₁, List.pairwise_cons.mpr ⟨fun v hv => .inl ?_, h₂⟩,
      fun u hu v hv => ?_⟩
    · rw [haway, haway, if_pos rfl, if_neg (hmem v (List.mem_append_right _ hv)).1]
      exact hl₂ v hv
    · rcases List.mem_cons.mp hv with rfl | hv
      · unfold Before
        have hut := (hmem u (List.mem_append_left _ hu)).1
        rw [haway, haway, hstamp, hstamp, if_pos rfl, if_neg hut, if_neg hut, if_pos rfl]
        exact (Nat.lt_or_eq_of_le (hl₁ u hu)).imp_right fun e => ⟨e, h.started u⟩
      · exact h₁₂ u hu v hv
  · rcases hnew u hu with rfl | ⟨hut, hub⟩
    · rw [timerStart_self]
      exact ⟨rfl, ht⟩
    · rw [timerStart_of_ne hut]
      exact h.activated u hub
  · show _ < s.starts + 1
    rw [hstamp]
    split_ifs
    · exact Nat.lt_succ_self _
    · exact Nat.lt_succ_of_lt (h.started u)
  · rw [(hperiod u hu).1]
    exact (hperiod u hu).2
  · rw [haway, helapsed]
    split_ifs with hut
    · omega
    · exact h.near u ((hnew u hu).resolve_left hut).2
  · rw [haway, helapsed, (hperiod v hv).1]
    have hv' := (hperiod v hv).2
    have hhalf := halfRange_eq
    split_ifs with hut
    · omega
    · rcases hnew v hv with rfl | ⟨-, hvb⟩
      · exact hspan u ((hnew u hu).resolve_left hut).2 hut
      · exact h.span u ((hnew u hu).resolve_left hut).2 v hvb

/-- Taking a timer off keeps the order. -/
theorem timerRemove (t : T) : TimerOrder levels soft base (s.timerRemove t) := by
  have hsub : ((s.timerRemove t).bottom levels soft).Sublist (s.bottom levels soft) := List.erase_sublist
  exact ⟨h.someRow, h.rows.remove t, h.sorted.sublist hsub, fun u hu => h.activated u (hsub.subset hu),
    h.started, h.late, fun u hu => h.period u (hsub.subset hu), fun u hu => h.near u (hsub.subset hu),
    fun u hu v hv => h.span u (hsub.subset hu) v (hsub.subset hv)⟩

/-- Changes that do not concern the timers on the list. -/
theorem congr {s' : TimerState T} (htick : s'.tick = s.tick) (hrows : s'.rows soft = s.rows soft)
    (htimer : ∀ u ∈ s.bottom levels soft, s'.timer u = s.timer u)
    (hstamp : s'.startedAt = s.startedAt) (hstarts : s'.starts = s.starts) :
    TimerOrder levels soft base s' := by
  have hbot : s'.bottom levels soft = s.bottom levels soft := congrFun hrows _
  have haway : ∀ u ∈ s.bottom levels soft, s'.away base u = s.away base u := fun u hu => by
    unfold away
    rw [htimer u hu]
  have helapsed : s'.elapsed base = s.elapsed base := by
    unfold elapsed
    rw [htick]
  refine ⟨h.someRow, hrows ▸ h.rows, ?_, fun u hu => ?_, fun u => ?_, helapsed ▸ h.late,
    fun u hu => ?_, fun u hu => ?_, fun u hu v hv => ?_⟩
  · rw [hbot]
    refine h.sorted.imp_of_mem fun {u v} hu hv huv => ?_
    unfold Before
    rw [haway u hu, haway v hv, hstamp]
    exact huv
  · rw [hbot] at hu
    rw [htimer u hu]
    exact h.activated u hu
  · rw [hstamp, hstarts]
    exact h.started u
  · rw [hbot] at hu
    rw [htimer u hu]
    exact h.period u hu
  · rw [hbot] at hu
    rw [haway u hu, helapsed]
    exact h.near u hu
  · rw [hbot] at hu hv
    rw [haway u hu, helapsed, htimer v hv]
    exact h.span u hu v hv

end TimerOrder

/-- **The present tick as the base.** A list sorted by remaining time, with remaining times and periods below
half the range, is in order. -/
theorem timerOrder_of_remaining (hn : 0 < levels) (hrows : SkipRows levels (s.rows soft))
    (hsorted : (s.bottom levels soft).Pairwise (s.Before s.tick))
    (hactivated : ∀ t ∈ s.bottom levels soft, (s.timer t).activated = true ∧ (s.timer t).soft = soft)
    (hstarted : ∀ t, s.startedAt t < s.starts)
    (hperiod : ∀ t ∈ s.bottom levels soft, (s.timer t).initTick < halfTickMax)
    (hremaining : ∀ t ∈ s.bottom levels soft, (s.timer t).timeoutTick - s.tick < halfTickMax) :
    TimerOrder levels soft s.tick s := by
  have hzero : s.elapsed s.tick = 0 := offset_self
  have hhalf := halfRange_eq
  refine ⟨hn, hrows, hsorted, hactivated, hstarted, ?_, fun t ht => ?_, fun t ht => ?_, fun t _ u hu => ?_⟩
  · rw [hzero, hhalf]
    decide
  · exact hperiod t ht
  · rw [hzero, Nat.zero_add]
    exact hremaining t ht
  · have hu' : (s.timer u).initTick.toNat < halfRange 32 := hperiod u hu
    rw [hzero]
    omega

/-- A list with no timers. -/
theorem timerOrder_empty (hn : 0 < levels) (hrows : ∀ l, s.rows soft l = [])
    (hstarted : ∀ t, s.startedAt t < s.starts) : TimerOrder levels soft s.tick s := by
  have hbot : s.bottom levels soft = [] := hrows _
  have hno : ∀ t, t ∉ s.bottom levels soft := fun t ht => by
    rw [hbot] at ht
    cases ht
  refine timerOrder_of_remaining hn ⟨fun l _ => ?_, ?_⟩ ?_ (fun t ht => absurd ht (hno t)) hstarted
    (fun t ht => absurd ht (hno t)) fun t ht => absurd ht (hno t)
  · rw [hrows, hrows]
  · rw [hrows]
    exact List.nodup_nil
  · rw [hbot]
    exact List.Pairwise.nil

end RtThread
