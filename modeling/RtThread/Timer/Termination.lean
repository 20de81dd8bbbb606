import RtThread.Timer.Expiry

/-!
# Which passes over the timers end

The loops of `rt_timer_check` and `rt_soft_timer_check` end when every periodic timer has a time that is not
zero, whatever order the list is in: a timer started again is then not due, so each turn after the last tick
leaves one due timer less. `rt_timer_init` admits a time of zero as well.

* `TimerState.dueCount`: the measure; `dueCount_turn`: a turn at the present tick lowers it;
* `checkLoop_ends`: the loops end, also when ticks pass during the callbacks;
* **`timer_processing`**: the passes that end.
-/

namespace RtThread

variable {T : Type} [DecidableEq T] {levels : ℕ} {s : TimerState T} {soft : Bool} {base : Tick}
  {elapse : ℕ → Tick} {t u : T}

namespace TimerState

/-- The number of due timers on a list. -/
def dueCount (levels : ℕ) (soft : Bool) (s : TimerState T) : ℕ :=
  (s.bottom levels soft).countP (s.due ·)

/-- The times of the timers on a list are those that `rt_timer_init` admits. -/
def Admitted (levels : ℕ) (soft : Bool) (s : TimerState T) : Prop :=
  ∀ t ∈ s.bottom levels soft, (s.timer t).initTick < halfTickMax

/-- No periodic timer on a list has a time of zero. -/
def NoZeroPeriod (levels : ℕ) (soft : Bool) (s : TimerState T) : Prop :=
  ∀ t ∈ s.bottom levels soft, (s.timer t).periodic = true → (s.timer t).initTick ≠ 0

variable (hlist : s.list = [])
include hlist

/-- A turn changes no time and no kind of timer. -/
theorem turn_kind (u : T) : ((s.turn levels elapse soft t).timer u).initTick = (s.timer u).initTick ∧
    ((s.turn levels elapse soft t).timer u).periodic = (s.timer u).periodic := by
  by_cases hu : u = t
  · subst hu
    cases hp : (s.timer u).periodic with
    | false =>
      rw [turn_oneShot hlist hp, afterCall_oneShot hp, Function.update_self]
      exact ⟨rfl, hp⟩
    | true =>
      cases ha : (s.timer u).activated with
      | true =>
        rw [turn_periodic_timer hlist hp ha]
        exact ⟨rfl, hp⟩
      | false =>
        rw [turn_eq hlist, if_neg (fun hq => Bool.false_ne_true (ha ▸ hq.2)), afterCall_periodic hp]
        exact ⟨rfl, hp⟩
  · rw [turn_of_ne hlist hu]
    exact ⟨rfl, rfl⟩

/-- **The list after a turn**: the timer that was called is off, or on it again. -/
theorem bottom_turn (elapse : ℕ → Tick) {l : List T} (hb : s.bottom levels soft = t :: l) :
    (s.turn levels elapse soft t).bottom levels soft = l ∨
      (s.timer t).periodic = true ∧ (s.timer t).activated = true ∧
        ((s.turn levels elapse soft t).bottom levels soft = l.erase t ∨
          ∃ head, (s.turn levels elapse soft t).bottom levels soft = insertBehind head t (l.erase t)) := by
  have hcall : (s.afterCall elapse soft t).bottom levels soft = l := by
    show (s.bottom levels soft).erase t = l
    rw [hb, List.erase_cons_head]
  by_cases hp : (s.timer t).periodic = true ∧ (s.timer t).activated = true
  · refine .inr ⟨hp.1, hp.2, ?_⟩
    rw [turn_eq hlist, if_pos hp]
    obtain ⟨s', hs'⟩ : ∃ s', s' = (s.afterCall elapse soft t).setTimer t fun x =>
      { x with activated := false } := ⟨_, rfl⟩
    have hbot : (s'.bottom levels soft).erase t = l.erase t := by
      rw [hs', ← hcall]
      rfl
    rw [← hs', ← hbot]
    by_cases hsoft : (s'.timer t).soft = soft
    · obtain ⟨top, htop, pass, -, hrows⟩ := timerStart_rows levels hsoft
      refine .inr ⟨rowHead pass (fun l => (s'.rows soft l).erase t) (levels - 1), ?_⟩
      show (s'.timerStart levels t).rows soft (levels - 1) = _
      rw [hrows]
      exact if_pos htop
    · exact .inl (timerStart_otherRows hsoft)
  · rw [turn_eq hlist, if_neg hp]
    exact .inl hcall

theorem bottom_turn_subset (elapse : ℕ → Tick) {l : List T} (hb : s.bottom levels soft = t :: l) :
    (s.turn levels elapse soft t).bottom levels soft ⊆ s.bottom levels soft := by
  rw [hb]
  rcases bottom_turn hlist elapse hb with hl | ⟨-, -, hl | ⟨head, hl⟩⟩
  · rw [hl]
    exact List.subset_cons_self t l
  · rw [hl]
    exact fun u hu => List.mem_cons_of_mem t (List.mem_of_mem_erase hu)
  · rw [hl]
    intro u hu
    exact (List.mem_cons.mp (insertBehind_subset hu)).elim (fun e => e ▸ List.mem_cons_self)
      fun hu => List.mem_cons_of_mem t (List.mem_of_mem_erase hu)

/-- **The measure**: a turn at the present tick leaves one due timer less. -/
theorem dueCount_turn (elapse : ℕ → Tick) {l : List T} (hb : s.bottom levels soft = t :: l) (hd : s.due t)
    (hzero : elapse s.called.length = 0) (hinit : (s.timer t).initTick < halfTickMax)
    (hperiod : (s.timer t).periodic = true → (s.timer t).initTick ≠ 0) :
    (s.turn levels elapse soft t).dueCount levels soft < s.dueCount levels soft := by
  have htick : (s.turn levels elapse soft t).tick = s.tick := by
    rw [turn_tick hlist, hzero]
    exact BitVec.add_zero _
  have hself : (s.timer t).periodic = true → (s.timer t).activated = true →
      ¬(s.turn levels elapse soft t).due t := by
    intro hp ha
    have htimeout : ((s.turn levels elapse soft t).timer t).timeoutTick = s.tick + (s.timer t).initTick := by
      rw [turn_periodic_timer hlist hp ha, hzero]
      exact congrArg (· + (s.timer t).initTick) (BitVec.add_zero s.tick)
    unfold due
    rw [htick, htimeout, restarted_due_iff hinit]
    exact hperiod hp
  have hdue : ∀ u, (s.turn levels elapse soft t).due u → s.due u := by
    intro u hu
    by_cases hut : u = t
    · rw [hut]
      exact hd
    · unfold due at *
      rw [htick, turn_of_ne hlist hut] at hu
      exact hu
  have hle : l.countP ((s.turn levels elapse soft t).due ·) ≤ l.countP (s.due ·) :=
    List.countP_mono_left fun u _ hu => decide_eq_true (hdue u (of_decide_eq_true hu))
  have hlt : l.countP (s.due ·) < s.dueCount levels soft := by
    unfold dueCount
    rw [hb, List.countP_cons, if_pos (decide_eq_true hd)]
    exact Nat.lt_succ_self _
  have herase : (l.erase t).countP ((s.turn levels elapse soft t).due ·) ≤
      l.countP ((s.turn levels elapse soft t).due ·) := List.Sublist.countP_le List.erase_sublist
  refine lt_of_le_of_lt ?_ hlt
  unfold dueCount
  rcases bottom_turn hlist elapse hb with hl | ⟨hp, ha, hl | ⟨head, hl⟩⟩
  · rw [hl]
    exact hle
  · rw [hl]
    exact herase.trans hle
  · have hno : decide ((s.turn levels elapse soft t).due t) = false := decide_eq_false (hself hp ha)
    have hsame : (insertBehind head t (l.erase t)).countP ((s.turn levels elapse soft t).due ·) =
        (l.erase t).countP ((s.turn levels elapse soft t).due ·) := countP_insertBehind hno
    rw [hl, hsame]
    exact herase.trans hle

end TimerState

open TimerState

/-- The conditions on the times hold after a turn. -/
theorem times_turn (elapse : ℕ → Tick) (hlist : s.list = []) {l : List T} (hb : s.bottom levels soft = t :: l)
    (had : s.Admitted levels soft) (hno : s.NoZeroPeriod levels soft) :
    (s.turn levels elapse soft t).Admitted levels soft ∧
      (s.turn levels elapse soft t).NoZeroPeriod levels soft := by
  have hsub := bottom_turn_subset hlist elapse hb
  refine ⟨fun u hu => ?_, fun u hu hp => ?_⟩
  · rw [(turn_kind hlist u).1]
    exact had u (hsub hu)
  · rw [(turn_kind hlist u).2] at hp
    rw [(turn_kind hlist u).1]
    exact hno u (hsub hu) hp

/-- The loop ends if it ends after one turn. -/
theorem checkLoop_turn {l : List T} (hb : s.bottom levels soft = t :: l)
    (hturn : s.due t → ∃ n, (checkLoop levels (quietCall elapse) soft n
      (s.turn levels elapse soft t)).isSome = true) :
    ∃ n, (checkLoop levels (quietCall elapse) soft n s).isSome = true := by
  by_cases hd : s.due t
  · obtain ⟨n, hn⟩ := hturn hd
    refine ⟨n + 1, ?_⟩
    unfold checkLoop
    rw [hb]
    simp only [if_pos hd]
    exact hn
  · refine ⟨1, ?_⟩
    unfold checkLoop
    rw [hb]
    simp only [if_neg hd]
    rfl

/-- The loop ends on an empty list. -/
theorem checkLoop_nil (hb : s.bottom levels soft = []) :
    ∃ n, (checkLoop levels (quietCall elapse) soft n s).isSome = true := by
  refine ⟨1, ?_⟩
  unfold checkLoop
  rw [hb]
  rfl

/-- The loop ends when no more ticks pass. -/
theorem checkLoop_still {N : ℕ} (hstill : ∀ k, N ≤ k → elapse k = 0) (hN : N ≤ s.called.length)
    (hlist : s.list = []) (had : s.Admitted levels soft) (hno : s.NoZeroPeriod levels soft) :
    ∃ n, (checkLoop levels (quietCall elapse) soft n s).isSome = true := by
  induction hc : s.dueCount levels soft using Nat.strong_induction_on generalizing s with
  | _ c ih =>
    cases hb : s.bottom levels soft with
    | nil => exact checkLoop_nil hb
    | cons t l =>
      have hmem : t ∈ s.bottom levels soft := by
        rw [hb]
        exact List.mem_cons_self
      refine checkLoop_turn hb fun hd => ?_
      have hless := dueCount_turn hlist elapse hb hd (hstill _ hN) (had t hmem) (hno t hmem)
      obtain ⟨had', hno'⟩ := times_turn elapse hlist hb had hno
      refine ih _ (hc ▸ hless) ?_ (turn_list hlist) had' hno' rfl
      rw [turn_called hlist, List.length_append]
      exact Nat.le_add_right_of_le hN

/-- **The loop ends**, also when ticks pass during the first callbacks. -/
theorem checkLoop_ends {N : ℕ} (hstill : ∀ k, N ≤ k → elapse k = 0)
    (hlist : s.list = []) (had : s.Admitted levels soft) (hno : s.NoZeroPeriod levels soft) :
    ∃ n, (checkLoop levels (quietCall elapse) soft n s).isSome = true := by
  induction hk : N - s.called.length generalizing s with
  | zero => exact checkLoop_still hstill (Nat.le_of_sub_eq_zero hk) hlist had hno
  | succ k ih =>
    cases hb : s.bottom levels soft with
    | nil => exact checkLoop_nil hb
    | cons t l =>
      refine checkLoop_turn hb fun _ => ?_
      obtain ⟨had', hno'⟩ := times_turn elapse hlist hb had hno
      refine ih (turn_list hlist) had' hno' ?_
      rw [turn_called hlist, List.length_append, List.length_singleton]
      omega

/-- **The passes that end.** Whatever the list, both loops end when no periodic timer on it has a time of
zero; on a list in order they end exactly when no such timer is due. -/
theorem timer_processing (levels : ℕ) (soft : Bool) :
    (∀ (s : TimerState T) (elapse : ℕ → Tick) (N : ℕ), (∀ k, N ≤ k → elapse k = 0) →
      s.Admitted levels soft → s.NoZeroPeriod levels soft →
        ∃ n, (checkLoop levels (quietCall elapse) soft n { s with list := [] }).isSome = true) ∧
    ∀ (s : TimerState T) (base : Tick), TimerOrder levels soft base s →
      ((∃ n, (checkLoop levels (quietCall noTicks) soft n { s with list := [] }).isSome = true) ↔
        ∀ t ∈ s.dueTimers levels soft, (s.timer t).periodic = true → (s.timer t).initTick ≠ 0) := by
  refine ⟨fun s elapse N hstill had hno => checkLoop_ends hstill rfl had hno, fun s base h => ⟨?_, ?_⟩⟩
  · rintro ⟨n, hn⟩ t ht hp hzero
    obtain ⟨hmem, hd⟩ := mem_dueTimers.mp ht
    rw [h.emptyList.checkLoop_none rfl hmem hd hp hzero n] at hn
    cases hn
  · intro hno
    obtain ⟨s', hrun, -, -⟩ := h.emptyList.checkLoop rfl
      (fun t ht hd hp => hno t (mem_dueTimers.mpr ⟨ht, hd⟩) hp) (Nat.lt_succ_self _)
    exact ⟨_, by rw [hrun]; rfl⟩

theorem timer_processing_three :
    ∃ n, (checkLoop 2 (quietCall noTicks) false n { threeTimers with list := [] }).isSome = true :=
  ((timer_processing 2 false).2 threeTimers 0xffffffff threeTimers_order).mpr (by decide)

/-- No timers. -/
def noTimers : TimerState Unit where
  tick := 0
  timer _ := ⟨1, 0, false, false, false⟩
  rows _ _ := []
  list := []
  randomNr := 0
  softTimerBusy := false
  timerThreadSuspended := true
  called := []
  starts := 1
  startedAt _ := 0

/-- A periodic timer with a time of zero, which `rt_timer_init` admits: once started, its pass never ends. -/
theorem timer_processing_zero : ∃ s, noTimers.timerInit () 0 true false = some s ∧
    ∀ n, (s.timerStart 1 ()).timerCheck 1 (quietCall noTicks) n = none := by
  refine ⟨noTimers.setTimer () fun _ => ⟨0, 0, true, false, false⟩, rfl, fun n => ?_⟩
  obtain ⟨s, hs⟩ : ∃ s, s = noTimers.setTimer () fun _ => ⟨0, 0, true, false, false⟩ := ⟨_, rfl⟩
  have hempty : TimerOrder 1 false s.tick s :=
    timerOrder_empty Nat.one_pos (fun _ => hs ▸ rfl) fun _ => hs ▸ Nat.one_pos
  subst hs
  have hord := hempty.timerStart (t := ()) rfl (by decide) fun u hu => absurd hu List.not_mem_nil
  exact hord.emptyList.checkLoop_none (t := ()) rfl (by decide) (by decide) rfl rfl n

end RtThread
