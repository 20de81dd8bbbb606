import RtThread.Lib.System
import RtThread.Timer.Order

/-!
# Expiry of timers

One turn of the loop of `rt_timer_check` takes the first timer off, calls it and starts it again if it is
periodic, now `init_tick` ahead of the present tick. A timer started again with `init_tick ≠ 0` is not due,
so each turn leaves one due timer less; one with `init_tick = 0` stays due for ever.

* `TimerState.turn`, `turn_eq`: one turn;
* `TimerOrder.turn_oneShot`, `TimerOrder.turn_periodic`: what it does to the list;
* `TimerOrder.checkLoop`, `TimerOrder.checkLoop_none`: a pass ends, or does not;
* **`timer_expiry_pass`**: a pass calls the due timers once each, in order, and no other.
-/

set_option linter.unusedSectionVars false

namespace RtThread

variable {T : Type} [DecidableEq T] {levels : ℕ} {s : TimerState T} {soft : Bool} {base : Tick}
  {elapse : ℕ → Tick} {t u : T}

namespace TimerState

/-- One turn of the loop, with a callback that touches no timer. -/
def turn (levels : ℕ) (elapse : ℕ → Tick) (soft : Bool) (s : TimerState T) (t : T) : TimerState T :=
  (s.timerExpire (quietCall elapse) soft t).timerRearm levels t

/-- The state in which a timer has been called and is on no list. -/
def afterCall (elapse : ℕ → Tick) (soft : Bool) (s : TimerState T) (t : T) : TimerState T :=
  { s with
    tick := s.tick + elapse s.called.length
    timer := if (s.timer t).periodic then s.timer
      else Function.update s.timer t { s.timer t with activated := false }
    rows := fun soft l => (s.rows soft l).erase t
    list := []
    softTimerBusy := !soft && (soft || s.softTimerBusy)
    called := s.called ++ [t] }

theorem timerExpire_eq (hlist : s.list = []) : s.timerExpire (quietCall elapse) soft t =
    { s.afterCall elapse soft t with list := [t] } := by
  unfold timerExpire quietCall timerRemove setTimer afterCall
  by_cases hp : (s.timer t).periodic = true
  · simp only [if_pos hp, hlist, List.erase_nil]
  · simp only [if_neg hp, hlist, List.erase_nil]

theorem afterCall_periodic (hp : (s.timer t).periodic = true) :
    (s.afterCall elapse soft t).timer = s.timer := if_pos hp

theorem afterCall_oneShot (hp : (s.timer t).periodic = false) : (s.afterCall elapse soft t).timer =
    Function.update s.timer t { s.timer t with activated := false } :=
  if_neg (by rw [hp]; exact Bool.false_ne_true)

/-- **One turn**: the call, and the start of a periodic timer. -/
theorem turn_eq (hlist : s.list = []) : s.turn levels elapse soft t =
    if (s.timer t).periodic = true ∧ (s.timer t).activated = true then
      ((s.afterCall elapse soft t).setTimer t fun x => { x with activated := false }).timerStart levels t
    else s.afterCall elapse soft t := by
  have hback : { s.afterCall elapse soft t with list := [t].erase t } = s.afterCall elapse soft t := by
    rw [List.erase_cons_head]
    rfl
  unfold turn
  rw [timerExpire_eq hlist]
  unfold timerRearm
  rw [if_neg (List.cons_ne_nil _ _)]
  show (if ((s.afterCall elapse soft t).timer t).periodic = true ∧
      ((s.afterCall elapse soft t).timer t).activated = true then
    (({ s.afterCall elapse soft t with list := [t].erase t } : TimerState T).setTimer t
      fun x => { x with activated := false }).timerStart levels t
    else ({ s.afterCall elapse soft t with list := [t].erase t } : TimerState T)) = _
  rw [hback]
  cases hp : (s.timer t).periodic with
  | true => rw [afterCall_periodic hp, hp]
  | false =>
    have hno : ¬(false = true ∧ (s.timer t).activated = true) := fun hq => Bool.false_ne_true hq.1
    rw [afterCall_oneShot hp, Function.update_self, if_neg hno]
    exact if_neg fun hq => Bool.false_ne_true hq.2

/-- The local list is empty again. -/
theorem turn_list (hlist : s.list = []) : (s.turn levels elapse soft t).list = [] := by
  rw [turn_eq hlist]
  split_ifs <;> rfl

theorem turn_called (hlist : s.list = []) : (s.turn levels elapse soft t).called = s.called ++ [t] := by
  rw [turn_eq hlist]
  split_ifs <;> rfl

theorem turn_tick (hlist : s.list = []) :
    (s.turn levels elapse soft t).tick = s.tick + elapse s.called.length := by
  rw [turn_eq hlist]
  split_ifs <;> rfl

/-- The timers other than the one that is called stay as they are. -/
theorem turn_of_ne (hlist : s.list = []) (hu : u ≠ t) :
    (s.turn levels elapse soft t).timer u = s.timer u := by
  have hcall : (s.afterCall elapse soft t).timer u = s.timer u := by
    show (if (s.timer t).periodic then s.timer else Function.update s.timer t _) u = _
    split_ifs
    · rfl
    · exact Function.update_of_ne hu ..
  rw [turn_eq hlist]
  split_ifs
  · rw [timerStart_of_ne hu]
    exact (Function.update_of_ne hu ..).trans hcall
  · exact hcall

theorem turn_oneShot (hlist : s.list = []) (hp : (s.timer t).periodic = false) :
    s.turn levels elapse soft t = s.afterCall elapse soft t := by
  rw [turn_eq hlist, hp]
  exact if_neg fun hq => Bool.false_ne_true hq.1

theorem turn_periodic (hlist : s.list = []) (hp : (s.timer t).periodic = true)
    (ha : (s.timer t).activated = true) : s.turn levels elapse soft t =
      ((s.afterCall elapse soft t).setTimer t fun x => { x with activated := false }).timerStart levels t := by
  rw [turn_eq hlist]
  exact if_pos ⟨hp, ha⟩

/-- A timer that is called and started again. -/
theorem turn_periodic_timer (hlist : s.list = []) (hp : (s.timer t).periodic = true)
    (ha : (s.timer t).activated = true) : (s.turn levels elapse soft t).timer t =
      { s.timer t with timeoutTick := s.tick + elapse s.called.length + (s.timer t).initTick } := by
  rw [turn_periodic hlist hp ha, timerStart_self]
  unfold setTimer
  simp only [Function.update_self, afterCall_periodic hp, ha]
  rfl

/-- The timers of a list that are due, in its order. -/
def dueTimers (levels : ℕ) (soft : Bool) (s : TimerState T) : List T :=
  (s.bottom levels soft).filter (s.due ·)

theorem mem_dueTimers : t ∈ s.dueTimers levels soft ↔ t ∈ s.bottom levels soft ∧ s.due t := by
  unfold dueTimers
  rw [List.mem_filter, decide_eq_true_eq]

end TimerState

open TimerState

/-- Ticks do not pass during the calls. -/
abbrev noTicks : ℕ → Tick := fun _ => 0

theorem turn_noTicks (hlist : s.list = []) : (s.turn levels noTicks soft t).tick = s.tick := by
  rw [turn_tick hlist]
  exact BitVec.add_zero _

namespace TimerOrder

variable (h : TimerOrder levels soft base s) (hlist : s.list = []) {l : List T}
  (hb : s.bottom levels soft = t :: l)
include h hb

theorem head_mem : t ∈ s.bottom levels soft := by
  rw [hb]
  exact List.mem_cons_self

theorem not_mem_tail : t ∉ l := by
  have hnd := h.rows.nodup
  rw [show s.rows soft (levels - 1) = t :: l from hb] at hnd
  exact (List.nodup_cons.mp hnd).1

theorem bottom_afterCall : (s.afterCall noTicks soft t).bottom levels soft = l := by
  show (s.bottom levels soft).erase t = l
  rw [hb, List.erase_cons_head]

/-- The order after the call, whatever becomes of the timer itself. -/
theorem call {s' : TimerState T} (htick : s'.tick = s.tick)
    (hrows : s'.rows = (s.afterCall noTicks soft t).rows) (htimer : ∀ u ≠ t, s'.timer u = s.timer u)
    (hstamp : s'.startedAt = s.startedAt) (hstarts : s'.starts = s.starts) :
    TimerOrder levels soft base s' := by
  refine (h.timerRemove t).congr htick (congrFun hrows soft) (fun u hu => htimer u ?_) hstamp hstarts
  rintro rfl
  have hmem : u ∈ l := h.bottom_afterCall hb ▸ hu
  exact h.not_mem_tail hb hmem

include hlist

/-- **The call of a one-shot timer.** -/
theorem turn_oneShot (hp : (s.timer t).periodic = false) :
    (s.turn levels noTicks soft t).bottom levels soft = l ∧
      TimerOrder levels soft base (s.turn levels noTicks soft t) := by
  rw [TimerState.turn_oneShot hlist hp]
  refine ⟨h.bottom_afterCall hb, h.call hb (BitVec.add_zero _) rfl (fun u hu => ?_) rfl rfl⟩
  rw [afterCall_oneShot hp]
  exact Function.update_of_ne hu ..

/-- **The call of a periodic timer**: it goes to its new place. -/
theorem turn_periodic (hp : (s.timer t).periodic = true) :
    (∃ l₁ l₂, l = l₁ ++ l₂ ∧ (s.turn levels noTicks soft t).bottom levels soft = l₁ ++ t :: l₂) ∧
      TimerOrder levels soft base (s.turn levels noTicks soft t) := by
  obtain ⟨ha, hsoft⟩ := h.activated t (h.head_mem hb)
  rw [TimerState.turn_periodic hlist hp ha]
  obtain ⟨s', hs'⟩ : ∃ s', s' = (s.afterCall noTicks soft t).setTimer t fun x =>
    { x with activated := false } := ⟨_, rfl⟩
  have hself : s'.timer t = { s.timer t with activated := false } := by
    rw [hs']
    unfold setTimer
    simp only [Function.update_self, afterCall_periodic hp]
  have hother : ∀ u ≠ t, s'.timer u = s.timer u := by
    intro u hu
    rw [hs']
    refine (Function.update_of_ne hu ..).trans ?_
    rw [afterCall_periodic hp]
  have htick : s'.tick = s.tick := hs' ▸ BitVec.add_zero _
  have hbot : s'.bottom levels soft = l := hs' ▸ h.bottom_afterCall hb
  have hord : TimerOrder levels soft base s' :=
    h.call hb htick (by rw [hs']; rfl) hother (by rw [hs']; rfl) (by rw [hs']; rfl)
  have hmem : ∀ u ∈ l, u ∈ s.bottom levels soft := by
    intro u hu
    rw [hb]
    exact List.mem_cons_of_mem t hu
  have hinit : (s'.timer t).initTick = (s.timer t).initTick := by rw [hself]
  have hperiod : (s'.timer t).initTick.toNat < halfRange 32 := by
    rw [hinit]
    exact h.period t (h.head_mem hb)
  have hspan : ∀ u ∈ s'.bottom levels soft, u ≠ t →
      s'.elapsed base + (s'.timer t).initTick.toNat + halfRange 32 ≤ s'.away base u + 2 ^ 32 := by
    intro u hu hut
    rw [hbot] at hu
    unfold elapsed away
    rw [htick, hinit, hother u hut]
    exact h.span u (hmem u hu) t (h.head_mem hb)
  have hsoft' : (s'.timer t).soft = soft := by
    rw [hself]
    exact hsoft
  rw [← hs']
  obtain ⟨l₁, l₂, hl, hnew, -, -, -⟩ := hord.bottom_timerStart hsoft' hperiod hspan
  refine ⟨⟨l₁, l₂, ?_, hnew⟩, hord.timerStart hsoft' hperiod hspan⟩
  rw [← hl, hbot]
  exact (List.erase_of_not_mem (h.not_mem_tail hb)).symm

end TimerOrder

/-! ## A whole pass -/

/-- A timer started at the present tick is due only if its time is zero. -/
theorem restarted_due_iff {now i : Tick} (hi : i < halfTickMax) : now - (now + i) < halfTickMax ↔ i = 0 := by
  rw [BitVec.lt_def, halfTickMax_toNat, halfRange_eq] at *
  have hsub : (now - (now + i)).toNat = if i = 0 then 0 else 2 ^ 32 - i.toNat := by
    rw [sub_add_cancel_left, BitVec.toNat_neg]
    split_ifs with h0
    · rw [h0]
      rfl
    · have hpos : i.toNat ≠ 0 := fun h => h0 (BitVec.eq_of_toNat_eq h)
      exact Nat.mod_eq_of_lt (by omega)
  rw [hsub]
  split_ifs with h0
  · exact iff_of_true (by omega) h0
  · exact iff_of_false (by omega) h0

/-- **What one turn does.** -/
structure Turned (levels : ℕ) (soft : Bool) (s : TimerState T) (t : T) (s' : TimerState T) : Prop where
  list : s'.list = []
  tick : s'.tick = s.tick
  called : s'.called = s.called ++ [t]
  other : ∀ u ≠ t, s'.timer u = s.timer u
  rest : s.bottom levels soft = t :: (s'.bottom levels soft).erase t
  nodup : (s'.bottom levels soft).Nodup
  periodic : (s.timer t).periodic = true → t ∈ s'.bottom levels soft ∧
    s'.timer t = { s.timer t with timeoutTick := s.tick + (s.timer t).initTick }
  oneShot : (s.timer t).periodic = false → t ∉ s'.bottom levels soft ∧
    s'.timer t = { s.timer t with activated := false }

theorem TimerOrder.turned (h : TimerOrder levels soft base s) (hlist : s.list = []) {l : List T}
    (hb : s.bottom levels soft = t :: l) : Turned levels soft s t (s.turn levels noTicks soft t) ∧
      TimerOrder levels soft base (s.turn levels noTicks soft t) := by
  have hord : TimerOrder levels soft base (s.turn levels noTicks soft t) := by
    cases hp : (s.timer t).periodic with
    | true => exact (h.turn_periodic hlist hb hp).2
    | false => exact (h.turn_oneShot hlist hb hp).2
  have hno : t ∉ l := h.not_mem_tail hb
  refine ⟨⟨turn_list hlist, turn_noTicks hlist, turn_called hlist, fun u hu => turn_of_ne hlist hu, ?_,
    hord.rows.nodup, fun hp => ⟨?_, ?_⟩, fun hp => ⟨?_, ?_⟩⟩, hord⟩
  · cases hp : (s.timer t).periodic with
    | true =>
      obtain ⟨l₁, l₂, rfl, hnew⟩ := (h.turn_periodic hlist hb hp).1
      have hl₁ : t ∉ l₁ := fun hm => hno (List.mem_append_left _ hm)
      rw [hb, hnew, List.erase_append_right _ hl₁, List.erase_cons_head]
    | false => rw [hb, (h.turn_oneShot hlist hb hp).1, List.erase_of_not_mem hno]
  · obtain ⟨l₁, l₂, -, hnew⟩ := (h.turn_periodic hlist hb hp).1
    rw [hnew]
    exact List.mem_append_right _ List.mem_cons_self
  · rw [turn_periodic_timer hlist hp (h.activated t (h.head_mem hb)).1]
    exact congrArg (fun now : Tick => { s.timer t with timeoutTick := now + (s.timer t).initTick })
      (BitVec.add_zero _)
  · rw [(h.turn_oneShot hlist hb hp).1]
    exact hno
  · rw [TimerState.turn_oneShot hlist hp, afterCall_oneShot hp]
    exact Function.update_self ..

namespace Turned

variable {s' : TimerState T} (h : Turned levels soft s t s')
include h

theorem mem_iff (hu : u ≠ t) : u ∈ s'.bottom levels soft ↔ u ∈ s.bottom levels soft := by
  rw [h.rest, List.mem_cons, or_iff_right hu, List.mem_erase_of_ne hu]

theorem due_of_ne (hu : u ≠ t) : s'.due u ↔ s.due u := by
  unfold due
  rw [h.tick, h.other u hu]

/-- A timer that is started again is due only if its time is zero. -/
theorem due_self (hp : (s.timer t).periodic = true) (hinit : (s.timer t).initTick < halfTickMax) :
    s'.due t ↔ (s.timer t).initTick = 0 := by
  unfold due
  rw [h.tick, (h.periodic hp).2]
  exact restarted_due_iff hinit

/-- A turn that does not leave its timer due leaves one due timer less. -/
theorem dueTimers_eq (hd : s.due t) (hno : t ∉ s'.dueTimers levels soft) :
    s.dueTimers levels soft = t :: s'.dueTimers levels soft := by
  have hsame : ((s'.bottom levels soft).erase t).filter (s.due ·) =
      ((s'.bottom levels soft).erase t).filter (s'.due ·) :=
    List.filter_congr fun u hu => decide_eq_decide.mpr (h.due_of_ne (h.nodup.mem_erase_iff.mp hu).1).symm
  unfold dueTimers at *
  rw [h.rest, List.filter_cons, if_pos (decide_eq_true hd), hsame, ← List.erase_filter,
    List.erase_of_not_mem hno]

end Turned

/-- **What a pass does**: the callbacks, the timers started again, the timers stopped. -/
structure Passed (levels : ℕ) (soft : Bool) (s s' : TimerState T) : Prop where
  tick : s'.tick = s.tick
  called : s'.called = s.called ++ s.dueTimers levels soft
  noneDue : ∀ t ∈ s'.bottom levels soft, ¬s'.due t
  periodic : ∀ t ∈ s.bottom levels soft, s.due t → (s.timer t).periodic = true →
    t ∈ s'.bottom levels soft ∧
      s'.timer t = { s.timer t with timeoutTick := s.tick + (s.timer t).initTick }
  oneShot : ∀ t ∈ s.bottom levels soft, s.due t → (s.timer t).periodic = false →
    t ∉ s'.bottom levels soft ∧ s'.timer t = { s.timer t with activated := false }
  other : ∀ t, ¬(t ∈ s.bottom levels soft ∧ s.due t) →
    s'.timer t = s.timer t ∧ (t ∈ s'.bottom levels soft ↔ t ∈ s.bottom levels soft)

theorem Passed.none (h : ∀ t ∈ s.bottom levels soft, ¬s.due t) : Passed levels soft s s := by
  refine ⟨rfl, ?_, h, fun t ht hd => absurd hd (h t ht), fun t ht hd => absurd hd (h t ht),
    fun t _ => ⟨rfl, Iff.rfl⟩⟩
  unfold dueTimers
  rw [List.filter_eq_nil_iff.mpr fun t ht hd => h t ht (of_decide_eq_true hd), List.append_nil]

/-- **A turn and the rest of the pass.** -/
theorem Turned.passed {s₁ s' : TimerState T} (h : Turned levels soft s t s₁) (hdue : s.due t)
    (hno : t ∉ s₁.dueTimers levels soft) (h' : Passed levels soft s₁ s') :
    Passed levels soft s s' := by
  have hmem : t ∈ s.bottom levels soft := by
    rw [h.rest]
    exact List.mem_cons_self
  have hself := h'.other t fun hq => hno (mem_dueTimers.mpr hq)
  refine ⟨h'.tick.trans h.tick, ?_, h'.noneDue, fun u hu hd hp => ?_, fun u hu hd hp => ?_,
    fun u hu => ?_⟩
  · rw [h'.called, h.called, h.dueTimers_eq hdue hno, List.append_assoc]
    rfl
  · by_cases hut : u = t
    · subst hut
      rw [hself.1, hself.2]
      exact h.periodic hp
    · have hper := h'.periodic u ((h.mem_iff hut).mpr hu) ((h.due_of_ne hut).mpr hd)
      rw [h.other u hut, h.tick] at hper
      exact hper hp
  · by_cases hut : u = t
    · subst hut
      rw [hself.1, hself.2]
      exact h.oneShot hp
    · have hone := h'.oneShot u ((h.mem_iff hut).mpr hu) ((h.due_of_ne hut).mpr hd)
      rw [h.other u hut] at hone
      exact hone hp
  · have hut : u ≠ t := by
      rintro rfl
      exact hu ⟨hmem, hdue⟩
    have hoth := h'.other u fun hq => hu ⟨(h.mem_iff hut).mp hq.1, (h.due_of_ne hut).mp hq.2⟩
    rw [h.other u hut, h.mem_iff hut] at hoth
    exact hoth

/-- **The loop**, when no due timer has a period of zero. -/
theorem TimerOrder.checkLoop (h : TimerOrder levels soft base s) (hlist : s.list = [])
    (hinit : ∀ t ∈ s.bottom levels soft, s.due t → (s.timer t).periodic = true → (s.timer t).initTick ≠ 0)
    {n : ℕ} (hn : (s.dueTimers levels soft).length < n) :
    ∃ s', checkLoop levels (quietCall noTicks) soft n s = some s' ∧ Passed levels soft s s' ∧
      TimerOrder levels soft base s' := by
  induction n generalizing s with
  | zero => exact absurd hn (Nat.not_lt_zero _)
  | succ n ih =>
    unfold TimerState.checkLoop
    cases hb : s.bottom levels soft with
    | nil =>
      refine ⟨s, rfl, Passed.none fun t ht => ?_, h⟩
      rw [hb] at ht
      cases ht
    | cons t l =>
      by_cases hd : s.due t
      · obtain ⟨hturn, hord⟩ := h.turned hlist hb
        have hmem := h.head_mem hb
        have hperiod : (s.timer t).initTick < halfTickMax := h.period t hmem
        have hno : t ∉ (s.turn levels noTicks soft t).dueTimers levels soft := by
          rw [mem_dueTimers]
          cases hp : (s.timer t).periodic with
          | true => exact fun hq => hinit t hmem hd hp ((hturn.due_self hp hperiod).mp hq.2)
          | false => exact fun hq => (hturn.oneShot hp).1 hq.1
        have hinit' : ∀ u ∈ (s.turn levels noTicks soft t).bottom levels soft,
            (s.turn levels noTicks soft t).due u →
            ((s.turn levels noTicks soft t).timer u).periodic = true →
            ((s.turn levels noTicks soft t).timer u).initTick ≠ 0 := by
          intro u hu hdu hp
          have hut : u ≠ t := by
            rintro rfl
            exact hno (mem_dueTimers.mpr ⟨hu, hdu⟩)
          rw [hturn.other u hut] at hp ⊢
          exact hinit u ((hturn.mem_iff hut).mp hu) ((hturn.due_of_ne hut).mp hdu) hp
        rw [hturn.dueTimers_eq hd hno] at hn
        obtain ⟨s', hrun, hpass, hord'⟩ := ih hord hturn.list hinit' (Nat.lt_of_succ_lt_succ hn)
        refine ⟨s', ?_, hturn.passed hd hno hpass, hord'⟩
        simp only [if_pos hd]
        exact hrun
      · refine ⟨s, ?_, Passed.none (h.due_first hb hd), h⟩
        simp only [if_neg hd]

/-- **The loop does not end** while a periodic timer with time zero is due. -/
theorem TimerOrder.checkLoop_none (h : TimerOrder levels soft base s) (hlist : s.list = [])
    (ht : t ∈ s.bottom levels soft) (hd : s.due t) (hp : (s.timer t).periodic = true)
    (hzero : (s.timer t).initTick = 0) (n : ℕ) :
    TimerState.checkLoop levels (quietCall noTicks) soft n s = none := by
  induction n generalizing s with
  | zero => rfl
  | succ n ih =>
    unfold TimerState.checkLoop
    cases hb : s.bottom levels soft with
    | nil =>
      rw [hb] at ht
      cases ht
    | cons u l =>
      have hdu : s.due u := by
        by_contra hdu
        exact h.due_first hb hdu t ht hd
      obtain ⟨hturn, hord⟩ := h.turned hlist hb
      simp only [if_pos hdu]
      by_cases hut : t = u
      · subst hut
        have hper := hturn.periodic hp
        have hkeep : (s.turn levels noTicks soft t).timer t = { s.timer t with
          timeoutTick := s.tick + (s.timer t).initTick } := hper.2
        show TimerState.checkLoop levels (quietCall noTicks) soft n (s.turn levels noTicks soft t) = none
        refine ih hord hturn.list hper.1 ((hturn.due_self hp (h.period t ht)).mpr hzero) ?_ ?_
        · rw [hkeep]
          exact hp
        · rw [hkeep]
          exact hzero
      · show TimerState.checkLoop levels (quietCall noTicks) soft n (s.turn levels noTicks soft u) = none
        refine ih hord hturn.list ((hturn.mem_iff hut).mpr ht) ((hturn.due_of_ne hut).mpr hd) ?_ ?_
        · rw [hturn.other t hut]
          exact hp
        · rw [hturn.other t hut]
          exact hzero

/-- The local list of a pass is empty at first. -/
theorem TimerOrder.emptyList (h : TimerOrder levels soft base s) :
    TimerOrder levels soft base { s with list := [] } :=
  h.congr rfl rfl (fun _ _ => rfl) rfl rfl

/-- **An expiry pass** of `rt_timer_check` calls the due timers, each once, in the order of time-out and of
start, and no other; it leaves no due timer on the list, arms the periodic ones again and stops the others. -/
theorem timer_expiry_pass (h : TimerOrder levels false base s)
    (hinit : ∀ t ∈ s.bottom levels false, (s.timer t).initTick ≠ 0) {n : ℕ}
    (hn : (s.dueTimers levels false).length < n) :
    (s.dueTimers levels false).Nodup ∧ (s.dueTimers levels false).Pairwise (s.Before base) ∧
      ∃ s', s.timerCheck levels (quietCall noTicks) n = some s' ∧ Passed levels false s s' ∧
        TimerOrder levels false base s' := by
  refine ⟨h.rows.nodup.filter _, h.sorted.filter _, ?_⟩
  obtain ⟨s', hrun, hpass, hord⟩ := h.emptyList.checkLoop rfl (fun t ht _ _ => hinit t ht) hn
  exact ⟨s', hrun, ⟨hpass.tick, hpass.called, hpass.noneDue, hpass.periodic, hpass.oneShot, hpass.other⟩,
    hord⟩

/-- Three timers round the wrap of the tick: a periodic and a one-shot one that are due, and one that is not. -/
def threeTimers : TimerState (Fin 3) where
  tick := 0
  timer t := match t with
    | 0 => ⟨5, 0xffffffff, true, true, false⟩
    | 1 => ⟨9, 0, false, true, false⟩
    | 2 => ⟨7, 3, true, true, false⟩
  rows soft l := if soft then [] else if l = 0 then [1] else [0, 1, 2]
  list := []
  randomNr := 0
  softTimerBusy := false
  timerThreadSuspended := true
  called := []
  starts := 3
  startedAt t := t

theorem threeTimers_order : TimerOrder 2 false 0xffffffff threeTimers where
  someRow := Nat.two_pos
  rows := {
    sub := fun l hl => by
      obtain rfl : l = 0 := by omega
      exact of_decide_eq_true rfl
    nodup := by decide }
  sorted := by decide
  activated := by decide
  started := by decide
  late := by decide
  period := by decide
  near := by decide
  span := by decide

theorem timer_expiry_pass_wrap : ∃ s', threeTimers.timerCheck 2 (quietCall noTicks) 3 = some s' ∧
    s'.called = [0, 1] ∧ s'.timer 0 = ⟨5, 5, true, true, false⟩ ∧ (s'.timer 1).activated = false := by
  obtain ⟨-, -, s', hrun, hpass, -⟩ := timer_expiry_pass (n := 3) threeTimers_order (by decide) (by decide)
  refine ⟨s', hrun, hpass.called.trans (by decide), ?_, ?_⟩
  · rw [(hpass.periodic 0 (by decide) (by decide) rfl).2]
    decide
  · rw [(hpass.oneShot 1 (by decide) (by decide) rfl).2]

end RtThread
