import RtThread.Timer.Calls

/-!
# The timer lists in order

`rt_timer_check` runs at every tick, so that no timer of its list is late by more than a tick; the
list stays sorted by the time that remains, across the wrap of the tick. The same holds of the soft
list as long as `rt_soft_timer_check` comes to its end between two ticks.

* `ListInOrder`: a list is in order, as seen from the present tick;
* `OrderInv`: in order from a tick that is at most one back; `OrderInv.step`;
* **`timer_order`**: the list of hard timers in all runs, that of soft timers in the runs that meet
  `softChecked`.
-/

set_option linter.unusedSectionVars false

namespace RtThread

section

variable {T : Type} [DecidableEq T] {levels : ℕ} {s s' : TimerState T} {c c' : TimerCalls T}
  {t u : T} {soft b : Bool} {base : Tick} {a : TimerLabel T}

/-- **A list in order**: the rows are those of a skip list, timers stand in the order of their
remaining times and, where these are equal, of their starts, and every remaining time is below half
the range of ticks. -/
structure ListInOrder (levels : ℕ) (soft : Bool) (s : TimerState T) : Prop where
  rows : SkipRows levels (s.rows soft)
  sorted : (s.bottom levels soft).Pairwise (s.Before s.tick)
  near : ∀ t ∈ s.bottom levels soft, (s.timer t).timeoutTick - s.tick < halfTickMax

/-- A tick. -/
def TimerLabel.isTick : TimerLabel T → Bool
  | .tick => true
  | _ => false

theorem TimerLabel.eq_tick (h : a.isTick = true) : a = .tick := by
  cases a
  case tick => rfl
  all_goals exact Bool.noConfusion h

/-- **The condition** for the list of soft timers: its check has ended before the next tick. -/
def softChecked (s : TimerCalls T) : TimerLabel T → Bool
  | .tick => !s.checking true
  | _ => true

/-! ## Near the base -/

namespace TimerOrder

variable (h : TimerOrder levels b base s)
include h

/-- A base that is at most a tick back leaves room for every start. -/
theorem room (hnear : s.elapsed base ≤ 1) {n : ℕ} (hn : n < halfRange 32) (u : T) :
    s.elapsed base + n + halfRange 32 ≤ s.away base u + 2 ^ 32 := by
  rw [halfRange_eq] at hn ⊢
  omega

/-- Timers are written, those of the list with the same `timeout_tick`. -/
theorem write (hnear : s.elapsed base ≤ 1) (htick : s'.tick = s.tick)
    (hrows : s'.rows b = s.rows b)
    (htimer : ∀ u ∈ s.bottom levels b, (s'.timer u).timeoutTick = (s.timer u).timeoutTick ∧
      (s'.timer u).activated = (s.timer u).activated ∧ (s'.timer u).soft = (s.timer u).soft ∧
      (s'.timer u).initTick.toNat < halfRange 32 ∧ s'.startedAt u = s.startedAt u)
    (hstarted : ∀ u, s'.startedAt u < s'.starts) : TimerOrder levels b base s' := by
  have hbot : s'.bottom levels b = s.bottom levels b := congrFun hrows _
  have haway : ∀ u ∈ s.bottom levels b, s'.away base u = s.away base u := fun u hu => by
    unfold TimerState.away
    rw [(htimer u hu).1]
  have helapsed : s'.elapsed base = s.elapsed base := by
    unfold TimerState.elapsed
    rw [htick]
  refine ⟨h.someRow, hrows ▸ h.rows, ?_, fun u hu => ?_, hstarted, helapsed ▸ h.late,
    fun u hu => ?_, fun u hu => ?_, fun u hu v hv => ?_⟩
  · rw [hbot]
    refine h.sorted.imp_of_mem fun {u v} hu hv huv => ?_
    unfold TimerState.Before
    rw [haway u hu, haway v hv, (htimer u hu).2.2.2.2, (htimer v hv).2.2.2.2]
    exact huv
  · rw [hbot] at hu
    rw [(htimer u hu).2.1, (htimer u hu).2.2.1]
    exact h.activated u hu
  · rw [hbot] at hu
    exact (htimer u hu).2.2.2.1
  · rw [hbot] at hu
    rw [haway u hu, helapsed]
    exact h.near u hu
  · rw [hbot] at hu hv
    rw [haway u hu, helapsed]
    exact h.room hnear (htimer v hv).2.2.2.1 u

/-- A timer of the other list is started. -/
theorem startOther (hnear : s.elapsed base ≤ 1) (ht : (s.timer t).soft ≠ b) :
    TimerOrder levels b base (s.timerStart levels t) := by
  have hnot : t ∉ s.bottom levels b := fun hm => ht (h.activated t hm).2
  have hne : ∀ u ∈ s.bottom levels b, u ≠ t := fun u hu heq => hnot (heq ▸ hu)
  have hstamp : ∀ u, (s.timerStart levels t).startedAt u =
      if u = t then s.starts else s.startedAt u := by
    intro u
    show Function.update s.startedAt t s.starts u = _
    rw [Function.update_apply]
  refine (h.timerRemove t).write hnear rfl
    (funext fun l => TimerState.timerStart_otherRows ht) (fun u hu => ?_) fun u => ?_
  · have hu' : u ∈ s.bottom levels b := List.mem_of_mem_erase hu
    rw [TimerState.timerStart_of_ne (hne u hu'), hstamp, if_neg (hne u hu')]
    exact ⟨rfl, rfl, rfl, h.period u hu', rfl⟩
  · rw [hstamp]
    show _ < s.starts + 1
    split_ifs
    · exact Nat.lt_succ_self _
    · exact Nat.lt_succ_of_lt (h.started u)

/-- **A start** of any timer. -/
theorem startAny (hnear : s.elapsed base ≤ 1) (hinit : (s.timer t).initTick.toNat < halfRange 32) :
    TimerOrder levels b base (s.timerStart levels t) := by
  by_cases ht : (s.timer t).soft = b
  · exact h.timerStart ht hinit fun u _ _ => h.room hnear hinit u
  · exact h.startOther hnear ht

/-- **The present tick as the base**, when no timer is late. -/
theorem rebase (hlate : ∀ t ∈ s.bottom levels b, ¬ s.due t) : TimerOrder levels b s.tick s := by
  have haway : ∀ t ∈ s.bottom levels b, s.away s.tick t = s.away base t - s.elapsed base ∧
      s.elapsed base < s.away base t := by
    intro t ht
    have hlt : s.elapsed base < s.away base t := by
      have hd := hlate t ht
      rw [h.due_iff ht] at hd
      omega
    exact ⟨offset_rebase (Nat.le_of_lt hlt), hlt⟩
  refine timerOrder_of_remaining h.someRow h.rows ?_ h.activated h.started (fun t ht => ?_)
    fun t ht => ?_
  · refine h.sorted.imp_of_mem fun {t u} ht hu htu => ?_
    unfold TimerState.Before at htu ⊢
    obtain ⟨h1, h2⟩ := haway t ht
    obtain ⟨h3, h4⟩ := haway u hu
    rw [h1, h3]
    rcases htu with hlt | ⟨heq, hst⟩
    · left
      omega
    · right
      exact ⟨by omega, hst⟩
  · exact h.period t ht
  · obtain ⟨h1, h2⟩ := haway t ht
    have hnear := h.near t ht
    rw [BitVec.lt_def, halfTickMax_toNat]
    change s.away s.tick t < halfRange 32
    omega

/-- **The tick.** -/
theorem tick (hbase : base = s.tick) :
    TimerOrder levels b base { s with tick := s.tick + 1 } ∧
      ({ s with tick := s.tick + 1 } : TimerState T).elapsed base = 1 := by
  have hel : ({ s with tick := s.tick + 1 } : TimerState T).elapsed base = 1 := by
    rw [hbase]
    change offset s.tick (s.tick + 1) = 1
    rw [offset_add (by rw [offset_self]; decide), offset_self]
    rfl
  have hzero : s.elapsed base = 0 := by
    rw [hbase]
    exact offset_self
  refine ⟨⟨h.someRow, h.rows, h.sorted, h.activated, h.started, ?_, h.period, fun t ht => ?_,
    fun t ht u hu => ?_⟩, hel⟩
  · rw [hel, halfRange_eq]
    decide
  · have hnear := h.near t ht
    rw [hzero] at hnear
    rw [hel]
    change s.away base t < _
    omega
  · have hp : (s.timer u).initTick.toNat < halfRange 32 := h.period u hu
    rw [hel]
    change 1 + (s.timer u).initTick.toNat + halfRange 32 ≤ s.away base t + 2 ^ 32
    rw [halfRange_eq] at hp ⊢
    omega

end TimerOrder

/-- Only the timer itself comes onto a list by a start. -/
theorem bottom_timerStart_subset :
    (s.timerStart levels t).bottom levels b ⊆ t :: s.bottom levels b := by
  intro u hu
  by_cases ht : (s.timer t).soft = b
  · obtain ⟨top, htop, pass, -, hrows⟩ := TimerState.timerStart_rows levels ht
    unfold TimerState.bottom at hu
    rw [hrows] at hu
    simp only [if_pos htop] at hu
    rcases List.mem_cons.mp (insertBehind_subset hu) with rfl | hu
    · exact List.mem_cons_self
    · exact List.mem_cons_of_mem _ (List.mem_of_mem_erase hu)
  · unfold TimerState.bottom at hu
    rw [TimerState.timerStart_otherRows ht] at hu
    exact List.mem_cons_of_mem _ (List.mem_of_mem_erase hu)

/-! ## The invariant -/

open TimerCalls

/-- **The order invariant**: the list is in order from a base at most a tick back, which is the
present tick when its check has ended; every time is below half the range. -/
structure OrderInv (levels : ℕ) (b : Bool) (c : TimerCalls T) : Prop where
  init : ∀ t, c.live t = true → (c.timer t).initTick.toNat < halfRange 32
  live : ∀ t ∈ c.bottom levels b, c.live t = true
  order : ∃ base, TimerOrder levels b base c.toTimerState ∧ c.elapsed base ≤ 1 ∧
    (c.checking b = false → base = c.tick)

namespace OrderInv

variable (h : OrderInv levels b c)
include h

/-- A step at the present tick. -/
theorem next (htick : c'.tick = c.tick) (hcheck : c'.checking b = c.checking b)
    (hinit : ∀ t, c'.live t = true → (c'.timer t).initTick.toNat < halfRange 32)
    (hlive : ∀ t ∈ c'.bottom levels b, c'.live t = true)
    (horder : ∀ base, TimerOrder levels b base c.toTimerState → c.elapsed base ≤ 1 →
      TimerOrder levels b base c'.toTimerState) : OrderInv levels b c' := by
  obtain ⟨base, ho, hnear, hbase⟩ := h.order
  refine ⟨hinit, hlive, base, horder base ho hnear, ?_, ?_⟩
  · unfold TimerState.elapsed
    rw [htick]
    exact hnear
  · rw [hcheck, htick]
    exact hbase

/-- The local lists and the callbacks do not matter. -/
theorem congr (htick : c'.tick = c.tick) (hcheck : c'.checking b = c.checking b)
    (hrows : c'.rows = c.rows) (htimer : c'.timer = c.timer) (hstamp : c'.startedAt = c.startedAt)
    (hstarts : c'.starts = c.starts) (hlive : c'.live = c.live) : OrderInv levels b c' := by
  refine h.next htick hcheck (fun t ht => ?_) (fun t ht => ?_) fun base ho hnear => ?_
  · rw [htimer]
    exact h.init t (hlive ▸ ht)
  · rw [hlive]
    refine h.live t ?_
    unfold TimerState.bottom at ht ⊢
    exact hrows ▸ ht
  · exact ho.congr htick (congrFun hrows b) (fun u _ => congrFun htimer u) hstamp hstarts

theorem remove (t : T) : OrderInv levels b (c.remove t) :=
  h.next rfl rfl h.init (fun _ hu => h.live _ (List.mem_of_mem_erase hu))
    fun _ ho _ => ho.timerRemove t

/-- A timer is written: its `timeout_tick` and its activation only when it is not on the list. -/
theorem set (t : T) {f : Timer → Timer} (hinit : (f (c.timer t)).initTick.toNat < halfRange 32 ∨
      (f (c.timer t)).initTick = (c.timer t).initTick)
    (hsame : t ∈ c.bottom levels b → (f (c.timer t)).timeoutTick = (c.timer t).timeoutTick ∧
      (f (c.timer t)).activated = (c.timer t).activated ∧ (f (c.timer t)).soft = (c.timer t).soft) :
    OrderInv levels b (c.set t f) := by
  have hself : (c.set t f).timer t = f (c.timer t) := set_self c t f
  have hother : ∀ u, u ≠ t → (c.set t f).timer u = c.timer u := fun u hu =>
    Function.update_of_ne hu ..
  have hbound : ∀ u, c.live u = true → ((c.set t f).timer u).initTick.toNat < halfRange 32 := by
    intro u hu
    by_cases hut : u = t
    · subst hut
      rw [hself]
      rcases hinit with hlt | heq
      · exact hlt
      · rw [heq]
        exact h.init u hu
    · rw [hother u hut]
      exact h.init u hu
  refine h.next rfl rfl hbound h.live fun base ho hnear => ?_
  refine ho.write hnear rfl rfl (fun u hu => ?_) ho.started
  by_cases hut : u = t
  · subst hut
    obtain ⟨h1, h2, h3⟩ := hsame hu
    refine ⟨?_, ?_, ?_, hbound u (h.live u hu), rfl⟩
    · exact (congrArg Timer.timeoutTick hself).trans h1
    · exact (congrArg Timer.activated hself).trans h2
    · exact (congrArg Timer.soft hself).trans h3
  · have heq := hother u hut
    refine ⟨?_, ?_, ?_, hbound u (h.live u hu), rfl⟩
    · exact congrArg Timer.timeoutTick heq
    · exact congrArg Timer.activated heq
    · exact congrArg Timer.soft heq

/-- **A start.** -/
theorem start (hlive : c.live t = true) : OrderInv levels b (c.start levels t) := by
  have htimer : ∀ u, ((c.start levels t).timer u).initTick = (c.timer u).initTick := by
    intro u
    change ((c.timerStart levels t).timer u).initTick = _
    by_cases hu : u = t
    · rw [hu, TimerState.timerStart_self]
    · rw [TimerState.timerStart_of_ne hu]
  refine h.next rfl rfl (fun u hu => ?_) (fun u hu => ?_) fun base ho hnear =>
    ho.startAny hnear (h.init t hlive)
  · rw [htimer]
    exact h.init u hu
  · rcases List.mem_cons.mp (bottom_timerStart_subset hu) with rfl | hu
    · exact hlive
    · exact h.live u hu

/-- A timer that is taken off is on no list. -/
theorem not_mem_remove (t : T) : t ∉ (c.remove t).bottom levels b := by
  obtain ⟨base, ho, -, -⟩ := h.order
  exact fun hm => (ho.rows.nodup.mem_erase_iff.mp hm).1 rfl

/-- A timer is taken off and not activated any more. -/
theorem takeAway (t : T) :
    OrderInv levels b ((c.remove t).set t fun x => { x with activated := false }) :=
  (h.remove t).set t (.inr rfl) fun hm => absurd hm (h.not_mem_remove t)

theorem stop (t : T) : OrderInv levels b (c.stop t) := by
  unfold TimerCalls.stop
  split_ifs
  · exact h.takeAway t
  · exact h

theorem detach (t : T) : OrderInv levels b (c.detach t) := by
  have htake := h.takeAway t
  have hlive : ∀ u, (c.detach t).live u = true → c.live u = true := by
    intro u hu
    change Function.update c.live t false u = true at hu
    by_cases hut : u = t
    · rw [hut, Function.update_self] at hu
      exact nomatch hu
    · rw [Function.update_of_ne hut] at hu
      exact hu
  refine htake.next rfl rfl (fun u hu => htake.init u (hlive u hu)) (fun u hu => ?_)
    fun _ ho _ => ho
  have hut : u ≠ t := by
    rintro rfl
    exact h.not_mem_remove u hu
  exact (Function.update_of_ne hut false c.live).trans (htake.live u hu)

theorem timerInit {time : Tick} {periodic : Bool} (hs : c.init t time periodic soft = some c') :
    OrderInv levels b c' := by
  unfold TimerCalls.init TimerState.timerInit at hs
  split_ifs at hs with hlive htime <;> cases hs
  have hnot : t ∉ c.bottom levels b := fun hm => hlive (h.live t hm)
  have hset := h.set t (f := fun _ => ⟨time, 0, periodic, false, soft⟩) (.inl htime)
    fun hm => absurd hm hnot
  have hself := set_self c t fun _ => ⟨time, 0, periodic, false, soft⟩
  refine hset.next rfl rfl (fun u hu => ?_) (fun u hu => ?_) fun _ ho _ => ho
  · by_cases hut : u = t
    · rw [hut]
      exact lt_of_eq_of_lt (congrArg (fun x : Timer => x.initTick.toNat) hself) htime
    · change Function.update c.live t true u = true at hu
      rw [Function.update_of_ne hut] at hu
      exact hset.init u hu
  · have hut : u ≠ t := by
      rintro rfl
      exact hnot hu
    exact (Function.update_of_ne hut true c.live).trans (hset.live u hu)

theorem takeOff (t : T) : OrderInv levels b
    { c with toTimerState := c.toTimerState.takeOff t, softList := c.softList.erase t } := by
  by_cases hp : (c.timer t).periodic = true
  · rw [show c.toTimerState.takeOff t = c.timerRemove t from if_pos hp]
    exact h.remove t
  · rw [show c.toTimerState.takeOff t = (c.timerRemove t).setTimer t
      (fun x => { x with activated := false }) from if_neg hp]
    exact h.takeAway t

theorem expire (hs : c.expire levels soft = some c') : OrderInv levels b c' := by
  unfold TimerCalls.expire at hs
  split at hs
  case isFalse => cases hs
  case isTrue =>
    rcases hb : c.bottom levels soft with _ | ⟨t, l⟩
    · rw [hb] at hs
      cases hs
    rw [hb] at hs
    dsimp only at hs
    split at hs
    case isFalse => cases hs
    case isTrue =>
      cases hs
      exact (h.takeOff t).congr rfl rfl rfl rfl rfl rfl rfl

/-- Clearing the activation before a start changes nothing. -/
theorem start_set (t : T) :
    (c.set t fun x => { x with activated := false }).start levels t = c.start levels t := by
  unfold TimerCalls.start TimerCalls.set
  unfold TimerState.timerStart TimerState.setTimer TimerState.timerRemove
  simp only [Function.update_self, Function.update_idem]

theorem returned (hlive : c.restarts soft t = true → c.live t = true) :
    OrderInv levels b (c.returned levels soft t) := by
  have hidle : OrderInv levels b (c.idle soft) := h.congr rfl rfl rfl rfl rfl rfl rfl
  have hdrop : OrderInv levels b ((c.idle soft).dropLocal soft t) :=
    hidle.congr rfl rfl rfl rfl rfl rfl rfl
  have hlist : (c.idle soft).localList soft = c.localList soft := by cases soft <;> rfl
  unfold TimerCalls.returned
  dsimp only
  rw [hlist]
  split_ifs with hnil hp
  · exact hidle
  · rw [hdrop.start_set t]
    refine hdrop.start (hlive ?_)
    obtain ⟨hper, hact⟩ : (c.timer t).periodic = true ∧ (c.timer t).activated = true := hp
    simp [restarts, hnil, hper, hact]
  · exact hdrop

/-- **The tick**, after the check has ended. -/
theorem tickStep (hcheck : c.checking b = false) (hs : c.tickStep = some c') :
    OrderInv levels b c' := by
  unfold TimerCalls.tickStep at hs
  split_ifs at hs
  cases hs
  obtain ⟨base, ho, -, hbase⟩ := h.order
  obtain ⟨htick, hone⟩ := ho.tick (hbase hcheck)
  exact ⟨h.init, h.live, base, htick, Nat.le_of_eq hone, fun hc => nomatch hc⟩

/-- **A check ends**: no timer of its list is late. -/
theorem checkEnd (hs : c.checkEnd levels soft = some c') : OrderInv levels b c' := by
  unfold TimerCalls.checkEnd at hs
  split_ifs at hs with hcond
  cases hs
  obtain ⟨-, hhead⟩ := (Bool.and_eq_true _ _).mp hcond
  obtain ⟨base, ho, hnear, hbase⟩ := h.order
  by_cases hb : b = soft
  · subst hb
    have hlate : ∀ t ∈ c.bottom levels b, ¬ c.due t := by
      rcases hbot : c.bottom levels b with _ | ⟨t, l⟩
      · exact fun t ht => absurd ht List.not_mem_nil
      · rw [hbot] at hhead
        have hd : ¬ c.due t := of_decide_eq_true hhead
        rw [← hbot]
        exact ho.due_first hbot hd
    refine ⟨h.init, h.live, c.tick, ho.rebase hlate, ?_, fun _ => rfl⟩
    change c.elapsed c.tick ≤ 1
    unfold TimerState.elapsed
    rw [offset_self]
    exact Nat.zero_le 1
  · refine ⟨h.init, h.live, base, ho, hnear, fun hc => hbase ?_⟩
    exact (Function.update_of_ne hb false c.checking).symm.trans hc

/-- **The step lemma.** -/
theorem step (hok : a.isTick = true → c.checking b = false) (hs : c.step levels a = some c') :
    OrderInv levels b c' := by
  have hlive : ∀ {t c₁}, c.onLive t c₁ = some c' → c.live t = true ∧ c₁ = c' := by
    intro t c₁ hl
    unfold onLive at hl
    split_ifs at hl with ht
    exact ⟨ht, Option.some.inj hl⟩
  cases a with
  | init t time periodic soft => exact h.timerInit hs
  | detach t =>
    obtain ⟨-, rfl⟩ := hlive hs
    exact h.detach t
  | start t =>
    obtain ⟨ht, rfl⟩ := hlive hs
    exact h.start ht
  | stop t =>
    obtain ⟨-, rfl⟩ := hlive hs
    exact h.stop t
  | setTime t time =>
    dsimp only [TimerCalls.step] at hs
    split_ifs at hs with hcond
    cases hs
    obtain ⟨-, htime⟩ := (Bool.and_eq_true _ _).mp hcond
    exact h.set t (.inl (of_decide_eq_true htime)) fun _ => ⟨rfl, rfl, rfl⟩
  | setOneshot t =>
    obtain ⟨-, rfl⟩ := hlive hs
    exact h.set t (.inr rfl) fun _ => ⟨rfl, rfl, rfl⟩
  | setPeriodic t =>
    obtain ⟨-, rfl⟩ := hlive hs
    exact h.set t (.inr rfl) fun _ => ⟨rfl, rfl, rfl⟩
  | tick => exact h.tickStep (hok rfl) hs
  | expire soft => exact h.expire hs
  | callbackEnd soft =>
    obtain ⟨t, -, hl, rfl⟩ := callbackEnd_cases hs
    exact h.returned hl
  | checkEnd soft => exact h.checkEnd hs

/-- A list in order. -/
theorem inOrder (hcheck : c.checking b = false) : ListInOrder levels b c.toTimerState := by
  obtain ⟨base, ho, -, hbase⟩ := h.order
  obtain rfl := hbase hcheck
  refine ⟨ho.rows, ho.sorted, fun t ht => ?_⟩
  have hnear := ho.near t ht
  have hzero : c.elapsed c.tick = 0 := offset_self
  rw [hzero, Nat.zero_add] at hnear
  exact hnear

end OrderInv

/-- At the start. -/
theorem orderInv_initial (hn : 0 < levels) (hc : c.Initial) : OrderInv levels b c where
  init t ht := nomatch (hc.2.2.2.2.1 t).2.symm.trans ht
  live t ht := by
    unfold TimerState.bottom at ht
    rw [hc.1] at ht
    exact absurd ht List.not_mem_nil
  order := by
    refine ⟨c.tick, timerOrder_empty hn (hc.1 b) hc.2.2.2.2.2, ?_, fun _ => rfl⟩
    unfold TimerState.elapsed
    rw [offset_self]
    exact Nat.zero_le 1

end

/-- **The timer lists are in order** whenever their check has ended: that of the hard timers in all
runs, that of the soft timers in the runs in which its check ends before the next tick. -/
theorem timer_order {T : Type} [DecidableEq T] {levels : ℕ} (hn : 0 < levels) {s : TimerCalls T} :
    ((timerCalls T levels).Reach System.anyStep s → s.checking false = false →
      ListInOrder levels false s.toTimerState) ∧
    ((timerCalls T levels).Reach softChecked s → s.checking true = false →
      ListInOrder levels true s.toTimerState) := by
  refine ⟨fun h => ?_, fun h => ?_⟩
  · have hinv : OrderInv levels false s := by
      refine h.invariant (I := OrderInv levels false) (fun _ h0 => orderInv_initial hn h0)
        fun s a s' hi _ hs => ?_
      refine hi.step (fun ha => ?_) hs
      obtain rfl := TimerLabel.eq_tick ha
      by_contra hc
      have htick : s.tickStep = some s' := hs
      unfold TimerCalls.tickStep at htick
      rw [if_pos ((Bool.not_eq_false _).mp hc)] at htick
      cases htick
    exact hinv.inOrder
  · have hinv : OrderInv levels true s := by
      refine h.invariant (I := OrderInv levels true) (fun _ h0 => orderInv_initial hn h0)
        fun s a s' hi hok hs => ?_
      refine hi.step (fun ha => ?_) hs
      obtain rfl := TimerLabel.eq_tick ha
      exact (Bool.not_eq_true' _).mp hok
    exact hinv.inOrder

/-- Ticks up to the wrap: a timer is started, expires and is started again. -/
theorem timer_order_restarted : ∃ s : TimerCalls Unit, s.starts = 3 ∧
    ListInOrder 1 false s.toTimerState ∧ ListInOrder 1 true s.toTimerState := by
  obtain ⟨s, h, hp⟩ := (timerCalls Unit 1).exists_reach softChecked
    (fun s => decide (s.starts = 3 ∧ s.checking false = false ∧ s.checking true = false))
    oneTimer_initial
    [.init () 1 true false, .start (), .tick, .expire false, .callbackEnd false, .checkEnd false,
      .checkEnd true] (by decide)
  obtain ⟨hs, hf, ht⟩ := of_decide_eq_true hp
  exact ⟨s, hs, (timer_order Nat.one_pos).1 (h.mono fun _ _ _ => rfl) hf,
    (timer_order Nat.one_pos).2 h ht⟩

/-- **A late soft timer**: at the second tick without `rt_soft_timer_check` the time that remains
has wrapped. -/
theorem timer_soft_late : ∃ s : TimerCalls Unit, (timerCalls Unit 1).Reach System.anyStep s ∧
    s.checking false = false ∧ ¬ ListInOrder 1 true s.toTimerState := by
  obtain ⟨s, h, hp⟩ := (timerCalls Unit 1).exists_reach System.anyStep
    (fun s => decide (s.checking false = false ∧ () ∈ s.bottom 1 true ∧
      ¬ (s.timer ()).timeoutTick - s.tick < halfTickMax)) oneTimer_initial
    [.init () 1 false true, .start (), .tick, .checkEnd false, .tick, .checkEnd false] (by decide)
  obtain ⟨hc, hm, hlate⟩ := of_decide_eq_true hp
  exact ⟨s, h, hc, fun ho => hlate (ho.near () hm)⟩

end RtThread
