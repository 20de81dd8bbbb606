import RtThread.Lib.System
import RtThread.Timer.Order

/-!
# Calls and callbacks

The timer functions, the tick and the checks step by step: `rt_timer_check` and
`rt_soft_timer_check` take a due timer off and call it back, anything may be called meanwhile, and
when the callback returns the timer is started again or not.

* `TimerCalls`: the timers with both local lists and the callbacks that are executing;
* `expire`, `callbackEnd`, `checkEnd`: the steps of a check; `checkTurn_eq`: together they are a
  turn of the loop;
* `timerCalls`: the system; `Linked`, `InCallback`: where a timer hangs; `CallsInv.step`;
* **`timer_activated`**: outside its callback a timer is activated exactly when it is linked, in the
  runs that meet `staysPeriodic`.
-/

set_option linter.unusedSectionVars false

namespace RtThread

/-- The timers, the local `list` of `rt_soft_timer_check` beside that of `rt_timer_check`, the
timers whose callbacks are executing, whether a check is to go on, and which timers are
initialized. -/
structure TimerCalls (T : Type) extends TimerState T where
  softList : List T
  running : Bool → Option T
  checking : Bool → Bool
  live : T → Bool

/-- A call of the timer functions, the tick, or a step of a check. -/
inductive TimerLabel (T : Type) where
  | init (t : T) (time : Tick) (periodic soft : Bool)
  | detach (t : T)
  | start (t : T)
  | stop (t : T)
  | setTime (t : T) (time : Tick)
  | setOneshot (t : T)
  | setPeriodic (t : T)
  | tick
  | expire (soft : Bool)
  | callbackEnd (soft : Bool)
  | checkEnd (soft : Bool)

/-- A timer that expires is taken off; a one-shot timer is not activated any more. -/
def TimerState.takeOff {T : Type} [DecidableEq T] (s : TimerState T) (t : T) : TimerState T :=
  let s := s.timerRemove t
  if (s.timer t).periodic then s else s.setTimer t fun x => { x with activated := false }

namespace TimerCalls

variable {T : Type} [DecidableEq T] (levels : ℕ) (s : TimerCalls T)

/-- The local list of a check. -/
def localList (soft : Bool) : List T := if soft then s.softList else s.list

/-- `_timer_remove`. -/
def remove (t : T) : TimerCalls T :=
  { s with toTimerState := s.timerRemove t, softList := s.softList.erase t }

/-- Write to a timer. -/
def set (t : T) (f : Timer → Timer) : TimerCalls T := { s with toTimerState := s.setTimer t f }

/-- `rt_timer_start`. -/
def start (t : T) : TimerCalls T :=
  { s with toTimerState := s.timerStart levels t, softList := s.softList.erase t }

/-- `rt_timer_stop`. -/
def stop (t : T) : TimerCalls T :=
  if (s.timer t).activated then (s.remove t).set t fun x => { x with activated := false } else s

/-- `rt_timer_init`. -/
def init (t : T) (time : Tick) (periodic soft : Bool) : Option (TimerCalls T) :=
  if s.live t then none
  else (s.timerInit t time periodic soft).map fun s' =>
    { s with toTimerState := s', live := Function.update s.live t true }

/-- `rt_timer_detach`. -/
def detach (t : T) : TimerCalls T :=
  { (s.remove t).set t (fun x => { x with activated := false }) with
    live := Function.update s.live t false }

/-- The tick; `rt_timer_check` has ended since the one before. -/
def tickStep : Option (TimerCalls T) :=
  if s.checking false then none
  else some { s with toTimerState := { s.toTimerState with tick := s.tick + 1 }
                     checking := fun _ => true }

/-- A check takes the first timer off, which is due, and calls it back. -/
def expire (soft : Bool) : Option (TimerCalls T) :=
  if (s.running soft).isNone && (soft || s.checking false) then
    match s.bottom levels soft with
    | [] => none
    | t :: _ =>
      if s.due t then
        let off := s.takeOff t
        some { s with
          toTimerState :=
            { off with list := if soft then off.list else t :: off.list
                       softTimerBusy := soft || off.softTimerBusy }
          softList := if soft then t :: s.softList.erase t else s.softList.erase t
          running := Function.update s.running soft (some t) }
      else none
  else none

/-- The callback has returned. -/
def idle (soft : Bool) : TimerCalls T :=
  { s with
    toTimerState := { s.toTimerState with softTimerBusy := !soft && s.softTimerBusy }
    running := Function.update s.running soft none }

/-- Off the local list. -/
def dropLocal (soft : Bool) (t : T) : TimerCalls T :=
  { s with
    toTimerState := { s.toTimerState with list := if soft then s.list else s.list.erase t }
    softList := if soft then s.softList.erase t else s.softList }

/-- The callback of a timer returns: the timer is started again if it is periodic, and nobody has
started or stopped it meanwhile. -/
def returned (soft : Bool) (t : T) : TimerCalls T :=
  let s := s.idle soft
  if s.localList soft = [] then s
  else
    let s := s.dropLocal soft t
    if (s.timer t).periodic ∧ (s.timer t).activated then
      (s.set t fun x => { x with activated := false }).start levels t
    else s

/-- Whether the return of a callback starts its timer again. -/
def restarts (soft : Bool) (t : T) : Bool :=
  decide (s.localList soft ≠ []) && (s.timer t).periodic && (s.timer t).activated

/-- A callback returns; `rt_timer_start` asserts that the timer is initialized. -/
def callbackEnd (soft : Bool) : Option (TimerCalls T) :=
  (s.running soft).bind fun t =>
    if s.restarts soft t && !s.live t then none else some (s.returned levels soft t)

/-- A check ends when no timer is on the list or the first one is not due. -/
def checkEnd (soft : Bool) : Option (TimerCalls T) :=
  if (s.running soft).isNone && (s.bottom levels soft).head?.all (fun t => decide (¬s.due t)) then
    some { s with checking := Function.update s.checking soft false }
  else none

/-- A function that asserts that its timer is initialized. -/
def onLive (t : T) (s' : TimerCalls T) : Option (TimerCalls T) := if s.live t then some s' else none

/-- A step. -/
def step : TimerLabel T → Option (TimerCalls T)
  | .init t time periodic soft => s.init t time periodic soft
  | .detach t => s.onLive t (s.detach t)
  | .start t => s.onLive t (s.start levels t)
  | .stop t => s.onLive t (s.stop t)
  | .setTime t time =>
    if s.live t && decide (time < halfTickMax) then
      some (s.set t fun x => { x with initTick := time })
    else none
  | .setOneshot t => s.onLive t (s.set t fun x => { x with periodic := false })
  | .setPeriodic t => s.onLive t (s.set t fun x => { x with periodic := true })
  | .tick => s.tickStep
  | .expire soft => s.expire levels soft
  | .callbackEnd soft => s.callbackEnd levels soft
  | .checkEnd soft => s.checkEnd levels soft

/-- A timer hangs on a timer list. -/
def Linked (t : T) : Prop := ∃ soft, t ∈ s.bottom levels soft

/-- **Activated and linked**, outside the callback of a timer. -/
def Agrees : Prop :=
  ∀ t, s.running false ≠ some t → s.running true ≠ some t →
    ((s.timer t).activated = true ↔ s.Linked levels t)

/-- **The condition**: a callback does not leave its timer one-shot and activated, unless it has
started, stopped or detached it. -/
def staysPeriodic : TimerLabel T → Bool
  | .callbackEnd soft =>
    (s.running soft).all fun t =>
      decide (s.localList soft = []) || (s.timer t).periodic || !(s.timer t).activated
  | _ => true

end TimerCalls

/-- No timer is initialized, and nothing is linked or executing. -/
def TimerCalls.Initial {T : Type} (s : TimerCalls T) : Prop :=
  (∀ soft l, s.rows soft l = []) ∧ s.list = [] ∧ s.softList = [] ∧ (∀ soft, s.running soft = none) ∧
    (∀ t, (s.timer t).activated = false ∧ s.live t = false) ∧ ∀ t, s.startedAt t < s.starts

/-- The timers and those who call them. -/
def timerCalls (T : Type) [DecidableEq T] (levels : ℕ) : System (TimerCalls T) (TimerLabel T) where
  init s := s.Initial
  step s a := s.step levels a

/-! ## Where a timer hangs -/

section

variable {T : Type} [DecidableEq T] {levels : ℕ} {s s' : TimerCalls T} {t u : T} {soft : Bool}
  {a : TimerLabel T}

/-- What a timer that is taken off hangs on. -/
theorem TimerState.takeOff_rows (s : TimerState T) (t : T) :
    (s.takeOff t).rows = (s.timerRemove t).rows ∧ (s.takeOff t).list = (s.timerRemove t).list := by
  unfold takeOff
  dsimp only
  split_ifs <;> exact ⟨rfl, rfl⟩

namespace TimerCalls

/-- The return of a callback of `rt_timer_check` starts the timer again as the loop does. -/
theorem returned_rearm (s : TimerCalls T) (t : T) : (s.returned levels false t).toTimerState =
    ({ s.toTimerState with softTimerBusy := !false && s.softTimerBusy } :
      TimerState T).timerRearm levels t := by
  unfold returned TimerState.timerRearm
  simp only [localList, idle, dropLocal, Bool.false_eq_true, if_false]
  split_ifs <;> rfl

/-- **A turn of the loop** of `rt_timer_check` is a call back and its return. -/
theorem checkTurn_eq (callback : T → TimerState T → TimerState T) (hrun : s.running false = none)
    (hcheck : s.checking false = true) {l : List T} (hb : s.bottom levels false = t :: l)
    (hd : s.due t) : ∃ s₁, s.expire levels false = some s₁ ∧
      (({ s₁ with toTimerState := callback t s₁.toTimerState } :
          TimerCalls T).returned levels false t).toTimerState =
        (s.toTimerState.timerExpire callback false t).timerRearm levels t := by
  unfold expire
  rw [hrun, hcheck, if_pos (by rfl), hb]
  dsimp only
  rw [if_pos hd]
  exact ⟨_, rfl, returned_rearm _ t⟩

/-- What a return has found. -/
theorem callbackEnd_cases (hs : s.callbackEnd levels soft = some s') :
    ∃ t, s.running soft = some t ∧ (s.restarts soft t = true → s.live t = true) ∧
      s.returned levels soft t = s' := by
  obtain ⟨t, hrun, ht⟩ := Option.bind_eq_some_iff.mp hs
  split_ifs at ht with hlive
  refine ⟨t, hrun, fun hr => ?_, Option.some.inj ht⟩
  by_contra hl
  exact hlive (by rw [hr, (Bool.not_eq_true _).mp hl]; rfl)

/-- A timer whose callback is executing, and that nobody has started, stopped or detached since. -/
def InCallback (s : TimerCalls T) (t : T) : Prop := ∃ soft, t ∈ s.localList soft

theorem set_self (s : TimerCalls T) (t : T) (f : Timer → Timer) :
    (s.set t f).timer t = f (s.timer t) := Function.update_self ..

theorem localList_remove : (s.remove t).localList soft = (s.localList soft).erase t := by
  cases soft <;> rfl

theorem localList_start : (s.start levels t).localList soft = (s.localList soft).erase t := by
  cases soft <;> rfl

/-- Off the lists. -/
theorem linked_remove (hrows : ∀ soft, StackedRows levels (s.rows soft)) (hn : 0 < levels) :
    (s.remove t).Linked levels u ↔ u ≠ t ∧ s.Linked levels u := by
  have hmem : ∀ soft, u ∈ (s.remove t).bottom levels soft ↔ u ≠ t ∧ u ∈ s.bottom levels soft :=
    fun soft => ((hrows soft).nodup (levels - 1) (by omega)).mem_erase_iff
  constructor
  · rintro ⟨soft, h⟩
    exact ⟨((hmem soft).mp h).1, soft, ((hmem soft).mp h).2⟩
  · rintro ⟨hne, soft, h⟩
    exact ⟨soft, (hmem soft).mpr ⟨hne, h⟩⟩

/-- The rows after a start. -/
theorem rows_start (hn : 0 < levels) (hrows : ∀ soft, StackedRows levels (s.rows soft)) (t : T)
    (soft : Bool) :
    StackedRows levels ((s.start levels t).rows soft) ∧
    ∀ u, u ∈ (s.start levels t).bottom levels soft ↔
      u = t ∧ (s.timer t).soft = soft ∨ u ≠ t ∧ u ∈ s.bottom levels soft := by
  have hold : StackedRows levels fun l => (s.rows soft l).erase t := (hrows soft).remove t
  have hnd := (hrows soft).nodup (levels - 1) (by omega)
  have hmem : ∀ u, u ∈ (s.rows soft (levels - 1)).erase t ↔ u ≠ t ∧ u ∈ s.bottom levels soft :=
    fun u => hnd.mem_erase_iff
  by_cases ht : (s.timer t).soft = soft
  · obtain ⟨top, htop, pass, -, hstart⟩ := TimerState.timerStart_rows levels ht
    have hnot : t ∉ (s.rows soft (levels - 1)).erase t := fun h => ((hmem t).mp h).1 rfl
    refine ⟨?_, fun u => ?_⟩
    · change StackedRows levels ((s.timerStart levels t).rows soft)
      rw [hstart]
      exact hold.insert hnot top
    · change u ∈ (s.timerStart levels t).rows soft (levels - 1) ↔ _
      rw [hstart]
      simp only [if_pos htop]
      rw [(hold.insertBehind_perm (by omega) t).mem_iff, List.mem_cons, hmem]
      exact or_congr_left ⟨fun h => ⟨h, ht⟩, And.left⟩
  · have hother : ∀ l, (s.start levels t).rows soft l = (s.rows soft l).erase t := fun l =>
      TimerState.timerStart_otherRows ht
    refine ⟨?_, fun u => ?_⟩
    · rw [funext hother]
      exact hold
    · change u ∈ (s.start levels t).rows soft (levels - 1) ↔ _
      rw [hother, hmem]
      exact ⟨.inr, fun h => h.resolve_left fun h => ht h.2⟩

theorem linked_start (hn : 0 < levels) (hrows : ∀ soft, StackedRows levels (s.rows soft)) :
    (s.start levels t).Linked levels u ↔ u = t ∨ s.Linked levels u := by
  constructor
  · rintro ⟨soft, h⟩
    rcases ((rows_start hn hrows t soft).2 u).mp h with h | h
    · exact .inl h.1
    · exact .inr ⟨soft, h.2⟩
  · intro h
    by_cases hu : u = t
    · exact ⟨(s.timer t).soft, ((rows_start hn hrows t _).2 u).mpr (.inl ⟨hu, rfl⟩)⟩
    · obtain ⟨soft, h⟩ := h.resolve_left hu
      exact ⟨soft, ((rows_start hn hrows t soft).2 u).mpr (.inr ⟨hu, h⟩)⟩

end TimerCalls

open TimerCalls

/-- **The invariant**, but for one timer: the local lists have only the timers whose callbacks are
executing, and a timer that is on none of them is activated exactly when it is linked. -/
structure CallsInv (levels : ℕ) (e : Option T) (s : TimerCalls T) : Prop where
  rows : ∀ soft, StackedRows levels (s.rows soft)
  executing : ∀ soft t, t ∈ s.localList soft → s.running soft = some t
  single : ∀ soft, (s.localList soft).Nodup
  apart : ∀ t, t ∈ s.localList false → t ∉ s.localList true
  off : ∀ t, s.InCallback t → ¬ s.Linked levels t
  agrees : ∀ t, e ≠ some t → ¬ s.InCallback t →
    ((s.timer t).activated = true ↔ s.Linked levels t)
  dead : ∀ t, e ≠ some t → s.live t = false → (s.timer t).activated = false ∧ ¬ s.InCallback t

namespace CallsInv

variable {e : Option T}

theorem inCallback_remove (h : CallsInv levels e s) :
    (s.remove t).InCallback u ↔ u ≠ t ∧ s.InCallback u := by
  have hmem : ∀ soft, u ∈ (s.remove t).localList soft ↔ u ≠ t ∧ u ∈ s.localList soft := by
    intro soft
    rw [localList_remove]
    exact (h.single soft).mem_erase_iff
  constructor
  · rintro ⟨soft, hu⟩
    exact ⟨((hmem soft).mp hu).1, soft, ((hmem soft).mp hu).2⟩
  · rintro ⟨hne, soft, hu⟩
    exact ⟨soft, (hmem soft).mpr ⟨hne, hu⟩⟩

/-- A timer is taken off whatever list it is on. -/
theorem remove (h : CallsInv levels e s) (hn : 0 < levels) (he : e = none ∨ e = some t) :
    CallsInv levels (some t) (s.remove t) := by
  have hsub : ∀ soft u, u ∈ (s.remove t).localList soft → u ∈ s.localList soft := by
    intro soft u hu
    rw [localList_remove] at hu
    exact List.mem_of_mem_erase hu
  have hexc : ∀ u, some t ≠ some u → u ≠ t ∧ e ≠ some u := by
    intro u hu
    have hne : u ≠ t := fun heq => hu (congrArg some heq.symm)
    refine ⟨hne, fun heu => ?_⟩
    rcases he with he | he
    · exact nomatch he.symm.trans heu
    · exact hu (he.symm.trans heu)
  refine ⟨fun soft => (h.rows soft).remove t, fun soft u hu => h.executing soft u (hsub soft u hu),
    fun soft => ?_, fun u hf ht => h.apart u (hsub _ u hf) (hsub _ u ht), fun u hu => ?_,
    fun u heu hu => ?_, fun u heu hl => ?_⟩
  · rw [localList_remove]
    exact (h.single soft).erase t
  · rw [linked_remove h.rows hn]
    exact fun hl => h.off u (h.inCallback_remove.mp hu).2 hl.2
  · obtain ⟨hne, heu'⟩ := hexc u heu
    rw [linked_remove h.rows hn]
    rw [h.inCallback_remove] at hu
    refine (h.agrees u heu' fun hc => hu ⟨hne, hc⟩).trans ?_
    exact ⟨fun hl => ⟨hne, hl⟩, And.right⟩
  · obtain ⟨hne, heu'⟩ := hexc u heu
    rw [h.inCallback_remove]
    exact ⟨(h.dead u heu' hl).1, fun hc => (h.dead u heu' hl).2 hc.2⟩

/-- The excepted timer is written. -/
theorem set (h : CallsInv levels (some t) s) (f : Timer → Timer) :
    CallsInv levels (some t) (s.set t f) := by
  have htimer : ∀ u, some t ≠ some u → (s.set t f).timer u = s.timer u := fun u hu =>
    Function.update_of_ne (fun heq => hu (congrArg some heq.symm)) ..
  refine ⟨h.rows, h.executing, h.single, h.apart, h.off, fun u hu hc => ?_, fun u hu hl => ?_⟩
  · rw [htimer u hu]
    exact h.agrees u hu hc
  · rw [htimer u hu]
    exact h.dead u hu hl

/-- The invariant holds of the excepted timer too. -/
theorem close (h : CallsInv levels (some t) s)
    (hag : ¬ s.InCallback t → ((s.timer t).activated = true ↔ s.Linked levels t))
    (hdead : s.live t = false → (s.timer t).activated = false ∧ ¬ s.InCallback t) :
    CallsInv levels none s := by
  refine ⟨h.rows, h.executing, h.single, h.apart, h.off, fun u _ hc => ?_, fun u _ hl => ?_⟩
  · by_cases hu : u = t
    · subst hu
      exact hag hc
    · exact h.agrees u (fun heq => hu (Option.some.inj heq).symm) hc
  · by_cases hu : u = t
    · subst hu
      exact hdead hl
    · exact h.dead u (fun heq => hu (Option.some.inj heq).symm) hl

/-- A timer that is stopped: it hangs nowhere and is not activated. -/
theorem stopped (h : CallsInv levels (some t) s) (ha : (s.timer t).activated = false)
    (hl : ¬ s.Linked levels t) (hc : ¬ s.InCallback t) : CallsInv levels none s := by
  refine h.close (fun _ => ?_) fun _ => ⟨ha, hc⟩
  rw [ha]
  exact iff_of_false Bool.false_ne_true hl

/-- **A start**: the timer is activated and linked. -/
theorem start (h : CallsInv levels e s) (hn : 0 < levels) (he : e = none ∨ e = some t)
    (hlive : s.live t = true) : CallsInv levels none (s.start levels t) := by
  have hrem := h.remove hn he
  have hrows := rows_start hn h.rows t
  have hcall : ∀ u, (s.start levels t).InCallback u ↔ (s.remove t).InCallback u := by
    intro u
    unfold InCallback
    simp only [localList_start, localList_remove]
  have hnot : ¬ (s.start levels t).InCallback t := fun hc =>
    (h.inCallback_remove.mp ((hcall t).mp hc)).1 rfl
  have hlink : ∀ u, u ≠ t →
      ((s.start levels t).Linked levels u ↔ (s.remove t).Linked levels u) := by
    intro u hu
    rw [linked_start hn h.rows, linked_remove h.rows hn]
    exact ⟨fun h => ⟨hu, h.resolve_left hu⟩, fun h => .inr h.2⟩
  have hexc : CallsInv levels (some t) (s.start levels t) := by
    refine ⟨fun soft => (hrows soft).1, fun soft u hu => ?_, fun soft => ?_, fun u hf ht => ?_,
      fun u hu => ?_, fun u heu hu => ?_, fun u heu hl => ?_⟩
    · rw [localList_start] at hu
      exact h.executing soft u (List.mem_of_mem_erase hu)
    · rw [localList_start]
      exact (h.single soft).erase t
    · rw [localList_start] at hf ht
      exact h.apart u (List.mem_of_mem_erase hf) (List.mem_of_mem_erase ht)
    · rw [hcall] at hu
      rw [hlink u (h.inCallback_remove.mp hu).1]
      exact hrem.off u hu
    · have hu' : u ≠ t := fun heq => heu (congrArg some heq.symm)
      rw [hcall] at hu
      rw [hlink u hu', ← hrem.agrees u heu hu]
      change ((s.timerStart levels t).timer u).activated = true ↔ _
      rw [TimerState.timerStart_of_ne hu']
      rfl
    · have hu' : u ≠ t := fun heq => heu (congrArg some heq.symm)
      rw [hcall]
      refine ⟨?_, (hrem.dead u heu hl).2⟩
      change ((s.timerStart levels t).timer u).activated = false
      rw [TimerState.timerStart_of_ne hu']
      exact (hrem.dead u heu hl).1
  refine hexc.close (fun _ => iff_of_true ?_ ?_) fun hd => ?_
  · change ((s.timerStart levels t).timer t).activated = true
    rw [TimerState.timerStart_self]
  · exact (linked_start hn h.rows).mpr (.inl rfl)
  · exact nomatch hlive.symm.trans hd

/-- A local list without an executing callback is empty. -/
theorem localList_nil (h : CallsInv levels e s) (hrun : s.running soft = none) :
    s.localList soft = [] := by
  refine List.eq_nil_iff_forall_not_mem.mpr fun t ht => ?_
  exact nomatch hrun.symm.trans (h.executing soft t ht)

/-- The timer that is taken off is called back. -/
theorem push (h : CallsInv levels (some t) s) (hl : ¬ s.Linked levels t) (hc : ¬ s.InCallback t)
    (hempty : s.localList soft = []) (hlive : s.live t = true) (hrows : s'.rows = s.rows)
    (htimer : s'.timer = s.timer) (hself : s'.localList soft = [t])
    (hother : s'.localList (!soft) = s.localList (!soft))
    (hrun : s'.running = Function.update s.running soft (some t)) (hlive' : s'.live = s.live) :
    CallsInv levels none s' := by
  have hlist : ∀ b u, u ∈ s'.localList b ↔ b = soft ∧ u = t ∨ u ∈ s.localList b := by
    intro b u
    by_cases hb : b = soft
    · rw [hb, hself, hempty, List.mem_singleton]
      simp
    · rw [(Bool.eq_not_of_ne hb), hother]
      simp
  have hcall : ∀ u, s'.InCallback u ↔ u = t ∨ s.InCallback u := by
    intro u
    constructor
    · rintro ⟨b, hu⟩
      exact ((hlist b u).mp hu).imp And.right fun h => ⟨b, h⟩
    · rintro (rfl | ⟨b, hu⟩)
      · exact ⟨soft, (hlist soft u).mpr (.inl ⟨rfl, rfl⟩)⟩
      · exact ⟨b, (hlist b u).mpr (.inr hu)⟩
  have hlink : ∀ u, s'.Linked levels u ↔ s.Linked levels u := by
    intro u
    unfold Linked TimerState.bottom
    rw [hrows]
  refine ⟨fun b => hrows ▸ h.rows b, fun b u hu => ?_, fun b => ?_, fun u hf ht => ?_,
    fun u hu => ?_, fun u _ hu => ?_, fun u _ hu => ?_⟩
  · rw [hrun]
    rcases (hlist b u).mp hu with ⟨rfl, rfl⟩ | hu
    · rw [Function.update_self]
    · by_cases hb : b = soft
      · rw [hb, hempty] at hu
        exact absurd hu List.not_mem_nil
      · rw [Function.update_of_ne hb]
        exact h.executing b u hu
  · by_cases hb : b = soft
    · rw [hb, hself]
      exact List.nodup_singleton t
    · rw [Bool.eq_not_of_ne hb, hother]
      exact h.single _
  · rcases (hlist _ u).mp hf with ⟨hf, rfl⟩ | hf
    · rcases (hlist _ u).mp ht with ⟨ht, -⟩ | ht
      · exact nomatch hf.trans ht.symm
      · exact hc ⟨true, ht⟩
    · rcases (hlist _ u).mp ht with ⟨-, rfl⟩ | ht
      · exact hc ⟨false, hf⟩
      · exact h.apart u hf ht
  · rw [hlink]
    rcases (hcall u).mp hu with rfl | hu
    · exact hl
    · exact h.off u hu
  · rw [hcall] at hu
    rw [hlink, htimer]
    exact h.agrees u (fun heq => hu (.inl (Option.some.inj heq).symm)) fun h => hu (.inr h)
  · rw [hlive'] at hu
    have hne : u ≠ t := by
      rintro rfl
      exact Bool.false_ne_true (hu.symm.trans hlive)
    rw [hcall, htimer]
    have hd := h.dead u (fun heq => hne (Option.some.inj heq).symm) hu
    exact ⟨hd.1, fun h => h.elim hne hd.2⟩

/-- The callback of a timer returns: nobody executes it any more, and it is off the local list. -/
theorem pop (h : CallsInv levels none s) (hrun : s.running soft = some t)
    (hrows : s'.rows = s.rows) (htimer : s'.timer = s.timer)
    (hlist : ∀ b, s'.localList b = if b = soft then (s.localList b).erase t else s.localList b)
    (hrun' : s'.running = Function.update s.running soft none) (hlive : s'.live = s.live) :
    CallsInv levels (some t) s' ∧ s'.localList soft = [] ∧
      ∀ u, s'.InCallback u ↔ s.InCallback u ∧ ¬ u ∈ s.localList soft := by
  have hnil : s'.localList soft = [] := by
    rw [hlist, if_pos rfl]
    refine List.eq_nil_iff_forall_not_mem.mpr fun u hu => ?_
    obtain ⟨hne, hu⟩ := (h.single soft).mem_erase_iff.mp hu
    exact hne (Option.some.inj ((h.executing soft u hu).symm.trans hrun))
  have hmem : ∀ b u, u ∈ s'.localList b ↔ b ≠ soft ∧ u ∈ s.localList b := by
    intro b u
    by_cases hb : b = soft
    · rw [hb, hnil]
      simp
    · rw [hlist, if_neg hb]
      simp [hb]
  have hboth : ∀ b u, b ≠ soft → u ∈ s.localList b → u ∉ s.localList soft := by
    intro b u hb hu hs
    cases b <;> cases soft
    · exact hb rfl
    · exact h.apart u hu hs
    · exact h.apart u hs hu
    · exact hb rfl
  have hcall : ∀ u, s'.InCallback u ↔ s.InCallback u ∧ ¬ u ∈ s.localList soft := by
    intro u
    constructor
    · rintro ⟨b, hu⟩
      obtain ⟨hb, hu⟩ := (hmem b u).mp hu
      exact ⟨⟨b, hu⟩, hboth b u hb hu⟩
    · rintro ⟨⟨b, hu⟩, hnot⟩
      exact ⟨b, (hmem b u).mpr ⟨fun hb => hnot (hb ▸ hu), hu⟩⟩
  have hlink : ∀ u, s'.Linked levels u ↔ s.Linked levels u := by
    intro u
    unfold Linked TimerState.bottom
    rw [hrows]
  have hself : ∀ u, some t ≠ some u → u ∉ s.localList soft := fun u hu hs =>
    hu (hrun.symm.trans (h.executing soft u hs))
  refine ⟨⟨fun b => hrows ▸ h.rows b, fun b u hu => ?_, fun b => ?_, fun u hf ht => ?_,
    fun u hu => ?_, fun u hne hu => ?_, fun u hne hu => ?_⟩, hnil, hcall⟩
  · obtain ⟨hb, hu⟩ := (hmem b u).mp hu
    rw [hrun', Function.update_of_ne hb]
    exact h.executing b u hu
  · rw [hlist]
    split_ifs
    · exact (h.single b).erase t
    · exact h.single b
  · exact h.apart u ((hmem _ u).mp hf).2 ((hmem _ u).mp ht).2
  · rw [hlink]
    exact h.off u ((hcall u).mp hu).1
  · rw [hlink, htimer]
    refine h.agrees u (fun heq => nomatch heq) fun hc => hu ((hcall u).mpr ⟨hc, hself u hne⟩)
  · rw [hlive] at hu
    rw [htimer]
    have hd := h.dead u (fun heq => nomatch heq) hu
    exact ⟨hd.1, fun hc => hd.2 ((hcall u).mp hc).1⟩

/-! ## The steps -/

/-- A timer that is not excepted is live when it is linked or in its callback. -/
theorem live (h : CallsInv levels none s) (ht : s.Linked levels t ∨ s.InCallback t) :
    s.live t = true := by
  by_contra hl
  obtain ⟨ha, hc⟩ := h.dead t (fun heq => nomatch heq) ((Bool.not_eq_true _).mp hl)
  have hlink : s.Linked levels t := ht.resolve_right hc
  rw [← h.agrees t (fun heq => nomatch heq) hc, ha] at hlink
  exact Bool.false_ne_true hlink

/-- A timer that expires is taken off all lists. -/
theorem takeOff (h : CallsInv levels none s) (hn : 0 < levels) (t : T) :
    CallsInv levels (some t)
      { s with toTimerState := s.toTimerState.takeOff t, softList := s.softList.erase t } := by
  have hrem := h.remove hn (t := t) (.inl rfl)
  by_cases hp : (s.timer t).periodic = true
  · rw [show s.toTimerState.takeOff t = s.timerRemove t from if_pos hp]
    exact hrem
  · rw [show s.toTimerState.takeOff t = (s.timerRemove t).setTimer t
      (fun x => { x with activated := false }) from if_neg hp]
    exact hrem.set fun x => { x with activated := false }

/-- **A timer is called back.** -/
theorem expire (h : CallsInv levels none s) (hn : 0 < levels)
    (hs : s.expire levels soft = some s') : CallsInv levels none s' := by
  unfold TimerCalls.expire at hs
  split at hs
  case isFalse => cases hs
  case isTrue hcond =>
    obtain ⟨hrun, -⟩ := (Bool.and_eq_true _ _).mp hcond
    rw [Option.isNone_iff_eq_none] at hrun
    rcases hb : s.bottom levels soft with _ | ⟨t, l⟩
    · rw [hb] at hs
      cases hs
    rw [hb] at hs
    dsimp only at hs
    split at hs
    case isFalse => cases hs
    case isTrue =>
      cases hs
      have hempty : s.localList soft = [] := h.localList_nil hrun
      have hlive := h.live (.inl ⟨soft, hb ▸ List.mem_cons_self⟩)
      obtain ⟨hrows, hlist⟩ := TimerState.takeOff_rows s.toTimerState t
      have hl : ¬ (s.remove t).Linked levels t := fun hc => ((linked_remove h.rows hn).mp hc).1 rfl
      have hc : ¬ (s.remove t).InCallback t := fun hc => (h.inCallback_remove.mp hc).1 rfl
      have hoff : ∀ b, (TimerCalls.localList { s with
          toTimerState := s.toTimerState.takeOff t, softList := s.softList.erase t } b) =
          (s.remove t).localList b := by
        intro b
        cases b
        · exact hlist
        · rfl
      have hnil : (s.remove t).localList soft = [] := by
        rw [localList_remove, hempty]
        rfl
      refine (h.takeOff hn t).push (fun ⟨b, hm⟩ => hl ⟨b, ?_⟩)
        (fun ⟨b, hm⟩ => hc ⟨b, hoff b ▸ hm⟩) ((hoff soft).trans hnil) hlive rfl rfl ?_ ?_ rfl rfl
      · change t ∈ (s.takeOff t).rows b (levels - 1) at hm
        rw [hrows] at hm
        exact hm
      · cases soft
        · exact congrArg (t :: ·) (hlist.trans hnil)
        · exact congrArg (t :: ·) hnil
      · cases soft <;> rfl

/-- **A callback returns**, and leaves its timer as the condition asks. -/
theorem returned (h : CallsInv levels none s) (hn : 0 < levels) (hrun : s.running soft = some t)
    (hok : s.localList soft = [] ∨ (s.timer t).periodic = true ∨ (s.timer t).activated = false) :
    CallsInv levels none (s.returned levels soft t) := by
  have hidle : (s.idle soft).localList soft = s.localList soft := by cases soft <;> rfl
  unfold TimerCalls.returned
  dsimp only
  rw [hidle]
  by_cases hempty : s.localList soft = []
  · rw [if_pos hempty]
    have hlist : ∀ b, (s.idle soft).localList b = s.localList b := by
      intro b
      cases b <;> rfl
    refine ⟨h.rows, fun b u hu => ?_, fun b => ?_, h.apart, h.off, h.agrees, h.dead⟩
    · rw [hlist] at hu
      have hb : b ≠ soft := by
        rintro rfl
        rw [hempty] at hu
        exact List.not_mem_nil hu
      exact (Function.update_of_ne hb none s.running).trans (h.executing b u hu)
    · rw [hlist]
      exact h.single b
  · rw [if_neg hempty]
    obtain ⟨u, hu⟩ := List.exists_mem_of_ne_nil _ hempty
    obtain rfl : u = t := Option.some.inj ((h.executing soft u hu).symm.trans hrun)
    have hlive := h.live (.inr ⟨soft, hu⟩)
    obtain ⟨hpop, -, hcall⟩ : CallsInv levels (some u) ((s.idle soft).dropLocal soft u) ∧ _ ∧
        ∀ v, ((s.idle soft).dropLocal soft u).InCallback v ↔
          s.InCallback v ∧ ¬ v ∈ s.localList soft :=
      h.pop hrun rfl rfl (fun b => by cases b <;> cases soft <;> rfl) rfl rfl
    by_cases hp : (s.timer u).periodic = true ∧ (s.timer u).activated = true
    · refine Eq.mpr (congrArg _ (if_pos hp)) ?_
      exact (hpop.set fun x => { x with activated := false }).start hn (.inr rfl) hlive
    · refine Eq.mpr (congrArg _ (if_neg hp)) ?_
      refine hpop.stopped ?_ (h.off u ⟨soft, hu⟩) fun hc => ((hcall u).mp hc).2 hu
      rcases hok with hnil | hper | hact
      · exact absurd hnil hempty
      · exact (Bool.not_eq_true _).mp fun hact => hp ⟨hper, hact⟩
      · exact hact

/-- One timer is excepted. -/
theorem except (h : CallsInv levels none s) (t : T) : CallsInv levels (some t) s :=
  ⟨h.rows, h.executing, h.single, h.apart, h.off, fun u _ => h.agrees u (fun heq => nomatch heq),
    fun u _ => h.dead u (fun heq => nomatch heq)⟩

/-- The excepted timer is initialized or detached. -/
theorem setLive (h : CallsInv levels (some t) s) (live : Bool) :
    CallsInv levels (some t) { s with live := Function.update s.live t live } := by
  refine ⟨h.rows, h.executing, h.single, h.apart, h.off, h.agrees, fun u hu hl => ?_⟩
  have hne : u ≠ t := fun heq => hu (congrArg some heq.symm)
  exact h.dead u hu ((Function.update_of_ne hne live s.live).symm.trans hl)

/-- A timer is written, but not its activation. -/
theorem setSame (h : CallsInv levels none s) (t : T) {f : Timer → Timer}
    (hf : (f (s.timer t)).activated = (s.timer t).activated) :
    CallsInv levels none (s.set t f) := by
  have hself : ((s.set t f).timer t).activated = (s.timer t).activated := by
    rw [set_self, hf]
  refine ((h.except t).set f).close (fun hc => ?_) fun hl => ?_
  · rw [hself]
    exact h.agrees t (fun heq => nomatch heq) hc
  · rw [hself]
    exact h.dead t (fun heq => nomatch heq) hl

/-- A timer is taken off and not activated any more. -/
theorem takeAway (h : CallsInv levels none s) (hn : 0 < levels) (t : T) :
    CallsInv levels (some t) ((s.remove t).set t fun x => { x with activated := false }) ∧
    CallsInv levels none ((s.remove t).set t fun x => { x with activated := false }) := by
  have hrem := (h.remove hn (t := t) (.inl rfl)).set fun x => { x with activated := false }
  refine ⟨hrem, hrem.stopped ?_ (fun hl => ((linked_remove h.rows hn).mp hl).1 rfl)
    fun hc => (h.inCallback_remove.mp hc).1 rfl⟩
  rw [set_self]

theorem init (h : CallsInv levels none s) {time : Tick} {periodic : Bool}
    (hs : s.init t time periodic soft = some s') : CallsInv levels none s' := by
  unfold TimerCalls.init TimerState.timerInit at hs
  split_ifs at hs with hlive htime <;> cases hs
  have hd := h.dead t (fun heq => nomatch heq) ((Bool.not_eq_true _).mp hlive)
  have hl : ¬ s.Linked levels t := by
    rw [← h.agrees t (fun heq => nomatch heq) hd.2, hd.1]
    exact Bool.false_ne_true
  have ha := congrArg Timer.activated (set_self s t fun _ => ⟨time, 0, periodic, false, soft⟩)
  have hset := (h.except t).set fun _ => ⟨time, 0, periodic, false, soft⟩
  exact (hset.setLive true).stopped ha hl hd.2

theorem detach (h : CallsInv levels none s) (hn : 0 < levels) (t : T) :
    CallsInv levels none (s.detach t) := by
  obtain ⟨hexc, hall⟩ := h.takeAway hn t
  have ha := congrArg Timer.activated
    (set_self (s.remove t) t fun x => { x with activated := false })
  exact (hexc.setLive false).stopped ha (fun hl => ((linked_remove h.rows hn).mp hl).1 rfl)
    fun hc => (h.inCallback_remove.mp hc).1 rfl

theorem stop (h : CallsInv levels none s) (hn : 0 < levels) (t : T) :
    CallsInv levels none (s.stop t) := by
  unfold TimerCalls.stop
  split_ifs
  · exact (h.takeAway hn t).2
  · exact h

/-- **The step lemma.** -/
theorem step (h : CallsInv levels none s) (hn : 0 < levels) (hok : s.staysPeriodic a = true)
    (hs : s.step levels a = some s') : CallsInv levels none s' := by
  have hlive : ∀ {t s₁}, s.onLive t s₁ = some s' → s.live t = true ∧ s₁ = s' := by
    intro t s₁ hl
    unfold onLive at hl
    split_ifs at hl with ht
    exact ⟨ht, Option.some.inj hl⟩
  cases a with
  | init t time periodic soft => exact h.init hs
  | detach t =>
    obtain ⟨-, rfl⟩ := hlive hs
    exact h.detach hn t
  | start t =>
    obtain ⟨ht, rfl⟩ := hlive hs
    exact h.start hn (.inl rfl) ht
  | stop t =>
    obtain ⟨-, rfl⟩ := hlive hs
    exact h.stop hn t
  | setTime t time =>
    dsimp only [TimerCalls.step] at hs
    split_ifs at hs
    cases hs
    exact h.setSame t rfl
  | setOneshot t =>
    obtain ⟨-, rfl⟩ := hlive hs
    exact h.setSame t rfl
  | setPeriodic t =>
    obtain ⟨-, rfl⟩ := hlive hs
    exact h.setSame t rfl
  | tick =>
    change s.tickStep = some s' at hs
    unfold tickStep at hs
    split_ifs at hs
    cases hs
    exact ⟨h.rows, h.executing, h.single, h.apart, h.off, h.agrees, h.dead⟩
  | expire soft => exact h.expire hn hs
  | callbackEnd soft =>
    obtain ⟨t, hrun, -, rfl⟩ := callbackEnd_cases hs
    refine h.returned hn hrun ?_
    simp only [staysPeriodic, hrun, Option.all_some, Bool.or_eq_true, decide_eq_true_eq,
      Bool.not_eq_true'] at hok
    exact or_assoc.mp hok
  | checkEnd soft =>
    change s.checkEnd levels soft = some s' at hs
    unfold checkEnd at hs
    split_ifs at hs
    cases hs
    exact ⟨h.rows, h.executing, h.single, h.apart, h.off, h.agrees, h.dead⟩

/-- At the start. -/
theorem initial (hs : s.Initial) : CallsInv levels none s := by
  obtain ⟨hrows, hlist, hsoft, hrun, htimer, -⟩ := hs
  have hlocal : ∀ soft, s.localList soft = [] := by
    intro soft
    cases soft
    · exact hlist
    · exact hsoft
  have hno : ∀ t, ¬ s.InCallback t := by
    rintro t ⟨soft, ht⟩
    rw [hlocal] at ht
    exact List.not_mem_nil ht
  refine ⟨fun soft => ⟨fun l _ => ?_, fun l _ => ?_⟩, fun soft t ht => ?_, fun soft => ?_,
    fun t ht => ?_, fun t ht => absurd ht (hno t), fun t _ _ => ?_,
    fun t _ _ => ⟨(htimer t).1, hno t⟩⟩
  · rw [hrows]
    exact List.nil_subset _
  · rw [hrows]
    exact List.nodup_nil
  · exact absurd ⟨soft, ht⟩ (hno t)
  · rw [hlocal]
    exact List.nodup_nil
  · exact absurd ⟨false, ht⟩ (hno t)
  · refine iff_of_false ?_ ?_
    · rw [(htimer t).1]
      exact Bool.false_ne_true
    · rintro ⟨soft, ht⟩
      unfold TimerState.bottom at ht
      rw [hrows] at ht
      exact List.not_mem_nil ht

theorem reach (hn : 0 < levels) (h : (timerCalls T levels).Reach staysPeriodic s) :
    CallsInv levels none s :=
  h.invariant (fun _ h0 => initial h0) fun _ _ _ h hok hs => h.step hn hok hs

theorem agreed (h : CallsInv levels none s) : s.Agrees levels := by
  intro t hf ht
  refine h.agrees t (fun heq => nomatch heq) ?_
  rintro ⟨soft, hc⟩
  cases soft
  · exact hf (h.executing false t hc)
  · exact ht (h.executing true t hc)

/-- **A timer that is left one-shot and activated** is not linked. -/
theorem leftActivated (h : CallsInv levels none s)
    (hbad : s.staysPeriodic (.callbackEnd soft) = false)
    (hs : s.callbackEnd levels soft = some s') :
    ∃ t, s.running soft = some t ∧ (s'.timer t).activated = true ∧ ¬ s'.Linked levels t := by
  obtain ⟨t, hrun, -, rfl⟩ := callbackEnd_cases hs
  simp only [staysPeriodic, hrun, Option.all_some, Bool.or_eq_false_iff, decide_eq_false_iff_not,
    Bool.not_eq_false'] at hbad
  obtain ⟨⟨hne, hper⟩, hact⟩ := hbad
  have hidle : (s.idle soft).localList soft = s.localList soft := by cases soft <;> rfl
  obtain ⟨u, hu⟩ := List.exists_mem_of_ne_nil _ hne
  obtain rfl : u = t := Option.some.inj ((h.executing soft u hu).symm.trans hrun)
  have hp : ¬ ((s.timer u).periodic = true ∧ (s.timer u).activated = true) := by
    rw [hper]
    exact fun hp => Bool.false_ne_true hp.1
  have heq : s.returned levels soft u = (s.idle soft).dropLocal soft u := by
    unfold TimerCalls.returned
    dsimp only
    rw [hidle, if_neg hne]
    exact if_neg hp
  rw [heq]
  exact ⟨u, hrun, hact, h.off u ⟨soft, hu⟩⟩

end CallsInv

end

/-- **Activated and linked**: in the runs whose callbacks do not leave their timers one-shot and
activated, a timer is activated exactly when it is linked, outside its callback; and a callback that
does leaves its timer activated and not linked. -/
theorem timer_activated {T : Type} [DecidableEq T] {levels : ℕ} (hn : 0 < levels) {s : TimerCalls T}
    (h : (timerCalls T levels).Reach TimerCalls.staysPeriodic s) :
    s.Agrees levels ∧ ∀ soft s', (timerCalls T levels).step s (.callbackEnd soft) = some s' →
      s.staysPeriodic (.callbackEnd soft) = false →
      ∃ t, s.running soft = some t ∧ (s'.timer t).activated = true ∧ ¬ s'.Linked levels t := by
  have hinv := CallsInv.reach hn h
  exact ⟨hinv.agreed, fun soft s' hs hbad => hinv.leftActivated hbad hs⟩

/-- One timer. -/
def oneTimer : TimerCalls Unit where
  tick := 0
  timer _ := ⟨0, 0, false, false, false⟩
  rows _ _ := []
  list := []
  randomNr := 0
  softTimerBusy := false
  timerThreadSuspended := false
  called := []
  starts := 1
  startedAt _ := 0
  softList := []
  running _ := none
  checking _ := false
  live _ := false

theorem oneTimer_initial : oneTimer.Initial :=
  ⟨fun _ _ => rfl, rfl, rfl, fun _ => rfl, fun _ => ⟨rfl, rfl⟩, fun _ => Nat.one_pos⟩

/-- A periodic timer is called back and started again. -/
theorem timer_activated_periodic : ∃ s : TimerCalls Unit,
    (timerCalls Unit 1).Reach TimerCalls.staysPeriodic s ∧ s.starts = 3 ∧ s.Agrees 1 := by
  obtain ⟨s, h, hp⟩ := (timerCalls Unit 1).exists_reach TimerCalls.staysPeriodic
    (fun s => decide (s.starts = 3)) oneTimer_initial
    [.init () 1 true false, .start (), .tick, .expire false, .callbackEnd false] (by decide)
  exact ⟨s, h, of_decide_eq_true hp, (timer_activated Nat.one_pos h).1⟩

/-- **A callback that makes its timer one-shot**: the timer stays activated and hangs nowhere. -/
theorem timer_oneshot_activated : ∃ s : TimerCalls Unit,
    (timerCalls Unit 1).Reach System.anyStep s ∧ ¬ s.Agrees 1 := by
  obtain ⟨s, h, hp⟩ := (timerCalls Unit 1).exists_reach System.anyStep
    (fun s => decide (s.running false = none ∧ s.running true = none ∧
      (s.timer ()).activated = true ∧ ∀ soft, s.bottom 1 soft = [])) oneTimer_initial
    [.init () 1 true false, .start (), .tick, .expire false, .setOneshot (), .callbackEnd false]
    (by decide)
  obtain ⟨hf, ht, hact, hbot⟩ := of_decide_eq_true hp
  refine ⟨s, h, fun hag => ?_⟩
  obtain ⟨soft, hm⟩ := (hag () (by rw [hf]; exact nofun) (by rw [ht]; exact nofun)).mp hact
  rw [hbot] at hm
  exact List.not_mem_nil hm

end RtThread
