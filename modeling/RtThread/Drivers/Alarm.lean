import RtThread.Lib.Least
import RtThread.Lib.System

/-!
# The alarms of the real-time clock

The container keeps the alarms and the one that the clock is programmed with, `current`. A started alarm
is compared with it in `rt_alarm_start`; `alarm_update` wakes the alarms up and chooses among all.

* `Tm`, `Alarm`, `Alarms`: times, alarms, and the container with the clock;
* `alarmSetup`, `alarmWakeup`, `alarmUpdate`, `alarmStart`, `alarmStop`, `alarmDelete`: the functions,
  for any times they read;
* `distance`, `Programmed`: the clock has the alarm that comes next;
* **`alarm_programmed`**: it has, in every run whose calls meet `alarmOk`; `alarm_not_programmed`.
-/

set_option linter.unusedSectionVars false

namespace RtThread

/-! ## Times and alarms -/

/-- `struct tm`. -/
structure Tm where
  sec : ℤ
  min : ℤ
  hour : ℤ
  mday : ℤ := 1
  mon : ℤ := 0
  year : ℤ := 0
  wday : ℤ := 0
deriving DecidableEq

/-- The kind of an alarm, `flag & 0xFF00`. -/
inductive AlarmKind where
  | oneshot
  | daily
  | weekly
  | monthly
  | yearly
  | hour
  | minute
  | second
  | other
deriving DecidableEq

/-- `struct rt_alarm`: its kind, `RT_ALARM_STATE_START`, `RT_ALARM_STATE_INITED` and its time. -/
structure Alarm where
  kind : AlarmKind
  started : Bool := false
  inited : Bool := false
  wktime : Tm
deriving DecidableEq

/-- The clock: the time of its alarm, and whether it is enabled. -/
structure Wkalarm where
  enable : Bool
  time : Tm
deriving DecidableEq

/-- The container, the clock, and the time that the last call has read. -/
structure Alarms (A : Type) where
  head : List A
  alarm : A → Alarm
  current : Option A
  rtc : Option Wkalarm
  now : Tm

/-- What the build and the C library fix: `RT_USING_SOFT_RTC`, and `mktime` or `timegm` as 32-bit
numbers. -/
structure AlarmConfig where
  softRtc : Bool
  stamp : Tm → BitVec 32

/-- `RT_ALARM_DELAY`. -/
def AlarmConfig.delay (cfg : AlarmConfig) : ℕ := if cfg.softRtc then 0 else 2

/-- `alarm_mkdaysec`. -/
def alarmMkdaysec (t : Tm) : ℤ := t.sec + t.min * 60 + t.hour * 3600

/-- A time of day. -/
def Tm.Valid (t : Tm) : Prop :=
  0 ≤ t.sec ∧ t.sec ≤ 59 ∧ 0 ≤ t.min ∧ t.min ≤ 59 ∧ 0 ≤ t.hour ∧ t.hour ≤ 23

instance (t : Tm) : Decidable t.Valid := inferInstanceAs (Decidable (_ ∧ _))

/-! ## Setting an alarm up -/

/-- `days_of_year_month`. -/
def daysOfYearMonth (year mon : ℤ) : ℤ :=
  let y := year + 1900
  if mon = 1 then 28 + if (y % 4 = 0 ∧ y % 100 ≠ 0) ∨ y % 400 = 0 then 1 else 0
  else if (mon ≤ 6 ∧ mon % 2 = 0) ∨ (mon > 6 ∧ mon % 2 = 1) then 31
  else 30

/-- `is_valid_date`. -/
def isValidDate (t : Tm) : Bool :=
  0 ≤ t.year && t.year ≤ 137 && 0 ≤ t.mon && t.mon ≤ 11 && 1 ≤ t.mday &&
    t.mday ≤ daysOfYearMonth t.year t.mon

/-- A hour later. -/
def nextHour (t : Tm) (hour : ℤ) : Tm := { t with hour := if hour + 1 > 23 then 0 else hour + 1 }

/-- A minute later, in an hour. -/
def nextMinute (t : Tm) (hour min : ℤ) : Tm :=
  if min + 1 > 59 then nextHour { t with min := 0 } hour else { t with min := min + 1, hour }

/-- A second later than a time. -/
def nextSecond (t now : Tm) : Tm :=
  if now.sec + 1 > 59 then nextMinute { t with sec := 0 } now.hour now.min
  else { t with sec := now.sec + 1, min := now.min, hour := now.hour }

/-- The "don't care" values of a time of day are those of now. -/
def dontCare (t now : Tm) : Tm :=
  { t with
    sec := if t.sec > 59 ∨ t.sec < 0 then now.sec else t.sec
    min := if t.min > 59 ∨ t.min < 0 then now.min else t.min
    hour := if t.hour > 23 ∨ t.hour < 0 then now.hour else t.hour }

/-- The cases of `alarm_setup`; `none` is an error, after which the time is as it was changed. -/
def setupKind (kind : AlarmKind) (t now : Tm) : Option Tm × Tm :=
  match kind with
  | .second => (some (nextSecond t now), t)
  | .minute => (some (nextMinute t now.hour now.min), t)
  | .hour => (some (nextHour t now.hour), t)
  | .daily => (some t, t)
  | .oneshot =>
    let t := { t with
      year := if t.year = -1 then now.year else t.year
      mon := if t.mon = -1 then now.mon else t.mon
      mday := if t.mday = -1 then now.mday else t.mday }
    (if isValidDate t then some t else none, t)
  | .weekly => (some { t with wday := if t.wday < 0 ∨ t.wday > 6 then now.wday else t.wday }, t)
  | .monthly => (some { t with mday := if t.mday < 1 ∨ t.mday > 31 then now.mday else t.mday }, t)
  | .yearly =>
    let mon := if t.mon < 0 ∨ t.mon > 11 then now.mon else t.mon
    let last : ℤ := if mon = 1 then 29
      else if (mon ≤ 6 ∧ mon % 2 = 0) ∨ (mon > 6 ∧ mon % 2 = 1) then 31 else 30
    (some { t with mon, mday := if t.mday < 1 ∨ t.mday > last then now.mday else t.mday }, t)
  | .other => (none, t)

/-- `alarm_setup` with the time of the alarm itself: whether it succeeds, and the alarm. -/
def alarmSetup (cfg : AlarmConfig) (a : Alarm) (now : Tm) : Bool × Alarm :=
  match setupKind a.kind (dontCare a.wktime now) now with
  | (none, t) => (false, { a with wktime := t })
  | (some t, _) =>
    let t := if t.hour = 23 ∧ t.min = 59 ∧ t.sec = 59 then { t with sec := 60 - cfg.delay } else t
    (true, { a with wktime := t, inited := true })

namespace Alarms

variable {A : Type} [DecidableEq A] (s : Alarms A) (cfg : AlarmConfig) (a : A) (now : Tm)

/-- Change an alarm. -/
def setAlarm (x : Alarm) : Alarms A := { s with alarm := Function.update s.alarm a x }

/-- `alarm_set`, which succeeds: the clock has the time of the alarm, and is enabled for a started
one. -/
def alarmSet : Alarms A :=
  { s with rtc := some ⟨(s.alarm a).started, (s.alarm a).wktime⟩ }

/-! ## Updates -/

/-- What `alarm_wakeup` makes of a started alarm: a one-shot one that is due is stopped, and the time of
a repeating one moves on. -/
def wake (cfg : AlarmConfig) (x : Alarm) (now : Tm) : Alarm :=
  if x.started then
    match x.kind with
    | .oneshot =>
      if (cfg.stamp now - cfg.stamp x.wktime).toNat ≤ cfg.delay ∧
          cfg.stamp now ≥ cfg.stamp x.wktime then { x with started := false }
      else x
    | .second => { x with wktime := nextSecond x.wktime now }
    | .minute =>
      if x.wktime.sec = now.sec then { x with wktime := nextMinute x.wktime now.hour now.min }
      else { x with wktime := { x.wktime with hour := now.hour } }
    | .hour =>
      if x.wktime.min = now.min ∧ x.wktime.sec = now.sec then
        { x with wktime := nextHour x.wktime now.hour }
      else x
    | _ => x
  else x

/-- `alarm_wakeup`: the clock is programmed with a one-shot alarm that is stopped. -/
def alarmWakeup : Alarms A :=
  let x := wake cfg (s.alarm a) now
  let s' := s.setAlarm a x
  if (s.alarm a).started && !x.started then s'.alarmSet a else s'

/-- The loop over the alarms of `alarm_update`: the alarm after now and the most recent, with its
distance, and the alarm before now and furthest from it. -/
def selectStep (r : (ℤ × Option A) × (ℤ × Option A)) (alarm : A) : (ℤ × Option A) × (ℤ × Option A) :=
  if (s.alarm alarm).started then
    let secTmp := alarmMkdaysec (s.alarm alarm).wktime - alarmMkdaysec now
    if secTmp > 0 then if secTmp < r.1.1 then ((secTmp, some alarm), r.2) else r
    else if secTmp < r.2.1 then (r.1, (secTmp, some alarm)) else r
  else r

/-- The alarm that is enabled at the end of `alarm_update`. -/
def enableNext : Alarms A :=
  let r := s.head.foldl (s.selectStep now) ((24 * 3600, none), (0, none))
  match (if r.1.1 < 24 * 3600 then r.1.2 else if r.2.1 < 0 then r.2.2 else none) with
  | some alarm => { s.alarmSet alarm with current := some alarm }
  | none =>
    match s.current with
    | some c =>
      let s := s.alarmSet c
      if (s.alarm c).started then s else { s with current := none }
    | none => s

/-- `alarm_update`, which reads the time twice. -/
def alarmUpdate (now₁ now₂ : Tm) : Alarms A :=
  if s.head = [] then s
  else (s.head.foldl (fun s a => s.alarmWakeup cfg a now₁) s).enableNext now₂

/-! ## Calls -/

/-- The comparison of `rt_alarm_start`: the new alarm comes before the current one. -/
def comesFirst (now old new : Tm) : Bool :=
  let secNow := alarmMkdaysec now
  let secOld := alarmMkdaysec old
  let secNew := alarmMkdaysec new
  if secNew < secOld ∧ secNew > secNow then true
  else if secNew > secNow ∧ secOld < secNow then true
  else decide (secNew < secOld ∧ secOld < secNow)

/-- `rt_alarm_start`, which reads the time in `alarm_setup` and again. -/
def alarmStart (now₁ now₂ : Tm) : Alarms A :=
  if (s.alarm a).started then s
  else
    let r := alarmSetup cfg (s.alarm a) now₁
    let s := s.setAlarm a r.2
    if !r.1 then s
    else
      let s := s.setAlarm a { r.2 with started := true }
      match s.current with
      | none => { s.alarmSet a with current := some a }
      | some c =>
        if comesFirst now₂ (s.alarm c).wktime (s.alarm a).wktime then
          { s.alarmSet a with current := some a }
        else s

/-- Stop an alarm, and take the clock from it. -/
def stopped : Alarms A :=
  let s := s.setAlarm a { s.alarm a with started := false }
  if s.current = some a then { s.alarmSet a with current := none } else s

/-- `rt_alarm_stop`. -/
def alarmStop (now₁ now₂ : Tm) : Alarms A :=
  if (s.alarm a).started then (s.stopped a).alarmUpdate cfg now₁ now₂ else s

/-- `rt_alarm_delete`. -/
def alarmDelete (now₁ now₂ : Tm) : Alarms A :=
  let s' := if s.current = some a then (s.stopped a).alarmUpdate cfg now₁ now₂ else s.stopped a
  { s' with head := s'.head.erase a }

end Alarms

/-- A call, with the times it reads. -/
inductive AlarmCall (A : Type) where
  | start (a : A) (now₁ now₂ : Tm)
  | stop (a : A) (now₁ now₂ : Tm)
  | delete (a : A) (now₁ now₂ : Tm)
  | update (now₁ now₂ : Tm)

/-- The times that a call reads. -/
def AlarmCall.times {A : Type} : AlarmCall A → Tm × Tm
  | .start _ now₁ now₂ => (now₁, now₂)
  | .stop _ now₁ now₂ => (now₁, now₂)
  | .delete _ now₁ now₂ => (now₁, now₂)
  | .update now₁ now₂ => (now₁, now₂)

section

variable {A : Type} [DecidableEq A]

/-- What a call leaves; its alarm is in the container. -/
def Alarms.call (cfg : AlarmConfig) (s : Alarms A) : AlarmCall A → Option (Alarms A)
  | .start a now₁ now₂ => if a ∈ s.head then some (s.alarmStart cfg a now₁ now₂) else none
  | .stop a now₁ now₂ => if a ∈ s.head then some (s.alarmStop cfg a now₁ now₂) else none
  | .delete a now₁ now₂ => if a ∈ s.head then some (s.alarmDelete cfg a now₁ now₂) else none
  | .update now₁ now₂ => some (s.alarmUpdate cfg now₁ now₂)

/-- A call at valid times. -/
def Alarms.step (cfg : AlarmConfig) (s : Alarms A) (c : AlarmCall A) : Option (Alarms A) :=
  if c.times.1.Valid ∧ c.times.2.Valid then
    (s.call cfg c).map fun s' => { s' with now := c.times.2 }
  else none

/-- Any alarms, none of them started. -/
structure AlarmsInit (s : Alarms A) : Prop where
  nodup : s.head.Nodup
  stopped : ∀ a, (s.alarm a).started = false
  current : s.current = none

/-- The runs of the calls. -/
def alarmSystem (cfg : AlarmConfig) (A : Type) [DecidableEq A] :
    System (Alarms A) (AlarmCall A) where
  init := AlarmsInit
  step := Alarms.step cfg

/-! ## The next alarm -/

/-- The seconds from now to a time of day, 1 to 86400. -/
def distance (now t : Tm) : ℤ := (alarmMkdaysec t - alarmMkdaysec now - 1) % (24 * 3600) + 1

namespace Alarms

variable (s : Alarms A) (cfg : AlarmConfig) (now : Tm)

/-- An alarm of the container that is started. -/
def Started (a : A) : Prop := a ∈ s.head ∧ (s.alarm a).started = true

/-- No started alarm comes before an alarm. -/
def Next (c : A) : Prop :=
  s.Started c ∧ ∀ b, s.Started b →
    distance now (s.alarm c).wktime ≤ distance now (s.alarm b).wktime

/-- **The clock is programmed** with the valid time of an alarm that comes next. -/
def Programmed : Prop :=
  (∃ a, s.Started a) → ∃ c, s.Next s.now c ∧ (s.alarm c).wktime.Valid ∧
    s.rtc = some ⟨true, (s.alarm c).wktime⟩

/-- A time comes no later than the started alarms. -/
def isNext (t : Tm) : Bool :=
  s.head.all fun b => !(s.alarm b).started || decide (distance now t ≤ distance now (s.alarm b).wktime)

/-- The alarm that the clock is programmed with is still the next one. -/
def upToDate : Bool :=
  !(s.head.any fun a => (s.alarm a).started) || s.current.any fun c => s.isNext now (s.alarm c).wktime

/-- An update finds a started alarm that is not due now, or the current one is still started. -/
def updateOk (now₁ now₂ : Tm) : Bool :=
  (s.head.all fun b => !(wake cfg (s.alarm b) now₁).started) ||
  (s.head.any fun b => (wake cfg (s.alarm b) now₁).started &&
    alarmMkdaysec (wake cfg (s.alarm b) now₁).wktime != alarmMkdaysec now₂) ||
  s.current.any fun c => (wake cfg (s.alarm c) now₁).started

/-- **The condition** on a call. -/
def alarmOk (cfg : AlarmConfig) (s : Alarms A) : AlarmCall A → Bool
  | .start a now₁ now₂ =>
    let r := alarmSetup cfg (s.alarm a) now₁
    if (s.alarm a).started || !r.1 then s.upToDate now₂
    else
      decide (r.2.wktime.sec ≤ 59) &&
      (!(s.head.any fun b => (s.alarm b).started) ||
        match s.current with
        | none => s.isNext now₂ r.2.wktime
        | some c =>
          (s.isNext now₂ (s.alarm c).wktime &&
            (alarmMkdaysec (s.alarm c).wktime != alarmMkdaysec now₂ ||
              alarmMkdaysec r.2.wktime == alarmMkdaysec now₂)) ||
          (comesFirst now₂ (s.alarm c).wktime r.2.wktime && s.isNext now₂ r.2.wktime))
  | .stop a now₁ now₂ =>
    if (s.alarm a).started then (s.stopped a).updateOk cfg now₁ now₂ else s.upToDate now₂
  | .delete a now₁ now₂ =>
    if s.current = some a then (s.stopped a).updateOk cfg now₁ now₂
    else (s.stopped a).upToDate now₂
  | .update now₁ now₂ => s.updateOk cfg now₁ now₂

end Alarms

/-! ## Times -/

section

variable {now t u : Tm} {cfg : AlarmConfig}

theorem daysec_bounds (h : t.Valid) : 0 ≤ alarmMkdaysec t ∧ alarmMkdaysec t < 24 * 3600 := by
  obtain ⟨h1, h2, h3, h4, h5, h6⟩ := h
  unfold alarmMkdaysec
  omega

/-- The distance of a valid time. -/
theorem distance_eq (hn : now.Valid) (ht : t.Valid) :
    distance now t = if alarmMkdaysec now < alarmMkdaysec t then
      alarmMkdaysec t - alarmMkdaysec now
    else alarmMkdaysec t - alarmMkdaysec now + 24 * 3600 := by
  have h1 := daysec_bounds hn
  have h2 := daysec_bounds ht
  unfold distance
  split <;> omega

theorem nextHour_valid (h1 : 0 ≤ t.sec ∧ t.sec ≤ 59) (h2 : 0 ≤ t.min ∧ t.min ≤ 59) {hour : ℤ}
    (h3 : 0 ≤ hour) : (nextHour t hour).Valid := by
  unfold nextHour Tm.Valid
  dsimp only
  split <;> omega

theorem nextMinute_valid (h1 : 0 ≤ t.sec ∧ t.sec ≤ 59) {hour min : ℤ} (h2 : 0 ≤ min)
    (h3 : 0 ≤ hour ∧ hour ≤ 23) : (nextMinute t hour min).Valid := by
  unfold nextMinute
  split
  · refine nextHour_valid (t := { t with min := 0 }) h1 ?_ h3.1
    dsimp only
    omega
  · unfold Tm.Valid
    dsimp only
    omega

theorem nextSecond_valid (h : now.Valid) : (nextSecond t now).Valid := by
  obtain ⟨h1, h2, h3, h4, h5, h6⟩ := h
  unfold nextSecond
  split
  · refine nextMinute_valid (t := { t with sec := 0 }) ?_ h3 ⟨h5, h6⟩
    dsimp only
    omega
  · unfold Tm.Valid
    dsimp only
    omega

theorem dontCare_valid (h : now.Valid) : (dontCare t now).Valid := by
  obtain ⟨h1, h2, h3, h4, h5, h6⟩ := h
  unfold dontCare Tm.Valid
  dsimp only
  refine ⟨?_, ?_, ?_, ?_, ?_, ?_⟩ <;> split <;> omega

theorem setupKind_valid (kind : AlarmKind) (ht : t.Valid) (hn : now.Valid) :
    ∀ u ∈ (setupKind kind t now).1, u.Valid := by
  intro u hu
  cases kind with
  | second => exact Option.some.inj hu ▸ nextSecond_valid hn
  | minute =>
    exact Option.some.inj hu ▸ nextMinute_valid ⟨ht.1, ht.2.1⟩ hn.2.2.1 ⟨hn.2.2.2.2.1, hn.2.2.2.2.2⟩
  | hour =>
    exact Option.some.inj hu ▸
      nextHour_valid ⟨ht.1, ht.2.1⟩ ⟨ht.2.2.1, ht.2.2.2.1⟩ hn.2.2.2.2.1
  | daily => exact Option.some.inj hu ▸ ht
  | oneshot =>
    obtain ⟨-, hu⟩ := Option.ite_none_right_eq_some.mp hu
    cases hu
    exact ht
  | weekly => exact Option.some.inj hu ▸ ht
  | monthly => exact Option.some.inj hu ▸ ht
  | yearly => exact Option.some.inj hu ▸ ht
  | other => cases hu

variable (cfg) in
/-- An alarm that is set up has a valid time, but for a second beyond the last one. -/
theorem alarmSetup_valid {x : Alarm} (hn : now.Valid) (hok : (alarmSetup cfg x now).1 = true)
    (hsec : (alarmSetup cfg x now).2.wktime.sec ≤ 59) :
    (alarmSetup cfg x now).2.wktime.Valid ∧ (alarmSetup cfg x now).2.started = x.started := by
  have hvalid := setupKind_valid x.kind (dontCare_valid (t := x.wktime) hn) hn
  unfold alarmSetup at hok hsec ⊢
  rcases heq : setupKind x.kind (dontCare x.wktime now) now with ⟨_ | u, v⟩
  · rw [heq] at hok
    cases hok
  · have hu := hvalid u (by rw [heq]; rfl)
    rw [heq] at hsec
    dsimp only at hsec ⊢
    refine ⟨?_, rfl⟩
    by_cases h : u.hour = 23 ∧ u.min = 59 ∧ u.sec = 59
    · rw [if_pos h] at hsec ⊢
      obtain ⟨h1, h2, h3, h4, h5, h6⟩ := hu
      refine ⟨?_, hsec, h3, h4, h5, h6⟩
      dsimp only
      unfold AlarmConfig.delay
      split <;> decide
    · rw [if_neg h]
      exact hu

theorem wake_valid {x : Alarm} (hx : x.wktime.Valid) (hn : now.Valid) :
    (Alarms.wake cfg x now).wktime.Valid := by
  obtain ⟨h1, h2, h3, h4, h5, h6⟩ := hx
  obtain ⟨n1, n2, n3, n4, n5, n6⟩ := id hn
  unfold Alarms.wake
  split
  · split
    · split
      · exact ⟨h1, h2, h3, h4, h5, h6⟩
      · exact ⟨h1, h2, h3, h4, h5, h6⟩
    · exact nextSecond_valid hn
    · split
      · exact nextMinute_valid ⟨h1, h2⟩ n3 ⟨n5, n6⟩
      · exact ⟨h1, h2, h3, h4, n5, n6⟩
    · split
      · exact nextHour_valid ⟨h1, h2⟩ ⟨h3, h4⟩ n5
      · exact ⟨h1, h2, h3, h4, h5, h6⟩
    · exact ⟨h1, h2, h3, h4, h5, h6⟩
  · exact ⟨h1, h2, h3, h4, h5, h6⟩

theorem wake_started {x : Alarm} (h : (Alarms.wake cfg x now).started = true) :
    x.started = true := by
  unfold Alarms.wake at h
  split at h
  · assumption
  · exact h

end

/-! ## Updates -/

namespace Alarms

variable {s : Alarms A} {cfg : AlarmConfig} {a b c : A} {now now₁ now₂ : Tm} {l : List A}

theorem setAlarm_self (x : Alarm) : (s.setAlarm a x).alarm a = x := Function.update_self ..

theorem setAlarm_of_ne (x : Alarm) (h : b ≠ a) : (s.setAlarm a x).alarm b = s.alarm b :=
  Function.update_of_ne h _ _

theorem alarmWakeup_alarm :
    (s.alarmWakeup cfg a now).alarm = Function.update s.alarm a (wake cfg (s.alarm a) now) := by
  unfold alarmWakeup
  dsimp only
  split <;> rfl

theorem alarmWakeup_head : (s.alarmWakeup cfg a now).head = s.head := by
  unfold alarmWakeup
  dsimp only
  split <;> rfl

theorem alarmWakeup_current : (s.alarmWakeup cfg a now).current = s.current := by
  unfold alarmWakeup
  dsimp only
  split <;> rfl

variable (cfg now) in
/-- The wake-ups change every alarm of the container once. -/
theorem wakeups (l : List A) (hl : l.Nodup) (s : Alarms A) :
    (l.foldl (fun s a => s.alarmWakeup cfg a now) s).head = s.head ∧
    (l.foldl (fun s a => s.alarmWakeup cfg a now) s).current = s.current ∧
    ∀ b, (l.foldl (fun s a => s.alarmWakeup cfg a now) s).alarm b =
      if b ∈ l then wake cfg (s.alarm b) now else s.alarm b := by
  induction l generalizing s with
  | nil => exact ⟨rfl, rfl, fun b => rfl⟩
  | cons a l ih =>
    obtain ⟨hal, hl'⟩ := List.nodup_cons.mp hl
    obtain ⟨h1, h2, h3⟩ := ih hl' (s.alarmWakeup cfg a now)
    rw [List.foldl_cons]
    refine ⟨h1.trans alarmWakeup_head, h2.trans alarmWakeup_current, fun b => ?_⟩
    rw [h3, alarmWakeup_alarm]
    by_cases hb : b = a
    · subst hb
      rw [if_neg hal, if_pos List.mem_cons_self, Function.update_self]
    · rw [Function.update_of_ne hb]
      simp only [List.mem_cons, hb, false_or]

/-- The loop keeps the first alarm after now and the furthest before it. -/
theorem foldl_selectStep (l : List A) (r : (ℤ × Option A) × (ℤ × Option A)) :
    l.foldl (s.selectStep now) r =
      (firstLeast (fun a => alarmMkdaysec (s.alarm a).wktime - alarmMkdaysec now) r.1
        (l.filter fun a => (s.alarm a).started &&
          decide (alarmMkdaysec (s.alarm a).wktime - alarmMkdaysec now > 0)),
      firstLeast (fun a => alarmMkdaysec (s.alarm a).wktime - alarmMkdaysec now) r.2
        (l.filter fun a => (s.alarm a).started &&
          !decide (alarmMkdaysec (s.alarm a).wktime - alarmMkdaysec now > 0))) := by
  induction l generalizing r with
  | nil => rfl
  | cons a l ih =>
    rw [List.foldl_cons, ih, List.filter_cons, List.filter_cons]
    unfold selectStep
    cases hs : (s.alarm a).started with
    | false => simp
    | true =>
      by_cases h : alarmMkdaysec (s.alarm a).wktime - alarmMkdaysec now > 0
      · simp only [h, decide_true, Bool.and_self, if_true, Bool.not_true, Bool.and_false,
          Bool.false_eq_true, if_false, firstLeast, List.foldl_cons]
        split <;> rfl
      · simp only [h, decide_false, Bool.and_false, Bool.false_eq_true, if_false, if_true,
          Bool.not_false, Bool.and_self, firstLeast, List.foldl_cons]
        split <;> rfl

/-- What holds between two calls. -/
structure Inv (s : Alarms A) : Prop where
  nodup : s.head.Nodup
  valid : ∀ a, s.Started a → (s.alarm a).wktime.Valid
  current : ∀ c, s.current = some c → s.Started c ∧ s.rtc = some ⟨true, (s.alarm c).wktime⟩

/-- The clock is up to date, as a proposition. -/
def UpToDate (s : Alarms A) (now : Tm) : Prop :=
  (∃ a, s.Started a) → ∃ c, s.current = some c ∧ s.Next now c

theorem programmed_of (hi : s.Inv) (h : s.UpToDate s.now) : s.Programmed := by
  intro hs
  obtain ⟨c, hc, hnext⟩ := h hs
  exact ⟨c, hnext, hi.valid c hnext.1, (hi.current c hc).2⟩

/-- The alarm that is chosen: a nearest one, when some started alarm is not due now. -/
theorem enableNext_found (hvalid : ∀ a, s.Started a → (s.alarm a).wktime.Valid) (hn : now.Valid)
    (h : ∃ a, s.Started a ∧ alarmMkdaysec (s.alarm a).wktime ≠ alarmMkdaysec now) :
    ∃ c, s.Next now c ∧ s.enableNext now = { s.alarmSet c with current := some c } := by
  obtain ⟨a, ha, hne⟩ := h
  have hdist : ∀ b, s.Started b → distance now (s.alarm b).wktime = _ :=
    fun b hb => distance_eq hn (hvalid b hb)
  have hrange : ∀ b, s.Started b → _ := fun b hb => daysec_bounds (hvalid b hb)
  have hnow := daysec_bounds hn
  unfold enableNext
  rw [foldl_selectStep]
  dsimp only
  have hmem : ∀ (p : A → Bool) b, b ∈ s.head.filter (fun a => (s.alarm a).started && p a) ↔
      s.Started b ∧ p b = true := by
    intro p b
    rw [List.mem_filter, Bool.and_eq_true, Started, and_assoc]
  have hnot : ∀ b, ¬ alarmMkdaysec (s.alarm b).wktime - alarmMkdaysec now > 0 →
      (!decide (alarmMkdaysec (s.alarm b).wktime - alarmMkdaysec now > 0)) = true := by
    intro b hb
    rw [Bool.not_eq_true', decide_eq_false_iff_not]
    exact hb
  rcases firstLeast_spec (f := fun a => alarmMkdaysec (s.alarm a).wktime - alarmMkdaysec now)
    (24 * 3600, none) (s.head.filter fun a => (s.alarm a).started &&
      decide (alarmMkdaysec (s.alarm a).wktime - alarmMkdaysec now > 0)) with
    ⟨he, hle⟩ | ⟨c, hc, he, hlt, hle⟩
  · rw [he, if_neg (lt_irrefl _)]
    have hbefore : ∀ b, s.Started b → alarmMkdaysec (s.alarm b).wktime ≤ alarmMkdaysec now := by
      intro b hb
      by_contra hgt
      have := hle b ((hmem _ b).mpr ⟨hb, decide_eq_true (by omega)⟩)
      have := hrange b hb
      dsimp only at *
      omega
    rcases firstLeast_spec (f := fun a => alarmMkdaysec (s.alarm a).wktime - alarmMkdaysec now)
      (0, none) (s.head.filter fun a => (s.alarm a).started &&
        !decide (alarmMkdaysec (s.alarm a).wktime - alarmMkdaysec now > 0)) with
      ⟨he', hle'⟩ | ⟨c, hc, he', hlt, hle'⟩
    · have hba := hbefore a ha
      have := hle' a ((hmem _ a).mpr ⟨ha, hnot a (by omega)⟩)
      dsimp only at *
      omega
    · rw [he', if_pos hlt]
      have hcs := ((hmem _ c).mp hc).1
      refine ⟨c, ⟨hcs, fun b hb => ?_⟩, rfl⟩
      have h1 := hbefore b hb
      have h2 := hbefore c hcs
      have := hle' b ((hmem _ b).mpr ⟨hb, hnot b (by omega)⟩)
      rw [hdist b hb, hdist c hcs, if_neg (by omega), if_neg (by omega)]
      omega
  · rw [he, if_pos hlt]
    obtain ⟨hcs, hcp⟩ := (hmem _ c).mp hc
    have hcp := of_decide_eq_true hcp
    refine ⟨c, ⟨hcs, fun b hb => ?_⟩, rfl⟩
    rw [hdist b hb, hdist c hcs, if_pos (by omega)]
    have hcr := hrange c hcs
    have hbr := hrange b hb
    split
    · have := hle b ((hmem _ b).mpr ⟨hb, decide_eq_true (by omega)⟩)
      omega
    · omega

/-- Every started alarm is due now: the current one is kept. -/
theorem enableNext_due (h : ∀ a, s.Started a → alarmMkdaysec (s.alarm a).wktime = alarmMkdaysec now) :
    s.enableNext now =
      match s.current with
      | some c => if (s.alarm c).started then s.alarmSet c else { s.alarmSet c with current := none }
      | none => s := by
  unfold enableNext
  rw [foldl_selectStep]
  dsimp only
  have hmem : ∀ (p : A → Bool) b, b ∈ s.head.filter (fun a => (s.alarm a).started && p a) →
      s.Started b ∧ p b = true := by
    intro p b hb
    rw [List.mem_filter, Bool.and_eq_true, ← and_assoc] at hb
    exact hb
  rcases firstLeast_spec (f := fun a => alarmMkdaysec (s.alarm a).wktime - alarmMkdaysec now)
    (24 * 3600, none) (s.head.filter fun a => (s.alarm a).started &&
      decide (alarmMkdaysec (s.alarm a).wktime - alarmMkdaysec now > 0)) with
    ⟨he, -⟩ | ⟨c, hc, -, -, -⟩
  · rcases firstLeast_spec (f := fun a => alarmMkdaysec (s.alarm a).wktime - alarmMkdaysec now)
      (0, none) (s.head.filter fun a => (s.alarm a).started &&
        !decide (alarmMkdaysec (s.alarm a).wktime - alarmMkdaysec now > 0)) with
      ⟨he', -⟩ | ⟨c, hc, -, hlt, -⟩
    · rw [he, he', if_neg (lt_irrefl _), if_neg (lt_irrefl _)]
      cases hcur : s.current with
      | none => rfl
      | some c => rfl
    · have := h c (hmem _ c hc).1
      dsimp only at hlt
      omega
  · obtain ⟨hcs, hcp⟩ := hmem _ c hc
    have := h c hcs
    have := of_decide_eq_true hcp
    omega

/-- What the wake-ups leave for `enableNext`. -/
structure Woken (s : Alarms A) : Prop where
  nodup : s.head.Nodup
  valid : ∀ a, s.Started a → (s.alarm a).wktime.Valid
  current : ∀ c, s.current = some c → c ∈ s.head

/-- **The end of an update** leaves the clock up to date when some started alarm is not due now, or the
current one is started. -/
theorem Woken.enableNext (hw : s.Woken) (hn : now.Valid) :
    (s.enableNext now).Inv ∧
    ((∀ a, ¬ s.Started a) ∨
      (∃ a, s.Started a ∧ alarmMkdaysec (s.alarm a).wktime ≠ alarmMkdaysec now) ∨
      (∃ c, s.current = some c ∧ (s.alarm c).started = true) → (s.enableNext now).UpToDate now) := by
  by_cases hfound : ∃ a, s.Started a ∧ alarmMkdaysec (s.alarm a).wktime ≠ alarmMkdaysec now
  · obtain ⟨c, hnext, he⟩ := enableNext_found hw.valid hn hfound
    rw [he]
    refine ⟨⟨hw.nodup, hw.valid, fun c' hc' => ?_⟩, fun _ _ => ⟨c, rfl, hnext⟩⟩
    cases hc'
    refine ⟨hnext.1, ?_⟩
    unfold alarmSet
    rw [hnext.1.2]
  · have hdue : ∀ a, s.Started a → alarmMkdaysec (s.alarm a).wktime = alarmMkdaysec now :=
      fun a ha => by_contra fun hne => hfound ⟨a, ha, hne⟩
    rw [enableNext_due hdue]
    cases hcur : s.current with
    | none =>
      dsimp only
      refine ⟨⟨hw.nodup, hw.valid, fun c hc => ?_⟩, fun h hs => ?_⟩
      · rw [hcur] at hc
        cases hc
      · obtain ⟨a, ha⟩ := hs
        rcases h with h | h | ⟨c, hc, -⟩
        · exact absurd ha (h a)
        · exact absurd h hfound
        · cases hc
    | some c =>
      dsimp only
      by_cases hstart : (s.alarm c).started = true
      · rw [if_pos hstart]
        have hc : s.Started c := ⟨hw.current c hcur, hstart⟩
        refine ⟨⟨hw.nodup, hw.valid, fun c' hc' => ?_⟩, fun _ _ => ⟨c, hcur, hc, fun b hb => ?_⟩⟩
        · have hcc : c' = c := Option.some.inj (hc'.symm.trans hcur)
          subst hcc
          refine ⟨hc, ?_⟩
          unfold alarmSet
          rw [hstart]
        · show distance now (s.alarm c).wktime ≤ distance now (s.alarm b).wktime
          unfold distance
          rw [hdue c hc, hdue b hb]
      · rw [if_neg hstart]
        refine ⟨⟨hw.nodup, hw.valid, fun c' hc' => by cases hc'⟩, fun h hs => ?_⟩
        obtain ⟨a, ha⟩ := hs
        rcases h with h | h | ⟨c', hc', hs'⟩
        · exact absurd ha (h a)
        · exact absurd h hfound
        · cases hc'
          exact absurd hs' hstart

variable (cfg now₁ now₂) in
/-- An update starts no alarm and keeps the container. -/
theorem alarmUpdate_keeps (hw : s.Woken) :
    (s.alarmUpdate cfg now₁ now₂).head = s.head ∧
    ∀ b, ((s.alarmUpdate cfg now₁ now₂).alarm b).started = true → (s.alarm b).started = true := by
  unfold alarmUpdate
  split
  · exact ⟨rfl, fun b hb => hb⟩
  · obtain ⟨hhead, -, halarm⟩ := wakeups cfg now₁ s.head hw.nodup s
    generalize s.head.foldl (fun s a => s.alarmWakeup cfg a now₁) s = s' at hhead halarm
    have hkeep : (s'.enableNext now₂).head = s'.head ∧ (s'.enableNext now₂).alarm = s'.alarm := by
      unfold enableNext
      dsimp only
      split
      · exact ⟨rfl, rfl⟩
      · split
        · split <;> exact ⟨rfl, rfl⟩
        · exact ⟨rfl, rfl⟩
    refine ⟨hkeep.1.trans hhead, fun b hb => ?_⟩
    rw [hkeep.2, halarm] at hb
    split at hb
    · exact wake_started hb
    · exact hb

variable (cfg) in
/-- **An update** leaves the clock up to date under its condition. -/
theorem alarmUpdate_inv (hw : s.Woken) (h1 : now₁.Valid) (h2 : now₂.Valid) :
    (s.alarmUpdate cfg now₁ now₂).Inv ∧
    (s.updateOk cfg now₁ now₂ = true → (s.alarmUpdate cfg now₁ now₂).UpToDate now₂) := by
  unfold alarmUpdate
  by_cases hnil : s.head = []
  · have hmem : ∀ a, a ∉ s.head := fun a => hnil ▸ List.not_mem_nil
    rw [if_pos hnil]
    exact ⟨⟨hw.nodup, hw.valid, fun c hc => absurd (hw.current c hc) (hmem c)⟩,
      fun _ ⟨a, ha⟩ => absurd ha.1 (hmem a)⟩
  · rw [if_neg hnil]
    obtain ⟨hhead, hcurrent, halarm⟩ := wakeups cfg now₁ s.head hw.nodup s
    generalize s.head.foldl (fun s a => s.alarmWakeup cfg a now₁) s = s' at hhead hcurrent halarm
    have hmem : ∀ b, b ∈ s.head → s'.alarm b = wake cfg (s.alarm b) now₁ :=
      fun b hb => by rw [halarm, if_pos hb]
    have hw' : s'.Woken := by
      refine ⟨hhead ▸ hw.nodup, fun b hb => ?_, fun c hc => hhead ▸ hw.current c (hcurrent ▸ hc)⟩
      obtain ⟨hb, hs⟩ := hb
      rw [hhead] at hb
      rw [hmem b hb] at hs ⊢
      exact wake_valid (hw.valid b ⟨hb, wake_started hs⟩) h1
    refine ⟨(hw'.enableNext h2).1, fun hok => (hw'.enableNext h2).2 ?_⟩
    unfold updateOk at hok
    rw [Bool.or_eq_true, Bool.or_eq_true] at hok
    rcases hok with (hok | hok) | hok
    · left
      rintro a ⟨ha, hs⟩
      rw [hhead] at ha
      rw [hmem a ha] at hs
      have := List.all_eq_true.mp hok a ha
      rw [hs] at this
      cases this
    · right; left
      obtain ⟨b, hb, h⟩ := List.any_eq_true.mp hok
      obtain ⟨hs, hne⟩ := Bool.and_eq_true_iff.mp h
      refine ⟨b, ⟨hhead ▸ hb, ?_⟩, ?_⟩
      · rw [hmem b hb]
        exact hs
      · rw [hmem b hb]
        exact bne_iff_ne.mp hne
    · right; right
      obtain ⟨c, hc, hs⟩ := (Option.any_eq_true _ _).mp hok
      refine ⟨c, hcurrent.trans hc, ?_⟩
      rw [hmem c (hw.current c hc)]
      exact hs

/-! ## Starts, stops and deletions -/

theorem upToDate_spec (hi : s.Inv) (h : s.upToDate now = true) : s.UpToDate now := by
  rintro ⟨a, ha, hs⟩
  unfold upToDate at h
  rw [Bool.or_eq_true, Bool.not_eq_true', List.any_eq_false] at h
  rcases h with h | h
  · exact absurd hs (h a ha)
  · obtain ⟨c, hc, hnext⟩ := (Option.any_eq_true _ _).mp h
    refine ⟨c, hc, (hi.current c hc).1, fun b hb => ?_⟩
    have := List.all_eq_true.mp hnext b hb.1
    rw [hb.2] at this
    exact of_decide_eq_true this

theorem isNext_spec {t : Tm} (h : s.isNext now t = true) (hb : s.Started b) :
    distance now t ≤ distance now (s.alarm b).wktime := by
  have := List.all_eq_true.mp h b hb.1
  rw [hb.2] at this
  exact of_decide_eq_true this

/-- Changing an alarm to one that is not started. -/
theorem started_setAlarm {x : Alarm} (hx : x.started = false) :
    (s.setAlarm a x).Started b ↔ s.Started b ∧ b ≠ a := by
  by_cases hb : b = a
  · subst hb
    refine ⟨fun h => ?_, fun h => absurd rfl h.2⟩
    have := h.2
    rw [setAlarm_self, hx] at this
    cases this
  · unfold Started
    rw [setAlarm_of_ne x hb]
    exact ⟨fun h => ⟨h, hb⟩, fun h => h.1⟩

/-- An alarm that is not the current one is changed to one that is not started. -/
theorem Inv.setAlarm {x : Alarm} (hi : s.Inv) (hx : x.started = false) (ha : s.current ≠ some a) :
    (s.setAlarm a x).Inv := by
  refine ⟨hi.nodup, fun b hb => ?_, fun c hc => ?_⟩
  · obtain ⟨hb, hne⟩ := (started_setAlarm hx).mp hb
    rw [setAlarm_of_ne x hne]
    exact hi.valid b hb
  · have hne : c ≠ a := fun h => ha (h ▸ hc)
    rw [started_setAlarm hx, setAlarm_of_ne x hne]
    exact ⟨⟨(hi.current c hc).1, hne⟩, (hi.current c hc).2⟩

/-- An alarm that is not started is changed to another one. -/
theorem UpToDate.setAlarm {x : Alarm} (hu : s.UpToDate now) (hx : x.started = false)
    (ha : (s.alarm a).started = false) : (s.setAlarm a x).UpToDate now := by
  rintro ⟨b, hb⟩
  have hne : ∀ b, s.Started b → b ≠ a := by
    intro b hs h
    rw [← h, hs.2] at ha
    cases ha
  obtain ⟨c, hc, hcs, hle⟩ := hu ⟨b, ((started_setAlarm hx).mp hb).1⟩
  refine ⟨c, hc, (started_setAlarm hx).mpr ⟨hcs, hne c hcs⟩, fun b hb => ?_⟩
  obtain ⟨hb, hba⟩ := (started_setAlarm hx).mp hb
  rw [setAlarm_of_ne x hba, setAlarm_of_ne x (hne c hcs)]
  exact hle b hb

theorem stopped_of_ne (h : s.current ≠ some a) :
    s.stopped a = s.setAlarm a { s.alarm a with started := false } := if_neg h

theorem stopped_of_eq (h : s.current = some a) :
    s.stopped a =
      { (s.setAlarm a { s.alarm a with started := false }).alarmSet a with current := none } :=
  if_pos h

/-- Stopping an alarm leaves what an update starts from. -/
theorem Inv.stopped (hi : s.Inv) : (s.stopped a).Woken := by
  have hvalid : ∀ b, (s.setAlarm a { s.alarm a with started := false }).Started b →
      ((s.setAlarm a { s.alarm a with started := false }).alarm b).wktime.Valid := by
    intro b hb
    obtain ⟨hb, hne⟩ := (started_setAlarm rfl).mp hb
    rw [setAlarm_of_ne _ hne]
    exact hi.valid b hb
  by_cases hc : s.current = some a
  · rw [stopped_of_eq hc]
    exact ⟨hi.nodup, hvalid, fun c hc => by cases hc⟩
  · rw [stopped_of_ne hc]
    exact ⟨hi.nodup, hvalid, fun c hc => (hi.current c hc).1.1⟩

theorem stopped_started : ((s.stopped a).alarm a).started = false := by
  unfold Alarms.stopped
  dsimp only
  split
  · exact congrArg Alarm.started (setAlarm_self _)
  · exact congrArg Alarm.started (setAlarm_self _)

variable (now) in
/-- Taking an alarm that is not started out of the container. -/
theorem erase_inv (hi : s.Inv) (ha : (s.alarm a).started = false) :
    Inv { s with head := s.head.erase a } ∧
    (s.UpToDate now → UpToDate { s with head := s.head.erase a } now) := by
  have hst : ∀ b, Started { s with head := s.head.erase a } b ↔ s.Started b := by
    intro b
    refine and_congr_left fun hb => List.mem_erase_of_ne ?_
    rintro rfl
    rw [ha] at hb
    cases hb
  refine ⟨⟨hi.nodup.erase a, fun b hb => hi.valid b ((hst b).mp hb), fun c hc => ?_⟩, ?_⟩
  · exact ⟨(hst c).mpr (hi.current c hc).1, (hi.current c hc).2⟩
  · rintro hu ⟨b, hb⟩
    obtain ⟨c, hc, hcs, hle⟩ := hu ⟨b, (hst b).mp hb⟩
    exact ⟨c, hc, (hst c).mpr hcs, fun b hb => hle b ((hst b).mp hb)⟩

/-- The cascade agrees with the distances, but for an old alarm that is due now. -/
theorem comesFirst_spec {old new : Tm} (hn : now.Valid) (ho : old.Valid) (hw : new.Valid)
    (h : alarmMkdaysec old ≠ alarmMkdaysec now ∨ alarmMkdaysec new = alarmMkdaysec now) :
    if comesFirst now old new then distance now new ≤ distance now old
    else distance now old ≤ distance now new := by
  have h1 := daysec_bounds hn
  have h2 := daysec_bounds ho
  have h3 := daysec_bounds hw
  rw [distance_eq hn ho, distance_eq hn hw]
  unfold comesFirst
  dsimp only
  by_cases hc1 : alarmMkdaysec new < alarmMkdaysec old ∧ alarmMkdaysec new > alarmMkdaysec now
  · rw [if_pos hc1, if_pos rfl, if_pos hc1.2]
    split <;> omega
  by_cases hc2 : alarmMkdaysec new > alarmMkdaysec now ∧ alarmMkdaysec old < alarmMkdaysec now
  · rw [if_neg hc1, if_pos hc2, if_pos rfl, if_pos hc2.1, if_neg (by omega)]
    omega
  rw [if_neg hc1, if_neg hc2]
  by_cases hc3 : alarmMkdaysec new < alarmMkdaysec old ∧ alarmMkdaysec old < alarmMkdaysec now
  · rw [if_pos (decide_eq_true hc3), if_neg (by omega), if_neg (by omega)]
    omega
  · rw [if_neg (by rw [decide_eq_true_eq]; exact hc3)]
    split <;> split <;> omega

theorem alarmSetup_started (cfg : AlarmConfig) (x : Alarm) (now : Tm) :
    (alarmSetup cfg x now).2.started = x.started := by
  unfold alarmSetup
  split <;> rfl

/-- A start after which an alarm is the current one. -/
theorem current_inv (hi : s.Inv) (ha : a ∈ s.head) (hs : (s.alarm a).started = false) {x : Alarm}
    (hx : x.wktime.Valid) (hxs : x.started = true)
    (hle : ∀ b, s.Started b → distance now x.wktime ≤ distance now (s.alarm b).wktime) :
    Inv { (s.setAlarm a x).alarmSet a with current := some a } ∧
    UpToDate { (s.setAlarm a x).alarmSet a with current := some a } now := by
  have hself := setAlarm_self (s := s) (a := a) x
  have hother : ∀ b, b ≠ a → (s.setAlarm a x).Started b →
      s.Started b ∧ (s.setAlarm a x).alarm b = s.alarm b := by
    intro b hb h
    have he := setAlarm_of_ne (s := s) x hb
    exact ⟨⟨h.1, he ▸ h.2⟩, he⟩
  have hnew : (s.setAlarm a x).Started a := ⟨ha, by rw [hself]; exact hxs⟩
  refine ⟨⟨hi.nodup, fun b hb => ?_, fun c hc => ?_⟩, fun _ => ⟨a, rfl, hnew, fun b hb => ?_⟩⟩
  · by_cases hba : b = a
    · subst hba
      show ((s.setAlarm b x).alarm b).wktime.Valid
      rw [hself]
      exact hx
    · obtain ⟨h, he⟩ := hother b hba hb
      show ((s.setAlarm a x).alarm b).wktime.Valid
      rw [he]
      exact hi.valid b h
  · cases hc
    refine ⟨hnew, ?_⟩
    unfold alarmSet
    rw [hself, hxs]
  · show distance now ((s.setAlarm a x).alarm a).wktime ≤
      distance now ((s.setAlarm a x).alarm b).wktime
    rw [hself]
    by_cases hba : b = a
    · subst hba
      rw [hself]
    · obtain ⟨h, he⟩ := hother b hba hb
      rw [he]
      exact hle b h

/-- A start that leaves the current alarm. -/
theorem kept_inv (hi : s.Inv) (hs : (s.alarm a).started = false) {x : Alarm}
    (hx : x.wktime.Valid) (hc : s.current = some c)
    (hle : ∀ b, s.Started b → distance now (s.alarm c).wktime ≤ distance now (s.alarm b).wktime)
    (hlex : distance now (s.alarm c).wktime ≤ distance now x.wktime) :
    (s.setAlarm a x).Inv ∧ (s.setAlarm a x).UpToDate now := by
  obtain ⟨hcs, hrtc⟩ := hi.current c hc
  have hca : c ≠ a := by
    intro h
    rw [← h, hcs.2] at hs
    cases hs
  have hself := setAlarm_self (s := s) (a := a) x
  have hother : ∀ b, b ≠ a → (s.setAlarm a x).alarm b = s.alarm b :=
    fun b hb => setAlarm_of_ne x hb
  have hnew : (s.setAlarm a x).Started c := ⟨hcs.1, by rw [hother c hca]; exact hcs.2⟩
  refine ⟨⟨hi.nodup, fun b hb => ?_, fun c' hc' => ?_⟩, fun _ => ⟨c, hc, hnew, fun b hb => ?_⟩⟩
  · by_cases hba : b = a
    · rw [hba, hself]
      exact hx
    · rw [hother b hba]
      exact hi.valid b ⟨hb.1, hother b hba ▸ hb.2⟩
  · cases hc'.symm.trans hc
    rw [hother c hca]
    exact ⟨hnew, hrtc⟩
  · rw [hother c hca]
    by_cases hba : b = a
    · rw [hba, hself]
      exact hlex
    · rw [hother b hba]
      exact hle b ⟨hb.1, hother b hba ▸ hb.2⟩

/-- **A start** leaves the clock up to date under its condition. -/
theorem alarmStart_inv (hi : s.Inv) (h1 : now₁.Valid) (h2 : now₂.Valid) (ha : a ∈ s.head)
    (hok : alarmOk cfg s (.start a now₁ now₂) = true) :
    (s.alarmStart cfg a now₁ now₂).Inv ∧ (s.alarmStart cfg a now₁ now₂).UpToDate now₂ := by
  unfold alarmOk at hok
  unfold alarmStart
  dsimp only at hok ⊢
  by_cases hs : (s.alarm a).started = true
  · rw [hs, Bool.true_or, if_pos rfl] at hok
    rw [if_pos hs]
    exact ⟨hi, upToDate_spec hi hok⟩
  rw [Bool.not_eq_true] at hs
  rw [hs, Bool.false_or] at hok
  rw [hs, if_neg Bool.false_ne_true]
  have hcur : s.current ≠ some a := by
    intro hc
    have := (hi.current a hc).1.2
    rw [hs] at this
    cases this
  have hrs := alarmSetup_started cfg (s.alarm a) now₁
  have hval := alarmSetup_valid cfg (x := s.alarm a) h1
  generalize alarmSetup cfg (s.alarm a) now₁ = r at hok hrs hval ⊢
  cases hr : r.1 with
  | false =>
    rw [hr, Bool.not_false, if_pos rfl] at hok
    rw [Bool.not_false, if_pos rfl]
    exact ⟨hi.setAlarm (hrs.trans hs) hcur, (upToDate_spec hi hok).setAlarm (hrs.trans hs) hs⟩
  | true =>
    rw [hr, Bool.not_true, if_neg Bool.false_ne_true, Bool.and_eq_true] at hok
    obtain ⟨hsec, hok⟩ := hok
    have hx := (hval hr (of_decide_eq_true hsec)).1
    rw [Bool.not_true, if_neg Bool.false_ne_true]
    have htwice : (s.setAlarm a r.2).setAlarm a { r.2 with started := true } =
        s.setAlarm a { r.2 with started := true } := by
      unfold Alarms.setAlarm
      rw [Function.update_idem]
    rw [htwice]
    cases hc : s.current with
    | none =>
      have : (s.setAlarm a { r.2 with started := true }).current = none := hc
      rw [this]
      refine current_inv hi ha hs hx rfl fun b hb => ?_
      rw [Bool.or_eq_true, Bool.not_eq_true', List.any_eq_false, hc] at hok
      rcases hok with hok | hok
      · exact absurd hb.2 (hok b hb.1)
      · exact isNext_spec hok hb
    | some c =>
      have : (s.setAlarm a { r.2 with started := true }).current = some c := hc
      rw [this]
      dsimp only
      obtain ⟨hcs, -⟩ := hi.current c hc
      have hca : c ≠ a := fun h => hcur (h ▸ hc)
      rw [setAlarm_of_ne _ hca, setAlarm_self]
      rw [Bool.or_eq_true, Bool.not_eq_true', List.any_eq_false, hc, Bool.or_eq_true,
        Bool.and_eq_true, Bool.and_eq_true, Bool.or_eq_true, bne_iff_ne, beq_iff_eq] at hok
      rcases hok with hok | ⟨hnext, hne⟩ | ⟨hfirst, hnext⟩
      · exact absurd hcs.2 (hok c hcs.1)
      · have hspec := comesFirst_spec h2 (hi.valid c hcs) hx hne
        split
        · rename_i hfirst
          rw [if_pos hfirst] at hspec
          exact current_inv hi ha hs hx rfl fun b hb => hspec.trans (isNext_spec hnext hb)
        · rename_i hfirst
          rw [if_neg hfirst] at hspec
          exact kept_inv hi hs hx hc (fun b hb => isNext_spec hnext hb) hspec
      · rw [if_pos hfirst]
        exact current_inv hi ha hs hx rfl fun b hb => isNext_spec hnext hb

theorem alarmStop_inv (hi : s.Inv) (h1 : now₁.Valid) (h2 : now₂.Valid)
    (hok : alarmOk cfg s (.stop a now₁ now₂) = true) :
    (s.alarmStop cfg a now₁ now₂).Inv ∧ (s.alarmStop cfg a now₁ now₂).UpToDate now₂ := by
  unfold alarmOk at hok
  unfold alarmStop
  dsimp only at hok
  by_cases hs : (s.alarm a).started = true
  · rw [if_pos hs] at hok ⊢
    obtain ⟨h, hu⟩ := alarmUpdate_inv cfg (hi.stopped (a := a)) h1 h2
    exact ⟨h, hu hok⟩
  · rw [if_neg hs] at hok ⊢
    exact ⟨hi, upToDate_spec hi hok⟩

theorem alarmDelete_inv (hi : s.Inv) (h1 : now₁.Valid) (h2 : now₂.Valid)
    (hok : alarmOk cfg s (.delete a now₁ now₂) = true) :
    (s.alarmDelete cfg a now₁ now₂).Inv ∧ (s.alarmDelete cfg a now₁ now₂).UpToDate now₂ := by
  unfold alarmOk at hok
  unfold alarmDelete
  dsimp only at hok ⊢
  have hstop := stopped_started (s := s) (a := a)
  by_cases hc : s.current = some a
  · rw [if_pos hc] at hok ⊢
    obtain ⟨h, hu⟩ := alarmUpdate_inv cfg (hi.stopped (a := a)) h1 h2
    have hkeep := (alarmUpdate_keeps cfg now₁ now₂ (hi.stopped (a := a))).2 a
    have ha : (((s.stopped a).alarmUpdate cfg now₁ now₂).alarm a).started = false := by
      by_contra hne
      rw [hkeep (by simpa using hne)] at hstop
      cases hstop
    obtain ⟨he, heu⟩ := erase_inv now₂ h ha
    exact ⟨he, heu (hu hok)⟩
  · rw [if_neg hc] at hok ⊢
    have h : (s.stopped a).Inv := by
      rw [stopped_of_ne hc]
      exact hi.setAlarm rfl hc
    obtain ⟨he, heu⟩ := erase_inv now₂ h hstop
    exact ⟨he, heu (upToDate_spec h hok)⟩

/-- **A call** keeps the invariant and leaves the clock up to date, under its condition. -/
theorem step_inv {k : AlarmCall A} {s' : Alarms A} (hi : s.Inv) (hok : alarmOk cfg s k = true)
    (h : s.step cfg k = some s') : s'.Inv ∧ s'.UpToDate s'.now := by
  unfold step at h
  obtain ⟨hvalid, h⟩ := Option.ite_none_right_eq_some.mp h
  obtain ⟨s₁, hcall, rfl⟩ := Option.map_eq_some_iff.mp h
  suffices hs : s₁.Inv ∧ s₁.UpToDate k.times.2 from
    ⟨⟨hs.1.nodup, hs.1.valid, hs.1.current⟩, hs.2⟩
  cases k with
  | start a now₁ now₂ =>
    obtain ⟨ha, he⟩ := Option.ite_none_right_eq_some.mp hcall
    cases he
    exact alarmStart_inv hi hvalid.1 hvalid.2 ha hok
  | stop a now₁ now₂ =>
    obtain ⟨-, he⟩ := Option.ite_none_right_eq_some.mp hcall
    cases he
    exact alarmStop_inv hi hvalid.1 hvalid.2 hok
  | delete a now₁ now₂ =>
    obtain ⟨-, he⟩ := Option.ite_none_right_eq_some.mp hcall
    cases he
    exact alarmDelete_inv hi hvalid.1 hvalid.2 hok
  | update now₁ now₂ =>
    cases hcall
    have hw : s.Woken := ⟨hi.nodup, hi.valid, fun c hc => (hi.current c hc).1.1⟩
    obtain ⟨h, hu⟩ := alarmUpdate_inv cfg hw hvalid.1 hvalid.2
    exact ⟨h, hu hok⟩

end Alarms

/-! ## Runs -/

/-- **The clock is programmed** with an alarm that comes next, in every run whose calls meet the
condition. -/
theorem alarm_programmed (cfg : AlarmConfig) (s : Alarms A)
    (h : (alarmSystem cfg A).Reach (Alarms.alarmOk cfg) s) : s.Programmed := by
  have hinv : s.Inv ∧ s.UpToDate s.now := by
    refine h.invariant (fun s hs => ⟨⟨hs.nodup, ?_, ?_⟩, ?_⟩)
      fun s k s' hi hok hst => Alarms.step_inv hi.1 hok hst
    · intro a ha
      rw [Alarms.Started, hs.stopped a] at ha
      cases ha.2
    · intro c hc
      rw [hs.current] at hc
      cases hc
    · rintro ⟨a, ha⟩
      rw [Alarms.Started, hs.stopped a] at ha
      cases ha.2
  exact Alarms.programmed_of hinv.1 hinv.2

/-- Two daily alarms, at 10:00 and at 12:00, on the first day of 1970. -/
def tenAndTwelve : Alarms Bool where
  head := [false, true]
  alarm b := ⟨.daily, false, false, ⟨0, 0, if b then 12 else 10, 1, 0, 70, 4⟩⟩
  current := none
  rtc := none
  now := ⟨0, 0, 0, 1, 0, 70, 4⟩

theorem tenAndTwelve_init : AlarmsInit tenAndTwelve := ⟨by decide, fun _ => rfl, rfl⟩

/-- A clock whose alarm is set two seconds early, on that day. -/
def rtcConfig (softRtc : Bool) : AlarmConfig := ⟨softRtc, fun t => BitVec.ofInt 32 (alarmMkdaysec t)⟩

theorem alarm_programmed_ten : ∃ s,
    (alarmSystem (rtcConfig false) Bool).Reach (Alarms.alarmOk (rtcConfig false)) s ∧
      s.current = some false ∧ s.Programmed := by
  obtain ⟨s, hs, hp⟩ := (alarmSystem (rtcConfig false) Bool).exists_reach
    (Alarms.alarmOk (rtcConfig false)) (fun s => s.current = some false) tenAndTwelve_init
    [.start true ⟨0, 0, 9, 1, 0, 70, 4⟩ ⟨0, 0, 9, 1, 0, 70, 4⟩,
      .start false ⟨0, 0, 11, 1, 0, 70, 4⟩ ⟨0, 0, 11, 1, 0, 70, 4⟩,
      .update ⟨0, 0, 12, 1, 0, 70, 4⟩ ⟨1, 0, 12, 1, 0, 70, 4⟩,
      .stop true ⟨0, 0, 13, 1, 0, 70, 4⟩ ⟨0, 0, 13, 1, 0, 70, 4⟩] (by decide)
  exact ⟨s, hs, of_decide_eq_true hp, alarm_programmed (rtcConfig false) s hs⟩

/-- The clock has no valid time, or one after a started alarm. -/
def Alarms.late (s : Alarms A) : Bool :=
  s.head.any fun a => (s.alarm a).started && s.rtc.any fun r =>
    decide (¬ r.time.Valid ∨ distance s.now (s.alarm a).wktime < distance s.now r.time)

theorem Alarms.late_spec {s : Alarms A} (h : s.late = true) : ¬ s.Programmed := by
  intro hp
  obtain ⟨a, ha, h⟩ := List.any_eq_true.mp h
  obtain ⟨hs, h⟩ := Bool.and_eq_true_iff.mp h
  obtain ⟨r, hr, h⟩ := (Option.any_eq_true _ _).mp h
  obtain ⟨c, hnext, hvalid, hrtc⟩ := hp ⟨a, ha, hs⟩
  cases hr.symm.trans hrtc
  rcases of_decide_eq_true h with h | h
  · exact h hvalid
  · exact absurd (hnext.2 a ⟨ha, hs⟩) (not_le.mpr h)

/-- Two daily alarms, at 10:00 and at 23:59:59. -/
def tenAndLast : Alarms Bool :=
  { tenAndTwelve with alarm := fun b => if b then
      ⟨.daily, false, false, ⟨59, 59, 23, 1, 0, 70, 4⟩⟩ else tenAndTwelve.alarm false }

/-- The alarm at 12:00 is started at 10:00, when that at 10:00 is due: the clock keeps the latter. The
alarm at 23:59:59 is started with a clock in software: its seconds are 60. -/
theorem alarm_not_programmed :
    (∃ s, (alarmSystem (rtcConfig false) Bool).Reach System.anyStep s ∧ ¬ s.Programmed) ∧
    (∃ s, (alarmSystem (rtcConfig true) Bool).Reach System.anyStep s ∧ ¬ s.Programmed) := by
  constructor
  · obtain ⟨s, hs, h⟩ := (alarmSystem (rtcConfig false) Bool).exists_reach System.anyStep
      Alarms.late tenAndTwelve_init
      [.start false ⟨0, 0, 9, 1, 0, 70, 4⟩ ⟨0, 0, 9, 1, 0, 70, 4⟩,
        .start true ⟨0, 0, 10, 1, 0, 70, 4⟩ ⟨0, 0, 10, 1, 0, 70, 4⟩] (by decide)
    exact ⟨s, hs, Alarms.late_spec h⟩
  · obtain ⟨s, hs, h⟩ := (alarmSystem (rtcConfig true) Bool).exists_reach System.anyStep
      Alarms.late (s := tenAndLast) ⟨by decide, by decide, rfl⟩
      [.start true ⟨0, 0, 9, 1, 0, 70, 4⟩ ⟨0, 0, 9, 1, 0, 70, 4⟩] (by decide)
    exact ⟨s, hs, Alarms.late_spec h⟩

end

end RtThread
