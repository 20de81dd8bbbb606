import RtThread.Ipc.Calls

/-!
# Events

`rt_event_send` walks the waiting threads and wakes those whose events have come, while it collects
what they clear; `rt_event_recv` takes the events at once, or waits for them.

* `eventWalk`, `eventSend`, `eventRecv`, `eventResume`: the code;
* `eventComes`: the condition of a waiting thread; `eventWalk_spec`: what the walk does;
* `EventInv`: no waiting thread's events have come;
* `EventSent`, **`event_agreement`**: a send wakes, clears and hands over what immediate receives
  would.
-/

set_option linter.unusedSectionVars false

namespace RtThread

open Kernel

/-- `RT_EVENT_FLAG_AND`. -/
abbrev eventFlagAnd : BitVec 8 := 0x01

/-- `RT_EVENT_FLAG_OR`. -/
abbrev eventFlagOr : BitVec 8 := 0x02

/-- `RT_EVENT_FLAG_CLEAR`. -/
abbrev eventFlagClear : BitVec 8 := 0x04

/-- `event->set`, and the fields `event_set` and `event_info` of the threads. -/
structure EventData (T E : Type) where
  set : E → BitVec 32
  eventSet : T → BitVec 32
  eventInfo : T → BitVec 8

/-- The calls on events: `locals` is the event of a call. -/
abbrev EventCalls (T E : Type) := CallState T E E (EventData T E)

/-- How a section of `_rt_event_recv` ends. -/
inductive EventResult where
  | received (recved : BitVec 32)
  | sent
  | failed (e : Err)
  | waits
  deriving DecidableEq, Repr

/-- The steps of the event system. -/
inductive EventLabel (T E : Type) where
  | env (a : EnvLabel T)
  | send (e : E) (set : BitVec 32)
  | recv (e : E) (set : BitVec 32) (option : BitVec 8) (timeout : BitVec 32) (flag : SuspendFlag)
  | resume
  deriving DecidableEq, Repr

variable {T E : Type} [DecidableEq T] [DecidableEq E]

/-! ## The code -/

/-- Write `event->set`. -/
def eventPut (s : EventCalls T E) (e : E) (set : BitVec 32) : EventCalls T E :=
  s.withData { s.data with set := Function.update s.data.set e set }

/-- Write `event_set` and `event_info` of a thread. -/
def eventFill (s : EventCalls T E) (t : T) (set : BitVec 32) (info : BitVec 8) : EventCalls T E :=
  s.withData { s.data with
    eventSet := Function.update s.data.eventSet t set
    eventInfo := Function.update s.data.eventInfo t info }

/-- The body of the walk of `rt_event_send` for a thread whose events have come. -/
def eventWake (s : EventCalls T E) (t : T) (needClearSet : BitVec 32) :
    EventCalls T E × BitVec 32 :=
  (s.withKernel (s.kernel.ipcResumeThread .eok t),
    if s.data.eventInfo t &&& eventFlagClear ≠ 0 then needClearSet ||| s.data.eventSet t
    else needClearSet)

/-- The walk of `rt_event_send` over the waiting threads, with `event->set` given. -/
def eventWalk (set : BitVec 32) : List T → EventCalls T E → BitVec 32 →
    Err × EventCalls T E × BitVec 32
  | [], s, needClearSet => (.eok, s, needClearSet)
  | t :: ts, s, needClearSet =>
    if s.data.eventInfo t &&& eventFlagAnd ≠ 0 then
      if s.data.eventSet t &&& set = s.data.eventSet t then
        let r := eventWake s t needClearSet
        eventWalk set ts r.1 r.2
      else eventWalk set ts s needClearSet
    else if s.data.eventInfo t &&& eventFlagOr ≠ 0 then
      if s.data.eventSet t &&& set ≠ 0 then
        -- save the received event set
        let s := eventFill s t (s.data.eventSet t &&& set) (s.data.eventInfo t)
        let r := eventWake s t needClearSet
        eventWalk set ts r.1 r.2
      else eventWalk set ts s needClearSet
    else (.einval, s, needClearSet)

/-- `rt_event_send`. -/
def eventSend (s : EventCalls T E) (e : E) (set : BitVec 32) : Err × EventCalls T E :=
  if set = 0 then (.error, s)
  else
    let set := s.data.set e ||| set
    match eventWalk set (s.kernel.waiters e) (eventPut s e set) 0 with
    | (.eok, s, needClearSet) =>
      (.eok, if needClearSet ≠ 0 then eventPut s e (s.data.set e &&& ~~~needClearSet) else s)
    | (err, s, _) => (err, s)

/-- The test of `_rt_event_recv`; there is no result for an option that the code asserts against. -/
def eventStatus (event set : BitVec 32) (option : BitVec 8) : Option Bool :=
  if option &&& eventFlagAnd ≠ 0 then some (event &&& set = set)
  else if option &&& eventFlagOr ≠ 0 then some (event &&& set ≠ 0)
  else none

/-- `_rt_event_recv` up to its `rt_schedule`. -/
def eventRecv (s : EventCalls T E) (e : E) (set : BitVec 32) (option : BitVec 8)
    (timeout : BitVec 32) (flag : SuspendFlag) : Option (EventResult × EventCalls T E) :=
  if set = 0 then some (.failed .error, s)
  else do
    let c ← s.self
    let status ← eventStatus (s.data.set e) set option
    if status then
      let recved := s.data.set e &&& set
      let s := s.withKernel (s.kernel.setThread c fun th => { th with error := .eok })
      let s := eventFill s c recved option
      some (.received recved,
        if option &&& eventFlagClear ≠ 0 then eventPut s e (s.data.set e &&& ~~~set) else s)
    else if timeout = 0 then
      some (.failed .etimeout,
        s.withKernel (s.kernel.setThread c fun th => { th with error := .etimeout }))
    else
      ((eventFill s c set option).wait c e timeout flag e).map fun r =>
        (r.1.elim .waits .failed, r.2)

/-- `_rt_event_recv` after its `rt_schedule`. -/
def eventResume (s : EventCalls T E) (c : T) : EventResult × EventCalls T E :=
  (if (s.kernel.thread c).error ≠ .eok then .failed (s.kernel.thread c).error
    else .received (s.data.eventSet c), s.leave c)

/-! ## The system -/

/-- One step of the threads and their environment, with what it returns. -/
def eventStep (s : EventCalls T E) : EventLabel T E → Option (EventResult × EventCalls T E)
  | .env a => (envStep s a).map fun s => (.waits, s)
  | .send e set =>
    let r := eventSend s e set
    some (if r.1 = .eok then .sent else .failed r.1, r.2)
  | .recv e set option timeout flag => eventRecv s e set option timeout flag
  | .resume => s.caller.map fun c => eventResume s c

/-- Threads and events, initialized. -/
structure EventInit (s : EventCalls T E) : Prop where
  calls : CallInit s
  set : ∀ e, s.data.set e = 0
  eventSet : ∀ t, s.data.eventSet t = 0 ∧ s.data.eventInfo t = 0

/-- The events as a system. -/
def eventSystem (T E : Type) [DecidableEq T] [DecidableEq E] :
    System (EventCalls T E) (EventLabel T E) where
  init := EventInit
  step s a := (eventStep s a).map Prod.snd

/-! ## The walk -/

/-- The events `interest` have come in `set`, all of them or some, as `info` asks. -/
def eventComes (info : BitVec 8) (interest set : BitVec 32) : Bool :=
  eventStatus set interest info = some true

/-- A thread has said whether it waits for all its events or for some. -/
def eventFlagged (info : BitVec 8) : Prop :=
  info &&& eventFlagAnd ≠ 0 ∨ info &&& eventFlagOr ≠ 0

/-- The events of `t` have come in `set`. -/
def eventReady (d : EventData T E) (set : BitVec 32) (t : T) : Bool :=
  eventComes (d.eventInfo t) (d.eventSet t) set

/-- The union of some sets. -/
def eventUnion (l : List (BitVec 32)) : BitVec 32 := l.foldr (· ||| ·) 0

/-- The threads of `ts` that are ready and clear their events. -/
def eventClears (d : EventData T E) (set : BitVec 32) (ts : List T) : List T :=
  ts.filter fun t => eventReady d set t && decide (d.eventInfo t &&& eventFlagClear ≠ 0)

/-- Fewer events satisfy fewer threads. -/
theorem eventComes_mono {info : BitVec 8} {interest set set' : BitVec 32}
    (h : ∀ i, set'.getLsbD i = true → set.getLsbD i = true)
    (hc : eventComes info interest set' = true) : eventComes info interest set = true := by
  rw [eventComes, decide_eq_true_eq] at hc ⊢
  unfold eventStatus at hc ⊢
  by_cases ha : info &&& eventFlagAnd ≠ 0
  · rw [if_pos ha] at hc ⊢
    have hall : set' &&& interest = interest := by simpa using hc
    refine congrArg some (decide_eq_true ?_)
    apply BitVec.eq_of_getLsbD_eq
    intro i hi
    have hbit := congrArg (fun x : BitVec 32 => x.getLsbD i) hall
    simp only [BitVec.getLsbD_and] at hbit ⊢
    cases hint : interest.getLsbD i with
    | false => simp
    | true =>
      rw [hint, Bool.and_true] at hbit
      rw [h i hbit]
      rfl
  · rw [if_neg ha] at hc ⊢
    by_cases ho : info &&& eventFlagOr ≠ 0
    · rw [if_pos ho] at hc ⊢
      have hsome : set' &&& interest ≠ 0 := by simpa using hc
      refine congrArg some (decide_eq_true fun hz => hsome ?_)
      apply BitVec.eq_of_getLsbD_eq
      intro i hi
      have hbit := congrArg (fun x : BitVec 32 => x.getLsbD i) hz
      simp only [BitVec.getLsbD_and] at hbit ⊢
      cases hset : set'.getLsbD i with
      | false => simp
      | true =>
        rw [h i hset, Bool.true_and] at hbit
        rw [hbit]
        rfl
    · rw [if_neg ho] at hc
      cases hc

theorem and_not_zero (x : BitVec 32) : x &&& ~~~(0 : BitVec 32) = x := by
  change x &&& ~~~(0#32) = x
  rw [BitVec.not_zero, BitVec.and_allOnes]

/-- Clearing the events received is clearing the events waited for. -/
theorem eventUnion_received (set : BitVec 32) (l : List (BitVec 32)) :
    set &&& ~~~eventUnion (l.map (· &&& set)) = set &&& ~~~eventUnion l := by
  induction l with
  | nil => rfl
  | cons a l ih =>
    change set &&& ~~~((a &&& set) ||| eventUnion (l.map (· &&& set))) =
      set &&& ~~~(a ||| eventUnion l)
    apply BitVec.eq_of_getLsbD_eq
    intro i hi
    have hbit := congrArg (fun x : BitVec 32 => x.getLsbD i) ih
    simp only [BitVec.getLsbD_and, BitVec.getLsbD_not, BitVec.getLsbD_or, hi, decide_true,
      Bool.true_and] at hbit ⊢
    cases hset : set.getLsbD i with
    | false => simp
    | true =>
      simp only [hset, Bool.true_and] at hbit
      simp [hbit]

/-- What the walk does to a thread that is ready. -/
def eventWoken (s : EventCalls T E) (set : BitVec 32) (t : T) : EventCalls T E :=
  (eventFill s t (s.data.eventSet t &&& set) (s.data.eventInfo t)).withKernel
    (s.kernel.ipcResumeThread .eok t)

variable {s s' : EventCalls T E} {set needClearSet : BitVec 32} {ts : List T} {t u c : T} {e : E}

theorem eventFill_self (s : EventCalls T E) (t : T) :
    eventFill s t (s.data.eventSet t) (s.data.eventInfo t) = s := by
  unfold eventFill
  rw [Function.update_eq_self, Function.update_eq_self]
  rfl

/-- **One round of the walk.** -/
theorem eventWalk_cons (hf : eventFlagged (s.data.eventInfo t)) :
    eventWalk set (t :: ts) s needClearSet =
      if eventReady s.data set t = true then
        eventWalk set ts (eventWoken s set t)
          (if s.data.eventInfo t &&& eventFlagClear ≠ 0 then
            needClearSet ||| (s.data.eventSet t &&& set) else needClearSet)
      else eventWalk set ts s needClearSet := by
  have hcond : eventReady s.data set t = true ↔
      eventStatus set (s.data.eventSet t) (s.data.eventInfo t) = some true := by
    rw [eventReady, eventComes, decide_eq_true_eq]
  by_cases ha : s.data.eventInfo t &&& eventFlagAnd ≠ 0
  · have hready : eventReady s.data set t = true ↔
        s.data.eventSet t &&& set = s.data.eventSet t := by
      rw [hcond, eventStatus, if_pos ha, Option.some_inj, decide_eq_true_eq, BitVec.and_comm]
    simp only [eventWalk]
    rw [if_pos ha]
    by_cases hr : s.data.eventSet t &&& set = s.data.eventSet t
    · rw [if_pos hr, if_pos (hready.mpr hr)]
      unfold eventWoken eventWake
      rw [hr, eventFill_self]
    · rw [if_neg hr, if_neg fun h => hr (hready.mp h)]
  · have ho := hf.resolve_left ha
    have hready : eventReady s.data set t = true ↔ s.data.eventSet t &&& set ≠ 0 := by
      rw [hcond, eventStatus, if_neg ha, if_pos ho, Option.some_inj, decide_eq_true_eq,
        BitVec.and_comm]
    simp only [eventWalk]
    rw [if_neg ha, if_pos ho]
    by_cases hr : s.data.eventSet t &&& set ≠ 0
    · rw [if_pos hr, if_pos (hready.mpr hr)]
      unfold eventWoken eventWake eventFill
      simp only [CallState.withData, Function.update_self]
    · rw [if_neg hr, if_neg fun h => hr (hready.mp h)]

/-- The threads of `ts` that are ready have been woken, with what they have received. -/
structure EventWalked (s s' : EventCalls T E) (set : BitVec 32) (ts : List T) : Prop where
  calls : CallInv s'
  inside : s'.inside = s.inside
  locals : s'.locals = s.locals
  events : s'.data.set = s.data.set
  info : s'.data.eventInfo = s.data.eventInfo
  eventSet : ∀ t, s'.data.eventSet t = if t ∈ ts ∧ eventReady s.data set t = true then
    s.data.eventSet t &&& set else s.data.eventSet t
  error : ∀ t, (s'.kernel.thread t).error = if t ∈ ts ∧ eventReady s.data set t = true then
    .eok else (s.kernel.thread t).error
  waiters : ∀ e t, t ∈ s'.kernel.waiters e ↔
    t ∈ s.kernel.waiters e ∧ ¬ (t ∈ ts ∧ eventReady s.data set t = true)

theorem eventWoken_ready (hu : u ≠ t) (set' : BitVec 32) :
    eventReady (eventWoken s set t).data set' u = eventReady s.data set' u := by
  change eventComes (Function.update s.data.eventInfo t (s.data.eventInfo t) u)
    (Function.update s.data.eventSet t (s.data.eventSet t &&& set) u) set' = _
  rw [Function.update_of_ne hu, Function.update_of_ne hu]
  rfl

theorem eventWoken_info (s : EventCalls T E) (set : BitVec 32) (t : T) :
    (eventWoken s set t).data.eventInfo = s.data.eventInfo := Function.update_eq_self ..

theorem eventWoken_eventSet (hu : u ≠ t) :
    (eventWoken s set t).data.eventSet u = s.data.eventSet u := Function.update_of_ne hu _ _

variable (set) in
theorem eventWoken_calls (h : CallInv s) (ht : t ∈ s.kernel.waiters e) :
    CallInv (eventWoken s set t) :=
  (h.resume ht .eok).withData (eventFill s t (s.data.eventSet t &&& set) (s.data.eventInfo t)).data

variable (set) in
/-- **The walk** wakes the threads that are ready and collects what they clear. -/
theorem eventWalk_spec (h : CallInv s) (hts : ∀ t ∈ ts, t ∈ s.kernel.waiters e) (hnd : ts.Nodup)
    (hflag : ∀ t ∈ ts, eventFlagged (s.data.eventInfo t)) (needClearSet : BitVec 32) :
    ∃ s', eventWalk set ts s needClearSet = (.eok, s', needClearSet |||
        eventUnion ((eventClears s.data set ts).map fun t => s.data.eventSet t &&& set)) ∧
      EventWalked s s' set ts := by
  induction ts generalizing s needClearSet with
  | nil =>
    refine ⟨s, ?_, h, rfl, rfl, rfl, rfl, fun t => ?_, fun t => ?_, fun e t => ?_⟩
    · simp [eventWalk, eventClears, eventUnion]
    · rw [if_neg fun h => by cases h.1]
    · rw [if_neg fun h => by cases h.1]
    · exact ⟨fun h => ⟨h, fun h => by cases h.1⟩, And.left⟩
  | cons t ts ih =>
    obtain ⟨htts, hnd⟩ := List.nodup_cons.mp hnd
    rw [eventWalk_cons (hflag t List.mem_cons_self)]
    by_cases hr : eventReady s.data set t = true
    · have ht := hts t List.mem_cons_self
      have hk := ipcResumeThread_woken h.linked ht .eok
      have hne : ∀ u ∈ ts, u ≠ t := fun u hu e => htts (e ▸ hu)
      obtain ⟨s', hs', hw⟩ := ih (eventWoken_calls set h ht)
        (fun u hu => ((hk.untouched u (hne u hu)).waiters e).mpr
          (hts u (List.mem_cons_of_mem _ hu))) hnd
        (fun u hu => by
          rw [eventWoken_info]
          exact hflag u (List.mem_cons_of_mem _ hu))
        (if s.data.eventInfo t &&& eventFlagClear ≠ 0 then
          needClearSet ||| (s.data.eventSet t &&& set) else needClearSet)
      have hready : ∀ u, u ≠ t → ((u ∈ ts ∧ eventReady (eventWoken s set t).data set u = true) ↔
          (u ∈ t :: ts ∧ eventReady s.data set u = true)) := fun u hu => by
        rw [eventWoken_ready hu, List.mem_cons, or_iff_right hu]
      have hclears : (eventClears (eventWoken s set t).data set ts).map
            (fun u => (eventWoken s set t).data.eventSet u &&& set) =
          (eventClears s.data set ts).map fun u => s.data.eventSet u &&& set := by
        have hfilter : eventClears (eventWoken s set t).data set ts = eventClears s.data set ts := by
          refine List.filter_congr fun u hu => ?_
          rw [eventWoken_ready (hne u hu), eventWoken_info]
        rw [hfilter]
        refine List.map_congr_left fun u hu => ?_
        rw [eventWoken_eventSet (hne u (List.mem_of_mem_filter hu))]
      refine ⟨s', ?_, hw.calls, hw.inside, hw.locals, hw.events, ?_, fun u => ?_, fun u => ?_,
        fun x u => ?_⟩
      · rw [if_pos hr, hs', hclears]
        by_cases hc : s.data.eventInfo t &&& eventFlagClear ≠ 0
        · rw [if_pos hc]
          have hcons : eventClears s.data set (t :: ts) = t :: eventClears s.data set ts :=
            List.filter_cons_of_pos (by rw [hr, decide_eq_true hc]; rfl)
          rw [hcons, List.map_cons, BitVec.or_assoc]
          rfl
        · rw [if_neg hc]
          have hcons : eventClears s.data set (t :: ts) = eventClears s.data set ts :=
            List.filter_cons_of_neg (by rw [decide_eq_false hc]; simp)
          rw [hcons]
      · rw [hw.info, eventWoken_info]
      · rw [hw.eventSet u]
        by_cases hu : u = t
        · subst hu
          rw [if_neg fun h => htts h.1, if_pos ⟨List.mem_cons_self, hr⟩]
          exact Function.update_self ..
        · rw [eventWoken_eventSet hu]
          simp only [hready u hu]
      · rw [hw.error u]
        by_cases hu : u = t
        · subst hu
          rw [if_neg fun h => htts h.1, if_pos ⟨List.mem_cons_self, hr⟩]
          exact hk.error
        · simp only [hready u hu]
          have : ((eventWoken s set t).kernel.thread u).error = (s.kernel.thread u).error :=
            (hk.untouched u hu).error
          rw [this]
      · rw [hw.waiters x u]
        by_cases hu : u = t
        · subst hu
          exact ⟨fun h => absurd h.1 (hk.unlinked x),
            fun h => absurd ⟨List.mem_cons_self, hr⟩ h.2⟩
        · rw [hready u hu]
          exact and_congr_left fun _ => (hk.untouched u hu).waiters x
    · obtain ⟨s', hs', hw⟩ := ih h (fun u hu => hts u (List.mem_cons_of_mem _ hu)) hnd
        (fun u hu => hflag u (List.mem_cons_of_mem _ hu)) needClearSet
      have hready : ∀ u, (u ∈ ts ∧ eventReady s.data set u = true) ↔
          (u ∈ t :: ts ∧ eventReady s.data set u = true) := fun u => by
        refine and_congr_left fun hu => ?_
        rw [List.mem_cons, or_iff_right fun e => ?_]
        exact hr (e ▸ hu)
      have hcons : eventClears s.data set (t :: ts) = eventClears s.data set ts :=
        List.filter_cons_of_neg (by rw [Bool.not_eq_true] at hr; rw [hr]; simp)
      refine ⟨s', by rw [if_neg hr, hs', hcons], hw.calls, hw.inside, hw.locals, hw.events, hw.info,
        fun u => ?_, fun u => ?_, fun x u => ?_⟩
      · rw [hw.eventSet u]
        simp only [hready u]
      · rw [hw.error u]
        simp only [hready u]
      · rw [hw.waiters x u, hready u]

/-! ## The steps -/

/-- A waiting thread waits for events that have not come. -/
structure EventInv (s : EventCalls T E) : Prop where
  calls : CallInv s
  flagged : ∀ {e t}, t ∈ s.kernel.waiters e → eventFlagged (s.data.eventInfo t)
  nonzero : ∀ {e t}, t ∈ s.kernel.waiters e → s.data.eventSet t ≠ 0
  waiting : ∀ {e t}, t ∈ s.kernel.waiters e → eventReady s.data (s.data.set e) t = false

/-- A send of `set` to `e`: which threads it wakes, what they receive, what it clears. -/
structure EventSent (s s' : EventCalls T E) (e : E) (set : BitVec 32) : Prop where
  events : s'.data.set e = (s.data.set e ||| set) &&& ~~~eventUnion
    ((eventClears s.data (s.data.set e ||| set) (s.kernel.waiters e)).map s.data.eventSet)
  others : ∀ e' ≠ e, s'.data.set e' = s.data.set e'
  woken : ∀ e' t, t ∈ s'.kernel.waiters e' ↔ t ∈ s.kernel.waiters e' ∧
    ¬ (t ∈ s.kernel.waiters e ∧ eventReady s.data (s.data.set e ||| set) t = true)
  received : ∀ t ∈ s.kernel.waiters e, eventReady s.data (s.data.set e ||| set) t = true →
    (s'.kernel.thread t).error = .eok ∧
      s'.data.eventSet t = (s.data.set e ||| set) &&& s.data.eventSet t
  kept : ∀ t, ¬ (t ∈ s.kernel.waiters e ∧ eventReady s.data (s.data.set e ||| set) t = true) →
    s'.data.eventSet t = s.data.eventSet t ∧
      (s'.kernel.thread t).error = (s.kernel.thread t).error
  info : s'.data.eventInfo = s.data.eventInfo
  inside : s'.inside = s.inside

namespace EventInv

theorem init (h : EventInit s) : EventInv s := by
  obtain ⟨⟨priority, object, hk, -⟩, -⟩ := h.calls
  have hw : ∀ e, s.kernel.waiters e = [] := fun e => by rw [waiters, hk]; rfl
  refine ⟨h.calls.inv, fun {e t} ht => ?_, fun {e t} ht => ?_, fun {e t} ht => ?_⟩
  · rw [hw] at ht; cases ht
  · rw [hw] at ht; cases ht
  · rw [hw] at ht; cases ht

/-- **The environment.** -/
theorem env (h : EventInv s) {a : EnvLabel T} (hs : envStep s a = some s') :
    EventInv s' ∧ EnvFrame s s' := by
  obtain ⟨hcalls, hf⟩ := envStep_frame h.calls hs
  refine ⟨⟨hcalls, fun {e t} ht => ?_, fun {e t} ht => ?_, fun {e t} ht => ?_⟩, hf⟩
  · rw [hf.data]; exact h.flagged ((hf.sublist e).subset ht)
  · rw [hf.data]; exact h.nonzero ((hf.sublist e).subset ht)
  · rw [hf.data]; exact h.waiting ((hf.sublist e).subset ht)

/-- **What `rt_event_send` does.** -/
theorem sent (h : EventInv s) (e : E) (set : BitVec 32) :
    CallInv (eventSend s e set).2 ∧ EventSent s (eventSend s e set).2 e set := by
  by_cases hz : set = 0
  · have hsend : eventSend s e set = (.error, s) := by rw [eventSend, if_pos hz]
    have hor : s.data.set e ||| set = s.data.set e := by rw [hz]; exact BitVec.or_zero
    have hno : ∀ t, ¬ (t ∈ s.kernel.waiters e ∧ eventReady s.data (s.data.set e) t = true) :=
      fun t ht => by
        have := h.waiting ht.1
        rw [ht.2] at this
        cases this
    have hnil : eventClears s.data (s.data.set e) (s.kernel.waiters e) = [] := by
      refine List.filter_eq_nil_iff.mpr fun t ht => ?_
      rw [h.waiting ht]
      simp
    rw [hsend]
    refine ⟨h.calls, ?_, fun _ _ => rfl, fun x t => ?_, fun t ht hr => ?_, fun _ _ => ⟨rfl, rfl⟩,
      rfl, rfl⟩
    · rw [hor, hnil]
      exact (and_not_zero _).symm
    · rw [hor]
      exact (and_iff_left (hno t)).symm
    · rw [hor] at hr
      exact absurd ⟨ht, hr⟩ (hno t)
  · obtain ⟨S, hS⟩ : ∃ S, S = s.data.set e ||| set := ⟨_, rfl⟩
    obtain ⟨s₁, hs₁⟩ : ∃ s₁, s₁ = eventPut s e S := ⟨_, rfl⟩
    have hk₁ : s₁.kernel = s.kernel := by rw [hs₁]; rfl
    have hin₁ : s₁.inside = s.inside := by rw [hs₁]; rfl
    have hes₁ : s₁.data.eventSet = s.data.eventSet := by rw [hs₁]; rfl
    have hinfo₁ : s₁.data.eventInfo = s.data.eventInfo := by rw [hs₁]; rfl
    have hset₁ : s₁.data.set = Function.update s.data.set e S := by rw [hs₁]; rfl
    have hready : ∀ t, eventReady s₁.data S t = eventReady s.data S t := fun t => by
      rw [eventReady, eventReady, hes₁, hinfo₁]
    have hclears : eventClears s₁.data S (s.kernel.waiters e) =
        eventClears s.data S (s.kernel.waiters e) := by
      refine List.filter_congr fun t _ => ?_
      rw [hready, hinfo₁]
    obtain ⟨s', hwalk, hw⟩ := eventWalk_spec S (hs₁ ▸ h.calls.withData _ : CallInv s₁)
      (e := e) (fun t ht => hk₁ ▸ ht) (h.calls.linked.nodup (.suspend e))
      (fun t ht => hinfo₁ ▸ h.flagged ht) 0
    rw [show ∀ x : BitVec 32, (0 : BitVec 32) ||| x = x from fun _ => BitVec.zero_or, hclears,
      hes₁] at hwalk
    obtain ⟨U, hU⟩ : ∃ U, U = eventUnion ((eventClears s.data S (s.kernel.waiters e)).map
      fun t => s.data.eventSet t &&& S) := ⟨_, rfl⟩
    rw [← hU] at hwalk
    have hsend : (eventSend s e set).2 = if U ≠ 0 then eventPut s' e (s'.data.set e &&& ~~~U)
        else s' := by
      rw [eventSend, if_neg hz]
      dsimp only
      rw [← hS, ← hs₁, hwalk]
    have hset' : s'.data.set = Function.update s.data.set e S := by rw [hw.events, hset₁]
    -- the conditional clearing is the clearing
    have hput : (eventSend s e set).2 = eventPut s' e (S &&& ~~~U) := by
      have hSe : s'.data.set e = S := by rw [hset', Function.update_self]
      rw [hsend, hSe]
      by_cases hU0 : U ≠ 0
      · rw [if_pos hU0]
      · rw [if_neg hU0, not_not.mp hU0]
        have : S &&& ~~~(0 : BitVec 32) = s'.data.set e := by rw [hSe, and_not_zero]
        rw [this]
        unfold eventPut
        rw [Function.update_eq_self]
        rfl
    rw [hput]
    refine ⟨hw.calls.withData _, ?_, fun e' he' => ?_, fun x t => ?_, fun t ht hr => ⟨?_, ?_⟩,
      fun t ht => ⟨?_, ?_⟩, ?_, ?_⟩
    · have h1 : (eventPut s' e (S &&& ~~~U)).data.set e = S &&& ~~~U := Function.update_self ..
      have h2 := eventUnion_received S
        ((eventClears s.data S (s.kernel.waiters e)).map s.data.eventSet)
      rw [List.map_map] at h2
      rw [h1, ← hS, ← h2, hU]
      rfl
    · have h1 : (eventPut s' e (S &&& ~~~U)).data.set e' = s'.data.set e' :=
        Function.update_of_ne he' _ _
      rw [h1, hset', Function.update_of_ne he']
    · rw [← hS]
      have := hw.waiters x t
      rw [hk₁, hready] at this
      exact this
    · rw [← hS] at hr
      have := hw.error t
      rw [hready, if_pos ⟨ht, hr⟩] at this
      exact this
    · rw [← hS] at hr ⊢
      have := hw.eventSet t
      rw [hready, if_pos ⟨ht, hr⟩, hes₁, BitVec.and_comm] at this
      exact this
    · rw [← hS] at ht
      have := hw.eventSet t
      rw [hready, if_neg ht, hes₁] at this
      exact this
    · rw [← hS] at ht
      have := hw.error t
      rw [hready, if_neg ht, hk₁] at this
      exact this
    · exact hw.info.trans hinfo₁
    · exact hw.inside.trans hin₁

/-- **`rt_event_send`** leaves no thread waiting whose events have come. -/
theorem send (h : EventInv s) (e : E) (set : BitVec 32) : EventInv (eventSend s e set).2 := by
  obtain ⟨hcalls, hs⟩ := h.sent e set
  have hkept : ∀ {x t}, t ∈ (eventSend s e set).2.kernel.waiters x →
      t ∈ s.kernel.waiters x ∧ (eventSend s e set).2.data.eventSet t = s.data.eventSet t :=
    fun {x t} ht => by
      obtain ⟨h1, h2⟩ := (hs.woken x t).mp ht
      exact ⟨h1, (hs.kept t h2).1⟩
  refine ⟨hcalls, fun {x t} ht => ?_, fun {x t} ht => ?_, fun {x t} ht => ?_⟩
  · rw [hs.info]
    exact h.flagged (hkept ht).1
  · rw [(hkept ht).2]
    exact h.nonzero (hkept ht).1
  · obtain ⟨h1, h2⟩ := hkept ht
    rw [eventReady, hs.info, h2]
    by_cases hx : x = e
    · subst hx
      rw [hs.events]
      rw [Bool.eq_false_iff]
      intro hc
      refine ((hs.woken x t).mp ht).2 ⟨h1, eventComes_mono (fun i hi => ?_) hc⟩
      rw [BitVec.getLsbD_and, Bool.and_eq_true] at hi
      exact hi.1
    · rw [hs.others x hx]
      exact h.waiting h1

/-- A change of the data that keeps the waiting threads' fields, and adds no event. -/
theorem data (h : EventInv s) {d : EventData T E}
    (hset : ∀ e i, (d.set e).getLsbD i = true → (s.data.set e).getLsbD i = true)
    (hthread : ∀ e, ∀ t ∈ s.kernel.waiters e, d.eventSet t = s.data.eventSet t ∧
      d.eventInfo t = s.data.eventInfo t) : EventInv (s.withData d) := by
  refine ⟨h.calls.withData d, fun {e t} ht => ?_, fun {e t} ht => ?_, fun {e t} ht => ?_⟩
  · change eventFlagged (d.eventInfo t)
    rw [(hthread e t ht).2]
    exact h.flagged ht
  · change d.eventSet t ≠ 0
    rw [(hthread e t ht).1]
    exact h.nonzero ht
  · change eventComes (d.eventInfo t) (d.eventSet t) (d.set e) = false
    rw [(hthread e t ht).1, (hthread e t ht).2, Bool.eq_false_iff]
    intro hc
    have := eventComes_mono (hset e) hc
    have hw := h.waiting ht
    rw [eventReady, this] at hw
    cases hw

theorem setError (h : EventInv s) (hc : c ∉ s.inside) (err : Err) :
    EventInv (s.withKernel (s.kernel.setThread c fun th => { th with error := err })) :=
  ⟨(h.calls.setError hc err).1, h.flagged, h.nonzero, h.waiting⟩

/-- **`_rt_event_recv`** up to its `rt_schedule`. -/
theorem recv (h : EventInv s) {option : BitVec 8} {timeout : BitVec 32} {flag : SuspendFlag}
    {r : EventResult} (hs : eventRecv s e set option timeout flag = some (r, s')) :
    EventInv s' ∧ ∀ t ∈ s.inside, s'.data.eventSet t = s.data.eventSet t ∧
      (s'.kernel.thread t).error = (s.kernel.thread t).error ∧ t ∈ s'.inside ∧
      ∀ e, t ∈ s'.kernel.waiters e ↔ t ∈ s.kernel.waiters e := by
  unfold eventRecv at hs
  by_cases hz : set = 0
  · rw [if_pos hz] at hs
    cases hs
    exact ⟨h, fun t ht => ⟨rfl, rfl, ht, fun _ => .rfl⟩⟩
  rw [if_neg hz] at hs
  obtain ⟨c, hc, hs⟩ := Option.bind_eq_some_iff.mp hs
  obtain ⟨status, hst, hs⟩ := Option.bind_eq_some_iff.mp hs
  obtain ⟨-, hrun, hin⟩ := CallState.self_iff.mp hc
  have hne : ∀ t ∈ s.inside, t ≠ c := fun t ht e => hin (e ▸ ht)
  have hidle := (h.calls.caller_idle hrun).2
  have herror : ∀ err, ∀ t ∈ s.inside, ((s.kernel.setThread c
      fun th => { th with error := err }).thread t).error = (s.kernel.thread t).error :=
    fun err t ht => by rw [setThread_of_ne _ (hne t ht)]
  cases status with
  | true =>
    obtain ⟨recved, hrecved⟩ : ∃ recved, recved = s.data.set e &&& set := ⟨_, rfl⟩
    simp only [if_true] at hs
    rw [← hrecved] at hs
    have hfill : EventInv (eventFill
        (s.withKernel (s.kernel.setThread c fun th => { th with error := .eok })) c recved
        option) := by
      refine (h.setError hin .eok).data (fun _ _ => id) fun x t ht => ?_
      have htc : t ≠ c := fun e => hidle x (e ▸ ht)
      exact ⟨Function.update_of_ne htc _ _, Function.update_of_ne htc _ _⟩
    split_ifs at hs with hclear
    · cases hs
      refine ⟨hfill.data (fun x i hi => ?_) fun _ _ _ => ⟨rfl, rfl⟩, fun t ht =>
        ⟨Function.update_of_ne (hne t ht) _ _, herror _ t ht, ht, fun _ => .rfl⟩⟩
      change ((Function.update s.data.set e (s.data.set e &&& ~~~set)) x).getLsbD i = true at hi
      change (s.data.set x).getLsbD i = true
      by_cases hx : x = e
      · subst hx
        rw [Function.update_self, BitVec.getLsbD_and, Bool.and_eq_true] at hi
        exact hi.1
      · rwa [Function.update_of_ne hx] at hi
    · cases hs
      exact ⟨hfill, fun t ht =>
        ⟨Function.update_of_ne (hne t ht) _ _, herror _ t ht, ht, fun _ => .rfl⟩⟩
  | false =>
    simp only [Bool.false_eq_true, if_false] at hs
    by_cases ht0 : timeout = 0
    · rw [if_pos ht0] at hs
      cases hs
      exact ⟨h.setError hin _, fun t ht => ⟨rfl, herror _ t ht, ht, fun _ => .rfl⟩⟩
    rw [if_neg ht0] at hs
    obtain ⟨⟨err, s₁⟩, hs, he⟩ := Option.map_eq_some_iff.mp hs
    have hfill : CallInv (eventFill s c set option) := h.calls.withData _
    obtain ⟨k, rfl, rfl, hcalls, hw⟩ := hfill.wait hc hs
    cases he
    have hmem : ∀ {x t}, t ∈ k.waiters x → (x = e ∧ t = c) ∨ (t ≠ c ∧ t ∈ s.kernel.waiters x) :=
      fun {x t} ht => ((hw.waiters x t).mp ht).imp_right fun ht' =>
        ⟨fun e => hidle x (e ▸ ht'), ht'⟩
    refine ⟨⟨hcalls, fun {x t} ht => ?_, fun {x t} ht => ?_, fun {x t} ht => ?_⟩, fun t ht =>
      ⟨Function.update_of_ne (hne t ht) _ _, ?_, List.mem_cons_of_mem _ ht, fun x => ?_⟩⟩
    · change eventFlagged (Function.update s.data.eventInfo c option t)
      rcases hmem ht with ⟨-, rfl⟩ | ⟨htc, ht⟩
      · rw [Function.update_self]
        unfold eventStatus at hst
        by_contra hf
        rw [eventFlagged, not_or] at hf
        rw [if_neg hf.1, if_neg hf.2] at hst
        cases hst
      · rw [Function.update_of_ne htc]
        exact h.flagged ht
    · change Function.update s.data.eventSet c set t ≠ 0
      rcases hmem ht with ⟨-, rfl⟩ | ⟨htc, ht⟩
      · rw [Function.update_self]
        exact hz
      · rw [Function.update_of_ne htc]
        exact h.nonzero ht
    · change eventComes (Function.update s.data.eventInfo c option t)
        (Function.update s.data.eventSet c set t) (s.data.set x) = false
      rcases hmem ht with ⟨rfl, rfl⟩ | ⟨htc, ht⟩
      · rw [Function.update_self, Function.update_self, eventComes, hst]
        rfl
      · rw [Function.update_of_ne htc, Function.update_of_ne htc]
        exact h.waiting ht
    · exact congrArg Thread.error (hw.thread t (hne t ht))
    · exact (hw.waiters x t).trans (or_iff_right fun e => hne t ht e.2)

/-- **Every step keeps the invariant**, and leaves a woken thread what it has received. -/
theorem step (h : EventInv s) {a : EventLabel T E} {r : EventResult}
    (hs : eventStep s a = some (r, s')) : EventInv s' ∧ ∀ t ∈ s.inside,
      (∀ e, t ∉ s.kernel.waiters e) → (a = .resume → s.caller ≠ some t) →
        s'.data.eventSet t = s.data.eventSet t ∧
        (s'.kernel.thread t).error = (s.kernel.thread t).error ∧ t ∈ s'.inside ∧
        ∀ e, t ∉ s'.kernel.waiters e := by
  cases a with
  | env a =>
    obtain ⟨s₁, h₁, he⟩ := Option.map_eq_some_iff.mp hs
    cases he
    obtain ⟨hinv, hf⟩ := h.env h₁
    refine ⟨hinv, fun t ht hun _ => ⟨by rw [hf.data], ?_, hf.inside ▸ ht, fun e hte => ?_⟩⟩
    · rcases hf.calls t ht with hu | hout
      · exact hu.error
      · obtain ⟨e, hte⟩ := hout.waiter
        exact absurd hte (hun e)
    · exact hun e ((hf.sublist e).subset hte)
  | send e set =>
    have hsent := (h.sent e set).2
    have hinv := h.send e set
    cases hs
    refine ⟨hinv, fun t ht hun _ => ?_⟩
    have hk := hsent.kept t fun hm => hun e hm.1
    exact ⟨hk.1, hk.2, hsent.inside.symm ▸ ht, fun x hx => hun x ((hsent.woken x t).mp hx).1⟩
  | recv e set option timeout flag =>
    obtain ⟨hinv, hk⟩ := h.recv hs
    refine ⟨hinv, fun t ht hun _ => ?_⟩
    obtain ⟨h1, h2, h3, h4⟩ := hk t ht
    exact ⟨h1, h2, h3, fun x hx => hun x ((h4 x).mp hx)⟩
  | resume =>
    obtain ⟨c, hc, he⟩ := Option.map_eq_some_iff.mp hs
    cases he
    refine ⟨⟨h.calls.leave hc, h.flagged, h.nonzero, h.waiting⟩, fun t ht hun hne => ?_⟩
    have htc : t ≠ c := fun e => hne rfl (e ▸ hc)
    exact ⟨rfl, rfl, (List.mem_erase_of_ne htc).mpr ht, hun⟩

end EventInv

/-! ## Agreement -/

/-- The events of the waiting threads have not come; a send wakes, clears and hands over as
immediate receives on the old events with the new ones would; a woken thread keeps and returns what
it has been given. -/
structure EventAgrees (s : EventCalls T E) : Prop where
  waiting : ∀ {e t}, t ∈ s.kernel.waiters e → eventReady s.data (s.data.set e) t = false
  send : ∀ e set, EventSent s (eventSend s e set).2 e set
  immediate : ∀ e set, ∀ t ∈ s.kernel.waiters e,
    eventReady s.data (s.data.set e ||| set) t = true →
      ∀ (s₂ : EventCalls T E) c timeout flag, s₂.self = some c →
        s₂.data.set e = s.data.set e ||| set →
          ∃ s₃, eventRecv s₂ e (s.data.eventSet t) (s.data.eventInfo t) timeout flag =
            some (.received ((eventSend s e set).2.data.eventSet t), s₃)
  kept : ∀ {a r s'}, eventStep s a = some (r, s') → ∀ t ∈ s.inside,
    (∀ e, t ∉ s.kernel.waiters e) → (a = .resume → s.caller ≠ some t) →
      s'.data.eventSet t = s.data.eventSet t ∧
      (s'.kernel.thread t).error = (s.kernel.thread t).error ∧ t ∈ s'.inside ∧
      ∀ e, t ∉ s'.kernel.waiters e
  resume : ∀ {c}, s.caller = some c → (s.kernel.thread c).error = .eok →
    (eventResume s c).1 = .received (s.data.eventSet c)

/-- An immediate receive of events that have come. -/
theorem eventRecv_ready {s : EventCalls T E} {e : E} {set : BitVec 32} {option : BitVec 8} {c : T}
    (hz : set ≠ 0) (hc : s.self = some c) (hr : eventComes option set (s.data.set e) = true)
    (timeout : BitVec 32) (flag : SuspendFlag) :
    ∃ s', eventRecv s e set option timeout flag =
      some (.received (s.data.set e &&& set), s') := by
  rw [eventComes, decide_eq_true_eq] at hr
  unfold eventRecv
  rw [if_neg hz, hc]
  simp only [Option.bind_eq_bind, Option.bind_some, hr]
  exact ⟨_, rfl⟩

/-- **Event groups.** In every reachable state no waiting thread's events have come, and sends agree
with immediate receives. -/
theorem event_agreement {s : EventCalls T E} (hs : (eventSystem T E).Reach System.anyStep s) :
    EventAgrees s := by
  have h : EventInv s := hs.invariant (fun _ => EventInv.init) fun s a s' hI _ hst => by
    obtain ⟨⟨r, s₁⟩, h₁, rfl⟩ := Option.map_eq_some_iff.mp hst
    exact (hI.step h₁).1
  refine ⟨h.waiting, fun e set => (h.sent e set).2, fun e set t ht hr s₂ c timeout flag hc hset => ?_,
    fun hst => (h.step hst).2, fun {c} hc herr => ?_⟩
  · have hrec := ((h.sent e set).2.received t ht hr).2
    rw [hrec, ← hset]
    rw [eventReady, ← hset] at hr
    exact eventRecv_ready (h.nonzero ht) hc hr timeout flag
  · rw [eventResume, herr, if_neg (not_not.mpr rfl)]

/-- Two threads and an event. -/
def noEvents : EventCalls (Fin 2) Unit :=
  .initial (fun _ => 10) (fun _ => { IpcObject.mutexInit with type := .event, flag := .fifo })
    (fun _ => ()) { set := fun _ => 0, eventSet := fun _ => 0, eventInfo := fun _ => 0 }

/-- Thread 0 waits for the events 1 and 2 and clears them; they come with the event 4. -/
theorem event_agreement_cleared : ∃ s, (eventSystem (Fin 2) Unit).Reach System.anyStep s ∧
    s.data.set () = 4 ∧ s.data.eventSet 0 = 3 ∧ EventAgrees s := by
  obtain ⟨s, hs, hp⟩ := System.exists_reach (eventSystem (Fin 2) Unit) System.anyStep
    (fun s => s.data.set () = 4 ∧ s.data.eventSet 0 = 3)
    (s := noEvents) ⟨CallState.initial_init (fun _ => by decide) _ _ _, fun _ => rfl,
      fun _ => ⟨rfl, rfl⟩⟩
    [.env (.startup 0), .env .start, .recv () 3 5 9 .uninterruptible, .send () 1, .send () 6]
    (by decide)
  obtain ⟨h1, h2⟩ := of_decide_eq_true hp
  exact ⟨s, hs, h1, h2, event_agreement hs⟩

end RtThread
