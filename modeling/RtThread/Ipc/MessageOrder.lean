import RtThread.Ipc.MessageQueue

/-!
# The order of messages with priorities

With `RT_USING_MESSAGEQUEUE_PRIORITY`, `_rt_mq_send_wait` links a message by its priority and
`rt_mq_urgent` links one at the head. Beside the message queues, `mark` records for every linked
message how and when it was linked.

* `MqMove`: what a section other than linking does to a message queue; `mqStep_moves`;
* `MqBefore`: which of two queued messages should be received first;
* `MqOrdered`: the queue list in this order, with the priorities that are stored; `MqOrdered.link`;
* **`mq_order`**: the runs in which messages are received in this order.
-/

set_option linter.unusedSectionVars false

namespace RtThread

open Kernel

variable {T M : Type} [DecidableEq T] [DecidableEq M]

/-! ## What a section does to a queue -/

/-- A section of a call, linking apart. -/
inductive MqMove (mq : MessageQueue) : MessageQueue → Prop where
  | takeFree {b : ℕ} (urgent : Bool) (buffer : List UInt8) (prio : ℤ) : mq.free = some b →
    MqMove mq (mq.takeFree b (.sending urgent buffer prio))
  | copyIn {b : ℕ} {urgent : Bool} {buffer : List UInt8} {prio : ℤ} :
    mq.flight b = some (.sending urgent buffer prio) → MqMove mq (mq.copyIn b urgent buffer prio)
  | unlink {b : ℕ} (size : ℕ) : mq.head = some b → MqMove mq (mq.unlink b size)
  | copyTo {b size : ℕ} {message : List UInt8} : mq.flight b = some (.receiving size message) →
    MqMove mq (mq.copyTo b size message)
  | putBack {b : ℕ} {f : MqFlight} : mq.flight b = some f → MqMove mq ((mq.putFree b).land b)

/-- The queue list stays, or loses its first message; the priorities stay. -/
theorem MqMove.well {mq mq' : MessageQueue} {fr qu : List ℕ} (h : MqMove mq mq')
    (hw : MqWell mq fr qu) : ∃ fr' qu', MqWell mq' fr' qu' ∧ qu' <:+ qu ∧ mq'.prio = mq.prio := by
  cases h with
  | takeFree urgent buffer prio hb =>
    obtain ⟨fr', -, hw'⟩ := hw.takeFree hb urgent buffer prio
    exact ⟨fr', qu, hw', List.suffix_rfl, rfl⟩
  | copyIn hb => exact ⟨fr, qu, (hw.copyIn hb).1, List.suffix_rfl, rfl⟩
  | unlink size hb =>
    obtain ⟨qu', rfl, -, hw'⟩ := hw.unlink hb size
    exact ⟨fr, qu', hw', List.suffix_cons _ _, rfl⟩
  | copyTo hb => exact ⟨fr, qu, (hw.copyTo hb).1, List.suffix_rfl, rfl⟩
  | putBack hb => exact ⟨_, qu, hw.putBack hb, List.suffix_rfl, rfl⟩

/-- At most one queue has moved. -/
def MqMoved (s s' : MqCalls T M) : Prop :=
  s'.data = s.data ∨ ∃ m mq', MqMove (s.data m) mq' ∧ s'.data = Function.update s.data m mq'

section

variable {s s' : MqCalls T M} {c : T} {m : M} {h : MqList M} {l : MqLocals M} {r : MqResult}
  {thread : Option T} {buffer : List UInt8} {prio : ℤ} {size b : ℕ} {priority : Bool}

theorem mqWait_quiet (hw : mqWait s c l h = some (r, s')) :
    s'.data = s.data ∧ ∀ b, r ≠ .unlinked b := by
  obtain ⟨⟨e, s₁⟩, hwait, he⟩ := Option.map_eq_some_iff.mp hw
  cases he
  refine ⟨?_, fun b hb => by cases e <;> cases hb⟩
  unfold CallState.wait at hwait
  by_cases htime : timeoutOk l.timeout = true
  · rw [if_pos htime] at hwait
    split at hwait <;> (cases hwait; rfl)
  · rw [if_neg htime] at hwait
    cases hwait

theorem mqWake_data (s : MqCalls T M) (h : MqList M) : (mqWake s h).data = s.data := by
  unfold mqWake
  split <;> rfl

theorem mqSendLoop_moves (hl : mqSendLoop s thread l buffer prio = some (r, s')) :
    MqMoved s s' ∧ ∀ b, r ≠ .unlinked b := by
  unfold mqSendLoop at hl
  cases hfree : (s.data l.mq).free with
  | none =>
    rw [hfree] at hl
    obtain ⟨c, -, hl⟩ := Option.bind_eq_some_iff.mp hl
    by_cases ht : l.timeout = 0
    · rw [if_pos ht] at hl
      cases hl
      exact ⟨.inl rfl, fun b hb => by cases hb⟩
    · rw [if_neg ht] at hl
      exact ⟨.inl (mqWait_quiet hl).1, (mqWait_quiet hl).2⟩
  | some b =>
    rw [hfree] at hl
    cases hl
    exact ⟨.inr ⟨l.mq, _, .takeFree false buffer prio hfree, rfl⟩, fun b hb => by cases hb⟩

theorem mqRecvLoop_moves (hl : mqRecvLoop s thread l size = some (r, s')) :
    MqMoved s s' ∧ ∀ b, r = .unlinked b → (s.data l.mq).head = some b := by
  unfold mqRecvLoop at hl
  by_cases hempty : (s.data l.mq).entry = 0
  · rw [if_pos hempty] at hl
    obtain ⟨c, -, hl⟩ := Option.bind_eq_some_iff.mp hl
    by_cases ht : l.timeout = 0
    · rw [if_pos ht] at hl
      cases hl
      exact ⟨.inl rfl, fun b hb => by cases hb⟩
    · rw [if_neg ht] at hl
      exact ⟨.inl (mqWait_quiet hl).1, fun b hb => absurd hb ((mqWait_quiet hl).2 b)⟩
  · rw [if_neg hempty] at hl
    obtain ⟨b, hb, hl⟩ := Option.map_eq_some_iff.mp hl
    cases hl
    refine ⟨.inr ⟨l.mq, _, .unlink size hb, rfl⟩, fun b' hb' => ?_⟩
    cases hb'
    exact hb

theorem mqResume_moves (hr : mqResume s c = some (r, s')) :
    MqMoved s s' ∧ ∀ b, r = .unlinked b → (s.data (s.locals c).mq).head = some b := by
  unfold mqResume at hr
  by_cases herr : (s.kernel.thread c).error ≠ .eok
  · rw [if_pos herr] at hr
    cases hr
    exact ⟨.inl rfl, fun b hb => by cases hb⟩
  · rw [if_neg herr] at hr
    cases hop : (s.locals c).op with
    | send buffer prio =>
      simp only [hop] at hr
      have hmoves := mqSendLoop_moves hr
      exact ⟨hmoves.1, fun b hb => absurd hb (hmoves.2 b)⟩
    | recv size =>
      simp only [hop] at hr
      have hmoves := mqRecvLoop_moves hr
      exact hmoves

/-- What a step does to the queues, when it does not link a message. -/
theorem mqStep_moves (hs : MqInv s) {a : MqLabel T M} (hst : mqStep priority s a = some (r, s'))
    (hlink : ∀ m b, a ≠ .link m b) : MqMoved s s' := by
  cases a with
  | env a =>
    obtain ⟨s₁, h₁, he⟩ := Option.map_eq_some_iff.mp hst
    cases he
    exact .inl (hs.env h₁).2
  | send m buffer prio timeout flag =>
    simp only [mqStep, mqSend] at hst
    split_ifs at hst
    · cases hst
      exact .inl rfl
    · cases hst
      exact .inl rfl
    · exact (mqSendLoop_moves hst).1
  | urgent m buffer =>
    simp only [mqStep, mqUrgent] at hst
    split_ifs at hst
    · cases hst
      exact .inl rfl
    · cases hfree : (s.data m).free with
      | none =>
        rw [hfree] at hst
        cases hst
        exact .inl rfl
      | some b =>
        rw [hfree] at hst
        cases hst
        exact .inr ⟨m, _, .takeFree true buffer 0 hfree, rfl⟩
  | recv m size timeout flag =>
    simp only [mqStep, mqRecv] at hst
    split_ifs at hst
    · cases hst
      exact .inl rfl
    · exact (mqRecvLoop_moves hst).1
  | resume =>
    obtain ⟨c, -, hst⟩ := Option.bind_eq_some_iff.mp hst
    exact (mqResume_moves hst).1
  | copy m b =>
    change mqCopy s m b = some (r, s') at hst
    unfold mqCopy at hst
    split at hst
    · next urgent buffer prio hb =>
      cases hst
      exact .inr ⟨m, _, .copyIn hb, rfl⟩
    · cases hst
  | link m b => exact absurd rfl (hlink m b)
  | read m b =>
    change mqRead s m b = some (r, s') at hst
    unfold mqRead at hst
    split at hst
    · next size message hb =>
      cases hst
      exact .inr ⟨m, _, .copyTo hb, rfl⟩
    · cases hst
  | putBack m b =>
    change mqPutBack s m b = some (r, s') at hst
    unfold mqPutBack at hst
    split at hst
    · next size message out hb =>
      cases hst
      exact .inr ⟨m, _, .putBack hb, mqWake_data _ _⟩
    · cases hst

/-- A message that is received was the head of its queue. -/
theorem mqStep_unlinked {a : MqLabel T M} (hst : mqStep priority s a = some (.unlinked b, s')) :
    ∃ m act, mqAct s a = some (m, act) ∧ (s.data m).head = some b := by
  cases a with
  | env a =>
    obtain ⟨s₁, -, he⟩ := Option.map_eq_some_iff.mp hst
    cases he
  | send m buffer prio timeout flag =>
    simp only [mqStep, mqSend] at hst
    split_ifs at hst
    · cases hst
    · cases hst
    · exact absurd rfl ((mqSendLoop_moves hst).2 b)
  | urgent m buffer =>
    simp only [mqStep, mqUrgent] at hst
    split_ifs at hst
    · cases hst
    · split at hst <;> cases hst
  | recv m size timeout flag =>
    simp only [mqStep, mqRecv] at hst
    split_ifs at hst
    · cases hst
    · exact ⟨m, _, rfl, (mqRecvLoop_moves hst).2 b rfl⟩
  | resume =>
    obtain ⟨c, hc, hst⟩ := Option.bind_eq_some_iff.mp hst
    refine ⟨(s.locals c).mq, (s.locals c).op.act, ?_, (mqResume_moves hst).2 b rfl⟩
    simp only [mqAct, hc, Option.map_some]
  | copy m b =>
    change mqCopy s m b = _ at hst
    unfold mqCopy at hst
    split at hst <;> cases hst
  | link m b =>
    change mqLink priority s m b = _ at hst
    unfold mqLink at hst
    split at hst
    · obtain ⟨mq, -, he⟩ := Option.map_eq_some_iff.mp hst
      dsimp only at he
      split_ifs at he <;> cases he
    · cases hst
  | read m b =>
    change mqRead s m b = _ at hst
    unfold mqRead at hst
    split at hst <;> cases hst
  | putBack m b =>
    change mqPutBack s m b = _ at hst
    unfold mqPutBack at hst
    split at hst <;> cases hst

end

/-! ## The messages by how they were sent -/

/-- How a message was sent, and when it was linked. -/
structure MqMark where
  urgent : Bool
  prio : ℤ
  time : ℕ
  deriving DecidableEq, Repr

/-- Of two messages in a queue, `x` should be received first: of urgent ones the later one, these
before the others, and of those the one of the higher priority, or the earlier one. -/
def MqBefore (x y : MqMark) : Prop :=
  if y.urgent then x.urgent = true ∧ y.time < x.time
  else x.urgent = true ∨ y.prio < x.prio ∨ x.prio = y.prio ∧ x.time < y.time

instance (x y : MqMark) : Decidable (MqBefore x y) := by
  unfold MqBefore
  infer_instance

/-- The message queues, with the messages' marks and the number of messages linked so far. -/
structure MqMarked (T M : Type) where
  calls : MqCalls T M
  mark : M → ℕ → MqMark
  clock : ℕ

/-- One step; a message is marked when it is linked. -/
def mqMarkedStep (s : MqMarked T M) (a : MqLabel T M) : Option (MqMarked T M) :=
  (mqStep true s.calls a).map fun r =>
    match a with
    | .link m b =>
      match (s.calls.data m).flight b with
      | some (.copied urgent _ prio) =>
        { calls := r.2
          mark := Function.update s.mark m
            (Function.update (s.mark m) b { urgent := urgent, prio := prio, time := s.clock })
          clock := s.clock + 1 }
      | _ => { s with calls := r.2 }
    | _ => { s with calls := r.2 }

/-- The message queues with priorities, as a system. -/
def mqMarkedSystem (T M : Type) [DecidableEq T] [DecidableEq M] :
    System (MqMarked T M) (MqLabel T M) where
  init s := MqInit true s.calls
  step := mqMarkedStep

/-- The messages in a queue, the first to be received first. -/
def MessageQueue.queued (mq : MessageQueue) : List ℕ := chainList mq.next mq.maxMsgs mq.head

/-- When a message is linked by its priority, every urgent message in the queue has a priority stored
that is as high. -/
def mqOrderOk (s : MqMarked T M) : MqLabel T M → Bool
  | .link m b =>
    match (s.calls.data m).flight b with
    | some (.copied false _ prio) => (s.calls.data m).queued.all fun c =>
      !(s.mark m c).urgent || decide (prio ≤ (s.calls.data m).prio c)
    | _ => true
  | _ => true

/-- The queue list is in order, and the messages with priorities have them stored. -/
structure MqOrdered (prio : ℕ → ℤ) (mark : ℕ → MqMark) (clock : ℕ) (qu : List ℕ) : Prop where
  order : qu.Pairwise fun b c => MqBefore (mark b) (mark c)
  stored : ∀ b ∈ qu, (mark b).urgent = false → prio b = (mark b).prio
  past : ∀ b ∈ qu, (mark b).time < clock

namespace MqOrdered

variable {prio prio' : ℕ → ℤ} {mark mark' : ℕ → MqMark} {clock b : ℕ} {qu l l' : List ℕ} {x : MqMark}

theorem suffix (h : MqOrdered prio mark clock qu) (hl : l <:+ qu) : MqOrdered prio mark clock l where
  order := h.order.sublist hl.sublist
  stored b hb := h.stored b (hl.subset hb)
  past b hb := h.past b (hl.subset hb)

/-- **Linking keeps the order**, at the head or at the place for the priority. -/
theorem link (h : MqOrdered prio mark clock (l ++ l')) (hb : b ∉ l ++ l')
    (hmark : mark' = Function.update mark b x) (htime : x.time = clock)
    (hprio : ∀ c ≠ b, prio' c = prio c) (hself : x.urgent = false → prio' b = x.prio)
    (hhead : x.urgent = true → l = [])
    (hplace : x.urgent = false → MqPlaced prio' b l l')
    (hok : x.urgent = false → ∀ c ∈ l ++ l', (mark c).urgent = true → x.prio ≤ prio c) :
    MqOrdered prio' mark' (clock + 1) (l ++ b :: l') := by
  have hne : ∀ c ∈ l ++ l', c ≠ b := fun c hc he => hb (he ▸ hc)
  have hold : ∀ c ∈ l ++ l', mark' c = mark c := fun c hc => by
    rw [hmark, Function.update_of_ne (hne c hc)]
  have hnew : mark' b = x := by rw [hmark, Function.update_self]
  obtain ⟨hl, hl', hcross⟩ := List.pairwise_append.mp h.order
  -- what is behind `b`
  have hbehind : ∀ c ∈ l', MqBefore x (mark c) := fun c hc => by
    have hin : ∀ d ∈ l', d ∈ l ++ l' := fun d hd => List.mem_append_right _ hd
    have hpast := h.past c (hin c hc)
    unfold MqBefore
    cases hx : x.urgent with
    | true =>
      split_ifs
      · exact ⟨rfl, by omega⟩
      · exact .inl rfl
    | false =>
      cases l' with
      | nil => cases hc
      | cons d rest =>
        have hd := hin d List.mem_cons_self
        have hlow : prio d < x.prio := by
          have := (hplace hx).behind d rfl
          rwa [hprio d (hne d hd), hself hx] at this
        have hdu : (mark d).urgent = false := by
          by_contra hu
          exact absurd (hok hx d hd (by simpa using hu)) (Int.not_le.mpr hlow)
        have hdp := h.stored d hd hdu
        rcases List.mem_cons.mp hc with rfl | hc
        · rw [if_neg (by rw [hdu]; simp)]
          exact .inr (.inl (by omega))
        · have hdc := (List.pairwise_cons.mp hl').1 c hc
          unfold MqBefore at hdc
          by_cases hcu : (mark c).urgent = true
          · rw [if_pos hcu, hdu] at hdc
            exact absurd hdc.1 Bool.false_ne_true
          · rw [if_neg hcu, hdu] at hdc
            rw [if_neg hcu]
            rcases hdc with hdc | hdc | hdc
            · cases hdc
            · exact .inr (.inl (by omega))
            · exact .inr (.inl (by omega))
  -- what is in front of it
  have hbefore : ∀ c ∈ l, MqBefore (mark c) x := fun c hc => by
    have hin : c ∈ l ++ l' := List.mem_append_left _ hc
    have hpast := h.past c hin
    unfold MqBefore
    cases hx : x.urgent with
    | true =>
      rw [hhead hx] at hc
      cases hc
    | false =>
      rw [if_neg Bool.false_ne_true]
      cases hcu : (mark c).urgent with
      | true => exact .inl rfl
      | false =>
        have hhigh := (hplace hx).before c hc
        rw [hprio c (hne c hin), hself hx, h.stored c hin hcu] at hhigh
        omega
  refine ⟨List.pairwise_append.mpr ⟨?_, List.pairwise_cons.mpr ⟨fun c hc => ?_, ?_⟩,
    fun c hc d hd => ?_⟩, fun c hc hu => ?_, fun c hc => ?_⟩
  · refine hl.imp_of_mem fun {c d} hc hd hcd => ?_
    rwa [hold c (List.mem_append_left _ hc), hold d (List.mem_append_left _ hd)]
  · rw [hnew, hold c (List.mem_append_right _ hc)]
    exact hbehind c hc
  · refine hl'.imp_of_mem fun {c d} hc hd hcd => ?_
    rwa [hold c (List.mem_append_right _ hc), hold d (List.mem_append_right _ hd)]
  · rw [hold c (List.mem_append_left _ hc)]
    rcases List.mem_cons.mp hd with rfl | hd
    · rw [hnew]
      exact hbefore c hc
    · rw [hold d (List.mem_append_right _ hd)]
      exact hcross c hc d hd
  · by_cases hcb : c = b
    · subst hcb
      rw [hnew] at hu ⊢
      exact hself hu
    · have hin : c ∈ l ++ l' := by simpa [hcb] using hc
      rw [hold c hin] at hu ⊢
      rw [hprio c hcb]
      exact h.stored c hin hu
  · by_cases hcb : c = b
    · subst hcb
      rw [hnew, htime]
      exact Nat.lt_succ_self _
    · have hin : c ∈ l ++ l' := by simpa [hcb] using hc
      rw [hold c hin]
      exact Nat.lt_succ_of_lt (h.past c hin)

end MqOrdered

/-- The invariant. -/
structure MqOrderInv (s : MqMarked T M) : Prop where
  inv : MqInv s.calls
  ordered : ∀ m, ∃ fr qu, MqWell (s.calls.data m) fr qu ∧
    MqOrdered (s.calls.data m).prio (s.mark m) s.clock qu

namespace MqOrderInv

variable {s s' : MqMarked T M}

/-- A step that does not link a message. -/
theorem moved (h : MqOrderInv s) {calls : MqCalls T M} (hinv : MqInv calls)
    (hmoved : MqMoved s.calls calls) : MqOrderInv { s with calls := calls } := by
  refine ⟨hinv, fun m => ?_⟩
  obtain ⟨fr, qu, hw, ho⟩ := h.ordered m
  rcases hmoved with hdata | ⟨m', mq', hmove, hdata⟩
  · exact ⟨fr, qu, hdata ▸ hw, hdata ▸ ho⟩
  · dsimp only
    rw [hdata]
    by_cases hm : m = m'
    · subst hm
      rw [Function.update_self]
      obtain ⟨fr', qu', hw', hsuffix, hprio⟩ := hmove.well hw
      exact ⟨fr', qu', hw', hprio ▸ ho.suffix hsuffix⟩
    · rw [Function.update_of_ne hm]
      exact ⟨fr, qu, hw, ho⟩

/-- **Linking a message.** -/
theorem linked (h : MqOrderInv s) {m : M} {b : ℕ} (hok : mqOrderOk s (.link m b) = true)
    (hst : mqMarkedStep s (.link m b) = some s') : MqOrderInv s' := by
  obtain ⟨⟨r, calls⟩, h1, rfl⟩ := Option.map_eq_some_iff.mp hst
  change mqLink true s.calls m b = some (r, calls) at h1
  have hflight : ∃ urgent buffer prio,
      (s.calls.data m).flight b = some (.copied urgent buffer prio) := by
    unfold mqLink at h1
    split at h1
    · next urgent buffer prio hb => exact ⟨_, _, _, hb⟩
    · cases h1
  obtain ⟨urgent, buffer, prio, hb⟩ := hflight
  obtain ⟨s₁, mq', fr, qu, l, l', h2, hinv, hdata, hw, rfl, hw', -, -, hplace⟩ :=
    h.inv.linkStep true hb
  rw [h1] at h2
  cases h2
  dsimp only
  rw [hb]
  refine ⟨hinv, fun m' => ?_⟩
  dsimp only
  rw [hdata]
  by_cases hm : m' = m
  · subst hm
    obtain ⟨fr₀, qu₀, hw₀, ho⟩ := h.ordered m'
    rw [hw₀.lists.queue.unique hw.lists.queue] at ho
    rw [Function.update_self, Function.update_self]
    refine ⟨fr, _, hw', ho.link (hw.flight_not_queued hb) rfl rfl (fun c hc => ?_) (fun hu => ?_)
      (fun hu => (hplace.head hu).1) (fun hu => (hplace.placed hu rfl).2) fun hu c hc hcu => ?_⟩
    · cases urgent with
      | true => rw [(hplace.head rfl).2]
      | false => rw [(hplace.placed rfl rfl).1, Function.update_of_ne hc]
    · rw [(hplace.placed hu rfl).1, Function.update_self]
    · -- the condition on the step
      unfold mqOrderOk at hok
      dsimp only at hok hu
      subst hu
      rw [hb] at hok
      dsimp only at hok
      rw [MessageQueue.queued, hw.lists.queue.chainList_eq hw.length_le] at hok
      have hc' := List.all_eq_true.mp hok c hc
      rw [hcu, Bool.not_true, Bool.false_or] at hc'
      exact of_decide_eq_true hc'
  · rw [Function.update_of_ne hm, Function.update_of_ne hm]
    obtain ⟨fr₀, qu₀, hw₀, ho⟩ := h.ordered m'
    exact ⟨fr₀, qu₀, hw₀, ho.order, ho.stored, fun c hc => Nat.lt_succ_of_lt (ho.past c hc)⟩

/-- **Every step keeps the order.** -/
theorem step (h : MqOrderInv s) {a : MqLabel T M} (hok : mqOrderOk s a = true)
    (hst : mqMarkedStep s a = some s') : MqOrderInv s' := by
  by_cases hlink : ∃ m b, a = .link m b
  · obtain ⟨m, b, rfl⟩ := hlink
    exact h.linked hok hst
  · have hnot : ∀ m b, a ≠ .link m b := fun m b he => hlink ⟨m, b, he⟩
    obtain ⟨⟨r, calls⟩, h1, rfl⟩ := Option.map_eq_some_iff.mp hst
    have hmoved := h.moved (h.inv.step h1).1 (mqStep_moves h.inv h1 hnot)
    cases a with
    | link m b => exact absurd rfl (hnot m b)
    | _ => exact hmoved

end MqOrderInv

/-- The messages of a queue are received in order: `qu` are those that are queued, and the one that a
call receives should be first of all of them. -/
structure MqReceives (s : MqMarked T M) (m : M) (qu : List ℕ) : Prop where
  queue : NextChain (s.calls.data m).next (s.calls.data m).head qu
  order : qu.Pairwise fun b c => MqBefore (s.mark m b) (s.mark m c)
  received : ∀ {a act b calls}, mqAct s.calls a = some (m, act) →
    mqStep true s.calls a = some (.unlinked b, calls) →
      b ∈ qu ∧ ∀ c ∈ qu, c ≠ b → MqBefore (s.mark m b) (s.mark m c)

/-- **The order of messages with priorities.** In every run in which a message is linked by its priority
only when every urgent message in the queue has a priority stored that is as high, every message that
is received is the one that should be: urgent ones first, the latest of them before the others, then
by priority, and the earlier before the later. -/
theorem mq_order {s : MqMarked T M} (hs : (mqMarkedSystem T M).Reach mqOrderOk s) (m : M) :
    ∃ qu, MqReceives s m qu := by
  have h : MqOrderInv s := hs.invariant
    (fun s h0 => ⟨MqInv.init h0, fun m => by
      obtain ⟨fr, hw⟩ := MqInv.init_well h0 m
      exact ⟨fr, [], hw, .nil, fun b hb => absurd hb List.not_mem_nil, fun b hb =>
        absurd hb List.not_mem_nil⟩⟩)
    fun _ _ _ hI hok hst => hI.step hok hst
  obtain ⟨fr, qu, hw, ho⟩ := h.ordered m
  refine ⟨qu, hw.lists.queue, ho.order, fun {a act b calls} hact hst => ?_⟩
  obtain ⟨m', act', hact', hhead⟩ := mqStep_unlinked hst
  rw [hact] at hact'
  cases hact'
  have hqu := hw.lists.queue
  rw [hhead] at hqu
  obtain ⟨t, rfl, -⟩ := hqu.pop
  refine ⟨List.mem_cons_self, fun c hc hcb => ?_⟩
  exact (List.pairwise_cons.mp ho.order).1 c ((List.mem_cons.mp hc).resolve_left hcb)

/-- A message queue with three messages of at most 4 bytes, for two threads; the priorities in its
memory are zero. -/
def threeMessages : MqMarked (Fin 2) Unit where
  calls := .initial (fun _ => 10)
    (fun _ => { IpcObject.mutexInit with type := .messageQueue, flag := .fifo })
    (fun _ => { mq := (), op := .recv 0, timeout := 0, flag := .uninterruptible, tickDelta := 0 })
    fun _ => .init true (fun _ => 0) (fun _ _ => 0) 4 64
  mark _ _ := { urgent := false, prio := 0, time := 0 }
  clock := 0

theorem threeMessages_init : (mqMarkedSystem (Fin 2) Unit).init threeMessages :=
  ⟨CallState.initial_init (fun _ => by decide) _ _ _,
    fun () => ⟨_, _, 4, by decide, .inl ⟨64, rfl, by decide⟩⟩⟩

/-- An urgent message is in front of two with priorities, the later of which has the higher one. -/
theorem mq_order_three : ∃ s, (mqMarkedSystem (Fin 2) Unit).Reach mqOrderOk s ∧
    (s.calls.data ()).queued = [0, 1, 2] ∧ ∃ qu, MqReceives s () qu := by
  obtain ⟨s, hs, hp⟩ := System.exists_reach (mqMarkedSystem (Fin 2) Unit) mqOrderOk
    (fun s => (s.calls.data ()).queued = [0, 1, 2]) threeMessages_init
    [.env (.startup 0), .env .start, .send () [1] 3 0 .uninterruptible, .copy () 2, .link () 2,
      .send () [2] 5 0 .uninterruptible, .copy () 1, .link () 1, .urgent () [3], .copy () 0,
      .link () 0] (by decide)
  exact ⟨s, hs, of_decide_eq_true hp, mq_order hs ()⟩

/-- A message of priority 5 is linked in front of an urgent one that was there before, whose stored
priority is what the memory had. -/
theorem mq_order_stale : ∃ s, (mqMarkedSystem (Fin 2) Unit).Reach System.anyStep s ∧
    (s.calls.data ()).queued = [1, 2] ∧ s.mark () 1 = { urgent := false, prio := 5, time := 1 } ∧
    s.mark () 2 = { urgent := true, prio := 0, time := 0 } ∧ ¬∃ qu, MqReceives s () qu := by
  obtain ⟨s, hs, hp⟩ := System.exists_reach (mqMarkedSystem (Fin 2) Unit) System.anyStep
    (fun s => (s.calls.data ()).queued = [1, 2] ∧
      ((s.calls.data ()).head = some 1 ∧ (s.calls.data ()).next 1 = some 2) ∧
      s.mark () 1 = { urgent := false, prio := 5, time := 1 } ∧
      s.mark () 2 = { urgent := true, prio := 0, time := 0 }) threeMessages_init
    [.env (.startup 0), .env .start, .urgent () [1], .copy () 2, .link () 2,
      .send () [2] 5 0 .uninterruptible, .copy () 1, .link () 1] (by decide)
  obtain ⟨h1, ⟨hhead, hnext⟩, h3, h4⟩ := of_decide_eq_true hp
  refine ⟨s, hs, h1, h3, h4, ?_⟩
  rintro ⟨qu, hqu⟩
  have hchain := hqu.queue
  rw [hhead] at hchain
  obtain ⟨t, rfl, ht⟩ := hchain.pop
  rw [hnext] at ht
  obtain ⟨t', rfl, -⟩ := ht.pop
  have hfirst := (List.pairwise_cons.mp hqu.order).1 2 List.mem_cons_self
  rw [h3, h4] at hfirst
  exact absurd hfirst (by decide)

end RtThread
