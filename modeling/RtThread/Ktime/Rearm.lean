import RtThread.Ktime.Hrtimer

/-!
# The armed high-resolution timer

`_set_next_timeout` arms the hardware for the head of the list when nothing is armed, or when the head is
another timer than `_nowtimer` with a smaller `timeout_cnt`; that comparison does not wrap, and a timer that
is started again while it is armed keeps its old time-out.

* `armable`, `startOk`, `hrOk`: the operations after which the right time-out is armed;
* `HrOrder`, `HrArmed`: the invariant;
* `HrOrder.hrInsert`: the place of a timer; `HrOrder.setNext`: arming when nothing is armed;
* **`hrtimer_armed`**: the runs of such operations; `hrtimer_early`: a restart with a later deadline.
-/

set_option linter.unusedSectionVars false

namespace RtThread

variable {H : Type} [DecidableEq H] {w : ℕ} {b : Board w} {s : HrState H w} {t u : H}

/-! ## The condition -/

namespace HrState

variable (b s)

/-- `_cnt_convert` is right for the deadlines of the timers on the list: none is past by more than half the
range, and the hardware time-out for the first one that is not past does not come early. -/
def armable (ds : List ℕ) : Prop :=
  (∀ d ∈ ds, s.time ≤ d + halfRange w + 1) ∧
    ∀ d ∈ ds, s.time ≤ d → (∀ e ∈ ds, s.time ≤ e → d ≤ e) →
      d - s.time ≤ b.span (convert b (BitVec.ofNat w (d - s.time)))

instance (ds : List ℕ) : Decidable (armable b s ds) := inferInstanceAs (Decidable (_ ∧ _))

/-- The deadline of a timer that is started is less than half the range from the others on the list. -/
def fits (t : H) : Prop :=
  ∀ u ∈ s.list.erase t, s.deadline u < s.deadline t + halfRange w ∧ s.deadline t < s.deadline u + halfRange w

instance (t : H) : Decidable (s.fits t) := inferInstanceAs (Decidable (∀ u ∈ _, _))

/-- `_cnt_convert` is right for the deadlines of the list with a timer that is started. -/
def armableWith (t : H) : Prop := armable b s ((t :: s.list.erase t).map s.deadline)

instance (t : H) : Decidable (armableWith b s t) := inferInstanceAs (Decidable (armable _ _ _))

/-- **A start after which the right time-out is armed.** Nothing was armed before; or the timer becomes the
first one, and its `timeout_cnt` is smaller than the armed one's; or it is the armed one, and the one that is
the first then has a smaller `timeout_cnt`, or it remains the first and its deadline has not changed. -/
def startOk (t : H) : Prop :=
  s.fits t ∧
    match s.nowtimer with
    | none => armableWith b s t
    | some now =>
      if now = t then
        match s.list.erase t with
        | [] => s.deadline t = s.armedFor
        | u :: _ =>
          if s.deadline u ≤ s.deadline t then
            (s.timer u).timeoutCnt < (s.timer t).timeoutCnt ∧ armableWith b s t
          else s.deadline t = s.armedFor
      else if s.deadline t < s.deadline now then
        (s.timer t).timeoutCnt < (s.timer now).timeoutCnt ∧ armableWith b s t
      else True

instance (t : H) : Decidable (startOk b s t) := by
  unfold startOk
  refine @instDecidableAnd _ _ _ ?_
  split
  · infer_instance
  · split
    · split <;> infer_instance
    · infer_instance

/-- **The condition** on an operation and the state before it. -/
def hrOk : HrLabel H w → Bool
  | .start t => decide (startOk b s t)
  | .restart t cnt => (s.setTime t cnt).all fun s => decide (startOk b s t)
  | .stop t => decide ((s.timer t).activated = true → armable b s ((s.list.erase t).map s.deadline))
  | .timeOut => decide (armable b s (s.list.tail.map s.deadline))
  | .elapse _ => true

end HrState

open HrState

/-! ## The invariant -/

/-- The list is sorted, within half the range; the calls so far were right. -/
structure HrOrder (s : HrState H w) : Prop where
  nodup : s.list.Nodup
  sorted : s.list.Pairwise fun u v => s.deadline u ≤ s.deadline v ∧ s.deadline v < s.deadline u + halfRange w
  activated : ∀ t ∈ s.list, (s.timer t).activated = true
  running : ∀ t, s.running t = (s.timer t).activated
  timeoutCnt : ∀ t, (s.timer t).timeoutCnt = BitVec.ofNat w (s.deadline t)
  ahead : ∀ t, s.deadline t < s.time + halfRange w
  calls : ∀ c ∈ s.called, c.running = true ∧ c.deadline ≤ c.time

/-- **The invariant**: `_nowtimer` is the head, and the hardware is armed for it. -/
structure HrArmed (s : HrState H w) : Prop extends HrOrder s where
  head : s.nowtimer = s.list.head?
  noAlarm : s.list = [] → s.alarm = none
  alarm : ∀ t, s.nowtimer = some t →
    ∃ at', s.alarm = some (t, at') ∧ s.armedFor = s.deadline t ∧ s.deadline t ≤ at'

theorem hrtimerHalf_toNat : (hrtimerHalf w).toNat = halfRange w := by
  unfold hrtimerHalf
  rw [BitVec.toNat_ofNat, Nat.mod_eq_of_lt halfRange_lt]

/-- A deadline that is past is found past. -/
theorem convert_past {d now : ℕ} (h : d < now) (hnear : now ≤ d + halfRange w + 1) :
    convert b (BitVec.ofNat w d - BitVec.ofNat w now) = 0 := by
  have hpow := two_pow_eq_halfRange b.wide
  unfold convert
  refine if_pos ?_
  rw [gt_iff_lt, BitVec.lt_def, hrtimerHalf_toNat, toNat_ofNat_sub_of_lt h (by omega)]
  omega

/-- A deadline that is not past is not. -/
theorem convert_ahead {d now : ℕ} (h : now ≤ d) (hnear : d < now + halfRange w) :
    convert b (BitVec.ofNat w d - BitVec.ofNat w now) ≠ 0 := by
  have htwo := two_mul_halfRange (w := w)
  have hsub := toNat_ofNat_sub_of_le (w := w) h (by omega)
  unfold convert
  rw [if_neg]
  · show (if _ then _ else _) ≠ _
    split_ifs with hz
    · intro hone
      have hnat : (1#w).toNat = 0 := congrArg BitVec.toNat hone
      rw [BitVec.toNat_one b.wide] at hnat
      exact Nat.one_ne_zero hnat
    · exact hz
  · rw [gt_iff_lt, BitVec.lt_def, hrtimerHalf_toNat, hsub]
    omega

/-! ## The place of a timer -/

theorem hrInsert_eq {l : List H} : s.hrInsert t (u :: l) =
    if (s.timer u).timeoutCnt - (s.timer t).timeoutCnt = 0 then u :: s.hrInsert t l
    else if (s.timer u).timeoutCnt - (s.timer t).timeoutCnt < hrtimerHalf w then t :: u :: l
    else u :: s.hrInsert t l := rfl

/-- A timer goes behind the ones that are not later. -/
theorem hrInsert_cons (hcnt : ∀ t, (s.timer t).timeoutCnt = BitVec.ofNat w (s.deadline t))
    {l : List H} (hup : s.deadline u < s.deadline t + halfRange w)
    (hlow : s.deadline t < s.deadline u + halfRange w) : s.hrInsert t (u :: l) =
      if s.deadline u ≤ s.deadline t then u :: s.hrInsert t l else t :: u :: l := by
  have htwo := two_mul_halfRange (w := w)
  rw [hrInsert_eq, hcnt, hcnt]
  by_cases hle : s.deadline u ≤ s.deadline t
  · rw [if_pos hle]
    rcases Nat.eq_or_lt_of_le hle with heq | hlt
    · rw [heq, sub_self]
      exact if_pos rfl
    · have hsub := toNat_ofNat_sub_of_lt (w := w) hlt (by omega)
      have hno : ¬BitVec.ofNat w (s.deadline u) - BitVec.ofNat w (s.deadline t) < hrtimerHalf w := by
        rw [BitVec.lt_def, hrtimerHalf_toNat, hsub]
        omega
      rw [if_neg hno, ite_self]
  · rw [if_neg hle]
    have hsub := toNat_ofNat_sub_of_le (w := w) (Nat.le_of_not_le hle) (by omega)
    have hne : BitVec.ofNat w (s.deadline u) - BitVec.ofNat w (s.deadline t) ≠ 0 := by
      intro hz
      have hnat : (BitVec.ofNat w (s.deadline u) - BitVec.ofNat w (s.deadline t)).toNat = 0 :=
        (congrArg BitVec.toNat hz).trans BitVec.toNat_zero
      omega
    have hlt : BitVec.ofNat w (s.deadline u) - BitVec.ofNat w (s.deadline t) < hrtimerHalf w := by
      rw [BitVec.lt_def, hrtimerHalf_toNat, hsub]
      omega
    rw [if_neg hne, if_pos hlt]

theorem hrInsert_perm {l : List H} : (s.hrInsert t l).Perm (t :: l) := by
  induction l with
  | nil => exact List.Perm.refl _
  | cons u l ih =>
    rw [hrInsert_eq]
    have hskip : (u :: s.hrInsert t l).Perm (t :: u :: l) := (ih.cons u).trans (List.Perm.swap t u l)
    split_ifs
    · exact hskip
    · exact List.Perm.refl _
    · exact hskip

/-- **The list stays sorted.** -/
theorem hrInsert_sorted (hcnt : ∀ t, (s.timer t).timeoutCnt = BitVec.ofNat w (s.deadline t)) {l : List H}
    (hsorted : l.Pairwise fun u v => s.deadline u ≤ s.deadline v ∧ s.deadline v < s.deadline u + halfRange w)
    (hfits : ∀ u ∈ l, s.deadline u < s.deadline t + halfRange w ∧ s.deadline t < s.deadline u + halfRange w) :
    (s.hrInsert t l).Pairwise fun u v =>
      s.deadline u ≤ s.deadline v ∧ s.deadline v < s.deadline u + halfRange w := by
  induction l with
  | nil => exact List.pairwise_singleton _ _
  | cons u l ih =>
    obtain ⟨hu, hl⟩ := List.pairwise_cons.mp hsorted
    obtain ⟨hut, hfl⟩ := List.forall_mem_cons.mp hfits
    rw [hrInsert_cons hcnt hut.1 hut.2]
    split_ifs with hle
    · refine List.pairwise_cons.mpr ⟨fun v hv => ?_, ih hl hfl⟩
      rcases List.mem_cons.mp (hrInsert_perm.subset hv) with rfl | hv
      · exact ⟨hle, hut.2⟩
      · exact hu v hv
    · refine List.pairwise_cons.mpr ⟨fun v hv => ?_, hsorted⟩
      refine ⟨?_, (hfits v hv).1⟩
      rcases List.mem_cons.mp hv with rfl | hv
      · exact Nat.le_of_not_le hle
      · exact (Nat.le_of_not_le hle).trans (hu v hv).1

/-! ## Arming -/

theorem setNextTimeout_nil {n : ℕ} (hl : s.list = []) :
    setNextTimeout b n s = { s with nowtimer := none, alarm := none } := by
  cases n with
  | zero => exact if_pos hl
  | succ n =>
    unfold setNextTimeout
    rw [hl]

theorem setNextTimeout_none {n : ℕ} {l : List H} (hl : s.list = t :: l) (hnow : s.nowtimer = none) :
    setNextTimeout b (n + 1) s =
      if s.cntConvert b (s.timer t).timeoutCnt = 0 then
        setNextTimeout b n ({ s with nowtimer := some t, alarm := none }.expire t)
      else
        { s with
          nowtimer := some t
          alarm := some (t, s.time + b.span (s.cntConvert b (s.timer t).timeoutCnt))
          armedFor := s.deadline t } := by
  rw [setNextTimeout, hl, hnow]
  rfl

namespace HrOrder

variable (h : HrOrder s)
include h

/-- **A timer that is called.** -/
theorem expire (ht : t ∈ s.list) (hd : s.deadline t ≤ s.time) : HrOrder (s.expire t) := by
  have hact := h.activated t ht
  have hsub : (s.list.erase t).Sublist s.list := List.erase_sublist
  refine ⟨h.nodup.erase t, h.sorted.sublist hsub, fun u hu => h.activated u (hsub.subset hu), h.running,
    h.timeoutCnt, h.ahead, fun c hc => ?_⟩
  have hcalled : (s.expire t).called = s.called ++ [⟨t, s.time, s.deadline t, s.running t⟩] := if_pos hact
  rw [hcalled, List.mem_append, List.mem_singleton] at hc
  rcases hc with hc | rfl
  · exact h.calls c hc
  · exact ⟨(h.running t).trans hact, hd⟩

/-- Arming for another time-out concerns nothing else. -/
theorem congr {s' : HrState H w} (htime : s.time ≤ s'.time) (htimer : s'.timer = s.timer)
    (hlist : s'.list = s.list) (hcalled : s'.called = s.called) (hdeadline : s'.deadline = s.deadline)
    (hrunning : s'.running = s.running) : HrOrder s' := by
  obtain ⟨time', timer', list', nowtimer', alarm', called', deadline', running', armedFor'⟩ := s'
  dsimp only at *
  subst htimer hlist hcalled hdeadline hrunning
  exact ⟨h.nodup, h.sorted, h.activated, h.running, h.timeoutCnt,
    fun t => (h.ahead t).trans_le (Nat.add_le_add_right htime _), h.calls⟩

/-- **Arming** when nothing is armed: the timers whose deadline is past are called, and the hardware is
armed for the first one that is left. -/
theorem setNextTimeout {n : ℕ} (hn : s.list.length ≤ n) (hnow : s.nowtimer = none)
    (harm : armable b s (s.list.map s.deadline)) : HrArmed (setNextTimeout b n s) := by
  induction n generalizing s with
  | zero =>
    have hnil : s.list = [] := List.length_eq_zero_iff.mp (Nat.le_zero.mp hn)
    rw [setNextTimeout_nil hnil]
    exact ⟨h.congr le_rfl rfl rfl rfl rfl rfl, by rw [hnil]; rfl, fun _ => rfl, fun t ht => nomatch ht⟩
  | succ n ih =>
    cases hl : s.list with
    | nil =>
      rw [setNextTimeout_nil hl]
      exact ⟨h.congr le_rfl rfl rfl rfl rfl rfl, by rw [hl]; rfl, fun _ => rfl, fun t ht => nomatch ht⟩
    | cons t l =>
      have hmem : t ∈ s.list := by
        rw [hl]
        exact List.mem_cons_self
      obtain ⟨hpast, hfirst⟩ := harm
      rw [setNextTimeout_none hl hnow]
      have hcnt : s.cntConvert b (s.timer t).timeoutCnt =
          convert b (BitVec.ofNat w (s.deadline t) - BitVec.ofNat w s.time) := by
        rw [h.timeoutCnt t]
        rfl
      by_cases hd : s.deadline t < s.time
      · -- the head is past: it is called at once
        rw [hcnt, convert_past hd (hpast _ (List.mem_map_of_mem hmem)), if_pos rfl]
        have hclear : HrOrder { s with nowtimer := some t, alarm := none } :=
          h.congr le_rfl rfl rfl rfl rfl rfl
        refine ih (hclear.expire hmem hd.le) ?_ rfl ?_
        · show (s.list.erase t).length ≤ n
          rw [hl, List.erase_cons_head]
          rw [hl, List.length_cons] at hn
          omega
        · show armable b s ((s.list.erase t).map s.deadline)
          rw [hl, List.erase_cons_head]
          rw [hl, List.map_cons] at hpast hfirst
          refine ⟨fun d hd' => hpast d (List.mem_cons_of_mem _ hd'), fun d hd' hle hmin => ?_⟩
          refine hfirst d (List.mem_cons_of_mem _ hd') hle fun e he hle' => ?_
          rcases List.mem_cons.mp he with rfl | he
          · omega
          · exact hmin e he hle'
      · have hle : s.time ≤ s.deadline t := Nat.le_of_not_lt hd
        rw [hcnt, if_neg (convert_ahead hle (h.ahead t))]
        have hspan := hfirst (s.deadline t) (List.mem_map_of_mem hmem) hle fun e he _ => by
          obtain ⟨u, hu, rfl⟩ := List.mem_map.mp he
          rw [hl] at hu
          have hsorted := h.sorted
          rw [hl] at hsorted
          rcases List.mem_cons.mp hu with rfl | hu
          · exact le_rfl
          · exact ((List.pairwise_cons.mp hsorted).1 u hu).1
        have hsub : BitVec.ofNat w (s.deadline t - s.time) =
            BitVec.ofNat w (s.deadline t) - BitVec.ofNat w s.time := by
          have hsum : BitVec.ofNat w (s.deadline t) =
              BitVec.ofNat w (s.deadline t - s.time) + BitVec.ofNat w s.time := by
            rw [← BitVec.ofNat_add, Nat.sub_add_cancel hle]
          rw [hsum, add_sub_cancel_right]
        rw [hsub] at hspan
        refine ⟨h.congr le_rfl rfl rfl rfl rfl rfl, by rw [hl]; rfl, fun hnil => ?_, fun u hu => ?_⟩
        · rw [hl] at hnil
          cases hnil
        obtain rfl : t = u := Option.some.inj hu
        exact ⟨_, rfl, rfl, Nat.sub_le_iff_le_add'.mp hspan⟩

end HrOrder

/-! ## The operations -/

/-- **The critical section of a start**, when the list without the timer is in order. -/
theorem HrOrder.link (h : HrOrder { s with list := s.list.erase t }) (hnot : t ∉ s.list.erase t)
    (hfits : s.fits t) : HrOrder (s.link t) := by
  have hact : ∀ u, ((s.link t).timer u).activated = if u = t then true else (s.timer u).activated := by
    intro u
    show (Function.update s.timer t _ u).activated = _
    rw [Function.update_apply]
    split_ifs <;> rfl
  have hperm : (s.link t).list.Perm (t :: s.list.erase t) := hrInsert_perm
  have hcnt : ∀ u, (s.timer u).timeoutCnt = BitVec.ofNat w (s.deadline u) := h.timeoutCnt
  have hsorted : (s.list.erase t).Pairwise fun u v =>
      s.deadline u ≤ s.deadline v ∧ s.deadline v < s.deadline u + halfRange w := h.sorted
  refine ⟨hperm.nodup_iff.mpr (List.nodup_cons.mpr ⟨hnot, h.nodup⟩),
    hrInsert_sorted hcnt hsorted hfits, fun u hu => ?_, fun u => ?_, fun u => ?_, h.ahead, h.calls⟩
  · rw [hact]
    rcases List.mem_cons.mp (hperm.subset hu) with rfl | hu
    · exact if_pos rfl
    · have hon : (s.timer u).activated = true := h.activated u hu
      rw [hon, ite_self]
  · rw [hact]
    show Function.update s.running t true u = _
    rw [Function.update_apply]
    split_ifs
    · rfl
    · exact h.running u
  · show (Function.update s.timer t _ u).timeoutCnt = _
    rw [Function.update_apply]
    split_ifs with hut
    · rw [hut]
      exact h.timeoutCnt t
    · exact h.timeoutCnt u

/-- Nothing is armed anew for a head that is not to be armed. -/
theorem setNext_keep {l : List H} {now : H} (hl : s.list = t :: l) (hnow : s.nowtimer = some now)
    (hkeep : ¬(t ≠ now ∧ (s.timer t).timeoutCnt < (s.timer now).timeoutCnt)) : s.setNext b = s := by
  unfold setNext
  rw [hl, List.length_cons, setNextTimeout, hl, hnow]
  simp only [Option.all_some, decide_eq_true_eq, if_neg hkeep]

/-- A head that is to be armed is armed as if nothing were. -/
theorem setNext_arm {l : List H} {now : H} (hl : s.list = t :: l) (hnow : s.nowtimer = some now)
    (harm : t ≠ now ∧ (s.timer t).timeoutCnt < (s.timer now).timeoutCnt) :
    s.setNext b = ({ s with nowtimer := none } : HrState H w).setNext b := by
  have hlen : s.list.length = l.length + 1 := by rw [hl, List.length_cons]
  obtain ⟨s', hs'⟩ : ∃ s', s' = ({ s with nowtimer := none } : HrState H w) := ⟨_, rfl⟩
  have hl' : s'.list = t :: l := by rw [hs', ← hl]
  have hnow' : s'.nowtimer = none := by rw [hs']
  rw [← hs']
  unfold setNext
  rw [hl', hlen, List.length_cons, setNextTimeout_none hl' hnow', setNextTimeout, hl, hnow]
  simp only [Option.all_some, decide_eq_true_eq, if_pos harm, hs', ← hl]
  rfl

/-- The list without the timer is in order, and the hardware is armed for the head, but that the timer itself
may have got a new deadline. -/
structure Startable (s : HrState H w) (t : H) : Prop where
  order : HrOrder { s with list := s.list.erase t }
  nodup : s.list.Nodup
  head : s.nowtimer = s.list.head?
  alarm : ∀ u, s.nowtimer = some u →
    ∃ at', s.alarm = some (u, at') ∧ s.armedFor ≤ at' ∧ (u ≠ t → s.armedFor = s.deadline u)

/-- **A start.** -/
theorem Startable.start (h : Startable s t) (hok : startOk b s t) : HrArmed (s.hrtimerStart b t) := by
  obtain ⟨hfits, hrearm⟩ := hok
  have hnot : t ∉ s.list.erase t := h.nodup.not_mem_erase
  have hlink : HrOrder (s.link t) := h.order.link hnot hfits
  have hcnt : ∀ u, (s.timer u).timeoutCnt = BitVec.ofNat w (s.deadline u) := h.order.timeoutCnt
  have hcnt' : ∀ u, ((s.link t).timer u).timeoutCnt = (s.timer u).timeoutCnt := fun u => by
    rw [hlink.timeoutCnt, hcnt]
    rfl
  have hlist : (s.link t).list = s.hrInsert t (s.list.erase t) := rfl
  -- what is armed stays armed when the head is the same
  have hkeep : ∀ {u l}, (s.link t).list = u :: l → s.nowtimer = some u →
      (u = t → s.deadline t = s.armedFor) → HrArmed (s.hrtimerStart b t) := by
    intro u l hl hnow hsame
    have hset : s.hrtimerStart b t = s.link t := setNext_keep hl hnow fun hc => hc.1 rfl
    rw [hset]
    refine ⟨hlink, by rw [hl]; exact hnow, fun hnil => ?_, fun v hv => ?_⟩
    · rw [hl] at hnil
      cases hnil
    · obtain ⟨at', halarm, hle, hother⟩ := h.alarm u hnow
      obtain rfl : u = v := Option.some.inj (hnow.symm.trans hv)
      have hfor : s.armedFor = s.deadline u := by
        by_cases hut : u = t
        · rw [hut, hsame hut]
        · exact hother hut
      exact ⟨at', halarm, hfor, hfor ▸ hle⟩
  -- what is armed anew is right
  have hnew : ∀ {u l}, (s.link t).list = u :: l →
      (∀ now, s.nowtimer = some now → u ≠ now ∧ (s.timer u).timeoutCnt < (s.timer now).timeoutCnt) →
      armableWith b s t → HrArmed (s.hrtimerStart b t) := by
    intro u l hl harm harmable
    have hset : s.hrtimerStart b t = ({ s.link t with nowtimer := none } : HrState H w).setNext b := by
      cases hnow : s.nowtimer with
      | none =>
        have hnow' : (s.link t).nowtimer = none := hnow
        show (s.link t).setNext b = _
        rw [← hnow']
      | some now =>
        refine setNext_arm hl hnow ⟨(harm now hnow).1, ?_⟩
        rw [hcnt', hcnt']
        exact (harm now hnow).2
    rw [hset]
    have hclear : HrOrder ({ s.link t with nowtimer := none } : HrState H w) :=
      hlink.congr le_rfl rfl rfl rfl rfl rfl
    refine hclear.setNextTimeout le_rfl rfl ?_
    have hmem : ∀ d, d ∈ (s.hrInsert t (s.list.erase t)).map s.deadline ↔
        d ∈ (t :: s.list.erase t).map s.deadline := fun d => (hrInsert_perm.map _).mem_iff
    obtain ⟨hpast, hfirst⟩ := harmable
    refine ⟨fun d hd => hpast d ((hmem d).mp hd), fun d hd hle hmin => ?_⟩
    exact hfirst d ((hmem d).mp hd) hle fun e he => hmin e ((hmem e).mpr he)
  cases hnow : s.nowtimer with
  | none =>
    rw [hnow] at hrearm
    have hnil : s.list = [] := List.head?_eq_none_iff.mp (h.head.symm.trans hnow)
    refine hnew (u := t) (l := []) ?_ (fun now hn => ?_) hrearm
    · rw [hlist, hnil]
      rfl
    · rw [hnow] at hn
      cases hn
  | some now =>
    rw [hnow] at hrearm
    dsimp only at hrearm
    obtain ⟨l, hl⟩ := List.head?_eq_some_iff.mp (h.head.symm.trans hnow)
    by_cases hnt : now = t
    · subst hnt
      rw [if_pos rfl] at hrearm
      have herase : s.list.erase now = l := by rw [hl, List.erase_cons_head]
      rw [herase] at hrearm hlist
      cases l with
      | nil => exact hkeep (u := now) (l := []) hlist hnow fun _ => hrearm
      | cons u l =>
        dsimp only at hrearm
        have hu := hfits u (by rw [herase]; exact List.mem_cons_self)
        rw [hrInsert_cons hcnt hu.1 hu.2] at hlist
        by_cases hle : s.deadline u ≤ s.deadline now
        · rw [if_pos hle] at hrearm hlist
          refine hnew hlist (fun v hv => ?_) hrearm.2
          obtain rfl : now = v := Option.some.inj (hnow.symm.trans hv)
          refine ⟨?_, hrearm.1⟩
          rintro rfl
          exact BitVec.lt_irrefl _ hrearm.1
        · rw [if_neg hle] at hrearm hlist
          exact hkeep hlist hnow fun _ => hrearm
    · rw [if_neg hnt] at hrearm
      have herase : s.list.erase t = now :: l.erase t := by
        rw [hl, List.erase_cons_tail (by simpa using hnt)]
      have hu := hfits now (by rw [herase]; exact List.mem_cons_self)
      rw [herase, hrInsert_cons hcnt hu.1 hu.2] at hlist
      by_cases hle : s.deadline now ≤ s.deadline t
      · rw [if_pos hle] at hlist
        exact hkeep hlist hnow fun hc => absurd hc hnt
      · rw [if_neg hle] at hlist
        rw [if_pos (Nat.lt_of_not_le hle)] at hrearm
        refine hnew hlist (fun v hv => ?_) hrearm.2
        obtain rfl : now = v := Option.some.inj (hnow.symm.trans hv)
        exact ⟨fun hc => hnt hc.symm, hrearm.1⟩

namespace HrArmed

variable (h : HrArmed s)
include h

theorem startable : Startable s t where
  order := by
    have hsub : (s.list.erase t).Sublist s.list := List.erase_sublist
    exact ⟨h.nodup.erase t, h.sorted.sublist hsub, fun u hu => h.activated u (hsub.subset hu), h.running,
      h.timeoutCnt, h.ahead, h.calls⟩
  nodup := h.nodup
  head := h.head
  alarm u hu := by
    obtain ⟨at', halarm, hfor, hle⟩ := h.alarm u hu
    exact ⟨at', halarm, hfor ▸ hle, fun _ => hfor⟩

/-- After `RT_TIMER_CTRL_SET_TIME` the timer may be started again. -/
theorem setTime {s' : HrState H w} {cnt : BitVec w} (hset : s.setTime t cnt = some s') : Startable s' t := by
  unfold HrState.setTime at hset
  by_cases hcnt : cnt < hrtimerHalf w
  · rw [if_pos hcnt] at hset
    have hsub : (s.list.erase t).Sublist s.list := List.erase_sublist
    have hne : ∀ u ∈ s.list.erase t, u ≠ t := fun u hu => (h.nodup.mem_erase_iff.mp hu).1
    obtain rfl := Option.some.inj hset
    have hdead : ∀ u, Function.update s.deadline t (s.time + cnt.toNat) u =
        if u = t then s.time + cnt.toNat else s.deadline u := fun u => Function.update_apply ..
    have htimer : ∀ u, u ≠ t → Function.update s.timer t
        { s.timer t with initCnt := cnt, timeoutCnt := cnt + s.getcnt } u = s.timer u := fun u hu =>
      Function.update_of_ne hu ..
    refine ⟨⟨h.nodup.erase t, ?_, fun u hu => ?_, fun u => ?_, fun u => ?_, fun u => ?_, h.calls⟩,
      h.nodup, h.head, fun u hu => ?_⟩
    · refine (h.sorted.sublist hsub).imp_of_mem fun {u v} hu hv huv => ?_
      show Function.update s.deadline t _ u ≤ Function.update s.deadline t _ v ∧
        Function.update s.deadline t _ v < Function.update s.deadline t _ u + halfRange w
      rw [hdead, hdead, if_neg (hne u hu), if_neg (hne v hv)]
      exact huv
    · show (Function.update s.timer t _ u).activated = true
      rw [htimer u (hne u hu)]
      exact h.activated u (hsub.subset hu)
    · show s.running u = (Function.update s.timer t _ u).activated
      rw [h.running, Function.update_apply]
      split_ifs with hut
      · rw [hut]
      · rfl
    · show (Function.update s.timer t _ u).timeoutCnt = BitVec.ofNat w (Function.update s.deadline t _ u)
      rw [hdead, Function.update_apply]
      split_ifs
      · rw [Nat.add_comm, BitVec.ofNat_add, BitVec.ofNat_toNat, BitVec.setWidth_eq]
        rfl
      · exact h.timeoutCnt u
    · show Function.update s.deadline t _ u < _
      rw [hdead]
      split_ifs
      · rw [BitVec.lt_def, hrtimerHalf_toNat] at hcnt
        exact Nat.add_lt_add_left hcnt _
      · exact h.ahead u
    · obtain ⟨at', halarm, hfor, hle⟩ := h.alarm u hu
      refine ⟨at', halarm, hfor ▸ hle, fun hut => ?_⟩
      show s.armedFor = Function.update s.deadline t _ u
      rw [hdead, if_neg hut]
      exact hfor
  · rw [if_neg hcnt] at hset
    cases hset

/-- **A stop.** -/
theorem stop (hok : (s.timer t).activated = true → armable b s ((s.list.erase t).map s.deadline)) :
    HrArmed (s.hrtimerStop b t) := by
  unfold hrtimerStop
  by_cases hact : (s.timer t).activated = true
  · rw [if_pos hact]
    have hsub : (s.list.erase t).Sublist s.list := List.erase_sublist
    have hunlink : HrOrder (s.unlink t) := by
      refine ⟨h.nodup.erase t, h.sorted.sublist hsub, fun u hu => ?_, fun u => ?_, fun u => ?_, h.ahead,
        h.calls⟩
      · show (Function.update s.timer t _ u).activated = true
        rw [Function.update_of_ne (h.nodup.mem_erase_iff.mp hu).1]
        exact h.activated u (hsub.subset hu)
      · show Function.update s.running t false u = (Function.update s.timer t _ u).activated
        rw [Function.update_apply, Function.update_apply]
        split_ifs
        · rfl
        · exact h.running u
      · show (Function.update s.timer t _ u).timeoutCnt = _
        rw [Function.update_apply]
        split_ifs with hut
        · rw [hut]
          exact h.timeoutCnt t
        · exact h.timeoutCnt u
    exact hunlink.setNextTimeout le_rfl rfl (hok hact)
  · rw [if_neg hact]
    refine ⟨⟨h.nodup, h.sorted, h.activated, fun u => ?_, h.timeoutCnt, h.ahead, h.calls⟩, h.head,
      h.noAlarm, h.alarm⟩
    show Function.update s.running t false u = _
    rw [Function.update_apply]
    split_ifs with hut
    · rw [hut]
      exact (Bool.not_eq_true _ ▸ hact).symm
    · exact h.running u

/-- **The hardware time-out.** -/
theorem timeOut {at' : ℕ} (halarm : s.alarm = some (t, at')) (htime : at' ≤ s.time)
    (hok : armable b s (s.list.tail.map s.deadline)) :
    HrArmed (({ s with alarm := none } : HrState H w).timeoutCallback b t) := by
  obtain ⟨l', hl⟩ : ∃ l', s.list = l' := ⟨_, rfl⟩
  cases l' with
  | nil =>
    rw [h.noAlarm hl] at halarm
    cases halarm
  | cons u l =>
    have hnow : s.nowtimer = some u := by rw [h.head, hl]; rfl
    obtain ⟨at'', halarm', hfor, hle⟩ := h.alarm u hnow
    obtain ⟨rfl, rfl⟩ : t = u ∧ at' = at'' := by
      rw [halarm] at halarm'
      exact Prod.mk.inj (Option.some.inj halarm')
    have hmem : t ∈ s.list := by
      rw [hl]
      exact List.mem_cons_self
    have hclear : HrOrder ({ s with alarm := none } : HrState H w) := h.congr le_rfl rfl rfl rfl rfl rfl
    refine (hclear.expire hmem (hle.trans htime)).setNextTimeout le_rfl rfl ?_
    show armable b s ((s.list.erase t).map s.deadline)
    rw [hl, List.erase_cons_head]
    rw [hl] at hok
    exact hok

theorem elapse (k : ℕ) : HrArmed ({ s with time := s.time + k } : HrState H w) :=
  ⟨h.congr (Nat.le_add_right _ _) rfl rfl rfl rfl rfl, h.head, h.noAlarm, h.alarm⟩

end HrArmed

theorem HrInit.armed (h : HrInit s) : HrArmed s := by
  refine ⟨⟨?_, ?_, fun t ht => ?_, fun t => (h.running t).trans (h.activated t).symm, h.timeoutCnt,
    h.deadline, fun c hc => ?_⟩, by rw [h.nowtimer, h.list]; rfl, fun _ => h.alarm, fun t ht => ?_⟩
  · rw [h.list]
    exact List.nodup_nil
  · rw [h.list]
    exact List.Pairwise.nil
  · rw [h.list] at ht
    cases ht
  · rw [h.called] at hc
    cases hc
  · rw [h.nowtimer] at ht
    cases ht

/-- **One operation.** -/
theorem HrArmed.step {s' : HrState H w} {a : HrLabel H w} (h : HrArmed s) (hok : hrOk b s a = true)
    (hst : hrStep b s a = some s') : HrArmed s' := by
  cases a with
  | start t =>
    obtain rfl := Option.some.inj hst
    exact h.startable.start (of_decide_eq_true hok)
  | restart t cnt =>
    obtain ⟨s₁, hset, rfl⟩ := Option.map_eq_some_iff.mp hst
    have hok' : (s.setTime t cnt).all (fun s => decide (startOk b s t)) = true := hok
    rw [hset] at hok'
    exact (h.setTime hset).start (of_decide_eq_true hok')
  | stop t =>
    obtain rfl := Option.some.inj hst
    exact h.stop (of_decide_eq_true hok)
  | timeOut =>
    unfold hrStep at hst
    cases halarm : s.alarm with
    | none =>
      rw [halarm] at hst
      cases hst
    | some p =>
      obtain ⟨t, at'⟩ := p
      rw [halarm] at hst
      dsimp only at hst
      by_cases htime : at' ≤ s.time
      · rw [if_pos htime] at hst
        obtain rfl := Option.some.inj hst
        exact h.timeOut halarm htime (of_decide_eq_true hok)
      · rw [if_neg htime] at hst
        cases hst
  | elapse k =>
    obtain rfl := Option.some.inj hst
    exact h.elapse k

/-- What is promised of the timers: the list is sorted by deadline modulo the range, `_nowtimer` is its head,
the hardware is armed for the deadline of that one and not before, and every call so far was one of a timer
that had been started and not stopped since, with its deadline reached. -/
structure HrGood (s : HrState H w) : Prop where
  sorted : s.list.Pairwise fun u v => (s.timer v).timeoutCnt - (s.timer u).timeoutCnt < hrtimerHalf w
  head : s.nowtimer = s.list.head?
  noAlarm : s.nowtimer = none → s.alarm = none
  alarm : ∀ t, s.nowtimer = some t →
    ∃ at', s.alarm = some (t, at') ∧ s.armedFor = s.deadline t ∧ s.deadline t ≤ at'
  calls : ∀ c ∈ s.called, c.running = true ∧ c.deadline ≤ c.time

theorem HrArmed.good (h : HrArmed s) : HrGood s := by
  refine ⟨h.sorted.imp fun {u v} huv => ?_, h.head, fun hnow => ?_, h.alarm, h.calls⟩
  · have htwo := two_mul_halfRange (w := w)
    rw [h.timeoutCnt, h.timeoutCnt, BitVec.lt_def, hrtimerHalf_toNat,
      toNat_ofNat_sub_of_le huv.1 (by omega)]
    omega
  · exact h.noAlarm (List.head?_eq_none_iff.mp (h.head.symm.trans hnow))

/-- **The right timer is armed** in every run whose operations meet the condition. -/
theorem hrtimer_armed (b : Board w) {s : HrState H w} (hs : (hrSystem H b).Reach (hrOk b) s) : HrGood s :=
  (hs.invariant (fun _ h => HrInit.armed h) fun _ _ _ h hok hst => h.step hok hst).good

/-! ## Two runs -/

/-- A board with one counter. -/
def oneCounter : Board 32 := ⟨by decide, 1, 1, BitVec.toNat⟩

/-- Timers that have just been initialised with a count of zero, shortly before the counter wraps. -/
def idleTimers : HrState ℕ 32 where
  time := 0xfffffff0
  timer _ := ⟨0, 0xfffffff0, false, false⟩
  list := []
  nowtimer := none
  alarm := none
  called := []
  deadline _ := 0xfffffff0
  running _ := false
  armedFor := 0

theorem idleTimers_init : HrInit idleTimers :=
  ⟨rfl, rfl, rfl, rfl, fun _ => rfl, fun _ => rfl, fun _ => rfl,
    fun _ => (by decide : 0xfffffff0 < 0xfffffff0 + halfRange 32)⟩

/-- Timer 1 with a deadline behind the wrap, timer 2 before it, both called. -/
theorem hrtimer_armed_wrap : ∃ s : HrState ℕ 32, HrGood s ∧ s.called.map (·.timer) = [2, 1] ∧ s.time = 0x100000010 := by
  obtain ⟨s, hs, hp⟩ := (hrSystem ℕ oneCounter).exists_reach (hrOk oneCounter)
    (fun s => decide (s.called.map (·.timer) = [2, 1] ∧ s.time = 0x100000010)) idleTimers_init
    [.restart 1 0x20, .stop 1, .restart 2 0x8, .restart 1 0x20, .elapse 0x8, .timeOut, .elapse 0x18, .timeOut]
    (by decide)
  exact ⟨s, hrtimer_armed oneCounter hs, of_decide_eq_true hp⟩

/-- A timer that is started again while it is armed, with a later deadline, is called at the old one. -/
theorem hrtimer_early : ∃ s, (hrSystem ℕ oneCounter).Reach System.anyStep s ∧
    ∃ c ∈ s.called, c.time < c.deadline := by
  obtain ⟨s, hs, hp⟩ := (hrSystem ℕ oneCounter).exists_reach System.anyStep
    (fun s => decide (∃ c ∈ s.called, c.time < c.deadline)) idleTimers_init
    [.restart 1 5, .restart 1 9, .elapse 5, .timeOut] (by decide)
  exact ⟨s, hs, of_decide_eq_true hp⟩

end RtThread
