import RtThread.Drivers.Workqueue

/-!
# Synchronous cancel

`rt_workqueue_cancel_work_sync` tests whether the work is executing, and then either waits for a
release of the semaphore or cancels the work, in steps of their own.

* `WorkState.Cancelled`, `SyncState`: what is promised of a cancel that returns, and of one that
  waits;
* `syncOk`: the condition on the steps;
* `Calm`: a work that nothing will link or execute; `Calm.next`; `SyncInv`, `SyncInv.next`;
* **`cancel_work_sync`**: the promise is kept in the runs that meet the condition, and a step that
  does not meet it leads to a state that breaks it.
-/

set_option linter.unusedSectionVars false

namespace RtThread

section
variable {Q W T : Type} [DecidableEq Q] [DecidableEq W] [DecidableEq T] {s s' : WorkState Q W T}
  {q : Q} {w : W} {t : T} {a : WorkLabel Q W T} {e : Option Q}

/-- A work hangs on no list. -/
def WorkState.Unlinked (s : WorkState Q W T) (w : W) : Prop :=
  ∀ q, w ∉ s.list (.work q) ∧ w ∉ s.list (.delayed q)

instance [Fintype Q] (s : WorkState Q W T) (w : W) : Decidable (s.Unlinked w) :=
  inferInstanceAs (Decidable (∀ q, w ∉ s.list (.work q) ∧ w ∉ s.list (.delayed q)))

/-- A work is neither executing nor queued nor delayed. -/
structure WorkState.Cancelled (s : WorkState Q W T) (w : W) : Prop where
  current : ∀ q, s.workCurrent q ≠ some w
  unlinked : s.Unlinked w
  submitting : (s.work w).submitting = false
  timer : (s.work w).timer.activated = false

/-- **Synchronous cancels**: when a call returns, and the work has not been submitted again since it
began, the work is cancelled; a call waits only while its work is executing or its completion is to
be acknowledged. -/
structure SyncState (s : WorkState Q W T) : Prop where
  returns : ∀ t q w, s.call t = .syncReturn q w → s.resubmitted t = false → s.Cancelled w
  waits : ∀ t q w, s.call t = .syncWait q w → s.workCurrent q = some w ∨ s.worker q = .complete w

/-- **The condition**: a call that finds its work executing finds it neither queued nor delayed nor
executing for another queue, it waits before the completion is acknowledged, and a call that found
it not executing cancels it while it is not executing, if it has not been submitted again. -/
def syncOk [Fintype Q] (s : WorkState Q W T) : WorkLabel Q W T → Bool
  | .syncTest _ q w => decide (s.workCurrent q = some w → s.Unlinked w ∧
      (s.work w).submitting = false ∧ ∀ q', q' ≠ q → s.workCurrent q' ≠ some w)
  | .syncTake t =>
    match s.call t with
    | .syncTake q w => decide (s.workCurrent q = some w ∨ s.worker q = .complete w)
    | _ => true
  | .syncCancel t =>
    match s.call t with
    | .syncCancel _ w => s.resubmitted t || decide (∀ q', s.workCurrent q' ≠ some w)
    | _ => true
  | _ => true

/-! ## Calm works -/

/-- A work hangs on no list, is not being submitted and is executed for no queue but `e`. -/
structure Calm (s : WorkState Q W T) (w : W) (e : Option Q) : Prop where
  unlinked : s.Unlinked w
  submitting : (s.work w).submitting = false
  current : ∀ q, e ≠ some q → s.workCurrent q ≠ some w

/-- The work that a step submits. -/
def WorkLabel.submits : WorkLabel Q W T → Option W
  | .submit _ _ w _ => some w
  | .urgent _ _ w => some w
  | _ => none

namespace Calm

/-- Only the lists, the work and the current works matter. -/
theorem congr (h : Calm s w e) (hl : ∀ x, w ∈ s'.list x → w ∈ s.list x)
    (hw : (s'.work w).submitting = true → (s.work w).submitting = true)
    (hc : ∀ q, s'.workCurrent q = some w → s.workCurrent q = some w) : Calm s' w e where
  unlinked q := ⟨fun hm => (h.unlinked q).1 (hl _ hm), fun hm => (h.unlinked q).2 (hl _ hm)⟩
  submitting := Bool.eq_false_of_not_eq_true fun hsub => nomatch h.submitting.symm.trans (hw hsub)
  current q hq hcur := h.current q hq (hc q hcur)

/-- Another work is written and linked. -/
theorem store (h : Calm s w e) {w' : W} (hne : w ≠ w') {list : Queues (WorkHead Q) W} {x : RtWork Q}
    (hl : ∀ y, w ∈ list y → w ∈ s.list y) : Calm (s.store list w' x) w e := by
  refine h.congr hl (fun hsub => ?_) fun _ h => h
  change (Function.update s.work w' x w).submitting = true at hsub
  rwa [Function.update_of_ne hne] at hsub

/-- Another work is moved to a list. -/
theorem moved (hs : WorkInv s) {w' : W} (hne : w ≠ w') {x : WorkHead Q} :
    ∀ y, w ∈ ((s.list.remove w').insertBeforeHead x w') y → w ∈ s.list y := by
  intro y hm
  rcases ((hs.once.moveBack w' x).2 w y).mp hm with ⟨he, -⟩ | ⟨-, hm⟩
  · exact absurd he hne
  · exact hm

/-- A work is taken off its list. -/
theorem removed (hs : WorkInv s) {w' : W} : ∀ y, w ∈ (s.list.remove w') y → w ∈ s.list y :=
  fun _ hm => (hs.once.mem_remove.mp hm).2

/-- A work is written that is not being submitted. -/
theorem written (h : Calm s w e) (hs : WorkInv s) {w' : W} {x : RtWork Q}
    (hx : x.submitting = false) : Calm (s.store (s.list.remove w') w' x) w e := by
  refine h.congr (removed hs) (fun hsub => ?_) fun _ h => h
  change (Function.update s.work w' x w).submitting = true at hsub
  by_cases hne : w = w'
  · rw [hne, Function.update_self, hx] at hsub
    cases hsub
  · rwa [Function.update_of_ne hne] at hsub

/-- **A calm work stays calm** unless it is submitted. -/
theorem next (h : Calm s w e) (hs : WorkInv s) (hstep : WorkStep s a s')
    (ha : a.submits ≠ some w) : Calm s' w e := by
  have hsame : ∀ {w' : W}, (s.work w').submitting = true → w ≠ w' := by
    intro w' hsub he
    rw [← he, h.submitting] at hsub
    cases hsub
  cases hstep with
  | @submitNow t q w' hcall =>
    have hne : w ≠ w' := fun he => ha (congrArg some he.symm)
    exact (h.store hne (moved hs hne)).congr (fun _ h => h) (fun h => h) fun _ h => h
  | @submitLater t q w' ticks hcall h0 =>
    have hne : w ≠ w' := fun he => ha (congrArg some he.symm)
    exact (h.store hne (moved hs hne)).congr (fun _ h => h) (fun h => h) fun _ h => h
  | @start t w' hcall hsub =>
    exact (h.store (hsame hsub) (fun _ h => h)).congr (fun _ h => h) (fun h => h) fun _ h => h
  | @urgent t q w' hcall =>
    have hne : w ≠ w' := fun he => ha (congrArg some he.symm)
    refine h.congr (fun y hm => ?_) (fun h => h) fun _ h => h
    rcases ((hs.once.moveFront w' (.work q)).2 w y).mp hm with ⟨he, -⟩ | ⟨-, hm⟩
    · exact absurd he hne
    · exact hm
  | cancel hcall => exact h.written hs rfl
  | testCurrent hcall hcur => exact h.congr (fun _ h => h) (fun h => h) fun _ h => h
  | testOther hcall hcur => exact h.congr (fun _ h => h) (fun h => h) fun _ h => h
  | wait hcall => exact h.congr (fun _ h => h) (fun h => h) fun _ h => h
  | syncCancel hcall =>
    exact (h.written hs rfl).congr (fun _ h => h) (fun h => h) fun _ h => h
  | syncReturn hcall => exact h.congr (fun _ h => h) (fun h => h) fun _ h => h
  | @expire w' hhand hact =>
    exact (h.store (hsame (hs.activated w' hact)) (fun _ h => h)).congr (fun _ h => h) (fun h => h)
      fun _ h => h
  | handlerRead hhand hq => exact h.congr (fun _ h => h) (fun h => h) fun _ h => h
  | @handlerQueue w' q hhand hsub hcur =>
    have hne := hsame hsub
    exact (h.store hne (moved hs hne)).congr (fun _ h => h) (fun h => h) fun _ h => h
  | handlerDrop hhand hsub hcur =>
    exact (h.written hs rfl).congr (fun _ h => h) (fun h => h) fun _ h => h
  | suspend hworker hnil => exact h.congr (fun _ h => h) (fun h => h) fun _ h => h
  | @take q w' hworker hfirst =>
    have hne : w ≠ w' := fun he => (h.unlinked q).1 (he ▸ List.mem_of_mem_head? hfirst)
    refine (h.store hne (removed hs)).congr (fun _ h => h) (fun h => h) fun q' hcur => ?_
    change Function.update s.workCurrent q (some w') q' = some w at hcur
    by_cases hq : q' = q
    · rw [hq, Function.update_self] at hcur
      exact absurd (Option.some.inj hcur).symm hne
    · rwa [Function.update_of_ne hq] at hcur
  | @finish q w' hworker =>
    refine h.congr (fun _ h => h) (fun h => h) fun q' hcur => ?_
    change Function.update s.workCurrent q none q' = some w at hcur
    by_cases hq : q' = q
    · rw [hq, Function.update_self] at hcur
      cases hcur
    · rwa [Function.update_of_ne hq] at hcur
  | complete hworker => exact h.congr (fun _ h => h) (fun h => h) fun _ h => h

end Calm

/-! ## The calls -/

/-- The work of a call that found it executing or has cancelled it, and the queue executing it. -/
def WorkCall.holds : WorkCall Q W → Option (W × Option Q)
  | .syncTake q w => some (w, some q)
  | .syncWait q w => some (w, some q)
  | .syncReturn _ w => some (w, none)
  | _ => none

theorem WorkCall.holds_cancels {c : WorkCall Q W} (h : c.holds = some (w, e)) :
    c.cancels = some w := by
  cases c <;> cases h <;> rfl

/-- What the steps keep. -/
structure SyncInv (s : WorkState Q W T) : Prop where
  waits : ∀ t q w, s.call t = .syncWait q w → s.workCurrent q = some w ∨ s.worker q = .complete w
  calm : ∀ t w e, (s.call t).holds = some (w, e) → s.resubmitted t = false → Calm s w e

namespace SyncInv

theorem initial : SyncInv (WorkState.initial Q W T) :=
  ⟨fun _ _ _ h => (nomatch h), fun _ _ _ h => nomatch h⟩

theorem state (hi : SyncInv s) (hs : WorkInv s) : SyncState s := by
  refine ⟨fun t q w hcall hres => ?_, hi.waits⟩
  have hcalm := hi.calm t w none (by rw [hcall]; rfl) hres
  refine ⟨fun q => hcalm.current q nofun, hcalm.unlinked, hcalm.submitting, ?_⟩
  by_contra hact
  have hsub := hs.activated w (Bool.eq_true_of_not_eq_false hact)
  rw [hcalm.submitting] at hsub
  cases hsub

/-- A worker that looks at its list has no call waiting. -/
theorem not_waiting (hi : SyncInv s) (hs : WorkInv s) (hloop : s.worker q = .loop) :
    s.call t ≠ .syncWait q w := by
  intro hcall
  rcases hi.waits t q w hcall with h | h
  · exact nomatch hloop.symm.trans ((hs.worker q w).mpr h)
  · exact nomatch hloop.symm.trans h

/-- **Who waits** in the next state waited before, or begins to wait. -/
theorem next_waits [Fintype Q] (hi : SyncInv s) (hs : WorkInv s) (hok : syncOk s a = true)
    (h : WorkStep s a s') (hcall' : s'.call t = .syncWait q w) :
    s'.workCurrent q = some w ∨ s'.worker q = .complete w := by
  have hother : ∀ {u : T} {c : WorkCall Q W}, Function.update s.call u c t = .syncWait q w →
      c ≠ .syncWait q w → s.call t = .syncWait q w := by
    intro u c hu hc
    by_cases ht : t = u
    · rw [ht, Function.update_self] at hu
      exact absurd hu hc
    · rwa [Function.update_of_ne ht] at hu
  have hresume : ∀ {q' : Q}, s.worker q = .complete w →
      (s.resumeWorker q').worker q = .complete w := by
    intro q' hq
    rcases s.resumeWorker_worker q' q with he | ⟨he, -⟩
    · rw [he, hq]
    · exact nomatch he.symm.trans hq
  cases h with
  | submitNow hcall => exact (hi.waits t q w (hother hcall' nofun)).imp id hresume
  | submitLater hcall h0 => exact hi.waits t q w (hother hcall' nofun)
  | start hcall hsub => exact hi.waits t q w (hother hcall' nofun)
  | urgent hcall => exact (hi.waits t q w hcall').imp id hresume
  | cancel hcall => exact hi.waits t q w hcall'
  | testCurrent hcall hcur => exact hi.waits t q w (hother hcall' nofun)
  | testOther hcall hcur => exact hi.waits t q w (hother hcall' nofun)
  | @wait u q' w' hcall =>
    by_cases hsame : (WorkCall.syncWait q' w' : WorkCall Q W) = .syncWait q w
    · cases hsame
      rw [syncOk, hcall] at hok
      exact of_decide_eq_true hok
    · exact hi.waits t q w (hother hcall' hsame)
  | syncCancel hcall => exact hi.waits t q w (hother hcall' nofun)
  | syncReturn hcall => exact hi.waits t q w (hother hcall' nofun)
  | expire hhand hact => exact hi.waits t q w hcall'
  | handlerRead hhand hq => exact hi.waits t q w hcall'
  | handlerQueue hhand hsub hcur => exact (hi.waits t q w hcall').imp id hresume
  | handlerDrop hhand hsub hcur => exact (hi.waits t q w hcall').imp id hresume
  | @suspend q' hworker hnil =>
    have hne : q ≠ q' := fun he => hi.not_waiting hs (he ▸ hworker) hcall'
    show _ ∨ Function.update s.worker q' .suspended q = _
    rw [Function.update_of_ne hne]
    exact hi.waits t q w hcall'
  | @take q' w' hworker hfirst =>
    have hne : q ≠ q' := fun he => hi.not_waiting hs (he ▸ hworker) hcall'
    show Function.update s.workCurrent q' _ q = _ ∨ Function.update s.worker q' _ q = _
    rw [Function.update_of_ne hne, Function.update_of_ne hne]
    exact hi.waits t q w hcall'
  | @finish q' w' hworker =>
    show Function.update s.workCurrent q' _ q = _ ∨ Function.update s.worker q' _ q = _
    by_cases hq : q = q'
    · rw [hq, Function.update_self, Function.update_self]
      rcases hi.waits t q w hcall' with hcur | hcomp
      · rw [hq, (hs.worker q' w').mp hworker] at hcur
        cases hcur
        exact .inr rfl
      · rw [hq, hworker] at hcomp
        cases hcomp
    · rw [Function.update_of_ne hq, Function.update_of_ne hq]
      exact hi.waits t q w hcall'
  | @complete q' w' hworker =>
    change (if t ∈ (s.sem q').suspended then (s.call t).wake else s.call t) = _ at hcall'
    by_cases hm : t ∈ (s.sem q').suspended
    · rw [if_pos hm] at hcall'
      exact absurd hcall' (WorkInv.wake_ne _ _ _)
    · rw [if_neg hm] at hcall'
      have hne : q ≠ q' := fun he => hm ((hs.waiting q' t).mpr ⟨w, he ▸ hcall'⟩)
      show _ ∨ Function.update s.worker q' .loop q = _
      rw [Function.update_of_ne hne]
      exact hi.waits t q w hcall'

/-- **A call that found its work executing, or has cancelled it**, has a calm work in the next
state. -/
theorem next_calm [Fintype Q] (hi : SyncInv s) (hs : WorkInv s) (hok : syncOk s a = true)
    (h : WorkStep s a s') (hcall' : (s'.call t).holds = some (w, e))
    (hres' : s'.resubmitted t = false) : Calm s' w e := by
  have hnext : (s.call t).holds = some (w, e) → s.resubmitted t = false → a.submits ≠ some w →
      Calm s' w e := fun hcall hres ha => (hi.calm t w e hcall hres).next hs h ha
  have hother : ∀ {u : T} {c : WorkCall Q W}, (Function.update s.call u c t).holds = some (w, e) →
      (t = u → c.holds = (s.call t).holds ∨ c.holds = none) → (s.call t).holds = some (w, e) := by
    intro u c hu hc
    by_cases ht : t = u
    · rw [ht, Function.update_self] at hu
      rcases hc ht with he | he
      · rw [← he, hu]
      · exact nomatch he.symm.trans hu
    · rwa [Function.update_of_ne ht] at hu
  have hsubmit : ∀ {w' : W}, (s.resubmitted t || decide ((s.call t).cancels = some w')) = false →
      (s.call t).holds = some (w, e) → a.submits = some w' → Calm s' w e := by
    intro w' hor hcall ha
    obtain ⟨hres, hne⟩ := Bool.or_eq_false_iff.mp hor
    refine hnext hcall hres fun he => of_decide_eq_false hne ?_
    rw [WorkCall.holds_cancels hcall, ← he, ha]
  cases h with
  | submitNow hcall => exact hsubmit hres' (hother hcall' fun _ => .inr rfl) rfl
  | submitLater hcall h0 => exact hsubmit hres' (hother hcall' fun _ => .inr rfl) rfl
  | start hcall hsub => exact hnext (hother hcall' fun _ => .inr rfl) hres' nofun
  | urgent hcall => exact hsubmit hres' hcall' rfl
  | cancel hcall => exact hnext hcall' hres' nofun
  | @testCurrent u q' w' hcall hcur =>
    by_cases ht : t = u
    · change (Function.update s.call u _ t).holds = _ at hcall'
      rw [ht, Function.update_self] at hcall'
      cases hcall'
      obtain ⟨hun, hsub, hq⟩ := of_decide_eq_true hok hcur
      exact ⟨hun, hsub, fun q'' hne => hq q'' fun he => hne (congrArg some he.symm)⟩
    · change Function.update s.resubmitted u false t = false at hres'
      rw [Function.update_of_ne ht] at hres'
      exact hnext (hother hcall' fun he => absurd he ht) hres' nofun
  | @testOther u q' w' hcall hcur =>
    by_cases ht : t = u
    · change (Function.update s.call u _ t).holds = _ at hcall'
      rw [ht, Function.update_self] at hcall'
      cases hcall'
    · change Function.update s.resubmitted u false t = false at hres'
      rw [Function.update_of_ne ht] at hres'
      exact hnext (hother hcall' fun he => absurd he ht) hres' nofun
  | @wait u q' w' hcall =>
    refine hnext (hother hcall' fun ht => .inl ?_) hres' nofun
    rw [ht, hcall]
    rfl
  | @syncCancel u q' w' hcall =>
    by_cases ht : t = u
    · change (Function.update s.call u _ t).holds = _ at hcall'
      rw [ht, Function.update_self] at hcall'
      cases hcall'
      have hno : ∀ x, w ∉ (s.list.remove w) x := fun x hm => (hs.once.mem_remove.mp hm).1 rfl
      refine ⟨fun q => ⟨hno _, hno _⟩, ?_, fun q _ => ?_⟩
      · exact congrArg RtWork.submitting (Function.update_self w (.cancelled (s.work w)) s.work)
      · rw [syncOk, hcall] at hok
        dsimp only at hok
        rw [← ht] at hok
        change s.resubmitted t = false at hres'
        rw [hres', Bool.false_or] at hok
        exact of_decide_eq_true hok q
    · exact hnext (hother hcall' fun he => absurd he ht) hres' nofun
  | syncReturn hcall => exact hnext (hother hcall' fun _ => .inr rfl) hres' nofun
  | expire hhand hact => exact hnext hcall' hres' nofun
  | handlerRead hhand hq => exact hnext hcall' hres' nofun
  | handlerQueue hhand hsub hcur => exact hnext hcall' hres' nofun
  | handlerDrop hhand hsub hcur => exact hnext hcall' hres' nofun
  | suspend hworker hnil => exact hnext hcall' hres' nofun
  | take hworker hfirst => exact hnext hcall' hres' nofun
  | finish hworker => exact hnext hcall' hres' nofun
  | @complete q' w' hworker =>
    change (if t ∈ (s.sem q').suspended then (s.call t).wake else s.call t).holds = _ at hcall'
    by_cases hm : t ∈ (s.sem q').suspended
    · obtain ⟨w₁, hw₁⟩ := (hs.waiting q' t).mp hm
      rw [if_pos hm, hw₁] at hcall'
      cases hcall'
      have hcalm :=
        (hi.calm t w (some q') (by rw [hw₁]; rfl) hres').next hs (.complete hworker) nofun
      refine ⟨hcalm.unlinked, hcalm.submitting, fun q _ hcur => ?_⟩
      by_cases hq : q = q'
      · have hnone := hs.current_none (q := q') fun w h => nomatch hworker.symm.trans h
        rw [hq] at hcur
        exact nomatch hnone.symm.trans hcur
      · exact hcalm.current q (fun he => hq (Option.some.inj he).symm) hcur
    · rw [if_neg hm] at hcall'
      exact hnext hcall' hres' nofun

/-- Both invariants hold in the runs that meet the condition. -/
theorem reach [Fintype Q] (h : (workqueues Q W T).Reach syncOk s) : WorkInv s ∧ SyncInv s := by
  refine h.invariant (I := fun s => WorkInv s ∧ SyncInv s) ?_ ?_
  · intro s h0
    exact h0 ▸ ⟨.initial, .initial⟩
  · intro s a s' hs hok hstep
    have hcase := hs.1.cases hstep
    exact ⟨hs.1.step hstep, fun t q w hcall => hs.2.next_waits hs.1 hok hcase hcall,
      fun t w e hcall hres => hs.2.next_calm hs.1 hok hcase hcall hres⟩

/-- A call that found its work executing waits, the work ends, and the call returns. -/
theorem run_wait (hs : WorkInv s) (hcall : s.call t = .syncTake q w)
    (hcur : s.workCurrent q = some w) : ∃ s'',
      (workqueues Q W T).run System.anyStep s [.syncTake t, .finish q, .complete q] = some s'' ∧
        s''.list = s.list ∧ s''.work = s.work ∧ s''.resubmitted = s.resubmitted ∧
        s''.call t = .syncReturn q w ∧ ∀ q', q' ≠ q → s''.workCurrent q' = s.workCurrent q' := by
  have hworker := (hs.worker q w).mpr hcur
  have htry : (s.sem q).trytake = none := if_neg (by rw [hs.value q]; exact Nat.lt_irrefl 0)
  obtain ⟨s₁, hs₁⟩ : ∃ s₁, s₁ = { s with
    sem := Function.update s.sem q ((s.sem q).suspend t) }.setCall t (.syncWait q w) := ⟨_, rfl⟩
  have h₁ : workStep s (.syncTake t) = some s₁ := by
    simp only [workStep, hcall, htry, hs₁]
  have hi₁ := hs.step h₁
  have hsem₁ : (s₁.sem q).suspended = (s.sem q).suspended ++ [t] := by
    rw [hs₁]
    show (Function.update s.sem q _ q).suspended = _
    rw [Function.update_self]
    rfl
  have hcall₁ : s₁.call t = .syncWait q w := by
    rw [hs₁]
    exact Function.update_self _ _ _
  obtain ⟨s₂, hs₂⟩ : ∃ s₂, s₂ = { s₁ with
    workCurrent := Function.update s₁.workCurrent q none
    worker := Function.update s₁.worker q (.complete w) } := ⟨_, rfl⟩
  have h₂ : workStep s₁ (.finish q) = some s₂ := by
    have hworker₁ : s₁.worker q = .run w := by rw [hs₁]; exact hworker
    simp only [workStep, hworker₁, hs₂]
  obtain ⟨s₃, hs₃⟩ : ∃ s₃, s₃ = { s₂ with
    sem := Function.update s₂.sem q .fresh
    worker := Function.update s₂.worker q .loop
    call := s₂.wakeCalls (s₂.sem q).suspended } := ⟨_, rfl⟩
  have h₃ : workStep s₂ (.complete q) = some s₃ := by
    have hworker₂ : s₂.worker q = .complete w := by rw [hs₂]; exact Function.update_self _ _ _
    simp only [workStep, hworker₂]
    rw [completionLoop_eq ((hi₁.step h₂).value q) (Nat.lt_succ_self _), hs₃]
    rfl
  refine ⟨s₃, ?_, ?_, ?_, ?_, ?_, ?_⟩
  · show ((workStep s (.syncTake t)).bind fun s => (workStep s (.finish q)).bind fun s =>
      (workStep s (.complete q)).bind some) = _
    rw [h₁, Option.bind_some, h₂, Option.bind_some, h₃]
    rfl
  · rw [hs₃, hs₂, hs₁]
    rfl
  · rw [hs₃, hs₂, hs₁]
    rfl
  · rw [hs₃, hs₂, hs₁]
    rfl
  · have hm : t ∈ (s₂.sem q).suspended := by
      rw [hs₂]
      show t ∈ (s₁.sem q).suspended
      rw [hsem₁]
      exact List.mem_append_right _ (List.mem_singleton_self t)
    have hcall₂ : s₂.call t = .syncWait q w := by rw [hs₂]; exact hcall₁
    rw [hs₃]
    show (if t ∈ (s₂.sem q).suspended then (s₂.call t).wake else s₂.call t) = _
    rw [if_pos hm, hcall₂]
    rfl
  · intro q' hne
    rw [hs₃, hs₂]
    show Function.update s₁.workCurrent q none q' = _
    rw [Function.update_of_ne hne, hs₁]
    rfl

/-- **A step that does not meet the condition leads to a state that breaks the promise.** -/
theorem broken [Fintype Q] (hs : WorkInv s) (hok : syncOk s a = false)
    (h : workStep s a = some s') :
    ∃ as s'', (workqueues Q W T).run System.anyStep s' as = some s'' ∧ ¬ SyncState s'' := by
  have hs' := hs.step h
  have hcase := hs.cases h
  cases hcase with
  | @testCurrent t q w hcall hcur =>
    obtain ⟨s'', hrun, hlist, hwork, hres, hcall', hcur'⟩ := run_wait hs'
      (s.setCall_self t (.syncTake q w)) hcur
    refine ⟨_, s'', hrun, fun hstate => of_decide_eq_false hok fun _ => ?_⟩
    have hc := hstate.returns t q w hcall' (by rw [hres]; exact Function.update_self _ _ _)
    refine ⟨fun q => ?_, ?_, fun q' hne he => hc.current q' ((hcur' q' hne).trans he)⟩
    · have hun := hc.unlinked q
      rwa [hlist] at hun
    · have hsub := hc.submitting
      rwa [hwork] at hsub
  | testOther hcall hcur =>
    exact absurd (fun h => absurd h hcur) (of_decide_eq_false hok)
  | @wait t q w hcall =>
    rw [syncOk, hcall] at hok
    exact ⟨[], _, rfl, fun hstate => of_decide_eq_false hok
      (hstate.waits t q w (WorkState.setCall_self _ t _))⟩
  | @syncCancel t q w hcall =>
    rw [syncOk, hcall] at hok
    obtain ⟨hres, hcur⟩ := Bool.or_eq_false_iff.mp hok
    exact ⟨[], _, rfl, fun hstate => of_decide_eq_false hcur
      (hstate.returns t q w (WorkState.setCall_self _ t _) hres).current⟩
  | submitNow hcall => cases hok
  | submitLater hcall h0 => cases hok
  | start hcall hsub => cases hok
  | urgent hcall => cases hok
  | cancel hcall => cases hok
  | syncReturn hcall => cases hok
  | expire hhand hact => cases hok
  | handlerRead hhand hq => cases hok
  | handlerQueue hhand hsub hcur => cases hok
  | handlerDrop hhand hsub hcur => cases hok
  | suspend hworker hnil => cases hok
  | take hworker hfirst => cases hok
  | finish hworker => cases hok
  | complete hworker => cases hok

end SyncInv

end

/-- **Synchronous cancels keep their promise** in all states of the runs whose steps meet the
condition; from a step that does not meet it a state is reached that breaks the promise. -/
theorem cancel_work_sync (Q W T : Type) [DecidableEq Q] [DecidableEq W] [DecidableEq T] [Fintype Q]
    (s : WorkState Q W T) (h : (workqueues Q W T).Reach syncOk s) :
    SyncState s ∧ ∀ a s', workStep s a = some s' → syncOk s a = false →
      ∃ as s'', (workqueues Q W T).run System.anyStep s' as = some s'' ∧ ¬ SyncState s'' := by
  obtain ⟨hs, hi⟩ := SyncInv.reach h
  exact ⟨hi.state hs, fun a s' hstep hok => SyncInv.broken hs hok hstep⟩

/-- A work is cancelled while it is executing. -/
theorem cancel_work_sync_waits : ∃ s : WorkState Unit Bool Bool,
    (workqueues Unit Bool Bool).Reach syncOk s ∧ s.call true = .syncReturn () true ∧
      SyncState s := by
  obtain ⟨s, h, hp⟩ := (workqueues Unit Bool Bool).exists_reach syncOk
    (fun s => decide (s.call true = .syncReturn () true)) (s := .initial Unit Bool Bool) rfl
    [.submit true () true 0, .take (), .syncTest true () true, .syncTake true, .finish (),
      .complete ()] (by decide)
  exact ⟨s, h, of_decide_eq_true hp, (cancel_work_sync Unit Bool Bool s h).1⟩

/-- **A wake-up is lost** when the completion is acknowledged between the test and the wait, and a
work that was submitted while it was executing is queued when the call returns. -/
theorem cancel_work_lost :
    (∃ s : WorkState Unit Bool Bool, (workqueues Unit Bool Bool).Reach System.anyStep s ∧
      s.call true = .syncWait () true ∧ s.worker () = .suspended ∧ ¬ SyncState s) ∧
    ∃ s : WorkState Unit Bool Bool, (workqueues Unit Bool Bool).Reach System.anyStep s ∧
      s.call true = .syncReturn () true ∧ s.resubmitted true = false ∧
      true ∈ s.list (.work ()) ∧ ¬ SyncState s := by
  constructor
  · obtain ⟨s, h, hp⟩ := (workqueues Unit Bool Bool).exists_reach System.anyStep
      (fun s => decide (s.call true = .syncWait () true ∧ s.worker () = .suspended ∧
        s.workCurrent () = none)) (s := .initial Unit Bool Bool) rfl
      [.submit true () true 0, .take (), .syncTest true () true, .finish (), .complete (), .take (),
        .syncTake true] (by decide)
    obtain ⟨hcall, hworker, hcur⟩ := of_decide_eq_true hp
    refine ⟨s, h, hcall, hworker, fun hstate => ?_⟩
    rcases hstate.waits true () true hcall with he | he
    · exact nomatch hcur.symm.trans he
    · exact nomatch hworker.symm.trans he
  · obtain ⟨s, h, hp⟩ := (workqueues Unit Bool Bool).exists_reach System.anyStep
      (fun s => decide (s.call true = .syncReturn () true ∧ s.resubmitted true = false ∧
        true ∈ s.list (.work ()))) (s := .initial Unit Bool Bool) rfl
      [.submit true () true 0, .take (), .submit true () true 0, .syncTest true () true,
        .syncTake true, .finish (), .complete ()] (by decide)
    obtain ⟨hcall, hres, hm⟩ := of_decide_eq_true hp
    exact ⟨s, h, hcall, hres, hm, fun hstate =>
      ((hstate.returns true () true hcall hres).unlinked ()).1 hm⟩

end RtThread
