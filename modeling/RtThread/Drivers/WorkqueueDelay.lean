import RtThread.Drivers.Workqueue

/-!
# Delayed works

A work whose timer runs hangs on the `delayed_list` of its queue, as long as it is not submitted at
once or urgently meanwhile, and not cancelled between the expiry of its timer and the assertion of
the time-out handler.

* `DelayedState`: what is promised of delayed works; `delayOk`: the condition on the steps;
* `DelayInv`: what a step keeps; `DelayInv.next`;
* **`delayed_work`**: the promise is kept exactly by the steps that meet the condition.
-/

set_option linter.unusedSectionVars false

namespace RtThread

section
variable {Q W T : Type} [DecidableEq Q] [DecidableEq W] [DecidableEq T] {s s' : WorkState Q W T}
  {q : Q} {w : W} {t : T} {a : WorkLabel Q W T}

/-- **Delayed works**: a work that is being submitted, or whose timer runs, hangs on the delayed
list of its queue and on no other list, and the time-out handler finds a queue. -/
structure DelayedState (s : WorkState Q W T) : Prop where
  linked : ∀ w, (s.work w).submitting = true ∨ (s.work w).timer.activated = true →
    ∃ q, (s.work w).workqueue = some q ∧ w ∈ s.list (.delayed q) ∧
      ∀ h, w ∈ s.list h → h = .delayed q
  assertion : ∀ w, s.handler = .entered w → (s.work w).workqueue ≠ none

/-- **The condition**: a work that is being submitted with a delay is not submitted at once or
urgently, and not cancelled after its time-out handler has been called, until this has read the
queue. -/
def delayOk (s : WorkState Q W T) : WorkLabel Q W T → Bool
  | .submit _ _ w ticks => decide (ticks ≠ 0) || !(s.work w).submitting
  | .urgent _ _ w => !(s.work w).submitting
  | .cancel _ _ w => decide (s.handler ≠ .entered w)
  | .syncCancel t =>
    match s.call t with
    | .syncCancel _ w => decide (s.handler ≠ .entered w)
    | _ => true
  | _ => true

/-- What the steps keep. -/
structure DelayInv (s : WorkState Q W T) : Prop where
  delayed : ∀ w, (s.work w).submitting = true →
    ∃ q, (s.work w).workqueue = some q ∧ w ∈ s.list (.delayed q)
  entered : ∀ w, s.handler = .entered w → (s.work w).submitting = true

namespace DelayInv

theorem initial : DelayInv (WorkState.initial Q W T) :=
  ⟨fun _ h => (nomatch h), fun _ h => nomatch h⟩

/-- A work on the delayed list of its queue is on no other list. -/
theorem state (hd : DelayInv s) (hs : WorkInv s) : DelayedState s := by
  constructor
  · intro w h
    obtain ⟨q, hq, hm⟩ := hd.delayed w (h.elim id (hs.activated w))
    exact ⟨q, hq, hm, fun h hw => hs.once.unique hw hm⟩
  · intro w h hnone
    obtain ⟨q, hq, -⟩ := hd.delayed w (hd.entered w h)
    rw [hnone] at hq
    cases hq

/-- The other parts of the state do not matter. -/
theorem congr (hd : DelayInv s) (hl : s'.list = s.list) (hw : s'.work = s.work)
    (hh : ∀ w, s'.handler = .entered w → s.handler = .entered w) : DelayInv s' := by
  refine ⟨fun w h => ?_, fun w h => ?_⟩
  · rw [hw] at h ⊢
    rw [hl]
    exact hd.delayed w h
  · rw [hw]
    exact hd.entered w (hh w h)

/-- **A work and the lists it hangs on are written.** -/
theorem store (hd : DelayInv s) (list : Queues (WorkHead Q) W) (x : RtWork Q)
    (hother : ∀ w' h, w' ≠ w → (w' ∈ list h ↔ w' ∈ s.list h))
    (hdelayed : x.submitting = true → ∃ q, x.workqueue = some q ∧ w ∈ list (.delayed q))
    (hent : s.handler = .entered w → x.submitting = true) : DelayInv (s.store list w x) := by
  refine ⟨fun w' h => ?_, fun w' h => ?_⟩
  · change (Function.update s.work w x w').submitting = true at h
    show ∃ q, (Function.update s.work w x w').workqueue = some q ∧ w' ∈ list (.delayed q)
    by_cases hw : w' = w
    · rw [hw, Function.update_self] at h ⊢
      exact hdelayed h
    · rw [Function.update_of_ne hw] at h ⊢
      obtain ⟨q, hq, hm⟩ := hd.delayed w' h
      exact ⟨q, hq, (hother w' _ hw).mpr hm⟩
  · change s.handler = .entered w' at h
    show (Function.update s.work w x w').submitting = true
    by_cases hw : w' = w
    · rw [hw, Function.update_self]
      exact hent (hw ▸ h)
    · rw [Function.update_of_ne hw]
      exact hd.entered w' h

/-- A work that is on no delayed list is not being submitted. -/
theorem not_submitting (hd : DelayInv s) (hs : WorkInv s) (hm : w ∈ s.list (.work q)) :
    (s.work w).submitting = false := by
  by_contra hno
  obtain ⟨q', -, hm'⟩ := hd.delayed w (Bool.eq_true_of_not_eq_false hno)
  exact nomatch hs.once.unique hm hm'

/-- A work is put on a list. -/
theorem moved (hs : WorkInv s) {h : WorkHead Q} :
    ∀ w' h', w' ≠ w → (w' ∈ ((s.list.remove w).insertBeforeHead h w) h' ↔ w' ∈ s.list h') := by
  intro w' h' hw
  rw [(hs.once.moveBack w h).2 w' h']
  simp [hw]

/-- A work is taken off its list. -/
theorem removed (hs : WorkInv s) :
    ∀ w' h', w' ≠ w → (w' ∈ (s.list.remove w) h' ↔ w' ∈ s.list h') := by
  intro w' h' hw
  rw [hs.once.mem_remove]
  simp [hw]

/-- A work is cancelled. -/
theorem cancel (hd : DelayInv s) (hs : WorkInv s) (hent : s.handler ≠ .entered w) :
    DelayInv (s.store (s.list.remove w) w (.cancelled (s.work w))) := by
  exact hd.store _ _ (removed hs) (fun h => nomatch h) fun h => absurd h hent

/-- **A step that meets the condition keeps the delayed works.** -/
theorem next (hd : DelayInv s) (hs : WorkInv s) (hok : delayOk s a = true) (h : WorkStep s a s') :
    DelayInv s' := by
  cases h with
  | @submitNow t q w hcall =>
    have hsub : (s.work w).submitting = false := by simpa [delayOk] using hok
    refine (hd.store (w := w) ((s.list.remove w).insertBeforeHead (.work q) w)
      { s.work w with pending := true, workqueue := some q } (moved hs) (fun h => ?_)
      (hd.entered w)).congr rfl rfl fun w h => h
    exact nomatch hsub.symm.trans h
  | @submitLater t q w ticks hcall h0 =>
    have hm : w ∈ ((s.list.remove w).insertBeforeHead (.delayed q) w) (.delayed q) :=
      ((hs.once.moveBack w _).2 w _).mpr (.inl ⟨rfl, rfl⟩)
    exact (hd.store (w := w) _ ⟨false, true, ⟨true, false⟩, some q⟩ (moved hs)
      (fun _ => ⟨q, rfl, hm⟩) fun _ => rfl).congr rfl rfl fun w h => h
  | @start t w hcall hsub =>
    exact (hd.store (w := w) s.list { s.work w with timer := ⟨true, true⟩ }
      (fun _ _ _ => Iff.rfl) (hd.delayed w) (hd.entered w)).congr rfl rfl
      fun w h => h
  | @urgent t q w hcall =>
    have hsub : (s.work w).submitting = false := by simpa [delayOk] using hok
    have hmove : ∀ w' h', w' ≠ w →
        (w' ∈ ((s.list.remove w).insertAfterHead (.work q) w) h' ↔ w' ∈ s.list h') := by
      intro w' h' hw
      rw [(hs.once.moveFront w (.work q)).2 w' h']
      simp [hw]
    have hstore := hd.store (w := w) _ (s.work w) hmove (fun h => nomatch hsub.symm.trans h)
      (hd.entered w)
    refine hstore.congr rfl ?_ fun w h => h
    exact (Function.update_eq_self w s.work).symm
  | @cancel t q w hcall => exact hd.cancel hs (by simpa [delayOk] using hok)
  | testCurrent hcall hcur => exact hd.congr rfl rfl fun w h => h
  | testOther hcall hcur => exact hd.congr rfl rfl fun w h => h
  | wait hcall => exact hd.congr rfl rfl fun w h => h
  | @syncCancel t q w hcall =>
    rw [delayOk, hcall] at hok
    exact (hd.cancel hs (of_decide_eq_true hok)).congr rfl rfl fun w h => h
  | syncReturn hcall => exact hd.congr rfl rfl fun w h => h
  | @expire w hhand hact =>
    have hsub := hs.activated w hact
    have hstore := hd.store (w := w) s.list
      { s.work w with timer := { (s.work w).timer with activated := false } }
      (fun _ _ _ => Iff.rfl) (hd.delayed w) (hd.entered w)
    refine ⟨hstore.delayed, fun w' h => ?_⟩
    cases h
    show (Function.update s.work w _ w).submitting = true
    rw [Function.update_self]
    exact hsub
  | handlerRead hhand hq => exact hd.congr rfl rfl fun w h => nomatch h
  | @handlerQueue w q hhand hsub hcur =>
    exact (hd.store (w := w) _ (.expired (s.work w) true) (moved hs (h := .work q))
      (fun h => nomatch h) (fun h => nomatch hhand.symm.trans h)).congr rfl rfl
      fun w h => nomatch h
  | @handlerDrop w q hhand hsub hcur =>
    exact (hd.store (w := w) _ (.expired (s.work w) (s.work w).pending) (removed hs)
      (fun h => nomatch h) (fun h => nomatch hhand.symm.trans h)).congr rfl rfl
      fun w h => nomatch h
  | suspend hworker hnil => exact hd.congr rfl rfl fun w h => h
  | @take q w hworker hfirst =>
    have hsub := hd.not_submitting hs (List.mem_of_mem_head? hfirst)
    exact (hd.store (w := w) _ { s.work w with pending := false, workqueue := none }
      (removed hs) (fun h => nomatch hsub.symm.trans h) (hd.entered w)).congr rfl rfl fun w h => h
  | finish hworker => exact hd.congr rfl rfl fun w h => h
  | complete hworker => exact hd.congr rfl rfl fun w h => h

/-- Both invariants hold in the runs that meet the condition. -/
theorem reach (h : (workqueues Q W T).Reach delayOk s) : WorkInv s ∧ DelayInv s := by
  refine h.invariant (I := fun s => WorkInv s ∧ DelayInv s) ?_ ?_
  · intro s h0
    exact h0 ▸ ⟨.initial, .initial⟩
  · intro s a s' hs hok hstep
    exact ⟨hs.1.step hstep, hs.2.next hs.1 hok (hs.1.cases hstep)⟩

/-- **A step that does not meet the condition breaks the promise.** -/
theorem broken (hs : WorkInv s) (hok : delayOk s a = false) (h : WorkStep s a s') :
    ¬ DelayedState s' := by
  intro hstate
  cases h with
  | @submitNow t q w hcall =>
    have hsub : (s.work w).submitting = true := by simpa [delayOk] using hok
    have hself := congrArg RtWork.submitting (Function.update_self w
      { s.work w with pending := true, workqueue := some q } s.work)
    obtain ⟨q', -, -, honly⟩ := hstate.linked w (.inl (hself.trans hsub))
    exact nomatch honly (.work q) (((hs.once.moveBack w _).2 w _).mpr (.inl ⟨rfl, rfl⟩))
  | @submitLater t q w ticks hcall h0 =>
    rw [delayOk, decide_eq_true h0] at hok
    cases hok
  | @urgent t q w hcall =>
    have hsub : (s.work w).submitting = true := by simpa [delayOk] using hok
    obtain ⟨q', -, -, honly⟩ := hstate.linked w (.inl hsub)
    exact nomatch honly (.work q) (((hs.once.moveFront w _).2 w _).mpr (.inl ⟨rfl, rfl⟩))
  | @cancel t q w hcall =>
    have hhand : s.handler = .entered w := by simpa [delayOk] using hok
    refine hstate.assertion w hhand ?_
    exact congrArg RtWork.workqueue (Function.update_self w (.cancelled (s.work w)) s.work)
  | @syncCancel t q w hcall =>
    rw [delayOk, hcall] at hok
    have hhand : s.handler = .entered w := by simpa using hok
    refine hstate.assertion w hhand ?_
    exact congrArg RtWork.workqueue (Function.update_self w (.cancelled (s.work w)) s.work)
  | start hcall hsub => cases hok
  | testCurrent hcall hcur => cases hok
  | testOther hcall hcur => cases hok
  | wait hcall => cases hok
  | syncReturn hcall => cases hok
  | expire hhand hact => cases hok
  | handlerRead hhand hq => cases hok
  | handlerQueue hhand hsub hcur => cases hok
  | handlerDrop hhand hsub hcur => cases hok
  | suspend hworker hnil => cases hok
  | take hworker hfirst => cases hok
  | finish hworker => cases hok
  | complete hworker => cases hok

end DelayInv

end

/-- **Delayed works are linked**, and the time-out handler finds their queue, in all states of the
runs whose steps meet the condition; a step that does not meet it leads to a state where they are
not. -/
theorem delayed_work (Q W T : Type) [DecidableEq Q] [DecidableEq W] [DecidableEq T]
    (s : WorkState Q W T) (h : (workqueues Q W T).Reach delayOk s) :
    DelayedState s ∧ ∀ a s', workStep s a = some s' →
      (DelayedState s' ↔ delayOk s a = true) := by
  obtain ⟨hs, hd⟩ := DelayInv.reach h
  refine ⟨hd.state hs, fun a s' hstep => ⟨fun hstate => ?_, fun hok => ?_⟩⟩
  · by_contra hno
    exact DelayInv.broken hs (Bool.eq_false_of_not_eq_true hno) (hs.cases hstep) hstate
  · exact (hd.next hs hok (hs.cases hstep)).state (hs.step hstep)

/-- A delayed work whose timer has expired. -/
theorem delayed_work_expired : ∃ s : WorkState Unit Bool Bool,
    (workqueues Unit Bool Bool).Reach delayOk s ∧ s.handler = .entered true ∧ DelayedState s := by
  obtain ⟨s, h, hp⟩ := (workqueues Unit Bool Bool).exists_reach delayOk
    (fun s => decide (s.handler = .entered true)) (s := .initial Unit Bool Bool) rfl
    [.submit true () true 10, .start true, .expire true] (by decide)
  exact ⟨s, h, of_decide_eq_true hp, (delayed_work Unit Bool Bool s h).1⟩

/-- **A delayed work that is submitted at once** hangs on the work list while its timer runs; the
worker takes it, and the time-out handler finds no queue. -/
theorem delayed_unlinked : ∃ s : WorkState Unit Bool Bool,
    (workqueues Unit Bool Bool).Reach System.anyStep s ∧ ¬ DelayedState s ∧
      s.handler = .entered true ∧ (s.work true).workqueue = none := by
  obtain ⟨s, h, hp⟩ := (workqueues Unit Bool Bool).exists_reach System.anyStep
    (fun s => decide (s.handler = .entered true ∧ (s.work true).workqueue = none))
    (s := .initial Unit Bool Bool) rfl
    [.submit true () true 10, .start true, .submit true () true 0, .take (), .expire true]
    (by decide)
  obtain ⟨hhand, hnone⟩ := of_decide_eq_true hp
  exact ⟨s, h, fun hstate => hstate.assertion true hhand hnone, hhand, hnone⟩

end RtThread
