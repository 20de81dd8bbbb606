import RtThread.Mutex.Propagate

/-!
# Scheduling leaves the waiting threads alone

* `Dispatched k k'`: `k'` differs from `k` in the ready lists, and in who runs;
* **`rtSchedule_dispatched`**, `systemSchedulerStart_dispatched`, `threadYield_dispatched`.
-/

set_option linter.unusedSectionVars false

namespace RtThread

namespace Kernel

variable {T O : Type} [DecidableEq T] [DecidableEq O] {k k' : Kernel T O} {c t : T}

/-- Only the ready lists and who runs differ. -/
structure Dispatched (k k' : Kernel T O) : Prop where
  linked : Linked k'
  thread : ∀ t, (k'.thread t).fixed = (k.thread t).fixed
  prio : ∀ t, k'.prioOf t = k.prioOf t
  object : k'.object = k.object
  waiters : ∀ o, k'.waiters o = k.waiters o
  defunct : k'.list .defunct = k.list .defunct

theorem Dispatched.alike (h : Dispatched k k') : Alike k k' where
  thread := h.thread
  object o := by rw [h.object]
  waiters o t := by rw [h.waiters]
  defunct := h.defunct

theorem Linked.not_mem_waiters (hk : Linked k) (ht : (k.thread t).stat.isSuspend ≠ true) (o : O) :
    t ∉ k.waiters o := fun hm => ht (hk.suspend hm)

/-- The head of a ready list is READY. -/
theorem Linked.highest_ready (hk : Linked k) {p : ℕ}
    (h : k.schedulerGetHighestPriorityThread = some (t, p)) : (k.thread t).stat = .ready := by
  unfold schedulerGetHighestPriorityThread at h
  split_ifs at h
  dsimp only at h
  split at h
  · cases h
  · next u l hl =>
    obtain ⟨rfl, -⟩ := Prod.mk.inj (Option.some.inj h)
    exact hk.ready (hl ▸ List.mem_cons_self)

/-- Running a thread that is taken off the ready lists. -/
theorem run_dispatched (hk : Linked k) (ht : (k.thread t).stat.phase = .awake)
    (f : Thread O → Thread O)
    (hf : ∀ th, (f th).stat = .running ∧ ({ f th with stat := th.stat } : Thread O).fixed = th.fixed ∧
      (f th).currentPriority = th.currentPriority) :
    Dispatched k ((k.scheduleRemoveThread t).setThread t f) where
  linked := (hk.remove t).write (hk.unlinked_listRemove t) f fun _ => by
    rw [(hf _).1]; simp
  thread u := by
    by_cases hu : u = t
    · subst hu
      rw [setThread_self]
      refine Eq.trans ?_ (hf (k.thread u)).2.1
      change (_, (f (k.thread u)).stat.phase, _) = (_, (k.thread u).stat.phase, _)
      rw [(hf _).1, ht]
      rfl
    · rw [setThread_of_ne _ hu]; rfl
  prio u := by
    by_cases hu : u = t
    · subst hu; rw [prioOf, setThread_self]; exact (hf _).2.2
    · rw [prioOf, setThread_of_ne _ hu]; rfl
  object := rfl
  waiters o := List.erase_of_not_mem (hk.not_mem_waiters (fun hs => by
    rw [Stat.isSuspend_iff, ht] at hs; cases hs) o)
  defunct := List.erase_of_not_mem fun hm => by
    rw [hk.defunct hm] at ht
    cases ht

theorem threadYield_dispatched (hk : Linked k) (c : T) : Dispatched k (k.threadYield c) where
  linked := hk.setThread c (fun th => { th with yieldFlag := true }) rfl
  thread u := by
    unfold threadYield
    by_cases hu : u = c
    · subst hu; rw [setThread_self]; rfl
    · rw [setThread_of_ne _ hu]
  prio u := by
    unfold threadYield
    by_cases hu : u = c
    · subst hu; rw [prioOf, setThread_self]
    · rw [prioOf, setThread_of_ne _ hu]
  object := rfl
  waiters _ := rfl
  defunct := rfl

/-- The lists of a switch do not depend on who is current in between. -/
theorem switchTo_linked (hk : Linked k) (ht : (k.thread t).stat = .ready) (htc : t ≠ c) :
    Linked (k.switchTo c t (decide ((k.thread c).stat = .running))) := by
  have h0 : Linked { k with currentThread := none } := ⟨hk.linked, hk.fits, fun h => nomatch h⟩
  have hct : some t ≠ some c := fun e => htc (Option.some.inj e)
  obtain ⟨k₁, hk₁⟩ : ∃ k₁ : Kernel T O, k₁ = if (k.thread c).stat = .running then
      scheduleInsertThread { k with currentThread := none } c
      else { k with currentThread := none } := ⟨_, rfl⟩
  have h1 : Linked k₁ := by
    rw [hk₁]
    split_ifs with hrun
    · exact h0.insert (h0.unlinked (.inl hrun))
    · exact h0
  have h2 := h1.setThread c (fun th => { th with yieldFlag := false }) rfl
  have h3 := (h2.remove t).write (h2.unlinked_listRemove t)
    (fun th => { th with stat := .running }) fun _ => by simp
  refine ⟨?_, fun {u h} hu => ?_, fun {d} hd => ?_⟩
  · convert h3.linked using 1
    rw [hk₁]
    by_cases hrun : (k.thread c).stat = .running
    · rw [if_pos hrun, decide_eq_true hrun]
      simp [switchTo, scheduleInsertThread, hct, prioOf]
    · rw [if_neg hrun, decide_eq_false hrun]
      simp [switchTo]
  · have := h3.fits (t := u) (h := h) (by
      convert hu using 1
      rw [hk₁]
      by_cases hrun : (k.thread c).stat = .running
      · rw [if_pos hrun, decide_eq_true hrun]
        simp [switchTo, scheduleInsertThread, hct, prioOf]
      · rw [if_neg hrun, decide_eq_false hrun]
        simp [switchTo])
    rw [switchTo_stat k htc]
    convert this using 2
    rw [hk₁]
    by_cases hut : u = t
    · subst hut; simp
    · by_cases hrun : (k.thread c).stat = .running
      · by_cases huc : u = c
        · subst huc; simp [hut, hrun, insertedStat]
        · simp [hut, huc, hrun]
      · by_cases huc : u = c
        · subst huc; simp [hut, hrun]
        · simp [hut, huc, hrun]
  · rw [switchTo_current] at hd
    rw [switchTo_stat k htc, if_pos (Option.some.inj hd).symm]
    simp

/-- **Leaving the current thread for a ready one.** -/
theorem switchTo_dispatched (hk : Linked k) (ht : (k.thread t).stat = .ready) (htc : t ≠ c) :
    Dispatched k (k.switchTo c t (decide ((k.thread c).stat = .running))) := by
  refine ⟨switchTo_linked hk ht htc, fun u => ?_, fun u => congrArg (·.1) (switchTo_attrs k c t _ u),
    switchTo_object k c t _, fun o => ?_, ?_⟩
  · have hp : ((k.switchTo c t (decide ((k.thread c).stat = .running))).thread u).stat.phase =
        (k.thread u).stat.phase := by
      rw [switchTo_stat k htc]
      split_ifs with h1 h2
      · rw [h1, ht]; rfl
      · rw [h2.1, of_decide_eq_true h2.2]; rfl
      · rfl
    unfold Thread.fixed
    rw [hp]
    unfold switchTo
    dsimp only
    by_cases hu : u = t
    · subst hu
      cases decide ((k.thread c).stat = .running) <;> simp [htc]
    · by_cases huc : u = c
      · subst huc
        cases decide ((k.thread u).stat = .running) <;> simp [hu]
      · cases decide ((k.thread c).stat = .running) <;> simp [hu, huc]
  · have hto : t ∉ k.waiters o := hk.not_mem_waiters (by rw [ht]; simp [Stat.isSuspend]) o
    have hlist : (k.switchTo c t (decide ((k.thread c).stat = .running))).waiters o =
        (k.waiters o).erase t := by
      unfold switchTo
      dsimp only
      split_ifs
      · exact congrArg (List.erase · t) (scheduleInsertThread_waiters c o)
      · rfl
    rw [hlist, List.erase_of_not_mem hto]
  · have hlist : (k.switchTo c t (decide ((k.thread c).stat = .running))).list .defunct =
        (k.list .defunct).erase t := by
      unfold switchTo
      dsimp only
      split_ifs
      · exact congrArg (List.erase · t) (scheduleInsertThread_defunct c)
      · rfl
    rw [hlist, List.erase_of_not_mem fun hm => ?_]
    rw [hk.defunct hm] at ht
    cases ht

/-- **`rt_schedule`.** -/
theorem rtSchedule_dispatched (hk : Linked k) (h : k.rtSchedule = some k') : Dispatched k k' := by
  rcases rtSchedule_cases h with ⟨-, rfl⟩ | ⟨c, t, p, -, -, hc, ht, hk'⟩
  · exact ⟨hk, fun _ => rfl, fun _ => rfl, rfl, fun _ => rfl, rfl⟩
  · have htr := hk.highest_ready ht
    rcases hk' with ⟨hst, rfl⟩ | ⟨-, htc, rfl⟩
    · have hrun : (k.thread c).stat = .running := by
        rcases hst with hst | rfl
        · unfold staysCurrent at hst
          rw [Bool.and_eq_true] at hst
          exact of_decide_eq_true hst.1
        · exact absurd htr (hk.current hc)
      exact run_dispatched hk (by rw [hrun]; rfl) _ fun _ => ⟨rfl, rfl, rfl⟩
    · exact switchTo_dispatched hk htr htc

theorem systemSchedulerStart_dispatched (hk : Linked k) (h : k.systemSchedulerStart = some k') :
    Dispatched k k' := by
  obtain ⟨⟨t, p⟩, ht, h⟩ := Option.bind_eq_some_iff.mp h
  have htr := hk.highest_ready ht
  have h0 : Linked { k with currentThread := none } := ⟨hk.linked, hk.fits, fun h => nomatch h⟩
  have h1 := run_dispatched h0 (t := t) (by rw [htr]; rfl)
    (fun th => { th with stat := .running, yieldFlag := false }) fun _ => ⟨rfl, rfl, rfl⟩
  cases h
  refine ⟨⟨h1.linked.linked, h1.linked.fits, fun {c} hc => ?_⟩, h1.thread, h1.prio, h1.object,
    h1.waiters, h1.defunct⟩
  rw [← Option.some.inj hc, setThread_self]
  simp

end Kernel

end RtThread
