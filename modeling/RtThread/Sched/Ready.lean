import RtThread.Kernel.Sched

/-!
# The ready lists and their bitmap

`Ready k R` says that the ready lists hold exactly the threads in `R`, each once and in the list of
its priority, and that the bitmap has the bits of the non-empty lists. Between two steps of the
kernel `R` is "is READY"; inside a critical section a thread is taken out of `R` and put back.

* `Ready.congr`, `Ready.remove`, `Ready.insert`, `Ready.set`: what the primitives do to `R`;
* `Ready.highest`: `_scheduler_get_highest_priority_thread` finds a thread of the highest priority.
-/

set_option linter.unusedSectionVars false

namespace RtThread

theorem priorityMask_getLsbD {p q : ℕ} (hp : p < 32) :
    (priorityMask p).getLsbD q = decide (q = p) := by
  simp only [priorityMask, BitVec.getLsbD_shiftLeft, BitVec.getLsbD_one]
  by_cases h : q = p
  · subst h; simp [hp]
  · rw [decide_eq_false h]
    by_cases hq : q < p
    · simp [hq]
    · have : ¬ q - p = 0 := by omega
      simp [this]

theorem priorityMask_ne_zero {p : ℕ} (hp : p < 32) : priorityMask p ≠ 0#32 := fun h => by
  have := congrArg (BitVec.getLsbD · p) h
  simp [priorityMask_getLsbD hp] at this

variable {T O : Type} [DecidableEq T] [DecidableEq O] {k : Kernel T O} {R : T → Prop}

/-- The ready lists hold exactly the threads in `R`, and the bitmap agrees with them. -/
structure Ready (k : Kernel T O) (R : T → Prop) : Prop where
  nodup : ∀ p, (k.list (.ready p)).Nodup
  mem : ∀ t p, t ∈ k.list (.ready p) ↔ R t ∧ k.prioOf t = p
  mask : ∀ t, R t → (k.thread t).numberMask = priorityMask (k.prioOf t)
  mask0 : ∀ t, (k.thread t).numberMask = priorityMask (k.prioOf t) ∨
    (k.thread t).numberMask = 0#32
  bound : ∀ t, k.prioOf t < threadPriorityMax
  group : ∀ p < threadPriorityMax,
    k.readyPriorityGroup.getLsbD p = true ↔ k.list (.ready p) ≠ []

namespace Ready

/-- Only the ready lists, the bitmap and the priority attributes matter. -/
theorem congr (h : Ready k R) (k' : Kernel T O) (hl : ∀ p, k'.list (.ready p) = k.list (.ready p))
    (hg : k'.readyPriorityGroup = k.readyPriorityGroup)
    (hp : ∀ t, k'.prioOf t = k.prioOf t)
    (hm : ∀ t, (k'.thread t).numberMask = (k.thread t).numberMask) {R' : T → Prop}
    (hR : ∀ t, R' t ↔ R t) : Ready k' R' where
  nodup p := by rw [hl]; exact h.nodup p
  mem t p := by rw [hl, hp, hR]; exact h.mem t p
  mask t ht := by rw [hp, hm]; exact h.mask t ((hR t).mp ht)
  mask0 t := by rw [hp, hm]; exact h.mask0 t
  bound t := by rw [hp]; exact h.bound t
  group p hp' := by rw [hl, hg]; exact h.group p hp'

/-- The same threads, described in another way. -/
theorem of_iff (h : Ready k R) {R' : T → Prop} (hR : ∀ t, R' t ↔ R t) : Ready k R' := by
  have : R' = R := funext fun t => propext (hR t)
  rwa [this]

/-- Writes that keep the priority attributes. -/
theorem setThread (h : Ready k R) (t : T) (f : Thread O → Thread O)
    (hf : ∀ th, (f th).attrs = th.attrs) : Ready (k.setThread t f) R := by
  have hp : ∀ th, (f th).currentPriority = th.currentPriority := fun th => congrArg (·.1) (hf th)
  have hm : ∀ th, (f th).numberMask = th.numberMask := fun th => congrArg (·.2.2.1) (hf th)
  refine h.congr (k.setThread t f) (fun _ => rfl) rfl (fun u => ?_) (fun u => ?_) fun _ => Iff.rfl
  · by_cases hu : u = t
    · subst hu; simp [Kernel.prioOf, hp]
    · simp [Kernel.prioOf, hu]
  · by_cases hu : u = t
    · subst hu; simp [hm]
    · simp [hu]

/-- **Removing a thread takes it out of `R`.** -/
theorem remove (h : Ready k R) (t : T) :
    Ready (k.scheduleRemoveThread t) fun u => R u ∧ u ≠ t := by
  have hlist : ∀ p, (k.scheduleRemoveThread t).list (.ready p) = (k.list (.ready p)).erase t :=
    fun _ => rfl
  have hother : ∀ p, p ≠ k.prioOf t → (k.list (.ready p)).erase t = k.list (.ready p) :=
    fun p hp => List.erase_of_not_mem fun hm => hp ((h.mem t p).mp hm).2.symm
  refine ⟨fun p => (h.nodup p).erase t, fun u p => ?_, fun u hu => h.mask u hu.1, h.mask0,
    h.bound, fun p hp => ?_⟩
  · rw [hlist, (h.nodup p).mem_erase_iff, h.mem]
    exact ⟨fun ⟨hne, hR, hp⟩ => ⟨⟨hR, hne⟩, hp⟩, fun ⟨⟨hR, hne⟩, hp⟩ => ⟨hne, hR, hp⟩⟩
  · rw [hlist]
    change (if (k.list (.ready (k.prioOf t))).erase t = [] then
      k.readyPriorityGroup &&& ~~~(k.thread t).numberMask
      else k.readyPriorityGroup).getLsbD p = true ↔ _
    split_ifs with he
    · -- the list of `t` becomes empty: only its bit is cleared
      rcases h.mask0 t with hm | hm
      · rw [hm, BitVec.getLsbD_and, BitVec.getLsbD_not, priorityMask_getLsbD (h.bound t)]
        by_cases hpt : p = k.prioOf t
        · subst hpt; simp [he]
        · rw [hother p hpt, ← h.group p hp]
          simp [hpt, hp]
      · have ht : ¬ R t := fun hR =>
          priorityMask_ne_zero (h.bound t) ((h.mask t hR).symm.trans hm)
        rw [hm, List.erase_of_not_mem fun hmem => ht ((h.mem t p).mp hmem).1, ← h.group p hp,
          BitVec.getLsbD_and, BitVec.getLsbD_not, BitVec.getLsbD_zero]
        simp [hp]
    · rw [h.group p hp]
      by_cases hpt : p = k.prioOf t
      · subst hpt
        exact ⟨fun _ => he, fun _ h0 => he (by rw [h0]; rfl)⟩
      · rw [hother p hpt]

/-- **Inserting a thread puts it in `R`.** -/
theorem insert (h : Ready k R) {t : T} (ht : ¬ R t) (hc : k.currentThread ≠ some t)
    (hm : (k.thread t).numberMask = priorityMask (k.prioOf t)) :
    Ready (k.scheduleInsertThread t) fun u => R u ∨ u = t := by
  obtain ⟨l, hl, hlist⟩ := k.scheduleInsertThread_list hc
  have hother : ∀ p, p ≠ k.prioOf t →
      (k.scheduleInsertThread t).list (.ready p) = k.list (.ready p) := fun p hp => by
    rw [hlist, Function.update_of_ne fun e => hp (Head.ready.inj e)]
  have hself : (k.scheduleInsertThread t).list (.ready (k.prioOf t)) = l := by
    rw [hlist, Function.update_self]
  have hsame : ∀ u, (k.scheduleInsertThread t).prioOf u = k.prioOf u ∧
      ((k.scheduleInsertThread t).thread u).numberMask = (k.thread u).numberMask := fun u => by
    by_cases hu : u = t
    · subst hu; simp [Kernel.prioOf]
    · simp [Kernel.prioOf, hu]
  refine ⟨fun p => ?_, fun u p => ?_, fun u hu => ?_, fun u => ?_, fun u => ?_, fun p hp => ?_⟩
  · by_cases hp : p = k.prioOf t
    · subst hp
      rw [hself, hl.nodup_iff, List.nodup_cons]
      exact ⟨fun hp => ht ((h.mem t _).mp hp).1, h.nodup _⟩
    · rw [hother p hp]; exact h.nodup p
  · rw [(hsame u).1]
    by_cases hp : p = k.prioOf t
    · subst hp
      rw [hself, hl.mem_iff, List.mem_cons, h.mem]
      constructor
      · rintro (rfl | ⟨hR, hq⟩)
        · exact ⟨.inr rfl, rfl⟩
        · exact ⟨.inl hR, hq⟩
      · rintro ⟨hR | hu, hq⟩
        · exact .inr ⟨hR, hq⟩
        · exact .inl hu
    · rw [hother p hp, h.mem]
      constructor
      · rintro ⟨hR, hq⟩; exact ⟨.inl hR, hq⟩
      · rintro ⟨hR | rfl, hq⟩
        · exact ⟨hR, hq⟩
        · exact absurd hq.symm hp
  · rw [(hsame u).1, (hsame u).2]
    rcases hu with hR | rfl
    · exact h.mask u hR
    · exact hm
  · rw [(hsame u).1, (hsame u).2]; exact h.mask0 u
  · rw [(hsame u).1]; exact h.bound u
  · rw [k.scheduleInsertThread_group hc, hm, BitVec.getLsbD_or, priorityMask_getLsbD (h.bound t),
      Bool.or_eq_true, h.group p hp]
    by_cases hpt : p = k.prioOf t
    · subst hpt
      have hne : l ≠ [] := fun h0 => by
        rw [h0] at hl; exact List.cons_ne_nil _ _ hl.nil_eq.symm
      simp [hself, hne]
    · rw [hother p hpt]; simp [hpt]

/-- Changing the priority of a thread outside `R`. -/
theorem writePriority (h : Ready k R) {t : T} (ht : ¬ R t) {p : ℕ} (hp : p < threadPriorityMax) :
    Ready (k.setThread t (Thread.writePriority p)) R := by
  have hne : ∀ u, R u → u ≠ t := fun u hu e => ht (e ▸ hu)
  refine ⟨h.nodup, fun u q => ?_, fun u hu => ?_, fun u => ?_, fun u => ?_, h.group⟩
  · rw [Kernel.setThread_list, h.mem]
    by_cases hu : u = t
    · subst hu; simp [ht]
    · simp [Kernel.prioOf, hu]
  · simpa [Kernel.prioOf, hne u hu] using h.mask u hu
  · by_cases hu : u = t
    · subst hu; simp [Kernel.prioOf, Thread.writePriority]
    · simpa [Kernel.prioOf, hu] using h.mask0 u
  · by_cases hu : u = t
    · subst hu; simpa [Kernel.prioOf, Thread.writePriority] using hp
    · simpa [Kernel.prioOf, hu] using h.bound u

/-- **The highest ready thread.** -/
theorem highest (h : Ready k R) (h0 : k.readyPriorityGroup ≠ 0#32) :
    ∃ t, k.schedulerGetHighestPriorityThread = some (t, k.prioOf t) ∧ R t ∧
      ∀ u, R u → k.prioOf t ≤ k.prioOf u := by
  obtain ⟨hlt, hset, hlow⟩ := rtFfs_spec h0
  have hne := (h.group _ hlt).mp hset
  obtain ⟨t, l, hl⟩ := List.exists_cons_of_ne_nil hne
  obtain ⟨hR, hp⟩ := (h.mem t _).mp (hl ▸ List.mem_cons_self)
  refine ⟨t, ?_, hR, fun u hu => ?_⟩
  · simp only [Kernel.schedulerGetHighestPriorityThread, if_neg h0, hl, hp]
  · by_contra hlt'
    have hmem := (h.mem u _).mpr ⟨hu, rfl⟩
    have := (h.group _ (h.bound u)).mpr (List.ne_nil_of_mem hmem)
    rw [hlow _ (by omega)] at this
    exact Bool.noConfusion this

/-- An empty bitmap means that nothing is ready. -/
theorem none_of_group (h : Ready k R) (h0 : k.readyPriorityGroup = 0#32) (t : T) : ¬ R t :=
  fun hR => by
    have := (h.group _ (h.bound t)).mpr (List.ne_nil_of_mem ((h.mem t _).mpr ⟨hR, rfl⟩))
    rw [h0, BitVec.getLsbD_zero] at this
    exact Bool.noConfusion this

end Ready

end RtThread
