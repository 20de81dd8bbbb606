import RtThread.Mutex.Keep

/-!
# Mutual exclusion and ownership

* `MutexInv`: the structural invariant, the resumes in flight, and the count of every mutex;
* `mutexStep_inv`: every step keeps it, when no `rt_thread_resume` unlinks a thread that is inside
  `_rt_mutex_take` or already unlinked (`resumeOk`);
* **`ownership_invariant`**: a successful take has got the mutex, and nobody else has it.
-/

set_option linter.unusedSectionVars false

namespace RtThread

open Kernel

variable {T O : Type} [DecidableEq T] [DecidableEq O] {fuel : ℕ} {s s' : MutexState T O}

/-- An `rt_thread_resume` acts on a thread that is suspended outside `_rt_mutex_take`, and no two of
them, nor a detach, act on one thread at a time. -/
def resumeOk (s : MutexState T O) : MutexLabel T O → Bool
  | .proceed (.unlink t) => (s.kernel.thread t).stat.isSuspend && decide (s.taking t = none) &&
      decide (Pending.insert t ∉ s.resumes)
  | .detachThread t => decide (Pending.insert t ∉ s.resumes)
  | _ => true

/-- A take that returned `RT_EOK` has got the mutex and counts its takes; a mutex is in a thread's
`taken_object_list` exactly when the thread is its owner; no two threads are between a successful take
and the matching release of one mutex. -/
structure OwnershipOk (s : MutexState T O) : Prop where
  returned : ∀ t m, s.returned = some (t, m, .eok) →
    (s.kernel.object m).owner = some t ∧ (s.kernel.object m).hold = s.depth t m
  taken : ∀ t m, (s.kernel.object m).type = .mutex →
    (m ∈ (s.kernel.thread t).takenObjectList ↔ (s.kernel.object m).owner = some t)
  exclusive : ∀ t u m, s.depth t m ≠ 0 → s.depth u m ≠ 0 → t = u

/-- The invariant behind it. A mutex that was handed over is counted once more until the take
returns. -/
structure MutexInv (s : MutexState T O) : Prop where
  wf : Wf s.kernel s.taking
  parked : ∀ t, Pending.insert t ∈ s.resumes → Parked s.kernel s.taking t
  once : ∀ t, s.resumes.count (.insert t) ≤ 1
  held : ∀ t m, (s.kernel.object m).owner = some t → (s.kernel.thread t).stat ≠ .close →
    (s.kernel.object m).hold = s.depth t m + if s.taking t = some m then 1 else 0
  owns : ∀ t m, s.depth t m ≠ 0 → (s.kernel.object m).owner = some t
  returned : ∀ t m, s.returned = some (t, m, .eok) →
    (s.kernel.object m).owner = some t ∧ (s.kernel.object m).hold = s.depth t m

theorem MutexInv.ok (h : MutexInv s) : OwnershipOk s where
  returned := h.returned
  taken t m hm := by rw [h.wf.owned]; exact and_iff_left hm
  exclusive t u m ht hu := Option.some.inj ((h.owns t m ht).symm.trans (h.owns u m hu))

theorem MutexState.self_eq {c : T} (h : s.self = some c) : s.kernel.currentThread = some c ∧
    (s.kernel.thread c).stat = .running ∧ s.taking c = none := by
  obtain ⟨h1, h2⟩ := Option.filter_eq_some_iff.mp h
  exact ⟨h1, of_decide_eq_true h2⟩

namespace MutexInv

/-- Steps that move no mutex and leave `_rt_mutex_take` alone. -/
theorem keeps (h : MutexInv s) {k' : Kernel T O} (hk : Keeps s.kernel s.taking k' s.taking) :
    MutexInv (s.withKernel k') where
  wf := hk.wf
  parked t ht := hk.parked t (h.parked t ht)
  once := h.once
  held t m ho hc := by
    have h1 : _ = _ ∧ _ = _ := Prod.ext_iff.mp (hk.holds m)
    change (k'.object m).hold = _
    rw [show (k'.object m).hold = _ from h1.2]
    exact h.held t m (h1.1.symm.trans ho) fun e => hc (hk.closed t e)
  owns t m hd := (congrArg Prod.fst (hk.holds m)).trans (h.owns t m hd)
  returned t m hr := by cases hr

/-- A thread is suspended in `_rt_mutex_take`, for a mutex of another thread. -/
theorem blocks (h : MutexInv s) {k' : Kernel T O} {c : T} {m : O}
    (hk : Keeps s.kernel s.taking k' (Function.update s.taking c (some m)))
    (hc : s.taking c = none) (ho : (s.kernel.object m).owner ≠ some c) :
    MutexInv ((s.withKernel k').setTaking c (some m)) where
  wf := hk.wf
  parked t ht := hk.parked t (h.parked t ht)
  once := h.once
  held t x hx hcl := by
    have h1 : _ = _ ∧ _ = _ := Prod.ext_iff.mp (hk.holds x)
    have h2 := h.held t x (h1.1.symm.trans hx) fun e => hcl (hk.closed t e)
    change (k'.object x).hold = s.depth t x +
      if Function.update s.taking c (some m) t = some x then 1 else 0
    rw [show (k'.object x).hold = _ from h1.2]
    refine h2.trans (congrArg (s.depth t x + ·) ?_)
    by_cases htc : t = c
    · subst htc
      have hmx : m ≠ x := fun e => ho (e ▸ h1.1.symm.trans hx)
      rw [Function.update_self, hc, if_neg (by simp), if_neg (by simpa using hmx)]
    · rw [Function.update_of_ne htc]
  owns t x hd := (congrArg Prod.fst (hk.holds x)).trans (h.owns t x hd)
  returned t x hr := by cases hr

/-- A thread leaves `_rt_mutex_take` without the mutex, or is closed. -/
theorem ends (h : MutexInv s) {k' : Kernel T O} {c : T} (hk : Ends s.kernel s.taking k' c)
    (hr : Pending.insert c ∉ s.resumes)
    (hx : (k'.thread c).stat ≠ .close → ∀ m, s.taking c = some m →
      (s.kernel.object m).owner ≠ some c) : MutexInv ((s.withKernel k').setTaking c none) where
  wf := hk.wf
  parked t ht := hk.parked t (fun e => hr (e ▸ ht)) (h.parked t ht)
  once := h.once
  held t x ho hcl := by
    have h1 : _ = _ ∧ _ = _ := Prod.ext_iff.mp (hk.holds x)
    have h2 := h.held t x (h1.1.symm.trans ho) fun e => hcl (hk.closed t e)
    change (k'.object x).hold = s.depth t x +
      if Function.update s.taking c none t = some x then 1 else 0
    rw [show (k'.object x).hold = _ from h1.2]
    refine h2.trans (congrArg (s.depth t x + ·) ?_)
    by_cases htc : t = c
    · subst htc
      rw [Function.update_self, if_neg fun e => hx hcl x e (h1.1.symm.trans ho),
        if_neg (by simp)]
    · rw [Function.update_of_ne htc]
  owns t x hd := (congrArg Prod.fst (hk.holds x)).trans (h.owns t x hd)
  returned t x hr := by cases hr

/-- **A take succeeds.** -/
theorem returnsOk (h : MutexInv s) {k' : Kernel T O} {c : T} {m : O}
    (hwf : Wf k' (Function.update s.taking c none))
    (hpk : ∀ u, Pending.insert u ∈ s.resumes → Parked k' (Function.update s.taking c none) u)
    (hcl : ∀ u, (s.kernel.thread u).stat = .close → (k'.thread u).stat = .close)
    (hh : ∀ x, ownership k' x =
      if x = m then (some c, s.depth c m + 1) else ownership s.kernel x)
    (hd : ∀ u ≠ c, s.depth u m = 0) (htc : ∀ x ≠ m, s.taking c ≠ some x) :
    MutexInv ((s.withKernel k').takeReturns c m .eok) := by
  have hown : ∀ x, (k'.object x).owner = if x = m then some c else (s.kernel.object x).owner :=
    fun x => by
      have := congrArg Prod.fst (hh x)
      split_ifs at this ⊢ <;> exact this
  have hhold : ∀ x, (k'.object x).hold =
      if x = m then s.depth c m + 1 else (s.kernel.object x).hold := fun x => by
    have := congrArg Prod.snd (hh x)
    split_ifs at this ⊢ <;> exact this
  have hdep : ∀ t x, ((s.withKernel k').takeReturns c m .eok).depth t x =
      if t = c ∧ x = m then s.depth c m + 1 else s.depth t x := fun t x => by
    change Function.update s.depth c (Function.update (s.depth c) m (s.depth c m + 1)) t x = _
    by_cases ht : t = c
    · subst ht
      rw [Function.update_self]
      by_cases hx : x = m
      · subst hx; simp
      · simp [hx]
    · simp [ht]
  refine ⟨hwf, hpk, h.once, fun t x hx hc => ?_, fun t x hx => ?_, fun t x hr => ?_⟩
  · rw [hdep]
    change (k'.object x).hold = _ + if Function.update s.taking c none t = some x then 1 else 0
    have hx' : (k'.object x).owner = some t := hx
    rw [hown] at hx'
    rw [hhold]
    by_cases hxm : x = m
    · rw [if_pos hxm] at hx' ⊢
      obtain rfl := Option.some.inj hx'
      simp [hxm]
    · rw [if_neg hxm] at hx' ⊢
      rw [if_neg fun e => hxm e.2]
      refine (h.held t x hx' fun e => hc (hcl t e)).trans (congrArg (s.depth t x + ·) ?_)
      by_cases htc' : t = c
      · subst htc'; simp [htc x hxm]
      · rw [Function.update_of_ne htc']
  · rw [hdep] at hx
    change (k'.object x).owner = some t
    rw [hown]
    by_cases hxm : x = m
    · subst hxm
      rw [if_pos rfl]
      by_cases htc' : t = c
      · rw [htc']
      · rw [if_neg fun e => htc' e.1] at hx
        exact absurd (hd t htc') hx
    · rw [if_neg hxm]
      rw [if_neg fun e => hxm e.2] at hx
      exact h.owns t x hx
  · obtain ⟨rfl, rfl, -⟩ : c = t ∧ m = x ∧ True := by simpa [MutexState.takeReturns] using hr
    rw [hdep]
    exact ⟨(hown m).trans (if_pos rfl), (hhold m).trans (by simp)⟩

/-- **A release succeeds.** The mutex stays with the thread, is free, or goes to a waiter. -/
theorem releases (h : MutexInv s) {k' : Kernel T O} {c : T} {m : O} {n : Option T} {a : ℕ}
    (hk : Moves s.kernel s.taking k' s.taking m (n, a)) (hc : (s.kernel.thread c).stat ≠ .close)
    (htc : s.taking c = none) (ho : (s.kernel.object m).owner = some c)
    (hn : (n = some c ∧ a = (s.kernel.object m).hold - 1) ∨ ((s.kernel.object m).hold - 1 = 0 ∧
      ∀ next, n = some next → a = 1 ∧ next ≠ c ∧ s.taking next = some m)) :
    MutexInv ((s.withKernel k').setDepth c m (· - 1)) := by
  have hhold : (s.kernel.object m).hold = s.depth c m := by
    have := h.held c m ho hc
    rwa [htc, if_neg (by simp)] at this
  have hnd : ∀ u ≠ c, s.depth u m = 0 := fun u hu => by
    by_contra hne
    exact hu (Option.some.inj ((h.owns u m hne).symm.trans ho))
  have hown : ∀ x, (k'.object x).owner = if x = m then n else (s.kernel.object x).owner :=
    fun x => by
      have := congrArg Prod.fst (hk.holds x)
      split_ifs at this ⊢ <;> exact this
  have hhold' : ∀ x, (k'.object x).hold = if x = m then a else (s.kernel.object x).hold :=
    fun x => by
      have := congrArg Prod.snd (hk.holds x)
      split_ifs at this ⊢ <;> exact this
  have hdep : ∀ t x, ((s.withKernel k').setDepth c m (· - 1)).depth t x =
      if t = c ∧ x = m then s.depth c m - 1 else s.depth t x := fun t x => by
    change Function.update s.depth c (Function.update (s.depth c) m (s.depth c m - 1)) t x = _
    by_cases ht : t = c
    · subst ht
      rw [Function.update_self]
      by_cases hx : x = m
      · subst hx; simp
      · simp [hx]
    · simp [ht]
  refine ⟨hk.wf, fun t ht => hk.parked t (h.parked t ht), h.once, fun t x hx hcl => ?_,
    fun t x hx => ?_, fun t x hr => nomatch hr⟩
  · rw [hdep]
    change (k'.object x).hold = _ + if s.taking t = some x then 1 else 0
    have hx' : (k'.object x).owner = some t := hx
    rw [hown] at hx'
    rw [hhold']
    by_cases hxm : x = m
    · subst hxm
      rw [if_pos rfl] at hx' ⊢
      rcases hn with ⟨rfl, rfl⟩ | ⟨-, hn⟩
      · obtain rfl := Option.some.inj hx'
        rw [if_pos ⟨rfl, rfl⟩, htc, if_neg (by simp), hhold]
        rfl
      · obtain ⟨rfl, hne, hta⟩ := hn t hx'
        rw [if_neg fun e => hne e.1, hnd t hne, if_pos hta]
    · rw [if_neg hxm] at hx' ⊢
      rw [if_neg fun e => hxm e.2]
      exact h.held t x hx' fun e => hcl (hk.closed t e)
  · rw [hdep] at hx
    change (k'.object x).owner = some t
    rw [hown]
    by_cases hxm : x = m
    · subst hxm
      rw [if_pos rfl]
      by_cases htc' : t = c
      · subst htc'
        rw [if_pos ⟨rfl, rfl⟩, ← hhold] at hx
        rcases hn with ⟨rfl, -⟩ | ⟨h0, -⟩
        · rfl
        · exact absurd h0 hx
      · rw [if_neg fun e => htc' e.1] at hx
        exact absurd (hnd t htc') hx
    · rw [if_neg hxm]
      rw [if_neg fun e => hxm e.2] at hx
      exact h.owns t x hx

/-! ## The steps -/

theorem take (h : MutexInv s) {m : O} {timeout : ℤ} {flag : SuspendFlag}
    (hs : mutexStep fuel s (.take m timeout flag) = some s') : MutexInv s' := by
  simp only [mutexStep] at hs
  split_ifs at hs with hm
  obtain ⟨c, hc, hs⟩ := Option.bind_eq_some_iff.mp hs
  obtain ⟨⟨r, k'⟩, hr, hs⟩ := Option.bind_eq_some_iff.mp hs
  obtain ⟨-, hrun, htc⟩ := MutexState.self_eq hc
  obtain ⟨k₀, hk₀⟩ : ∃ k₀, k₀ = s.kernel.setThread c fun th => { th with error := .eok } :=
    ⟨_, rfl⟩
  have h0 : Keeps s.kernel s.taking k₀ s.taking := hk₀ ▸ Keeps.setSelf h.wf hrun htc (fun th => { th with error := .eok }) fun _ => ⟨rfl, rfl, rfl⟩
  have hrun₀ : (k₀.thread c).stat = .running := by rw [hk₀, setThread_self]; exact hrun
  have herr₀ : (k₀.thread c).error = .eok := by rw [hk₀, setThread_self]
  have hobj₀ : k₀.object = s.kernel.object := by rw [hk₀]; rfl
  have hup : Function.update s.taking c none = s.taking := by rw [← htc, Function.update_eq_self]
  have hncl : (s.kernel.thread c).stat ≠ .close := by rw [hrun]; simp
  have hok : ∀ {k' : Kernel T O} {a : ℕ}, Moves s.kernel s.taking k' s.taking m (some c, a) →
      a = s.depth c m + 1 → (∀ u ≠ c, s.depth u m = 0) →
      MutexInv ((s.withKernel k').takeReturns c m .eok) := by
    intro k' a hk ha hd
    refine h.returnsOk (by rw [hup]; exact hk.wf)
      (fun u hu => by rw [hup]; exact hk.parked u (h.parked u hu)) hk.closed
      (fun x => by rw [hk.holds, ha]) hd fun x _ => by rw [htc]; simp
  have hfail : ∀ {k' : Kernel T O} {e : Err}, Keeps s.kernel s.taking k' s.taking → e ≠ .eok →
      MutexInv ((s.withKernel k').takeReturns c m e) := by
    intro k' e hk he
    have h1 := h.keeps hk
    have hret : (s.withKernel k').takeReturns c m e =
        { s.withKernel k' with returned := some (c, m, e) } := by
      simp [MutexState.takeReturns, MutexState.withKernel, he, hup]
    rw [hret]
    refine ⟨h1.wf, h1.parked, h1.once, h1.held, h1.owns, fun t x hr => ?_⟩
    simp at hr
    exact absurd hr.2.2 he
  have hdepth : ∀ u ≠ c, ((s.kernel.object m).owner = none ∨ (s.kernel.object m).owner = some c) →
      s.depth u m = 0 := fun u hu ho => by
    by_contra hne
    have := h.owns u m hne
    rcases ho with ho | ho
    · rw [ho] at this; cases this
    · exact hu (Option.some.inj (this.symm.trans ho))
  rcases mutexTake_cases hr hk₀ with ⟨ho, rfl, hk'⟩ | ⟨ho, rfl, rfl⟩ | ⟨-, rfl, rfl⟩ |
    ⟨o, ho, hoc, ⟨rfl, rfl⟩ | ⟨-, hk'⟩⟩
  · cases hs
    have h1 := Keeps.mutexTakeFree h0.wf hrun₀ htc (by rw [hobj₀]; exact hm)
      (by rw [hobj₀]; exact ho) hk'
    refine hok (h0.moves h1) ?_ fun u hu => hdepth u hu (.inl ho)
    have : s.depth c m = 0 := by
      by_contra hne
      have := h.owns c m hne
      rw [ho] at this
      cases this
    rw [this]
  · cases hs
    refine hok (a := (s.kernel.object m).hold + 1) ⟨h0.wf.setObject m _ fun _ => ⟨rfl, rfl, rfl⟩,
      fun u hu => ⟨(h0.parked u hu).suspended, (h0.parked u hu).free, hu.outside,
        (h0.parked u hu).timer⟩, h0.closed, fun x => ?_⟩ ?_ fun u hu => hdepth u hu (.inr ho)
    · by_cases hx : x = m
      · subst hx; rw [ownership, setObject_self, if_pos rfl, hobj₀, ho]
      · rw [ownership, setObject_of_ne _ hx, if_neg hx, hobj₀]; rfl
    · have := h.held c m ho hncl
      rw [htc, if_neg (by simp)] at this
      rw [this]
  · cases hs
    exact hfail h0 (by simp)
  · cases hs
    exact hfail (h0.trans (Keeps.setSelf h0.wf hrun₀ htc _ fun _ => ⟨rfl, rfl, rfl⟩)) (by simp)
  · obtain ⟨rfl, h1⟩ := Keeps.mutexTakeWait h0.wf hrun₀ htc (by rw [hobj₀]; exact hm) herr₀
      (by rw [hobj₀]; exact ho) hoc hk'
    cases hs
    exact h.blocks (h0.trans h1) htc fun e => hoc (Option.some.inj (ho.symm.trans e))

theorem takeResume (h : MutexInv s) (hs : mutexStep fuel s .takeResume = some s') :
    MutexInv s' := by
  obtain ⟨c, -, hs⟩ := Option.bind_eq_some_iff.mp hs
  obtain ⟨m, htc, hs⟩ := Option.bind_eq_some_iff.mp hs
  split_ifs at hs with hrun
  obtain ⟨⟨e, k'⟩, hr, rfl⟩ := Option.map_eq_some_iff.mp hs
  obtain ⟨h1, he⟩ := Keeps.mutexTakeResume h.wf hrun htc hr
  have hnr : Pending.insert c ∉ s.resumes := fun hm => by
    have := (h.parked c hm).suspended
    rw [hrun] at this
    cases this
  by_cases hok : e = .eok
  · subst hok
    have ho := he.mp rfl
    have hhold := h.held c m ho (by rw [hrun]; simp)
    rw [if_pos htc] at hhold
    refine h.returnsOk h1.wf (fun u hu => h1.parked u (fun e => hnr (e ▸ hu)) (h.parked u hu))
      h1.closed (fun x => ?_) (fun u hu => ?_) fun x hx e =>
        hx (Option.some.inj (htc.symm.trans e)).symm
    · rw [h1.holds]
      split_ifs with hx
      · subst hx; exact Prod.ext ho hhold
      · rfl
    · by_contra hne
      exact hu (Option.some.inj ((h.owns u m hne).symm.trans ho))
  · have h2 := h.ends h1 hnr fun _ x hx e => hok (he.mpr (by
      rw [htc] at hx
      rw [Option.some.inj hx]; exact e))
    unfold MutexState.takeReturns
    rw [if_neg hok]
    refine ⟨h2.wf, h2.parked, h2.once, h2.held, h2.owns, fun t x hr => ?_⟩
    simp at hr
    exact absurd hr.2.2 hok

theorem release (h : MutexInv s) {m : O} (hs : mutexStep fuel s (.release m) = some s') :
    MutexInv s' := by
  simp only [mutexStep] at hs
  split_ifs at hs with hm
  obtain ⟨c, hc, rfl⟩ := Option.map_eq_some_iff.mp hs
  obtain ⟨-, hrun, htc⟩ := MutexState.self_eq hc
  have hncl : (s.kernel.thread c).stat ≠ .close := by rw [hrun]; simp
  obtain ⟨r, k', hr⟩ : ∃ r k', s.kernel.mutexRelease c m = (r, k') := ⟨_, _, rfl⟩
  rw [hr]
  dsimp only
  rcases mutexRelease_cases hr with ⟨-, rfl, rfl⟩ | ⟨ho, rfl, -, rfl⟩ | ⟨ho, rfl, h0, k₂, hk₂, hk'⟩
  · rw [if_neg (by simp)]
    exact h.keeps (Keeps.setSelf h.wf hrun htc _ fun _ => ⟨rfl, rfl, rfl⟩)
  · rw [if_pos rfl]
    refine h.releases (n := some c) (a := (s.kernel.object m).hold - 1) ⟨h.wf.setObject m _ fun _ => ⟨rfl, rfl, rfl⟩,
      fun u hu => ⟨hu.suspended, hu.free, hu.outside, hu.timer⟩, fun _ hu => hu, fun x => ?_⟩
      hncl htc ho (.inl ⟨rfl, rfl⟩)
    by_cases hx : x = m
    · subst hx; rw [ownership, setObject_self, if_pos rfl, ho]
    · rw [ownership, setObject_of_ne _ hx, if_neg hx]; rfl
  · rw [if_pos rfl]
    have hl : Linked (s.kernel.releaseTaken m) :=
      (h.wf.linked.setObject m _).congr _ rfl (fun _ => rfl) rfl
    obtain ⟨hl₂, ha⟩ : Linked k₂ ∧ Alike (s.kernel.releaseTaken m) k₂ := by
      rcases hk₂ with rfl | ⟨rfl, -⟩
      · exact ⟨hl.changePriority c _, changePriority_alike hl c _⟩
      · exact ⟨hl, .refl _⟩
    obtain ⟨n, a, h1, h2⟩ := Keeps.mutexReleaseLast h.wf hrun htc hm ho hl₂ ha hk'
    exact h.releases h1 hncl htc ho (.inr ⟨h0, h2⟩)

/-- **A section of an `rt_thread_resume` in flight.** -/
theorem proceed (h : MutexInv s) {a : Pending T} (hok : resumeOk s (.proceed a) = true)
    (hs : mutexStep fuel s (.proceed a) = some s') : MutexInv s' := by
  simp only [mutexStep] at hs
  split_ifs at hs with ha
  cases hs
  have herase : ∀ u, Pending.insert u ∈ s.resumes.erase a → Pending.insert u ∈ s.resumes :=
    fun u hu => List.mem_of_mem_erase hu
  have hcount : ∀ u, (s.resumes.erase a).count (.insert u) ≤ 1 := fun u =>
    (List.erase_sublist.count_le _).trans (h.once u)
  cases a with
  | check t =>
    have h1 := h.keeps (Keeps.refl h.wf)
    refine ⟨h1.wf, fun u hu => ?_, fun u => ?_, h1.held, h1.owns, fun _ _ hr => nomatch hr⟩
    · refine h.parked u (herase u ?_)
      simp only [resumeSection, List.mem_append] at hu
      refine hu.resolve_left fun hm => ?_
      split_ifs at hm <;> simp at hm
    · simp only [resumeSection, List.count_append]
      have : (if (s.kernel.thread t).stat.isSuspend = true then [Pending.unlink t] else []).count
          (Pending.insert u) = 0 := by split_ifs <;> simp
      rw [this, Nat.zero_add]
      exact hcount u
  | unlink t =>
    simp only [resumeOk, Bool.and_eq_true, decide_eq_true_eq] at hok
    obtain ⟨⟨hsus, htk⟩, hnot⟩ := hok
    obtain ⟨h1, h2⟩ := Keeps.resumeUnlink h.wf hsus htk
    have h3 := h.keeps h1
    refine ⟨h3.wf, fun u hu => ?_, fun u => ?_, h3.held, h3.owns, fun _ _ hr => nomatch hr⟩
    · simp only [resumeSection, List.cons_append, List.nil_append, List.mem_cons] at hu
      rcases hu with hu | hu
      · rw [Pending.insert.inj hu]; exact h2
      · exact h3.parked u (herase u hu)
    · simp only [resumeSection, List.cons_append, List.nil_append]
      by_cases hut : u = t
      · subst hut
        rw [List.count_cons_self, List.count_eq_zero.mpr fun hm => hnot (herase u hm)]
      · rw [List.count_cons_of_ne fun e => hut (Pending.insert.inj e).symm]
        exact hcount u
  | insert t =>
    have hp := h.parked t ha
    obtain ⟨h1, h2, h3⟩ := Keeps.resumeInsert h.wf hp
    have hgone : Pending.insert t ∉ s.resumes.erase (.insert t) := by
      rw [← List.count_eq_zero, List.count_erase_self]
      have := h.once t
      omega
    refine ⟨h1, fun u hu => ?_, hcount, fun u x hx hc => ?_, fun u x hx => ?_,
      fun _ _ hr => nomatch hr⟩
    · have hut : u ≠ t := fun e => hgone (e ▸ hu)
      exact h2 u hut (h.parked u (herase u hu))
    · change (_ : ℕ) = s.depth u x + if s.taking u = some x then 1 else 0
      simp only [resumeSection, MutexState.withKernel, scheduleInsertThread_object] at hx ⊢
      exact h.held u x hx fun e => hc (h3 u e)
    · simp only [resumeSection, MutexState.withKernel, scheduleInsertThread_object]
      exact h.owns u x hx

/-- A resume or startup begins. -/
theorem push (h : MutexInv s) (t : T) : MutexInv (s.push (.check t)) := by
  refine ⟨h.wf, fun u hu => h.parked u ?_, fun u => ?_, h.held, h.owns, h.returned⟩
  · exact (List.mem_cons.mp hu).resolve_left fun e => nomatch e
  · change (Pending.check t :: s.resumes).count (.insert u) ≤ 1
    rw [List.count_cons_of_ne (by simp)]
    exact h.once u

theorem detachThread (h : MutexInv s) {t : T} (hok : resumeOk s (.detachThread t) = true)
    (hs : mutexStep fuel s (.detachThread t) = some s') : MutexInv s' := by
  obtain ⟨k', hk', rfl⟩ := Option.map_eq_some_iff.mp hs
  obtain ⟨h1, hc⟩ := Keeps.threadDetach h.wf hk'
  exact h.ends h1 (of_decide_eq_true hok) fun hnc => absurd hc hnc

end MutexInv

/-- **Every step keeps the invariant.** -/
theorem mutexStep_inv {a : MutexLabel T O} (h : MutexInv s) (hok : resumeOk s a = true)
    (hs : mutexStep fuel s a = some s') : MutexInv s' := by
  cases a with
  | start =>
    simp only [mutexStep] at hs
    split_ifs at hs
    obtain ⟨k', hk', rfl⟩ := Option.map_eq_some_iff.mp hs
    exact h.keeps (.dispatched h.wf (systemSchedulerStart_dispatched h.wf.linked hk'))
  | schedule =>
    obtain ⟨k', hk', rfl⟩ := Option.map_eq_some_iff.mp hs
    exact h.keeps (.dispatched h.wf (rtSchedule_dispatched h.wf.linked hk'))
  | yield =>
    obtain ⟨c, -, rfl⟩ := Option.map_eq_some_iff.mp hs
    exact h.keeps (.dispatched h.wf (threadYield_dispatched h.wf.linked c))
  | startup t =>
    simp only [mutexStep] at hs
    split_ifs at hs with hi
    cases hs
    exact (h.keeps (Keeps.startupStore h.wf hi)).push t
  | resume t => cases hs; exact (h.keeps (.refl h.wf)).push t
  | proceed a => exact h.proceed hok hs
  | suspend flag =>
    obtain ⟨c, hc, rfl⟩ := Option.map_eq_some_iff.mp hs
    obtain ⟨-, hrun, htc⟩ := MutexState.self_eq hc
    rw [threadSuspend_eq hrun]
    exact h.keeps (Keeps.suspendSelf h.wf hrun htc flag)
  | sleep =>
    obtain ⟨c, hc, rfl⟩ := Option.map_eq_some_iff.mp hs
    obtain ⟨-, hrun, htc⟩ := MutexState.self_eq hc
    exact h.keeps (Keeps.threadSleep h.wf hrun htc)
  | timeout t =>
    simp only [mutexStep] at hs
    split_ifs at hs with ht
    cases hs
    exact h.keeps (Keeps.threadTimeout h.wf ht.2 ht.1)
  | changePriority t p =>
    cases hs
    exact h.keeps (.alike h.wf (h.wf.linked.changePriority t p)
      (changePriority_alike h.wf.linked t p))
  | take m timeout flag => exact h.take hs
  | takeResume => exact h.takeResume hs
  | release m => exact h.release hs
  | setprioceiling m p =>
    simp only [mutexStep] at hs
    split_ifs at hs
    obtain ⟨k', hk', rfl⟩ := Option.map_eq_some_iff.mp hs
    exact h.keeps (Keeps.mutexSetprioceiling h.wf hk')
  | detachMutex m =>
    simp only [mutexStep] at hs
    split_ifs at hs with hm
    cases hs
    exact h.keeps (Keeps.mutexDetach h.wf hm)
  | detachThread t => exact h.detachThread hok hs
  | ipcWait o timeout flag =>
    simp only [mutexStep] at hs
    split_ifs at hs with ho
    obtain ⟨c, hc, rfl⟩ := Option.map_eq_some_iff.mp hs
    obtain ⟨-, hrun, htc⟩ := MutexState.self_eq hc
    have h1 := h.keeps (Keeps.ipcWait h.wf hrun htc ho timeout flag)
    exact ⟨h1.wf, h1.parked, h1.once, h1.held, h1.owns, h1.returned⟩
  | ipcWake o =>
    simp only [mutexStep] at hs
    split_ifs at hs with ho
    obtain ⟨k', hk', rfl⟩ := Option.map_eq_some_iff.mp hs
    unfold ipcListResume at hk'
    split at hk'
    · cases hk'
    · next t l hl =>
      cases hk'
      have ht : t ∈ s.kernel.waiters o := by rw [waiters, hl]; exact List.mem_cons_self
      exact h.keeps (Keeps.ipcResumeThread h.wf ho ht .eok)
  | eventWake o t =>
    simp only [mutexStep] at hs
    split_ifs at hs with ho
    cases hs
    exact h.keeps (Keeps.ipcResumeThread h.wf (by rw [ho.1]; simp) ho.2 .eok)

theorem Kernel.linked_initial (priority : T → ℕ) (object : O → IpcObject T) :
    Linked (Kernel.initial priority object) where
  linked := ⟨fun _ => none, fun _ => List.nodup_nil, fun _ _ => by simp [Kernel.initial]⟩
  fits h := nomatch h
  current h := nomatch h

theorem MutexInit.inv (h : MutexInit s) : MutexInv s := by
  obtain ⟨priority, object, hk, -, hobj⟩ := h.kernel
  have hown : ∀ m, (s.kernel.object m).owner = none := fun m => by rw [hk]; exact (hobj m).1
  have hwait : ∀ m, s.kernel.waiters m = [] := fun m => by rw [hk]; rfl
  refine ⟨⟨?_, fun t m => ?_, fun t => ?_, fun m hm => ?_, fun t m _ ht => ?_, fun t m hp => ?_,
    fun t m ht => ?_, fun t m ht => ?_, fun t m ht => ?_, fun t m _ ht => ?_⟩, fun t ht => ?_,
    fun t => ?_, fun t m ho => ?_, fun t m hd => ?_, fun t m hr => ?_⟩
  · rw [hk]; exact linked_initial priority object
  · rw [hown, hk]; simp [Kernel.initial, Thread.initial]
  · rw [hk]; exact List.nodup_nil
  · rw [hk] at hm ⊢
    change (object m).flag = _
    rw [(hobj m).2 hm]; rfl
  · rw [hwait] at ht; cases ht
  · rw [hk] at hp; cases hp
  · rw [h.taking] at ht; cases ht
  · rw [h.taking] at ht; cases ht
  · rw [h.taking] at ht; cases ht
  · rw [hwait] at ht; cases ht
  · rw [h.resumes] at ht; cases ht
  · rw [h.resumes]; exact Nat.zero_le _
  · rw [hown] at ho; cases ho
  · exact absurd (h.depth t m) hd
  · rw [h.returned] at hr; cases hr

/-- **Ownership in every run** whose resumes act on threads outside `_rt_mutex_take`. -/
theorem ownership_invariant (hs : (mutexSystem T O fuel).Reach resumeOk s) : OwnershipOk s :=
  (hs.invariant (fun _ => MutexInit.inv) fun _ _ _ => mutexStep_inv).ok

/-! ## A resume of a waiting thread -/

/-- Two threads of priorities 10 and 5, and a mutex. -/
def oneMutex : MutexState (Fin 2) Unit where
  kernel := .initial (fun t => if t = 0 then 10 else 5) fun _ => .mutexInit
  taking _ := none
  resumes := []
  depth _ _ := 0
  returned := none
  waiting _ := none

theorem oneMutex_init : MutexInit oneMutex :=
  ⟨⟨_, _, rfl, by decide, fun _ => ⟨rfl, fun _ => rfl⟩⟩, fun _ => rfl, rfl, fun _ _ => rfl, rfl,
    fun _ => rfl⟩

/-- The steps of `rt_thread_startup` and `rt_thread_resume` after the first. -/
def resumeTrace {T O : Type} (t : T) : List (MutexLabel T O) :=
  [.proceed (.check t), .proceed (.unlink t), .proceed (.insert t)]

/-- Thread 0 takes the mutex, thread 1 starts, preempts it and waits for the mutex. -/
def contendedTrace : List (MutexLabel (Fin 2) Unit) :=
  [.startup 0] ++ resumeTrace 0 ++ [.start, .take () (-1) .uninterruptible, .startup 1] ++
    resumeTrace 1 ++ [.schedule, .take () (-1) .uninterruptible, .schedule]

/-- The waiting thread gets the mutex when it is released. -/
theorem ownershipOk_witness : ∃ s, (mutexSystem (Fin 2) Unit 4).Reach resumeOk s ∧
    s.returned = some (1, (), .eok) ∧ OwnershipOk s := by
  obtain ⟨s, hs, hp⟩ := System.exists_reach (mutexSystem (Fin 2) Unit 4) resumeOk
    (fun s => s.returned = some (1, (), .eok)) oneMutex_init
    (contendedTrace ++ [.release (), .schedule, .takeResume]) (by decide +kernel)
  exact ⟨s, hs, by simpa using hp, ownership_invariant hs⟩

/-- **A waiting thread that is resumed returns `RT_EOK` without the mutex.** -/
theorem ownershipOk_counterexample :
    ∃ s, (mutexSystem (Fin 2) Unit 4).Reach System.anyStep s ∧ ¬ OwnershipOk s := by
  obtain ⟨s, hs, hp⟩ := System.exists_reach (mutexSystem (Fin 2) Unit 4) System.anyStep
    (fun s => s.returned = some (1, (), .eok) ∧ (s.kernel.object ()).owner = some 0) oneMutex_init
    (contendedTrace ++ [.resume 1] ++ resumeTrace 1 ++ [.yield, .schedule, .takeResume])
    (by decide +kernel)
  obtain ⟨hr, ho⟩ := of_decide_eq_true hp
  refine ⟨s, hs, fun h => ?_⟩
  have := (h.returned 1 () hr).1
  rw [ho] at this
  exact absurd this (by decide)

end RtThread
