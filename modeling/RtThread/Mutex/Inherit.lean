import RtThread.Mutex.Exact

/-!
# Every function keeps the priorities exact

* `ExactBut.update`: what a step has to show when it lengthens no suspend list;
* one lemma for each function of `ipc.c` that writes to mutexes, under the condition that its
  shortcut is right: `leaveOk`, `handOverOk`, `detachOk`.
-/

set_option linter.unusedSectionVars false

namespace RtThread

open Kernel

variable {T O : Type} [DecidableEq T] [DecidableEq O] {k k' k₁ : Kernel T O}
  {taking : T → Option O} {c t u : T} {m o : O} {P P' : O → Prop} {x x' : Option T}

theorem Wf.chain (h : Wf k taking) : Chain k where
  linked := h.linked
  pendingLinked := h.pendingLinked
  waiting t m hm ht := (h.waiting t m hm ht).1
  owned t m hm := ((h.owned t m).mp hm).1
  prioFlag := h.prioFlag

namespace Kernel

theorem threadGetMutexPriority_congr (hi : (k'.thread u).initPriority = (k.thread u).initPriority)
    (ht : (k'.thread u).takenObjectList = (k.thread u).takenObjectList)
    (ho : ∀ o ∈ (k.thread u).takenObjectList, k'.inherited o = k.inherited o) :
    k'.threadGetMutexPriority u = k.threadGetMutexPriority u := by
  rw [threadGetMutexPriority_eq, threadGetMutexPriority_eq, hi, ht]
  exact leastOver_congr ho

theorem headPriority_congr (hw : k'.waiters o = k.waiters o)
    (hp : ∀ u, k'.prioOf u = k.prioOf u) : k'.headPriority o = k.headPriority o := by
  unfold headPriority
  rw [hw, funext hp]

theorem Settled.of_alike (h : Settled k' o) (ha : Alike k k') : Settled k o := fun t ht =>
  (ha.waiters o t).mp (h t ((ha.pending t).trans ht))

/-- **Steps that lengthen no suspend list of a mutex and change no priority of a thread.** -/
theorem ExactBut.update (h : ExactBut k P x none) (k' : Kernel T O)
    (hth : ∀ u, k'.prioOf u = k.prioOf u ∧
      (k'.thread u).initPriority = (k.thread u).initPriority)
    (hw : ∀ o, (k'.object o).type = .mutex →
      (k.object o).type = .mutex ∧ (k'.waiters o).Sublist (k.waiters o))
    (hprio : ∀ u, x' ≠ some u → k.prioOf u = k'.threadGetMutexPriority u)
    (hmutex : ∀ o, (k'.object o).type = .mutex → P' o →
      (k'.object o).priority = k'.headPriority o)
    (hle : ∀ o, (k'.object o).type = .mutex →
      (k'.object o).priority ≤ 0xff ∧ (k'.object o).ceilingPriority ≤ 0xff) :
    ExactBut k' P' x' none := by
  have hp : k'.prioOf = k.prioOf := funext fun u => (hth u).1
  refine ⟨fun u hu => ?_, fun o ho hP _ => hmutex o ho hP, fun o ho => ?_, fun u => ?_, hle⟩
  · rw [hp]; exact hprio u hu
  · unfold OrderedBut
    rw [hp]; exact List.Pairwise.sublist (hw o ho).2 (h.sorted o (hw o ho).1)
  · rw [hp, (hth u).2]; exact h.bound u

/-- Handing a mutex over, or giving it up, leaves the other mutexes to the same threads. -/
theorem not_mem_taken (h : Wf k taking) (ho : (k.object m).owner ≠ some u) :
    m ∉ (k.thread u).takenObjectList := fun hm => ho ((h.owned u m).mp hm).1

/-! ## Taking a mutex -/

/-- A take of a free mutex, with the change of priority last. -/
theorem takenInsert_changePriority (hc : (k.thread c).stat = .running) (p : ℕ) :
    (k.threadChangePriority c p).takenInsert c m =
      (k.takenInsert c m).threadChangePriority c p := by
  have hs : ((k.takenInsert c m).thread c).stat = .running := by
    rw [takenInsert, setThread_self]; exact hc
  unfold threadChangePriority
  rw [if_neg (by rw [hc]; simp), if_neg (by rw [hs]; simp), takenInsert, takenInsert,
    setThread_setThread, setThread_setThread]
  rfl

theorem Exact.mutexTakeFree (h : Exact k) (hw : Wf k taking) (hc : (k.thread c).stat = .running)
    (hm : (k.object m).type = .mutex) (ho : (k.object m).owner = none) {fuel : ℕ}
    {flag : SuspendFlag} (hr : k.mutexTakeFree fuel c m flag = some k') : Exact k' := by
  obtain ⟨k₁, hk₁⟩ : ∃ k₁, k₁ = (k.takeObject c m).takenInsert c m := ⟨_, rfl⟩
  have hl : Linked k₁ := hk₁ ▸ (hw.linked.setObject m _).setThread c _ rfl
  have hrun : (k₁.thread c).stat = .running := by
    rw [hk₁, takenInsert, setThread_self]; exact hc
  have hobj : ∀ o, k₁.object o = if o = m then
      { k.object m with owner := some c, priority := 0xff, hold := 1 } else k.object o := by
    intro o
    rw [hk₁]
    change (k.takeObject c m).object o = _
    unfold takeObject
    split_ifs with hom
    · rw [hom, setObject_self]
    · rw [setObject_of_ne _ hom]
  have hth : ∀ u, (k₁.thread u).currentPriority = (k.thread u).currentPriority ∧
      (k₁.thread u).initPriority = (k.thread u).initPriority ∧
      (k₁.thread u).pendingObject = (k.thread u).pendingObject := by
    intro u
    rw [hk₁, takenInsert]
    by_cases hu : u = c
    · rw [hu, setThread_self]; exact ⟨rfl, rfl, rfl⟩
    · rw [setThread_of_ne _ hu]; exact ⟨rfl, rfl, rfl⟩
  have hinh : ∀ u, ∀ o ∈ (k.thread u).takenObjectList, k₁.inherited o = k.inherited o := by
    intro u o hou
    have hom : o ≠ m := fun e => not_mem_taken hw (by rw [ho]; simp) (e ▸ hou)
    rw [inherited, hobj, if_neg hom]; rfl
  have h1 : ExactBut k₁ (Settled k₁) (some c) none := by
    refine h.update k₁ (fun u => ⟨(hth u).1, (hth u).2.1⟩) (fun o hom => ?_) (fun u hu => ?_)
      (fun o hom hs => ?_) fun o hom => ?_
    · rw [hobj] at hom
      refine ⟨?_, by rw [hk₁]; exact List.Sublist.refl _⟩
      split_ifs at hom with e
      · rw [e]; exact hm
      · exact hom
    · have huc : u ≠ c := fun e => hu (by rw [e])
      refine (h.prio u (by simp)).trans (threadGetMutexPriority_congr (hth u).2.1 ?_ (hinh u)).symm
      rw [hk₁, takenInsert, setThread_of_ne _ huc]; rfl
    · have hhead : k₁.headPriority o = k.headPriority o :=
        headPriority_congr (by rw [hk₁]; rfl) fun u => (hth u).1
      rw [hhead]
      rw [hobj] at hom ⊢
      split_ifs at hom ⊢ with e
      · rw [e, headPriority, hw.waiters_nil hm ho]
      · refine h.mutex o hom (fun u hu => ?_) fun _ e => by cases e
        have := hs u (by rw [(hth u).2.2]; exact hu)
        rwa [hk₁] at this
    · rw [hobj] at hom ⊢
      split_ifs at hom ⊢ with e
      · exact ⟨le_rfl, (h.le m hm).2⟩
      · exact h.le o hom
  have hceil : (k.object m).ceilingPriority ≤ 0xff := (h.le m hm).2
  have hprio : (k.thread c).currentPriority ≤ 0xff := (h.bound c).2
  have hform : k₁.threadGetMutexPriority c =
      min (k.object m).ceilingPriority (k.prioOf c) := by
    have htk : (k₁.thread c).takenObjectList = m :: (k.thread c).takenObjectList := by
      rw [hk₁, takenInsert, setThread_self]; rfl
    have hm1 : k₁.inherited m = (k.object m).ceilingPriority := by
      rw [inherited, hobj, if_pos rfl]; exact min_eq_right hceil
    rw [threadGetMutexPriority_eq, htk, leastOver_cons, hm1, leastOver_congr (hinh c),
      (hth c).2.1, ← threadGetMutexPriority_eq, ← h.prio c (by simp)]
  rw [mutexTakeFree_eq hw.linked hc hr]
  split_ifs with hcond
  · rw [takenInsert_changePriority (by exact hc), ← hk₁]
    have h2 := changePriority_exact hl h1 (p := (k.object m).ceilingPriority)
      (by rw [hform]; exact (min_eq_left hcond.2.le).symm)
    refine (h2.stop fun o _ => ?_).mono fun o _ hs => hs.of_alike (changePriority_alike hl c _)
    rw [changePriority_waiters hl]
    exact hl.not_mem_waiters (by rw [hrun]; simp [Stat.isSuspend]) o
  · rw [← hk₁]
    refine h1.close ?_
    rw [hform, show k₁.prioOf c = k.prioOf c from (hth c).1, min_eq_right]
    rw [not_and_or, not_not, not_lt] at hcond
    exact hcond.elim (fun e => by rw [e]; exact hprio) id

/-- The first key after an insertion. -/
theorem headPriority_insert (hw : k'.waiters o = Queues.insertByKey k.prioOf c (k.waiters o))
    (hp : ∀ u, k'.prioOf u = k.prioOf u) (hc : k.prioOf c ≤ 0xff) :
    k'.headPriority o = min (k.prioOf c) (k.headPriority o) := by
  unfold headPriority
  rw [hw]
  cases hl : k.waiters o with
  | nil => exact (hp c).trans (min_eq_left hc).symm
  | cons t l =>
    unfold Queues.insertByKey
    by_cases hlt : k.prioOf c < k.prioOf t
    · rw [if_pos hlt]; exact (hp c).trans (min_eq_left hlt.le).symm
    · rw [if_neg hlt]; exact (hp t).trans (min_eq_right (not_lt.mp hlt)).symm

section
variable (h : Exact k) (hw : Wf k taking) (hc : (k.thread c).stat = .running)
  (htc : taking c = none) (hm : (k.object m).type = .mutex) (flag : SuspendFlag)
include h hw hc htc hm

/-- **A new waiter.** The mutex's priority is raised, and only its owner may be out of date. -/
theorem Exact.waitFor (ho : (k.object m).owner = some t) (htc' : t ≠ c)
    (hce : (k.thread c).error = .eok) (hk₁ : k₁ = k.waitFor c m flag ∧
      ¬ k.prioOf c < (k.object m).priority ∨
      k₁ = ((k.waitFor c m flag).setObject m fun x => { x with priority := k.prioOf c }) ∧
      k.prioOf c < (k.object m).priority) :
    ExactBut k₁ (Settled k₁) (some t) none ∧ Chain k₁ ∧ k₁.prioOf t = k.prioOf t ∧
      k₁.threadGetMutexPriority t = min (k.prioOf c) (k.prioOf t) := by
  have hobj : ∀ o, (k₁.object o).type = (k.object o).type ∧
      (k₁.object o).ceilingPriority = (k.object o).ceilingPriority ∧
      (k₁.object o).priority =
        if o = m then min (k.prioOf c) (k.object m).priority else (k.object o).priority := by
    intro o
    rcases hk₁ with ⟨rfl, hlt⟩ | ⟨rfl, hlt⟩
    · refine ⟨rfl, rfl, ?_⟩
      split_ifs with e
      · rw [e, min_eq_right (not_lt.mp hlt)]; rfl
      · rfl
    · by_cases e : o = m
      · rw [e, setObject_self, if_pos rfl, min_eq_left hlt.le]; exact ⟨rfl, rfl, rfl⟩
      · rw [setObject_of_ne _ e, if_neg e]; exact ⟨rfl, rfl, rfl⟩
  have hthread : k₁.thread = (k.waitFor c m flag).thread := by
    rcases hk₁ with ⟨rfl, -⟩ | ⟨rfl, -⟩ <;> rfl
  have hlist : k₁.list = (k.waitFor c m flag).list := by
    rcases hk₁ with ⟨rfl, -⟩ | ⟨rfl, -⟩ <;> rfl
  have hth : ∀ u, k₁.prioOf u = k.prioOf u ∧
      (k₁.thread u).initPriority = (k.thread u).initPriority ∧
      (k₁.thread u).takenObjectList = (k.thread u).takenObjectList := by
    intro u
    unfold prioOf
    rw [hthread]
    by_cases hu : u = c
    · rw [hu]; simp [Kernel.waitFor, suspendOn_thread]
    · simp [Kernel.waitFor, suspendOn_thread, hu]
  have hpend : ∀ u ≠ c, (k₁.thread u).pendingObject = (k.thread u).pendingObject := by
    intro u hu
    rw [hthread]; simp [Kernel.waitFor, suspendOn_thread, hu]
  have hwait : ∀ o, k₁.waiters o = if o = m then
      Queues.insertByKey k.prioOf c (k.waiters m) else k.waiters o := by
    intro o
    have hpr : (k.suspendSelf c flag).prioOf = k.prioOf := by
      funext u
      unfold prioOf
      by_cases hu : u = c
      · rw [hu]; simp [Kernel.suspendSelf]
      · simp [Kernel.suspendSelf, hu]
    have hf : ((k.suspendSelf c flag).object m).flag = .prio := hw.prioFlag m hm
    rw [waiters, hlist]
    change (k.suspendOn m c flag).waiters o = _
    rw [suspendOn, ipcListInsert_waiters, hf, hpr, suspendSelf_waiters hw.linked hc,
      suspendSelf_waiters hw.linked hc]
  have hinh : ∀ o ≠ m, k₁.inherited o = k.inherited o := by
    intro o hom
    rw [inherited, (hobj o).2.1, (hobj o).2.2, if_neg hom]; rfl
  have hprio : k₁.prioOf = k.prioOf := funext fun u => (hth u).1
  have hset : ∀ o, (k.object o).type = .mutex → Settled k₁ o → Settled k o := by
    intro o hom hs u hu
    have huc : u ≠ c := fun e => hw.pending_none htc hom (e ▸ hu)
    have := hs u (by rw [hpend u huc]; exact hu)
    rw [hwait] at this
    split_ifs at this with e
    · rw [e]; exact (Queues.mem_insertByKey.mp this).resolve_left huc
    · exact this
  have hform : k₁.threadGetMutexPriority t = min (k.prioOf c) (k.prioOf t) := by
    have hinm : k₁.inherited m = min (k.prioOf c) (k.inherited m) := by
      rw [inherited, (hobj m).2.1, (hobj m).2.2, if_pos rfl, min_assoc]; rfl
    rw [h.prio t (by simp), threadGetMutexPriority_eq, threadGetMutexPriority_eq, (hth t).2.1,
      (hth t).2.2]
    exact leastOver_lower ((hw.owned t m).mpr ⟨ho, hm⟩) hinm fun o _ => hinh o
  have hchain : Chain k₁ := by
    have h1 := (hw.waitFor hc htc hm hce ho htc' flag).chain
    rcases hk₁ with ⟨rfl, -⟩ | ⟨rfl, -⟩
    · exact h1
    · exact h1.alike (h1.linked.setObject m _) (setObject_alike m _ rfl)
  refine ⟨⟨fun u hu => ?_, fun o hom hs _ => ?_, fun o hom => ?_, fun u => ?_, fun o hom => ?_⟩,
    hchain, (hth t).1, hform⟩
  · rw [hprio, h.prio u (by simp)]
    refine (threadGetMutexPriority_congr (hth u).2.1 (hth u).2.2 fun o hou => hinh o ?_).symm
    exact fun e => not_mem_taken hw (by rw [ho]; exact hu) (e ▸ hou)
  · rw [(hobj o).1] at hom
    rw [(hobj o).2.2]
    have hold := h.mutex o hom (hset o hom hs) fun _ e => by cases e
    split_ifs with e
    · subst e
      rw [headPriority_insert (by rw [hwait, if_pos rfl]) (fun u => (hth u).1) (h.bound c).2, hold]
    · exact hold.trans (headPriority_congr (by rw [hwait, if_neg e]) fun u => (hth u).1).symm
  · rw [(hobj o).1] at hom
    unfold OrderedBut
    rw [hwait, hprio]
    split_ifs with e
    · exact (Queues.insertByKey_sorted (h.sortedBy hm)).imp fun hab => .inr (.inr hab)
    · exact (h.sortedBy hom).imp fun hab => .inr (.inr hab)
  · rw [hprio, (hth u).2.1]; exact h.bound u
  · rw [(hobj o).1] at hom
    rw [(hobj o).2.1, (hobj o).2.2]
    split_ifs with e
    · exact ⟨(min_le_left _ _).trans (h.bound c).2, e ▸ (h.le o hom).2⟩
    · exact h.le o hom

/-- **Waiting for an owned mutex.** Neither shortcut is wrong. -/
theorem Exact.mutexTakeWait (ho : (k.object m).owner = some t) (htc' : t ≠ c)
    (hce : (k.thread c).error = .eok) {fuel : ℕ} {timeout : ℤ} {r : TakeResult}
    (hr : k.mutexTakeWait fuel c t m timeout flag = some (r, k')) : Exact k' := by
  obtain ⟨-, k₂, hk', hk₂⟩ := mutexTakeWait_cases hc hr
  suffices h2 : Exact k₂ by
    rcases hk' with rfl | rfl
    · exact h2.setThread c _ fun _ => ⟨rfl, rfl, rfl, rfl⟩
    · exact h2
  have hpt : (k.waitFor c m flag).prioOf t = k.prioOf t := by
    simp [Kernel.waitFor, suspendOn_thread, prioOf, htc']
  rcases hk₂ with ⟨hlt, rfl⟩ | ⟨hlt, ⟨hle, rfl⟩ | ⟨hle, hk₂⟩⟩
  · obtain ⟨h1, -, hpr, hform⟩ := h.waitFor hw hc htc hm flag ho htc' hce (.inl ⟨rfl, hlt⟩)
    refine h1.close ?_
    rw [hpr, hform, min_eq_right]
    -- the owner has the priority of the mutex at least
    refine le_trans ?_ (not_lt.mp hlt)
    rw [h.prio t (by simp), threadGetMutexPriority_eq]
    exact (leastOver_le_of_mem ((hw.owned t m).mpr ⟨ho, hm⟩)).trans (min_le_left _ _)
  · obtain ⟨h1, -, hpr, hform⟩ := h.waitFor hw hc htc hm flag ho htc' hce (.inr ⟨rfl, hlt⟩)
    refine h1.close ?_
    rw [hpr, hform, min_eq_right (not_lt.mp (hpt ▸ hle))]
  · obtain ⟨h1, hch, -, hform⟩ := h.waitFor hw hc htc hm flag ho htc' hce (.inr ⟨rfl, hlt⟩)
    have h2 := changePriority_exact hch.linked h1 (p := k.prioOf c)
      (by rw [hform, min_eq_left (hpt ▸ hle).le])
    have ha := changePriority_alike hch.linked t (k.prioOf c)
    have hch2 := hch.alike (hch.linked.changePriority t _) ha
    have ha2 := (updateLoop_alike hch2.linked hch2.pendingLinked hk₂).2
    exact (updateLoop_exact hch2 h2 hk₂).mono fun o _ hs => hs.of_alike (ha.trans ha2)

end

/-- **Leaving `_rt_mutex_take`.** -/
theorem Exact.mutexTakeResume (h : Exact k) (hw : Wf k taking)
    (hc : (k.thread c).stat = .running) (htc : taking c = some m) {fuel : ℕ} {e : Err}
    (hok : (k.thread c).error = .eok ∨ k.leaveOk m c = true)
    (hr : k.mutexTakeResume fuel c m = some (e, k')) : Exact k' := by
  rcases mutexTakeResume_cases hr with ⟨-, -, rfl⟩ | ⟨he, k₁, hk₁, rfl, -⟩
  · exact h
  · have hpc : (k.thread c).pendingObject = some m := by
      refine ((hw.woken c m htc (by rw [hc]; simp [Stat.isSuspend])).resolve_left ?_).2.2
      exact fun h' => he h'.1
    have ha := (mutexWaiterLeft_alike hw.linked hw.pendingLinked hk₁).2
    -- the clean-up of `m` is done, and nothing changed for the other mutexes
    have hset : ∀ o ≠ m, Settled (k₁.setThread c fun th => { th with pendingObject := none }) o →
        Settled k o := by
      intro o hom hs u hu
      have huc : u ≠ c := fun e => hom (Option.some.inj ((e ▸ hu).symm.trans hpc))
      refine (ha.waiters o u).mp (hs u ?_)
      rw [setThread_of_ne _ huc]; exact (ha.pending u).trans hu
    refine (waiterLeft_exact hw.chain h hset (hok.resolve_left he) hk₁).congr _ (fun u => ?_)
      (fun _ => ⟨rfl, rfl, rfl⟩) fun _ _ => rfl
    unfold prioOf
    by_cases hu : u = c
    · rw [hu, setThread_self]; exact ⟨rfl, rfl, rfl⟩
    · rw [setThread_of_ne _ hu]; exact ⟨rfl, rfl, rfl⟩

/-! ## Releasing a mutex -/

section
variable (h : Exact k) (hw : Wf k taking) (hc : (k.thread c).stat = .running)
  (hm : (k.object m).type = .mutex) (ho : (k.object m).owner = some c)
include h hw hc hm ho

/-- The priority of a thread and what it has with the mutex just released. -/
theorem releaseTaken_form : k.prioOf c =
    min (k.inherited m) ((k.releaseTaken m).threadGetMutexPriority c) := by
  have hinh : (k.releaseTaken m).inherited = k.inherited := by
    funext o
    unfold inherited releaseTaken takenRemove
    rw [setObject_apply]
    split_ifs with e
    · rw [e]
    · rfl
  rw [h.prio c (by simp), threadGetMutexPriority_eq, threadGetMutexPriority_eq, hinh,
    leastOver_of_erase ((hw.owned c m).mpr ⟨ho, hm⟩)]
  rfl

theorem releaseTaken_exact : ExactBut (k.releaseTaken m) (Settled k) (some c) none := by
  have hobj : ∀ o, ((k.releaseTaken m).object o).type = (k.object o).type ∧
      ((k.releaseTaken m).object o).priority = (k.object o).priority ∧
      ((k.releaseTaken m).object o).ceilingPriority = (k.object o).ceilingPriority := by
    intro o
    unfold releaseTaken takenRemove
    rw [setObject_apply]
    split_ifs with e
    · rw [e]; exact ⟨rfl, rfl, rfl⟩
    · exact ⟨rfl, rfl, rfl⟩
  refine h.update _ (fun _ => ⟨rfl, rfl⟩) (fun o hom => ⟨(hobj o).1 ▸ hom, List.Sublist.refl _⟩)
    (fun u hu => ?_) (fun o hom hs => ?_) fun o hom => ?_
  · refine (h.prio u (by simp)).trans (threadGetMutexPriority_congr (by rfl) ?_ fun o _ => ?_).symm
    · have hn : m ∉ (k.thread u).takenObjectList := not_mem_taken hw (by rw [ho]; exact hu)
      exact List.erase_of_not_mem hn
    · rw [inherited, (hobj o).2.1, (hobj o).2.2]; rfl
  · rw [(hobj o).1] at hom
    rw [(hobj o).2.1]
    exact h.mutex o hom hs fun _ e => by cases e
  · rw [(hobj o).1] at hom
    rw [(hobj o).2.1, (hobj o).2.2]
    exact h.le o hom

/-- **The releasing thread.** Its shortcut is right. -/
theorem releaseLast_exact {k₂ : Kernel T O} (hk₂ : k₂ = (k.releaseTaken m).threadChangePriority c
      ((k.releaseTaken m).threadGetMutexPriority c) ∨
      (k₂ = k.releaseTaken m ∧ (k.object m).ceilingPriority = 0xff ∧
        k.prioOf c ≠ (k.object m).priority)) : ExactBut k₂ (Settled k) none none := by
  have h1 := releaseTaken_exact h hw hc hm ho
  have hl : Linked (k.releaseTaken m) := (hw.linked.setObject m _).congr _ rfl (fun _ => rfl) rfl
  rcases hk₂ with rfl | ⟨rfl, hce, hne⟩
  · refine (changePriority_exact hl h1 rfl).stop fun o _ => ?_
    rw [changePriority_waiters hl]
    exact hw.linked.not_mem_waiters (by rw [hc]; simp [Stat.isSuspend]) o
  · refine h1.close ?_
    have hform := releaseTaken_form h hw hc hm ho
    have hinh : k.inherited m = (k.object m).priority := by
      rw [inherited, hce]; exact min_eq_left (h.le m hm).1
    change k.prioOf c = _
    rw [hinh] at hform
    rcases min_choice (k.object m).priority ((k.releaseTaken m).threadGetMutexPriority c) with e | e
    · exact absurd (hform.trans e) hne
    · exact hform.trans e

end

/-- Nobody waits, and the mutex is free. -/
theorem ExactBut.free (h : ExactBut k P none none) (hn : ∀ u, m ∉ (k.thread u).takenObjectList)
    (hwm : k.waiters m = []) (hP : ∀ o ≠ m, P' o → P o) :
    ExactBut (k.setObject m fun x => { x with owner := none, priority := 0xff }) P' none none := by
  refine h.update _ (fun _ => ⟨rfl, rfl⟩) (fun o hom => ⟨?_, List.Sublist.refl _⟩)
    (fun u _ => ?_) (fun o hom hs => ?_) fun o hom => ?_
  · rw [setObject_apply] at hom
    split_ifs at hom with e
    · rw [e]; exact hom
    · exact hom
  · refine (h.prio u (by simp)).trans (threadGetMutexPriority_congr (by rfl) (by rfl) fun o hou => ?_).symm
    have e : o ≠ m := fun e => hn u (e ▸ hou)
    unfold inherited
    rw [setObject_apply, if_neg e]
  · rw [setObject_apply] at hom ⊢
    split_ifs at hom ⊢ with e
    · rw [e]
      change 0xff = k.headPriority m
      rw [headPriority, hwm]
    · exact h.mutex o hom (hP o e hs) fun _ e => nomatch e
  · rw [setObject_apply] at hom ⊢
    split_ifs at hom ⊢
    · exact ⟨le_rfl, (h.le m hom).2⟩
    · exact h.le o hom

/-- **The hand-over**, when the new owner is not below the ceiling. -/
theorem ExactBut.handOver {next : T} {rest : List T} (h : ExactBut k P none none) (hk : Linked k)
    (hm : (k.object m).type = .mutex) (hn : ∀ u, m ∉ (k.thread u).takenObjectList)
    (hwm : k.waiters m = next :: rest) (hce : k.prioOf next ≤ (k.object m).ceilingPriority)
    (hP : ∀ o ≠ m, P' o → P o) : ExactBut (k.mutexHandOver m next) P' none none := by
  have hnx : next ∈ k.waiters m := hwm ▸ List.mem_cons_self
  have hself := handOver_thread_self hk hnx
  have hne : ∀ u ≠ next, (k.mutexHandOver m next).thread u = k.thread u :=
    fun u hu => handOver_thread_of_ne hk hnx hu
  have hth : ∀ u, (k.mutexHandOver m next).prioOf u = k.prioOf u ∧
      ((k.mutexHandOver m next).thread u).initPriority = (k.thread u).initPriority := by
    intro u
    unfold prioOf
    by_cases hu : u = next
    · rw [hu, hself]; exact ⟨rfl, rfl⟩
    · rw [hne u hu]; exact ⟨rfl, rfl⟩
  have hrest : (k.mutexHandOver m next).waiters m = rest := by
    rw [handOver_waiters hk hnx, hwm, List.erase_cons_head]
  have hhead : k.prioOf next ≤ (k.mutexHandOver m next).headPriority m ∧
      (k.mutexHandOver m next).headPriority m ≤ 0xff := by
    have hsort := hwm ▸ h.sortedBy hm
    unfold headPriority
    rw [hrest]
    cases rest with
    | nil => exact ⟨(h.bound next).2, le_rfl⟩
    | cons t l =>
      refine ⟨?_, (hth t).1.trans_le (h.bound t).2⟩
      exact ((List.pairwise_cons.mp hsort).1 t List.mem_cons_self).trans_eq (hth t).1.symm
  have hobj := handOver_object hk hnx
  have hinh : ∀ o ≠ m, (k.mutexHandOver m next).inherited o = k.inherited o := fun o e => by
    unfold inherited
    rw [hobj, if_neg e]
  refine h.update _ hth (fun o hom => ⟨?_, ?_⟩) (fun u _ => ?_) (fun o hom hs => ?_) fun o hom => ?_
  · rw [hobj] at hom
    split_ifs at hom with e
    · rw [e]; exact hm
    · exact hom
  · rw [handOver_waiters hk hnx]; exact List.erase_sublist
  · rw [h.prio u (by simp)]
    by_cases hu : u = next
    · -- neither the ceiling nor the next waiter is above the new owner
      subst hu
      have hinm : (k.mutexHandOver m u).inherited m =
          min ((k.mutexHandOver m u).headPriority m) (k.object m).ceilingPriority := by
        rw [inherited, hobj, if_pos rfl]
      rw [threadGetMutexPriority_eq, threadGetMutexPriority_eq, (hth u).2,
        congrArg Thread.takenObjectList hself, leastOver_cons, hinm,
        leastOver_congr fun o ho => hinh o fun e => hn u (e ▸ ho), ← threadGetMutexPriority_eq,
        ← h.prio u (by simp)]
      exact (min_eq_right (le_min hhead.1 hce)).symm
    · refine (threadGetMutexPriority_congr (hth u).2 ?_ fun o hou => ?_).symm
      · rw [hne u hu]
      · exact hinh o fun e => hn u (e ▸ hou)
  · rw [hobj] at hom ⊢
    split_ifs at hom ⊢ with e
    · rw [e]
    · refine (h.mutex o hom (hP o e hs) fun _ e => (by cases e)).trans ?_
      refine (headPriority_congr ?_ fun u => (hth u).1).symm
      rw [handOver_waiters hk hnx]
      exact erase_of_ne hk hnx e
  · rw [hobj] at hom ⊢
    split_ifs at hom ⊢
    · exact ⟨hhead.2, (h.le m hm).2⟩
    · exact h.le o hom

/-- **The last release.** -/
theorem Exact.mutexReleaseLast (h : Exact k) (hw : Wf k taking)
    (hc : (k.thread c).stat = .running) (hm : (k.object m).type = .mutex)
    (ho : (k.object m).owner = some c) (hok : k.handOverOk m = true) {k₂ : Kernel T O}
    (hk₂ : k₂ = (k.releaseTaken m).threadChangePriority c
        ((k.releaseTaken m).threadGetMutexPriority c) ∨
      (k₂ = k.releaseTaken m ∧ (k.object m).ceilingPriority = 0xff ∧
        k.prioOf c ≠ (k.object m).priority))
    (hk' : (∃ next rest, k₂.waiters m = next :: rest ∧ k' = k₂.mutexHandOver m next) ∨
      (k₂.waiters m = [] ∧
        k' = k₂.setObject m fun x => { x with owner := none, priority := 0xff })) : Exact k' := by
  have h2 := releaseLast_exact h hw hc hm ho hk₂
  have hl : Linked (k.releaseTaken m) := (hw.linked.setObject m _).congr _ rfl (fun _ => rfl) rfl
  obtain ⟨hl₂, ha, hwt, hpr⟩ : Linked k₂ ∧ Alike (k.releaseTaken m) k₂ ∧
      (∀ o, k₂.waiters o = k.waiters o) ∧ ∀ u ≠ c, k₂.prioOf u = k.prioOf u := by
    rcases hk₂ with rfl | ⟨rfl, -⟩
    · refine ⟨hl.changePriority c _, changePriority_alike hl c _,
        changePriority_waiters hl c _, fun u hu => ?_⟩
      rw [changePriority_prioOf hl, if_neg hu]; rfl
    · exact ⟨hl, .refl _, fun _ => rfl, fun _ _ => rfl⟩
  have hn : ∀ u, m ∉ (k₂.thread u).takenObjectList := fun u => by
    rw [ha.taken]; exact (hw.takenNodup u).not_mem_erase
  have hpend : ∀ u, (k₂.thread u).pendingObject = (k.thread u).pendingObject := ha.pending
  have hobj : (k₂.object m).type = (k.object m).type ∧
      (k₂.object m).ceilingPriority = (k.object m).ceilingPriority := by
    rw [ha.type, ha.ceiling, releaseTaken, takenRemove, setObject_self]; exact ⟨rfl, rfl⟩
  rcases hk' with ⟨next, rest, hwm, rfl⟩ | ⟨hwm, rfl⟩
  · have hnx : next ∈ k.waiters m := by rw [← hwt, hwm]; exact List.mem_cons_self
    have hnc : next ≠ c := fun e =>
      hw.linked.not_mem_waiters (by rw [hc]; simp [Stat.isSuspend]) m (e ▸ hnx)
    refine h2.handOver hl₂ (hobj.1.trans hm) hn hwm ?_ fun o e hs u hu => ?_
    · unfold handOverOk at hok
      rw [show k.list (.suspend m) = next :: rest from (hwt m).symm.trans hwm] at hok
      rw [hpr next hnc, hobj.2]
      exact of_decide_eq_true hok
    · have hun : u ≠ next := fun e' => e (Option.some.inj
        (hu.symm.trans (e' ▸ (hw.waiting next m hm hnx).1)))
      have hnx₂ : next ∈ k₂.waiters m := hwm ▸ List.mem_cons_self
      have := hs u (by rw [handOver_thread_of_ne hl₂ hnx₂ hun, hpend]; exact hu)
      rw [handOver_waiters hl₂ hnx₂, hwt] at this
      exact List.mem_of_mem_erase this
  · refine h2.free hn hwm fun o e hs u hu => ?_
    have := hs u ((hpend u).trans hu)
    rw [← hwt]; exact this

/-! ## The ceiling, and the ends of mutexes and threads -/

/-- **A new ceiling.** -/
theorem Exact.mutexSetprioceiling (h : Exact k) (hw : Wf k taking)
    (hm : (k.object m).type = .mutex) {fuel p : ℕ}
    (hr : k.mutexSetprioceiling fuel m p = some k') : Exact k' := by
  unfold Kernel.mutexSetprioceiling at hr
  split_ifs at hr with hp
  swap
  · cases hr; exact h
  obtain ⟨k₁, hk₁⟩ : ∃ k₁, k₁ = k.setObject m fun x => { x with ceilingPriority := p } := ⟨_, rfl⟩
  have hobj : ∀ o, k₁.object o = if o = m then { k.object m with ceilingPriority := p }
      else k.object o := fun o => by rw [hk₁, setObject_apply]
  have h1 : ExactBut k₁ (Settled k₁) (k.object m).owner none := by
    refine h.update k₁ (fun u => by rw [hk₁]; exact ⟨rfl, rfl⟩) (fun o hom => ⟨?_, ?_⟩)
      (fun u hu => ?_) (fun o hom hs => ?_) fun o hom => ?_
    · rw [hobj] at hom
      split_ifs at hom with e
      · rw [e]; exact hm
      · exact hom
    · rw [hk₁]; exact List.Sublist.refl _
    · refine (h.prio u (by simp)).trans
        (threadGetMutexPriority_congr (by rw [hk₁]; rfl) (by rw [hk₁]; rfl) fun o hou => ?_).symm
      have e : o ≠ m := fun e => not_mem_taken hw hu (e ▸ hou)
      unfold inherited
      rw [hobj, if_neg e]
    · have hhead : k₁.headPriority o = k.headPriority o := by rw [hk₁]; rfl
      have hs' : Settled k o := by rw [hk₁] at hs; exact hs
      rw [hhead]
      rw [hobj] at hom ⊢
      split_ifs at hom ⊢ with e
      · subst e; exact h.mutex o hm hs' fun _ e => nomatch e
      · exact h.mutex o hom hs' fun _ e => nomatch e
    · rw [hobj] at hom ⊢
      split_ifs at hom ⊢ with e
      · refine ⟨(h.le m hm).1, ?_⟩
        exact hp.le.trans (by decide)
      · exact h.le o hom
  have hc1 : Chain k₁ := by
    rw [hk₁]
    exact (hw.setObject m (fun x => { x with ceilingPriority := p })
      fun _ => ⟨rfl, rfl, rfl⟩).chain
  dsimp only at hr
  rw [setObject_self, ← hk₁] at hr
  cases ho : (k.object m).owner with
  | none =>
    simp only [ho] at hr
    cases hr
    rw [ho] at h1
    exact h1
  | some o =>
    simp only [ho] at hr
    rw [ho] at h1
    have ha := (refreshPriority_alike hc1.linked hc1.pendingLinked hr).2
    exact (refreshPriority_exact hc1 h1 hr).mono fun _ _ hs => hs.of_alike ha

/-- What a wake-up of a waiter leaves alone. -/
theorem Exact.resumeAll (h : Exact k) (hw : Wf k taking) (hm : (k.object m).type = .mutex) :
    Exact (k.ipcListResumeAll m) ∧ ∀ u, (k.ipcListResumeAll m).prioOf u = k.prioOf u ∧
      ((k.ipcListResumeAll m).thread u).initPriority = (k.thread u).initPriority ∧
      ((k.ipcListResumeAll m).thread u).takenObjectList = (k.thread u).takenObjectList := by
  unfold ipcListResumeAll
  generalize hl : k.list (.suspend m) = l
  induction l generalizing k with
  | nil => exact ⟨h, fun _ => ⟨rfl, rfl, rfl⟩⟩
  | cons t l ih =>
    have ht : t ∈ k.waiters m := by rw [waiters, hl]; exact List.mem_cons_self
    have hs := hw.linked.suspend ht
    rw [List.foldl_cons, ipcResumeThread_eq hs]
    have h1 := h.wake (fun o ho hto => (hw.waiting t o ho hto).1) hw.linked
      (fun th => { th with error := .error, threadTimer := false }) fun _ => ⟨rfl, rfl, rfl, rfl⟩
    have hw1 := Keeps.wake hw hs (fun hp => hp.free m ht)
      (fun th => { th with error := .error, threadTimer := false }) (.inr (by simp))
      fun _ => ⟨rfl, rfl, rfl⟩
    have hl1 : (k.wake t fun th => { th with error := .error, threadTimer := false }).waiters m =
        l := by rw [wake_waiters, waiters, hl, List.erase_cons_head]
    obtain ⟨h2, h3⟩ := ih h1 hw1.wf (by rw [wake_object]; exact hm) hl1
    refine ⟨h2, fun u => ?_⟩
    rw [(h3 u).1, (h3 u).2.1, (h3 u).2.2]
    unfold prioOf
    by_cases hu : u = t
    · rw [hu, wake_self]; exact ⟨rfl, rfl, rfl⟩
    · rw [wake_of_ne hu]; exact ⟨rfl, rfl, rfl⟩

/-- **`rt_mutex_detach`**, when the owner keeps its priority. -/
theorem Exact.mutexDetach (h : Exact k) (hw : Wf k taking) (hm : (k.object m).type = .mutex)
    (hok : k.detachOk m = true) : Exact (k.mutexDetach m) := by
  obtain ⟨h1, hth⟩ := h.resumeAll hw hm
  obtain ⟨-, -, hobj1⟩ := Keeps.resumeAll hw hm
  have hobj : ∀ o, (k.mutexDetach m).object o =
      if o = m then { k.object m with type := .null } else k.object o := by
    intro o
    unfold Kernel.mutexDetach
    rw [setObject_apply]
    change (if o = m then { (k.ipcListResumeAll m).object m with type := .null }
      else (k.ipcListResumeAll m).object o) = _
    rw [hobj1]
  have hinh : (k.mutexDetach m).inherited = k.inherited := by
    funext o
    unfold inherited
    rw [hobj]
    split_ifs with e
    · rw [e]
    · rfl
  have htk : ∀ u, ((k.mutexDetach m).thread u).takenObjectList =
      (k.thread u).takenObjectList.erase m := fun u => congrArg (List.erase · m) (hth u).2.2
  have hin : ∀ u, ((k.mutexDetach m).thread u).initPriority = (k.thread u).initPriority :=
    fun u => (hth u).2.1
  refine h1.update _ (fun _ => ⟨rfl, rfl⟩) (fun o hom => ⟨?_, List.Sublist.refl _⟩)
    (fun u _ => ?_) (fun o hom hs => ?_) fun o hom => ?_
  · rw [hobj] at hom
    rw [hobj1]
    split_ifs at hom
    exact hom
  · rw [(hth u).1]
    by_cases hu : (k.object m).owner = some u
    · unfold detachOk at hok
      simp only [hu] at hok
      refine (of_decide_eq_true hok).symm.trans ?_
      have hin' : ((k.mutexDetach m).thread u).initPriority =
          ((k.takenRemove m).thread u).initPriority := hin u
      exact (threadGetMutexPriority_congr hin' (htk u) fun o _ => by rw [hinh]; rfl).symm
    · refine (h.prio u (by simp)).trans
        (threadGetMutexPriority_congr (hin u) ?_ fun o _ => by rw [hinh]).symm
      rw [htk, List.erase_of_not_mem (not_mem_taken hw hu)]
  · rw [hobj] at hom ⊢
    split_ifs at hom ⊢
    have := h1.mutex o (by rw [hobj1]; exact hom) hs fun _ e => nomatch e
    rw [hobj1] at this
    exact this
  · rw [hobj] at hom ⊢
    split_ifs at hom ⊢
    exact h.le o hom

theorem leaveOk_congr (ho : k'.object = k.object) (hw : k'.waiters m = k.waiters m)
    (hth : ∀ u, k'.prioOf u = k.prioOf u ∧
      (k'.thread u).initPriority = (k.thread u).initPriority ∧
      (k'.thread u).takenObjectList = (k.thread u).takenObjectList) :
    k'.leaveOk m t = k.leaveOk m t := by
  have hinh : (k'.mutexUpdatePriority m).inherited = (k.mutexUpdatePriority m).inherited := by
    funext o
    unfold inherited
    rw [mutexUpdatePriority_object, mutexUpdatePriority_object, ho,
      headPriority_congr hw fun u => (hth u).1]
  unfold leaveOk
  rw [ho]
  cases (k.object m).owner with
  | none => rfl
  | some o =>
    have hform : (k'.mutexUpdatePriority m).threadGetMutexPriority o =
        (k.mutexUpdatePriority m).threadGetMutexPriority o :=
      threadGetMutexPriority_congr (hth o).2.1 (hth o).2.2 fun x _ => by rw [hinh]
    dsimp only
    rw [(hth o).1, (hth t).1, hform]

/-- A closed thread that is dropped from its mutex. -/
theorem closed_chain (hw : Wf k taking) {k₁ : Kernel T O}
    (hk₁ : k₁ = (k.threadDetachUnlink t).setThread t fun th =>
      { th with threadTimer := false, stat := .close, yieldFlag := false }) :
    Chain (k₁.listRemove t) := by
  obtain ⟨hl, -, hobj, hne, hself, hmem⟩ := Keeps.closed_kernel hw.linked hk₁
  have hfields : ∀ u, (k₁.thread u).takenObjectList = (k.thread u).takenObjectList ∧
      (k₁.thread u).pendingObject = (k.thread u).pendingObject := fun u => by
    by_cases hu : u = t
    · rw [hu, hself]; exact ⟨rfl, rfl⟩
    · rw [hne u hu]; exact ⟨rfl, rfl⟩
  have hwr : ∀ o u, u ∈ (k₁.listRemove t).waiters o ↔ u ∈ k.waiters o ∧ u ≠ t := fun o u =>
    ((hl.nodup _).mem_erase_iff.trans (and_congr_right fun _ => hmem o u)).trans
      ⟨And.right, fun h => ⟨h.2, h⟩⟩
  refine ⟨hl.unlink t, fun u o hs hpo ho => ?_, fun u o ho hu => ?_, fun u o hu => ?_,
    fun o ho => ?_⟩
  · have hut : u ≠ t := fun e => by
      rw [e, listRemove_thread, hself] at hs
      cases hs
    rw [listRemove_thread, hne u hut] at hs hpo
    rw [listRemove_object, hobj] at ho
    exact (hwr o u).mpr ⟨hw.pendingLinked u o hs hpo ho, hut⟩
  · rw [listRemove_object, hobj] at ho
    rw [listRemove_thread, (hfields u).2]
    exact (hw.waiting u o ho ((hwr o u).mp hu).1).1
  · rw [listRemove_thread, (hfields u).1] at hu
    rw [listRemove_object, hobj]
    exact ((hw.owned u o).mp hu).1
  · rw [listRemove_object, hobj] at ho ⊢
    exact hw.prioFlag o ho

/-- **`rt_thread_detach`**, when the shortcut of the clean-up is right. -/
theorem Exact.threadDetach (h : Exact k) (hw : Wf k taking) {fuel : ℕ}
    (hok : ∀ m, (k.thread t).pendingObject = some m → (k.object m).type = .mutex →
      (k.listRemove t).leaveOk m t = true)
    (hr : k.threadDetach fuel t = some k') : Exact k' := by
  obtain ⟨k₁, hk₁⟩ : ∃ k₁, k₁ = (k.threadDetachUnlink t).setThread t fun th =>
    { th with threadTimer := false, stat := .close, yieldFlag := false } := ⟨_, rfl⟩
  obtain ⟨hl, -, hobj, hne, hself, hmem⟩ := Keeps.closed_kernel hw.linked hk₁
  have hth : ∀ u, k₁.prioOf u = k.prioOf u ∧
      (k₁.thread u).initPriority = (k.thread u).initPriority ∧
      (k₁.thread u).takenObjectList = (k.thread u).takenObjectList ∧
      (k₁.thread u).pendingObject = (k.thread u).pendingObject := by
    intro u
    unfold prioOf
    by_cases hu : u = t
    · rw [hu, hself]; exact ⟨rfl, rfl, rfl, rfl⟩
    · rw [hne u hu]; exact ⟨rfl, rfl, rfl, rfl⟩
  have hwt : ∀ o, k₁.waiters o = (k.waiters o).erase t := by
    intro o
    rw [hk₁]
    change (k.threadDetachUnlink t).waiters o = _
    unfold threadDetachUnlink
    split_ifs with hi
    · rfl
    · exact (List.erase_of_not_mem (hw.linked.unlinked (.inr (not_not.mp hi)) _)).symm
  rcases threadDetach_cases hr hk₁ with ⟨-, rfl⟩ | ⟨-, ⟨hp, rfl⟩ | ⟨m, k₂, hp, hm, hk₂, rfl⟩⟩
  · exact h
  · refine h.same _ hth (fun m => ?_) fun m hm => ?_
    · rw [show (k₁.threadDefunctEnqueue t).object = k.object from hobj]; exact ⟨rfl, rfl, rfl⟩
    · rw [Keeps.defunctEnqueue_waiters, hwt]
      refine List.erase_of_not_mem fun ht => hp m ?_ (hobj ▸ hm)
      rw [(hth t).2.2.2]; exact (hw.waiting t m hm ht).1
  · rw [(hth t).2.2.2] at hp
    rw [hobj] at hm
    have hwr : ∀ o, (k₁.listRemove t).waiters o = (k.waiters o).erase t := fun o => by
      change (k₁.waiters o).erase t = _
      rw [hwt]
      exact List.erase_of_not_mem ((hw.linked.nodup _).not_mem_erase)
    -- only `m` can have lost a waiter
    have hwo : ∀ o ≠ m, (k.object o).type = .mutex → (k₁.listRemove t).waiters o = k.waiters o :=
      fun o hom ho => by
        rw [hwr]
        refine List.erase_of_not_mem fun ht => hom ?_
        exact Option.some.inj ((hw.waiting t o ho ht).1.symm.trans hp)
    have hch := closed_chain hw hk₁
    have h1 : ExactBut (k₁.listRemove t) (fun o => o ≠ m ∧ Settled k o) none none := by
      refine h.update _ (fun u => ⟨(hth u).1, (hth u).2.1⟩) (fun o ho => ⟨?_, ?_⟩)
        (fun u _ => ?_) (fun o ho hs => ?_) fun o ho => ?_
      · rw [listRemove_object, hobj] at ho; exact ho
      · rw [hwr]; exact List.erase_sublist
      · refine (h.prio u (by simp)).trans
          (threadGetMutexPriority_congr (hth u).2.1 (hth u).2.2.1 fun o _ => ?_).symm
        unfold inherited
        rw [hobj]
      · rw [listRemove_object, hobj] at ho ⊢
        refine (h.mutex o ho hs.2 fun _ e => nomatch e).trans ?_
        exact (headPriority_congr (hwo o hs.1 ho) fun u => (hth u).1).symm
      · rw [listRemove_object, hobj] at ho ⊢
        exact h.le o ho
    have hok' : (k₁.listRemove t).leaveOk m t = true := by
      rw [← hok m hp hm]
      exact leaveOk_congr hobj (hwr m) fun u => ⟨(hth u).1, (hth u).2.1, (hth u).2.2.1⟩
    have ha := (mutexWaiterLeft_alike hch.linked hch.pendingLinked hk₂).2
    refine (waiterLeft_exact hch h1 (fun o hom hs => ⟨hom, fun u hu => ?_⟩) hok' hk₂).congr _
      (fun u => ?_) (fun _ => ⟨rfl, rfl, rfl⟩)
      fun o _ => Keeps.defunctEnqueue_waiters t o
    · have hut : u ≠ t := fun e => hom (Option.some.inj ((e ▸ hu).symm.trans hp))
      have := hs u ?_
      · rw [Keeps.defunctEnqueue_waiters] at this
        have := (ha.waiters o u).mp this
        rw [hwr] at this
        exact List.mem_of_mem_erase this
      · rw [threadDefunctEnqueue_thread, setThread_of_ne _ hut, ha.pending, listRemove_thread, (hth u).2.2.2]; exact hu
    · unfold prioOf
      rw [threadDefunctEnqueue_thread]
      by_cases hu : u = t
      · rw [hu, setThread_self]; exact ⟨rfl, rfl, rfl⟩
      · rw [setThread_of_ne _ hu]; exact ⟨rfl, rfl, rfl⟩

end Kernel

end RtThread
