import RtThread.Lib.Least
import RtThread.Mutex.Order
import RtThread.Mutex.Ownership

/-!
# Priority inheritance

`ExactBut k P x y` says that every thread but `x` runs at the least of its initial priority and what it
inherits from its mutexes, that the mutexes in `P` have the priority of their first waiter, and that
the suspend lists of the mutexes are sorted, both but for the waiter `y`.

* `reinsert_exact`, `changePriority_exact`: what one iteration of `_thread_update_priority` does;
* **`updateLoop_exact`**: the loop ends with nothing left out;
* `waiterLeft_exact`: the clean-up of a waiter, under the condition that the shortcut is right.
-/

set_option linter.unusedSectionVars false

namespace RtThread

namespace Kernel

open Queues

variable {T O : Type} [DecidableEq T] [DecidableEq O] {k k' : Kernel T O} {t u c : T} {m o : O}
  {P P' : O → Prop} {x y : Option T}

/-- What the owner of a mutex inherits from it. -/
def inherited (k : Kernel T O) (m : O) : ℕ :=
  min (k.object m).priority (k.object m).ceilingPriority

theorem threadGetMutexPriority_eq (k : Kernel T O) (t : T) : k.threadGetMutexPriority t =
    leastOver (k.thread t).initPriority k.inherited (k.thread t).takenObjectList := by
  unfold threadGetMutexPriority
  rw [← foldl_least]
  refine congrFun (congrFun (congrArg List.foldl ?_) _) _
  funext p m
  have hmin : (if (k.object m).priority < (k.object m).ceilingPriority then (k.object m).priority
      else (k.object m).ceilingPriority) = k.inherited m := by
    unfold inherited
    split_ifs with h
    · exact (min_eq_left h.le).symm
    · exact (min_eq_right (not_lt.mp h)).symm
  dsimp only
  rw [hmin]

/-- The structure that the propagation relies on. -/
structure Chain (k : Kernel T O) : Prop where
  linked : Linked k
  pendingLinked : PendingLinked k
  waiting : ∀ t m, (k.object m).type = .mutex → t ∈ k.waiters m →
    (k.thread t).pendingObject = some m
  owned : ∀ t m, m ∈ (k.thread t).takenObjectList → (k.object m).owner = some t
  prioFlag : ∀ m, (k.object m).type = .mutex → (k.object m).flag = .prio

theorem Chain.alike (h : Chain k) (hl : Linked k') (ha : Alike k k') : Chain k' where
  linked := hl
  pendingLinked := ha.pendingLinked h.pendingLinked
  waiting t m hm ht := by
    rw [ha.pending]
    exact h.waiting t m (ha.type m ▸ hm) ((ha.waiters m t).mp ht)
  owned t m := by rw [ha.taken, ha.owner]; exact h.owned t m
  prioFlag m := by rw [ha.type, ha.flag]; exact h.prioFlag m

/-- Priorities are exact, but for the priority of `x` and the place of the waiter `y`. -/
structure ExactBut (k : Kernel T O) (P : O → Prop) (x y : Option T) : Prop where
  prio : ∀ u, x ≠ some u → k.prioOf u = k.threadGetMutexPriority u
  mutex : ∀ m, (k.object m).type = .mutex → P m → (∀ u, y = some u → u ∉ k.waiters m) →
    (k.object m).priority = k.headPriority m
  sorted : ∀ m, (k.object m).type = .mutex → OrderedBut k y m
  bound : ∀ u, (k.thread u).initPriority ≤ 0xff ∧ k.prioOf u ≤ 0xff
  le : ∀ m, (k.object m).type = .mutex →
    (k.object m).priority ≤ 0xff ∧ (k.object m).ceilingPriority ≤ 0xff

namespace ExactBut

/-- The waiters of a mutex are sorted. -/
theorem sortedBy (h : ExactBut k P x none) (hm : (k.object m).type = .mutex) :
    SortedBy k.prioOf (k.waiters m) := orderedBut_none.mp (h.sorted m hm)

theorem headPriority_le (h : ExactBut k P x y) (m : O) : k.headPriority m ≤ 0xff := by
  unfold headPriority
  split
  · exact le_rfl
  · exact (h.bound _).2

theorem mono (h : ExactBut k P x y)
    (hP : ∀ m, (k.object m).type = .mutex → P' m → P m) : ExactBut k P' x y :=
  ⟨h.prio, fun m hm hp => h.mutex m hm (hP m hm hp), h.sorted, h.bound, h.le⟩

/-- The thread that was left out has its right priority. -/
theorem close (h : ExactBut k P (some u) none) (hu : k.prioOf u = k.threadGetMutexPriority u) :
    ExactBut k P none none := by
  refine ⟨fun v _ => ?_, h.mutex, h.sorted, h.bound, h.le⟩
  by_cases hvu : v = u
  · rw [hvu]; exact hu
  · exact h.prio v fun e => hvu (Option.some.inj e).symm

/-- The chain ends at a thread that waits for no mutex. -/
theorem stop (h : ExactBut k P none (some t))
    (ht : ∀ m, (k.object m).type = .mutex → t ∉ k.waiters m) : ExactBut k P none none := by
  refine ⟨h.prio, fun m hm hp _ => h.mutex m hm hp fun u hu => ?_,
    fun m hm => (h.sorted m hm).stop (ht m hm), h.bound, h.le⟩
  rw [← Option.some.inj hu]; exact ht m hm

/-- Changes that touch neither priorities nor the waiters of mutexes. -/
theorem congr (h : ExactBut k P x y) (k' : Kernel T O)
    (hth : ∀ t, k'.prioOf t = k.prioOf t ∧
      (k'.thread t).initPriority = (k.thread t).initPriority ∧
      (k'.thread t).takenObjectList = (k.thread t).takenObjectList)
    (ho : ∀ m, (k'.object m).type = (k.object m).type ∧
      (k'.object m).priority = (k.object m).priority ∧
      (k'.object m).ceilingPriority = (k.object m).ceilingPriority)
    (hw : ∀ m, (k.object m).type = .mutex → k'.waiters m = k.waiters m) :
    ExactBut k' P x y := by
  have hprio : k'.prioOf = k.prioOf := funext fun t => (hth t).1
  have hinh : k'.inherited = k.inherited := funext fun m => by
    rw [inherited, inherited, (ho m).2.1, (ho m).2.2]
  have hform : ∀ u, k'.threadGetMutexPriority u = k.threadGetMutexPriority u := fun u => by
    rw [threadGetMutexPriority_eq, threadGetMutexPriority_eq, hinh, (hth u).2.1, (hth u).2.2]
  refine ⟨fun u hu => ?_, fun m hm hp hy => ?_, fun m hm => ?_, fun u => ?_, fun m hm => ?_⟩
  · rw [(hth u).1, hform]; exact h.prio u hu
  · rw [(ho m).1] at hm
    rw [hw m hm] at hy
    have hhead : k'.headPriority m = k.headPriority m := by
      unfold headPriority; rw [hw m hm, hprio]
    rw [(ho m).2.1, hhead]; exact h.mutex m hm hp hy
  · rw [(ho m).1] at hm
    unfold OrderedBut
    rw [hw m hm, hprio]; exact h.sorted m hm
  · rw [(hth u).1, (hth u).2.1]; exact h.bound u
  · rw [(ho m).1] at hm
    rw [(ho m).2.1, (ho m).2.2]; exact h.le m hm

end ExactBut

/-! ## One iteration of the loop -/

theorem threadGetMutexPriority_le (k : Kernel T O) (t : T) :
    k.threadGetMutexPriority t ≤ (k.thread t).initPriority := by
  rw [threadGetMutexPriority_eq]; exact leastOver_le

/-- **Re-insertion**: the mutex is exact again, and only its owner may be out of date. -/
theorem reinsert_exact (hc : Chain k) (h : ExactBut k P none (some t)) (ht : t ∈ k.waiters m)
    (hm : (k.object m).type = .mutex) (ho : (k.object m).owner = some u) :
    ExactBut (k.reinsert m t) P (some u) none := by
  have hw := reinsert_waiters hc.linked ht (hc.prioFlag m hm)
  have hty : ∀ o, ((k.reinsert m t).object o).type = (k.object o).type := fun o => by
    rw [reinsert_object]
    split_ifs with h
    · rw [h]
    · rfl
  have hhead : (k.reinsert m t).headPriority m ≤ 0xff := by
    unfold headPriority
    split
    · exact le_rfl
    · exact (h.bound _).2
  refine ⟨fun v hv => ?_, fun o ho' hp _ => ?_, fun o ho' => ?_, h.bound, fun o ho' => ?_⟩
  · -- the other threads do not own the mutex
    have hvm : ∀ o ∈ (k.thread v).takenObjectList, (k.reinsert m t).inherited o = k.inherited o := by
      intro o hov
      have hom : o ≠ m := fun e => hv (by rw [← hc.owned v o hov, e, ho])
      rw [inherited, reinsert_object, if_neg hom]; rfl
    have hform : (k.reinsert m t).threadGetMutexPriority v = k.threadGetMutexPriority v := by
      rw [threadGetMutexPriority_eq, threadGetMutexPriority_eq]
      exact leastOver_congr hvm
    rw [hform]
    exact h.prio v (by simp)
  · rw [hty] at ho'
    by_cases hom : o = m
    · rw [reinsert_object, if_pos hom, hom]
    · have hto : t ∉ k.waiters o := fun hto => hom (Head.suspend.inj (hc.linked.unique hto ht))
      rw [reinsert_object, if_neg hom]
      refine (h.mutex o ho' hp fun v hv => Option.some.inj hv ▸ hto).trans ?_
      unfold headPriority
      rw [hw, if_neg hom]
      rfl
  · rw [hty] at ho'
    exact (h.sorted o ho').reinsert hc.linked ht (hc.prioFlag m hm)
  · rw [hty] at ho'
    rw [reinsert_object]
    split_ifs with hom
    · exact ⟨hhead, (h.le m hm).2⟩
    · exact h.le o ho'

/-- **A new priority** puts the thread itself out of its place. -/
theorem changePriority_exact (hk : Linked k) (h : ExactBut k P (some u) none) {p : ℕ}
    (hpu : p = k.threadGetMutexPriority u) :
    ExactBut (k.threadChangePriority u p) P none (some u) := by
  have ha := changePriority_alike hk u p
  have hpr := changePriority_prioOf hk u p
  have hw := changePriority_waiters hk u p
  have hobj := changePriority_object (k := k) u p
  have hform : ∀ v, (k.threadChangePriority u p).threadGetMutexPriority v =
      k.threadGetMutexPriority v := fun v => by
    have hinh : (k.threadChangePriority u p).inherited = k.inherited := by
      funext m; rw [inherited, inherited, hobj]
    rw [threadGetMutexPriority_eq, threadGetMutexPriority_eq, hinh, ha.init, ha.taken]
  refine ⟨fun v _ => ?_, fun m hm hp hy => ?_, fun m hm => ?_, fun v => ?_, fun m hm => ?_⟩
  · rw [hform, hpr]
    split_ifs with hv
    · rw [hv, hpu]
    · exact h.prio v fun e => hv (Option.some.inj e).symm
  · rw [hobj] at hm ⊢
    have hum : u ∉ k.waiters m := by rw [← hw]; exact hy u rfl
    rw [h.mutex m hm hp fun _ e => nomatch e]
    unfold headPriority
    rw [hw]
    cases hl : k.waiters m with
    | nil => rfl
    | cons v l =>
      have hvu : v ≠ u := fun e => hum (by rw [hl, e]; exact List.mem_cons_self)
      dsimp only
      rw [hpr, if_neg hvu]
  · rw [hobj] at hm
    exact (h.sorted m hm).changePriority hk p
  · rw [ha.init, hpr]
    refine ⟨(h.bound v).1, ?_⟩
    split_ifs
    · rw [hpu]; exact (threadGetMutexPriority_le k u).trans (h.bound u).1
    · exact (h.bound v).2
  · rw [hobj] at hm ⊢
    exact h.le m hm

/-- **The loop.** -/
theorem updateLoop_exact {flag : SuspendFlag} {fuel : ℕ} (hc : Chain k)
    (h : ExactBut k P none (some t)) (hr : threadUpdatePriorityLoop flag fuel k t = some k') :
    ExactBut k' P none none := by
  induction fuel generalizing k t with
  | zero => cases hr
  | succ fuel ih =>
    rcases updateLoop_cases hr with ⟨hstop, rfl⟩ | ⟨m, o, hs, hp, hm, ho, hr⟩
    · exact h.stop fun m hm ht => hstop (hc.linked.suspend ht) m (hc.waiting t m hm ht) hm
    · have htm := hc.pendingLinked t m hs hp hm
      have h1 := reinsert_exact hc h htm hm ho
      have hl := hc.linked.reinsert hs m
      have hc1 := hc.alike hl (reinsert_alike hc.linked htm)
      rcases hr with ⟨heq, rfl⟩ | ⟨-, hr⟩
      · exact h1.close heq.symm
      · exact ih (hc1.alike (hl.changePriority o _) (changePriority_alike hl o _))
          (changePriority_exact hl h1 rfl) hr

theorem refreshPriority_exact {fuel : ℕ} (hc : Chain k) (h : ExactBut k P (some t) none)
    (hr : k.threadRefreshPriority fuel t = some k') : ExactBut k' P none none := by
  unfold threadRefreshPriority at hr
  split_ifs at hr with hne
  · exact updateLoop_exact (hc.alike (hc.linked.changePriority t _)
      (changePriority_alike hc.linked t _)) (changePriority_exact hc.linked h rfl) hr
  · cases hr
    exact h.close (not_not.mp hne).symm

/-! ## When the shortcuts are right -/

/-- The clean-up after waiter `t` of `m` may skip the owner: there is none, it has the priority of
`t` and is not skipped, or it has its right priority already. -/
def leaveOk (k : Kernel T O) (m : O) (t : T) : Bool :=
  match (k.object m).owner with
  | none => true
  | some o => decide (k.prioOf o = k.prioOf t) ||
      decide ((k.mutexUpdatePriority m).threadGetMutexPriority o = k.prioOf o)

/-- The first waiter of `m` is not below the ceiling of `m`. -/
def handOverOk (k : Kernel T O) (m : O) : Bool :=
  match k.list (.suspend m) with
  | [] => true
  | next :: _ => decide (k.prioOf next ≤ (k.object m).ceilingPriority)

/-- The owner of `m` keeps its priority without `m`. -/
def detachOk (k : Kernel T O) (m : O) : Bool :=
  match (k.object m).owner with
  | none => true
  | some o => decide ((k.takenRemove m).threadGetMutexPriority o = k.prioOf o)

/-- A mutex with no clean-up to come. -/
def Settled (k : Kernel T O) (m : O) : Prop :=
  ∀ t, (k.thread t).pendingObject = some m → t ∈ k.waiters m

/-- Priorities are exact. -/
abbrev Exact (k : Kernel T O) : Prop := ExactBut k (Settled k) none none

theorem mutexUpdatePriority_inherited (hne : o ≠ m) :
    (k.mutexUpdatePriority m).inherited o = k.inherited o := by
  rw [inherited, mutexUpdatePriority_object, if_neg hne]; rfl

/-- **The clean-up after a waiter.** -/
theorem waiterLeft_exact {fuel : ℕ} (hc : Chain k) (h : ExactBut k P none none)
    (hP : ∀ o ≠ m, P' o → P o) (hok : k.leaveOk m t = true)
    (hr : k.mutexWaiterLeft fuel m t = some k') : ExactBut k' P' none none := by
  have h1 : ∀ x, (k.object m).owner = x → ExactBut (k.mutexUpdatePriority m) P' x none := by
    intro x hx
    refine ⟨fun u hu => ?_, fun o ho hp _ => ?_, fun o ho => ?_, h.bound, fun o ho => ?_⟩
    · refine (h.prio u (by simp)).trans ?_
      rw [threadGetMutexPriority_eq, threadGetMutexPriority_eq]
      refine leastOver_congr fun o ho => (mutexUpdatePriority_inherited fun e => hu ?_).symm
      rw [← hx, ← e]; exact hc.owned u o ho
    · rw [mutexUpdatePriority_object] at ho ⊢
      by_cases hom : o = m
      · rw [if_pos hom, hom]; rfl
      · rw [if_neg hom] at ho ⊢
        exact h.mutex o ho (hP o hom hp) fun _ e => nomatch e
    · rw [mutexUpdatePriority_object] at ho
      refine h.sorted o ?_
      split_ifs at ho with hom
      · rw [hom]; exact ho
      · exact ho
    · rw [mutexUpdatePriority_object] at ho ⊢
      split_ifs at ho ⊢ with hom
      · exact ⟨h.headPriority_le m, (h.le m ho).2⟩
      · exact h.le o ho
  have hc1 : Chain (k.mutexUpdatePriority m) :=
    hc.alike (hc.linked.setObject m _) (mutexUpdatePriority_alike m)
  unfold mutexWaiterLeft at hr
  unfold leaveOk at hok
  cases ho : (k.object m).owner with
  | none =>
    simp only [ho] at hr
    cases hr
    exact h1 none ho
  | some o =>
    simp only [ho] at hr hok
    split_ifs at hr with hpr
    · exact refreshPriority_exact hc1 (h1 _ ho) hr
    · cases hr
      refine (h1 _ ho).close ?_
      rw [Bool.or_eq_true, decide_eq_true_eq, decide_eq_true_eq] at hok
      exact (hok.resolve_left hpr).symm

/-! ## The functions -/

namespace Exact

/-- Steps that touch neither priorities nor mutexes. -/
theorem same (h : Exact k) (k' : Kernel T O)
    (hth : ∀ t, k'.prioOf t = k.prioOf t ∧
      (k'.thread t).initPriority = (k.thread t).initPriority ∧
      (k'.thread t).takenObjectList = (k.thread t).takenObjectList ∧
      (k'.thread t).pendingObject = (k.thread t).pendingObject)
    (ho : ∀ m, (k'.object m).type = (k.object m).type ∧
      (k'.object m).priority = (k.object m).priority ∧
      (k'.object m).ceilingPriority = (k.object m).ceilingPriority)
    (hw : ∀ m, (k.object m).type = .mutex → k'.waiters m = k.waiters m) : Exact k' := by
  refine (h.congr k' (fun t => ⟨(hth t).1, (hth t).2.1, (hth t).2.2.1⟩) ho hw).mono
    fun m hm hs t ht => ?_
  rw [(ho m).1] at hm
  have := hs t (by rw [(hth t).2.2.2]; exact ht)
  rwa [hw m hm] at this

theorem dispatched (h : Exact k) (hd : Dispatched k k') : Exact k' :=
  h.same k' (fun t => ⟨hd.prio t, hd.alike.init t, hd.alike.taken t, hd.alike.pending t⟩)
    (fun m => by rw [hd.object]; exact ⟨rfl, rfl, rfl⟩) fun m _ => hd.waiters m

/-- Writes to a thread that keep its priorities and mutexes. -/
theorem setThread (h : Exact k) (t : T) (f : Thread O → Thread O)
    (hf : ∀ th, (f th).currentPriority = th.currentPriority ∧
      (f th).initPriority = th.initPriority ∧ (f th).takenObjectList = th.takenObjectList ∧
      (f th).pendingObject = th.pendingObject) :
    Exact (k.setThread t f) := by
  refine h.same _ (fun u => ?_) (fun _ => ⟨rfl, rfl, rfl⟩) fun _ _ => rfl
  unfold prioOf
  by_cases hu : u = t
  · subst hu; rw [setThread_self]; exact hf _
  · rw [setThread_of_ne _ hu]; exact ⟨rfl, rfl, rfl, rfl⟩

/-- **A wake-up** leaves the mutex of the thread to the clean-up. -/
theorem wake (h : Exact k) (hw : ∀ m, (k.object m).type = .mutex → t ∈ k.waiters m →
      (k.thread t).pendingObject = some m) (hk : Linked k) (f : Thread O → Thread O)
    (hf : ∀ th, (f th).currentPriority = th.currentPriority ∧
      (f th).initPriority = th.initPriority ∧ (f th).takenObjectList = th.takenObjectList ∧
      (f th).pendingObject = th.pendingObject) :
    Exact (k.wake t f) := by
  have hth : ∀ u, (k.wake t f).prioOf u = k.prioOf u ∧
      ((k.wake t f).thread u).initPriority = (k.thread u).initPriority ∧
      ((k.wake t f).thread u).takenObjectList = (k.thread u).takenObjectList ∧
      ((k.wake t f).thread u).pendingObject = (k.thread u).pendingObject := fun u => by
    unfold prioOf
    by_cases hu : u = t
    · subst hu; rw [wake_self]; exact hf _
    · rw [wake_of_ne hu]; exact ⟨rfl, rfl, rfl, rfl⟩
  have hinh : (k.wake t f).inherited = k.inherited := by
    funext m; rw [inherited, inherited, wake_object]
  have hprio : (k.wake t f).prioOf = k.prioOf := funext fun u => (hth u).1
  refine ⟨fun u _ => ?_, fun m hm hs _ => ?_, fun m hm => ?_, fun u => ?_, fun m hm => ?_⟩
  · rw [(hth u).1, threadGetMutexPriority_eq, hinh, (hth u).2.1, (hth u).2.2.1,
      ← threadGetMutexPriority_eq]
    exact h.prio u (by simp)
  · rw [wake_object] at hm ⊢
    have hnot : t ∉ k.waiters m := fun ht => by
      have := hs t (by rw [(hth t).2.2.2]; exact hw m hm ht)
      rw [wake_waiters] at this
      exact (hk.nodup _).not_mem_erase this
    have hwm : (k.wake t f).waiters m = k.waiters m := by
      rw [wake_waiters, List.erase_of_not_mem hnot]
    have hhead : (k.wake t f).headPriority m = k.headPriority m := by
      unfold headPriority; rw [hwm, hprio]
    rw [hhead]
    refine h.mutex m hm (fun u hu => ?_) fun _ e => nomatch e
    have := hs u (by rw [(hth u).2.2.2]; exact hu)
    rwa [hwm] at this
  · rw [wake_object] at hm
    unfold OrderedBut
    rw [wake_waiters, hprio]
    exact List.Pairwise.sublist List.erase_sublist (h.sorted m hm)
  · rw [(hth u).1, (hth u).2.1]; exact h.bound u
  · rw [wake_object] at hm ⊢
    exact h.le m hm

end Exact

end Kernel

end RtThread
