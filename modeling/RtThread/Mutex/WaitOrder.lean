import RtThread.Mutex.Inherit

/-!
# Priority-ordered waiting

* `boostOk`: `_thread_update_priority` re-inserts a thread that waits for a mutex; a thread that
  waits on another object has to stay in its place;
* `InOrder`: the suspend lists with `RT_IPC_FLAG_PRIO` are sorted;
* `updateLoop_inOrder`: the propagation keeps that, under `boostOk`;
* **`waitOrder_invariant`**: in every run whose changes of priority keep waiting threads in their
  places, the first waiter is a most urgent one.
-/

set_option linter.unusedSectionVars false

namespace RtThread

open Kernel Queues

variable {T O : Type} [DecidableEq T] [DecidableEq O] {k k' k₁ : Kernel T O} {c t u : T} {m o : O}
  {taking waiting : T → Option O} {fuel p : ℕ} {flag : SuspendFlag}

namespace Kernel

/-- With priority `p` thread `t` stays in its place in the list of `o`. -/
def keepsPlace (k : Kernel T O) (t : T) (p : ℕ) (o : O) : Bool :=
  decide ((k.object o).flag ≠ .prio) || decide (t ∉ k.list (.suspend o)) ||
    decide (SortedBy (Function.update k.prioOf t p) (k.list (.suspend o)))

/-- The mutex a suspended thread waits for. -/
def awaitedMutex (k : Kernel T O) (t : T) : Option O :=
  if (k.thread t).stat.isSuspend then
    (k.thread t).pendingObject.filter fun m => (k.object m).type = .mutex
  else none

/-- Giving `t` the priority `p`, and going on as `_thread_update_priority` does, moves no thread that
waits on another object than a mutex out of its place. -/
def boostOk (waiting : T → Option O) : ℕ → Kernel T O → T → ℕ → Bool
  | 0, _, _, _ => true
  | fuel + 1, k, t, p =>
    match k.awaitedMutex t with
    | none => (waiting t).all fun o => k.keepsPlace t p o
    | some m =>
      let k := (k.threadChangePriority t p).reinsert m t
      (k.object m).owner.all fun o => decide (k.threadGetMutexPriority o = k.prioOf o) ||
        boostOk waiting fuel k o (k.threadGetMutexPriority o)

/-- `boostOk` for `threadRefreshPriority`. -/
def refreshOk (waiting : T → Option O) (fuel : ℕ) (k : Kernel T O) (t : T) : Bool :=
  decide (k.threadGetMutexPriority t = k.prioOf t) ||
    boostOk waiting fuel k t (k.threadGetMutexPriority t)

/-- `boostOk` for `mutexWaiterLeft`. -/
def leftOk (waiting : T → Option O) (fuel : ℕ) (k : Kernel T O) (m : O) (t : T) : Bool :=
  (k.object m).owner.all fun o => decide (k.prioOf o ≠ k.prioOf t) ||
    refreshOk waiting fuel (k.mutexUpdatePriority m) o

/-- `boostOk` for `mutexTakeWait`. -/
def waitOk (waiting : T → Option O) (fuel : ℕ) (k : Kernel T O) (c owner : T) (m : O)
    (flag : SuspendFlag) : Bool :=
  !decide (k.prioOf c < (k.object m).priority) || !decide (k.prioOf c < k.prioOf owner) ||
    boostOk waiting fuel ((k.waitFor c m flag).setObject m fun x => { x with priority := k.prioOf c })
      owner (k.prioOf c)

theorem awaitedMutex_eq_some : k.awaitedMutex t = some m ↔
    (k.thread t).stat.isSuspend = true ∧ (k.thread t).pendingObject = some m ∧
      (k.object m).type = .mutex := by
  unfold awaitedMutex
  split_ifs with hs
  · rw [Option.filter_eq_some_iff, decide_eq_true_eq]; simp [hs]
  · simp [hs]

theorem changePriority_key (hk : Linked k) (t : T) (p : ℕ) :
    (k.threadChangePriority t p).prioOf = Function.update k.prioOf t p := by
  funext u
  rw [changePriority_prioOf hk, Function.update_apply]

/-- A thread that stays in its place keeps the list sorted. -/
theorem OrderedBut.keepsPlace (hk : Linked k) (h : OrderedBut k none o)
    (hf : (k.object o).flag = .prio) (hp : k.keepsPlace t p o = true) :
    OrderedBut (k.threadChangePriority t p) none o := by
  by_cases ht : t ∈ k.waiters o
  · rw [orderedBut_none, changePriority_waiters hk, changePriority_key hk]
    simpa [Kernel.keepsPlace, hf, ht] using hp
  · exact (h.changePriority hk p).stop fun ht' => ht (changePriority_waiters hk t p o ▸ ht')

end Kernel

/-- The lists with `RT_IPC_FLAG_PRIO` are sorted, and `waiting` knows who waits on which object. -/
structure InOrder (k : Kernel T O) (waiting : T → Option O) : Prop where
  sorted : ∀ o, (k.object o).flag = .prio → OrderedBut k none o
  waits : ∀ t o, (k.object o).type ≠ .mutex → t ∈ k.waiters o → waiting t = some o

namespace InOrder

/-- Steps that change no priority and lengthen no list. -/
theorem sublist (h : InOrder k waiting) (k' : Kernel T O) (hp : ∀ u, k'.prioOf u = k.prioOf u)
    (ho : ∀ o, (k'.object o).flag = (k.object o).flag)
    (hw : ∀ o, (k'.waiters o).Sublist (k.waiters o))
    (hm : ∀ t o, (k'.object o).type ≠ .mutex → t ∈ k'.waiters o → (k.object o).type ≠ .mutex) :
    InOrder k' waiting where
  sorted o hf := by
    unfold OrderedBut
    rw [funext hp]
    exact List.Pairwise.sublist (hw o) (h.sorted o (ho o ▸ hf))
  waits t o hty ht := h.waits t o (hm t o hty ht) ((hw o).subset ht)

theorem dispatched (h : InOrder k waiting) (hd : Dispatched k k') : InOrder k' waiting :=
  h.sublist k' hd.prio (fun o => by rw [hd.object]) (fun o => by rw [hd.waiters])
    fun _ _ hty _ => hd.object ▸ hty

/-- Writes to a thread that keep its priority. -/
theorem setThread (h : InOrder k waiting) (t : T) (f : Thread O → Thread O)
    (hf : ∀ th, (f th).currentPriority = th.currentPriority) :
    InOrder (k.setThread t f) waiting := by
  refine h.sublist _ (fun u => ?_) (fun _ => rfl) (fun _ => .refl _) fun _ _ hty _ => hty
  unfold prioOf
  rw [setThread_apply]
  split_ifs with hu
  · rw [hu]; exact hf _
  · rfl

/-- Writes to an object that keep its type and flag. -/
theorem setObject (h : InOrder k waiting) (m : O) (f : IpcObject T → IpcObject T)
    (hf : ∀ x, (f x).type = x.type ∧ (f x).flag = x.flag) :
    InOrder (k.setObject m f) waiting := by
  refine h.sublist _ (fun _ => rfl) (fun o => ?_) (fun _ => .refl _) fun _ o hty _ => ?_
  · rw [setObject_apply]
    split_ifs with e
    · rw [e]; exact (hf _).2
    · rfl
  · rw [setObject_apply] at hty
    split_ifs at hty with e
    · rw [e]; exact (hf _).1 ▸ hty
    · exact hty

theorem wake (h : InOrder k waiting) (t : T) (f : Thread O → Thread O)
    (hf : ∀ th, (f th).currentPriority = th.currentPriority) :
    InOrder (k.wake t f) waiting := by
  refine h.sublist _ (fun u => ?_) (fun o => by rw [wake_object]) (fun o => ?_)
    fun _ o hty _ => by rwa [wake_object] at hty
  · unfold prioOf
    by_cases hu : u = t
    · rw [hu, wake_self]; exact hf _
    · rw [wake_of_ne hu]
  · rw [wake_waiters]; exact List.erase_sublist

theorem mutexUpdatePriority (h : InOrder k waiting) (m : O) :
    InOrder (k.mutexUpdatePriority m) waiting := h.setObject m _ fun _ => ⟨rfl, rfl⟩

/-- The sorted lists after a change that keeps the waiters. -/
theorem alike (h : InOrder k waiting) (ha : Alike k k')
    (hs : ∀ o, (k.object o).flag = .prio → OrderedBut k' none o) : InOrder k' waiting where
  sorted o hf := hs o (ha.flag o ▸ hf)
  waits t o hty ht := h.waits t o (ha.type o ▸ hty) ((ha.waiters o t).mp ht)

/-- A change of priority of a thread on no suspend list. -/
theorem changePriority (h : InOrder k waiting) (hk : Linked k) (ht : ∀ o, t ∉ k.waiters o) :
    InOrder (k.threadChangePriority t p) waiting :=
  h.alike (changePriority_alike hk t p) fun o hf => ((h.sorted o hf).changePriority hk p).stop
    fun ht' => ht o (changePriority_waiters hk t p o ▸ ht')

/-! ## The propagation -/

/-- **The loop keeps the lists sorted.** -/
theorem updateLoop (hc : Chain k) (h : InOrder k waiting)
    (hok : boostOk waiting fuel k t p = true)
    (hr : threadUpdatePriorityLoop flag fuel (k.threadChangePriority t p) t = some k') :
    InOrder k' waiting := by
  induction fuel generalizing k t p with
  | zero => cases hr
  | succ fuel ih =>
    have ha := changePriority_alike hc.linked t p
    have hl := hc.linked.changePriority t p
    unfold boostOk at hok
    rcases updateLoop_cases hr with ⟨hstop, rfl⟩ | ⟨m, o, hs, hp, hm, ho, hr⟩
    · have hnone : k.awaitedMutex t = none := by
        refine Option.eq_none_iff_forall_not_mem.mpr fun m hm => ?_
        obtain ⟨h1, h2, h3⟩ := awaitedMutex_eq_some.mp hm
        exact hstop ((ha.isSuspend t).mpr h1) m ((ha.pending t).trans h2) ((ha.type m).trans h3)
      simp only [hnone] at hok
      refine h.alike ha fun o hf => ?_
      by_cases ht : t ∈ k.waiters o
      · -- the list is none of a mutex, so `waiting` knows of it
        have hty : (k.object o).type ≠ .mutex := fun hm => by
          have := awaitedMutex_eq_some.mpr ⟨hc.linked.suspend ht, hc.waiting t o hm ht, hm⟩
          rw [hnone] at this
          cases this
        rw [h.waits t o hty ht] at hok
        exact (h.sorted o hf).keepsPlace hc.linked hf hok
      · exact ((h.sorted o hf).changePriority hc.linked p).stop fun ht' =>
          ht (changePriority_waiters hc.linked t p o ▸ ht')
    · rw [ha.pending] at hp
      rw [ha.type] at hm
      have hsome := awaitedMutex_eq_some.mpr ⟨(ha.isSuspend t).mp hs, hp, hm⟩
      simp only [hsome] at hok
      have hcl := hc.alike hl ha
      have htm : t ∈ (k.threadChangePriority t p).waiters m :=
        hcl.pendingLinked t m hs ((ha.pending t).trans hp) ((ha.type m).trans hm)
      have ha2 := reinsert_alike hl htm
      have hl2 := hl.reinsert hs m
      have h2 : InOrder ((k.threadChangePriority t p).reinsert m t) waiting :=
        h.alike (ha.trans ha2) fun o hf => ((h.sorted o hf).changePriority hc.linked p).reinsert
          hl htm (hcl.prioFlag m ((ha.type m).trans hm))
      have hown : ((((k.threadChangePriority t p).reinsert m t)).object m).owner = some o :=
        (ha2.owner m).trans ho
      rw [hown, Option.all_some, Bool.or_eq_true, decide_eq_true_eq] at hok
      rcases hr with ⟨-, rfl⟩ | ⟨hne, hr⟩
      · exact h2
      · exact ih (hcl.alike hl2 ha2) h2 (hok.resolve_left hne) hr

theorem refresh (hc : Chain k) (h : InOrder k waiting) (hok : refreshOk waiting fuel k t = true)
    (hr : k.threadRefreshPriority fuel t = some k') : InOrder k' waiting := by
  unfold refreshOk at hok
  rw [Bool.or_eq_true, decide_eq_true_eq] at hok
  unfold threadRefreshPriority at hr
  split_ifs at hr with hne
  · exact h.updateLoop hc (hok.resolve_left hne) hr
  · cases hr; exact h

theorem waiterLeft (hc : Chain k) (h : InOrder k waiting) (hok : leftOk waiting fuel k m t = true)
    (hr : k.mutexWaiterLeft fuel m t = some k') : InOrder k' waiting := by
  have h1 := h.mutexUpdatePriority m
  have hc1 : Chain (k.mutexUpdatePriority m) :=
    hc.alike (hc.linked.setObject m _) (mutexUpdatePriority_alike m)
  unfold leftOk at hok
  unfold mutexWaiterLeft at hr
  cases ho : (k.object m).owner with
  | none => simp only [ho] at hr; cases hr; exact h1
  | some o =>
    simp only [ho] at hr
    rw [ho, Option.all_some, Bool.or_eq_true, decide_eq_true_eq] at hok
    split_ifs at hr with hpr
    · exact h1.refresh hc1 (hok.resolve_left fun h => h hpr) hr
    · cases hr; exact h1

/-! ## The functions -/

/-- The running thread goes to the list of `o`. -/
theorem suspendOn (h : InOrder k waiting) (hk : Linked k) (hc : (k.thread c).stat = .running)
    (o : O) (flag : SuspendFlag) {waiting' : T → Option O}
    (hw : ∀ u ≠ c, waiting' u = waiting u)
    (ho : (k.object o).type ≠ .mutex → waiting' c = some o) :
    InOrder (k.suspendOn o c flag) waiting' := by
  have hp : ∀ u, (k.suspendSelf c flag).prioOf u = k.prioOf u := by
    intro u
    unfold prioOf suspendSelf
    rw [setThread_apply]
    split_ifs with e
    · rw [e]; rfl
    · rfl
  have hnot : ∀ x, c ∉ k.waiters x :=
    hk.not_mem_waiters (by rw [hc]; simp [Stat.isSuspend])
  have hself : ∀ x, (k.suspendSelf c flag).waiters x = k.waiters x :=
    suspendSelf_waiters hk hc flag
  refine ⟨fun x hf => ?_, fun u x hx hu => ?_⟩
  · have hf' : (k.object x).flag = .prio := hf
    unfold OrderedBut
    rw [Kernel.suspendOn, ipcListInsert_waiters, hself, hself]
    change (ite _ _ _ : List T).Pairwise fun a b =>
      _ ∨ _ ∨ (k.suspendSelf c flag).prioOf a ≤ (k.suspendSelf c flag).prioOf b
    rw [funext hp]
    by_cases e : x = o
    · subst e
      have hf'' : ((k.suspendSelf c flag).object x).flag = .prio := hf
      rw [if_pos rfl, hf'']
      exact (insertByKey_sorted (orderedBut_none.mp (h.sorted x hf'))).imp
        fun hab => .inr (.inr hab)
    · rw [if_neg e]; exact h.sorted x hf'
  · rcases (mem_suspendOn_waiters hk hc).mp hu with ⟨rfl, rfl⟩ | hu
    · exact ho hx
    · rw [hw u fun e => hnot x (e ▸ hu)]
      exact h.waits u x hx hu

section
variable (h : InOrder k waiting) (hw : Wf k taking) (hc : (k.thread c).stat = .running)
include h hw hc

theorem mutexTakeFree (hr : k.mutexTakeFree fuel c m flag = some k') : InOrder k' waiting := by
  rw [mutexTakeFree_eq hw.linked hc hr]
  refine setThread ?_ c _ fun _ => rfl
  have h1 : InOrder (k.takeObject c m) waiting := h.setObject m _ fun _ => ⟨rfl, rfl⟩
  split_ifs
  · exact h1.changePriority (hw.linked.setObject m _) fun o =>
      hw.linked.not_mem_waiters (by rw [hc]; simp [Stat.isSuspend]) o
  · exact h1

theorem mutexTakeWait (htc : taking c = none) (hm : (k.object m).type = .mutex)
    (ho : (k.object m).owner = some t) (htc' : t ≠ c) (hce : (k.thread c).error = .eok)
    {timeout : ℤ} {r : TakeResult} (hok : waitOk waiting fuel k c t m flag = true)
    (hr : k.mutexTakeWait fuel c t m timeout flag = some (r, k')) : InOrder k' waiting := by
  have h1 : InOrder (k.waitFor c m flag) waiting :=
    (h.suspendOn hw.linked hc m flag (fun _ _ => rfl) fun h' => absurd hm h').setThread c _
      fun _ => rfl
  have hch := (hw.waitFor hc htc hm hce ho htc' flag).chain
  have hpt : (k.waitFor c m flag).prioOf t = k.prioOf t := by
    simp [Kernel.waitFor, suspendOn_thread, prioOf, htc']
  obtain ⟨-, k₂, hk', hk₂⟩ := mutexTakeWait_cases hc hr
  have h2 : InOrder k₂ waiting := by
    rcases hk₂ with ⟨-, rfl⟩ | ⟨hlt, ⟨-, rfl⟩ | ⟨hle, hk₂⟩⟩
    · exact h1
    · exact h1.setObject m _ fun _ => ⟨rfl, rfl⟩
    · rw [hpt] at hle
      have hok' : boostOk waiting fuel ((k.waitFor c m flag).setObject m fun x =>
          { x with priority := k.prioOf c }) t (k.prioOf c) = true := by
        simpa [waitOk, hlt, hle] using hok
      refine (h1.setObject m (fun x => { x with priority := k.prioOf c }) fun _ => ⟨rfl, rfl⟩).updateLoop ?_
        hok' hk₂
      exact hch.alike (hch.linked.setObject m _) (setObject_alike m _ rfl)
  rcases hk' with rfl | rfl
  · exact h2.setThread c _ fun _ => rfl
  · exact h2

theorem mutexRelease {r : Err} (hr : k.mutexRelease c m = (r, k')) : InOrder k' waiting := by
  rcases mutexRelease_cases hr with ⟨-, -, rfl⟩ | ⟨-, -, -, rfl⟩ | ⟨-, -, -, k₂, hk₂, hk'⟩
  · exact h.setThread c _ fun _ => rfl
  · exact h.setObject m _ fun _ => ⟨rfl, rfl⟩
  · have hl : Linked (k.releaseTaken m) := (hw.linked.setObject m _).congr _ rfl (fun _ => rfl) rfl
    have h1 : InOrder (k.releaseTaken m) waiting :=
      (h.setObject m (fun x => { x with hold := x.hold - 1 }) fun _ => ⟨rfl, rfl⟩).sublist _ (fun _ => rfl)
        (fun _ => rfl) (fun _ => .refl _) fun _ _ hty _ => hty
    have h2 : InOrder k₂ waiting ∧ Linked k₂ := by
      rcases hk₂ with rfl | ⟨rfl, -⟩
      · exact ⟨h1.changePriority hl fun o =>
          hw.linked.not_mem_waiters (by rw [hc]; simp [Stat.isSuspend]) o, hl.changePriority c _⟩
      · exact ⟨h1, hl⟩
    rcases hk' with ⟨next, rest, hwm, rfl⟩ | ⟨-, rfl⟩
    · have hnx : next ∈ k₂.waiters m := hwm ▸ List.mem_cons_self
      rw [handOver_eq h2.2 hnx]
      have h3 : InOrder (k₂.listRemove next) waiting := h2.1.sublist _ (fun _ => rfl)
        (fun _ => rfl) (fun _ => List.erase_sublist) fun _ _ hty _ => hty
      have h4 := (h3.setObject m (fun x => { x with owner := some next, hold := 1 })
        fun _ => ⟨rfl, rfl⟩).wake next (fun th => { th with
          takenObjectList := m :: th.takenObjectList, pendingObject := none, threadTimer := false })
        fun _ => rfl
      exact h4.mutexUpdatePriority m
    · exact h2.1.setObject m _ fun _ => ⟨rfl, rfl⟩

end

theorem mutexSetprioceiling (h : InOrder k waiting) (hw : Wf k taking) {p : ℕ}
    (hok : p < threadPriorityMax → ∀ o, (k.object m).owner = some o →
      refreshOk waiting fuel (k.setObject m fun x => { x with ceilingPriority := p }) o = true)
    (hr : k.mutexSetprioceiling fuel m p = some k') : InOrder k' waiting := by
  unfold Kernel.mutexSetprioceiling at hr
  split_ifs at hr with hp
  · have h1 := h.setObject m (fun x => { x with ceilingPriority := p }) fun _ => ⟨rfl, rfl⟩
    have hc1 := (hw.setObject m (fun x => { x with ceilingPriority := p })
      fun _ => ⟨rfl, rfl, rfl⟩).chain
    dsimp only at hr
    rw [setObject_self] at hr
    cases ho : (k.object m).owner with
    | none => simp only [ho] at hr; cases hr; exact h1
    | some o =>
      simp only [ho] at hr
      exact h1.refresh hc1 (hok hp o ho) hr
  · cases hr; exact h

theorem mutexDetach (h : InOrder k waiting) (hw : Wf k taking) (hm : (k.object m).type = .mutex) :
    InOrder (k.mutexDetach m) waiting := by
  have key : ∀ (l : List T) (k : Kernel T O), InOrder k waiting → Wf k taking →
      (k.object m).type = .mutex → k.list (.suspend m) = l →
      InOrder (l.foldl (fun k t => k.ipcResumeThread .error t) k) waiting := by
    intro l
    induction l with
    | nil => exact fun _ h _ _ _ => h
    | cons t l ih =>
      intro k h hw hm hl
      have ht : t ∈ k.waiters m := by rw [waiters, hl]; exact List.mem_cons_self
      have hs := hw.linked.suspend ht
      rw [List.foldl_cons, ipcResumeThread_eq hs]
      refine ih _ (h.wake t _ fun _ => rfl) (Keeps.wake hw hs (fun hp => hp.free m ht)
        (fun th => { th with error := .error, threadTimer := false }) (.inr (by simp))
        fun _ => ⟨rfl, rfl, rfl⟩).wf
        (by rw [wake_object]; exact hm) ?_
      have := wake_waiters (k := k) (t := t)
        (fun th => { th with error := .error, threadTimer := false }) m
      rw [show k.waiters m = t :: l from hl, List.erase_cons_head] at this
      exact this
  have h1 : InOrder (k.ipcListResumeAll m) waiting := key _ k h hw hm rfl
  obtain ⟨-, hnil, hobj⟩ := Keeps.resumeAll hw hm
  refine h1.sublist _ (fun _ => rfl) (fun o => ?_) (fun _ => .refl _) fun u o hty hu => ?_
  · unfold Kernel.mutexDetach
    rw [setObject_apply]
    split_ifs with e
    · rw [e]; rfl
    · rfl
  · have hu' : u ∈ (k.ipcListResumeAll m).waiters o := hu
    have e : o ≠ m := fun e => by rw [e, hnil] at hu'; cases hu'
    unfold Kernel.mutexDetach at hty
    rw [setObject_of_ne _ e] at hty
    exact hty

theorem threadDetach (h : InOrder k waiting) (hw : Wf k taking) {k₁ : Kernel T O}
    (hk₁ : k₁ = (k.threadDetachUnlink t).setThread t fun th =>
      { th with threadTimer := false, stat := .close, yieldFlag := false })
    (hok : ∀ m, (k₁.thread t).pendingObject = some m → (k₁.object m).type = .mutex →
      leftOk waiting fuel (k₁.listRemove t) m t = true)
    (hr : k.threadDetach fuel t = some k') : InOrder k' waiting := by
  have hrem : InOrder (k.threadDetachUnlink t) waiting := by
    unfold threadDetachUnlink
    split_ifs
    · exact h.sublist _ (fun _ => rfl) (fun _ => rfl) (fun _ => List.erase_sublist)
        fun _ _ hty _ => hty
    · exact h
  have h1 : InOrder k₁ waiting := hk₁ ▸ hrem.setThread t
    (fun th => { th with threadTimer := false, stat := .close, yieldFlag := false }) fun _ => rfl
  have henq : ∀ {k : Kernel T O}, InOrder k waiting → InOrder (k.threadDefunctEnqueue t) waiting :=
    fun h => h.sublist _ (fun _ => rfl) (fun _ => rfl)
      (fun o => by rw [Keeps.defunctEnqueue_waiters]) fun _ _ hty _ => hty
  rcases threadDetach_cases hr hk₁ with ⟨-, rfl⟩ | ⟨-, ⟨-, rfl⟩ | ⟨m, k₂, hp, hm, hk₂, rfl⟩⟩
  · exact h
  · exact henq h1
  · have h2 : InOrder (k₁.listRemove t) waiting :=
      h1.sublist _ (fun _ => rfl) (fun _ => rfl) (fun _ => List.erase_sublist) fun _ _ hty _ => hty
    exact henq ((h2.waiterLeft (closed_chain hw hk₁) (hok m hp hm) hk₂).setThread t _ fun _ => rfl)

theorem suspendSelf (h : InOrder k waiting) (c : T) (flag : SuspendFlag) : InOrder (k.suspendSelf c flag) waiting :=
  (h.sublist (k.scheduleRemoveThread c) (fun _ => rfl) (fun _ => rfl)
    (fun _ => List.erase_sublist) fun _ _ hty _ => hty).setThread c _ fun _ => rfl

theorem threadSleep (h : InOrder k waiting) (hc : (k.thread c).stat = .running) :
    InOrder (k.threadSleep c).2 waiting := by
  have hc1 : ((k.setThread c fun th => { th with error := .eok }).thread c).stat = .running := by
    rw [setThread_self]; exact hc
  have h1 := (h.setThread c (fun th => { th with error := .eok }) fun _ => rfl).suspendSelf c
    .interruptible
  unfold Kernel.threadSleep
  rw [threadSuspend_eq hc1]
  exact h1.setThread c (fun th => { th with threadTimer := true, error := .eintr }) fun _ => rfl

/-- **Waiting on an object that is no mutex.** -/
theorem ipcWait (h : InOrder k waiting) (hk : Linked k) (hc : (k.thread c).stat = .running)
    (o : O) (timeout : ℤ) (flag : SuspendFlag) :
    InOrder (k.ipcWait c o timeout flag).2 (Function.update waiting c (some o)) := by
  have hc1 : ((k.setThread c fun th => { th with error := .eintr }).thread c).stat = .running := by
    rw [setThread_self]; exact hc
  have h1 := (h.setThread c (fun th => { th with error := .eintr }) fun _ => rfl).suspendOn
    (hk.setThread c _ rfl) hc1 o
    flag (fun u hu => Function.update_of_ne hu (some o) waiting)
    fun _ => Function.update_self c (some o) waiting
  unfold Kernel.ipcWait
  dsimp only
  rw [ipcListSuspend_eq hc1]
  dsimp only
  split_ifs
  · exact h1.setThread c _ fun _ => rfl
  · exact h1

end InOrder

/-! ## Runs -/

/-- Resumes as in `resumeOk`, and no change of priority moves a waiting thread out of its place. -/
def orderOk (fuel : ℕ) (s : MutexState T O) (a : MutexLabel T O) : Bool :=
  resumeOk s a &&
    match a with
    | .changePriority t p => (s.kernel.thread t).pendingObject.all (s.kernel.keepsPlace t p) &&
        (s.waiting t).all (s.kernel.keepsPlace t p)
    | .take m timeout flag => s.self.all fun c => (s.kernel.object m).owner.all fun o =>
        decide (o = c) || decide (timeout = 0) || waitOk s.waiting fuel
          (s.kernel.setThread c fun th => { th with error := .eok }) c o m flag
    | .takeResume => s.kernel.currentThread.all fun c => (s.taking c).all fun m =>
        decide ((s.kernel.thread c).error = .eok) || leftOk s.waiting fuel s.kernel m c
    | .setprioceiling m p => (s.kernel.object m).owner.all fun o =>
        !decide (p < threadPriorityMax) || refreshOk s.waiting fuel
          (s.kernel.setObject m fun x => { x with ceilingPriority := p }) o
    | .detachThread t =>
        let k := (s.kernel.threadDetachUnlink t).setThread t fun th =>
          { th with threadTimer := false, stat := .close, yieldFlag := false }
        (k.thread t).pendingObject.all fun m => decide ((k.object m).type ≠ .mutex) ||
          leftOk s.waiting fuel (k.listRemove t) m t
    | _ => true

/-- The lists with `RT_IPC_FLAG_PRIO` are sorted by the present priorities, so the first waiter, and
the one that `_ipc_list_resume` wakes, is a most urgent one. -/
structure WaitOrderOk (k : Kernel T O) : Prop where
  sorted : ∀ o, (k.object o).flag = .prio → SortedBy k.prioOf (k.waiters o)
  first : ∀ o t l, (k.object o).flag = .prio → k.waiters o = t :: l →
    ∀ u ∈ k.waiters o, k.prioOf t ≤ k.prioOf u
  wakes : ∀ o k', (k.object o).flag = .prio → k.ipcListResume o = some k' →
    ∃ t ∈ k.waiters o, k' = k.ipcResumeThread .eok t ∧ ∀ u ∈ k.waiters o, k.prioOf t ≤ k.prioOf u

theorem InOrder.ok (h : InOrder k waiting) : WaitOrderOk k := by
  have hsort : ∀ o, (k.object o).flag = .prio → SortedBy k.prioOf (k.waiters o) :=
    fun o hf => orderedBut_none.mp (h.sorted o hf)
  have hfirst : ∀ o t l, (k.object o).flag = .prio → k.waiters o = t :: l →
      ∀ u ∈ k.waiters o, k.prioOf t ≤ k.prioOf u := by
    intro o t l hf hl u hu
    have hs := hsort o hf
    rw [hl] at hs hu
    rcases List.mem_cons.mp hu with rfl | hu
    · exact le_rfl
    · exact (List.pairwise_cons.mp hs).1 u hu
  refine ⟨hsort, hfirst, fun o k' hf hr => ?_⟩
  unfold ipcListResume at hr
  split at hr
  · cases hr
  · next t l hl =>
    refine ⟨t, ?_, (Option.some.inj hr).symm, hfirst o t l hf hl⟩
    rw [waiters, hl]; exact List.mem_cons_self

section
variable {s s' : MutexState T O} (h : MutexInv s) (ho : InOrder s.kernel s.waiting)
include h ho

theorem MutexInv.take_inOrder {timeout : ℤ} (hok : orderOk fuel s (.take m timeout flag) = true)
    (hs : mutexStep fuel s (.take m timeout flag) = some s') : InOrder s'.kernel s'.waiting := by
  simp only [mutexStep] at hs
  split_ifs at hs with hm
  obtain ⟨c, hc, hs⟩ := Option.bind_eq_some_iff.mp hs
  obtain ⟨⟨r, k'⟩, hr, hs⟩ := Option.bind_eq_some_iff.mp hs
  obtain ⟨-, hrun, htc⟩ := MutexState.self_eq hc
  have hwait : ∀ o, (s.kernel.object m).owner = some o → o ≠ c → timeout = 0 ∨
      waitOk s.waiting fuel (s.kernel.setThread c fun th => { th with error := .eok }) c o m
        flag = true := by
    intro o howner hoc
    have := (Bool.and_eq_true_iff.mp hok).2
    simpa [hc, howner, hoc] using this
  obtain ⟨k₀, hk₀⟩ : ∃ k₀, k₀ = s.kernel.setThread c fun th => { th with error := .eok } :=
    ⟨_, rfl⟩
  rw [← hk₀] at hwait
  have hw0 : Wf k₀ s.taking := hk₀ ▸
    (Keeps.setSelf h.wf hrun htc (fun th => { th with error := .eok }) fun _ => ⟨rfl, rfl, rfl⟩).wf
  have h0 : InOrder k₀ s.waiting := hk₀ ▸
    ho.setThread c (fun th => { th with error := .eok }) fun _ => rfl
  have hrun₀ : (k₀.thread c).stat = .running := by rw [hk₀, setThread_self]; exact hrun
  have herr₀ : (k₀.thread c).error = .eok := by rw [hk₀, setThread_self]
  have hobj₀ : k₀.object = s.kernel.object := by rw [hk₀]; rfl
  have key : InOrder k' s.waiting := by
    rcases mutexTake_cases hr hk₀ with ⟨-, -, hk'⟩ | ⟨-, -, rfl⟩ | ⟨-, -, rfl⟩ |
      ⟨o, howner, hoc, ⟨-, rfl⟩ | ⟨hto, hk'⟩⟩
    · exact h0.mutexTakeFree hw0 hrun₀ hk'
    · exact h0.setObject m _ fun _ => ⟨rfl, rfl⟩
    · exact h0
    · exact h0.setThread c _ fun _ => rfl
    · rw [← hobj₀] at howner hm hwait
      exact h0.mutexTakeWait hw0 hrun₀ htc hm howner hoc herr₀
        ((hwait o howner hoc).resolve_left hto) hk'
  cases r with
  | ret e =>
    cases hs
    unfold MutexState.takeReturns
    split_ifs <;> exact key
  | blocked => cases hs; exact key

theorem MutexInv.takeResume_inOrder (hok : orderOk fuel s .takeResume = true)
    (hs : mutexStep fuel s .takeResume = some s') : InOrder s'.kernel s'.waiting := by
  obtain ⟨c, hc, hs⟩ := Option.bind_eq_some_iff.mp hs
  obtain ⟨m, htc, hs⟩ := Option.bind_eq_some_iff.mp hs
  split_ifs at hs with hrun
  obtain ⟨⟨e, k'⟩, hr, rfl⟩ := Option.map_eq_some_iff.mp hs
  have key : InOrder k' s.waiting := by
    rcases mutexTakeResume_cases hr with ⟨-, -, rfl⟩ | ⟨he, k₁, hk₁, rfl, -⟩
    · exact ho
    · have hleft : leftOk s.waiting fuel s.kernel m c = true := by
        have := (Bool.and_eq_true_iff.mp hok).2
        simpa [hc, htc, he] using this
      exact (ho.waiterLeft h.wf.chain hleft hk₁).setThread c _ fun _ => rfl
  unfold MutexState.takeReturns
  split_ifs <;> exact key

theorem MutexInv.proceed_inOrder {a : Pending T}
    (hs : mutexStep fuel s (.proceed a) = some s') : InOrder s'.kernel s'.waiting := by
  simp only [mutexStep] at hs
  split_ifs at hs
  cases hs
  cases a with
  | check t => exact ho
  | unlink t =>
    have h1 : InOrder (s.kernel.listRemove t) s.waiting :=
      ho.sublist _ (fun _ => rfl) (fun _ => rfl) (fun _ => List.erase_sublist)
        fun _ _ hty _ => hty
    exact h1.setThread t (fun th => { th with threadTimer := false }) fun _ => rfl
  | insert t =>
    refine ho.sublist (s.kernel.scheduleInsertThread t) (fun u => ?_)
      (fun o => by rw [scheduleInsertThread_object])
      (fun o => by rw [scheduleInsertThread_waiters])
      fun _ o hty _ => by rwa [scheduleInsertThread_object] at hty
    unfold prioOf
    rw [scheduleInsertThread_thread, setThread_apply]
    split_ifs with e
    · rw [e]
    · rfl

/-- A change of priority by the user. -/
theorem MutexInv.changePriority_inOrder (hok : orderOk fuel s (.changePriority t p) = true) :
    InOrder (s.kernel.threadChangePriority t p) s.waiting := by
  have hl := h.wf.linked
  obtain ⟨h1, h2⟩ := Bool.and_eq_true_iff.mp (Bool.and_eq_true_iff.mp hok).2
  refine ho.alike (changePriority_alike hl t p) fun o hf => ?_
  by_cases ht : t ∈ s.kernel.waiters o
  · refine (ho.sorted o hf).keepsPlace hl hf ?_
    by_cases hm : (s.kernel.object o).type = .mutex
    · rw [(h.wf.waiting t o hm ht).1] at h1
      exact h1
    · rw [ho.waits t o hm ht] at h2
      exact h2
  · exact ((ho.sorted o hf).changePriority hl p).stop fun ht' =>
      ht (changePriority_waiters hl t p o ▸ ht')

end

/-- **Every step keeps the lists sorted.** -/
theorem mutexStep_inOrder {s s' : MutexState T O} {a : MutexLabel T O} (h : MutexInv s)
    (ho : InOrder s.kernel s.waiting) (hok : orderOk fuel s a = true)
    (hs : mutexStep fuel s a = some s') : InOrder s'.kernel s'.waiting := by
  cases a with
  | start =>
    simp only [mutexStep] at hs
    split_ifs at hs
    obtain ⟨k', hk', rfl⟩ := Option.map_eq_some_iff.mp hs
    exact ho.dispatched (systemSchedulerStart_dispatched h.wf.linked hk')
  | schedule =>
    obtain ⟨k', hk', rfl⟩ := Option.map_eq_some_iff.mp hs
    exact ho.dispatched (rtSchedule_dispatched h.wf.linked hk')
  | yield =>
    obtain ⟨c, -, rfl⟩ := Option.map_eq_some_iff.mp hs
    exact ho.dispatched (threadYield_dispatched h.wf.linked c)
  | startup t =>
    simp only [mutexStep] at hs
    split_ifs at hs
    cases hs
    exact ho.setThread t (fun th => { th with numberMask := priorityMask th.currentPriority,
                                              stat := .suspend .interruptible, yieldFlag := false })
      fun _ => rfl
  | resume t => cases hs; exact ho
  | proceed a => exact h.proceed_inOrder ho hs
  | suspend flag =>
    obtain ⟨c, hc, rfl⟩ := Option.map_eq_some_iff.mp hs
    rw [threadSuspend_eq (MutexState.self_eq hc).2.1]
    exact ho.suspendSelf c flag
  | sleep =>
    obtain ⟨c, hc, rfl⟩ := Option.map_eq_some_iff.mp hs
    exact ho.threadSleep (MutexState.self_eq hc).2.1
  | timeout t =>
    simp only [mutexStep] at hs
    split_ifs at hs
    cases hs
    exact ho.wake t (fun th => { th with error := .etimeout, threadTimer := false }) fun _ => rfl
  | changePriority t p => cases hs; exact h.changePriority_inOrder ho hok
  | take m timeout flag => exact h.take_inOrder ho hok hs
  | takeResume => exact h.takeResume_inOrder ho hok hs
  | release m =>
    simp only [mutexStep] at hs
    split_ifs at hs
    obtain ⟨c, hc, rfl⟩ := Option.map_eq_some_iff.mp hs
    have key := ho.mutexRelease h.wf (MutexState.self_eq hc).2.1 (m := m) (Prod.eta _).symm
    split_ifs <;> exact key
  | setprioceiling m p =>
    simp only [mutexStep] at hs
    split_ifs at hs with hm
    obtain ⟨k', hk', rfl⟩ := Option.map_eq_some_iff.mp hs
    refine ho.mutexSetprioceiling h.wf (fun hp o howner => ?_) hk'
    have := (Bool.and_eq_true_iff.mp hok).2
    simpa [howner, hp] using this
  | detachMutex m =>
    simp only [mutexStep] at hs
    split_ifs at hs with hm
    cases hs
    exact ho.mutexDetach h.wf hm
  | detachThread t =>
    obtain ⟨k', hk', rfl⟩ := Option.map_eq_some_iff.mp hs
    obtain ⟨k₁, hk₁⟩ : ∃ k₁, k₁ = (s.kernel.threadDetachUnlink t).setThread t fun th =>
      { th with threadTimer := false, stat := .close, yieldFlag := false } := ⟨_, rfl⟩
    refine ho.threadDetach h.wf hk₁ (fun m hp hm => ?_) hk'
    have : ((k₁.thread t).pendingObject.all fun m => decide ((k₁.object m).type ≠ .mutex) ||
        leftOk s.waiting fuel (k₁.listRemove t) m t) = true := by
      rw [hk₁]; exact (Bool.and_eq_true_iff.mp hok).2
    rw [hp, Option.all_some, Bool.or_eq_true, decide_eq_true_eq] at this
    exact this.resolve_left fun h => h hm
  | ipcWait o timeout flag =>
    simp only [mutexStep] at hs
    split_ifs at hs
    obtain ⟨c, hc, rfl⟩ := Option.map_eq_some_iff.mp hs
    exact ho.ipcWait h.wf.linked (MutexState.self_eq hc).2.1 o timeout flag
  | ipcWake o =>
    simp only [mutexStep] at hs
    split_ifs at hs
    obtain ⟨k', hk', rfl⟩ := Option.map_eq_some_iff.mp hs
    unfold ipcListResume at hk'
    split at hk'
    · cases hk'
    · next t l hl =>
      cases hk'
      have ht : t ∈ s.kernel.waiters o := by rw [waiters, hl]; exact List.mem_cons_self
      rw [ipcResumeThread_eq (h.wf.linked.suspend ht)]
      exact ho.wake t (fun th => { th with error := .eok, threadTimer := false }) fun _ => rfl
  | eventWake o t =>
    simp only [mutexStep] at hs
    split_ifs at hs with he
    cases hs
    rw [ipcResumeThread_eq (h.wf.linked.suspend he.2)]
    exact ho.wake t (fun th => { th with error := .eok, threadTimer := false }) fun _ => rfl

theorem MutexInit.inOrder {s : MutexState T O} (h : MutexInit s) :
    InOrder s.kernel s.waiting := by
  obtain ⟨priority, object, hk, -, -⟩ := h.kernel
  rw [hk]
  exact ⟨fun _ _ => List.Pairwise.nil, fun _ _ _ ht => nomatch ht⟩

/-- **Priority-ordered waiting in every run.** -/
theorem waitOrder_invariant {s : MutexState T O}
    (hs : (mutexSystem T O fuel).Reach (orderOk fuel) s) : WaitOrderOk s.kernel :=
  (hs.invariant (I := fun s => MutexInv s ∧ InOrder s.kernel s.waiting)
    (fun _ (h : MutexInit _) => ⟨h.inv, h.inOrder⟩) fun _ _ _ h hok hst =>
      ⟨mutexStep_inv h.1 (Bool.and_eq_true_iff.mp hok).1 hst,
        mutexStep_inOrder h.1 h.2 hok hst⟩).2.ok

/-! ## A change of priority of a waiting thread -/

/-- Three threads of priorities 10, 12 and 15, and a semaphore. -/
def oneSemaphore : MutexState (Fin 3) Unit where
  kernel := .initial (fun t => if t = 0 then 10 else if t = 1 then 12 else 15) fun _ =>
    { type := .semaphore, flag := .prio, ceilingPriority := 0, priority := 0, hold := 0, owner := none }
  taking _ := none
  resumes := []
  depth _ _ := 0
  returned := none
  waiting _ := none

theorem oneSemaphore_init : MutexInit oneSemaphore :=
  ⟨⟨_, _, rfl, by decide, fun _ => ⟨rfl, fun h => nomatch h⟩⟩, fun _ => rfl, rfl, fun _ _ => rfl,
    rfl, fun _ => rfl⟩

/-- Threads 0 and 1 wait for the semaphore, thread 2 runs. -/
def waitTrace : List (MutexLabel (Fin 3) Unit) :=
  [.startup 0] ++ resumeTrace 0 ++ [.startup 1] ++ resumeTrace 1 ++ [.startup 2] ++ resumeTrace 2 ++
    [.start, .ipcWait () (-1) .uninterruptible, .schedule, .ipcWait () (-1) .uninterruptible,
      .schedule]

/-- Thread 1 may be given a priority that keeps its place. -/
theorem waitOrderOk_witness : ∃ s, (mutexSystem (Fin 3) Unit 4).Reach (orderOk 4) s ∧
    s.kernel.waiters () = [0, 1] ∧ s.kernel.prioOf 1 = 11 ∧ WaitOrderOk s.kernel := by
  obtain ⟨s, hs, hp⟩ := System.exists_reach (mutexSystem (Fin 3) Unit 4) (orderOk 4)
    (fun s => s.kernel.waiters () = [0, 1] ∧ s.kernel.prioOf 1 = 11) oneSemaphore_init
    (waitTrace ++ [.changePriority 1 11]) (by decide)
  obtain ⟨hl, hpr⟩ := of_decide_eq_true hp
  exact ⟨s, hs, hl, hpr, waitOrder_invariant hs⟩

/-- **`RT_THREAD_CTRL_CHANGE_PRIORITY` leaves a waiting thread where it is.** -/
theorem waitOrderOk_counterexample : ∃ s, (mutexSystem (Fin 3) Unit 4).Reach resumeOk s ∧
    ¬ WaitOrderOk s.kernel := by
  obtain ⟨s, hs, hp⟩ := System.exists_reach (mutexSystem (Fin 3) Unit 4) resumeOk
    (fun s => (s.kernel.object ()).flag = .prio ∧ s.kernel.waiters () = [0, 1] ∧
      s.kernel.prioOf 0 = 20 ∧ s.kernel.prioOf 1 = 12) oneSemaphore_init
    (waitTrace ++ [.changePriority 0 20]) (by decide)
  obtain ⟨hf, hl, h0, h1⟩ := of_decide_eq_true hp
  refine ⟨s, hs, fun h => ?_⟩
  have := h.first () 0 [1] hf hl 1 (by rw [hl]; decide)
  rw [h0, h1] at this
  exact absurd this (by decide)

end RtThread
