import Mathlib.Data.Set.Finite.Basic
import RtThread.Lib.Walk
import RtThread.Mutex.Inheritance

/-!
# The propagation of priorities ends

`_thread_update_priority` hands a priority on along the owners. Behind a re-insertion the mutex has at
most the priority of the thread, so the priority handed on never grows, and the loop stops at an owner
that has its right priority: it ends on cycles too.

* `headPriority_reinsert_le`, `updateLoop_next`, `updateLoop_stop`: one iteration;
* **`updateLoop_ends`**, `threadUpdatePriority_ends`, `mutexTake_ends`: the loops and calls end;
* `takesOnly`, `TakesInv`: the runs of takes and releases whose waits do not time out;
* `WaitsFor`; **`priority_propagation`**: nobody on the chain is below the thread that blocks.
-/

set_option linter.unusedSectionVars false

namespace RtThread

namespace Kernel

open Queues

variable {T O : Type} [DecidableEq T] [DecidableEq O] {k k' : Kernel T O} {taking : T → Option O}
  {t u c o' : T} {m o : O} {fuel : ℕ} {flag : SuspendFlag}

/-! ## One iteration -/

theorem insertByKey_head_le {N : Type} {key : N → ℕ} {n a : N} {l l' : List N}
    (h : insertByKey key n l = a :: l') : key a ≤ key n := by
  cases l with
  | nil =>
    cases h
    exact Nat.le_refl _
  | cons b l =>
    rw [insertByKey] at h
    split_ifs at h with hlt
    · cases h
      exact Nat.le_refl _
    · cases h
      exact Nat.le_of_not_lt hlt

/-- **Behind a re-insertion the first waiter is not below the thread.** -/
theorem headPriority_reinsert_le (h : Wf k taking) (ht : t ∈ k.waiters m) (hm : (k.object m).type = .mutex) :
    (k.reinsert m t).headPriority m ≤ k.prioOf t := by
  have hw := reinsert_waiters h.linked ht (h.prioFlag m hm) m
  rw [if_pos rfl] at hw
  unfold headPriority
  rw [hw]
  cases hins : insertByKey k.prioOf t ((k.waiters m).erase t) with
  | nil => exact absurd hins (insertByKey_ne_nil _ _ _)
  | cons a l => exact insertByKey_head_le hins

/-- The loop goes on with the owner. -/
theorem updateLoop_next (hs : (k.thread t).stat.isSuspend = true)
    (hp : (k.thread t).pendingObject = some m) (hm : (k.object m).type = .mutex)
    (ho : (k.object m).owner = some o') :
    threadUpdatePriorityLoop flag (fuel + 1) k t =
      if (k.reinsert m t).threadGetMutexPriority o' ≠ (k.reinsert m t).prioOf o' then
        threadUpdatePriorityLoop flag fuel ((k.reinsert m t).threadChangePriority o'
          ((k.reinsert m t).threadGetMutexPriority o')) o'
      else some (k.reinsert m t) := by
  have hsus : (k.listRemove t).ipcListSuspend m t flag = (.eok, (k.listRemove t).ipcListInsert m t) := by
    rw [ipcListSuspend, if_pos (by exact hs)]
  have how : ((k.reinsert m t).object m).owner = some o' := by
    rw [reinsert_object, if_pos rfl]
    exact ho
  rw [threadUpdatePriorityLoop, if_pos hs]
  simp only [hp]
  rw [if_pos hm, hsus]
  dsimp only
  rw [← reinsert]
  simp only [how]

/-- The loop stops at a thread that waits for no mutex. -/
theorem updateLoop_stop (h : (k.thread t).stat.isSuspend = true →
    ∀ m, (k.thread t).pendingObject = some m → (k.object m).type ≠ .mutex) :
    threadUpdatePriorityLoop flag (fuel + 1) k t = some k := by
  rw [threadUpdatePriorityLoop]
  by_cases hs : (k.thread t).stat.isSuspend = true
  · rw [if_pos hs]
    cases hp : (k.thread t).pendingObject with
    | none => rfl
    | some m => exact if_neg (h hs m hp)
  · rw [if_neg hs]

/-! ## The loop ends -/

/-- **The loop ends**, whatever the owners wait for. -/
theorem updateLoop_ends {S : Finset T} (h : Wf k taking)
    (hS : ∀ u, (k.thread u).stat.isSuspend = true → u ∈ S)
    (hn : handBound S k.prioOf (k.prioOf t) + 1 < fuel) :
    ∃ k', threadUpdatePriorityLoop flag fuel k t = some k' := by
  induction fuel generalizing k t with
  | zero => omega
  | succ fuel ih =>
    by_cases hwait : (k.thread t).stat.isSuspend = true ∧
        ∃ m, (k.thread t).pendingObject = some m ∧ (k.object m).type = .mutex
    · obtain ⟨hs, m, hp, hm⟩ := hwait
      have htm := h.pendingLinked t m hs hp hm
      obtain ⟨o, ho, -⟩ := h.blocked t m hm htm
      have hl := h.linked.reinsert hs m
      have ha := reinsert_alike h.linked htm
      rw [updateLoop_next hs hp hm ho]
      by_cases hne : (k.reinsert m t).threadGetMutexPriority o ≠ (k.reinsert m t).prioOf o
      · rw [if_pos hne]
        have ha' := ha.trans (changePriority_alike hl o ((k.reinsert m t).threadGetMutexPriority o))
        have hl' := hl.changePriority o ((k.reinsert m t).threadGetMutexPriority o)
        have hpr := changePriority_prioOf hl o ((k.reinsert m t).threadGetMutexPriority o)
        -- what is handed on is not above what the thread had
        have hle : (k.reinsert m t).threadGetMutexPriority o ≤ k.prioOf t := by
          have hmem : m ∈ ((k.reinsert m t).thread o).takenObjectList := by
            rw [ha.taken]
            exact (h.owned o m).mpr ⟨ho, hm⟩
          rw [threadGetMutexPriority_eq]
          refine (leastOver_le_of_mem hmem).trans ((min_le_left _ _).trans ?_)
          rw [reinsert_object, if_pos rfl]
          exact headPriority_reinsert_le h htm hm
        by_cases hsus : (k.thread o).stat.isSuspend = true
        · refine ih (h.alike hl' ha') (fun u hu => hS u ((ha'.isSuspend u).mp hu)) ?_
          have hlt := handBound_lt (f := k.prioOf) (hS o hsus) hle (Ne.symm hne) (hpr ·)
          rw [hpr o, if_pos rfl]
          omega
        · cases fuel with
          | zero => omega
          | succ fuel =>
            exact ⟨_, updateLoop_stop fun hs' => absurd ((ha'.isSuspend o).mp hs') hsus⟩
      · rw [if_neg hne]
        exact ⟨_, rfl⟩
    · refine ⟨k, updateLoop_stop fun hs m hp hm => hwait ⟨hs, m, hp, hm⟩⟩

/-- More turns do not change the result. -/
theorem updateLoop_mono {fuel' : ℕ} (hle : fuel ≤ fuel')
    (h : threadUpdatePriorityLoop flag fuel k t = some k') :
    threadUpdatePriorityLoop flag fuel' k t = some k' := by
  induction fuel generalizing k t fuel' with
  | zero => cases h
  | succ fuel ih =>
    obtain ⟨n, rfl⟩ : ∃ n, fuel' = n + 1 := ⟨fuel' - 1, by omega⟩
    rcases updateLoop_cases h with ⟨hstop, rfl⟩ | ⟨m, o, hs, hp, hm, ho, hr⟩
    · exact updateLoop_stop hstop
    · rw [updateLoop_next hs hp hm ho]
      rcases hr with ⟨heq, rfl⟩ | ⟨hne, hr⟩
      · rw [if_neg (not_not.mpr heq)]
      · rw [if_pos hne]
        exact ih (by omega) hr

/-- **`_thread_update_priority` ends.** -/
theorem threadUpdatePriority_ends (h : Wf k taking)
    (hfin : {u | (k.thread u).stat.isSuspend = true}.Finite) (t : T) (p : ℕ) (flag : SuspendFlag) :
    ∃ n k', ∀ j, n ≤ j → k.threadUpdatePriority j t p flag = some k' := by
  have ha := changePriority_alike h.linked t p
  obtain ⟨k', hk'⟩ : ∃ k', threadUpdatePriorityLoop flag _ (k.threadChangePriority t p) t = some k' :=
    updateLoop_ends (S := hfin.toFinset) (h.alike (h.linked.changePriority t p) ha)
      (fun u hu => hfin.mem_toFinset.mpr ((ha.isSuspend u).mp hu)) (Nat.lt_succ_self _)
  exact ⟨_, k', fun j hj => updateLoop_mono hj hk'⟩

/-- The loop stops at once at a thread that runs. -/
theorem threadUpdatePriority_running (hk : Linked k) (hc : (k.thread c).stat = .running) (p : ℕ)
    (flag : SuspendFlag) {j : ℕ} (hj : 1 ≤ j) :
    k.threadUpdatePriority j c p flag = some (k.threadChangePriority c p) := by
  obtain ⟨n, rfl⟩ : ∃ n, j = n + 1 := ⟨j - 1, by omega⟩
  refine updateLoop_stop fun hs => ?_
  rw [(changePriority_alike hk c p).isSuspend, hc] at hs
  cases hs

section

variable (h : Wf k taking) (hfin : {u | (k.thread u).stat.isSuspend = true}.Finite)
  (hc : (k.thread c).stat = .running) (hm : (k.object m).type = .mutex)
include h hc hm

theorem mutexTakeFree_ends (flag : SuspendFlag) :
    ∃ r, ∀ j, 1 ≤ j → k.mutexTakeFree j c m flag = some r := by
  have hl : Linked (k.takeObject c m) := h.linked.setObject m _
  unfold mutexTakeFree
  dsimp only
  rw [← takeObject]
  by_cases hce : ((k.takeObject c m).object m).ceilingPriority ≠ 0xff ∧
      ((k.takeObject c m).object m).ceilingPriority < (k.takeObject c m).prioOf c
  · refine ⟨((k.takeObject c m).threadChangePriority c
      ((k.takeObject c m).object m).ceilingPriority).takenInsert c m, fun j hj => ?_⟩
    rw [if_pos hce, threadUpdatePriority_running hl hc _ flag hj]
    rfl
  · refine ⟨(k.takeObject c m).takenInsert c m, fun j _ => ?_⟩
    rw [if_neg hce]
    rfl

include hfin

theorem mutexTakeWait_ends (htc : taking c = none) (hce : (k.thread c).error = .eok)
    (ho : (k.object m).owner = some t) (htc' : t ≠ c) (timeout : ℤ) (flag : SuspendFlag) :
    ∃ n r, ∀ j, n ≤ j → k.mutexTakeWait j c t m timeout flag = some r := by
  obtain ⟨k₁, hk₁⟩ : ∃ k₁, k₁ = k.waitFor c m flag := ⟨_, rfl⟩
  have hw : Wf k₁ (Function.update taking c (some m)) :=
    hk₁ ▸ h.waitFor hc htc hm hce ho htc' flag
  have hfin₁ : {u | (k₁.thread u).stat.isSuspend = true}.Finite := by
    refine (hfin.insert c).subset fun u hu => ?_
    by_cases huc : u = c
    · exact .inl huc
    · refine .inr ?_
      have hth : k₁.thread u = k.thread u := by
        rw [hk₁]
        simp [waitFor, suspendOn_thread, huc]
      show (k.thread u).stat.isSuspend = true
      rw [← hth]
      exact hu
  obtain ⟨n, k₂, hk₂⟩ := threadUpdatePriority_ends
    (hw.setObject m (fun x => { x with priority := k.prioOf c }) fun _ => ⟨rfl, rfl, rfl⟩) hfin₁ t
    (k.prioOf c) .uninterruptible
  unfold mutexTakeWait
  rw [ipcListSuspend_eq hc]
  dsimp only
  rw [← waitFor, ← hk₁]
  by_cases hlt : k.prioOf c < (k₁.object m).priority
  · simp only [if_pos hlt]
    by_cases hlt' : k.prioOf c < (k₁.setObject m fun x => { x with priority := k.prioOf c }).prioOf t
    · simp only [if_pos hlt']
      refine ⟨n, (.blocked, if 0 < timeout then
        k₂.setThread c fun th => { th with threadTimer := true } else k₂), fun j hj => ?_⟩
      rw [hk₂ j hj]
      rfl
    · simp only [if_neg hlt']
      exact ⟨n, _, fun j _ => rfl⟩
  · simp only [if_neg hlt]
    exact ⟨n, _, fun j _ => rfl⟩

/-- **`_rt_mutex_take` ends** or puts the thread to sleep. -/
theorem mutexTake_ends (htc : taking c = none) (timeout : ℤ) (flag : SuspendFlag) :
    ∃ n r, ∀ j, n ≤ j → k.mutexTake j c m timeout flag = some r := by
  obtain ⟨k₀, hk₀⟩ : ∃ k₀, k₀ = k.setThread c fun th => { th with error := .eok } := ⟨_, rfl⟩
  have h₀ : Wf k₀ taking :=
    hk₀ ▸ (Keeps.setSelf h hc htc (fun th => { th with error := .eok }) fun _ => ⟨rfl, rfl, rfl⟩).wf
  have hstat : ∀ u, (k₀.thread u).stat = (k.thread u).stat := by
    intro u
    rw [hk₀]
    by_cases hu : u = c
    · rw [hu, setThread_self]
    · rw [setThread_of_ne _ hu]
  have hfin₀ : {u | (k₀.thread u).stat.isSuspend = true}.Finite := by
    simp only [hstat]
    exact hfin
  have hrun₀ : (k₀.thread c).stat = .running := (hstat c).trans hc
  have hm₀ : (k₀.object m).type = .mutex := by
    rw [hk₀]
    exact hm
  unfold mutexTake
  dsimp only
  rw [← hk₀]
  cases ho : (k₀.object m).owner with
  | none =>
    obtain ⟨r, hr⟩ := mutexTakeFree_ends h₀ hrun₀ hm₀ flag
    exact ⟨1, (.ret .eok, r), fun j hj => by simp only [hr j hj, Option.map_some]⟩
  | some o =>
    by_cases hoc : o = c
    · simp only [if_pos hoc]
      by_cases hhold : (k₀.object m).hold < mutexHoldMax
      · simp only [if_pos hhold]
        exact ⟨0, _, fun _ _ => rfl⟩
      · simp only [if_neg hhold]
        exact ⟨0, _, fun _ _ => rfl⟩
    · by_cases hto : timeout = 0
      · simp only [if_neg hoc, if_pos hto]
        exact ⟨0, _, fun _ _ => rfl⟩
      · obtain ⟨n, r, hr⟩ := mutexTakeWait_ends h₀ hfin₀ hrun₀ hm₀ htc
          (by rw [hk₀, setThread_self]) ho hoc timeout flag
        refine ⟨n, r, fun j hj => ?_⟩
        simp only [if_neg hoc, if_neg hto]
        exact hr j hj

end

end Kernel

open Kernel

variable {T O : Type} [DecidableEq T] [DecidableEq O] {fuel : ℕ} {s s' : MutexState T O}
  {k k' k'' : Kernel T O} {c : Option T}

/-! ## Runs of takes and releases -/

/-- The thread of a section in flight. -/
def Pending.thread : Pending T → T
  | .check t | .unlink t | .insert t => t

/-- Threads are started and scheduled, take mutexes and release them, and no wait times out. -/
def takesOnly (_ : MutexState T O) : MutexLabel T O → Bool
  | .start | .schedule | .yield | .startup _ | .proceed _ | .take _ _ _ | .takeResume | .release _ => true
  | _ => false

/-- Only the thread `c` may have another phase or error. -/
structure Touches (k k' : Kernel T O) (c : Option T) : Prop where
  thread : ∀ u, c ≠ some u → (k'.thread u).stat.phase = (k.thread u).stat.phase ∧
    (k'.thread u).error = (k.thread u).error
  object : ∀ o, (k'.object o).type = (k.object o).type ∧
    (k'.object o).ceilingPriority = (k.object o).ceilingPriority

theorem Touches.trans (h : Touches k k' c) (h' : Touches k' k'' c) : Touches k k'' c where
  thread u hu := ⟨(h'.thread u hu).1.trans (h.thread u hu).1, (h'.thread u hu).2.trans (h.thread u hu).2⟩
  object o := ⟨(h'.object o).1.trans (h.object o).1, (h'.object o).2.trans (h.object o).2⟩

theorem Kernel.Alike.touches (h : Alike k k') : Touches k k' c where
  thread u _ := ⟨h.phase u, h.error u⟩
  object o := ⟨h.type o, h.ceiling o⟩

theorem touches_setThread (k : Kernel T O) (t : T) (f : Thread O → Thread O) :
    Touches k (k.setThread t f) (some t) where
  thread u hu := by
    rw [setThread_of_ne _ fun e => hu (congrArg some e.symm)]
    exact ⟨rfl, rfl⟩
  object _ := ⟨rfl, rfl⟩

theorem touches_setObject (k : Kernel T O) (m : O) (f : IpcObject T → IpcObject T)
    (hf : ∀ x, (f x).type = x.type ∧ (f x).ceilingPriority = x.ceilingPriority) :
    Touches k (k.setObject m f) c where
  thread _ _ := ⟨rfl, rfl⟩
  object o := by
    by_cases ho : o = m
    · rw [ho, setObject_self]
      exact hf _
    · rw [setObject_of_ne _ ho]
      exact ⟨rfl, rfl⟩

/-- **What such runs keep**: finitely many threads are suspended, no clean-up is to come, a thread that
is being started waits for nothing, and no mutex has a ceiling. -/
structure TakesInv (s : MutexState T O) : Prop where
  finite : {t | (s.kernel.thread t).stat.isSuspend = true}.Finite
  cleaned : CleanedUp s
  starting : ∀ a ∈ s.resumes, s.taking a.thread = none ∧
    (s.kernel.thread a.thread).stat.isSuspend = true
  once : (s.resumes.map Pending.thread).Nodup
  ceiling : ∀ m, (s.kernel.object m).type = .mutex → (s.kernel.object m).ceilingPriority = 0xff

/-- A step that touches one thread. -/
theorem TakesInv.touches (h : TakesInv s) (hk : Touches s.kernel s'.kernel c)
    (htk : ∀ u, c ≠ some u → s'.taking u = s.taking u)
    (hc : ∀ t m, c = some t → s'.taking t = some m →
      (s'.kernel.thread t).stat.isSuspend = true ∨ (s'.kernel.thread t).error = .eok)
    (hres : ∀ a ∈ s'.resumes, c ≠ some a.thread → ∃ b ∈ s.resumes, b.thread = a.thread)
    (hresc : ∀ a ∈ s'.resumes, c = some a.thread → s'.taking a.thread = none ∧
      (s'.kernel.thread a.thread).stat.isSuspend = true)
    (hnd : (s'.resumes.map Pending.thread).Nodup) : TakesInv s' where
  finite := by
    refine (h.finite.union (Set.finite_singleton c |>.preimage
      (Option.some_injective T).injOn)).subset fun u hu => ?_
    by_cases huc : c = some u
    · exact .inr huc.symm
    · refine .inl ?_
      show (s.kernel.thread u).stat.isSuspend = true
      rw [Stat.isSuspend_iff, ← (hk.thread u huc).1, ← Stat.isSuspend_iff]
      exact hu
  cleaned t m ht := by
    by_cases htc : c = some t
    · exact hc t m htc ht
    · rw [htk t htc] at ht
      rw [Stat.isSuspend_iff, (hk.thread t htc).1, (hk.thread t htc).2, ← Stat.isSuspend_iff]
      exact h.cleaned t m ht
  starting a ha := by
    by_cases hac : c = some a.thread
    · exact hresc a ha hac
    · obtain ⟨b, hb, hba⟩ := hres a ha hac
      have hst := h.starting b hb
      rw [hba] at hst
      rw [htk _ hac, Stat.isSuspend_iff, (hk.thread _ hac).1, ← Stat.isSuspend_iff]
      exact hst
  once := hnd
  ceiling m hm := by
    rw [(hk.object m).1] at hm
    rw [(hk.object m).2]
    exact h.ceiling m hm

namespace TakesInv

/-- Scheduling and changes of priority. -/
theorem alike (h : TakesInv s) (ha : Alike s.kernel k') : TakesInv (s.withKernel k') := by
  have ht : Touches s.kernel (s.withKernel k').kernel none := ha.touches
  exact h.touches ht (fun _ _ => rfl) (fun _ _ hc => nomatch hc) (fun a ha _ => ⟨a, ha, rfl⟩)
    (fun _ _ hc => nomatch hc) h.once

variable (h : TakesInv s)
include h

/-- A section in flight is the only one of its thread. -/
theorem erase {a : Pending T} (ha : a ∈ s.resumes) :
    a.thread ∉ (s.resumes.erase a).map Pending.thread ∧
      ((s.resumes.erase a).map Pending.thread).Nodup := by
  have hperm := (List.perm_cons_erase ha).map Pending.thread
  have hnd := hperm.nodup_iff.mp h.once
  rw [List.map_cons] at hnd
  exact List.nodup_cons.mp hnd

theorem startup (hi : MutexInv s) {t : T} (hs : mutexStep fuel s (.startup t) = some s') :
    TakesInv s' := by
  simp only [mutexStep] at hs
  split_ifs at hs with hinit
  cases hs
  have hout : ∀ a ∈ s.resumes, a.thread ≠ t := by
    intro a ha e
    have hst := (h.starting a ha).2
    rw [e, hinit] at hst
    cases hst
  have hk : Touches s.kernel (s.kernel.threadStartupStore t) (some t) := touches_setThread _ _ _
  refine h.touches hk (fun _ _ => rfl) (fun u m hu htk => ?_) (fun a ha hat => ?_) (fun a ha hat => ?_) ?_
  · cases hu
    exact absurd hinit (hi.wf.alive t m htk).2
  · rcases List.mem_cons.mp ha with rfl | ha
    · exact absurd rfl hat
    · exact ⟨a, ha, rfl⟩
  · cases hat
    have htk : s.taking a.thread = none := by
      cases htk : s.taking a.thread with
      | none => rfl
      | some m => exact absurd hinit (hi.wf.alive _ m htk).2
    refine ⟨htk, ?_⟩
    show ((s.kernel.threadStartupStore a.thread).thread a.thread).stat.isSuspend = true
    unfold threadStartupStore
    rw [setThread_self]
    rfl
  · refine List.nodup_cons.mpr ⟨fun hmem => ?_, h.once⟩
    obtain ⟨a, ha, he⟩ := List.mem_map.mp hmem
    exact hout a ha he

theorem proceed {a : Pending T} (hs : mutexStep fuel s (.proceed a) = some s') :
    inheritOk s (.proceed a) = true ∧ TakesInv s' := by
  simp only [mutexStep] at hs
  split_ifs at hs with ha
  cases hs
  obtain ⟨hfree, hsus⟩ := h.starting a ha
  obtain ⟨hout, hnd⟩ := h.erase ha
  have hrest : ∀ b ∈ s.resumes.erase a, b.thread ≠ a.thread := fun b hb e =>
    hout (List.mem_map.mpr ⟨b, hb, e⟩)
  have hkeep : ∀ b ∈ s.resumes.erase a, ∃ d ∈ s.resumes, d.thread = b.thread := fun b hb =>
    ⟨b, List.mem_of_mem_erase hb, rfl⟩
  cases a with
  | check t =>
    have hsus' : (s.kernel.thread t).stat.isSuspend = true := hsus
    have hsec : s.kernel.resumeSection (.check t) = (s.kernel, [.unlink t]) := by
      unfold resumeSection
      dsimp only
      rw [if_pos hsus']
    refine ⟨rfl, ?_⟩
    rw [hsec]
    refine h.touches (c := none) ⟨fun _ _ => ⟨rfl, rfl⟩, fun _ => ⟨rfl, rfl⟩⟩ (fun _ _ => rfl)
      (fun _ _ hc => by cases hc) (fun b hb _ => ?_) (fun _ _ hc => by cases hc)
      (List.nodup_cons.mpr ⟨hout, hnd⟩)
    rcases List.mem_cons.mp hb with rfl | hb
    · exact ⟨_, ha, rfl⟩
    · exact hkeep b hb
  | unlink t =>
    have hins : Pending.insert t ∉ s.resumes := by
      intro hin
      have hin' : Pending.insert t ∈ s.resumes.erase (.unlink t) :=
        (List.mem_erase_of_ne (by simp)).mpr hin
      exact hrest _ hin' rfl
    refine ⟨?_, ?_⟩
    · have hsus' : (s.kernel.thread t).stat.isSuspend = true := hsus
      have hfree' : s.taking t = none := hfree
      simp [inheritOk, keepsPriorities, resumeOk, hsus', hfree', hins]
    · have hk : Touches s.kernel (s.kernel.threadResumeUnlink t) none := by
        refine ⟨fun u _ => ?_, fun _ => ⟨rfl, rfl⟩⟩
        unfold threadResumeUnlink
        by_cases hu : u = t
        · rw [hu, setThread_self]
          exact ⟨rfl, rfl⟩
        · rw [setThread_of_ne _ hu]
          exact ⟨rfl, rfl⟩
      refine h.touches hk (fun _ _ => rfl) (fun _ _ hc => by cases hc) (fun b hb _ => ?_)
        (fun _ _ hc => by cases hc) (List.nodup_cons.mpr ⟨hout, hnd⟩)
      rcases List.mem_cons.mp hb with rfl | hb
      · exact ⟨_, ha, rfl⟩
      · exact hkeep b hb
  | insert t =>
    refine ⟨rfl, ?_⟩
    have hk : Touches s.kernel (s.kernel.scheduleInsertThread t) (some t) := by
      refine ⟨fun u hu => ?_, fun o => ?_⟩
      · rw [scheduleInsertThread_thread, setThread_of_ne _ fun e => hu (congrArg some e.symm)]
        exact ⟨rfl, rfl⟩
      · rw [scheduleInsertThread_object]
        exact ⟨rfl, rfl⟩
    refine h.touches hk (fun _ _ => rfl) (fun u m hu htk => ?_) (fun b hb _ => hkeep b hb)
      (fun b hb hbt => absurd (Option.some.inj hbt).symm (hrest b hb)) hnd
    cases hu
    have htk' : s.taking t = some m := htk
    exact absurd (htk'.symm.trans hfree) (by simp)

/-- The running thread is not being started. -/
theorem not_starting {t : T} (ht : (s.kernel.thread t).stat = .running) {a : Pending T}
    (ha : a ∈ s.resumes) : a.thread ≠ t := by
  intro e
  have hst := (h.starting a ha).2
  rw [e, ht] at hst
  cases hst

/-- A step of the running thread that touches only that thread. -/
theorem self {t : T} (ht : (s.kernel.thread t).stat = .running)
    (hk : Touches s.kernel s'.kernel (some t)) (htk : ∀ u ≠ t, s'.taking u = s.taking u)
    (hc : ∀ m, s'.taking t = some m →
      (s'.kernel.thread t).stat.isSuspend = true ∨ (s'.kernel.thread t).error = .eok)
    (hres : s'.resumes = s.resumes) : TakesInv s' := by
  refine h.touches hk (fun u hu => htk u fun e => hu (congrArg some e.symm))
    (fun u m hu => Option.some.inj hu ▸ hc m) (fun a ha _ => ?_) (fun a ha hat => ?_) ?_
  · rw [hres] at ha
    exact ⟨a, ha, rfl⟩
  · rw [hres] at ha
    exact absurd (Option.some.inj hat).symm (h.not_starting ht ha)
  · rw [hres]
    exact h.once

theorem take (hi : MutexInv s) {m : O} {timeout : ℤ} {flag : SuspendFlag}
    (hs : mutexStep fuel s (.take m timeout flag) = some s') : TakesInv s' := by
  simp only [mutexStep] at hs
  split_ifs at hs with hm
  obtain ⟨t, ht, hs⟩ := Option.bind_eq_some_iff.mp hs
  obtain ⟨⟨r, k'⟩, hr, hs⟩ := Option.bind_eq_some_iff.mp hs
  obtain ⟨-, hrun, htt⟩ := MutexState.self_eq ht
  obtain ⟨k₀, hk₀⟩ : ∃ k₀, k₀ = s.kernel.setThread t fun th => { th with error := .eok } :=
    ⟨_, rfl⟩
  have h₀ : Wf k₀ s.taking := hk₀ ▸ (Keeps.setSelf hi.wf hrun htt (fun th => { th with error := .eok })
    fun _ => ⟨rfl, rfl, rfl⟩).wf
  have hrun₀ : (k₀.thread t).stat = .running := by rw [hk₀, setThread_self]; exact hrun
  have herr₀ : (k₀.thread t).error = .eok := by rw [hk₀, setThread_self]
  have hm₀ : (k₀.object m).type = .mutex := by rw [hk₀]; exact hm
  have hobj₀ : k₀.object = s.kernel.object := by rw [hk₀]; rfl
  have ht₀ : Touches s.kernel k₀ (some t) := hk₀ ▸ touches_setThread _ _ _
  have hret : ∀ {e : Err} {k' : Kernel T O}, Touches s.kernel k' (some t) →
      TakesInv ((s.withKernel k').takeReturns t m e) := by
    intro e k' hk
    have hkern : ((s.withKernel k').takeReturns t m e).kernel = k' := by
      unfold MutexState.takeReturns
      split_ifs <;> rfl
    have htak : ((s.withKernel k').takeReturns t m e).taking = Function.update s.taking t none := by
      unfold MutexState.takeReturns
      split_ifs <;> rfl
    refine h.self hrun (by rw [hkern]; exact hk) (fun u hu => ?_) (fun x hx => ?_) ?_
    · rw [htak, Function.update_of_ne hu]
    · rw [htak, Function.update_self] at hx
      cases hx
    · unfold MutexState.takeReturns
      split_ifs <;> rfl
  rcases mutexTake_cases hr hk₀ with ⟨ho, rfl, hk'⟩ | ⟨-, rfl, rfl⟩ | ⟨-, rfl, rfl⟩ |
    ⟨o, ho, hoc, ⟨rfl, rfl⟩ | ⟨-, hk'⟩⟩
  · cases hs
    have hto : Touches k₀ (k₀.takeObject t m) (some t) :=
      touches_setObject _ _ _ fun _ => ⟨rfl, rfl⟩
    have hlo : Linked (k₀.takeObject t m) := h₀.linked.setObject m _
    rw [mutexTakeFree_eq h₀.linked hrun₀ hk']
    refine hret ((ht₀.trans ?_).trans (touches_setThread _ _ _))
    split_ifs
    · exact hto.trans (changePriority_alike hlo t _).touches
    · exact hto
  · cases hs
    exact hret (ht₀.trans (touches_setObject _ _ _ fun _ => ⟨rfl, rfl⟩))
  · cases hs
    exact hret ht₀
  · cases hs
    exact hret (ht₀.trans (touches_setThread _ _ _))
  · obtain ⟨rfl, k₂, hk₂', hk₂⟩ := mutexTakeWait_cases hrun₀ hk'
    cases hs
    have hw := h₀.waitFor hrun₀ htt hm₀ herr₀ (by rw [hobj₀]; exact ho) hoc flag
    have hthr : ∀ u ≠ t, (k₀.waitFor t m flag).thread u = k₀.thread u := fun u hu => by
      simp [waitFor, suspendOn_thread, hu]
    have hself : ((k₀.waitFor t m flag).thread t).stat.isSuspend = true := by
      simp [waitFor, suspendOn_thread, Stat.isSuspend]
    have htw : Touches k₀ (k₀.waitFor t m flag) (some t) := by
      refine ⟨fun u hu => ?_, fun _ => ⟨rfl, rfl⟩⟩
      rw [hthr u fun e => hu (congrArg some e.symm)]
      exact ⟨rfl, rfl⟩
    have hobj : Alike (k₀.waitFor t m flag)
        ((k₀.waitFor t m flag).setObject m fun x => { x with priority := k₀.prioOf t }) :=
      setObject_alike m _ rfl
    have ha₂ : Alike (k₀.waitFor t m flag) k₂ := by
      rcases hk₂ with ⟨-, rfl⟩ | ⟨-, ⟨-, rfl⟩ | ⟨-, hk₂⟩⟩
      · exact .refl _
      · exact hobj
      · exact hobj.trans (updatePriority_alike (hw.linked.setObject m _)
          (hobj.pendingLinked hw.pendingLinked) hk₂).2
    have hts : Touches s.kernel k' (some t) := by
      refine (ht₀.trans (htw.trans ha₂.touches)).trans ?_
      rcases hk₂' with rfl | rfl
      · exact touches_setThread _ _ _
      · exact (Alike.refl _).touches
    have hsus : (k'.thread t).stat.isSuspend = true := by
      have hsus₂ := (ha₂.isSuspend t).mpr hself
      rcases hk₂' with rfl | rfl
      · rw [setThread_self]
        exact hsus₂
      · exact hsus₂
    refine h.self hrun hts (fun u hu => ?_) (fun _ _ => .inl hsus) rfl
    show Function.update s.taking t (some m) u = _
    rw [Function.update_of_ne hu]

theorem takeResume (hs : mutexStep fuel s .takeResume = some s') :
    inheritOk s .takeResume = true ∧ TakesInv s' := by
  obtain ⟨t, ht, hs⟩ := Option.bind_eq_some_iff.mp hs
  obtain ⟨m, htm, hs⟩ := Option.bind_eq_some_iff.mp hs
  split_ifs at hs with hrun
  have heok : (s.kernel.thread t).error = .eok := by
    refine (h.cleaned t m htm).resolve_left ?_
    rw [hrun]
    exact fun hsus => nomatch hsus
  refine ⟨by simp [inheritOk, keepsPriorities, resumeOk, ht, htm, heok], ?_⟩
  have hres : s.kernel.mutexTakeResume fuel t m = some (.eok, s.kernel) := if_pos heok
  rw [hres] at hs
  cases hs
  refine h.self hrun ⟨fun _ _ => ⟨rfl, rfl⟩, fun _ => ⟨rfl, rfl⟩⟩ (fun u hu => ?_) (fun _ _ => .inr heok) rfl
  show Function.update s.taking t none u = _
  rw [Function.update_of_ne hu]

theorem release (hi : MutexInv s) (he : Exact s.kernel) {m : O}
    (hs : mutexStep fuel s (.release m) = some s') : inheritOk s (.release m) = true ∧ TakesInv s' := by
  simp only [mutexStep] at hs
  split_ifs at hs with hm
  have hover : s.kernel.handOverOk m = true := by
    unfold handOverOk
    split
    · rfl
    · rw [h.ceiling m hm]
      exact decide_eq_true (he.bound _).2
  refine ⟨by simp [inheritOk, keepsPriorities, resumeOk, hover], ?_⟩
  obtain ⟨t, ht, rfl⟩ := Option.map_eq_some_iff.mp hs
  obtain ⟨-, hrun, htt⟩ := MutexState.self_eq ht
  obtain ⟨r, k', hr⟩ : ∃ r k', s.kernel.mutexRelease t m = (r, k') := ⟨_, _, rfl⟩
  rw [hr]
  dsimp only
  rcases mutexRelease_cases hr with ⟨-, rfl, rfl⟩ | ⟨-, rfl, -, rfl⟩ | ⟨-, rfl, -, k₂, hk₂, hk'⟩
  · rw [if_neg (by simp)]
    have hth := touches_setThread s.kernel t fun th => { th with error := .error }
    exact h.self hrun hth (fun _ _ => rfl) (fun x hx => absurd (htt.symm.trans hx) (by simp)) rfl
  · rw [if_pos rfl]
    have hth : Touches s.kernel (s.kernel.setObject m fun x => { x with hold := x.hold - 1 }) none :=
      touches_setObject _ _ _ fun _ => ⟨rfl, rfl⟩
    exact h.touches hth (fun _ _ => rfl) (fun _ _ hc => by cases hc) (fun a ha _ => ⟨a, ha, rfl⟩)
      (fun _ _ hc => by cases hc) h.once
  · rw [if_pos rfl]
    have hl : Linked (s.kernel.releaseTaken m) :=
      (hi.wf.linked.setObject m _).congr _ rfl (fun _ => rfl) rfl
    have htr : ∀ {c : Option T}, Touches s.kernel (s.kernel.releaseTaken m) c := fun {c} =>
      ⟨fun _ _ => ⟨rfl, rfl⟩, (touches_setObject (c := c) s.kernel m
        (fun x => { x with hold := x.hold - 1 }) fun _ => ⟨rfl, rfl⟩).object⟩
    obtain ⟨hl₂, ht₂, hw₂⟩ : Linked k₂ ∧ (∀ c, Touches s.kernel k₂ c) ∧
        ∀ u, u ∈ k₂.waiters m ↔ u ∈ s.kernel.waiters m := by
      rcases hk₂ with rfl | ⟨rfl, -⟩
      · have ha := changePriority_alike hl t ((s.kernel.releaseTaken m).threadGetMutexPriority t)
        exact ⟨hl.changePriority t _, fun c => htr.trans ha.touches, fun u => ha.waiters m u⟩
      · exact ⟨hl, fun c => htr, fun _ => Iff.rfl⟩
    rcases hk' with ⟨next, rest, hnext, rfl⟩ | ⟨-, rfl⟩
    · have hmem : next ∈ k₂.waiters m := by
        rw [hnext]
        exact List.mem_cons_self
      obtain ⟨-, htn⟩ := hi.wf.waiting next m hm ((hw₂ next).mp hmem)
      have hsus := hi.wf.linked.suspend ((hw₂ next).mp hmem)
      have herr : (s.kernel.thread next).error = .eok := (hi.wf.suspended next m htn hsus).2.2
      have hth : Touches s.kernel (k₂.mutexHandOver m next) (some next) := by
        refine (ht₂ _).trans ⟨fun u hu => ?_, fun o => ?_⟩
        · rw [handOver_thread_of_ne hl₂ hmem fun e => hu (congrArg some e.symm)]
          exact ⟨rfl, rfl⟩
        · rw [handOver_object hl₂ hmem]
          split_ifs with ho
          · rw [ho]
            exact ⟨rfl, rfl⟩
          · exact ⟨rfl, rfl⟩
      refine h.touches hth (fun _ _ => rfl) (fun u x hu _ => ?_) (fun a ha _ => ⟨a, ha, rfl⟩)
        (fun a ha hat => ?_) h.once
      · cases hu
        refine .inr ?_
        show ((k₂.mutexHandOver m next).thread next).error = .eok
        rw [handOver_thread_self hl₂ hmem]
        exact ((ht₂ none).thread next (by simp)).2.trans herr
      · have hfree := (h.starting a ha).1
        rw [← Option.some.inj hat] at hfree
        exact absurd (htn.symm.trans hfree) (by simp)
    · have hth : Touches s.kernel (k₂.setObject m fun x => { x with owner := none, priority := 0xff })
          none := (ht₂ _).trans (touches_setObject _ _ _ fun _ => ⟨rfl, rfl⟩)
      exact h.touches hth (fun _ _ => rfl) (fun _ _ hc => by cases hc) (fun a ha _ => ⟨a, ha, rfl⟩)
        (fun _ _ hc => by cases hc) h.once

end TakesInv

/-- **A step of such a run** finds its shortcuts right. -/
theorem takesOnly_step {a : MutexLabel T O} (hi : MutexInv s) (he : Exact s.kernel) (h : TakesInv s)
    (ha : takesOnly s a = true) (hs : mutexStep fuel s a = some s') :
    inheritOk s a = true ∧ TakesInv s' := by
  cases a with
  | start =>
    simp only [mutexStep] at hs
    split_ifs at hs
    obtain ⟨k', hk', rfl⟩ := Option.map_eq_some_iff.mp hs
    exact ⟨rfl, h.alike (systemSchedulerStart_dispatched hi.wf.linked hk').alike⟩
  | schedule =>
    obtain ⟨k', hk', rfl⟩ := Option.map_eq_some_iff.mp hs
    exact ⟨rfl, h.alike (rtSchedule_dispatched hi.wf.linked hk').alike⟩
  | yield =>
    obtain ⟨c, -, rfl⟩ := Option.map_eq_some_iff.mp hs
    exact ⟨rfl, h.alike (threadYield_dispatched hi.wf.linked c).alike⟩
  | startup t => exact ⟨rfl, h.startup hi hs⟩
  | proceed a => exact h.proceed hs
  | take m timeout flag => exact ⟨rfl, h.take hi hs⟩
  | takeResume => exact h.takeResume hs
  | release m => exact h.release hi he hs
  | _ => cases ha

theorem MutexInit.takesInv (h : MutexInit s) : TakesInv s := by
  obtain ⟨priority, object, hk, -, hobj⟩ := h.kernel
  refine ⟨?_, fun t m ht => ?_, fun a ha => ?_, ?_, fun m hm => ?_⟩
  · refine Set.Finite.subset Set.finite_empty fun t ht => ?_
    have ht' : (s.kernel.thread t).stat.isSuspend = true := ht
    rw [hk] at ht'
    cases ht'
  · rw [h.taking] at ht
    cases ht
  · rw [h.resumes] at ha
    cases ha
  · rw [h.resumes]
    exact List.nodup_nil
  · rw [hk] at hm ⊢
    show (object m).ceilingPriority = 0xff
    rw [(hobj m).2 hm]
    rfl

theorem takesInv_reach (hs : (mutexSystem T O fuel).Reach takesOnly s) :
    (MutexInv s ∧ Exact s.kernel) ∧ TakesInv s :=
  hs.invariant (I := fun s => (MutexInv s ∧ Exact s.kernel) ∧ TakesInv s)
    (fun _ (h : MutexInit _) => ⟨⟨h.inv, h.exact⟩, h.takesInv⟩) fun _ _ _ h hok hst => by
      obtain ⟨hin, htk⟩ := takesOnly_step h.1.1 h.1.2 h.2 hok hst
      exact ⟨⟨mutexStep_inv h.1.1 (inheritOk_resumeOk hin) hst, mutexStep_exact h.1.1 h.1.2 hin hst⟩, htk⟩

/-! ## The chain of owners -/

/-- The thread is suspended on a mutex of the other one. -/
def WaitsFor (k : Kernel T O) (t u : T) : Prop :=
  (k.thread t).stat.isSuspend = true ∧ ∃ m, (k.thread t).pendingObject = some m ∧
    (k.object m).type = .mutex ∧ (k.object m).owner = some u

/-- **Nobody on the chain is below its first thread.** -/
theorem prioOf_le_of_waitsFor (hi : MutexInv s) (he : Exact s.kernel) (h : CleanedUp s) {t u : T}
    (hw : Relation.ReflTransGen (WaitsFor s.kernel) t u) : s.kernel.prioOf u ≤ s.kernel.prioOf t := by
  have hok : InheritanceOk s.kernel := he.inheritanceOk fun _ hm => h.settled hi.wf hm
  induction hw with
  | refl => exact Nat.le_refl _
  | tail _ hstep ih =>
    refine Nat.le_trans ?_ ih
    obtain ⟨hsus, m, hp, hm, ho⟩ := hstep
    have hle := hok.least m hm _ (hi.wf.pendingLinked _ m hsus hp hm)
    rw [hok.prio]
    exact (leastOver_le_of_mem ((hi.wf.owned _ m).mpr ⟨ho, hm⟩)).trans ((min_le_left _ _).trans hle)

/-- **The propagation of priorities ends**, in every state that takes and releases of mutexes reach,
deadlocks included, and behind a take nobody on the chain of owners is below the thread that called. -/
theorem priority_propagation (hs : (mutexSystem T O fuel).Reach takesOnly s) :
    (∀ t p flag, ∃ n k', ∀ j, n ≤ j → s.kernel.threadUpdatePriority j t p flag = some k') ∧
    ∀ t m timeout flag, s.self = some t → (s.kernel.object m).type = .mutex →
      ∃ n r k', (∀ j, n ≤ j → s.kernel.mutexTake j t m timeout flag = some (r, k')) ∧
        ∀ u, Relation.ReflTransGen (WaitsFor k') t u → k'.prioOf u ≤ k'.prioOf t := by
  obtain ⟨⟨hi, he⟩, h⟩ := takesInv_reach hs
  refine ⟨fun t p flag => threadUpdatePriority_ends hi.wf h.finite t p flag,
    fun t m timeout flag ht hm => ?_⟩
  obtain ⟨-, hrun, htt⟩ := MutexState.self_eq ht
  obtain ⟨n, ⟨r, k'⟩, hr⟩ := mutexTake_ends hi.wf h.finite hrun hm htt timeout flag
  refine ⟨n, r, k', hr, fun u hu => ?_⟩
  obtain ⟨s', hs', hk'⟩ : ∃ s', mutexStep n s (.take m timeout flag) = some s' ∧ s'.kernel = k' := by
    simp only [mutexStep, if_pos hm, ht, hr n (Nat.le_refl n), Option.bind_eq_bind, Option.bind_some]
    cases r with
    | ret e =>
      refine ⟨_, rfl, ?_⟩
      unfold MutexState.takeReturns
      split_ifs <;> rfl
    | blocked => exact ⟨_, rfl, rfl⟩
  have hok : inheritOk s (.take m timeout flag) = true := rfl
  subst hk'
  exact prioOf_le_of_waitsFor (mutexStep_inv hi (inheritOk_resumeOk hok) hs')
    (mutexStep_exact hi he hok hs') (h.take hi hs').cleaned hu

/-- Thread 0 waits for thread 1, which waits for it. -/
theorem priority_propagation_deadlock : ∃ s, (mutexSystem (Fin 3) Bool 4).Reach takesOnly s ∧
    (s.kernel.thread 1).pendingObject = some false ∧ (s.kernel.object false).owner = some 0 ∧
    (s.kernel.object true).owner = some 1 ∧
    ∃ n r k', s.kernel.mutexTake n 0 true (-1) .uninterruptible = some (r, k') ∧
      ∀ u, Relation.ReflTransGen (WaitsFor k') 0 u → k'.prioOf u ≤ k'.prioOf 0 := by
  obtain ⟨s, hs, hp⟩ := System.exists_reach (mutexSystem (Fin 3) Bool 4) takesOnly
    (fun s => s.self = some 0 ∧ (s.kernel.object true).type = .mutex ∧
      (s.kernel.thread 1).pendingObject = some false ∧ (s.kernel.object false).owner = some 0 ∧
      (s.kernel.object true).owner = some 1)
    twoMutexes_init boostTrace (by decide)
  obtain ⟨hself, hm, hpend, ho, ho'⟩ := of_decide_eq_true hp
  obtain ⟨n, r, k', hr, hle⟩ := (priority_propagation hs).2 0 true (-1) .uninterruptible hself hm
  exact ⟨s, hs, hpend, ho, ho', n, r, k', hr n (Nat.le_refl n), hle⟩

end RtThread
