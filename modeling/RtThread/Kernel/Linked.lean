import RtThread.Kernel.Ipc

/-!
# Where a thread is linked

A thread hangs on at most one list, and only on one that fits its state: a READY thread on a ready
list, a suspended one on a suspend list, a closed one on the defunct list.

* `Linked`: that invariant; `Linked.unlink`, `Linked.link` and what the kernel functions do with it;
* `wake`: the common form of `_thread_timeout`, `rt_thread_resume` and `_ipc_list_resume`.
-/

set_option linter.unusedSectionVars false

namespace RtThread

open Queues

/-- The states of the threads on a list. -/
def Head.fits {O : Type} : Head O → Stat → Bool
  | .ready _, .ready => true
  | .suspend _, .suspend _ => true
  | .defunct, .close => true
  | _, _ => false

namespace Kernel

variable {T O : Type} [DecidableEq T] [DecidableEq O]

/-- The suspend list of an object. -/
abbrev waiters (k : Kernel T O) (o : O) : List T := k.list (.suspend o)

/-- Take a suspended thread off its list, write to it and insert it into the ready lists. -/
def wake (k : Kernel T O) (t : T) (f : Thread O → Thread O) : Kernel T O :=
  ((k.listRemove t).setThread t f).scheduleInsertThread t

/-- Every thread is on at most one list, which fits its state; the current thread is not READY. -/
structure Linked (k : Kernel T O) : Prop where
  linked : ∃ loc, At k.list loc
  fits : ∀ {t h}, t ∈ k.list h → h.fits (k.thread t).stat = true
  current : ∀ {c}, k.currentThread = some c → (k.thread c).stat ≠ .ready

/-- A thread on no list. -/
def Unlinked (k : Kernel T O) (t : T) : Prop := ∀ h, t ∉ k.list h

variable {k k' : Kernel T O} {t u : T}

namespace Linked

theorem nodup (hk : Linked k) (h : Head O) : (k.list h).Nodup :=
  hk.linked.elim fun _ hl => hl.nodup h

theorem unique (hk : Linked k) {h h' : Head O} (ht : t ∈ k.list h) (ht' : t ∈ k.list h') : h = h' :=
  hk.linked.elim fun _ hl => hl.unique ht ht'

theorem suspend (hk : Linked k) {o : O} (ht : t ∈ k.waiters o) :
    (k.thread t).stat.isSuspend = true := by
  have := hk.fits ht
  cases hs : (k.thread t).stat <;> rw [hs] at this <;> first | rfl | cases this

theorem ready (hk : Linked k) {p : ℕ} (ht : t ∈ k.list (.ready p)) : (k.thread t).stat = .ready := by
  have := hk.fits ht
  cases hs : (k.thread t).stat <;> rw [hs] at this <;> first | rfl | cases this

theorem defunct (hk : Linked k) (ht : t ∈ k.list .defunct) : (k.thread t).stat = .close := by
  have := hk.fits ht
  cases hs : (k.thread t).stat <;> rw [hs] at this <;> first | rfl | cases this

/-- Threads in other states are on no list. -/
theorem unlinked (hk : Linked k) (ht : (k.thread t).stat = .running ∨ (k.thread t).stat = .init) :
    Unlinked k t := fun h hm => by
  have := hk.fits hm
  rcases ht with ht | ht <;> rw [ht] at this <;> cases h <;> cases this

/-- Only the lists, the states and the current thread matter. -/
theorem congr (hk : Linked k) (k' : Kernel T O) (hl : k'.list = k.list)
    (hs : ∀ t, (k'.thread t).stat = (k.thread t).stat)
    (hc : k'.currentThread = k.currentThread) : Linked k' where
  linked := hl ▸ hk.linked
  fits ht := by rw [hs]; rw [hl] at ht; exact hk.fits ht
  current hc' := by rw [hs]; rw [hc] at hc'; exact hk.current hc'

/-- Writes that keep the state. -/
theorem setThread (hk : Linked k) (t : T) (f : Thread O → Thread O)
    (hf : (f (k.thread t)).stat = (k.thread t).stat) : Linked (k.setThread t f) := by
  refine hk.congr (k.setThread t f) rfl (fun u => ?_) rfl
  by_cases hu : u = t
  · subst hu; rw [setThread_self]; exact hf
  · rw [setThread_of_ne _ hu]

/-- Any write to an unlinked thread. -/
theorem write (hk : Linked k) (ht : Unlinked k t) (f : Thread O → Thread O)
    (hf : k.currentThread = some t → (f (k.thread t)).stat ≠ .ready) :
    Linked (k.setThread t f) where
  linked := hk.linked
  fits {u h} hu := by
    have hne : u ≠ t := fun e => ht h (e ▸ hu)
    rw [setThread_of_ne _ hne]; exact hk.fits hu
  current {c} hc := by
    by_cases hct : c = t
    · subst hct; rw [setThread_self]; exact hf hc
    · rw [setThread_of_ne _ hct]; exact hk.current hc

/-- **Unlinking.** -/
theorem unlink (hk : Linked k) (t : T) : Linked (k.listRemove t) where
  linked := hk.linked.elim fun _ hl => ⟨_, hl.remove t⟩
  fits hu := hk.fits (List.mem_of_mem_erase hu)
  current hc := hk.current hc

theorem unlinked_listRemove (hk : Linked k) (t : T) : Unlinked (k.listRemove t) t := fun h =>
  (hk.nodup h).not_mem_erase

/-- **Linking an unlinked thread.** -/
theorem link (hk : Linked k) (ht : Unlinked k t) {h : Head O} {l : List T}
    (hl : l.Perm (t :: k.list h)) (hf : h.fits (k.thread t).stat = true) :
    Linked { k with list := Function.update k.list h l } where
  linked := hk.linked.elim fun loc hloc => by
    have h0 : loc t = none := by
      cases hlt : loc t with
      | none => rfl
      | some h' => exact absurd ((hloc.mem t h').mpr hlt) (ht h')
    exact ⟨_, hloc.insert h0 hl⟩
  fits {u h'} hu := by
    dsimp only at hu ⊢
    by_cases hh : h' = h
    · subst hh
      rw [Function.update_self, hl.mem_iff, List.mem_cons] at hu
      rcases hu with rfl | hu
      · exact hf
      · exact hk.fits hu
    · rw [Function.update_of_ne hh] at hu; exact hk.fits hu
  current hc := hk.current hc

theorem remove (hk : Linked k) (t : T) : Linked (k.scheduleRemoveThread t) :=
  (hk.unlink t).congr (k.scheduleRemoveThread t) rfl (fun _ => rfl) rfl

theorem insert (hk : Linked k) (ht : Unlinked k t) : Linked (k.scheduleInsertThread t) := by
  by_cases hc : k.currentThread = some t
  · have h1 := hk.write ht (fun th => { th with stat := .running }) fun _ => by simp
    refine h1.congr (k.scheduleInsertThread t) (k.scheduleInsertThread_list_of_current hc)
      (fun u => ?_) (k.scheduleInsertThread_current t)
    simp [insertedStat, hc]
  · have h1 := hk.write ht (fun th => { th with stat := .ready }) fun h => absurd h hc
    obtain ⟨l, hl, hlist⟩ := k.scheduleInsertThread_list hc
    have ht1 : Unlinked (k.setThread t fun th => { th with stat := .ready }) t := ht
    have h2 := h1.link ht1 (h := .ready (k.prioOf t)) hl (by simp [Head.fits])
    refine h2.congr (k.scheduleInsertThread t) hlist (fun u => ?_)
      (k.scheduleInsertThread_current t)
    simp [insertedStat, hc]

theorem ipcListInsert (hk : Linked k) (ht : Unlinked k t)
    (hs : (k.thread t).stat.isSuspend = true) (o : O) : Linked (k.ipcListInsert o t) := by
  have hf : (Head.suspend o).fits (k.thread t).stat = true := by
    cases h : (k.thread t).stat <;> rw [h] at hs <;> first | rfl | cases hs
  unfold Kernel.ipcListInsert
  cases (k.object o).flag with
  | fifo => exact hk.link ht (List.perm_append_singleton _ _) hf
  | prio => exact hk.link ht (insertByKey_perm _ _ _) hf

theorem defunctEnqueue (hk : Linked k) (ht : Unlinked k t) (hs : (k.thread t).stat = .close) :
    Linked (k.threadDefunctEnqueue t) :=
  hk.link ht (h := .defunct) (.refl _) (by rw [hs]; rfl)

theorem wake (hk : Linked k) (t : T) (f : Thread O → Thread O)
    (hf : (f (k.thread t)).stat = (k.thread t).stat) : Linked (k.wake t f) :=
  ((hk.unlink t).setThread t f hf).insert (hk.unlinked_listRemove t)

/-- **A change of priority.** -/
theorem changePriority (hk : Linked k) (t : T) (p : ℕ) : Linked (k.threadChangePriority t p) := by
  unfold Kernel.threadChangePriority
  split_ifs with ht
  · exact ((hk.remove t).setThread t (Thread.writePriority p) rfl).insert (hk.unlinked_listRemove t)
  · exact hk.setThread t (Thread.writePriority p) rfl

end Linked

/-! ## Wake-ups -/

theorem threadTimeout_eq (t : T) : k.threadTimeout t =
    k.wake t fun th => { th with error := .etimeout, threadTimer := false } := rfl

theorem threadResume_eq (ht : (k.thread t).stat.isSuspend = true) : (k.threadResume t).2 =
    k.wake t fun th => { th with threadTimer := false } := by
  unfold threadResume; rw [if_pos ht]; rfl

theorem ipcResumeThread_eq (ht : (k.thread t).stat.isSuspend = true) (e : Err) :
    k.ipcResumeThread e t = k.wake t fun th => { th with error := e, threadTimer := false } := by
  unfold ipcResumeThread
  rw [threadResume_eq (by rw [setThread_self]; exact ht), wake, wake]
  exact congrArg (scheduleInsertThread · t) ((k.listRemove t).setThread_setThread t
    (fun th => { th with error := e }) fun th => { th with threadTimer := false })

@[simp] theorem wake_object (f : Thread O → Thread O) : (k.wake t f).object = k.object := by
  simp [wake]

theorem wake_self (f : Thread O → Thread O) :
    (k.wake t f).thread t = { f (k.thread t) with stat := k.insertedStat t } := by
  simp [wake]; rfl

theorem wake_of_ne (hu : u ≠ t) (f : Thread O → Thread O) :
    (k.wake t f).thread u = k.thread u := by
  simp [wake, hu]

theorem scheduleInsertThread_waiters (t : T) (o : O) :
    (k.scheduleInsertThread t).waiters o = k.waiters o := by
  by_cases hc : k.currentThread = some t
  · rw [waiters, scheduleInsertThread_list_of_current _ hc]
  · obtain ⟨l, -, hl⟩ := k.scheduleInsertThread_list hc
    rw [waiters, hl, Function.update_of_ne (by simp)]

theorem scheduleInsertThread_defunct (t : T) :
    (k.scheduleInsertThread t).list .defunct = k.list .defunct := by
  by_cases hc : k.currentThread = some t
  · rw [scheduleInsertThread_list_of_current _ hc]
  · obtain ⟨l, -, hl⟩ := k.scheduleInsertThread_list hc
    rw [hl, Function.update_of_ne (by simp)]

theorem wake_waiters (f : Thread O → Thread O) (o : O) :
    (k.wake t f).waiters o = (k.waiters o).erase t := by
  rw [wake, scheduleInsertThread_waiters]; rfl

theorem insertedStat_ne (t : T) : (k.insertedStat t).isSuspend = false ∧
    k.insertedStat t ≠ .close ∧ k.insertedStat t ≠ .init := by
  unfold insertedStat; split_ifs <;> simp [Stat.isSuspend]

end Kernel

end RtThread
