import RtThread.Ipc.Calls

/-!
# Waiting in the drivers

`dataqueue.c` and `completion.c` keep lists of suspended threads of their own: the running thread
suspends itself without a flag, hangs itself at the end of the list and starts its timer; who wakes
it takes the first thread of the list and resumes it, which leaves its error code alone.

* `listWait`, `resumeFirst`; **`listWait_waits`**, **`resumeFirst_woken`**: what they do to the
  kernel;
* `CallState.listWait`, `CallState.resumeFirst` and what they keep of `CallInv`.
-/

namespace RtThread

open Kernel

variable {T O L D : Type} [DecidableEq T] [DecidableEq O]

namespace Kernel

variable (k : Kernel T O)

/-- The running thread waits on a list, up to its `rt_schedule`. -/
def listWait (self : T) (o : O) (timeout : ℤ) : Kernel T O :=
  let k := k.setThread self fun th => { th with error := .eok }
  let k := (k.threadSuspendWithFlag self .uninterruptible).2
  let k := { k with list := k.list.insertBeforeHead (.suspend o) self }
  if 0 < timeout then k.setThread self fun th => { th with threadTimer := true } else k

/-- `rt_thread_resume` of the first thread of a list, if there is one. -/
def resumeFirst (o : O) : Kernel T O :=
  match k.list (.suspend o) with
  | [] => k
  | t :: _ => (k.threadResume t).2

variable {k} {c t : T} {o : O}

/-- **The thread waits** with a cleared error code. -/
theorem listWait_waits (hk : Linked k) (hc : (k.thread c).stat = .running) (o : O) (timeout : ℤ) :
    Waits k (k.listWait c o timeout) c o (decide (0 < timeout)) .eok := by
  obtain ⟨k₁, hk₁⟩ : ∃ k₁, k₁ = k.setThread c fun th => { th with error := .eok } := ⟨_, rfl⟩
  have hrun₁ : (k₁.thread c).stat = .running := by rw [hk₁, setThread_self]; exact hc
  have hlink₁ : Linked k₁ := hk₁ ▸ hk.setThread c _ rfl
  obtain ⟨k₂, hk₂⟩ : ∃ k₂, k₂ = k₁.suspendSelf c .uninterruptible := ⟨_, rfl⟩
  have hself₂ : k₂.thread c =
      { k.thread c with error := .eok, stat := .suspend .uninterruptible, threadTimer := false } := by
    rw [hk₂, Kernel.suspendSelf, setThread_self, scheduleRemoveThread_thread, hk₁, setThread_self]
  have hother₂ : ∀ u ≠ c, k₂.thread u = k.thread u := fun u hu => by
    rw [hk₂, Kernel.suspendSelf, setThread_of_ne _ hu, scheduleRemoveThread_thread, hk₁,
      setThread_of_ne _ hu]
  have hlist₂ : ∀ x, k₂.waiters x = k.waiters x := fun x => by
    rw [hk₂, suspendSelf_waiters hlink₁ hrun₁, hk₁]
    rfl
  have hun₂ : Unlinked k₂ c := hk₂ ▸ hlink₁.unlinked_listRemove c
  obtain ⟨k₃, hk₃⟩ : ∃ k₃, k₃ = { k₂ with list := k₂.list.insertBeforeHead (.suspend o) c } :=
    ⟨_, rfl⟩
  have hlink₃ : Linked k₃ := by
    rw [hk₃]
    exact (hk₂ ▸ hlink₁.suspendSelf c .uninterruptible).link hun₂ (List.perm_append_singleton _ _)
      (by rw [hself₂]; rfl)
  have hthread₃ : k₃.thread = k₂.thread := by rw [hk₃]
  have hobj₃ : k₃.object = k.object := by
    rw [hk₃]
    change k₂.object = _
    rw [hk₂, hk₁]
    rfl
  have hwait₃ : ∀ x u, u ∈ k₃.waiters x ↔ (x = o ∧ u = c) ∨ u ∈ k.waiters x := fun x u => by
    rw [← hlist₂ x, hk₃]
    change u ∈ k₂.list.insertBeforeHead (.suspend o) c (.suspend x) ↔ _
    rw [Queues.insertBeforeHead]
    by_cases hx : x = o
    · rw [hx, Function.update_self, List.mem_append, List.mem_singleton]
      exact or_comm.trans (or_congr_left (by simp))
    · rw [Function.update_of_ne (by simp [hx])]
      simp [hx]
  have heq : k.listWait c o timeout = if 0 < timeout then
      k₃.setThread c fun th => { th with threadTimer := true } else k₃ := by
    unfold listWait
    rw [← hk₁]
    dsimp only
    rw [threadSuspend_eq hrun₁, ← hk₂, ← hk₃]
  rw [heq]
  by_cases ht : 0 < timeout
  · rw [if_pos ht, decide_eq_true ht]
    refine ⟨hlink₃.setThread c _ rfl, ?_, ?_, ?_, fun u hu => ?_, hobj₃, hwait₃⟩
    · rw [setThread_self, hthread₃, hself₂]; rfl
    · rw [setThread_self]
    · rw [setThread_self, hthread₃, hself₂]
    · rw [setThread_of_ne _ hu, hthread₃, hother₂ u hu]
  · rw [if_neg ht, decide_eq_false ht]
    refine ⟨hlink₃, ?_, ?_, ?_, fun u hu => by rw [hthread₃, hother₂ u hu], hobj₃, hwait₃⟩
    · rw [hthread₃, hself₂]; rfl
    · rw [hthread₃, hself₂]
    · rw [hthread₃, hself₂]

theorem resumeFirst_nil (h : k.waiters o = []) : k.resumeFirst o = k := by
  unfold resumeFirst
  rw [show k.list (.suspend o) = [] from h]

end Kernel

namespace CallState

variable (s : CallState T O L D)

/-- The call of `c` waits on the list `o`. -/
def listWait (c : T) (o : O) (timeout : BitVec 32) (l : L) : Option (CallState T O L D) :=
  if timeoutOk timeout then some (s.block c (s.kernel.listWait c o timeout.toInt) timeout l)
  else none

/-- Wake the first thread of the list `o`. -/
def resumeFirst (o : O) : CallState T O L D := s.withKernel (s.kernel.resumeFirst o)

end CallState

namespace CallInv

variable {s s' : CallState T O L D} {c : T} {o : O}

theorem listWait (h : CallInv s) (hc : s.self = some c) {timeout : BitVec 32} {l : L}
    (hs : s.listWait c o timeout l = some s') :
    ∃ k, s' = s.block c k timeout l ∧ CallInv s' ∧
      Waits s.kernel k c o (decide (0 < timeout.toInt)) .eok := by
  obtain ⟨-, hrun, -⟩ := CallState.self_iff.mp hc
  have hw := listWait_waits h.linked hrun o timeout.toInt
  unfold CallState.listWait at hs
  split_ifs at hs with hok
  cases hs
  exact ⟨_, rfl, h.block hc hw timeout l, hw⟩

theorem resumeFirst (h : CallInv s) (o : O) : CallInv (s.resumeFirst o) := by
  unfold CallState.resumeFirst
  cases hw : s.kernel.waiters o with
  | nil =>
    rw [resumeFirst_nil hw]
    exact h
  | cons t l =>
    have ht : t ∈ s.kernel.waiters o := by rw [hw]; exact List.mem_cons_self
    unfold Kernel.resumeFirst
    rw [show s.kernel.list (.suspend o) = t :: l from hw]
    dsimp only
    rw [threadResume_eq (h.linked.suspend ht)]
    exact h.wake t _ fun _ => ⟨rfl, rfl⟩

end CallInv

end RtThread
