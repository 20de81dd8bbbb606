import RtThread.Lib.Counting
import RtThread.Pthreads.CondVar

/-!
# Who a wake-up reaches

A wait that a POSIX signal interrupts is off the list until it has started over, and takes with it a wake-up that
it has already got; a lock that is interrupted leaves the wait without the mutex; and a broadcast goes on as long
as others wait again.

* `CondMutex`, `CondList`, `CondCalls`, `CondSteps`: the mutex, the list, the waits that were in progress when a
  call began, and the sections that a broadcast has still to run;
* `CondOk`: the invariant; `condOk`: the condition;
* **`cond_wakes`**: the runs; `cond_interrupted`: a wake-up that is lost, and a wait that returns without the mutex.
-/

set_option linter.unusedSectionVars false

namespace RtThread

namespace CondPc

/-- On the list of the mutex. -/
def locks : CondPc → Bool
  | .locking => true
  | .relocking _ _ => true
  | _ => false

/-- The thread owns the mutex, and its wait is in progress. -/
def owning : CondPc → Bool
  | .enter _ true => true
  | .back _ _ => true
  | _ => false

/-- The sections that a broadcast has still to run, when `n` of them would be left at `rt_sem_trytake`. -/
def toGo (n : ℕ) : CondPc → ℕ
  | .broadcast => n
  | .broadcastRelease => max 3 (n - 1)
  | .broadcastLast => 1
  | _ => 0

variable {p : CondPc}

theorem not_calling_of_interrupted (h : p.interrupted = true) : p.calling = false := by
  cases p <;> first | rfl | cases h

/-- A thread that calls `pthread_cond_signal` or `pthread_cond_broadcast` is in no wait. -/
theorem plain_of_calling (h : p.calling = true) :
    p.asleep = false ∧ p.locks = false ∧ p.owning = false ∧ p.waits = false ∧ p.leaving = false := by
  cases p <;> first | exact ⟨rfl, rfl, rfl, rfl, rfl⟩ | cases h

theorem calling_of_casting (h : p.casting = true) : p.calling = true := by
  cases p <;> first | rfl | cases h

theorem casting_of_last (h : p.last = true) : p.casting = true := by
  cases p <;> first | rfl | cases h

theorem waits_of_asleep (h : p.asleep = true) : p.waits = true := by
  unfold waits
  rw [h, Bool.true_or, Bool.true_or]

theorem waits_of_leaving (h : p.leaving = true) : p.waits = true := by
  unfold waits
  rw [h, Bool.or_true]

/-- A wait in progress that does not sleep and does not start over. -/
theorem leaving_of_waits (h : p.waits = true) (ha : p.asleep = false) (hi : p.interrupted = false) :
    p.leaving = true := by
  unfold waits at h
  rw [ha, hi, Bool.false_or, Bool.false_or] at h
  exact h

theorem toGo_of_not_casting {n : ℕ} (h : p.casting = false) : p.toGo n = 0 := by
  cases p <;> first | rfl | cases h

theorem toGo_mono {n n' : ℕ} (hn : n' ≤ n) (p : CondPc) : p.toGo n' ≤ p.toGo n := by
  cases p
  case broadcast => exact hn
  case broadcastRelease =>
    show max 3 (n' - 1) ≤ max 3 (n - 1)
    omega
  all_goals exact Nat.le_refl _

end CondPc

namespace CondVar

variable {W : Type} [DecidableEq W] (s s' : CondVar W)

/-- **The mutex.** -/
structure CondMutex : Prop where
  lockers : Tracks CondPc.locks s.pc s.lockers
  held : s.lockers ≠ [] → s.owner ≠ none
  owns : ∀ w, (s.pc w).owning = true → s.owner = some w

/-- **The list.** -/
structure CondList : Prop where
  asleep : Tracks CondPc.asleep s.pc s.sem.suspended
  value : 0 < s.sem.value → s.sem.suspended = []
  last : ∀ c, (s.pc c).last = true → s.sem.suspended = []

/-- **The waits that were in progress when a call began.** -/
structure CondCalls : Prop where
  since : ∀ c x, (s.record c).since x = true → (s.pc x).waits = true
  kept : ∀ c x, (s.record c).waiting x = true → (s.record c).since x = true ∨ (s.record c).served = true
  fifo : ∀ c, (s.pc c).calling = true →
    s.sem.suspended.Pairwise fun a b => (s.record c).since b = true → (s.record c).since a = true
  signal : ∀ c, (s.record c).ended = some .signal → (∃ x, (s.record c).waiting x = true) →
    (s.record c).served = true ∨ ∃ x, (s.record c).since x = true ∧ (s.pc x).leaving = true
  broadcast : ∀ c, (s.record c).ended = some .broadcast → ∀ x, (s.record c).since x = true →
    (s.pc x).leaving = true

/-- The sections that are left to a broadcast that is at `rt_sem_trytake`: two if a value is left or held by
another broadcast, else two for each thread on the list and two to leave a value. -/
def need : ℕ :=
  if 0 < s.sem.value ∨ 0 < s.number .last then 2 else 2 * s.sem.suspended.length + 4

/-- **The sections of the broadcasts.** -/
def CondSteps : Prop :=
  ∀ c, (s.record c).turns + (s.pc c).toGo s.need ≤ 2 * (s.record c).waiters + 4

/-- The condition variable is in order. -/
structure CondOk : Prop where
  number : ∀ q : CondClass, Counts q.has s.pc (s.number q)
  mutex : s.CondMutex
  list : s.CondList
  apart : ∀ c x, (s.pc c).calling = true → (s.pc x).interrupted = false
  calls : s.CondCalls
  steps : s.CondSteps
  returns : ∀ e ∈ s.returns, e.1 = true → e.2 = true

/-- One thread has gone on. -/
structure Moved (w : W) (p : CondPc) : Prop where
  pc : s'.pc = Function.update s.pc w p
  number : ∀ q : CondClass, s'.number q =
    s.number q + (if q.has p then 1 else 0) - (if q.has (s.pc w) then 1 else 0)

variable {s s'} {w : W} {p : CondPc}

/-! ## One thread goes on -/

namespace Moved

variable (hm : s.Moved s' w p)
include hm

theorem self : s'.pc w = p := by
  rw [hm.pc, Function.update_self]

theorem other {x : W} (hx : x ≠ w) : s'.pc x = s.pc x := by
  rw [hm.pc, Function.update_of_ne hx]

theorem counts (h : ∀ q : CondClass, Counts q.has s.pc (s.number q)) (q : CondClass) :
    Counts q.has s'.pc (s'.number q) := by
  rw [hm.pc, hm.number]
  exact (h q).update

/-- A property of the places of all threads. -/
theorem all {q : W → CondPc → Prop} (h : ∀ x, q x (s.pc x)) (hp : q w p) (x : W) : q x (s'.pc x) := by
  by_cases hx : x = w
  · subst hx
    rw [hm.self]
    exact hp
  · rw [hm.other hx]
    exact h x

/-- The classes that the thread stays in, or out of. -/
theorem number_same {q : CondClass} (hq : q.has p = q.has (s.pc w)) : s'.number q = s.number q := by
  rw [hm.number, hq, Nat.add_sub_cancel]

end Moved

namespace CondMutex

variable (h : s.CondMutex) (hm : s.Moved s' w p)
include h hm

/-- The mutex and its list stay. -/
theorem keep (ho : s'.owner = s.owner) (hl : s'.lockers = s.lockers) (hp : p.locks = (s.pc w).locks)
    (hown : p.owning = true → s.owner = some w) : s'.CondMutex := by
  refine ⟨?_, ?_, fun x => ?_⟩
  · rw [hm.pc, hl]
    exact h.lockers.update_same hp
  · rw [hl, ho]
    exact h.held
  · rw [ho]
    exact hm.all (q := fun x p => p.owning = true → s.owner = some x) h.owns hown x

/-- The mutex is taken. -/
theorem take (hfree : s.owner = none) (ho : s'.owner = some w) (hl : s'.lockers = s.lockers)
    (hp : p.locks = (s.pc w).locks) : s'.CondMutex := by
  refine ⟨?_, fun _ => ?_, fun x hx => ?_⟩
  · rw [hm.pc, hl]
    exact h.lockers.update_same hp
  · rw [ho]
    exact Option.some_ne_none w
  · by_cases hxw : x = w
    · rw [ho, hxw]
    · rw [hm.other hxw] at hx
      have hown := h.owns x hx
      rw [hfree] at hown
      cases hown

/-- A thread is suspended on the mutex. -/
theorem queue (howned : s.owner ≠ none) (ho : s'.owner = s.owner) (hl : s'.lockers = s.lockers ++ [w])
    (hw : (s.pc w).locks = false) (hp : p.locks = true) (hown : p.owning = false) : s'.CondMutex := by
  refine ⟨?_, fun _ => ho ▸ howned, fun x => ?_⟩
  · rw [hm.pc, hl]
    exact h.lockers.update_in hw hp
  · rw [ho]
    exact hm.all (q := fun x p => p.owning = true → s.owner = some x) h.owns
      (fun hc => absurd (hown.symm.trans hc) Bool.false_ne_true) x

/-- A thread leaves the list of the mutex. -/
theorem unqueue (hl : s'.lockers = s.lockers.erase w) (hp : p.locks = false) (howned : s'.owner ≠ none)
    (hown : p.owning = true → s'.owner = some w)
    (hothers : ∀ x, x ≠ w → (s.pc x).owning = true → s'.owner = some x) : s'.CondMutex := by
  refine ⟨?_, fun _ => howned, fun x hx => ?_⟩
  · rw [hm.pc, hl]
    exact h.lockers.update_out hp
  · by_cases hxw : x = w
    · subst hxw
      rw [hm.self] at hx
      exact hown hx
    · rw [hm.other hxw] at hx
      exact hothers x hxw hx

end CondMutex

namespace CondList

variable (h : s.CondList) (hm : s.Moved s' w p)
include h hm

/-- The list stays. -/
theorem keep (hs : s'.sem.suspended = s.sem.suspended) (hv : 0 < s'.sem.value → s.sem.suspended = [])
    (hp : p.asleep = (s.pc w).asleep) (hlast : p.last = true → s.sem.suspended = []) : s'.CondList := by
  refine ⟨?_, fun hpos => hs.trans (hv hpos), fun c => ?_⟩
  · rw [hm.pc, hs]
    exact h.asleep.update_same hp
  · rw [hs]
    exact hm.all (q := fun _ p => p.last = true → s.sem.suspended = []) h.last hlast c

/-- A thread is suspended. -/
theorem sleep (hs : s'.sem = s.sem.suspend w) (hv : s.sem.value = 0) (hno : ∀ c, (s.pc c).last = false)
    (hw : (s.pc w).asleep = false) (hp : p.asleep = true) (hlast : p.last = false) : s'.CondList := by
  refine ⟨?_, fun hpos => ?_, fun c hc => ?_⟩
  · rw [hm.pc, hs]
    exact h.asleep.update_in hw hp
  · rw [hs] at hpos
    change 0 < s.sem.value at hpos
    omega
  · have hfalse : (s'.pc c).last = false := hm.all (q := fun _ p => p.last = false) hno hlast c
    exact absurd (hfalse.symm.trans hc) Bool.false_ne_true

/-- A thread is resumed. -/
theorem wake (hs : s'.sem = s.sem.remove w) (hp : p.asleep = false) (hlast : p.last = false) : s'.CondList := by
  have hnil : s.sem.suspended = [] → s'.sem.suspended = [] := fun hn => by
    rw [hs]
    show s.sem.suspended.erase w = []
    rw [hn]
    rfl
  refine ⟨?_, fun hpos => hnil (h.value ?_), fun c hc => hnil ?_⟩
  · rw [hm.pc, hs]
    exact h.asleep.update_out hp
  · rw [hs] at hpos
    exact hpos
  · refine hm.all (q := fun _ p => p.last = true → s.sem.suspended = []) h.last (fun hc => ?_) c hc
    exact absurd (hlast.symm.trans hc) Bool.false_ne_true

end CondList

/-- What a record says about the waits stays. -/
structure SameCall (r r' : CondRecord W) : Prop where
  waiting : r'.waiting = r.waiting
  since : r'.since = r.since
  served : r'.served = r.served
  ended : r'.ended = r.ended

namespace CondCalls

variable (h : s.CondCalls) (hm : s.Moved s' w p)
include h hm

/-- A thread goes on, and its wait does; threads may leave the list. -/
theorem keep (hr : ∀ c, SameCall (s.record c) (s'.record c))
    (hs : s'.sem.suspended.Sublist s.sem.suspended) (hw : (s.pc w).waits = true → p.waits = true)
    (hl : (s.pc w).leaving = true → p.leaving = true) (hc : p.calling = true → (s.pc w).calling = true) :
    s'.CondCalls := by
  have hwaits : ∀ x, (s.pc x).waits = true → (s'.pc x).waits = true := fun x hx => by
    by_cases hxw : x = w
    · subst hxw
      rw [hm.self]
      exact hw hx
    · rw [hm.other hxw]
      exact hx
  have hleave : ∀ x, (s.pc x).leaving = true → (s'.pc x).leaving = true := fun x hx => by
    by_cases hxw : x = w
    · subst hxw
      rw [hm.self]
      exact hl hx
    · rw [hm.other hxw]
      exact hx
  refine ⟨fun c x hx => ?_, fun c x hx => ?_, fun c hcall => ?_, fun c hend hx => ?_, fun c hend x hx => ?_⟩
  · rw [(hr c).since] at hx
    exact hwaits x (h.since c x hx)
  · rw [(hr c).since, (hr c).served]
    rw [(hr c).waiting] at hx
    exact h.kept c x hx
  · rw [(hr c).since]
    refine (h.fifo c ?_).sublist hs
    refine hm.all (q := fun x p => p.calling = true → (s.pc x).calling = true) (fun _ => id) hc c hcall
  · rw [(hr c).waiting] at hx
    rw [(hr c).ended] at hend
    rw [(hr c).served, (hr c).since]
    exact (h.signal c hend hx).imp_right fun ⟨x, hx, hl⟩ => ⟨x, hx, hleave x hl⟩
  · rw [(hr c).ended] at hend
    rw [(hr c).since] at hx
    exact hleave x (h.broadcast c hend x hx)

/-- A wait that no call in progress knows of is suspended. -/
theorem sleep (hr : s'.record = s.record) (hs : s'.sem.suspended = s.sem.suspended ++ [w])
    (hnew : ∀ c, (s.pc c).calling = true → (s.record c).since w = false) (hw : p.asleep = true)
    (hl : (s.pc w).leaving = false) (hc : p.calling = false) : s'.CondCalls := by
  refine ⟨fun c x hx => ?_, fun c x hx => ?_, fun c hcall => ?_, fun c hend hx => ?_, fun c hend x hx => ?_⟩
  · rw [hr] at hx
    exact hm.all (q := fun x p => (s.record c).since x = true → p.waits = true) (h.since c)
      (fun _ => CondPc.waits_of_asleep hw) x hx
  · rw [hr] at hx ⊢
    exact h.kept c x hx
  · have hcall' : (s.pc c).calling = true := by
      by_cases hcw : c = w
      · subst hcw
        rw [hm.self, hc] at hcall
        cases hcall
      · rw [hm.other hcw] at hcall
        exact hcall
    rw [hr, hs]
    refine List.pairwise_append.mpr ⟨h.fifo c hcall', List.pairwise_singleton _ _, fun a _ b hb hq => ?_⟩
    rw [List.mem_singleton.mp hb, hnew c hcall'] at hq
    cases hq
  all_goals
    have hleave : ∀ x, (s.pc x).leaving = true → (s'.pc x).leaving = true := fun x hx => by
      have hxw : x ≠ w := by
        rintro rfl
        exact absurd (hl.symm.trans hx) Bool.false_ne_true
      rw [hm.other hxw]
      exact hx
    rw [hr] at *
  · exact (h.signal c hend hx).imp_right fun ⟨x, hx, hl⟩ => ⟨x, hx, hleave x hl⟩
  · exact hleave x (h.broadcast c hend x hx)

/-- **A wait returns.** -/
theorem finish (hr : ∀ c, s'.record c = (s.record c).returned w) (hs : s'.sem.suspended = s.sem.suspended)
    (hw : w ∉ s.sem.suspended) (hc : p.calling = false) : s'.CondCalls := by
  have hsince : ∀ c x, (s'.record c).since x = true → x ≠ w ∧ (s.record c).since x = true := by
    intro c x hx
    rw [hr] at hx
    change Function.update (s.record c).since w false x = true at hx
    by_cases hxw : x = w
    · subst hxw
      rw [Function.update_self] at hx
      cases hx
    · rw [Function.update_of_ne hxw] at hx
      exact ⟨hxw, hx⟩
  have hback : ∀ c x, (s.record c).since x = true → x ≠ w → (s'.record c).since x = true := by
    intro c x hx hxw
    rw [hr]
    show Function.update (s.record c).since w false x = true
    rw [Function.update_of_ne hxw]
    exact hx
  have hserved : ∀ c, (s.record c).served = true ∨ (s.record c).since w = true → (s'.record c).served = true := by
    intro c hq
    rw [hr]
    exact Bool.or_eq_true_iff.mpr hq
  refine ⟨fun c x hx => ?_, fun c x hx => ?_, fun c hcall => ?_, fun c hend hx => ?_, fun c hend x hx => ?_⟩
  · obtain ⟨hxw, hx⟩ := hsince c x hx
    rw [hm.other hxw]
    exact h.since c x hx
  · have hx' : (s.record c).waiting x = true := by
      rw [hr] at hx
      exact hx
    rcases h.kept c x hx' with hq | hq
    · by_cases hxw : x = w
      · exact .inr (hserved c (.inr (hxw ▸ hq)))
      · exact .inl (hback c x hq hxw)
    · exact .inr (hserved c (.inl hq))
  · have hcall' : (s.pc c).calling = true := by
      by_cases hcw : c = w
      · subst hcw
        rw [hm.self, hc] at hcall
        cases hcall
      · rw [hm.other hcw] at hcall
        exact hcall
    rw [hs]
    refine (h.fifo c hcall').imp_of_mem fun {a b} ha _ hq hb => ?_
    exact hback c a (hq (hsince c b hb).2) fun haw => hw (haw ▸ ha)
  · have hend' : (s.record c).ended = some .signal := by
      rw [hr] at hend
      exact hend
    have hx' : ∃ x, (s.record c).waiting x = true := by
      obtain ⟨x, hx⟩ := hx
      rw [hr] at hx
      exact ⟨x, hx⟩
    rcases h.signal c hend' hx' with hq | ⟨x, hq, hl⟩
    · exact .inl (hserved c (.inl hq))
    · by_cases hxw : x = w
      · exact .inl (hserved c (.inr (hxw ▸ hq)))
      · refine .inr ⟨x, hback c x hq hxw, ?_⟩
        rw [hm.other hxw]
        exact hl
  · have hend' : (s.record c).ended = some .broadcast := by
      rw [hr] at hend
      exact hend
    obtain ⟨hxw, hx⟩ := hsince c x hx
    rw [hm.other hxw]
    exact h.broadcast c hend' x hx

/-- **A call begins.** -/
theorem begin {r : CondRecord W} (hr : s'.record = Function.update s.record w r)
    (hrec : r.waiting = (fun x => (s.pc x).waits) ∧ r.since = (fun x => (s.pc x).waits) ∧ r.ended = none)
    (hs : s'.sem = s.sem) (hlist : ∀ x ∈ s.sem.suspended, (s.pc x).waits = true) (hw : (s.pc w).waits = false) :
    s'.CondCalls := by
  obtain ⟨hwaiting, hsince, hended⟩ := hrec
  have hself : s'.record w = r := by
    rw [hr, Function.update_self]
  have hother : ∀ c, c ≠ w → s'.record c = s.record c := fun c hc => by
    rw [hr, Function.update_of_ne hc]
  have hplace : ∀ x, (s.pc x).waits = true → s'.pc x = s.pc x := fun x hx => hm.other (by
    rintro rfl
    exact absurd (hw.symm.trans hx) Bool.false_ne_true)
  refine ⟨fun c x hx => ?_, fun c x hx => ?_, fun c hcall => ?_, fun c hend hx => ?_, fun c hend x hx => ?_⟩
  all_goals by_cases hcw : c = w
  · have hx' : (s.pc x).waits = true := by
      rw [hcw, hself, hsince] at hx
      exact hx
    rw [hplace x hx']
    exact hx'
  · rw [hother c hcw] at hx
    have hx' := h.since c x hx
    rw [hplace x hx']
    exact hx'
  · rw [hcw, hself, hwaiting] at hx
    rw [hcw, hself, hsince]
    exact .inl hx
  · rw [hother c hcw] at hx ⊢
    exact h.kept c x hx
  · rw [hs, hcw, hself, hsince]
    exact List.pairwise_of_forall_mem_list fun a ha _ _ _ => hlist a ha
  · rw [hm.other hcw] at hcall
    rw [hs, hother c hcw]
    exact h.fifo c hcall
  · rw [hcw, hself, hended] at hend
    cases hend
  · rw [hother c hcw] at hend hx ⊢
    refine (h.signal c hend hx).imp_right fun ⟨x, hx, hl⟩ => ⟨x, hx, ?_⟩
    rw [hplace x (CondPc.waits_of_leaving hl)]
    exact hl
  · rw [hcw, hself, hended] at hend
    cases hend
  · rw [hother c hcw] at hend hx
    have hl := h.broadcast c hend x hx
    rw [hplace x (CondPc.waits_of_leaving hl)]
    exact hl

/-- **A call ends.** -/
theorem stop {op : CondOp} {r : CondRecord W} (hr : s'.record = Function.update s.record w r)
    (hrec : r.waiting = (s.record w).waiting ∧ r.since = (s.record w).since ∧ r.served = (s.record w).served ∧
      r.ended = some op)
    (hs : s'.sem = s.sem) (hw : (s.pc w).waits = false) (hc : p.calling = false)
    (hsig : op = .signal → (∃ x, (s.record w).waiting x = true) →
      (s.record w).served = true ∨ ∃ x, (s.record w).since x = true ∧ (s.pc x).leaving = true)
    (hcast : op = .broadcast → ∀ x, (s.record w).since x = true → (s.pc x).leaving = true) : s'.CondCalls := by
  obtain ⟨hwaiting, hsince, hserved, hended⟩ := hrec
  have hself : s'.record w = r := by
    rw [hr, Function.update_self]
  have hother : ∀ c, c ≠ w → s'.record c = s.record c := fun c hc => by
    rw [hr, Function.update_of_ne hc]
  have hplace : ∀ x, (s.pc x).waits = true → s'.pc x = s.pc x := fun x hx => hm.other (by
    rintro rfl
    exact absurd (hw.symm.trans hx) Bool.false_ne_true)
  refine ⟨fun c x hx => ?_, fun c x hx => ?_, fun c hcall => ?_, fun c hend hx => ?_, fun c hend x hx => ?_⟩
  all_goals by_cases hcw : c = w
  · have hx' : (s.record w).since x = true := by
      rw [hcw, hself, hsince] at hx
      exact hx
    have hx'' := h.since w x hx'
    rw [hplace x hx'']
    exact hx''
  · rw [hother c hcw] at hx
    have hx' := h.since c x hx
    rw [hplace x hx']
    exact hx'
  · rw [hcw, hself, hwaiting] at hx
    rw [hcw, hself, hsince, hserved]
    exact h.kept w x hx
  · rw [hother c hcw] at hx ⊢
    exact h.kept c x hx
  · rw [hcw, hm.self, hc] at hcall
    cases hcall
  · rw [hm.other hcw] at hcall
    rw [hs, hother c hcw]
    exact h.fifo c hcall
  · rw [hcw, hself, hended] at hend
    rw [hcw, hself, hwaiting] at hx
    rw [hcw, hself, hserved, hsince]
    refine (hsig (Option.some.inj hend) hx).imp_right fun ⟨x, hx, hl⟩ => ⟨x, hx, ?_⟩
    rw [hplace x (CondPc.waits_of_leaving hl)]
    exact hl
  · rw [hother c hcw] at hend hx ⊢
    refine (h.signal c hend hx).imp_right fun ⟨x, hx, hl⟩ => ⟨x, hx, ?_⟩
    rw [hplace x (CondPc.waits_of_leaving hl)]
    exact hl
  · rw [hcw, hself, hended] at hend
    have hx' : (s.record w).since x = true := by
      rw [hcw, hself, hsince] at hx
      exact hx
    have hl := hcast (Option.some.inj hend) x hx'
    rw [hplace x (CondPc.waits_of_leaving hl)]
    exact hl
  · rw [hother c hcw] at hend hx
    have hl := h.broadcast c hend x hx
    rw [hplace x (CondPc.waits_of_leaving hl)]
    exact hl

end CondCalls

/-! ## The sections of a broadcast -/

namespace CondSteps

variable (h : s.CondSteps) (hm : s.Moved s' w p)
include h hm

/-- A thread goes on, and no broadcast has more to do. -/
theorem keep (hr : ∀ c, c ≠ w → (s'.record c).turns = (s.record c).turns ∧
      (s'.record c).waiters = (s.record c).waiters)
    (hn : s'.need ≤ s.need ∨ ∀ c, c ≠ w → (s.pc c).casting = false)
    (hw : (s'.record w).turns + p.toGo s'.need ≤ 2 * (s'.record w).waiters + 4) : s'.CondSteps := by
  intro c
  by_cases hcw : c = w
  · subst hcw
    rw [hm.self]
    exact hw
  · have hc := h c
    rw [hm.other hcw, (hr c hcw).1, (hr c hcw).2]
    rcases hn with hn | hn
    · have hmono := CondPc.toGo_mono hn (s.pc c)
      omega
    · rw [CondPc.toGo_of_not_casting (hn c hcw)]
      omega

end CondSteps

/-- What is left to a broadcast depends on the semaphore and on the number of last releases. -/
theorem need_congr (hs : s'.sem = s.sem) (hn : s'.number .last = s.number .last) : s'.need = s.need := by
  unfold need
  rw [hs, hn]

/-- Fewer threads are on the list. -/
theorem need_sublist (hs : s'.sem.suspended.Sublist s.sem.suspended) (hv : s'.sem.value = s.sem.value)
    (hn : s'.number .last = s.number .last) : s'.need ≤ s.need := by
  have hlen := hs.length_le
  unfold need
  rw [hv, hn]
  split_ifs <;> omega

theorem turn_self : (s.turn w).record w = { s.record w with turns := (s.record w).turns + 1 } :=
  Function.update_self ..

/-- A section that is counted says nothing about the waits. -/
theorem turn_record (c : W) : SameCall (s.record c) ((s.turn w).record c) ∧
    (c ≠ w → ((s.turn w).record c).turns = (s.record c).turns ∧
      ((s.turn w).record c).waiters = (s.record c).waiters) := by
  by_cases hcw : c = w
  · subst hcw
    rw [turn_self]
    exact ⟨⟨rfl, rfl, rfl, rfl⟩, fun hc => absurd rfl hc⟩
  · have heq : (s.turn w).record c = s.record c := Function.update_of_ne hcw ..
    rw [heq]
    exact ⟨⟨rfl, rfl, rfl, rfl⟩, fun _ => ⟨rfl, rfl⟩⟩

theorem goto_moved (s : CondVar W) (w : W) (p : CondPc) : s.Moved (s.goto w p) w p := ⟨rfl, fun _ => rfl⟩

namespace CondOk

variable (h : s.CondOk)
include h

/-- A thread that is in no call goes on in its wait, or outside. -/
theorem quiet (hm : s.Moved s' w p) (hr : s'.record = s.record) (hs : s'.sem = s.sem)
    (hret : s'.returns = s.returns) (hmutex : s'.CondMutex) (ha : p.asleep = (s.pc w).asleep)
    (hw : (s.pc w).waits = true → p.waits = true) (hl : (s.pc w).leaving = true → p.leaving = true)
    (hc : (s.pc w).calling = false) (hc' : p.calling = false)
    (hi : p.interrupted = true → (s.pc w).interrupted = true ∨ ∀ c, (s.pc c).calling = false) : s'.CondOk := by
  have hlast : ∀ q : CondPc, q.calling = false → q.last = false := fun q hq =>
    (Bool.not_eq_true _).mp fun hc => absurd
      (hq.symm.trans (CondPc.calling_of_casting (CondPc.casting_of_last hc))) Bool.false_ne_true
  have hneed : s'.need = s.need :=
    need_congr hs (hm.number_same (q := .last) ((hlast p hc').trans (hlast _ hc).symm))
  have hcasting : p.casting = false := (Bool.not_eq_true _).mp fun hq => absurd
    (hc'.symm.trans (CondPc.calling_of_casting hq)) Bool.false_ne_true
  refine ⟨hm.counts h.number, hmutex, h.list.keep hm (by rw [hs]) (fun hv => h.list.value (hs ▸ hv)) ha
      fun hq => absurd ((hlast p hc').symm.trans hq) Bool.false_ne_true,
    fun c x hcall => ?_, h.calls.keep hm (fun c => by rw [hr]; exact ⟨rfl, rfl, rfl, rfl⟩) (by rw [hs]) hw hl
      fun hq => absurd (hc'.symm.trans hq) Bool.false_ne_true,
    h.steps.keep hm (fun c _ => by rw [hr]; exact ⟨rfl, rfl⟩) (.inl hneed.le) ?_, hret ▸ h.returns⟩
  · have hcw : c ≠ w := by
      rintro rfl
      rw [hm.self, hc'] at hcall
      cases hcall
    rw [hm.other hcw] at hcall
    by_cases hxw : x = w
    · subst hxw
      rw [hm.self]
      refine (Bool.not_eq_true _).mp fun hq => ?_
      rcases hi hq with hq | hno
      · exact absurd ((h.apart c x hcall).symm.trans hq) Bool.false_ne_true
      · exact absurd ((hno c).symm.trans hcall) Bool.false_ne_true
    · rw [hm.other hxw]
      exact h.apart c x hcall
  · have hw := h.steps w
    rw [CondPc.toGo_of_not_casting hcasting, hr]
    omega

/-- **A wait returns**, and may take the value. -/
theorem finish (hm : s.Moved s' w p) (hp : ∃ result, p = .returned result)
    (hr : ∀ c, s'.record c = (s.record c).returned w) (hs : s'.sem.suspended = s.sem.suspended)
    (hv : s'.sem.value = s.sem.value ∨ (∀ c, (s.pc c).casting = false) ∧ (0 < s'.sem.value → 0 < s.sem.value))
    (ho : s'.owner = s.owner) (hk : s'.lockers = s.lockers)
    (hret : ∃ found, s'.returns = (found, decide (s.owner = some w)) :: s.returns ∧
      (found = true → s.owner = some w))
    (ha : (s.pc w).asleep = false) (hl : (s.pc w).locks = false) (hc : (s.pc w).calling = false) : s'.CondOk := by
  obtain ⟨result, rfl⟩ := hp
  have hlast : (s.pc w).last = false := (Bool.not_eq_true _).mp fun hq => absurd
    (hc.symm.trans (CondPc.calling_of_casting (CondPc.casting_of_last hq))) Bool.false_ne_true
  have hnumber : s'.number .last = s.number .last := hm.number_same (q := .last) hlast.symm
  have hval : 0 < s'.sem.value → 0 < s.sem.value := fun hpos => hv.elim (fun hv => hv ▸ hpos) fun hv => hv.2 hpos
  refine ⟨hm.counts h.number, h.mutex.keep hm ho hk hl.symm nofun,
    h.list.keep hm hs (fun hpos => h.list.value (hval hpos)) ha.symm nofun, fun c x hcall => ?_,
    h.calls.finish hm hr hs (h.list.asleep.not_mem ha) rfl,
    h.steps.keep hm (fun c _ => by rw [hr]; exact ⟨rfl, rfl⟩) ?_ ?_, fun e he => ?_⟩
  · have hcw : c ≠ w := by
      rintro rfl
      rw [hm.self] at hcall
      cases hcall
    rw [hm.other hcw] at hcall
    exact hm.all (q := fun _ p => p.interrupted = false) (fun x => h.apart c x hcall) rfl x
  · rcases hv with hv | hv
    · exact .inl (need_sublist (hs ▸ List.Sublist.refl _) hv hnumber)
    · exact .inr fun c _ => hv.1 c
  · have hw := h.steps w
    rw [hr]
    show (s.record w).turns + 0 ≤ 2 * (s.record w).waiters + 4
    omega
  · obtain ⟨found, hret, hfound⟩ := hret
    rw [hret] at he
    rcases List.mem_cons.mp he with rfl | he
    · exact fun hf => decide_eq_true (hfound hf)
    · exact h.returns e he

/-- **A wait is suspended**, while no broadcast runs. -/
theorem sleep {k : WaitKind} (hm : s.Moved s' w (.suspended k)) (hr : s'.record = s.record)
    (hs : s'.sem = s.sem.suspend w) (ho : s'.owner = s.owner) (hk : s'.lockers = s.lockers)
    (hret : s'.returns = s.returns) (hv : s.sem.value = 0) (hno : ∀ c, (s.pc c).casting = false)
    (hpc : ∃ k again, s.pc w = .enter k again) : s'.CondOk := by
  obtain ⟨k', again, hpc⟩ := hpc
  have hlast : ∀ c, (s.pc c).last = false := fun c => (Bool.not_eq_true _).mp fun hq => absurd
    ((hno c).symm.trans (CondPc.casting_of_last hq)) Bool.false_ne_true
  refine ⟨hm.counts h.number, h.mutex.keep hm ho hk (by rw [hpc]; rfl) nofun,
    h.list.sleep hm hs hv hlast (by rw [hpc]; rfl) rfl rfl, fun c x hcall => ?_,
    h.calls.sleep hm hr (by rw [hs]; rfl) (fun c hcall => (Bool.not_eq_true _).mp fun hq => ?_) rfl
      (by rw [hpc]; rfl) rfl,
    h.steps.keep hm (fun c _ => by rw [hr]; exact ⟨rfl, rfl⟩) (.inr fun c _ => hno c) ?_, hret ▸ h.returns⟩
  · have hcw : c ≠ w := by
      rintro rfl
      rw [hm.self] at hcall
      cases hcall
    rw [hm.other hcw] at hcall
    exact hm.all (q := fun _ p => p.interrupted = false) (fun x => h.apart c x hcall) rfl x
  · -- a wait that starts over would have been in progress
    have hwaits := h.calls.since c w hq
    have hint := h.apart c w hcall
    unfold CondPc.waits at hwaits
    rw [hint, hpc] at hwaits
    cases hwaits
  · have hw := h.steps w
    rw [hr]
    show (s.record w).turns + 0 ≤ 2 * (s.record w).waiters + 4
    omega

/-- **A thread is resumed.** -/
theorem wake {k : WaitKind} {e : Err} (hm : s.Moved s' w (.ready k e)) (hr : s'.record = s.record)
    (hs : s'.sem = s.sem.remove w) (ho : s'.owner = s.owner) (hk : s'.lockers = s.lockers)
    (hret : s'.returns = s.returns) (hpc : ∃ k, s.pc w = .suspended k)
    (hi : k = .forever → e = .eintr → ∀ c, (s.pc c).calling = false) : s'.CondOk := by
  obtain ⟨k', hpc⟩ := hpc
  have hsub : s'.sem.suspended.Sublist s.sem.suspended := by
    rw [hs]
    exact List.erase_sublist
  have hwaits : (CondPc.ready k e).waits = true := by
    cases k <;> cases e <;> rfl
  refine ⟨hm.counts h.number, h.mutex.keep hm ho hk (by rw [hpc]; rfl) nofun, h.list.wake hm hs rfl rfl,
    fun c x hcall => ?_,
    h.calls.keep hm (fun c => by rw [hr]; exact ⟨rfl, rfl, rfl, rfl⟩) hsub (fun _ => hwaits)
      (fun hl => by rw [hpc] at hl; cases hl) nofun,
    h.steps.keep hm (fun c _ => by rw [hr]; exact ⟨rfl, rfl⟩) (.inl ?_) ?_, hret ▸ h.returns⟩
  · have hcw : c ≠ w := by
      rintro rfl
      rw [hm.self] at hcall
      cases hcall
    rw [hm.other hcw] at hcall
    refine hm.all (q := fun _ p => p.interrupted = false) (fun x => h.apart c x hcall) ?_ x
    refine (Bool.not_eq_true _).mp fun hq => ?_
    have hke : k = .forever ∧ e = .eintr := by
      cases k <;> cases e <;> first | exact ⟨rfl, rfl⟩ | cases hq
    exact absurd ((hi hke.1 hke.2 c).symm.trans hcall) Bool.false_ne_true
  · exact need_sublist hsub (by rw [hs]; rfl) (hm.number_same (q := .last) (by rw [hpc]; rfl))
  · have hw := h.steps w
    rw [hr]
    show (s.record w).turns + 0 ≤ 2 * (s.record w).waiters + 4
    omega

/-- **`rt_sem_release`.** -/
theorem release : s.release.CondOk ∧ s.release.record = s.record ∧ s.release.owner = s.owner ∧
    s.release.need ≤ max 2 (s.need - 2) ∧
    (s.sem.suspended = [] ∧ s.release.pc = s.pc ∧ 0 < s.release.sem.value ∨
      ∃ w l k, s.sem.suspended = w :: l ∧ s.pc w = .suspended k ∧
        s.release.pc = Function.update s.pc w (.ready k .eok)) := by
  obtain ⟨l, hl⟩ : ∃ l, s.sem.suspended = l := ⟨_, rfl⟩
  cases l with
  | nil =>
    have heq : s.release = { s with sem := s.sem.raise } := by
      unfold CondVar.release
      rw [hl]
    have hpos : 0 < s.sem.raise.value := by
      unfold CondSem.raise
      split_ifs with hlt
      · exact Nat.succ_pos _
      · exact Nat.lt_of_lt_of_le (Nat.succ_pos _) (Nat.le_of_not_lt hlt)
    have hneed : need { s with sem := s.sem.raise } = 2 := if_pos (.inl hpos)
    have hnil : s.sem.raise.suspended = [] := CondSem.suspended_raise.trans hl
    have hge : 2 ≤ s.need := by
      unfold need
      split_ifs <;> omega
    rw [heq]
    refine ⟨⟨h.number, ⟨h.mutex.lockers, h.mutex.held, h.mutex.owns⟩, ⟨?_, fun _ => hnil, fun _ _ => hnil⟩, h.apart,
      ⟨h.calls.since, h.calls.kept, fun c _ => ?_, h.calls.signal, h.calls.broadcast⟩, fun c => ?_, h.returns⟩, rfl,
      rfl, ?_, .inl ⟨hl, rfl, hpos⟩⟩
    · show Tracks CondPc.asleep s.pc s.sem.raise.suspended
      rw [CondSem.suspended_raise]
      exact h.list.asleep
    · show s.sem.raise.suspended.Pairwise _
      rw [hnil]
      exact .nil
    · have hmono := CondPc.toGo_mono hge (s.pc c)
      have hc := h.steps c
      rw [hneed]
      show (s.record c).turns + (s.pc c).toGo 2 ≤ 2 * (s.record c).waiters + 4
      omega
    · rw [hneed]
      omega
  | cons w l =>
    obtain ⟨k, hpc⟩ : ∃ k, s.pc w = .suspended k := by
      have hw := (h.list.asleep.mem w).mp (hl ▸ List.mem_cons_self)
      cases hpc : s.pc w <;> rw [hpc] at hw
      case suspended k => exact ⟨k, rfl⟩
      all_goals cases hw
    have heq : s.release = { s.goto w (.ready k .eok) with sem := s.sem.remove w } := by
      unfold CondVar.release
      rw [hl]
      dsimp only
      rw [hpc, CondSem.remove_head hl]
    have hm : s.Moved s.release w (.ready k .eok) := heq ▸ ⟨rfl, fun _ => rfl⟩
    refine ⟨h.wake hm (by rw [heq]; rfl) (by rw [heq]) (by rw [heq]; rfl) (by rw [heq]; rfl) (by rw [heq]; rfl)
      ⟨k, hpc⟩ nofun, by rw [heq]; rfl, by rw [heq]; rfl, ?_, .inr ⟨w, l, k, hl, hpc, hm.pc⟩⟩
    have hno : ¬ (0 < s.sem.value ∨ 0 < s.number .last) := by
      rintro (hv | hn)
      · exact absurd (hl.symm.trans (h.list.value hv)) (List.cons_ne_nil w l)
      · obtain ⟨c, hc⟩ := (h.number .last).exists_of_pos hn
        exact absurd (hl.symm.trans (h.list.last c hc)) (List.cons_ne_nil w l)
    have hlast : s.release.number .last = s.number .last := hm.number_same (q := .last) (by rw [hpc]; rfl)
    have hlen : s.release.sem.suspended.length = l.length := by
      rw [heq]
      show (s.sem.suspended.erase w).length = l.length
      rw [hl, List.erase_cons_head]
    have hval : s.release.sem.value = s.sem.value := by
      rw [heq]
      rfl
    unfold need
    rw [hlast, hval, if_neg hno, if_neg hno, hlen, hl, List.length_cons]
    omega

/-- **The mutex is handed over** by its owner. -/
theorem handOver {next : W} (hno : ∀ x, (s.pc x).owning = false) (hst : s.handOver next = some s') : s'.CondOk := by
  unfold CondVar.handOver at hst
  by_cases hnil : s.lockers = []
  · rw [if_pos hnil] at hst
    obtain rfl := Option.some.inj hst
    exact ⟨h.number, ⟨h.mutex.lockers, fun hne => absurd hnil hne,
      fun x hx => absurd ((hno x).symm.trans hx) Bool.false_ne_true⟩, ⟨h.list.asleep, h.list.value, h.list.last⟩,
      h.apart, ⟨h.calls.since, h.calls.kept, h.calls.fifo, h.calls.signal, h.calls.broadcast⟩, h.steps, h.returns⟩
  · rw [if_neg hnil] at hst
    by_cases hmem : next ∈ s.lockers
    · rw [if_pos hmem] at hst
      have hlocks := (h.mutex.lockers.mem next).mp hmem
      have hmutex : ∀ {s' : CondVar W} {p : CondPc}, s.Moved s' next p → s'.lockers = s.lockers.erase next →
          s'.owner = some next → p.locks = false → s'.CondMutex := fun hm hk ho hp =>
        h.mutex.unqueue hm hk hp (by rw [ho]; exact Option.some_ne_none next) (fun _ => ho)
          fun x _ hx => absurd ((hno x).symm.trans hx) Bool.false_ne_true
      cases hpc : s.pc next <;> rw [hpc] at hlocks
      case locking =>
        dsimp only at hst
        rw [hpc] at hst
        obtain rfl := Option.some.inj hst
        have hm : s.Moved (CondVar.goto { s with
            owner := some next, hold := 1, lockers := s.lockers.erase next } next .idle) next .idle :=
          ⟨rfl, fun _ => rfl⟩
        exact h.quiet hm rfl rfl rfl (hmutex hm rfl rfl rfl) (by rw [hpc]; rfl) (fun hq => by rw [hpc] at hq; cases hq)
          (fun hq => by rw [hpc] at hq; cases hq) (by rw [hpc]; rfl) rfl nofun
      case relocking k e =>
        dsimp only at hst
        rw [hpc] at hst
        obtain rfl := Option.some.inj hst
        have hm : s.Moved (CondVar.goto { s with
            owner := some next, hold := 1, lockers := s.lockers.erase next } next (.back k e)) next (.back k e) :=
          ⟨rfl, fun _ => rfl⟩
        refine h.quiet hm rfl rfl rfl (hmutex hm rfl rfl rfl) (by rw [hpc]; rfl) (fun hq => ?_) (fun hq => ?_)
          (by rw [hpc]; rfl) rfl fun hq => .inl ?_
        · rw [hpc] at hq
          exact hq
        · rw [hpc] at hq
          exact hq
        · rw [hpc]
          exact hq
      all_goals cases hlocks
    · rw [if_neg hmem] at hst
      cases hst

/-- `pthread_mutex_unlock` by the owner. -/
theorem mutexUnlock {next : W} (hno : ∀ x, (s.pc x).owning = false) (hst : s.mutexUnlock next = some s') :
    s'.CondOk := by
  unfold CondVar.mutexUnlock at hst
  by_cases hold : 1 < s.hold
  · rw [if_pos hold] at hst
    obtain rfl := Option.some.inj hst
    exact ⟨h.number, ⟨h.mutex.lockers, h.mutex.held, h.mutex.owns⟩, ⟨h.list.asleep, h.list.value, h.list.last⟩,
      h.apart, ⟨h.calls.since, h.calls.kept, h.calls.fifo, h.calls.signal, h.calls.broadcast⟩, h.steps, h.returns⟩
  · rw [if_neg hold] at hst
    exact h.handOver hno hst

/-- The owner is in no wait that relies on the mutex. -/
theorem not_owning (ho : s.owner = some w) (hw : (s.pc w).owning = false) (x : W) : (s.pc x).owning = false := by
  refine (Bool.not_eq_true _).mp fun hx => ?_
  obtain rfl := Option.some.inj (ho.symm.trans (h.mutex.owns x hx))
  exact absurd (hw.symm.trans hx) Bool.false_ne_true

/-- **`pthread_mutex_lock`**, outside or behind a wait. -/
theorem mutexLock {taken suspended : CondPc} (hc : (s.pc w).calling = false) (hc' : taken.calling = false)
    (hc'' : suspended.calling = false) (hk : (s.pc w).locks = false) (hk' : taken.locks = false)
    (hk'' : suspended.locks = true) (ho'' : suspended.owning = false)
    (ha : (s.pc w).asleep = false ∧ taken.asleep = false ∧ suspended.asleep = false)
    (hw : (s.pc w).waits = true → taken.waits = true ∧ suspended.waits = true)
    (hl : (s.pc w).leaving = true → taken.leaving = true ∧ suspended.leaving = true)
    (hi : taken.interrupted = true ∨ suspended.interrupted = true → (s.pc w).interrupted = true) :
    (s.mutexLock w taken suspended).CondOk := by
  unfold CondVar.mutexLock
  obtain ⟨o, ho⟩ : ∃ o, s.owner = o := ⟨_, rfl⟩
  rw [ho]
  have hquiet : ∀ {s' : CondVar W}, s.Moved s' w taken → s'.record = s.record → s'.sem = s.sem →
      s'.returns = s.returns → s'.CondMutex → s'.CondOk := fun hm hr hs hret hmutex =>
    h.quiet hm hr hs hret hmutex (ha.2.1.trans ha.1.symm) (fun hq => (hw hq).1) (fun hq => (hl hq).1) hc hc'
      fun hq => .inl (hi (.inl hq))
  cases o with
  | none =>
    have hm : s.Moved { s.goto w taken with owner := some w, hold := 1 } w taken := ⟨rfl, fun _ => rfl⟩
    exact hquiet hm rfl rfl rfl (h.mutex.take hm ho rfl rfl (hk'.trans hk.symm))
  | some o =>
    dsimp only
    by_cases hself : o = w
    · rw [if_pos hself]
      subst hself
      by_cases hrec : s.recursive ∧ s.hold < condHoldMax
      · rw [if_pos hrec]
        have hm : s.Moved { s.goto o taken with hold := s.hold + 1 } o taken := ⟨rfl, fun _ => rfl⟩
        exact hquiet hm rfl rfl rfl (h.mutex.keep hm rfl rfl (hk'.trans hk.symm) fun _ => ho)
      · rw [if_neg hrec]
        have hm := goto_moved s o taken
        exact hquiet hm rfl rfl rfl (h.mutex.keep hm rfl rfl (hk'.trans hk.symm) fun _ => ho)
    · rw [if_neg hself]
      have hm : s.Moved { s.goto w suspended with lockers := s.lockers ++ [w] } w suspended := ⟨rfl, fun _ => rfl⟩
      exact h.quiet hm rfl rfl rfl
        (h.mutex.queue hm (by rw [ho]; exact Option.some_ne_none o) rfl rfl hk hk'' ho'') (ha.2.2.trans ha.1.symm)
        (fun hq => (hw hq).2) (fun hq => (hl hq).2) hc hc'' fun hq => .inl (hi (.inr hq))

/-- **`_pthread_cond_timedwait`** up to its `rt_schedule`. -/
theorem enter {k : WaitKind} {again : Bool} {ticks : ℕ} {next : W} (hpc : s.pc w = .enter k again)
    (hcast : s.owner = some w → (∀ c, (s.pc c).casting = false) ∨ s.sem.value = 0 ∧ k = .timed ∧ ticks = 0)
    (hst : s.enter w k again ticks next = some s') : s'.CondOk := by
  have hfinish : ∀ {result : CondResult} {found : Bool} {c : CondSem W}, c.suspended = s.sem.suspended →
      (c.value = s.sem.value ∨ (∀ c, (s.pc c).casting = false) ∧ (0 < c.value → 0 < s.sem.value)) →
      (found = true → s.owner = some w) → CondOk { s.finish w result found with sem := c } :=
    fun {result found c} hs hv hfound =>
      h.finish (w := w) (p := .returned result) ⟨rfl, fun _ => rfl⟩ ⟨result, rfl⟩ (fun _ => rfl) hs hv rfl rfl
        ⟨found, rfl, hfound⟩ (by rw [hpc]; rfl) (by rw [hpc]; rfl) (by rw [hpc]; rfl)
  unfold CondVar.enter at hst
  by_cases ho : s.owner ≠ some w
  · rw [if_pos ho] at hst
    obtain rfl := Option.some.inj hst
    refine hfinish (c := s.sem) rfl (.inl rfl) fun hagain => absurd (h.mutex.owns w ?_) ho
    rw [hpc, hagain]
    rfl
  · rw [if_neg ho] at hst
    rw [not_not] at ho
    by_cases hv : 0 < s.sem.value
    · rw [if_pos hv] at hst
      obtain rfl := Option.some.inj hst
      have hno : ∀ c, (s.pc c).casting = false := (hcast ho).resolve_right fun hz => by
        have hz := hz.1
        omega
      exact hfinish (c := { s.sem with value := s.sem.value - 1 }) rfl (.inr ⟨hno, fun _ => hv⟩) fun _ => ho
    · rw [if_neg hv] at hst
      by_cases ht : k = .timed ∧ ticks = 0
      · rw [if_pos ht] at hst
        obtain rfl := Option.some.inj hst
        exact hfinish (c := s.sem) rfl (.inl rfl) fun _ => ho
      · rw [if_neg ht] at hst
        have hno : ∀ c, (s.pc c).casting = false := (hcast ho).resolve_right fun hz => ht hz.2
        have hm : s.Moved { s.goto w (.suspended k) with sem := s.sem.suspend w } w (.suspended k) :=
          ⟨rfl, fun _ => rfl⟩
        have hok := h.sleep hm rfl rfl rfl rfl rfl (Nat.eq_zero_of_not_pos hv) hno ⟨k, again, hpc⟩
        refine hok.mutexUnlock (hok.not_owning (w := w) ho ?_) hst
        rw [hm.self]
        rfl

/-- **The rest of a wait.** -/
theorem back {k : WaitKind} {e : Err} (hpc : s.pc w = .back k e) : (s.back w k e).CondOk := by
  have ho : s.owner = some w := h.mutex.owns w (by rw [hpc]; rfl)
  have hfinish : ∀ result, (s.finish w result true).CondOk := fun result =>
    h.finish (w := w) (p := .returned result) ⟨rfl, fun _ => rfl⟩ ⟨result, rfl⟩ (fun _ => rfl) rfl (.inl rfl) rfl rfl
      ⟨true, rfl, fun _ => ho⟩ (by rw [hpc]; rfl) (by rw [hpc]; rfl) (by rw [hpc]; rfl)
  have hagain : e = .eintr → k = .forever → (s.goto w (.enter .forever true)).CondOk := by
    rintro rfl rfl
    have hm := goto_moved s w (.enter .forever true)
    exact h.quiet hm rfl rfl rfl (h.mutex.keep hm rfl rfl (by rw [hpc]; rfl) fun _ => ho) (by rw [hpc]; rfl)
      (fun _ => rfl) (fun hq => by rw [hpc] at hq; cases hq) (by rw [hpc]; rfl) rfl
      fun _ => .inl (by rw [hpc]; rfl)
  cases k <;> cases e
  case forever.eintr => exact hagain rfl rfl
  all_goals exact hfinish _

/-- The timer of a thread. -/
theorem timeOut (hst : s.timeOut w = some s') : s'.CondOk := by
  unfold CondVar.timeOut at hst
  cases hpc : s.pc w <;> rw [hpc] at hst
  case suspended k =>
    cases k with
    | forever => cases hst
    | timed =>
      obtain rfl := Option.some.inj hst
      exact h.wake (w := w) (k := .timed) (e := .etimeout) ⟨rfl, fun _ => rfl⟩ rfl rfl rfl rfl rfl ⟨.timed, hpc⟩ nofun
  all_goals cases hst

/-- **A POSIX signal is delivered.** -/
theorem deliver (hsleep : s.pc w = .suspended .forever → ∀ c, (s.pc c).calling = false)
    (hready : ∀ e, s.pc w = .ready .forever e → e = .eintr) (hlock : ∀ k e, s.pc w ≠ .relocking k e) :
    (s.deliver w).CondOk := by
  unfold CondVar.deliver
  cases hpc : s.pc w
  case suspended k =>
    refine h.wake (w := w) (k := k) (e := .eintr) ⟨rfl, fun _ => rfl⟩ rfl rfl rfl rfl rfl ⟨k, hpc⟩ fun hk _ => ?_
    exact hsleep (hk ▸ hpc)
  case ready k e =>
    have hm := goto_moved s w (.ready k .eintr)
    have hmutex := h.mutex.keep hm rfl rfl (by rw [hpc]; rfl) nofun
    cases k with
    | timed =>
      exact h.quiet hm rfl rfl rfl hmutex (by rw [hpc]; rfl) (fun _ => rfl) (fun _ => rfl) (by rw [hpc]; rfl) rfl nofun
    | forever =>
      obtain rfl := hready e hpc
      exact h.quiet hm rfl rfl rfl hmutex (by rw [hpc]) (fun hq => by rw [hpc] at hq; exact hq)
        (fun hq => by rw [hpc] at hq; exact hq) (by rw [hpc]; rfl) rfl fun hq => .inl (by rw [hpc]; exact hq)
  case relocking k e => exact absurd hpc (hlock k e)
  case locking =>
    have hm : s.Moved { s.goto w .idle with lockers := s.lockers.erase w } w .idle := ⟨rfl, fun _ => rfl⟩
    have hmem : w ∈ s.lockers := (h.mutex.lockers.mem w).mpr (by rw [hpc]; rfl)
    have hmutex := h.mutex.unqueue hm rfl rfl (h.mutex.held (List.ne_nil_of_mem hmem)) nofun
      fun x _ hx => h.mutex.owns x hx
    exact h.quiet hm rfl rfl rfl hmutex (by rw [hpc]; rfl) (fun hq => by rw [hpc] at hq; cases hq)
      (fun hq => by rw [hpc] at hq; cases hq) (by rw [hpc]; rfl) rfl nofun
  all_goals exact h

/-- **A call of `pthread_cond_signal` or `pthread_cond_broadcast`** begins, with no wait that starts over. -/
theorem begin (hp : p = .signal ∨ p = .broadcast) (hout : (s.pc w).outside = true)
    (hint : ∀ x, (s.pc x).interrupted = false) : (s.begin w p).CondOk := by
  have hm : s.Moved (s.begin w p) w p := ⟨rfl, fun _ => rfl⟩
  have hplain : (s.pc w).asleep = false ∧ (s.pc w).locks = false ∧ (s.pc w).waits = false ∧ (s.pc w).last = false := by
    cases hpc : s.pc w <;> rw [hpc] at hout
    case idle | returned => exact ⟨rfl, rfl, rfl, rfl⟩
    all_goals cases hout
  have hp' : p.asleep = false ∧ p.locks = false ∧ p.owning = false ∧ p.last = false ∧ p.interrupted = false := by
    rcases hp with rfl | rfl <;> exact ⟨rfl, rfl, rfl, rfl, rfl⟩
  have hneed : (s.begin w p).need = s.need :=
    need_congr rfl (hm.number_same (q := .last) (hp'.2.2.2.1.trans hplain.2.2.2.symm))
  refine ⟨hm.counts h.number, h.mutex.keep hm rfl rfl (hp'.2.1.trans hplain.2.1.symm)
      fun hq => absurd (hp'.2.2.1.symm.trans hq) Bool.false_ne_true,
    h.list.keep hm rfl h.list.value (hp'.1.trans hplain.1.symm)
      fun hq => absurd (hp'.2.2.2.1.symm.trans hq) Bool.false_ne_true,
    fun c x _ => hm.all (q := fun _ p => p.interrupted = false) hint hp'.2.2.2.2 x,
    h.calls.begin hm rfl ⟨rfl, rfl, rfl⟩ rfl
      (fun x hx => CondPc.waits_of_asleep ((h.list.asleep.mem x).mp hx)) hplain.2.2.1,
    h.steps.keep hm (fun c hc => ?_) (.inl hneed.le) ?_, h.returns⟩
  · have hother : (s.begin w p).record c = s.record c := Function.update_of_ne hc ..
    rw [hother]
    exact ⟨rfl, rfl⟩
  · have hself : (s.begin w p).record w =
        ⟨fun x => (s.pc x).waits, fun x => (s.pc x).waits, false, none, s.sem.suspended.length, 0⟩ :=
      Function.update_self ..
    rw [hself, hneed]
    show 0 + p.toGo s.need ≤ 2 * s.sem.suspended.length + 4
    have hle : s.need ≤ 2 * s.sem.suspended.length + 4 := by
      unfold need
      split_ifs <;> omega
    rcases hp with rfl | rfl
    · exact Nat.zero_le _
    · show 0 + s.need ≤ _
      omega

/-- A section of a call. -/
theorem within (hm : s.Moved s' w p) (hr : ∀ c, SameCall (s.record c) (s'.record c))
    (hr' : ∀ c, c ≠ w → (s'.record c).turns = (s.record c).turns ∧ (s'.record c).waiters = (s.record c).waiters)
    (hs : s'.sem.suspended = s.sem.suspended) (hv : 0 < s'.sem.value → s.sem.suspended = [])
    (ho : s'.owner = s.owner) (hk : s'.lockers = s.lockers) (hret : s'.returns = s.returns)
    (hw : (s.pc w).calling = true) (hp : p.calling = true) (hlast : p.last = true → s.sem.suspended = [])
    (hn : s'.need ≤ s.need) (hsteps : (s'.record w).turns + p.toGo s'.need ≤ 2 * (s'.record w).waiters + 4) :
    s'.CondOk := by
  obtain ⟨ha, hl, -, hwait, hleave⟩ := CondPc.plain_of_calling hw
  obtain ⟨ha', hl', ho', -, -⟩ := CondPc.plain_of_calling hp
  refine ⟨hm.counts h.number, h.mutex.keep hm ho hk (hl'.trans hl.symm)
      fun hq => absurd (ho'.symm.trans hq) Bool.false_ne_true,
    h.list.keep hm hs hv (ha'.trans ha.symm) hlast, fun c x hcall => ?_,
    h.calls.keep hm hr (hs ▸ List.Sublist.refl _) (fun hq => absurd (hwait.symm.trans hq) Bool.false_ne_true)
      (fun hq => absurd (hleave.symm.trans hq) Bool.false_ne_true) fun _ => hw,
    h.steps.keep hm hr' (.inl hn) hsteps, hret ▸ h.returns⟩
  have hcall' : (s.pc c).calling = true :=
    hm.all (q := fun x p => p.calling = true → (s.pc x).calling = true) (fun _ => id) (fun _ => hw) c hcall
  refine hm.all (q := fun _ p => p.interrupted = false) (fun x => h.apart c x hcall') ?_ x
  refine (Bool.not_eq_true _).mp fun hq => ?_
  exact absurd ((CondPc.not_calling_of_interrupted hq).symm.trans hp) Bool.false_ne_true

/-- The end of a call. -/
theorem stop {op : CondOp} {r : CondRecord W} (hm : s.Moved s' w .idle)
    (hr : s'.record = Function.update s.record w r)
    (hrec : r.waiting = (s.record w).waiting ∧ r.since = (s.record w).since ∧ r.served = (s.record w).served ∧
      r.ended = some op)
    (hturns : r.turns ≤ 2 * r.waiters + 4) (hs : s'.sem = s.sem) (ho : s'.owner = s.owner)
    (hk : s'.lockers = s.lockers) (hret : s'.returns = s.returns) (hw : (s.pc w).calling = true)
    (hn : s'.need ≤ s.need)
    (hsig : op = .signal → (∃ x, (s.record w).waiting x = true) →
      (s.record w).served = true ∨ ∃ x, (s.record w).since x = true ∧ (s.pc x).leaving = true)
    (hcast : op = .broadcast → ∀ x, (s.record w).since x = true → (s.pc x).leaving = true) : s'.CondOk := by
  obtain ⟨ha, hl, -, hwait, -⟩ := CondPc.plain_of_calling hw
  refine ⟨hm.counts h.number, h.mutex.keep hm ho hk hl.symm nofun,
    h.list.keep hm (by rw [hs]) (fun hv => h.list.value (hs ▸ hv)) ha.symm nofun, fun c x hcall => ?_,
    h.calls.stop hm hr hrec hs hwait rfl hsig hcast,
    h.steps.keep hm (fun c hc => ?_) (.inl hn) ?_, hret ▸ h.returns⟩
  · have hcw : c ≠ w := by
      rintro rfl
      rw [hm.self] at hcall
      cases hcall
    rw [hm.other hcw] at hcall
    exact hm.all (q := fun _ p => p.interrupted = false) (fun x => h.apart c x hcall) rfl x
  · rw [hr, Function.update_of_ne hc]
    exact ⟨rfl, rfl⟩
  · rw [hr, Function.update_self]
    exact hturns

/-- The waits that a call knows of, when those of them that sleep have been woken. -/
theorem since_leaving (hw : (s.pc w).calling = true)
    (hawake : ∀ x, (s.record w).since x = true → (s.pc x).asleep = false) (x : W)
    (hx : (s.record w).since x = true) : (s.pc x).leaving = true :=
  CondPc.leaving_of_waits (h.calls.since w x hx) (hawake x hx) (h.apart w x hw)

/-- No thread sleeps on an empty list. -/
theorem awake (hnil : s.sem.suspended = []) (x : W) : (s.pc x).asleep = false := by
  refine (Bool.not_eq_true _).mp fun hx => ?_
  have hmem := (h.list.asleep.mem x).mpr hx
  rw [hnil] at hmem
  exact absurd hmem List.not_mem_nil

/-- A call of `pthread_cond_signal` that has woken a wait, or found none that sleeps. -/
theorem reached (h₀ : ∀ x, (s.record w).waiting x = true → (s.record w).since x = true ∨ (s.record w).served = true)
    (hx : (∀ x, (s.record w).since x = true → (s.pc x).leaving = true) ∨
      ∃ x, (s.record w).since x = true ∧ (s.pc x).leaving = true) :
    (∃ x, (s.record w).waiting x = true) →
      (s.record w).served = true ∨ ∃ x, (s.record w).since x = true ∧ (s.pc x).leaving = true := by
  rintro ⟨x, hwait⟩
  rcases hx with hall | hex
  · exact (h₀ x hwait).symm.imp_right fun hs => ⟨x, hs, hall x hs⟩
  · exact .inr hex

/-- The test of `pthread_cond_signal`. -/
theorem signal (hpc : s.pc w = .signal) :
    (if s.sem.suspended = [] then s.stop w .signal else s.goto w .signalRelease).CondOk := by
  have hw : (s.pc w).calling = true := by rw [hpc]; rfl
  by_cases hnil : s.sem.suspended = []
  · rw [if_pos hnil]
    have hm : s.Moved (s.stop w .signal) w .idle := ⟨rfl, fun _ => rfl⟩
    have hneed : (s.stop w .signal).need = s.need :=
      need_congr rfl (hm.number_same (q := .last) (by rw [hpc]; rfl))
    have hturns := h.steps w
    refine h.stop hm rfl ⟨rfl, rfl, rfl, rfl⟩ (Nat.le_trans (Nat.le_add_right ..) hturns) rfl rfl rfl rfl hw hneed.le
      (fun _ => ?_) nofun
    exact h.reached (h.calls.kept w) (.inl (h.since_leaving hw fun x _ => h.awake hnil x))
  · rw [if_neg hnil]
    have hm := goto_moved s w .signalRelease
    have hneed : (s.goto w .signalRelease).need = s.need :=
      need_congr rfl (hm.number_same (q := .last) (by rw [hpc]; rfl))
    refine h.within hm (fun _ => ⟨rfl, rfl, rfl, rfl⟩) (fun _ _ => ⟨rfl, rfl⟩) rfl h.list.value rfl rfl rfl hw rfl
      nofun hneed.le ?_
    have hsteps := h.steps w
    rw [hpc] at hsteps
    exact hsteps

/-- **`pthread_cond_signal`** wakes the first thread: the waits that were in progress at its start are before the
others on the list. -/
theorem signalRelease (hpc : s.pc w = .signalRelease) : (s.release.stop w .signal).CondOk := by
  have hw : (s.pc w).calling = true := by rw [hpc]; rfl
  obtain ⟨hok, hrec, -, -, hcase⟩ := h.release
  have hself : s.release.pc w = s.pc w := by
    rcases hcase with ⟨-, hpcs, -⟩ | ⟨w₁, l, k, -, hpc₁, hpcs⟩
    · rw [hpcs]
    · have hne : w ≠ w₁ := by
        rintro rfl
        rw [hpc] at hpc₁
        cases hpc₁
      rw [hpcs, Function.update_of_ne hne]
  have hm : s.release.Moved (s.release.stop w .signal) w .idle := ⟨rfl, fun _ => rfl⟩
  have hneed : (s.release.stop w .signal).need = s.release.need :=
    need_congr rfl (hm.number_same (q := .last) (by rw [hself, hpc]; rfl))
  have hturns := hok.steps w
  refine hok.stop hm rfl ⟨rfl, rfl, rfl, rfl⟩ (Nat.le_trans (Nat.le_add_right ..) hturns) rfl rfl rfl rfl
    (hself ▸ hw) hneed.le (fun _ => hok.reached (hok.calls.kept w) ?_) nofun
  rcases hcase with ⟨hnil, hpcs, -⟩ | ⟨w₁, l, k, hl, hpc₁, hpcs⟩
  · refine .inl (hok.since_leaving (hself ▸ hw) fun x _ => ?_)
    rw [hpcs]
    exact h.awake hnil x
  · by_cases hfirst : (s.record w).since w₁ = true
    · refine .inr ⟨w₁, hrec ▸ hfirst, ?_⟩
      rw [hpcs, Function.update_self]
      cases k <;> rfl
    · -- the first thread came later, and so did all others
      have hfifo := h.calls.fifo w hw
      rw [hl] at hfifo
      refine .inl (hok.since_leaving (hself ▸ hw) fun x hx => ?_)
      rw [hrec] at hx
      have hne : x ≠ w₁ := fun he => hfirst (he ▸ hx)
      rw [hpcs, Function.update_of_ne hne]
      refine (Bool.not_eq_true _).mp fun hsleep => hfirst ?_
      have hmem := (h.list.asleep.mem x).mpr hsleep
      rw [hl] at hmem
      exact List.rel_of_pairwise_cons hfifo ((List.mem_cons.mp hmem).resolve_left hne) hx

/-- `rt_sem_trytake` in the loop of **`pthread_cond_broadcast`**. -/
theorem broadcast (hpc : s.pc w = .broadcast)
    (hok : 0 < s.sem.value ∨ s.sem.suspended ≠ [] ∨ s.number .last = 0) : (s.broadcast w).CondOk := by
  have hw : (s.pc w).calling = true := by rw [hpc]; rfl
  have hsteps := h.steps w
  rw [hpc] at hsteps
  change (s.record w).turns + s.need ≤ _ at hsteps
  unfold CondVar.broadcast
  obtain ⟨o, ho⟩ : ∃ o, s.sem.trytake = o := ⟨_, rfl⟩
  rw [ho]
  cases o with
  | none =>
    have hv : ¬ 0 < s.sem.value := fun hv => by
      unfold CondSem.trytake at ho
      rw [if_pos hv] at ho
      cases ho
    have hlast : ¬ 0 < s.number .last := fun hn => by
      obtain ⟨c, hc⟩ := (h.number .last).exists_of_pos hn
      rcases hok with hpos | hne | hz
      · exact hv hpos
      · exact hne (h.list.last c hc)
      · omega
    have hge : 4 ≤ s.need := by
      unfold need
      rw [if_neg (not_or.mpr ⟨hv, hlast⟩)]
      omega
    have hm : s.Moved ((s.turn w).goto w .broadcastRelease) w .broadcastRelease := ⟨rfl, fun _ => rfl⟩
    have hneed : ((s.turn w).goto w .broadcastRelease).need = s.need :=
      need_congr rfl (hm.number_same (q := .last) (by rw [hpc]; rfl))
    refine h.within hm (fun c => (turn_record c).1) (fun c => (turn_record c).2) rfl h.list.value rfl rfl rfl hw rfl nofun
      hneed.le ?_
    rw [hneed]
    show ((s.turn w).record w).turns + max 3 (s.need - 1) ≤ 2 * ((s.turn w).record w).waiters + 4
    rw [turn_self]
    dsimp only
    omega
  | some c =>
    obtain ⟨hs, hv⟩ := CondSem.suspended_trytake ho
    have hnil := h.list.value hv
    have htwo : s.need = 2 := if_pos (.inl hv)
    have hm : s.Moved { (s.turn w).goto w .broadcastLast with sem := c } w .broadcastLast := ⟨rfl, fun _ => rfl⟩
    have hpos : 0 < s.number .last + 1 - 0 := Nat.succ_pos _
    have hneed : need { (s.turn w).goto w .broadcastLast with sem := c } = 2 := by
      refine if_pos (.inr ?_)
      rw [hm.number, hpc]
      exact hpos
    refine h.within hm (fun c => (turn_record c).1) (fun c => (turn_record c).2) hs (fun _ => hnil) rfl rfl rfl hw rfl
      (fun _ => hnil) (hneed.trans htwo.symm).le ?_
    rw [hneed]
    show ((s.turn w).record w).turns + 1 ≤ 2 * ((s.turn w).record w).waiters + 4
    rw [turn_self]
    dsimp only
    omega

/-- A call behind its `rt_sem_release`. -/
theorem released (hw : (s.pc w).calling = true) : s.release.pc w = s.pc w := by
  obtain ⟨-, -, -, -, ⟨-, hpcs, -⟩ | ⟨w₁, l, k, -, hpc₁, hpcs⟩⟩ := h.release
  · rw [hpcs]
  · have hne : w ≠ w₁ := by
      rintro rfl
      rw [hpc₁] at hw
      cases hw
    rw [hpcs, Function.update_of_ne hne]

/-- A release in the loop of `pthread_cond_broadcast`. -/
theorem broadcastRelease (hpc : s.pc w = .broadcastRelease) : ((s.release.turn w).goto w .broadcast).CondOk := by
  have hw : (s.pc w).calling = true := by rw [hpc]; rfl
  have hself := h.released hw
  obtain ⟨hok, hrec, -, hneed, -⟩ := h.release
  have hsteps := h.steps w
  rw [hpc] at hsteps
  change (s.record w).turns + max 3 (s.need - 1) ≤ _ at hsteps
  have hm : s.release.Moved ((s.release.turn w).goto w .broadcast) w .broadcast := ⟨rfl, fun _ => rfl⟩
  have hneed' : ((s.release.turn w).goto w .broadcast).need = s.release.need :=
    need_congr rfl (hm.number_same (q := .last) (by rw [hself, hpc]; rfl))
  refine hok.within hm (fun c => (turn_record c).1) (fun c => (turn_record c).2) rfl hok.list.value rfl rfl rfl
    (hself ▸ hw) rfl nofun hneed'.le ?_
  rw [hneed']
  show ((s.release.turn w).record w).turns + s.release.need ≤ 2 * ((s.release.turn w).record w).waiters + 4
  rw [turn_self, hrec]
  dsimp only
  omega

/-- **The last release of `pthread_cond_broadcast`**: every thread of the list has been woken. -/
theorem broadcastLast (hpc : s.pc w = .broadcastLast) : ((s.release.turn w).stop w .broadcast).CondOk := by
  have hw : (s.pc w).calling = true := by rw [hpc]; rfl
  have hself := h.released hw
  have hnil := h.list.last w (by rw [hpc]; rfl)
  obtain ⟨hok, hrec, -, -, hcase⟩ := h.release
  obtain ⟨-, hpcs, hpos⟩ := hcase.resolve_right fun ⟨w₁, l, k, hl, _⟩ =>
    absurd (hnil.symm.trans hl) (List.cons_ne_nil w₁ l).symm
  have hsteps := h.steps w
  rw [hpc] at hsteps
  change (s.record w).turns + 1 ≤ _ at hsteps
  have hm : s.release.Moved ((s.release.turn w).stop w .broadcast) w .idle := ⟨rfl, fun _ => rfl⟩
  have hr : ((s.release.turn w).stop w .broadcast).record = Function.update s.release.record w
      { s.release.record w with turns := (s.release.record w).turns + 1, ended := some .broadcast } := by
    show Function.update (Function.update s.release.record w _) w
      { (s.release.turn w).record w with ended := some .broadcast } = _
    rw [Function.update_idem, turn_self]
  have hneed : ((s.release.turn w).stop w .broadcast).need ≤ s.release.need := by
    have htwo : ((s.release.turn w).stop w .broadcast).need = 2 := if_pos (.inl hpos)
    have htwo' : s.release.need = 2 := if_pos (.inl hpos)
    omega
  refine hok.stop hm hr ⟨rfl, rfl, rfl, rfl⟩ ?_ rfl rfl rfl rfl (hself ▸ hw) hneed nofun fun _ => ?_
  · show (s.release.record w).turns + 1 ≤ 2 * (s.release.record w).waiters + 4
    rw [hrec]
    exact hsteps
  · refine hok.since_leaving (hself ▸ hw) fun x _ => ?_
    rw [hpcs]
    exact h.awake hnil x

end CondOk

/-- The condition. A call of `pthread_cond_signal` or `pthread_cond_broadcast` begins when no interrupted wait starts
over, and no `pthread_cond_wait` is interrupted while such a call runs, or after it has been woken; no lock behind a
wait is interrupted; while a broadcast runs, no wait begins, and its `rt_sem_trytake` does not come between those of
another broadcast and its release when the list is empty. -/
def condOk (s : CondVar W) : CondLabel W → Bool
  | .signal _ => decide (s.number .interrupted = 0)
  | .broadcast _ => decide (s.number .interrupted = 0)
  | .deliver w =>
    match s.pc w with
    | .suspended .forever => decide (s.number .calling = 0)
    | .ready .forever e => decide (e = .eintr)
    | .relocking _ _ => false
    | _ => true
  | .go w ticks _ =>
    match s.pc w with
    | .enter k _ => decide (s.number .casting = 0) || decide (s.owner ≠ some w) ||
        (decide (s.sem.value = 0) && decide (k = .timed) && decide (ticks = 0))
    | .broadcast => decide (0 < s.sem.value) || !s.sem.suspended.isEmpty || decide (s.number .last = 0)
    | _ => true
  | _ => true

namespace CondOk

variable (h : s.CondOk)
include h

/-- **A section of a thread.** -/
theorem step {ticks : ℕ} {next : W} (hok : s.condOk (.go w ticks next) = true)
    (hst : s.step w ticks next = some s') : s'.CondOk := by
  unfold CondVar.step at hst
  unfold condOk at hok
  dsimp only at hok
  cases hpc : s.pc w <;> rw [hpc] at hst hok
  case enter k again =>
    refine h.enter hpc (fun ho => ?_) hst
    dsimp only at hok
    rw [decide_eq_false (not_not.mpr ho), Bool.or_false, Bool.or_eq_true, Bool.and_eq_true, Bool.and_eq_true,
      decide_eq_true_iff, decide_eq_true_iff, decide_eq_true_iff, decide_eq_true_iff, and_assoc] at hok
    refine hok.imp_left fun hz => ?_
    have hcount := h.number .casting
    rw [hz] at hcount
    exact hcount.none
  case ready k e =>
    obtain rfl := Option.some.inj hst
    have hm := goto_moved s w (.relock k e)
    exact h.quiet hm rfl rfl rfl (h.mutex.keep hm rfl rfl (by rw [hpc]; rfl) nofun) (by rw [hpc]; rfl)
      (fun hq => by rw [hpc] at hq; exact hq) (fun hq => by rw [hpc] at hq; exact hq) (by rw [hpc]; rfl) rfl
      fun hq => .inl (by rw [hpc]; exact hq)
  case relock k e =>
    obtain rfl := Option.some.inj hst
    exact h.mutexLock (by rw [hpc]; rfl) rfl rfl (by rw [hpc]; rfl) rfl rfl rfl ⟨by rw [hpc]; rfl, rfl, rfl⟩
      (fun hq => by rw [hpc] at hq; exact ⟨hq, hq⟩) (fun hq => by rw [hpc] at hq; exact ⟨hq, hq⟩)
      fun hq => by rw [hpc]; exact hq.elim id id
  case back k e =>
    obtain rfl := Option.some.inj hst
    exact h.back hpc
  case signal =>
    obtain rfl := Option.some.inj hst
    exact h.signal hpc
  case signalRelease =>
    obtain rfl := Option.some.inj hst
    exact h.signalRelease hpc
  case broadcast =>
    obtain rfl := Option.some.inj hst
    refine h.broadcast hpc ?_
    dsimp only at hok
    rw [Bool.or_eq_true, Bool.or_eq_true, decide_eq_true_iff, decide_eq_true_iff, Bool.not_eq_true',
      List.isEmpty_eq_false_iff, or_assoc] at hok
    exact hok
  case broadcastRelease =>
    obtain rfl := Option.some.inj hst
    exact h.broadcastRelease hpc
  case broadcastLast =>
    obtain rfl := Option.some.inj hst
    exact h.broadcastLast hpc
  all_goals cases hst

/-- What a thread that is outside may call. -/
theorem call {next : CondVar W} (hnext : (s.pc w).outside = true → next.CondOk) (hst : s.call w next = some s') :
    s'.CondOk := by
  unfold CondVar.call at hst
  by_cases hout : (s.pc w).outside = true
  · rw [if_pos hout] at hst
    obtain rfl := Option.some.inj hst
    exact hnext hout
  · rw [if_neg hout] at hst
    cases hst

/-- **One step.** -/
theorem next {a : CondLabel W} (hok : s.condOk a = true) (hst : condStep s a = some s') : s'.CondOk := by
  have hplain : ∀ {w : W}, (s.pc w).outside = true → (s.pc w).calling = false ∧ (s.pc w).locks = false ∧
      (s.pc w).asleep = false ∧ (s.pc w).waits = false ∧ (s.pc w).leaving = false ∧ (s.pc w).owning = false := by
    intro w hout
    cases hpc : s.pc w <;> rw [hpc] at hout
    case idle | returned => exact ⟨rfl, rfl, rfl, rfl, rfl, rfl⟩
    all_goals cases hout
  have hnone : s.number .interrupted = 0 → ∀ x, (s.pc x).interrupted = false := fun hz => by
    have hcount := h.number .interrupted
    rw [hz] at hcount
    exact hcount.none
  cases a with
  | lock w =>
    refine h.call (w := w) (fun hout => ?_) hst
    obtain ⟨hc, hk, ha, hw, hl, -⟩ := hplain hout
    exact h.mutexLock hc rfl rfl hk rfl rfl rfl ⟨ha, rfl, rfl⟩
      (fun hq => absurd (hw.symm.trans hq) Bool.false_ne_true) (fun hq => absurd (hl.symm.trans hq) Bool.false_ne_true)
      fun hq => hq.elim nofun nofun
  | unlock w next =>
    change (if (s.pc w).outside = true ∧ s.owner = some w then s.mutexUnlock next else none) = some s' at hst
    by_cases hout : (s.pc w).outside = true ∧ s.owner = some w
    · rw [if_pos hout] at hst
      exact h.mutexUnlock (h.not_owning hout.2 (hplain hout.1).2.2.2.2.2) hst
    · rw [if_neg hout] at hst
      cases hst
  | wait w k =>
    refine h.call (w := w) (fun hout => ?_) hst
    obtain ⟨hc, hk, ha, hw, hl, -⟩ := hplain hout
    have hm := goto_moved s w (.enter k false)
    exact h.quiet hm rfl rfl rfl (h.mutex.keep hm rfl rfl hk.symm nofun) ha.symm
      (fun hq => absurd (hw.symm.trans hq) Bool.false_ne_true) (fun hq => absurd (hl.symm.trans hq) Bool.false_ne_true)
      hc rfl (by cases k <;> nofun)
  | signal w =>
    exact h.call (w := w) (fun hout => h.begin (.inl rfl) hout (hnone (of_decide_eq_true hok))) hst
  | broadcast w =>
    exact h.call (w := w) (fun hout => h.begin (.inr rfl) hout (hnone (of_decide_eq_true hok))) hst
  | go w ticks next => exact h.step hok hst
  | timeOut w => exact h.timeOut hst
  | deliver w =>
    obtain rfl := Option.some.inj hst
    unfold condOk at hok
    dsimp only at hok
    refine h.deliver (fun hpc => ?_) (fun e hpc => ?_) fun k e hpc => ?_
    all_goals rw [hpc] at hok
    · have hcount := h.number .calling
      rw [of_decide_eq_true hok] at hcount
      exact hcount.none
    · exact of_decide_eq_true hok
    · cases hok

/-- The sections that a thread on its way out has still to run. -/
def distance : CondPc → ℕ
  | .ready _ _ => 4
  | .relock _ _ => 3
  | .relocking _ _ => 2
  | .back _ _ => 1
  | _ => 0

/-- **The way out**: a wait that needs no wake-up any more waits for the mutex, or comes nearer to its return with
each section. -/
theorem wayOut {x : W} (hx : (s.pc x).leaving = true) : x ∈ s.lockers ∨ ∀ ticks next, ∃ s', s.step x ticks next = some s' ∧
    ((s'.pc x).leaving = true ∧ distance (s'.pc x) < distance (s.pc x) ∨ ∃ result, s'.pc x = .returned result) := by
  cases hpc : s.pc x <;> rw [hpc] at hx
  case ready k e =>
    refine .inr fun ticks next => ⟨s.goto x (.relock k e), ?_, .inl ?_⟩
    · unfold CondVar.step
      rw [hpc]
    · rw [(goto_moved s x (.relock k e)).self]
      exact ⟨hx, Nat.lt_succ_self 3⟩
  case relock k e =>
    refine .inr fun ticks next => ⟨s.mutexLock x (.back k e) (.relocking k e), ?_, .inl ?_⟩
    · unfold CondVar.step
      rw [hpc]
    · have hlock : (s.mutexLock x (.back k e) (.relocking k e)).pc x = .back k e ∨
          (s.mutexLock x (.back k e) (.relocking k e)).pc x = .relocking k e := by
        unfold CondVar.mutexLock
        split
        · exact .inl (Function.update_self ..)
        · split_ifs
          · exact .inl (Function.update_self ..)
          · exact .inl (Function.update_self ..)
          · exact .inr (Function.update_self ..)
      rcases hlock with hlock | hlock <;> rw [hlock]
      · exact ⟨hx, Nat.lt_of_succ_lt (Nat.lt_succ_self 2)⟩
      · exact ⟨hx, Nat.lt_succ_self 2⟩
  case relocking k e => exact .inl ((h.mutex.lockers.mem x).mpr (by rw [hpc]; rfl))
  case back k e =>
    refine .inr fun ticks next => ⟨s.back x k e, ?_, .inr ?_⟩
    · unfold CondVar.step
      rw [hpc]
    · cases k <;> cases e
      case forever.eintr => cases hx
      all_goals exact ⟨_, Function.update_self ..⟩
  all_goals cases hx

end CondOk

end CondVar

open CondVar

variable {W : Type} [DecidableEq W]

theorem CondInit.ok {s : CondVar W} (h : CondInit s) : s.CondOk := by
  have hpc : ∀ {q : CondPc → Bool}, q .idle = false → ∀ x, q (s.pc x) = false := fun hq x => by
    rw [h.pc]
    exact hq
  refine ⟨fun q => ?_, ⟨?_, fun hne => absurd h.lockers hne, fun x hx => ?_⟩, ⟨?_, fun hv => ?_, fun c hc => ?_⟩,
    fun c x _ => hpc rfl x, ⟨fun c x hx => ?_, fun c x hx => ?_, fun c hc => ?_, fun c hend => ?_, fun c hend => ?_⟩,
    fun c => ?_, fun e he => ?_⟩
  · rw [h.number]
    exact .zero (hpc (by cases q <;> rfl))
  · rw [h.lockers]
    exact .nil (hpc rfl)
  · rw [h.pc] at hx
    cases hx
  · rw [h.sem]
    exact .nil (hpc rfl)
  · rw [h.sem]
    rfl
  · rw [h.pc] at hc
    cases hc
  · rw [h.record] at hx
    cases hx
  · rw [h.record] at hx
    cases hx
  · rw [h.pc] at hc
    cases hc
  · rw [h.record] at hend
    cases hend
  · rw [h.record] at hend
    cases hend
  · rw [h.pc, h.record]
    exact Nat.zero_le _
  · rw [h.returns] at he
    exact absurd he List.not_mem_nil

/-- What is promised of the condition variable. A wait that found the mutex owned by its caller leaves it so. When a
call of `pthread_cond_signal` has ended, and waits were in progress at its start, one of them has returned or is on
its way out; when a call of `pthread_cond_broadcast` has ended, all of them have or are; it runs at most two sections
for each thread on the list at its start, and four. And a wait on its way out needs the mutex only. -/
structure CondGood (s : CondVar W) : Prop where
  owned : ∀ e ∈ s.returns, e.1 = true → e.2 = true
  signal : ∀ c, (s.record c).ended = some .signal → (∃ x, (s.record c).waiting x = true) →
    (s.record c).served = true ∨ ∃ x, (s.record c).since x = true ∧ (s.pc x).leaving = true
  broadcast : ∀ c, (s.record c).ended = some .broadcast → ∀ x, (s.record c).waiting x = true →
    (s.record c).since x = false ∨ (s.pc x).leaving = true
  bounded : ∀ c, (s.record c).turns ≤ 2 * (s.record c).waiters + 4
  wayOut : ∀ x, (s.pc x).leaving = true → x ∈ s.lockers ∨ ∀ ticks next, ∃ s', s.step x ticks next = some s' ∧
    ((s'.pc x).leaving = true ∧ CondOk.distance (s'.pc x) < CondOk.distance (s.pc x) ∨
      ∃ result, s'.pc x = .returned result)

theorem CondVar.CondOk.good {s : CondVar W} (h : s.CondOk) : CondGood s := by
  refine ⟨h.returns, h.calls.signal, fun c hend x _ => ?_, fun c => ?_, fun x hx => h.wayOut hx⟩
  · cases hs : (s.record c).since x with
    | false => exact .inl rfl
    | true => exact .inr (h.calls.broadcast c hend x hs)
  · have hc := h.steps c
    omega

/-- Some sections of a thread. -/
def runs (w : Fin 3) (k : ℕ) : List (CondLabel (Fin 3)) := List.replicate k (.go w 0 0)

end RtThread
