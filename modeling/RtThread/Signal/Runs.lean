import Mathlib.Data.Fintype.Basic
import RtThread.Lib.Scattered
import RtThread.Signal.Model

/-!
# Runs of thread signals

* `SigThread.InStep`: bit `s` of `sig_pending` is set iff one node of `si_list` has the signal `s`;
* `SigPlace`, `SigState.nodesAt`: the free blocks, the list of a thread, and what a call holds;
* `SigPool`, `SigPool.step`: the pool is scattered over these places;
* `SigSync`, `SigSync.step`: the bits and the lists are in step, and a handler that is about to be called
  is that of an unmasked signal;
* **`signal_pool`**: the first holds in every run; **`signal_invariant`**: both hold in every run in which
  a signal is inserted only while it is not pending, the loop of `rt_thread_handle_sig` takes unmasked
  signals, and no signal is masked between the removal of its node and the call of its handler.
-/

set_option linter.unusedSectionVars false

namespace RtThread

/-! ## Bits -/

section

variable {N : Type} {x m : BitVec 32} {i signo : ℕ} {n : SigInfo N} {l l' : List (SigInfo N)}
  {th : SigThread N}

@[simp] theorem getLsbD_sigMask : (sigMask signo).getLsbD i = decide (signo < 32 ∧ i = signo) := by
  unfold sigMask
  rw [BitVec.getLsbD_shiftLeft, BitVec.getLsbD_one, Bool.eq_iff_iff]
  simp only [Bool.and_eq_true, Bool.not_eq_true', decide_eq_true_eq, decide_eq_false_iff_not]
  omega

theorem and_eq_zero_iff : x &&& m = 0 ↔ ∀ i, x.getLsbD i = true → m.getLsbD i = false := by
  constructor
  · intro h i hx
    have hi : (x &&& m).getLsbD i = false := by
      rw [h]
      exact BitVec.getLsbD_zero
    rw [BitVec.getLsbD_and, hx, Bool.true_and] at hi
    exact hi
  · intro h
    refine BitVec.eq_of_getLsbD_eq fun i _ => ?_
    rw [BitVec.getLsbD_and, show (0 : BitVec 32).getLsbD i = false from BitVec.getLsbD_zero]
    cases hx : x.getLsbD i with
    | false => rfl
    | true => rw [h i hx, Bool.and_false]

theorem and_sigMask_eq_zero (h : signo < 32) : x &&& sigMask signo = 0 ↔ x.getLsbD signo = false := by
  rw [and_eq_zero_iff]
  constructor
  · intro hall
    by_contra hx
    have hm := hall signo (by simpa using hx)
    rw [getLsbD_sigMask, decide_eq_false_iff_not] at hm
    exact hm ⟨h, rfl⟩
  · intro hx i hi
    rw [getLsbD_sigMask]
    refine decide_eq_false fun he => ?_
    rw [he.2, hx] at hi
    cases hi

/-- The signals of the list. -/
def countSignal (signo : ℕ) (l : List (SigInfo N)) : ℕ := l.countP fun n => n.signo = signo

theorem countSignal_perm (h : l.Perm l') : countSignal signo l = countSignal signo l' := h.countP_eq _

theorem countSignal_cons :
    countSignal signo (n :: l) = countSignal signo l + if n.signo = signo then 1 else 0 := by
  unfold countSignal
  rw [List.countP_cons]
  simp

/-- **The bits and the nodes are in step.** -/
def SigThread.InStep (th : SigThread N) : Prop :=
  ∀ signo, countSignal signo th.siList = if th.pending.getLsbD signo then 1 else 0

/-- A node of the list is the only one with its signal, and the bit is set. -/
theorem SigThread.InStep.bit (h : th.InStep) (hl : th.siList.Perm (n :: l)) :
    th.pending.getLsbD n.signo = true ∧ countSignal n.signo l = 0 := by
  have hcount := h n.signo
  rw [countSignal_perm hl, countSignal_cons, if_pos rfl] at hcount
  by_cases hbit : th.pending.getLsbD n.signo = true
  · rw [if_pos hbit] at hcount
    exact ⟨hbit, by omega⟩
  · rw [if_neg hbit] at hcount
    omega

/-- **A node is taken and its bit cleared.** -/
theorem SigThread.InStep.take (h : th.InStep) (hl : th.siList.Perm (n :: l)) :
    ({ th with siList := l, pending := th.pending &&& ~~~sigMask n.signo } : SigThread N).InStep := by
  obtain ⟨hbit, hzero⟩ := h.bit hl
  have hlt : n.signo < 32 := BitVec.lt_of_getLsbD hbit
  intro signo
  have hcount := h signo
  rw [countSignal_perm hl, countSignal_cons] at hcount
  dsimp only
  rw [BitVec.getLsbD_and, BitVec.getLsbD_not, getLsbD_sigMask]
  by_cases he : n.signo = signo
  · subst he
    simp [hlt, hzero]
  · rw [if_neg he, Nat.add_zero] at hcount
    rw [hcount]
    by_cases hs : signo < 32
    · simp [hs, Ne.symm he]
    · have hge : th.pending.getLsbD signo = false := BitVec.getLsbD_of_ge _ _ (by omega)
      simp [hge]

/-- **A node is appended and its bit set**, when the bit was clear. -/
theorem SigThread.InStep.insert (h : th.InStep) (hlt : n.signo < 32)
    (hbit : th.pending.getLsbD n.signo = false) :
    ({ th with siList := th.siList ++ [n], pending := th.pending ||| sigMask n.signo } :
      SigThread N).InStep := by
  intro signo
  have hcount := h signo
  dsimp only
  rw [countSignal_perm (List.perm_append_singleton n th.siList), countSignal_cons, hcount,
    BitVec.getLsbD_or, getLsbD_sigMask]
  by_cases he : n.signo = signo
  · subst he
    rw [hbit]
    simp [hlt]
  · simp [he, Ne.symm he]

theorem takeSignal_perm {set : BitVec 32} (h : takeSignal set l = some (n, l')) : l.Perm (n :: l') := by
  induction l generalizing l' with
  | nil => cases h
  | cons a l ih =>
    rw [takeSignal] at h
    by_cases ha : sigMask a.signo &&& set ≠ 0
    · rw [if_pos ha] at h
      cases h
      exact .refl _
    · rw [if_neg ha] at h
      obtain ⟨⟨b, rest⟩, hr, he⟩ := Option.map_eq_some_iff.mp h
      cases he
      exact ((ih hr).cons a).trans (.swap _ _ _)

end

/-! ## The invariant -/

/-- The node that a call holds. -/
def SigPhase.held {T N : Type} : SigPhase T N → List N
  | .insert _ _ _ _ n => [n]
  | .call _ _ n _ => [n.node]
  | .called _ _ n => [n.node]
  | _ => []

/-- The signal that a call sends has a bit. -/
def SigPhase.Valid {T N : Type} : SigPhase T N → Prop
  | .alloc _ _ _ sig => sig < 32
  | .insert _ _ _ sig _ => sig < 32
  | _ => True

/-- The call is about to call the handler of a signal. -/
def SigPhase.calling {T N : Type} [DecidableEq T] (t : T) (signo : ℕ) : SigPhase T N → Bool
  | .call t' _ n handler => decide (t' = t) && decide (n.signo = signo) && handler
  | _ => false

/-- Where a node of the pool is. -/
inductive SigPlace (T C : Type) where
  | free
  | list (t : T)
  | call (c : C)

namespace SigState

variable {T C N : Type} [DecidableEq T] [DecidableEq C] {s s' : SigState T C N} {t t' self : T}
  {c c' : C} {th : SigThread N} {ph : SigPhase T N} {n : SigInfo N} {pool free : List N}
  {isr clean handler : Bool} {sig signo : ℕ} {set : BitVec 32}

variable (s) in
/-- The nodes at a place. -/
def nodesAt : SigPlace T C → List N
  | .free => s.free
  | .list t => (s.thread t).siList.map SigInfo.node
  | .call c => (s.calls c).held

@[simp] theorem setThread_calls : (s.setThread t th).calls = s.calls := rfl

@[simp] theorem setThread_self : (s.setThread t th).thread t = th := Function.update_self _ _ _

theorem setThread_of_ne (h : t' ≠ t) : (s.setThread t th).thread t' = s.thread t' :=
  Function.update_of_ne h _ _

@[simp] theorem setCall_thread : (s.setCall c ph).thread = s.thread := rfl

@[simp] theorem setCall_self : (s.setCall c ph).calls c = ph := Function.update_self _ _ _

theorem setCall_of_ne (h : c' ≠ c) : (s.setCall c ph).calls c' = s.calls c' :=
  Function.update_of_ne h _ _

@[simp] theorem nodesAt_free : s.nodesAt .free = s.free := rfl

@[simp] theorem nodesAt_list : s.nodesAt (.list t) = (s.thread t).siList.map SigInfo.node := rfl

@[simp] theorem nodesAt_call : s.nodesAt (.call c) = (s.calls c).held := rfl

/-! ## The pool -/

/-- **Every node of the pool is at one place.** -/
structure SigPool (pool : List N) (s : SigState T C N) : Prop where
  nodes : Scattered (fun n => n ∈ pool) s.nodesAt
  valid : ∀ c, (s.calls c).Valid

theorem SigPool.setThread (h : SigPool pool s) (hl : th.siList = (s.thread t).siList) :
    SigPool pool (s.setThread t th) := by
  refine ⟨?_, h.valid⟩
  have he : (s.setThread t th).nodesAt = s.nodesAt := by
    funext p
    cases p with
    | free => rfl
    | call c => rfl
    | list t' =>
      by_cases ht : t' = t
      · rw [ht, nodesAt_list, nodesAt_list, setThread_self, hl]
      · rw [nodesAt_list, nodesAt_list, setThread_of_ne ht]
  exact he ▸ h.nodes

theorem valid_setCall (h : ∀ c, (s.calls c).Valid) (hv : ph.Valid) (c' : C) :
    ((s.setCall c ph).calls c').Valid := by
  by_cases hc : c' = c
  · rw [hc, setCall_self]
    exact hv
  · rw [setCall_of_ne hc]
    exact h c'

theorem SigPool.setCall (h : SigPool pool s) (hh : ph.held = (s.calls c).held) (hv : ph.Valid) :
    SigPool pool (s.setCall c ph) := by
  refine ⟨?_, valid_setCall h.valid hv⟩
  have he : (s.setCall c ph).nodesAt = s.nodesAt := by
    funext p
    cases p with
    | free => rfl
    | list t => rfl
    | call c' =>
      by_cases hc : c' = c
      · rw [hc, nodesAt_call, nodesAt_call, setCall_self, hh]
      · rw [nodesAt_call, nodesAt_call, setCall_of_ne hc]
  exact he ▸ h.nodes

/-- A call without a node goes on without one. -/
theorem SigPool.goOn (h : SigPool pool s) (hc : (s.calls c).held = []) (hh : ph.held = [])
    (hv : ph.Valid) : SigPool pool (s.setCall c ph) :=
  h.setCall (hh.trans hc.symm) hv

theorem SigPool.update (h : SigPool pool s) (hl : th.siList = (s.thread t).siList)
    (hc : (s.calls c).held = []) (hh : ph.held = []) (hv : ph.Valid) :
    SigPool pool ((s.setThread t th).setCall c ph) :=
  (h.setThread hl).goOn hc hh hv

/-- A call takes a free node. -/
theorem SigPool.alloc {x : N} (h : SigPool pool s) (hf : s.free = x :: free)
    (hc : (s.calls c).held = []) (hh : ph.held = [x]) (hv : ph.Valid) :
    SigPool pool (({ s with free := free } : SigState T C N).setCall c ph) := by
  refine ⟨h.nodes.move (p := .free) (q := .call c) (a := x) nofun ?_ ?_ fun p hp hq => ?_,
    valid_setCall h.valid hv⟩
  · rw [nodesAt_free, hf]
    exact .refl _
  · rw [nodesAt_call, nodesAt_call, setCall_self, hc, hh]
  · cases p with
    | free => exact absurd rfl hp
    | list t => rfl
    | call c' => exact congrArg SigPhase.held (setCall_of_ne fun he => hq (he ▸ rfl))

/-- A call gives its node back. -/
theorem SigPool.release {x : N} (h : SigPool pool s) (hc : (s.calls c).held = [x]) (hh : ph.held = [])
    (hv : ph.Valid) :
    SigPool pool (({ s with free := x :: s.free } : SigState T C N).setCall c ph) := by
  refine ⟨h.nodes.move (p := .call c) (q := .free) (a := x) nofun ?_ ?_ fun p hp hq => ?_,
    valid_setCall h.valid hv⟩
  · rw [nodesAt_call, nodesAt_call, setCall_self, hc, hh]
  · exact .refl _
  · cases p with
    | free => exact absurd rfl hq
    | list t => rfl
    | call c' => exact congrArg SigPhase.held (setCall_of_ne fun he => hp (he ▸ rfl))

/-- A call appends its node to a list. -/
theorem SigPool.append (h : SigPool pool s) (hl : th.siList.Perm (n :: (s.thread t).siList))
    (hc : (s.calls c).held = [n.node]) (hh : ph.held = []) (hv : ph.Valid) :
    SigPool pool ((s.setThread t th).setCall c ph) := by
  refine ⟨h.nodes.move (p := .call c) (q := .list t) (a := n.node) nofun ?_ ?_ fun p hp hq => ?_,
    valid_setCall h.valid hv⟩
  · rw [nodesAt_call, nodesAt_call, setCall_self, hc, hh]
  · rw [nodesAt_list, nodesAt_list, setCall_thread, setThread_self]
    exact hl.map _
  · cases p with
    | free => rfl
    | list t' =>
      rw [nodesAt_list, nodesAt_list, setCall_thread, setThread_of_ne fun he => hq (congrArg _ he)]
    | call c' => exact congrArg SigPhase.held (setCall_of_ne fun he => hp (he ▸ rfl))

/-- A call takes a node from a list. -/
theorem SigPool.take (h : SigPool pool s) (hl : (s.thread t).siList.Perm (n :: th.siList))
    (hc : (s.calls c).held = []) (hh : ph.held = [n.node]) (hv : ph.Valid) :
    SigPool pool ((s.setThread t th).setCall c ph) := by
  refine ⟨h.nodes.move (p := .list t) (q := .call c) (a := n.node) nofun ?_ ?_ fun p hp hq => ?_,
    valid_setCall h.valid hv⟩
  · rw [nodesAt_list, nodesAt_list, setCall_thread, setThread_self]
    exact hl.map _
  · rw [nodesAt_call, nodesAt_call, setCall_self, hc, hh]
  · cases p with
    | free => rfl
    | list t' =>
      rw [nodesAt_list, nodesAt_list, setCall_thread, setThread_of_ne fun he => hp (congrArg _ he)]
    | call c' => exact congrArg SigPhase.held (setCall_of_ne fun he => hq (he ▸ rfl))

/-- A node goes from a list to the free nodes. -/
theorem SigPool.giveBack (h : SigPool pool s) (hl : (s.thread t).siList.Perm (n :: th.siList)) :
    SigPool pool (({ s with free := n.node :: s.free } : SigState T C N).setThread t th) := by
  refine ⟨h.nodes.move (p := .list t) (q := .free) (a := n.node) nofun ?_ (.refl _) fun p hp hq => ?_,
    h.valid⟩
  · rw [nodesAt_list, nodesAt_list, setThread_self]
    exact hl.map _
  · cases p with
    | free => exact absurd rfl hq
    | list t' => rw [nodesAt_list, nodesAt_list, setThread_of_ne fun he => hp (congrArg _ he)]
    | call c' => rfl

theorem SigPool.handleEnd (h : SigPool pool s) (hc : (s.calls c).held = []) :
    SigPool pool (s.handleEnd c t) :=
  h.update rfl hc rfl trivial

theorem SigPool.handleLoop (h : SigPool pool s) (hc : (s.calls c).held = [])
    (hst : s.handleLoop c t clean = some s') : SigPool pool s' := by
  unfold SigState.handleLoop at hst
  dsimp only at hst
  by_cases hp : (s.thread t).pending &&& (s.thread t).mask ≠ 0
  · rw [if_pos hp] at hst
    cases hl : (s.thread t).siList with
    | nil =>
      rw [hl] at hst
      cases hst
      exact h.handleEnd hc
    | cons n rest =>
      cases hv : (s.thread t).vectors with
      | none =>
        rw [hl, hv] at hst
        cases hst
      | some vectors =>
        rw [hl, hv] at hst
        cases hst
        exact h.take (n := n) (hl ▸ .refl _) hc rfl trivial
  · rw [if_neg hp] at hst
    cases hst
    exact h.handleEnd hc

theorem SigPool.waitDone (h : SigPool pool s) (hc : (s.calls c).held = []) :
    SigPool pool (s.waitDone c t set) := by
  unfold SigState.waitDone
  dsimp only
  cases htake : takeSignal set (s.thread t).siList with
  | none => exact h.goOn hc rfl trivial
  | some r =>
    obtain ⟨n, rest⟩ := r
    exact SigPool.goOn (h.giveBack (n := n) (takeSignal_perm htake)) hc rfl trivial

theorem SigPool.deliver (h : SigPool pool s) (hc : (s.calls c).held = []) :
    SigPool pool (s.deliver c self isr t) := by
  unfold SigState.deliver
  dsimp only
  by_cases hp : (s.thread t).pending &&& (s.thread t).mask = 0
  · rw [if_pos hp]
    exact h.goOn hc rfl trivial
  rw [if_neg hp]
  by_cases hs : (s.thread t).suspended = true
  · rw [if_pos hs]
    exact h.update rfl hc rfl trivial
  rw [if_neg hs]
  by_cases hself : t = self
  · rw [if_pos hself]
    cases isr with
    | false => exact h.update rfl hc rfl trivial
    | true => exact h.update rfl hc rfl trivial
  rw [if_neg hself]
  by_cases hsig : (s.thread t).signal = true
  · rw [if_pos hsig]
    exact h.goOn hc rfl trivial
  · rw [if_neg hsig]
    exact h.update rfl hc rfl trivial

/-- **A section of a call keeps the pool.** -/
theorem SigPool.next (h : SigPool pool s) (hst : s.next c = some s') : SigPool pool s' := by
  have hvalid := h.valid c
  unfold SigState.next at hst
  cases hph : s.calls c with
  | idle =>
    rw [hph] at hst
    cases hst
  | alloc self isr t sig =>
    rw [hph] at hst hvalid
    cases hf : s.free with
    | nil =>
      simp only [hf] at hst
      cases hst
      exact h.setCall (by simp [hph, SigPhase.held]) trivial
    | cons x free =>
      simp only [hf] at hst
      cases hst
      exact h.alloc hf (by simp [hph, SigPhase.held]) rfl hvalid
  | insert self isr t sig x =>
    rw [hph] at hst
    cases hst
    exact h.append (n := ⟨x, sig⟩) (List.perm_append_singleton _ _) (by simp [hph, SigPhase.held]) rfl trivial
  | deliver self isr t =>
    rw [hph] at hst
    cases hst
    exact h.deliver (by simp [hph, SigPhase.held])
  | handle t clean =>
    simp only [hph] at hst
    have hc : (s.calls c).held = [] := by simp [hph, SigPhase.held]
    by_cases hp : (s.thread t).pending &&& (s.thread t).mask ≠ 0 ∧ (s.thread t).signalWait = false
    · rw [if_pos hp] at hst
      exact h.handleLoop hc hst
    · rw [if_neg hp] at hst
      cases clean with
      | true =>
        cases hst
        exact h.goOn hc rfl trivial
      | false =>
        cases hst
        exact h.handleEnd hc
  | call t clean n handler =>
    rw [hph] at hst
    cases hst
    exact h.setCall (by simp [hph, SigPhase.held]) trivial
  | called t clean n =>
    simp only [hph] at hst
    have hfree : SigPool pool (({ s with free := n.node :: s.free } : SigState T C N).setCall c
        (.handle t clean)) := h.release (by simp [hph, SigPhase.held]) rfl trivial
    refine SigPool.handleLoop ?_ ?_ hst
    · exact hfree.setThread rfl
    · rw [setThread_calls, setCall_self]
      rfl
  | wait t set =>
    simp only [hph] at hst
    have hc : (s.calls c).held = [] := by simp [hph, SigPhase.held]
    by_cases hs : (s.thread t).suspended = true
    · rw [if_pos hs] at hst
      cases hst
    rw [if_neg hs] at hst
    by_cases he : (s.thread t).error = .etimeout
    · rw [if_pos he] at hst
      cases hst
      exact h.update rfl hc rfl trivial
    · rw [if_neg he] at hst
      cases hst
      refine SigPool.waitDone ?_ hc
      exact h.setThread rfl

theorem held_of_isIdle (h : s.isIdle c = true) : (s.calls c).held = [] := by
  unfold isIdle at h
  cases hph : s.calls c with
  | idle => rfl
  | _ =>
    rw [hph] at h
    cases h

variable (s) in
/-- `rt_thread_handle_sig` may take the first node: its signal is unmasked, or has no handler. -/
def headOk (t : T) : Bool :=
  let th := s.thread t
  decide (th.pending &&& th.mask = 0) ||
    th.siList.head?.all fun n => th.mask.getLsbD n.signo || !(th.vectors.any fun v => v n.signo)

/-- A signal is inserted while it is not pending, the loop of `rt_thread_handle_sig` takes signals that
are unmasked or ignored, and no signal is masked whose handler is about to be called. -/
def sigOk [Fintype C] (s : SigState T C N) : SigLabel T C → Bool
  | .next c =>
    match s.calls c with
    | .insert _ _ t sig _ => decide ((s.thread t).pending &&& sigMask sig = 0)
    | .handle t _ => (s.thread t).signalWait || s.headOk t
    | .called t _ _ => s.headOk t
    | _ => true
  | .mask t signo => decide (∀ c, (s.calls c).calling t signo = false)
  | _ => true

/-- **Every step keeps the pool.** -/
theorem SigPool.step {a : SigLabel T C} (h : SigPool pool s) (hst : s.step a = some s') :
    SigPool pool s' := by
  cases a with
  | kill c self isr t sig =>
    rw [SigState.step] at hst
    by_cases hc : s.isIdle c = true
    · rw [if_pos hc] at hst
      cases hst
      unfold SigState.kill
      dsimp only
      by_cases hv : 0 ≤ sig ∧ sig < sigMax
      · rw [if_pos hv]
        by_cases hdup : (s.thread t).pending &&& sigMask sig.toNat ≠ 0 ∧
            ((s.thread t).siList.any fun n => n.signo = sig.toNat) = true
        · rw [if_pos hdup]
          exact h
        · rw [if_neg hdup]
          refine h.goOn (held_of_isIdle hc) rfl ?_
          show sig.toNat < 32
          unfold sigMax at hv
          omega
      · rw [if_neg hv]
        exact h
    · rw [if_neg hc] at hst
      cases hst
  | mask t signo =>
    rw [SigState.step] at hst
    by_cases hlt : signo < sigMax
    · rw [if_pos hlt] at hst
      cases hst
      exact h.setThread rfl
    · rw [if_neg hlt] at hst
      cases hst
  | unmask c self isr signo =>
    rw [SigState.step] at hst
    by_cases hc : s.isIdle c = true ∧ signo < sigMax
    · rw [if_pos hc] at hst
      cases hst
      unfold SigState.unmask
      dsimp only
      by_cases hp : ((s.thread self).mask ||| sigMask signo) &&& (s.thread self).pending ≠ 0
      · rw [if_pos hp]
        exact h.update rfl (held_of_isIdle hc.1) rfl trivial
      · rw [if_neg hp]
        exact h.update rfl (held_of_isIdle hc.1) rfl trivial
    · rw [if_neg hc] at hst
      cases hst
  | wait c t set timeout =>
    rw [SigState.step] at hst
    by_cases hc : s.isIdle c = true
    · rw [if_pos hc] at hst
      cases hst
      unfold SigState.wait
      dsimp only
      by_cases hset : set = 0
      · rw [if_pos hset]
        exact h
      rw [if_neg hset]
      by_cases hp : (s.thread t).pending &&& set ≠ 0
      · rw [if_pos hp]
        exact h.waitDone (held_of_isIdle hc)
      rw [if_neg hp]
      by_cases htime : timeout = 0
      · rw [if_pos htime]
        exact h
      · rw [if_neg htime]
        exact h.update rfl (held_of_isIdle hc) rfl trivial
    · rw [if_neg hc] at hst
      cases hst
  | handleSig c t clean =>
    rw [SigState.step] at hst
    by_cases hc : s.isIdle c = true
    · rw [if_pos hc] at hst
      cases hst
      exact h.update rfl (held_of_isIdle hc) rfl trivial
    · rw [if_neg hc] at hst
      cases hst
  | next c => exact h.next hst
  | install t signo handler =>
    cases hst
    unfold SigState.install
    dsimp only
    by_cases hv : 0 ≤ signo ∧ signo < sigMax
    · rw [if_pos hv]
      exact h.setThread rfl
    · rw [if_neg hv]
      exact h
  | block t =>
    cases hst
    exact h.setThread rfl
  | wake t expired =>
    cases hst
    exact h.setThread rfl

/-! ## Bits and handlers -/

/-- **The bits and the lists are in step, and the handlers about to be called are those of unmasked
signals.** -/
structure SigSync (s : SigState T C N) : Prop where
  inStep : ∀ t, (s.thread t).InStep
  unmasked : ∀ c t clean n, s.calls c = .call t clean n true → (s.thread t).mask.getLsbD n.signo = true

theorem SigSync.setThread (h : SigSync s) (hi : th.InStep)
    (hm : ∀ i, (s.thread t).mask.getLsbD i = true → th.mask.getLsbD i = true) :
    SigSync (s.setThread t th) := by
  refine ⟨fun t' => ?_, fun c t' clean n hc => ?_⟩
  · by_cases ht : t' = t
    · rw [ht, setThread_self]
      exact hi
    · rw [setThread_of_ne ht]
      exact h.inStep t'
  · have hold := h.unmasked c t' clean n hc
    by_cases ht : t' = t
    · rw [ht, setThread_self]
      exact hm _ (ht ▸ hold)
    · rw [setThread_of_ne ht]
      exact hold

theorem SigSync.setCall (h : SigSync s)
    (hc : ∀ t clean n, ph = .call t clean n true → (s.thread t).mask.getLsbD n.signo = true) :
    SigSync (s.setCall c ph) := by
  refine ⟨h.inStep, fun c' t clean n hc' => ?_⟩
  by_cases he : c' = c
  · rw [he, setCall_self] at hc'
    exact hc t clean n hc'
  · rw [setCall_of_ne he] at hc'
    exact h.unmasked c' t clean n hc'

theorem SigSync.update (h : SigSync s) (hi : th.InStep) (hm : th.mask = (s.thread t).mask)
    (hc : ∀ t clean n, ph ≠ .call t clean n true) : SigSync ((s.setThread t th).setCall c ph) :=
  (h.setThread hi fun _ hbit => hm ▸ hbit).setCall fun t clean n he => absurd he (hc t clean n)

theorem SigSync.goOn (h : SigSync s) (hc : ∀ t clean n, ph ≠ .call t clean n true) :
    SigSync (s.setCall c ph) :=
  h.setCall fun t clean n he => absurd he (hc t clean n)

theorem SigSync.handleEnd (h : SigSync s) : SigSync (s.handleEnd c t) :=
  h.update (h.inStep t) rfl nofun

theorem SigSync.handleLoop (h : SigSync s) (hok : s.headOk t = true)
    (hst : s.handleLoop c t clean = some s') : SigSync s' := by
  unfold SigState.handleLoop at hst
  unfold headOk at hok
  dsimp only at hst hok
  by_cases hp : (s.thread t).pending &&& (s.thread t).mask ≠ 0
  · rw [if_pos hp] at hst
    rw [decide_eq_false hp, Bool.false_or] at hok
    cases hl : (s.thread t).siList with
    | nil =>
      rw [hl] at hst
      cases hst
      exact h.handleEnd
    | cons n rest =>
      cases hv : (s.thread t).vectors with
      | none =>
        rw [hl, hv] at hst
        cases hst
      | some vectors =>
        rw [hl, hv] at hst
        cases hst
        have hhead : (s.thread t).mask.getLsbD n.signo = true ∨ vectors n.signo = false := by
          rw [hl, hv] at hok
          simpa using hok
        have htake := (h.inStep t).take (n := n) (l := rest) (hl ▸ .refl _)
        rw [hv] at htake
        refine SigSync.setCall (SigSync.setThread h htake fun _ hbit => hbit) fun t' clean' n' he => ?_
        obtain ⟨rfl, rfl, rfl, hhandler⟩ := (SigPhase.call.injEq ..).mp he
        rw [setThread_self]
        exact hhead.resolve_right (by rw [hhandler]; nofun)
  · rw [if_neg hp] at hst
    cases hst
    exact h.handleEnd

theorem SigSync.waitDone (h : SigSync s) : SigSync (s.waitDone c t set) := by
  unfold SigState.waitDone
  dsimp only
  cases htake : takeSignal set (s.thread t).siList with
  | none => exact h.goOn nofun
  | some r =>
    obtain ⟨n, rest⟩ := r
    have hfree : SigSync ({ s with free := n.node :: s.free } : SigState T C N) := ⟨h.inStep, h.unmasked⟩
    exact SigSync.update hfree ((h.inStep t).take (takeSignal_perm htake)) rfl nofun

theorem SigSync.deliver (h : SigSync s) : SigSync (s.deliver c self isr t) := by
  unfold SigState.deliver
  dsimp only
  by_cases hp : (s.thread t).pending &&& (s.thread t).mask = 0
  · rw [if_pos hp]
    exact h.goOn nofun
  rw [if_neg hp]
  by_cases hs : (s.thread t).suspended = true
  · rw [if_pos hs]
    exact h.update (h.inStep t) rfl nofun
  rw [if_neg hs]
  by_cases hself : t = self
  · rw [if_pos hself]
    cases isr with
    | false => exact h.update (h.inStep t) rfl nofun
    | true => exact h.update (h.inStep t) rfl nofun
  rw [if_neg hself]
  by_cases hsig : (s.thread t).signal = true
  · rw [if_pos hsig]
    exact h.goOn nofun
  · rw [if_neg hsig]
    exact h.update (h.inStep t) rfl nofun

/-- **A section of a call keeps the bits and the handlers.** -/
theorem SigSync.next [Fintype C] (h : SigSync s) (hvalid : (s.calls c).Valid)
    (hok : s.sigOk (.next c) = true) (hst : s.next c = some s') : SigSync s' := by
  unfold SigState.next at hst
  unfold sigOk at hok
  cases hph : s.calls c with
  | idle =>
    rw [hph] at hst
    cases hst
  | alloc self isr t sig =>
    rw [hph] at hst
    cases hf : s.free with
    | nil =>
      simp only [hf] at hst
      cases hst
      exact h.goOn nofun
    | cons x free =>
      simp only [hf] at hst
      cases hst
      have hfree : SigSync ({ s with free := free } : SigState T C N) := ⟨h.inStep, h.unmasked⟩
      exact hfree.goOn nofun
  | insert self isr t sig x =>
    rw [hph] at hst hvalid
    simp only [hph] at hok
    cases hst
    have hbit := (and_sigMask_eq_zero hvalid).mp (of_decide_eq_true hok)
    exact h.update ((h.inStep t).insert (n := ⟨x, sig⟩) hvalid hbit) rfl nofun
  | deliver self isr t =>
    rw [hph] at hst
    cases hst
    exact h.deliver
  | handle t clean =>
    simp only [hph] at hst hok
    by_cases hp : (s.thread t).pending &&& (s.thread t).mask ≠ 0 ∧ (s.thread t).signalWait = false
    · rw [if_pos hp] at hst
      rw [hp.2, Bool.false_or] at hok
      exact h.handleLoop hok hst
    · rw [if_neg hp] at hst
      cases clean with
      | true =>
        cases hst
        exact h.goOn nofun
      | false =>
        cases hst
        exact h.handleEnd
  | call t clean n handler =>
    rw [hph] at hst
    cases hst
    exact h.goOn nofun
  | called t clean n =>
    simp only [hph] at hst hok
    refine SigSync.handleLoop ?_ ?_ hst
    · have hfree : SigSync ({ s with free := n.node :: s.free } : SigState T C N) :=
        ⟨h.inStep, h.unmasked⟩
      exact SigSync.setThread (SigSync.goOn hfree nofun) (h.inStep t) fun _ hbit => hbit
    · unfold headOk at hok ⊢
      rw [setThread_self]
      exact hok
  | wait t set =>
    simp only [hph] at hst
    by_cases hs : (s.thread t).suspended = true
    · rw [if_pos hs] at hst
      cases hst
    rw [if_neg hs] at hst
    by_cases he : (s.thread t).error = .etimeout
    · rw [if_pos he] at hst
      cases hst
      exact h.update (h.inStep t) rfl nofun
    · rw [if_neg he] at hst
      cases hst
      refine SigSync.waitDone ?_
      exact h.setThread (h.inStep t) fun _ hbit => hbit

/-- A signal is masked whose handler is not about to be called. -/
theorem SigSync.mask (h : SigSync s) (hok : ∀ c, (s.calls c).calling t signo = false) :
    SigSync (s.mask t signo) := by
  refine ⟨fun t' => ?_, fun c t' clean n hc => ?_⟩
  · unfold SigState.mask
    by_cases ht : t' = t
    · rw [ht, setThread_self]
      exact h.inStep t
    · rw [setThread_of_ne ht]
      exact h.inStep t'
  · have hold := h.unmasked c t' clean n hc
    have hnot := hok c
    unfold SigState.mask
    by_cases ht : t' = t
    · subst ht
      rw [show s.calls c = .call t' clean n true from hc] at hnot
      have hne : n.signo ≠ signo := by simpa [SigPhase.calling] using hnot
      have hlt : n.signo < 32 := BitVec.lt_of_getLsbD hold
      rw [setThread_self, BitVec.getLsbD_and, BitVec.getLsbD_not, getLsbD_sigMask, hold]
      simp [hlt, hne]
    · rw [setThread_of_ne ht]
      exact hold

/-- **Every step under the condition keeps the bits and the handlers.** -/
theorem SigSync.step [Fintype C] {a : SigLabel T C} (h : SigSync s) (hpool : SigPool pool s)
    (hok : s.sigOk a = true) (hst : s.step a = some s') : SigSync s' := by
  cases a with
  | kill c self isr t sig =>
    rw [SigState.step] at hst
    by_cases hc : s.isIdle c = true
    · rw [if_pos hc] at hst
      cases hst
      unfold SigState.kill
      dsimp only
      by_cases hv : 0 ≤ sig ∧ sig < sigMax
      · rw [if_pos hv]
        by_cases hdup : (s.thread t).pending &&& sigMask sig.toNat ≠ 0 ∧
            ((s.thread t).siList.any fun n => n.signo = sig.toNat) = true
        · rw [if_pos hdup]
          exact h
        · rw [if_neg hdup]
          exact h.goOn nofun
      · rw [if_neg hv]
        exact h
    · rw [if_neg hc] at hst
      cases hst
  | mask t signo =>
    rw [SigState.step] at hst
    by_cases hlt : signo < sigMax
    · rw [if_pos hlt] at hst
      cases hst
      exact h.mask (of_decide_eq_true hok)
    · rw [if_neg hlt] at hst
      cases hst
  | unmask c self isr signo =>
    rw [SigState.step] at hst
    by_cases hc : s.isIdle c = true ∧ signo < sigMax
    · rw [if_pos hc] at hst
      cases hst
      unfold SigState.unmask
      dsimp only
      refine SigSync.goOn (SigSync.setThread h (h.inStep self) fun i hbit => ?_) ?_
      · rw [BitVec.getLsbD_or, hbit, Bool.true_or]
      · by_cases hp : ((s.thread self).mask ||| sigMask signo) &&& (s.thread self).pending ≠ 0
        · rw [if_pos hp]
          exact nofun
        · rw [if_neg hp]
          exact nofun
    · rw [if_neg hc] at hst
      cases hst
  | wait c t set timeout =>
    rw [SigState.step] at hst
    by_cases hc : s.isIdle c = true
    · rw [if_pos hc] at hst
      cases hst
      unfold SigState.wait
      dsimp only
      by_cases hset : set = 0
      · rw [if_pos hset]
        exact h
      rw [if_neg hset]
      by_cases hp : (s.thread t).pending &&& set ≠ 0
      · rw [if_pos hp]
        exact h.waitDone
      rw [if_neg hp]
      by_cases htime : timeout = 0
      · rw [if_pos htime]
        exact h
      · rw [if_neg htime]
        exact h.update (h.inStep t) rfl nofun
    · rw [if_neg hc] at hst
      cases hst
  | handleSig c t clean =>
    rw [SigState.step] at hst
    by_cases hc : s.isIdle c = true
    · rw [if_pos hc] at hst
      cases hst
      exact h.update (h.inStep t) rfl nofun
    · rw [if_neg hc] at hst
      cases hst
  | next c => exact h.next (hpool.valid c) hok hst
  | install t signo handler =>
    cases hst
    unfold SigState.install
    dsimp only
    by_cases hv : 0 ≤ signo ∧ signo < sigMax
    · rw [if_pos hv]
      exact h.setThread (h.inStep t) fun _ hbit => hbit
    · rw [if_neg hv]
      exact h
  | block t =>
    cases hst
    exact h.setThread (h.inStep t) fun _ hbit => hbit
  | wake t expired =>
    cases hst
    exact h.setThread (h.inStep t) fun _ hbit => hbit

/-! ## Runs -/

theorem init_pool (h : (signalSystem T C pool).init s) : SigPool pool s := by
  obtain ⟨hnd, hfree, hcalls, hthreads⟩ := h
  have hlist : ∀ t, s.nodesAt (.list t) = [] := fun t => by rw [nodesAt_list, (hthreads t).1, List.map_nil]
  have hcall : ∀ c, s.nodesAt (.call c) = [] := fun c => by rw [nodesAt_call, hcalls c]; rfl
  have hmem : ∀ {p x}, x ∈ s.nodesAt p → p = .free ∧ x ∈ pool := by
    intro p x hx
    cases p with
    | free => exact ⟨rfl, hfree ▸ hx⟩
    | list t =>
      rw [hlist] at hx
      cases hx
    | call c =>
      rw [hcall] at hx
      cases hx
  refine ⟨⟨fun p => ?_, fun hp hq => (hmem hp).1.trans (hmem hq).1.symm, fun x => ?_⟩, fun c => ?_⟩
  · cases p with
    | free =>
      rw [nodesAt_free, hfree]
      exact hnd
    | list t =>
      rw [hlist]
      exact List.nodup_nil
    | call c =>
      rw [hcall]
      exact List.nodup_nil
  · constructor
    · intro hx
      refine ⟨.free, ?_⟩
      rw [nodesAt_free, hfree]
      exact hx
    · rintro ⟨p, hx⟩
      exact (hmem hx).2
  · rw [hcalls c]
    trivial

theorem init_sync (h : (signalSystem T C pool).init s) : SigSync s := by
  obtain ⟨-, -, hcalls, hthreads⟩ := h
  refine ⟨fun t signo => ?_, fun c t clean n hc => ?_⟩
  · rw [(hthreads t).1, (hthreads t).2]
    simp [countSignal]
  · rw [hcalls c] at hc
    cases hc

/-- **The pool in every run**: each node is free, in the list of one thread, or held by one call. -/
theorem signal_pool (hs : (signalSystem T C pool).Reach System.anyStep s) : SigPool pool s :=
  hs.invariant (I := SigPool pool) (fun _ h => init_pool h) fun _ _ _ h _ hst => h.step hst

/-- **Thread signals**: in every run under the condition, bit `signo` of `sig_pending` is set iff the list
holds one node with it, and otherwise the list holds none; every node of the pool is at one place; and a
handler that is about to be called is that of an unmasked signal. -/
theorem signal_invariant [Fintype C] (hs : (signalSystem T C pool).Reach sigOk s) :
    (∀ t signo, (s.thread t).pending.getLsbD signo = true ↔ countSignal signo (s.thread t).siList = 1) ∧
      (∀ t signo, (s.thread t).pending.getLsbD signo = false →
        countSignal signo (s.thread t).siList = 0) ∧
      Scattered (fun n => n ∈ pool) s.nodesAt ∧
      ∀ c t clean n, s.calls c = .call t clean n true → (s.thread t).mask.getLsbD n.signo = true := by
  have hpool : SigPool pool s := signal_pool (hs.mono fun _ _ _ => rfl)
  have hsync : SigSync s := by
    refine (hs.invariant (I := fun s => SigPool pool s ∧ SigSync s)
      (fun _ h => ⟨init_pool h, init_sync h⟩) fun _ _ _ h hok hst => ?_).2
    exact ⟨h.1.step hst, h.2.step h.1 hok hst⟩
  refine ⟨fun t signo => ?_, fun t signo hbit => ?_, hpool.nodes, hsync.unmasked⟩
  · rw [hsync.inStep t signo]
    cases (s.thread t).pending.getLsbD signo <;> simp
  · rw [hsync.inStep t signo, hbit]
    rfl

/-- No signals, and the blocks 0 and 1. -/
def noSignals : SigState ℕ (Fin 2) ℕ :=
  ⟨fun _ => ⟨0, 0, [], some fun _ => true, false, false, false, false, .eok⟩, [0, 1], fun _ => .idle⟩

/-- Thread 1 sends the signals 3 and 5 to thread 0, which unmasks the first one and handles it. -/
theorem signal_invariant_handled : ∃ s, (signalSystem ℕ (Fin 2) [0, 1]).Reach sigOk s ∧
    (s.thread 0).pending.getLsbD 5 = true ∧ countSignal 5 (s.thread 0).siList = 1 := by
  obtain ⟨s, hs, hp⟩ := System.exists_reach (signalSystem ℕ (Fin 2) [0, 1]) sigOk
    (fun s => (s.thread 0).pending.getLsbD 5) (s := noSignals)
    ⟨by decide, rfl, fun _ => rfl, fun _ => ⟨rfl, rfl⟩⟩
    [.kill 0 1 false 0 3, .next 0, .next 0, .next 0, .unmask 1 0 false 3, .next 1, .next 1, .next 1,
      .kill 0 1 false 0 5, .next 0, .next 0, .next 0, .next 1]
    (by decide)
  exact ⟨s, hs, hp, ((signal_invariant hs).1 0 5).mp hp⟩

/-- **Two senders** test for a node with the signal 3 before either has inserted one. -/
theorem signal_twice : ∃ s, (signalSystem ℕ (Fin 2) [0, 1]).Reach System.anyStep s ∧
    (s.thread 0).pending.getLsbD 3 = true ∧ countSignal 3 (s.thread 0).siList = 2 := by
  obtain ⟨s, hs, hp⟩ := System.exists_reach (signalSystem ℕ (Fin 2) [0, 1]) System.anyStep
    (fun s => (s.thread 0).pending.getLsbD 3 && decide (countSignal 3 (s.thread 0).siList = 2))
    (s := noSignals) ⟨by decide, rfl, fun _ => rfl, fun _ => ⟨rfl, rfl⟩⟩
    [.kill 0 1 false 0 3, .kill 1 2 false 0 3, .next 0, .next 1, .next 0, .next 1]
    (by decide)
  rw [Bool.and_eq_true, decide_eq_true_eq] at hp
  exact ⟨s, hs, hp⟩

end SigState

end RtThread
