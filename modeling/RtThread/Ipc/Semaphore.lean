import RtThread.Ipc.Calls

/-!
# Semaphores

`rt_sem_take` with its two sections around `rt_schedule`, `rt_sem_trytake` (a take with time-out 0)
and `rt_sem_release`, for any number of semaphores and threads. `SemState` adds to the code's state
a tally of the calls that have succeeded.

* `semTake`, `semTakeResume`, `semRelease`: the sections of the code;
* `SemInv`: a waiting thread has the error code `RT_EINTR`, so that who is off the suspend list with
  `RT_EOK` holds a token;
* **`sem_conservation`**: tokens are neither lost nor duplicated.
-/

namespace RtThread

open Kernel

/-- `RT_SEM_VALUE_MAX`. -/
abbrev semValueMax : ℕ := 0xffff

/-- The calls on semaphores: `locals` is the semaphore of a call, `data` the field `value`. -/
abbrev SemCalls (T O : Type) := CallState T O O (O → BitVec 16)

/-- The calls, and a tally of the successful ones. -/
structure SemState (T O : Type) where
  calls : SemCalls T O
  initial : O → BitVec 16
  releases : O → ℕ
  takes : O → ℕ

/-- The steps of the semaphore system. -/
inductive SemLabel (T O : Type) where
  | env (a : EnvLabel T)
  | take (o : O) (timeout : BitVec 32) (flag : SuspendFlag)
  | takeResume
  | release (o : O)
  deriving DecidableEq, Repr

variable {T O : Type} [DecidableEq T] [DecidableEq O]

/-! ## The code -/

/-- `_rt_sem_take` up to its `rt_schedule`: the error it returns, none when it has suspended the
thread. -/
def semTake (s : SemCalls T O) (o : O) (timeout : BitVec 32) (flag : SuspendFlag) :
    Option (Option Err × SemCalls T O) :=
  if 0 < (s.data o).toNat then
    some (some .eok, s.withData (Function.update s.data o (s.data o - 1)))
  else if timeout = 0 then some (some .etimeout, s)
  else s.self.bind fun c => s.wait c o timeout flag o

/-- `_rt_sem_take` after its `rt_schedule`. -/
def semTakeResume (s : SemCalls T O) (c : T) : Err × SemCalls T O :=
  (if (s.kernel.thread c).error ≠ .eok then (s.kernel.thread c).error else .eok, s.leave c)

/-- `rt_sem_release`. -/
def semRelease (s : SemCalls T O) (o : O) : Err × SemCalls T O :=
  match s.kernel.ipcListResume o with
  | some k => (.eok, s.withKernel k)
  | none =>
    if (s.data o).toNat < semValueMax then
      (.eok, s.withData (Function.update s.data o (s.data o + 1)))
    else (.efull, s)

/-! ## The system -/

/-- One more success on `o`. -/
def tally (n : O → ℕ) (o : O) (success : Bool) : O → ℕ :=
  fun x => if x = o ∧ success = true then n x + 1 else n x

/-- One step of the threads and their environment. -/
def semStep (s : SemState T O) : SemLabel T O → Option (SemState T O)
  | .env a => (envStep s.calls a).map fun c => { s with calls := c }
  | .take o timeout flag => (semTake s.calls o timeout flag).map fun r =>
    { s with calls := r.2, takes := tally s.takes o (r.1 = some .eok) }
  | .takeResume => s.calls.caller.map fun c =>
    let r := semTakeResume s.calls c
    { s with calls := r.2, takes := tally s.takes (s.calls.locals c) (r.1 = .eok) }
  | .release o =>
    let r := semRelease s.calls o
    some { s with calls := r.2, releases := tally s.releases o (r.1 = .eok) }

/-- Threads and semaphores, initialized. -/
structure SemInit (s : SemState T O) : Prop where
  calls : CallInit s.calls
  value : s.calls.data = s.initial
  releases : ∀ o, s.releases o = 0
  takes : ∀ o, s.takes o = 0

/-- The semaphores as a system. -/
def semSystem (T O : Type) [DecidableEq T] [DecidableEq O] :
    System (SemState T O) (SemLabel T O) where
  init := SemInit
  step := semStep

/-- `t` is in a take on `o`, off its suspend list, with `RT_EOK`. -/
def handedTo (s : SemCalls T O) (o : O) (t : T) : Bool :=
  s.locals t = o ∧ t ∉ s.kernel.waiters o ∧ (s.kernel.thread t).error = .eok

/-- The tokens handed to woken waiters that have not yet returned. -/
def handed (s : SemCalls T O) (o : O) : ℕ := s.inside.countP (handedTo s o)

/-- The tokens of a semaphore that no take has consumed. -/
def tokens (s : SemCalls T O) (o : O) : ℕ := (s.data o).toNat + handed s o

/-! ## The invariant -/

/-- Waiting threads have the error code `RT_EINTR`; a semaphore with a value has no waiters. -/
structure SemInv (s : SemCalls T O) : Prop where
  calls : CallInv s
  waiter : ∀ {o t}, t ∈ s.kernel.waiters o → s.locals t = o ∧ (s.kernel.thread t).error = .eintr
  empty : ∀ o, 0 < (s.data o).toNat → s.kernel.waiters o = []

variable {s s' : SemCalls T O} {o x : O} {c t : T}

theorem CallInit.semInv (h : CallInit s) : SemInv s := by
  refine ⟨h.inv, fun {o t} ht => ?_, fun o _ => ?_⟩
  · obtain ⟨⟨priority, object, hk, -⟩, -⟩ := h
    rw [waiters, hk] at ht
    cases ht
  · obtain ⟨⟨priority, object, hk, -⟩, -⟩ := h
    rw [waiters, hk]
    rfl

theorem handedTo_iff : handedTo s o t = true ↔
    s.locals t = o ∧ t ∉ s.kernel.waiters o ∧ (s.kernel.thread t).error = .eok := by
  rw [handedTo, decide_eq_true_eq]

/-- A predicate that begins to hold of one element. -/
theorem countP_flip {α : Type} [DecidableEq α] {l : List α} (hl : l.Nodup) {a : α} (ha : a ∈ l)
    {p q : α → Bool} (hp : p a = false) (hq : q a = true) (hpq : ∀ b ∈ l, b ≠ a → q b = p b) :
    l.countP q = l.countP p + 1 := by
  have hperm := List.perm_cons_erase ha
  have hrest : (l.erase a).countP q = (l.erase a).countP p := by
    refine List.countP_congr fun b hb => ?_
    have hba : b ≠ a := fun e => hl.not_mem_erase (e ▸ hb)
    rw [hpq b (List.mem_of_mem_erase hb) hba]
  rw [hperm.countP_eq, hperm.countP_eq, List.countP_cons_of_pos hq,
    List.countP_cons_of_neg (by rw [hp]; simp), hrest]

namespace SemInv

/-- **The environment moves no token.** -/
theorem env (h : SemInv s) {a : EnvLabel T} (hs : envStep s a = some s') :
    SemInv s' ∧ s'.data = s.data ∧ ∀ o, handed s' o = handed s o := by
  obtain ⟨hcalls, hf⟩ := envStep_frame h.calls hs
  have hwait : ∀ {o t}, t ∈ s'.kernel.waiters o → Untouched s.kernel s'.kernel t := fun {o t} ht => by
    have hin := h.calls.waiter ((hf.sublist o).subset ht)
    exact (hf.calls t hin).resolve_right fun hout => hout.unlinked o ht
  refine ⟨⟨hcalls, fun {o t} ht => ?_, fun o ho => ?_⟩, hf.data, fun o => ?_⟩
  · rw [hf.locals, (hwait ht).error]
    exact h.waiter ((hf.sublist o).subset ht)
  · rw [hf.data] at ho
    have hsub := hf.sublist o
    rw [h.empty o ho] at hsub
    exact List.sublist_nil.mp hsub
  · rw [handed, handed, hf.inside]
    refine List.countP_congr fun t ht => ?_
    rw [handedTo_iff, handedTo_iff, hf.locals]
    rcases hf.calls t ht with hu | hout
    · rw [hu.error, hu.waiters]
    · obtain ⟨x, hx⟩ := hout.waiter
      rw [hout.error, (h.waiter hx).2]
      simp

/-- **`_rt_sem_take` up to its `rt_schedule`.** -/
theorem take (h : SemInv s) {timeout : BitVec 32} {flag : SuspendFlag} {r : Option Err}
    (hs : semTake s o timeout flag = some (r, s')) :
    SemInv s' ∧ (∀ x, handed s' x = handed s x) ∧
      ∀ x, (s.data x).toNat = (s'.data x).toNat + if x = o ∧ r = some .eok then 1 else 0 := by
  unfold semTake at hs
  split_ifs at hs with hv ht
  · cases hs
    have hval : ∀ x, (s.data x).toNat = ((s.withData
        (Function.update s.data o (s.data o - 1))).data x).toNat +
          if x = o ∧ some Err.eok = some Err.eok then 1 else 0 := fun x => by
      by_cases hx : x = o
      · subst hx
        have : (s.data x - 1).toNat = (s.data x).toNat - 1 := by
          rw [BitVec.toNat_sub_of_le (by rw [BitVec.le_def]; exact hv)]; rfl
        simp only [CallState.withData, Function.update_self, and_self, if_true]
        omega
      · simp [CallState.withData, hx]
    refine ⟨⟨h.calls.withData _, h.waiter, fun x hx => h.empty x ?_⟩, fun _ => rfl, hval⟩
    rw [hval x]
    omega
  · cases hs
    exact ⟨h, fun _ => rfl, fun x => by simp⟩
  · obtain ⟨c, hc, hs⟩ := Option.bind_eq_some_iff.mp hs
    obtain ⟨-, hrun, hin⟩ := CallState.self_iff.mp hc
    obtain ⟨k, rfl, rfl, hcalls, hw⟩ := h.calls.wait hc hs
    have hidle := h.calls.caller_idle hrun
    refine ⟨⟨hcalls, fun {x t} ht' => ?_, fun x hx => ?_⟩, fun x => ?_,
      fun x => by simp [CallState.block]⟩
    · rcases (hw.waiters x t).mp ht' with ⟨rfl, rfl⟩ | ht'
      · exact ⟨Function.update_self .., hw.error⟩
      · have htc : t ≠ c := fun e => hidle.2 x (e ▸ ht')
        obtain ⟨h1, h2⟩ := h.waiter ht'
        refine ⟨(Function.update_of_ne htc _ _).trans h1, ?_⟩
        exact (congrArg Thread.error (hw.thread t htc)).trans h2
    · have hxo : x ≠ o := fun e => hv (e ▸ hx)
      refine List.eq_nil_iff_forall_not_mem.mpr fun t ht' => ?_
      rcases (hw.waiters x t).mp ht' with ⟨e, -⟩ | ht'
      · exact hxo e
      · rw [h.empty x hx] at ht'
        cases ht'
    · have hc0 : ¬ handedTo (s.block c k timeout o) x c = true := by
        rw [handedTo_iff]
        rintro ⟨-, -, he⟩
        have he' : (k.thread c).error = .eok := he
        rw [hw.error] at he'
        cases he'
      have hcons : (s.block c k timeout o).inside = c :: s.inside := rfl
      rw [handed, handed, hcons, List.countP_cons_of_neg hc0]
      refine List.countP_congr fun t ht' => ?_
      have htc : t ≠ c := fun e => hin (e ▸ ht')
      have h1 : (Function.update s.locals c o) t = s.locals t := Function.update_of_ne htc _ _
      have h2 : t ∈ k.waiters x ↔ t ∈ s.kernel.waiters x := by
        rw [hw.waiters]
        exact or_iff_right fun e => htc e.2
      rw [handedTo_iff, handedTo_iff]
      change (Function.update s.locals c o) t = x ∧ t ∉ k.waiters x ∧ _ ↔ _
      rw [h1, h2]
      exact and_congr_right fun _ => and_congr_right fun _ => by
        rw [← congrArg Thread.error (hw.thread t htc)]; rfl

/-- **`_rt_sem_take` after its `rt_schedule`.** -/
theorem takeResume (h : SemInv s) (hc : s.caller = some c) :
    SemInv (semTakeResume s c).2 ∧ (semTakeResume s c).2.data = s.data ∧
      ∀ x, handed s x = handed (semTakeResume s c).2 x +
        if x = s.locals c ∧ (semTakeResume s c).1 = .eok then 1 else 0 := by
  obtain ⟨-, hrun, hin⟩ := CallState.caller_iff.mp hc
  have hidle := (h.calls.caller_idle hrun).2
  refine ⟨⟨h.calls.leave hc, h.waiter, h.empty⟩, rfl, fun x => ?_⟩
  have hres : (semTakeResume s c).1 = .eok ↔ (s.kernel.thread c).error = .eok := by
    unfold semTakeResume
    by_cases he : (s.kernel.thread c).error = .eok <;> simp [he]
  have hto : handedTo s x c = true ↔ x = s.locals c ∧ (semTakeResume s c).1 = .eok := by
    rw [handedTo_iff, hres, eq_comm, and_congr_right_iff]
    exact fun _ => and_iff_right (hidle x)
  have hperm := List.perm_cons_erase hin
  rw [handed, hperm.countP_eq, List.countP_cons]
  simp only [hto]
  rfl

/-- A woken waiter has been handed one token. -/
theorem handed_resume (h : SemInv s) (ht : t ∈ s.kernel.waiters o) (x : O) :
    handed (s.withKernel (s.kernel.ipcResumeThread .eok t)) x =
      handed s x + if x = o then 1 else 0 := by
  have hk := ipcResumeThread_woken h.calls.linked ht .eok
  obtain ⟨hloc, herr⟩ := h.waiter ht
  have hpq : ∀ u ≠ t, handedTo (s.withKernel (s.kernel.ipcResumeThread .eok t)) x u =
      handedTo s x u := fun u hut => by
    rw [Bool.eq_iff_iff, handedTo_iff, handedTo_iff]
    change s.locals u = x ∧ u ∉ (s.kernel.ipcResumeThread .eok t).waiters x ∧
      ((s.kernel.ipcResumeThread .eok t).thread u).error = .eok ↔ _
    rw [(hk.untouched u hut).error, (hk.untouched u hut).waiters]
  have hbefore : handedTo s x t = false := by
    rw [Bool.eq_false_iff, ne_eq, handedTo_iff, herr]
    simp
  by_cases hxo : x = o
  · subst hxo
    have hafter : handedTo (s.withKernel (s.kernel.ipcResumeThread .eok t)) x t = true :=
      handedTo_iff.mpr ⟨hloc, hk.unlinked x, hk.error⟩
    rw [if_pos rfl]
    exact countP_flip h.calls.nodup (h.calls.waiter ht) hbefore hafter fun u _ => hpq u
  · have hafter : handedTo (s.withKernel (s.kernel.ipcResumeThread .eok t)) x t = false := by
      rw [Bool.eq_false_iff, ne_eq, handedTo_iff]
      rintro ⟨e, -⟩
      exact hxo (e.symm.trans hloc)
    rw [if_neg hxo]
    refine List.countP_congr fun u _ => ?_
    by_cases hut : u = t
    · subst hut; rw [hbefore, hafter]
    · rw [hpq u hut]

theorem resume (h : SemInv s) (ht : t ∈ s.kernel.waiters o) :
    SemInv (s.withKernel (s.kernel.ipcResumeThread .eok t)) := by
  have hk := ipcResumeThread_woken h.calls.linked ht .eok
  refine ⟨h.calls.resume ht .eok, fun {x u} hu => ?_, fun x hx => ?_⟩
  · have hut : u ≠ t := fun e => hk.unlinked x (e ▸ hu)
    obtain ⟨h1, h2⟩ := h.waiter ((hk.sublist x).subset hu)
    exact ⟨h1, (hk.untouched u hut).error.trans h2⟩
  · have hsub := hk.sublist x
    rw [h.empty x hx] at hsub
    exact List.sublist_nil.mp hsub

/-- A release without waiters. -/
theorem release_value (h : SemInv s) (hw : s.kernel.waiters o = [])
    (hv : (s.data o).toNat < semValueMax) :
    SemInv (s.withData (Function.update s.data o (s.data o + 1))) ∧
      ∀ x, ((Function.update s.data o (s.data o + 1)) x).toNat =
        (s.data x).toNat + if x = o then 1 else 0 := by
  have hval : (s.data o + 1).toNat = (s.data o).toNat + 1 :=
    BitVec.toNat_add_of_lt (by change (s.data o).toNat + 1 < 65536; unfold semValueMax at hv; omega)
  refine ⟨⟨h.calls.withData _, h.waiter, fun x hx => ?_⟩, fun x => ?_⟩
  · by_cases hxo : x = o
    · subst hxo; exact hw
    · have hx' : 0 < ((Function.update s.data o (s.data o + 1)) x).toNat := hx
      rw [Function.update_of_ne hxo] at hx'
      exact h.empty x hx'
  · by_cases hxo : x = o
    · subst hxo
      rw [Function.update_self, hval, if_pos rfl]
    · rw [Function.update_of_ne hxo, if_neg hxo]
      rfl

/-- **`rt_sem_release`.** -/
theorem release (h : SemInv s) (o : O) :
    SemInv (semRelease s o).2 ∧
      ∀ x, tokens (semRelease s o).2 x =
        tokens s x + if x = o ∧ (semRelease s o).1 = .eok then 1 else 0 := by
  unfold semRelease
  cases hw : s.kernel.waiters o with
  | nil =>
    rw [ipcListResume_nil hw]
    dsimp only
    split_ifs with hv
    · obtain ⟨h1, h2⟩ := h.release_value hw hv
      refine ⟨h1, fun x => ?_⟩
      simp only [and_true]
      change _ + handed s x = _
      rw [tokens, add_right_comm, ← h2 x]
      rfl
    · exact ⟨h, fun x => by simp⟩
  | cons t l =>
    have ht : t ∈ s.kernel.waiters o := by rw [hw]; exact List.mem_cons_self
    rw [ipcListResume_cons hw]
    refine ⟨h.resume ht, fun x => ?_⟩
    simp only [and_true]
    rw [tokens, h.handed_resume ht x, tokens, add_assoc]
    rfl

end SemInv

/-! ## Conservation -/

/-- The books of the semaphores balance, a semaphore with a value has no waiters, and a take that
does not succeed consumes nothing: in its first section, while it waits, and when it returns. -/
structure SemConserved (s : SemState T O) : Prop where
  balance : ∀ o, (s.initial o).toNat + s.releases o =
    (s.calls.data o).toNat + s.takes o + handed s.calls o
  empty : ∀ o, 0 < (s.calls.data o).toNat → s.calls.kernel.waiters o = []
  take : ∀ {o timeout flag r c'}, semTake s.calls o timeout flag = some (r, c') → r ≠ some .eok →
    c'.data = s.calls.data ∧ handed c' = handed s.calls
  wait : ∀ {a c'}, envStep s.calls a = some c' →
    c'.data = s.calls.data ∧ handed c' = handed s.calls
  takeResume : ∀ {c}, s.calls.caller = some c → (semTakeResume s.calls c).1 ≠ .eok →
    (semTakeResume s.calls c).2.data = s.calls.data ∧
      handed (semTakeResume s.calls c).2 = handed s.calls

/-- The tally balances. -/
def Balanced (s : SemState T O) : Prop :=
  ∀ o, (s.initial o).toNat + s.releases o = tokens s.calls o + s.takes o

theorem tally_apply (n : O → ℕ) (o x : O) (b : Bool) :
    tally n o b x = n x + if x = o ∧ b = true then 1 else 0 := by
  unfold tally
  split_ifs <;> rfl

/-- **One step keeps the balance.** -/
theorem semStep_balanced {s s' : SemState T O} {a : SemLabel T O} (h : SemInv s.calls)
    (hb : Balanced s) (hs : semStep s a = some s') : SemInv s'.calls ∧ Balanced s' := by
  cases a with
  | env a =>
    obtain ⟨c, hc, rfl⟩ := Option.map_eq_some_iff.mp hs
    obtain ⟨h1, h2, h3⟩ := h.env hc
    refine ⟨h1, fun o => ?_⟩
    have := hb o
    rw [tokens, ← h2, ← h3 o] at this
    exact this
  | take o timeout flag =>
    obtain ⟨⟨r, c⟩, hc, rfl⟩ := Option.map_eq_some_iff.mp hs
    obtain ⟨h1, h2, h3⟩ := h.take hc
    refine ⟨h1, fun x => ?_⟩
    have hx := hb x
    have h3 := h3 x
    have h2 := h2 x
    simp only [tokens, tally_apply, decide_eq_true_eq] at hx ⊢
    omega
  | takeResume =>
    obtain ⟨c, hc, rfl⟩ := Option.map_eq_some_iff.mp hs
    obtain ⟨h1, h2, h3⟩ := h.takeResume hc
    refine ⟨h1, fun x => ?_⟩
    have hx := hb x
    have h3 := h3 x
    simp only [tokens, tally_apply, decide_eq_true_eq, h2] at hx ⊢
    omega
  | release o =>
    cases hs
    obtain ⟨h1, h2⟩ := h.release o
    refine ⟨h1, fun x => ?_⟩
    have hx := hb x
    have h2 := h2 x
    simp only [tally_apply, decide_eq_true_eq] at hx ⊢
    omega

/-- **Semaphore tokens are conserved.** In every reachable state, for every semaphore: initial value
plus successful releases are the value, the successful takes and the tokens on their way. -/
theorem sem_conservation {s : SemState T O} (hs : (semSystem T O).Reach System.anyStep s) :
    SemConserved s := by
  obtain ⟨h, hb⟩ := hs.invariant (I := fun s => SemInv s.calls ∧ Balanced s)
    (fun s (h0 : SemInit s) => ⟨h0.calls.semInv, fun o => by
      have hz : handed s.calls o = 0 := by rw [handed, h0.calls.inside]; rfl
      rw [tokens, hz, h0.value, h0.releases, h0.takes]⟩)
    fun s a s' hI _ hst => semStep_balanced hI.1 hI.2 hst
  refine ⟨fun o => ?_, h.empty, fun {o timeout flag r c'} hc hr => ?_, fun {a c'} hc => ?_,
    fun {c} hc hr => ?_⟩
  · have := hb o
    rw [tokens] at this
    omega
  · obtain ⟨-, h2, h3⟩ := h.take hc
    refine ⟨funext fun x => BitVec.eq_of_toNat_eq ?_, funext h2⟩
    have := h3 x
    rw [if_neg fun e => hr e.2] at this
    exact this.symm
  · obtain ⟨-, h2, h3⟩ := h.env hc
    exact ⟨h2, funext h3⟩
  · obtain ⟨-, h2, h3⟩ := h.takeResume hc
    refine ⟨h2, funext fun x => ?_⟩
    have := h3 x
    rw [if_neg fun e => hr e.2] at this
    exact this.symm

/-- A semaphore with value 0, for two threads. -/
def emptySem : SemState (Fin 2) Unit where
  calls := .initial (fun _ => 10)
    (fun _ => { IpcObject.mutexInit with type := .semaphore, flag := .fifo }) (fun _ => ()) fun _ => 0
  initial _ := 0
  releases _ := 0
  takes _ := 0

/-- Thread 0 waits, with a time-out of 5 ticks, and is handed a token. -/
theorem sem_conservation_handed : ∃ s, (semSystem (Fin 2) Unit).Reach System.anyStep s ∧
    handed s.calls () = 1 ∧ SemConserved s := by
  obtain ⟨s, hs, hp⟩ := System.exists_reach (semSystem (Fin 2) Unit) System.anyStep
    (fun s => handed s.calls () = 1)
    (s := emptySem) ⟨CallState.initial_init (fun _ => by decide) _ _ _, rfl, fun _ => rfl, fun _ => rfl⟩
    [.env (.startup 0), .env .start, .take () 5 .uninterruptible, .env (.startup 1),
      .env .schedule, .env .tick, .release ()] (by decide)
  exact ⟨s, hs, of_decide_eq_true hp, sem_conservation hs⟩

end RtThread
