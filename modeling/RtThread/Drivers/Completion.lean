import RtThread.Drivers.Wait

/-!
# Completions

`components/drivers/ipc/completion.c`: a flag that `rt_completion_done` raises and `rt_completion_wait`
takes down, with one waiting thread. The section of the waiting thread after its `rt_schedule` takes
the flag down whatever its error code says; `rt_completion_done` tests the flag before it disables the
interrupts.

* `cplWait`, `cplResume`, `cplDone`, `cplDoneSection`;
* `CplTokenStep`: a token that is there or not;
* **`completion_refines`**: in every run in which no wait that has timed out finds the flag raised the
  sections do to the flag what they do to the token; `completion_lost`: a run in which one does.
-/

set_option linter.unusedSectionVars false

namespace RtThread

open Kernel

/-- The completions: `flag == RT_COMPLETED`, the calls of `rt_completion_done` that have seen the flag
down, how often the flag was raised, and how many waits have returned `RT_EOK`. -/
structure CplData (X : Type) where
  flag : X → Bool
  signalling : List X
  raised : X → ℕ
  waited : X → ℕ

/-- The locals of `rt_completion_wait`. -/
structure CplLocals (X : Type) where
  completion : X
  deriving DecidableEq, Repr

/-- The calls on completions; the list of a completion is its `suspended_list`. -/
abbrev CplCalls (T X : Type) := CallState T X (CplLocals X) (CplData X)

/-- What a call does. -/
inductive CplOp where
  | wait
  | done
  deriving DecidableEq, Repr

/-- How a section ends: a wait with `RT_EOK` or an error or in the suspended state; `rt_completion_done`
with the flag raised, at its test, or past its test. -/
inductive CplResult where
  | completed
  | failed (e : Err)
  | waits
  | raised
  | already
  | checked
  deriving DecidableEq, Repr

variable {T X : Type} [DecidableEq T] [DecidableEq X]

/-! ## The code -/

/-- A wait takes the flag down and returns `RT_EOK`, or an error. -/
def cplTake (s : CplCalls T X) (x : X) (e : Err) : CplResult × CplCalls T X :=
  (if e = .eok then .completed else .failed e,
    s.withData { s.data with
      flag := Function.update s.data.flag x false
      waited := if e = .eok then Function.update s.data.waited x (s.data.waited x + 1)
        else s.data.waited })

/-- `rt_completion_wait` up to its `rt_schedule`. There is one waiting thread at a time. -/
def cplWait (s : CplCalls T X) (c : T) (x : X) (timeout : BitVec 32) :
    Option (CplResult × CplCalls T X) :=
  if ∃ t ∈ s.inside, (s.locals t).completion = x then none
  else if s.data.flag x = false then
    if s.kernel.waiters x = [] then
      if timeout = 0 then some (.failed .etimeout, s)
      else (s.listWait c x timeout { completion := x }).map fun s => (.waits, s)
    else none
  else some (cplTake s x .eok)

/-- `rt_completion_wait` after its `rt_schedule`. -/
def cplResume (s : CplCalls T X) (c : T) : CplResult × CplCalls T X :=
  cplTake (s.leave c) (s.locals c).completion (s.kernel.thread c).error

/-- The test of `rt_completion_done`. -/
def cplDone (s : CplCalls T X) (x : X) : CplResult × CplCalls T X :=
  if s.data.flag x then (.already, s)
  else (.checked, s.withData { s.data with signalling := x :: s.data.signalling })

/-- Threads and completions, initialized. -/
structure CplInit (s : CplCalls T X) : Prop where
  calls : CallInit s
  flag : ∀ x, s.data.flag x = false
  raised : ∀ x, s.data.raised x = 0
  waited : ∀ x, s.data.waited x = 0

/-- A section of a wait or of a done on a token: there before, result, there after. -/
def CplTokenStep (token : Bool) (op : CplOp) (r : CplResult) (token' : Bool) : Prop :=
  match op, r with
  | .wait, .completed => token = true ∧ token' = false
  | .wait, .failed _ => token' = token
  | .wait, .waits => token = false ∧ token' = false
  | .done, .raised => token' = true
  | .done, .already => token = true ∧ token' = true
  | .done, .checked => token' = token
  | _, _ => False

/-- What a section of the call `(x, op)` has done: a step of the token `x`, and nothing else. -/
structure CplStepped (s s' : CplCalls T X) (x : X) (op : CplOp) (r : CplResult) : Prop where
  token : CplTokenStep (s.data.flag x) op r (s'.data.flag x)
  frame : ∀ y ≠ x, s'.data.flag y = s.data.flag y

/-- Where the thread of a wait is: on the list with the flag down, woken by a done, or woken by its
timer. -/
def CplPlace (k : Kernel T X) (flag : X → Bool) (t : T) (x : X) : Prop :=
  (t ∈ k.waiters x ∧ (k.thread t).error = .eok ∧ flag x = false) ∨
    (∀ o, t ∉ k.waiters o) ∧ ((k.thread t).error = .eok → flag x = true)

/-- The invariant of the completions. -/
structure CplInv (s : CplCalls T X) : Prop where
  calls : CallInv s
  one : ∀ {t u}, t ∈ s.inside → u ∈ s.inside →
    (s.locals t).completion = (s.locals u).completion → t = u
  place : ∀ {t}, t ∈ s.inside → CplPlace s.kernel s.data.flag t (s.locals t).completion
  own : ∀ {t x}, t ∈ s.kernel.waiters x → (s.locals t).completion = x
  balance : ∀ x, s.data.raised x = s.data.waited x + if s.data.flag x then 1 else 0

namespace CplInv

variable {s s' : CplCalls T X} {c t : T} {x : X} {r : CplResult}

theorem init (h0 : CplInit s) : CplInv s := by
  obtain ⟨⟨priority, object, hk, -⟩, hi⟩ := h0.calls
  refine ⟨h0.calls.inv, fun {t u} ht => ?_, fun {t} ht => ?_, fun {t x} ht => ?_, fun x => ?_⟩
  · rw [hi] at ht; cases ht
  · rw [hi] at ht; cases ht
  · rw [waiters, hk] at ht; cases ht
  · rw [h0.raised, h0.waited, h0.flag]; rfl

/-- **The environment.** -/
theorem env (hs : CplInv s) {a : EnvLabel T} (he : envStep s a = some s') :
    CplInv s' ∧ s'.data = s.data := by
  obtain ⟨hcalls, hf⟩ := envStep_frame hs.calls he
  refine ⟨⟨hcalls, fun {t u} ht hu => ?_, fun {t} ht => ?_, fun {t x} ht => ?_, ?_⟩, hf.data⟩
  · rw [hf.inside] at ht hu
    rw [hf.locals]
    exact hs.one ht hu
  · rw [hf.inside] at ht
    rw [hf.locals, hf.data]
    rcases hf.calls t ht with hu | hout
    · rw [CplPlace, hu.error, hu.waiters]
      exact (hs.place ht).imp_right fun h => ⟨fun o ho => h.1 o ((hu.waiters o).mp ho), h.2⟩
    · refine .inr ⟨hout.unlinked, fun h => ?_⟩
      rw [hout.error] at h
      cases h
  · rw [hf.locals]
    exact hs.own ((hf.sublist x).subset ht)
  · rw [hf.data]
    exact hs.balance

/-- **No one waits for a flag that is raised.** -/
theorem awake (hs : CplInv s) (hx : s.data.flag x = true) : s.kernel.waiters x = [] := by
  refine List.eq_nil_iff_forall_not_mem.mpr fun t ht => ?_
  rcases hs.place (hs.calls.waiter ht) with ⟨-, -, h⟩ | ⟨h, -⟩
  · rw [hs.own ht, hx] at h
    cases h
  · exact h x ht

/-- **Taking the flag down**, with no thread inside a wait for it. -/
theorem take (hs : CplInv s) (hfree : ∀ t ∈ s.inside, (s.locals t).completion ≠ x) {e : Err}
    (he : s.data.flag x = decide (e = .eok)) :
    CplInv (cplTake s x e).2 ∧ CplStepped s (cplTake s x e).2 x .wait (cplTake s x e).1 := by
  refine ⟨⟨hs.calls.withData _, hs.one, fun {t} ht => ?_, hs.own, fun y => ?_⟩, ?_, fun y hy => ?_⟩
  · change CplPlace s.kernel (Function.update s.data.flag x false) t (s.locals t).completion
    rw [CplPlace, Function.update_of_ne (hfree t ht)]
    exact hs.place ht
  · change s.data.raised y = (if e = .eok then _ else s.data.waited) y +
      if Function.update s.data.flag x false y = true then 1 else 0
    rw [hs.balance y]
    by_cases hy : y = x
    · rw [hy, Function.update_self, he]
      by_cases h : e = .eok <;> simp [h]
    · rw [Function.update_of_ne hy]
      by_cases h : e = .eok <;> simp [h, hy]
  · change CplTokenStep (s.data.flag x) .wait (if e = .eok then .completed else .failed e)
      (Function.update s.data.flag x false x)
    rw [Function.update_self, he]
    by_cases h : e = .eok
    · rw [if_pos h, decide_eq_true h]
      exact ⟨rfl, rfl⟩
    · rw [if_neg h, decide_eq_false h]
      rfl
  · exact Function.update_of_ne hy _ _

/-- **Waiting.** -/
theorem wait (hs : CplInv s) (hc : s.self = some c) {timeout : BitVec 32}
    (hw : cplWait s c x timeout = some (r, s')) : CplInv s' ∧ CplStepped s s' x .wait r := by
  unfold cplWait at hw
  split_ifs at hw with hfree hflag hempty htime
  · cases hw
    exact ⟨hs, rfl, fun _ _ => rfl⟩
  · obtain ⟨s₁, hw, he⟩ := Option.map_eq_some_iff.mp hw
    obtain ⟨k, rfl, hcalls, hwaits⟩ := hs.calls.listWait hc hw
    cases he
    obtain ⟨-, hrun, hin⟩ := CallState.self_iff.mp hc
    have hne : ∀ t ∈ s.inside, t ≠ c := fun t ht e => hin (e ▸ ht)
    have hlocals : ∀ t ∈ s.inside,
        Function.update s.locals c { completion := x } t = s.locals t := fun t ht =>
      Function.update_of_ne (hne t ht) _ _
    have hfree' : ∀ t ∈ s.inside, (s.locals t).completion ≠ x := fun t ht e => hfree ⟨t, ht, e⟩
    refine ⟨⟨hcalls, fun {t u} ht hu => ?_, fun {t} ht => ?_, fun {t y} ht => ?_, hs.balance⟩,
      ⟨hflag, hflag⟩, fun _ _ => rfl⟩
    · change (Function.update s.locals c _ t).completion =
        (Function.update s.locals c _ u).completion → _
      rcases List.mem_cons.mp ht with htc | ht' <;> rcases List.mem_cons.mp hu with huc | hu'
      · exact fun _ => htc.trans huc.symm
      · rw [htc, Function.update_self, hlocals u hu']
        exact fun h => absurd h.symm (hfree' u hu')
      · rw [huc, Function.update_self, hlocals t ht']
        exact fun h => absurd h (hfree' t ht')
      · rw [hlocals t ht', hlocals u hu']
        exact hs.one ht' hu'
    · change CplPlace k s.data.flag t (Function.update s.locals c _ t).completion
      rcases List.mem_cons.mp ht with rfl | ht
      · rw [Function.update_self]
        exact .inl ⟨(hwaits.waiters x t).mpr (.inl ⟨rfl, rfl⟩), hwaits.error, hflag⟩
      · rw [hlocals t ht]
        rw [CplPlace, hwaits.thread t (hne t ht)]
        refine (hs.place ht).imp (fun h => ⟨(hwaits.waiters _ t).mpr (.inr h.1), h.2⟩)
          fun h => ⟨fun o ho => ?_, h.2⟩
        rcases (hwaits.waiters o t).mp ho with ⟨-, e⟩ | ho
        · exact hne t ht e
        · exact h.1 o ho
    · change (Function.update s.locals c _ t).completion = y
      rcases (hwaits.waiters y t).mp ht with ⟨rfl, rfl⟩ | ht
      · rw [Function.update_self]
      · rw [hlocals t (hs.calls.waiter ht)]
        exact hs.own ht
  · have htrue : s.data.flag x = true := by simpa using hflag
    have h := hs.take (e := .eok) (fun t ht e => hfree ⟨t, ht, e⟩) htrue
    rw [Option.some.inj hw] at h
    exact h

/-- **A woken thread.** -/
theorem resume (hs : CplInv s) (hc : s.caller = some c)
    (hok : (s.kernel.thread c).error = .eok ∨ s.data.flag (s.locals c).completion = false) :
    CplInv (cplResume s c).2 ∧
      CplStepped s (cplResume s c).2 (s.locals c).completion .wait (cplResume s c).1 := by
  obtain ⟨-, hrun, hin⟩ := CallState.caller_iff.mp hc
  have hidle := (hs.calls.caller_idle hrun).2
  have hleave : CplInv (s.leave c) :=
    ⟨hs.calls.leave hc, fun ht hu => hs.one (List.mem_of_mem_erase ht) (List.mem_of_mem_erase hu),
      fun ht => hs.place (List.mem_of_mem_erase ht), hs.own, hs.balance⟩
  have hflag : s.data.flag (s.locals c).completion = decide ((s.kernel.thread c).error = .eok) := by
    by_cases he : (s.kernel.thread c).error = .eok
    · rw [decide_eq_true he]
      rcases hs.place hin with ⟨h, -, -⟩ | ⟨-, h⟩
      · exact absurd h (hidle _)
      · exact h he
    · rw [decide_eq_false he]
      exact hok.resolve_left he
  have hfree : ∀ t ∈ (s.leave c).inside,
      ((s.leave c).locals t).completion ≠ (s.locals c).completion := fun t ht e => by
    have htc := hs.one (List.mem_of_mem_erase ht) hin e
    exact hs.calls.nodup.not_mem_erase (htc ▸ ht)
  obtain ⟨h1, h2⟩ := hleave.take hfree hflag
  exact ⟨h1, h2.token, h2.frame⟩

/-- **The test of a done.** -/
theorem done (hs : CplInv s) (x : X) : CplInv (cplDone s x).2 ∧
    CplStepped s (cplDone s x).2 x .done (cplDone s x).1 := by
  unfold cplDone
  split_ifs with hx
  · exact ⟨hs, ⟨hx, hx⟩, fun _ _ => rfl⟩
  · exact ⟨⟨hs.calls.withData _, hs.one, hs.place, hs.own, hs.balance⟩, rfl, fun _ _ => rfl⟩

end CplInv

end RtThread
