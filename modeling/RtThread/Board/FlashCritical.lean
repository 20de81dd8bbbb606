import Mathlib.Data.Fintype.Basic
import RtThread.Board.NorFlash
import RtThread.Lib.System

/-!
# The critical sections of the flash functions

`FAL_ENTER_CRITICAL` and `FAL_EXIT_CRITICAL` of `fal_flash_port.c` in the build with `FLASH_XIP`, around
every call of the ROM by `init`, `write` and `erase`, with `rt_enter_critical` and `rt_exit_critical` of
`scheduler_up.c`. Any number of threads interleave; the scheduler runs any thread that it may.

* `FalCall`: a call with its pairs of macros; `FlashThread`, `FlashCpu`: the threads and what they share;
* `flashStep`, `flashSystem`: the steps of the running thread; `flashOk`: the condition on a step;
* `FlashGood`: what is claimed of a state; `FlashInv`: the invariant;
* **`flash_critical`**: it holds in every run whose steps meet the condition; `flash_alone`: a part of it
  that holds in every run.
-/

set_option linter.unusedSectionVars false

namespace RtThread

/-- A call of a function of the FAL, with what decides its calls of the ROM. -/
inductive FalCall where
  | init
  | write (s : NorFlash) (rom : ℕ → Bool) (offset : ℕ) (buf : List UInt8)
  | erase (s : NorFlash) (rom : ℕ → Bool) (offset size : ℕ)

/-- The calls of the ROM between `FAL_ENTER_CRITICAL` and `FAL_EXIT_CRITICAL`. -/
def FalCall.pairs : FalCall → ℕ
  | init => 1
  | write s rom offset buf => (s.write rom offset buf).programs.length
  | erase s rom offset size => (s.erase rom offset size).erasures.length

/-- What a thread comes to: other code, `rt_exit_critical` and `rt_hw_interrupt_disable` of
`FAL_ENTER_CRITICAL`, the ROM, the software reset, `rt_exit_critical` and `rt_hw_interrupt_enable` of
`FAL_EXIT_CRITICAL`, the return of the function. -/
inductive FalPc where
  | idle
  | enter
  | disable
  | rom
  | reset
  | exit
  | enable
  | ret
  deriving DecidableEq

/-- `FAL_ENTER_CRITICAL` has disabled the interrupts. -/
def FalPc.disabled : FalPc → Bool
  | rom | reset | exit | enable => true
  | _ => false

/-- A thread: where it is, the pairs of macros that are left, its interrupt state, which a switch of
threads saves and restores, and the scheduler lock nest and the interrupt state at its last call. -/
structure FlashThread where
  pc : FalPc
  left : ℕ
  irq : Bool
  entryNest : ℕ
  entryIrq : Bool

/-- `rt_scheduler_lock_nest`, `s_interrupt_level`, `rt_current_thread` and the threads. -/
structure FlashCpu (T : Type) where
  nest : ℕ
  level : Bool
  current : T
  threads : T → FlashThread

/-- The steps of the running thread: a call and its parts, where `u` runs behind `rt_exit_critical`; and
of its other code the scheduler lock and the interrupt state. Last, the scheduler runs `u`. -/
inductive FlashLabel (T : Type) where
  | call (c : FalCall)
  | enter (u : T)
  | disable
  | rom
  | reset
  | exit (u : T)
  | enable
  | ret
  | lock
  | unlock (u : T)
  | setIrq (b : Bool)
  | switch (u : T)

section

variable {T : Type} [DecidableEq T]

namespace FlashCpu

/-- The running thread. -/
def thread (s : FlashCpu T) : FlashThread := s.threads s.current

/-- The running thread goes on. -/
def set (s : FlashCpu T) (th : FlashThread) : FlashCpu T :=
  { s with threads := Function.update s.threads s.current th }

/-- `rt_enter_critical`. -/
def enterCritical (s : FlashCpu T) : FlashCpu T := { s with nest := s.nest + 1 }

/-- `rt_exit_critical`; `u` runs behind it. -/
def exitCritical (s : FlashCpu T) (u : T) : Option (FlashCpu T) :=
  if s.nest - 1 = 0 then some { s with nest := 0, current := u }
  else if u = s.current then some { s with nest := s.nest - 1 }
  else none

end FlashCpu

/-- A step of the running thread. -/
def flashStep (s : FlashCpu T) : FlashLabel T → Option (FlashCpu T)
  | .call c =>
    if s.thread.pc = .idle then
      some (s.set ⟨if c.pairs = 0 then .ret else .enter, c.pairs, s.thread.irq, s.nest, s.thread.irq⟩)
    else none
  | .enter u =>
    if s.thread.pc = .enter then (s.set { s.thread with pc := .disable }).exitCritical u else none
  | .disable =>
    if s.thread.pc = .disable then
      some { s.set { s.thread with pc := .rom, irq := false } with level := s.thread.irq }
    else none
  | .rom => if s.thread.pc = .rom then some (s.set { s.thread with pc := .reset }) else none
  | .reset => if s.thread.pc = .reset then some (s.set { s.thread with pc := .exit }) else none
  | .exit u =>
    if s.thread.pc = .exit then (s.set { s.thread with pc := .enable }).exitCritical u else none
  | .enable =>
    if s.thread.pc = .enable then
      some (s.set { s.thread with
        pc := if s.thread.left - 1 = 0 then .ret else .enter
        left := s.thread.left - 1
        irq := s.level })
    else none
  | .ret => if s.thread.pc = .ret then some (s.set { s.thread with pc := .idle }) else none
  | .lock => if s.thread.pc = .idle then some s.enterCritical else none
  | .unlock u => if s.thread.pc = .idle then s.exitCritical u else none
  | .setIrq b => if s.thread.pc = .idle then some (s.set { s.thread with irq := b }) else none
  | .switch u =>
    -- `rt_schedule`: called by the thread, or in an interrupt
    if s.nest = 0 ∧ (s.thread.pc = .idle ∨ s.thread.irq = true) then some { s with current := u }
    else none

variable (T) in
/-- The runs, from any scheduler lock nest and interrupt states. -/
def flashSystem : System (FlashCpu T) (FlashLabel T) where
  init s := ∀ t, (s.threads t).pc = .idle
  step := flashStep

/-- **The condition**: a function that calls the ROM is called with the scheduler unlocked; and where
`s_interrupt_level` is saved for a thread it is not changed. -/
def flashOk [Fintype T] (s : FlashCpu T) : FlashLabel T → Bool
  | .call c => decide (c.pairs = 0 ∨ s.nest = 0)
  | .disable => decide (∀ t, (s.threads t).pc = .enable → s.thread.irq = s.level)
  | _ => true

/-- **What is claimed**: a function returns with the scheduler lock nest and the interrupt state it was
entered with, and no other thread runs from `FAL_ENTER_CRITICAL` to the end of the software reset. -/
structure FlashGood (s : FlashCpu T) : Prop where
  nest : s.thread.pc = .ret → s.nest = s.thread.entryNest
  irq : s.thread.pc = .ret → s.thread.irq = s.thread.entryIrq
  alone : ∀ t, (s.threads t).pc = .rom ∨ (s.threads t).pc = .reset → s.current = t

/-! ## No other thread runs -/

/-- A thread that has disabled the interrupts is running, but for the end of `FAL_EXIT_CRITICAL`. -/
structure FlashThread.Masked (th : FlashThread) (running : Prop) : Prop where
  off : th.pc.disabled = true → th.irq = false
  running : th.pc.disabled = true → running ∨ th.pc = .enable

/-- The interrupts stay disabled. -/
def MaskInv (s : FlashCpu T) : Prop := ∀ t, (s.threads t).Masked (t = s.current)

variable {s s' : FlashCpu T} {th : FlashThread} {u : T}

theorem FlashCpu.set_threads (t : T) :
    (s.set th).threads t = if t = s.current then th else s.threads t :=
  Function.update_apply _ _ _ _

/-- **What `rt_exit_critical` does**: the thread changes only where the nest comes to `0`. -/
theorem FlashCpu.exitCritical_spec (h : s.exitCritical u = some s') :
    s' = { s with nest := s.nest - 1, current := u } ∧ (s.nest - 1 = 0 ∨ u = s.current) := by
  unfold FlashCpu.exitCritical at h
  split_ifs at h with hn hu
  · rw [← Option.some.inj h, hn]
    exact ⟨rfl, Or.inl rfl⟩
  · rw [← Option.some.inj h, hu]
    exact ⟨rfl, Or.inr rfl⟩

@[simp]
theorem FlashCpu.set_thread : (s.set th).thread = th := Function.update_self _ _ _

theorem FlashThread.Masked.on {r : Prop} (h : th.pc.disabled = false) : th.Masked r := by
  refine ⟨fun hd => ?_, fun hd => ?_⟩ <;>
  · rw [h] at hd
    exact absurd hd Bool.false_ne_true

theorem FlashThread.Masked.of_off {r : Prop} (h : th.irq = false) (hr : r) : th.Masked r :=
  ⟨fun _ => h, fun _ => Or.inl hr⟩

theorem MaskInv.set (h : MaskInv s) (hth : th.Masked True) : MaskInv (s.set th) := by
  intro t
  rw [FlashCpu.set_threads]
  by_cases ht : t = s.current
  · rw [if_pos ht]
    exact ⟨hth.off, fun _ => Or.inl ht⟩
  · rw [if_neg ht]
    exact h t

/-- Another thread may run when the running thread is not between the macros. -/
theorem MaskInv.move (h : MaskInv s) (hp : s.thread.pc.disabled = true → s.thread.pc = .enable)
    (n : ℕ) (u : T) : MaskInv { s with nest := n, current := u } := by
  intro t
  refine ⟨(h t).off, fun hd => Or.inr ?_⟩
  by_cases ht : t = s.current
  · rw [ht] at hd ⊢
    exact hp hd
  · exact ((h t).running hd).resolve_left ht

theorem MaskInv.exitCritical (h : MaskInv s)
    (hp : s.thread.pc.disabled = true → s.thread.pc = .enable) (hst : s.exitCritical u = some s') :
    MaskInv s' := by
  rw [(FlashCpu.exitCritical_spec hst).1]
  exact h.move hp _ _

/-- **A step keeps the interrupts disabled.** -/
theorem MaskInv.step {a : FlashLabel T} (h : MaskInv s) (hst : flashStep s a = some s') :
    MaskInv s' := by
  have hoff : s.thread.pc.disabled = true → s.thread.irq = false := (h s.current).off
  cases a with
  | call c =>
    obtain ⟨-, ⟨⟩⟩ := Option.ite_none_right_eq_some.mp hst
    refine h.set (.on ?_)
    dsimp only
    split_ifs <;> rfl
  | enter u =>
    obtain ⟨hp, hst⟩ := Option.ite_none_right_eq_some.mp hst
    refine (h.set (.on rfl)).exitCritical (fun hd => ?_) hst
    rw [FlashCpu.set_thread] at hd
    cases hd
  | disable =>
    obtain ⟨-, ⟨⟩⟩ := Option.ite_none_right_eq_some.mp hst
    exact h.set (.of_off rfl trivial)
  | rom =>
    obtain ⟨hp, ⟨⟩⟩ := Option.ite_none_right_eq_some.mp hst
    exact h.set (.of_off (hoff (congrArg FalPc.disabled hp)) trivial)
  | reset =>
    obtain ⟨hp, ⟨⟩⟩ := Option.ite_none_right_eq_some.mp hst
    exact h.set (.of_off (hoff (congrArg FalPc.disabled hp)) trivial)
  | exit u =>
    obtain ⟨hp, hst⟩ := Option.ite_none_right_eq_some.mp hst
    have hth : FlashThread.Masked { s.thread with pc := .enable } True :=
      .of_off (hoff (congrArg FalPc.disabled hp)) trivial
    refine (h.set hth).exitCritical (fun _ => ?_) hst
    rw [FlashCpu.set_thread]
  | enable =>
    obtain ⟨-, ⟨⟩⟩ := Option.ite_none_right_eq_some.mp hst
    refine h.set (.on ?_)
    dsimp only
    split_ifs <;> rfl
  | ret =>
    obtain ⟨-, ⟨⟩⟩ := Option.ite_none_right_eq_some.mp hst
    exact h.set (.on rfl)
  | lock =>
    obtain ⟨-, ⟨⟩⟩ := Option.ite_none_right_eq_some.mp hst
    exact h
  | unlock u =>
    obtain ⟨hp, hst⟩ := Option.ite_none_right_eq_some.mp hst
    refine h.exitCritical (fun hd => ?_) hst
    rw [hp] at hd
    cases hd
  | setIrq b =>
    obtain ⟨hp, ⟨⟩⟩ := Option.ite_none_right_eq_some.mp hst
    refine h.set (.on ?_)
    exact congrArg FalPc.disabled hp
  | switch u =>
    obtain ⟨hp, ⟨⟩⟩ := Option.ite_none_right_eq_some.mp hst
    refine h.move (fun hd => ?_) _ _
    rcases hp.2 with hp | hp
    · rw [hp] at hd
      cases hd
    · rw [hoff hd] at hp
      cases hp

theorem maskInv_reach {ok : FlashCpu T → FlashLabel T → Bool} (hs : (flashSystem T).Reach ok s) :
    MaskInv s :=
  hs.invariant (fun _ h0 t => .on (congrArg FalPc.disabled (h0 t))) fun _ _ _ h _ hst => h.step hst

/-- **No other thread runs** from `FAL_ENTER_CRITICAL` to the end of the software reset, in any run. -/
theorem flash_alone {ok : FlashCpu T → FlashLabel T → Bool} (hs : (flashSystem T).Reach ok s) (t : T)
    (h : (s.threads t).pc = .rom ∨ (s.threads t).pc = .reset) : s.current = t := by
  have hmask := (maskInv_reach hs t).running
  rcases h with h | h
  · rw [h] at hmask
    exact ((hmask rfl).resolve_right nofun).symm
  · rw [h] at hmask
    exact ((hmask rfl).resolve_right nofun).symm

/-! ## The functions return as they were entered -/

/-- What holds of a thread: where it has disabled the interrupts its interrupt state is in
`s_interrupt_level`; a function that is not running was entered with the scheduler unlocked. -/
structure FlashThread.Kept (th : FlashThread) (running : Prop) (nest : ℕ) (level : Bool) : Prop where
  level : th.pc.disabled = true → level = th.entryIrq
  irq : th.pc ≠ .idle → th.pc.disabled = false → th.irq = th.entryIrq
  nest : th.pc ≠ .idle → running → nest = th.entryNest
  away : th.pc ≠ .idle → ¬running → th.entryNest = 0
  inside : th.pc ≠ .idle → th.pc ≠ .ret → th.entryNest = 0

/-- **The invariant.** -/
def FlashInv (s : FlashCpu T) : Prop := ∀ t, (s.threads t).Kept (t = s.current) s.nest s.level

theorem FlashThread.Kept.idle {r : Prop} {n : ℕ} {l : Bool} (h : th.pc = .idle) : th.Kept r n l := by
  have hd : th.pc.disabled = false := congrArg FalPc.disabled h
  refine ⟨fun hd' => ?_, fun hi => absurd h hi, fun hi => absurd h hi, fun hi => absurd h hi,
    fun hi => absurd h hi⟩
  rw [hd] at hd'
  cases hd'

/-- A thread that was entered with the scheduler unlocked, while it is unlocked. -/
theorem FlashThread.Kept.unlocked {r r' : Prop} {n : ℕ} {l : Bool} (h : th.Kept r n l)
    (he : th.pc ≠ .idle → th.entryNest = 0) : th.Kept r' 0 l :=
  ⟨h.level, h.irq, fun hi _ => (he hi).symm, fun hi _ => he hi, h.inside⟩

/-- The threads that are not running. -/
theorem FlashInv.away (h : FlashInv s) {t : T} (ht : t ≠ s.current) (hi : (s.threads t).pc ≠ .idle) :
    (s.threads t).entryNest = 0 :=
  (h t).away hi ht

theorem FlashInv.set {l : Bool} (h : FlashInv s) (hth : th.Kept True s.nest l)
    (hl : ∀ t ≠ s.current, (s.threads t).pc.disabled = true → l = s.level) :
    FlashInv { s.set th with level := l } := by
  intro t
  dsimp only
  rw [FlashCpu.set_threads]
  by_cases ht : t = s.current
  · rw [if_pos ht]
    exact ⟨hth.level, hth.irq, fun hi _ => hth.nest hi trivial, fun _ hn => absurd ht hn, hth.inside⟩
  · rw [if_neg ht]
    have hkept := h t
    refine ⟨fun hd => ?_, hkept.irq, fun _ hr => absurd hr ht, hkept.away, hkept.inside⟩
    rw [hl t ht hd]
    exact hkept.level hd

/-- The scheduler runs any thread, when it is unlocked. -/
theorem FlashInv.move (h : FlashInv s) (hc : s.thread.pc ≠ .idle → s.thread.entryNest = 0) (u : T) :
    FlashInv { s with nest := 0, current := u } := by
  intro t
  refine (h t).unlocked fun hi => ?_
  by_cases ht : t = s.current
  · rw [ht] at hi ⊢
    exact hc hi
  · exact h.away ht hi

/-- Other code changes the nest. -/
theorem FlashInv.nest (h : FlashInv s) (hc : s.thread.pc = .idle) (n : ℕ) :
    FlashInv { s with nest := n } := by
  intro t
  by_cases ht : t = s.current
  · refine .idle ?_
    rw [ht]
    exact hc
  · have hkept := h t
    exact ⟨hkept.level, hkept.irq, fun _ hr => absurd hr ht, hkept.away, hkept.inside⟩

/-- `rt_exit_critical` in a function that was entered with the scheduler unlocked. -/
theorem FlashInv.exitCritical (h : FlashInv s) (hn : s.nest = 0)
    (hc : s.thread.pc ≠ .idle → s.thread.entryNest = 0) (hst : s.exitCritical u = some s') :
    FlashInv s' := by
  have heq := (FlashCpu.exitCritical_spec hst).1
  rw [hn] at heq
  rw [heq]
  exact h.move hc u

/-- A function goes on, with the interrupts as they are. -/
theorem FlashThread.Kept.goto {r : Prop} {n : ℕ} {l : Bool} (h : th.Kept r n l) (hi : th.pc ≠ .idle)
    (hr : th.pc ≠ .ret) {pc : FalPc} (hd : pc.disabled = th.pc.disabled) :
    FlashThread.Kept { th with pc := pc } r n l := by
  refine ⟨fun hd' => h.level ?_, fun _ hd' => h.irq hi ?_, fun _ => h.nest hi, fun _ => h.away hi,
    fun _ _ => h.inside hi hr⟩
  · rw [← hd]
    exact hd'
  · rw [← hd]
    exact hd'

/-- A thread that is behind one of the macros, or at the end of the function. -/
theorem FlashThread.Kept.on {r : Prop} {n : ℕ} {l : Bool} (hd : th.pc.disabled = false)
    (hirq : th.irq = th.entryIrq) (hn : n = th.entryNest) (hz : th.pc ≠ .ret → n = 0) (hr : r) :
    th.Kept r n l := by
  refine ⟨fun hd' => ?_, fun _ _ => hirq, fun _ _ => hn, fun _ hr' => absurd hr hr', fun _ hp => ?_⟩
  · rw [hd] at hd'
    cases hd'
  · rw [← hn]
    exact hz hp

/-- **A step keeps the invariant** when it meets the condition. -/
theorem FlashInv.step [Fintype T] {a : FlashLabel T} (hmask : MaskInv s) (h : FlashInv s)
    (hok : flashOk s a = true) (hst : flashStep s a = some s') : FlashInv s' := by
  have hcur : s.thread.Kept True s.nest s.level := by
    have hkept := h s.current
    exact ⟨hkept.level, hkept.irq, fun hi _ => hkept.nest hi rfl, fun _ hn => absurd trivial hn,
      hkept.inside⟩
  -- inside a function that calls the ROM the scheduler is unlocked
  have hnest (hi : s.thread.pc ≠ .idle) (hr : s.thread.pc ≠ .ret) : s.nest = 0 :=
    (hcur.nest hi trivial).trans (hcur.inside hi hr)
  have hgoto (pc : FalPc) (hi : s.thread.pc ≠ .idle) (hr : s.thread.pc ≠ .ret)
      (hd : pc.disabled = s.thread.pc.disabled) : FlashInv (s.set { s.thread with pc := pc }) :=
    h.set (hcur.goto hi hr hd) fun _ _ _ => rfl
  cases a with
  | call c =>
    obtain ⟨-, ⟨⟩⟩ := Option.ite_none_right_eq_some.mp hst
    refine h.set (.on ?_ rfl rfl (fun hr => ?_) trivial) fun _ _ _ => rfl
    · dsimp only
      split_ifs <;> rfl
    · refine (of_decide_eq_true hok).resolve_left fun hz => hr ?_
      exact if_pos hz
  | enter u =>
    obtain ⟨hp, hst⟩ := Option.ite_none_right_eq_some.mp hst
    have hi : s.thread.pc ≠ .idle := by simp [hp]
    have hr : s.thread.pc ≠ .ret := by simp [hp]
    have hset := hgoto .disable hi hr (congrArg FalPc.disabled hp).symm
    refine hset.exitCritical (hnest hi hr) (fun _ => ?_) hst
    rw [FlashCpu.set_thread]
    exact hcur.inside hi hr
  | disable =>
    obtain ⟨hp, ⟨⟩⟩ := Option.ite_none_right_eq_some.mp hst
    have hi : s.thread.pc ≠ .idle := by simp [hp]
    have hr : s.thread.pc ≠ .ret := by simp [hp]
    refine h.set ⟨fun _ => hcur.irq hi (congrArg FalPc.disabled hp), nofun, fun _ => hcur.nest hi,
      fun _ => hcur.away hi, fun _ _ => hcur.inside hi hr⟩ fun t ht hd => ?_
    exact of_decide_eq_true hok t (((hmask t).running hd).resolve_left ht)
  | rom =>
    obtain ⟨hp, ⟨⟩⟩ := Option.ite_none_right_eq_some.mp hst
    exact hgoto _ (by simp [hp]) (by simp [hp]) (congrArg FalPc.disabled hp).symm
  | reset =>
    obtain ⟨hp, ⟨⟩⟩ := Option.ite_none_right_eq_some.mp hst
    exact hgoto _ (by simp [hp]) (by simp [hp]) (congrArg FalPc.disabled hp).symm
  | exit u =>
    obtain ⟨hp, hst⟩ := Option.ite_none_right_eq_some.mp hst
    have hi : s.thread.pc ≠ .idle := by simp [hp]
    have hr : s.thread.pc ≠ .ret := by simp [hp]
    have hset := hgoto .enable hi hr (congrArg FalPc.disabled hp).symm
    refine hset.exitCritical (hnest hi hr) (fun _ => ?_) hst
    rw [FlashCpu.set_thread]
    exact hcur.inside hi hr
  | enable =>
    obtain ⟨hp, ⟨⟩⟩ := Option.ite_none_right_eq_some.mp hst
    have hi : s.thread.pc ≠ .idle := by simp [hp]
    have hr : s.thread.pc ≠ .ret := by simp [hp]
    refine h.set (.on ?_ (hcur.level (congrArg FalPc.disabled hp)) (hcur.nest hi trivial)
      (fun _ => hnest hi hr) trivial) fun _ _ _ => rfl
    dsimp only
    split_ifs <;> rfl
  | ret =>
    obtain ⟨-, ⟨⟩⟩ := Option.ite_none_right_eq_some.mp hst
    exact h.set (.idle rfl) fun _ _ _ => rfl
  | lock =>
    obtain ⟨hp, ⟨⟩⟩ := Option.ite_none_right_eq_some.mp hst
    exact h.nest hp _
  | unlock u =>
    obtain ⟨hp, hst⟩ := Option.ite_none_right_eq_some.mp hst
    obtain ⟨heq, hn⟩ := FlashCpu.exitCritical_spec hst
    rw [heq]
    rcases hn with hn | hn
    · rw [hn]
      exact h.move (fun hi => absurd hp hi) u
    · rw [hn]
      exact h.nest hp _
  | setIrq b =>
    obtain ⟨hp, ⟨⟩⟩ := Option.ite_none_right_eq_some.mp hst
    exact h.set (.idle hp) fun _ _ _ => rfl
  | switch u =>
    obtain ⟨hp, ⟨⟩⟩ := Option.ite_none_right_eq_some.mp hst
    have hmove := h.move (u := u) fun hi => (hcur.nest hi trivial).symm.trans hp.1
    rw [← hp.1] at hmove
    exact hmove

variable [Fintype T]

theorem flashInv_reach (hs : (flashSystem T).Reach flashOk s) : FlashInv s := by
  have hinv : MaskInv s ∧ FlashInv s := by
    refine hs.invariant (I := fun s => MaskInv s ∧ FlashInv s) (fun s h0 => ?_)
      fun s a s' h hok hst => ?_
    · exact ⟨maskInv_reach (.init h0 : (flashSystem T).Reach flashOk s), fun t => .idle (h0 t)⟩
    · exact ⟨h.1.step hst, h.2.step h.1 hok hst⟩
  exact hinv.2

/-- **Flash operations keep critical sections**, in every run whose steps meet the condition. -/
theorem flash_critical (hs : (flashSystem T).Reach flashOk s) : FlashGood s := by
  have hcur := flashInv_reach hs s.current
  refine ⟨fun hp => ?_, fun hp => ?_, flash_alone hs⟩
  · exact hcur.nest (by simp [show (s.threads s.current).pc = .ret from hp]) rfl
  · exact hcur.irq (by simp [show (s.threads s.current).pc = .ret from hp]) (congrArg FalPc.disabled hp)

end

/-- A thread in other code. -/
def FlashThread.init : FlashThread := ⟨.idle, 0, true, 0, true⟩

/-- Threads in other code, with a scheduler lock nest. -/
def flashStart (T : Type) (nest : ℕ) (t : T) : FlashCpu T := ⟨nest, true, t, fun _ => .init⟩

/-- The function `init`, to `rt_exit_critical` of `FAL_EXIT_CRITICAL`, behind which `u` runs. -/
def flashInitRun {T : Type} (t u : T) : List (FlashLabel T) :=
  [.call .init, .enter t, .disable, .rom, .reset, .exit u]

theorem flash_critical_init : ∃ s : FlashCpu Unit, s.thread.pc = .ret ∧ FlashGood s := by
  obtain ⟨s, hs, hp⟩ := System.exists_reach (flashSystem Unit) flashOk
    (fun s => decide (s.thread.pc = .ret)) (s := flashStart Unit 0 ()) (fun _ => rfl)
    (flashInitRun () () ++ [.enable]) (by decide)
  exact ⟨s, of_decide_eq_true hp, flash_critical hs⟩

/-- The function `init`, called with the scheduler locked, returns with the scheduler unlocked; and where
another thread runs before the end of `FAL_EXIT_CRITICAL` it returns with the interrupts of the other. -/
theorem flash_unlocks :
    (¬ ∀ s, (flashSystem Unit).Reach System.anyStep s → FlashGood s) ∧
      ¬ ∀ s, (flashSystem Bool).Reach System.anyStep s → s.nest = 0 → FlashGood s := by
  refine ⟨fun h => ?_, fun h => ?_⟩
  · obtain ⟨s, hs, hbad⟩ := System.exists_reach (flashSystem Unit) System.anyStep
      (fun s => decide (s.thread.pc = .ret ∧ s.nest ≠ s.thread.entryNest)) (s := flashStart Unit 1 ())
      (fun _ => rfl) (flashInitRun () () ++ [.enable]) (by decide)
    have hbad := of_decide_eq_true hbad
    exact hbad.2 ((h s hs).nest hbad.1)
  · obtain ⟨s, hs, hbad⟩ := System.exists_reach (flashSystem Bool) System.anyStep
      (fun s => decide (s.nest = 0 ∧ s.thread.pc = .ret ∧ s.thread.irq ≠ s.thread.entryIrq))
      (s := flashStart Bool 0 false) (fun _ => rfl)
      (flashInitRun false true ++ .setIrq false :: flashInitRun true false ++ [.enable]) (by decide)
    have hbad := of_decide_eq_true hbad
    exact hbad.2.2 ((h s hs hbad.1).irq hbad.2.1)

end RtThread
