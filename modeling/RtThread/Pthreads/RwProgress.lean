import RtThread.Lib.Counting
import RtThread.Pthreads.Rwlock

/-!
# Who wakes the readers

`pthread_rwlock_unlock` decides by `rw_nwaitwriters` whether it wakes a writer or the readers. A writer that has
timed out is still counted until it owns `rw_mutex` again, and does not wake the readers when it gives up.

* `RwHeld`, `RwWaiting`, `RwMoving`: the holders, the two counters with the two lists, and who goes on when the
  lock is free;
* `RwOk`: the invariant; `rwOk`: the condition, on a writer that gives up;
* **`rwlock_moving`**: the runs; `rwlock_stranded`: a reader that is left behind.
-/

set_option linter.unusedSectionVars false

namespace RtThread

namespace RwPc

/-- The thread owns `rw_mutex`. -/
def owns : RwPc → Bool
  | .test _ => true
  | .wait _ => true
  | .woken _ _ => true
  | .leave _ => true
  | .drop => true
  | .signal => true
  | .signalRelease => true
  | .broadcast => true
  | .broadcastRelease => true
  | .broadcastLast => true
  | _ => false

/-- The thread is counted in `rw_nwaitreaders` or `rw_nwaitwriters`. -/
def counted (m : RwMode) : RwPc → Bool
  | .wait c => decide (c.mode = m)
  | .suspended c _ => decide (c.mode = m)
  | .resumed c _ => decide (c.mode = m)
  | .woken c _ => decide (c.mode = m)
  | _ => false

/-- The thread is on the list of a condition variable. -/
def sleeping (m : RwMode) : RwPc → Bool
  | .suspended c _ => decide (c.mode = m)
  | _ => false

/-- The thread gives up the lock. -/
def unlocking : RwPc → Bool
  | .unlock => true
  | .drop => true
  | _ => false

/-- The thread takes the free lock for writing, or wakes a writer. -/
def going : RwPc → Bool
  | .resumed c timedOut => decide (c.mode = .write) && !timedOut
  | .woken c timedOut => decide (c.mode = .write) && !timedOut
  | .test c => decide (c.mode = .write)
  | .signal => true
  | .signalRelease => true
  | _ => false

/-- The thread takes the free lock for writing, or wakes the readers. -/
def calling : RwPc → Bool
  | .test c => decide (c.mode = .write)
  | .broadcast => true
  | .broadcastRelease => true
  | _ => false

/-- The thread is in one of the functions. -/
def inside : RwPc → Bool
  | .idle => false
  | .returned _ => false
  | _ => true

end RwPc

namespace RwLock

variable {W : Type} [DecidableEq W] (s : RwLock W)

/-- The thread holds the lock. -/
def Holds (w : W) : Prop := w ∈ s.readers ∨ s.writer = some w

/-- **The holders**, and those that give up the lock. -/
structure RwHeld : Prop where
  refcount : s.writer = none ∧ s.refcount = s.readers.length ∨
    (∃ w, s.writer = some w) ∧ s.readers = [] ∧ s.refcount = -1
  unlocking : ∀ w, (s.pc w).unlocking = true → s.Holds w

/-- **The waiting threads.** -/
structure RwWaiting : Prop where
  nwait : ∀ m, Counts (RwPc.counted m) s.pc (s.nwait m)
  list : ∀ m w, w ∈ (s.cond m).suspended ↔ (s.pc w).sleeping m = true
  settled : ∀ m, (s.cond m).Settled

/-- **When the lock is free**, somebody goes on for a writer that sleeps; and for a reader that sleeps there is a
writer that waits, or somebody who wakes it. -/
structure RwMoving : Prop where
  writers : s.refcount = 0 → ∀ w, (s.pc w).sleeping .write = true → ∃ w', (s.pc w').going = true
  readers : s.refcount = 0 → ∀ w, (s.pc w).sleeping .read = true →
    0 < s.nwait .write ∨ ∃ w', (s.pc w').calling = true

/-- The lock is in order. -/
structure RwOk : Prop where
  owner : ∀ w, (s.pc w).owns = true ↔ s.mutex = some w
  held : s.RwHeld
  waiting : s.RwWaiting
  must : ∀ w c, s.pc w = .wait c → s.blocked c.mode = true
  moving : s.RwMoving

variable {s} {s' : RwLock W} {w : W} {p : RwPc}

/-! ## One thread goes on -/

/-- The owner of `rw_mutex` stays. -/
theorem RwOk.owner_keep (h : s.RwOk) (hpc : s'.pc = Function.update s.pc w p) (hm : s'.mutex = s.mutex)
    (hp : p.owns = (s.pc w).owns) (w' : W) : (s'.pc w').owns = true ↔ s'.mutex = some w' := by
  rw [hpc, hm, ← h.owner w']
  by_cases he : w' = w
  · subst he
    rw [Function.update_self, hp]
  · rw [Function.update_of_ne he]

/-- `rw_mutex` is taken. -/
theorem RwOk.owner_take (h : s.RwOk) (hpc : s'.pc = Function.update s.pc w p) (hfree : s.mutex = none)
    (hm : s'.mutex = some w) (hp : p.owns = true) (w' : W) : (s'.pc w').owns = true ↔ s'.mutex = some w' := by
  rw [hpc, hm]
  by_cases he : w' = w
  · subst he
    rw [Function.update_self]
    exact ⟨fun _ => rfl, fun _ => hp⟩
  · rw [Function.update_of_ne he, h.owner w', hfree]
    exact ⟨fun hc => absurd hc.symm (Option.some_ne_none w'), fun hc => absurd (Option.some.inj hc).symm he⟩

/-- `rw_mutex` is given up. -/
theorem RwOk.owner_give (h : s.RwOk) (hpc : s'.pc = Function.update s.pc w p) (hw : (s.pc w).owns = true)
    (hm : s'.mutex = none) (hp : p.owns = false) (w' : W) : (s'.pc w').owns = true ↔ s'.mutex = some w' := by
  rw [hpc, hm]
  have hne : s.mutex = some w := (h.owner w).mp hw
  by_cases he : w' = w
  · subst he
    rw [Function.update_self, hp]
    exact ⟨fun hc => absurd hc Bool.false_ne_true, fun hc => absurd hc.symm (Option.some_ne_none w')⟩
  · rw [Function.update_of_ne he, h.owner w', hne]
    exact ⟨fun hc => absurd (Option.some.inj hc).symm he, fun hc => absurd hc.symm (Option.some_ne_none w')⟩

/-- The holders stay. -/
theorem RwHeld.keep (h : s.RwHeld) (hpc : s'.pc = Function.update s.pc w p) (href : s'.refcount = s.refcount)
    (hr : s'.readers = s.readers) (hwr : s'.writer = s.writer)
    (hp : p.unlocking = true → s.Holds w) : s'.RwHeld := by
  refine ⟨?_, fun w' hw' => ?_⟩
  · rw [href, hr, hwr]
    exact h.refcount
  · show w' ∈ s'.readers ∨ s'.writer = some w'
    rw [hr, hwr]
    rw [hpc] at hw'
    by_cases he : w' = w
    · subst he
      rw [Function.update_self] at hw'
      exact hp hw'
    · rw [Function.update_of_ne he] at hw'
      exact h.unlocking w' hw'

namespace RwWaiting

variable (h : s.RwWaiting)
include h

/-- The lists, when a thread goes on that is on none. -/
theorem list_keep (hpc : s'.pc = Function.update s.pc w p) (hc : ∀ m, (s'.cond m).suspended = (s.cond m).suspended)
    (hp : ∀ m, p.sleeping m = (s.pc w).sleeping m) (m : RwMode) (w' : W) :
    w' ∈ (s'.cond m).suspended ↔ (s'.pc w').sleeping m = true := by
  rw [hc, hpc, h.list m w']
  by_cases he : w' = w
  · subst he
    rw [Function.update_self, hp]
  · rw [Function.update_of_ne he]

/-- A thread goes on. -/
theorem keep (hpc : s'.pc = Function.update s.pc w p) (hn : s'.nwait = s.nwait)
    (hc : ∀ m, (s'.cond m).suspended = (s.cond m).suspended) (hs : ∀ m, (s'.cond m).Settled)
    (hp : ∀ m, p.sleeping m = (s.pc w).sleeping m) (hp' : ∀ m, p.counted m = (s.pc w).counted m) :
    s'.RwWaiting := by
  refine ⟨fun m => ?_, h.list_keep hpc hc hp, hs⟩
  rw [hpc, hn]
  exact (h.nwait m).update_same (hp' m)

/-- A thread is counted. -/
theorem count {c : RwCall} (hpc : s'.pc = Function.update s.pc w (.wait c))
    (hn : s'.nwait = Function.update s.nwait c.mode (s.nwait c.mode + 1)) (hc : s'.cond = s.cond)
    (hw : ∀ m, (s.pc w).counted m = false) (hw' : ∀ m, (s.pc w).sleeping m = false) : s'.RwWaiting := by
  refine ⟨fun m => ?_, h.list_keep hpc (fun m => by rw [hc]) (fun m => (hw' m).symm), fun m => hc ▸ h.settled m⟩
  rw [hpc, hn]
  by_cases he : m = c.mode
  · subst he
    rw [Function.update_self]
    exact (h.nwait c.mode).update_in (hw c.mode) (decide_eq_true rfl)
  · rw [Function.update_of_ne he]
    exact (h.nwait m).update_same ((decide_eq_false (Ne.symm he)).trans (hw m).symm)

/-- A thread is no longer counted. -/
theorem discount {m : RwMode} (hpc : s'.pc = Function.update s.pc w p)
    (hn : s'.nwait = Function.update s.nwait m (s.nwait m - 1)) (hc : s'.cond = s.cond)
    (hw : ∀ m', (s.pc w).counted m' = decide (m = m')) (hw' : ∀ m, (s.pc w).sleeping m = false)
    (hp : ∀ m, p.counted m = false) (hp' : ∀ m, p.sleeping m = false) : s'.RwWaiting := by
  refine ⟨fun m' => ?_, h.list_keep hpc (fun m => by rw [hc]) (fun m => (hp' m).trans (hw' m).symm),
    fun m => hc ▸ h.settled m⟩
  rw [hpc, hn]
  by_cases he : m' = m
  · subst he
    rw [Function.update_self]
    exact (h.nwait m').update_out ((hw m').trans (decide_eq_true rfl)) (hp m')
  · rw [Function.update_of_ne he]
    exact (h.nwait m').update_same ((hp m').trans ((hw m').trans (decide_eq_false (Ne.symm he))).symm)

/-- A thread is suspended. -/
theorem suspend {c : RwCall} {timer : Bool} (hpc : s'.pc = Function.update s.pc w (.suspended c timer))
    (hn : s'.nwait = s.nwait) (hc : s'.cond = Function.update s.cond c.mode ((s.cond c.mode).suspend w))
    (hw : s.pc w = .wait c) (hv : (s.cond c.mode).value = 0) : s'.RwWaiting := by
  have hnot : ∀ m, w ∉ (s.cond m).suspended := fun m hm => by
    have hs := (h.list m w).mp hm
    rw [hw] at hs
    cases hs
  refine ⟨fun m => ?_, fun m w' => ?_, fun m => ?_⟩
  · rw [hpc, hn]
    refine (h.nwait m).update_same ?_
    rw [hw]
    rfl
  · rw [hpc, hc]
    by_cases hm : m = c.mode
    · subst hm
      rw [Function.update_self, CondSem.mem_suspend]
      by_cases he : w' = w
      · subst he
        rw [Function.update_self]
        exact ⟨fun _ => decide_eq_true rfl, fun _ => .inl rfl⟩
      · rw [Function.update_of_ne he, ← h.list c.mode w']
        exact ⟨fun hc => hc.resolve_left he, .inr⟩
    · rw [Function.update_of_ne hm, h.list m w']
      by_cases he : w' = w
      · subst he
        rw [Function.update_self, hw]
        exact ⟨fun hc => absurd hc Bool.false_ne_true, fun hc => absurd (of_decide_eq_true hc).symm hm⟩
      · rw [Function.update_of_ne he]
  · rw [hc]
    by_cases hm : m = c.mode
    · subst hm
      rw [Function.update_self]
      exact (h.settled c.mode).suspend hv (hnot c.mode)
    · rw [Function.update_of_ne hm]
      exact h.settled m

/-- A thread leaves its list. -/
theorem remove {c : RwCall} {timer timedOut : Bool}
    (hpc : s'.pc = Function.update s.pc w (.resumed c timedOut)) (hn : s'.nwait = s.nwait)
    (hc : s'.cond = Function.update s.cond c.mode ((s.cond c.mode).remove w)) (hw : s.pc w = .suspended c timer) :
    s'.RwWaiting := by
  refine ⟨fun m => ?_, fun m w' => ?_, fun m => ?_⟩
  · rw [hpc, hn]
    refine (h.nwait m).update_same ?_
    rw [hw]
    rfl
  · rw [hpc, hc]
    by_cases hm : m = c.mode
    · subst hm
      rw [Function.update_self, (h.settled c.mode).mem_remove]
      by_cases he : w' = w
      · subst he
        rw [Function.update_self]
        exact ⟨fun hc => absurd rfl hc.1, fun hc => absurd hc Bool.false_ne_true⟩
      · rw [Function.update_of_ne he, ← h.list c.mode w']
        exact ⟨fun hc => hc.2, fun hc => ⟨he, hc⟩⟩
    · rw [Function.update_of_ne hm, h.list m w']
      by_cases he : w' = w
      · subst he
        rw [Function.update_self, hw]
        exact ⟨fun hc => absurd (of_decide_eq_true hc).symm hm, fun hc => absurd hc Bool.false_ne_true⟩
      · rw [Function.update_of_ne he]
  · rw [hc]
    by_cases hm : m = c.mode
    · subst hm
      rw [Function.update_self]
      exact (h.settled c.mode).remove
    · rw [Function.update_of_ne hm]
      exact h.settled m

end RwWaiting

/-- A thread that somebody relies on, or another one. -/
theorem exists_update {q : RwPc → Bool}
    (hq : q (s.pc w) = true → q p = true ∨ ∃ w₁, w₁ ≠ w ∧ q (s.pc w₁) = true) :
    (∃ w', q (s.pc w') = true) → ∃ w', q (Function.update s.pc w p w') = true := by
  have hother : ∀ w', w' ≠ w → q (s.pc w') = true → ∃ w', q (Function.update s.pc w p w') = true := by
    intro w' he hw'
    refine ⟨w', ?_⟩
    rw [Function.update_of_ne he]
    exact hw'
  rintro ⟨w', hw'⟩
  by_cases he : w' = w
  · subst he
    rcases hq hw' with hp | ⟨w₁, he, hw₁⟩
    · refine ⟨w', ?_⟩
      rw [Function.update_self]
      exact hp
    · exact hother w₁ he hw₁
  · exact hother w' he hw'

/-- No other thread is at its wait. -/
theorem RwOk.must_keep (h : s.RwOk) (hpc : s'.pc = Function.update s.pc w p) (hp : ∀ c, p ≠ .wait c)
    (hb : s'.refcount = s.refcount ∧ s'.nwait = s.nwait ∨ (s.pc w).owns = true) (w' : W) (c : RwCall)
    (hw' : s'.pc w' = .wait c) : s'.blocked c.mode = true := by
  rw [hpc] at hw'
  by_cases he : w' = w
  · subst he
    rw [Function.update_self] at hw'
    exact absurd hw' (hp c)
  · rw [Function.update_of_ne he] at hw'
    rcases hb with ⟨href, hn⟩ | hw
    · have hblocked : s'.blocked c.mode = s.blocked c.mode := by
        unfold blocked
        rw [href, hn]
      rw [hblocked]
      exact h.must w' c hw'
    · have hone : s.mutex = some w' := (h.owner w').mp (by rw [hw']; rfl)
      exact absurd (Option.some.inj (hone.symm.trans ((h.owner w).mp hw))) he

/-- A thread comes to its wait. -/
theorem RwOk.must_new (h : s.RwOk) {c : RwCall} (hpc : s'.pc = Function.update s.pc w (.wait c))
    (hw : (s.pc w).owns = true) (hb : s'.blocked c.mode = true) (w' : W) (c' : RwCall)
    (hw' : s'.pc w' = .wait c') : s'.blocked c'.mode = true := by
  rw [hpc] at hw'
  by_cases he : w' = w
  · subst he
    rw [Function.update_self] at hw'
    cases hw'
    exact hb
  · rw [Function.update_of_ne he] at hw'
    have hone : s.mutex = some w' := (h.owner w').mp (by rw [hw']; rfl)
    exact absurd (Option.some.inj (hone.symm.trans ((h.owner w).mp hw))) he

namespace RwMoving

/-- The lock is not free. -/
theorem busy (href : s'.refcount ≠ 0) : s'.RwMoving :=
  ⟨fun hc => absurd hc href, fun hc => absurd hc href⟩

variable (h : s.RwMoving)
include h

/-- A thread goes on, and so do those that rely on it. -/
theorem keep (hpc : s'.pc = Function.update s.pc w p) (href : s'.refcount = 0 → s.refcount = 0)
    (hn : s'.nwait = s.nwait) (hs : ∀ m, p.sleeping m = true → (s.pc w).sleeping m = true)
    (hg : (s.pc w).going = true → p.going = true ∨
      ∀ w', (s.pc w').sleeping .write = true → ∃ w₁, w₁ ≠ w ∧ (s.pc w₁).going = true)
    (hc : (s.pc w).calling = true → p.calling = true ∨
      ∀ w', (s.pc w').sleeping .read = true → ∃ w₁, w₁ ≠ w ∧ (s.pc w₁).calling = true) :
    s'.RwMoving := by
  have hsleep : ∀ m w', (s'.pc w').sleeping m = true → (s.pc w').sleeping m = true := by
    intro m w' hw'
    rw [hpc] at hw'
    by_cases he : w' = w
    · subst he
      rw [Function.update_self] at hw'
      exact hs m hw'
    · rw [Function.update_of_ne he] at hw'
      exact hw'
  refine ⟨fun hz w' hw' => ?_, fun hz w' hw' => ?_⟩
  · have hw := hsleep _ w' hw'
    rw [hpc]
    exact exists_update (fun hq => (hg hq).imp_right fun hno => hno w' hw) (h.writers (href hz) w' hw)
  · have hw := hsleep _ w' hw'
    rw [hn, hpc]
    exact (h.readers (href hz) w' hw).imp_right (exists_update fun hq => (hc hq).imp_right fun hno => hno w' hw)

end RwMoving

/-! ## The sections -/

namespace RwOk

variable (h : s.RwOk)
include h

/-- A thread goes on, and nothing else changes. -/
theorem goto (hown : p.owns = (s.pc w).owns) (hunl : p.unlocking = true → s.Holds w)
    (hs : ∀ m, p.sleeping m = (s.pc w).sleeping m) (hc : ∀ m, p.counted m = (s.pc w).counted m)
    (hwait : ∀ c, p ≠ .wait c)
    (hg : (s.pc w).going = true → p.going = true ∨
      ∀ w', (s.pc w').sleeping .write = true → ∃ w₁, w₁ ≠ w ∧ (s.pc w₁).going = true)
    (hcall : (s.pc w).calling = true → p.calling = true ∨
      ∀ w', (s.pc w').sleeping .read = true → ∃ w₁, w₁ ≠ w ∧ (s.pc w₁).calling = true) : (s.goto w p).RwOk :=
  ⟨h.owner_keep rfl rfl hown, h.held.keep rfl rfl rfl rfl hunl,
    h.waiting.keep rfl rfl (fun _ => rfl) h.waiting.settled hs hc, h.must_keep rfl hwait (.inl ⟨rfl, rfl⟩),
    h.moving.keep rfl id rfl (fun m hm => hs m ▸ hm) hg hcall⟩

/-- **`pthread_mutex_lock`.** -/
theorem acquire (hst : s.acquire w p = some s') (hown : p.owns = true) (hunl : p.unlocking = true → s.Holds w)
    (hs : ∀ m, p.sleeping m = (s.pc w).sleeping m) (hc : ∀ m, p.counted m = (s.pc w).counted m)
    (hwait : ∀ c, p ≠ .wait c) (hg : (s.pc w).going = true → p.going = true)
    (hcall : (s.pc w).calling = true → p.calling = true) : s'.RwOk := by
  unfold RwLock.acquire at hst
  by_cases hm : s.mutex = none
  · rw [if_pos hm] at hst
    obtain rfl := Option.some.inj hst
    exact ⟨h.owner_take rfl hm rfl hown, h.held.keep rfl rfl rfl rfl hunl,
      h.waiting.keep rfl rfl (fun _ => rfl) h.waiting.settled hs hc, h.must_keep rfl hwait (.inl ⟨rfl, rfl⟩),
      h.moving.keep rfl id rfl (fun m hm => hs m ▸ hm) (fun hq => .inl (hg hq))
        fun hq => .inl (hcall hq)⟩
  · rw [if_neg hm] at hst
    cases hst

/-- The lock is free for the call. -/
theorem grant {m : RwMode} (hb : s.blocked m = false) : (s.grant w m).RwHeld ∧ (s.grant w m).refcount ≠ 0 := by
  cases m with
  | read =>
    have hfree : ¬ s.refcount < 0 := of_decide_eq_false (Bool.or_eq_false_iff.mp hb).1
    rcases h.held.refcount with ⟨hw, href⟩ | ⟨-, -, href⟩
    · refine ⟨⟨.inl ⟨hw, ?_⟩, fun w' hw' => (h.held.unlocking w' hw').imp_left (List.mem_cons_of_mem w)⟩, ?_⟩
      · show s.refcount + 1 = ((w :: s.readers).length : ℤ)
        rw [List.length_cons, href, Nat.cast_succ]
      · show s.refcount + 1 ≠ 0
        omega
    · omega
  | write =>
    have hfree : s.refcount = 0 := not_not.mp (of_decide_eq_false hb)
    rcases h.held.refcount with ⟨hw, href⟩ | ⟨-, -, href⟩
    · have hnil : s.readers = [] := List.length_eq_zero_iff.mp (by omega)
      refine ⟨⟨.inr ⟨⟨w, rfl⟩, hnil, rfl⟩, fun w' hw' => ?_⟩, ?_⟩
      · rcases h.held.unlocking w' hw' with hc | hc
        · rw [hnil] at hc
          exact absurd hc List.not_mem_nil
        · rw [hw] at hc
          cases hc
      · show (-1 : ℤ) ≠ 0
        omega
    · omega

/-- **The test of the loop.** -/
theorem test {c : RwCall} (hpc : s.pc w = .test c) : (s.test w c).RwOk := by
  have hown : (s.pc w).owns = true := by rw [hpc]; rfl
  have hsleep : ∀ m, (s.pc w).sleeping m = false := fun m => by rw [hpc]; rfl
  have hcount : ∀ m, (s.pc w).counted m = false := fun m => by rw [hpc]; rfl
  unfold RwLock.test
  by_cases hb : s.blocked c.mode = true
  · rw [if_pos hb]
    -- a writer that must wait finds the lock in use, and a reader is no one's hope
    have hmoving : ∀ {s' : RwLock W} {p : RwPc}, s'.pc = Function.update s.pc w p → s'.refcount = s.refcount →
        (∀ m, p.sleeping m = false) → (c.mode = .read → s'.nwait .write = s.nwait .write) → s'.RwMoving := by
      intro s' p hpc' href hs hn
      cases hm : c.mode with
      | write =>
        rw [hm] at hb
        refine .busy ?_
        rw [href]
        exact of_decide_eq_true hb
      | read =>
        have hgo : (s.pc w).going = false := by rw [hpc]; exact decide_eq_false (by rw [hm]; nofun)
        have hca : (s.pc w).calling = false := by rw [hpc]; exact decide_eq_false (by rw [hm]; nofun)
        have hk : RwMoving { s' with nwait := s.nwait } := h.moving.keep hpc' (fun hz => href ▸ hz) rfl
          (fun m hm => absurd ((hs m).symm.trans hm) Bool.false_ne_true)
          (fun hc => absurd (hgo.symm.trans hc) Bool.false_ne_true)
          (fun hc => absurd (hca.symm.trans hc) Bool.false_ne_true)
        refine ⟨hk.writers, fun hz w' hw' => ?_⟩
        rw [hn hm]
        exact hk.readers hz w' hw'
    by_cases ht : c.form = .tryOnce
    · rw [if_pos ht]
      exact ⟨h.owner_keep rfl rfl hown.symm, h.held.keep rfl rfl rfl rfl nofun,
        h.waiting.keep rfl rfl (fun _ => rfl) h.waiting.settled (fun m => (hsleep m).symm)
          (fun m => (hcount m).symm), h.must_keep rfl nofun (.inr hown),
        hmoving rfl rfl (fun _ => rfl) fun _ => rfl⟩
    · rw [if_neg ht]
      refine ⟨h.owner_keep rfl rfl hown.symm, h.held.keep rfl rfl rfl rfl nofun,
        h.waiting.count rfl rfl rfl hcount hsleep, h.must_new rfl hown ?_,
        hmoving rfl rfl (fun _ => rfl) fun hm => Function.update_of_ne (by rw [hm]; nofun) ..⟩
      cases hm : c.mode with
      | write =>
        rw [hm] at hb
        exact hb
      | read =>
        rw [hm] at hb
        show (decide (s.refcount < 0) || decide (0 < Function.update s.nwait .read (s.nwait .read + 1) .write)) =
          true
        rw [Function.update_of_ne (show RwMode.write ≠ .read from nofun)]
        exact hb
  · rw [if_neg hb]
    obtain ⟨hheld, href⟩ := h.grant (w := w) ((Bool.not_eq_true _).mp hb)
    have hk : (s.grant w c.mode).mutex = s.mutex ∧ (s.grant w c.mode).nwait = s.nwait ∧
        (s.grant w c.mode).cond = s.cond ∧ (s.grant w c.mode).pc = s.pc := by
      cases c.mode <;> exact ⟨rfl, rfl, rfl, rfl⟩
    obtain ⟨hmutex, hnwait, hcond, hpcs⟩ := hk
    have hpc' : ((s.grant w c.mode).goto w (.leave .ok)).pc = Function.update s.pc w (.leave .ok) := by
      show Function.update (s.grant w c.mode).pc w (.leave .ok) = _
      rw [hpcs]
    exact ⟨h.owner_keep hpc' hmutex hown.symm, hheld.keep rfl rfl rfl rfl nofun,
      h.waiting.keep hpc' hnwait (fun m => congrArg _ (congrFun hcond m)) (fun m => hcond ▸ h.waiting.settled m)
        (fun m => (hsleep m).symm) (fun m => (hcount m).symm), h.must_keep hpc' nofun (.inr hown), .busy href⟩

/-- **`pthread_cond_timedwait`** up to its `rt_schedule`. -/
theorem wait {c : RwCall} {ticks : ℕ} (hpc : s.pc w = .wait c) : (s.wait w c ticks).RwOk := by
  have hown : (s.pc w).owns = true := by rw [hpc]; rfl
  have hgo : (s.pc w).going = true → False := by rw [hpc]; nofun
  have hca : (s.pc w).calling = true → False := by rw [hpc]; nofun
  have hmust := h.must w c hpc
  unfold RwLock.wait
  by_cases hv : 0 < (s.cond c.mode).value
  · rw [if_pos hv]
    have hs : ∀ m, (Function.update s.cond c.mode { s.cond c.mode with value := (s.cond c.mode).value - 1 } m).suspended =
        (s.cond m).suspended := fun m => by
      by_cases hm : m = c.mode
      · subst hm
        rw [Function.update_self]
      · rw [Function.update_of_ne hm]
    have hset : ∀ m, (Function.update s.cond c.mode { s.cond c.mode with value := (s.cond c.mode).value - 1 } m).Settled :=
      fun m => by
        by_cases hm : m = c.mode
        · subst hm
          rw [Function.update_self]
          exact ⟨fun _ => (h.waiting.settled c.mode).value hv, (h.waiting.settled c.mode).nodup⟩
        · rw [Function.update_of_ne hm]
          exact h.waiting.settled m
    exact ⟨h.owner_keep rfl rfl hown.symm, h.held.keep rfl rfl rfl rfl nofun,
      h.waiting.keep rfl rfl hs hset (fun m => by rw [hpc]; rfl) (fun m => by rw [hpc]; rfl),
      h.must_keep rfl nofun (.inl ⟨rfl, rfl⟩),
      h.moving.keep rfl id rfl nofun (fun hc => (hgo hc).elim) fun hc => (hca hc).elim⟩
  · rw [if_neg hv]
    by_cases ht : c.form = .timed ∧ ticks = 0
    · rw [if_pos ht]
      exact h.goto hown.symm nofun (fun m => by rw [hpc]; rfl) (fun m => by rw [hpc]; rfl) nofun
        (fun hc => (hgo hc).elim) fun hc => (hca hc).elim
    · rw [if_neg ht]
      refine ⟨h.owner_give rfl hown rfl rfl, h.held.keep rfl rfl rfl rfl nofun,
        h.waiting.suspend rfl rfl rfl hpc (Nat.eq_zero_of_not_pos hv), h.must_keep rfl nofun (.inl ⟨rfl, rfl⟩), ?_⟩
      -- a writer is suspended on a lock in use only, a reader behind a writer that waits
      cases hm : c.mode with
      | write =>
        rw [hm] at hmust
        exact .busy (of_decide_eq_true hmust)
      | read =>
        rw [hm] at hmust
        refine ⟨fun hz w' hw' => ?_, fun hz w' hw' => .inl ?_⟩
        · change (Function.update s.pc w _ w').sleeping .write = true at hw'
          have he : w' ≠ w := by
            rintro rfl
            rw [Function.update_self] at hw'
            have hm' : c.mode = .write := of_decide_eq_true hw'
            rw [hm] at hm'
            cases hm'
          rw [Function.update_of_ne he] at hw'
          exact exists_update (fun hc => (hgo hc).elim) (h.moving.writers hz w' hw')
        · rcases Bool.or_eq_true_iff.mp hmust with hneg | hpos
          · have hneg : s.refcount < 0 := of_decide_eq_true hneg
            change s.refcount = 0 at hz
            omega
          · exact of_decide_eq_true hpos

/-- **Behind the wait.** -/
theorem woken {c : RwCall} {timedOut : Bool} (hpc : s.pc w = .woken c timedOut)
    (hok : c.mode = .write → timedOut = true → s.refcount = 0 → s.nwait .write ≤ 1 → (s.cond .read).suspended = []) :
    (s.woken w c timedOut).RwOk := by
  have hown : (s.pc w).owns = true := by rw [hpc]; rfl
  have hsleep : ∀ m, (s.pc w).sleeping m = false := fun m => by rw [hpc]; rfl
  have hp : ∀ p : RwPc, p = (if timedOut then .leave .timedOut else .test c) → p.owns = true ∧ p.unlocking = false ∧
      (∀ m, p.sleeping m = false) ∧ (∀ m, p.counted m = false) ∧ ∀ c, p ≠ .wait c := by
    intro p hp
    rw [hp]
    cases timedOut
    · exact ⟨rfl, rfl, fun _ => rfl, fun _ => rfl, nofun⟩
    · exact ⟨rfl, rfl, fun _ => rfl, fun _ => rfl, nofun⟩
  obtain ⟨hp1, hp2, hp3, hp4, hp5⟩ := hp _ rfl
  have hasleep : ∀ m w', (Function.update s.pc w (if timedOut then .leave .timedOut else .test c) w').sleeping m = true →
      (s.pc w').sleeping m = true := by
    intro m w' hw'
    by_cases he : w' = w
    · subst he
      rw [Function.update_self, hp3] at hw'
      cases hw'
    · rw [Function.update_of_ne he] at hw'
      exact hw'
  refine ⟨h.owner_keep rfl rfl (hp1.trans hown.symm),
    h.held.keep rfl rfl rfl rfl fun hc => absurd (hp2.symm.trans hc) Bool.false_ne_true,
    h.waiting.discount rfl rfl rfl (fun m => by rw [hpc]; rfl) hsleep hp4 hp3,
    h.must_keep rfl hp5 (.inr hown), fun hz w' hw' => ?_, fun hz w' hw' => ?_⟩
  · refine exists_update (fun hc => ?_) (h.moving.writers hz w' (hasleep _ w' hw'))
    rw [hpc] at hc
    obtain ⟨hm, ht⟩ := Bool.and_eq_true_iff.mp hc
    rw [Bool.not_eq_true'] at ht
    rw [ht]
    exact .inl hm
  · show 0 < Function.update s.nwait c.mode (s.nwait c.mode - 1) .write ∨ _
    cases hm : c.mode with
    | read =>
      rw [Function.update_of_ne (show RwMode.write ≠ .read from nofun)]
      exact (h.moving.readers hz w' (hasleep _ w' hw')).imp_right
        (exists_update fun hc => by rw [hpc] at hc; exact absurd hc Bool.false_ne_true)
    | write =>
      rw [Function.update_self]
      cases timedOut with
      | false =>
        refine .inr ⟨w, ?_⟩
        show (Function.update s.pc w _ w).calling = true
        rw [Function.update_self]
        exact decide_eq_true hm
      | true =>
        left
        by_contra hnot
        have hnil := hok hm rfl hz (by omega)
        have hmem := (h.waiting.list .read w').mpr (hasleep _ w' hw')
        rw [hnil] at hmem
        exact absurd hmem List.not_mem_nil

/-- `pthread_mutex_unlock`. -/
theorem leave {result : RwResult} (hpc : s.pc w = .leave result) :
    RwOk { s.goto w (.returned result) with mutex := none } :=
  ⟨h.owner_give rfl (by rw [hpc]; rfl) rfl rfl, h.held.keep rfl rfl rfl rfl nofun,
    h.waiting.keep rfl rfl (fun _ => rfl) h.waiting.settled (fun m => by rw [hpc]; rfl) (fun m => by rw [hpc]; rfl),
    h.must_keep rfl nofun (.inl ⟨rfl, rfl⟩),
    h.moving.keep rfl id rfl nofun (fun hc => by rw [hpc] at hc; cases hc) (fun hc => by rw [hpc] at hc; cases hc)⟩

/-- **A thread is resumed**, by a release or by its timer. -/
theorem resume {c : RwCall} {timer timedOut : Bool} (hpc : s.pc w = .suspended c timer) :
    RwOk { s.goto w (.resumed c timedOut) with
      cond := Function.update s.cond c.mode ((s.cond c.mode).remove w) } :=
  ⟨h.owner_keep rfl rfl (by rw [hpc]; rfl), h.held.keep rfl rfl rfl rfl nofun, h.waiting.remove rfl rfl rfl hpc,
    h.must_keep rfl nofun (.inl ⟨rfl, rfl⟩),
    h.moving.keep rfl id rfl nofun (fun hc => by rw [hpc] at hc; cases hc) (fun hc => by rw [hpc] at hc; cases hc)⟩

/-- The semaphore changes, but not its list. -/
theorem value {m : RwMode} {c : CondSem W} (hs : c.suspended = (s.cond m).suspended) (hset : c.Settled) :
    RwOk { s with cond := Function.update s.cond m c } := by
  refine ⟨h.owner, ⟨h.held.refcount, h.held.unlocking⟩, ⟨h.waiting.nwait, fun m' w' => ?_, fun m' => ?_⟩, h.must,
    ⟨h.moving.writers, h.moving.readers⟩⟩
  · show w' ∈ (Function.update s.cond m c m').suspended ↔ _
    rw [← h.waiting.list m' w']
    by_cases he : m' = m
    · subst he
      rw [Function.update_self, hs]
    · rw [Function.update_of_ne he]
  · show (Function.update s.cond m c m').Settled
    by_cases he : m' = m
    · subst he
      rw [Function.update_self]
      exact hset
    · rw [Function.update_of_ne he]
      exact h.waiting.settled m'

/-- **`rt_sem_release`** on a condition variable: with a thread on the list, a thread has been resumed. -/
theorem release (m : RwMode) : (s.release m).RwOk ∧ (s.release m).refcount = s.refcount ∧
    ((s.cond m).suspended = [] ∧ (s.release m).pc = s.pc ∨
      ∃ w c timer, s.pc w = .suspended c timer ∧ c.mode = m ∧
        (s.release m).pc = Function.update s.pc w (.resumed c false)) := by
  obtain ⟨l, hl⟩ : ∃ l, (s.cond m).suspended = l := ⟨_, rfl⟩
  cases l with
  | nil =>
    have heq : s.release m = { s with cond := Function.update s.cond m (s.cond m).raise } := by
      unfold RwLock.release
      rw [hl]
    rw [heq]
    exact ⟨h.value CondSem.suspended_raise (.raise hl), rfl, .inl ⟨hl, rfl⟩⟩
  | cons w l =>
    have hw := (h.waiting.list m w).mp (hl ▸ List.mem_cons_self)
    obtain ⟨c, timer, hpc, hm⟩ : ∃ c timer, s.pc w = .suspended c timer ∧ c.mode = m := by
      cases hpc : s.pc w <;> rw [hpc] at hw
      case suspended c timer => exact ⟨c, timer, rfl, of_decide_eq_true hw⟩
      all_goals cases hw
    subst hm
    have heq : s.release c.mode = { s.goto w (.resumed c false) with
        cond := Function.update s.cond c.mode ((s.cond c.mode).remove w) } := by
      unfold RwLock.release
      rw [hl]
      dsimp only
      rw [hpc, CondSem.remove_head hl]
    rw [heq]
    exact ⟨h.resume hpc, rfl, .inr ⟨w, c, timer, hpc, rfl, rfl⟩⟩

/-- **The holder gives up the lock.** -/
theorem dropped (hpc : s.pc w = .drop) : ∃ s₁ : RwLock W, s.drop w = s₁.goto w
      (if 0 < s.nwait .write then if s₁.refcount = 0 then .signal else .leave .ok
      else if 0 < s.nwait .read then .broadcast
      else .leave .ok) ∧
    s₁.mutex = s.mutex ∧ s₁.nwait = s.nwait ∧ s₁.cond = s.cond ∧ s₁.pc = s.pc ∧
    (s₁.writer = none ∧ s₁.refcount = s₁.readers.length ∨
      (∃ w, s₁.writer = some w) ∧ s₁.readers = [] ∧ s₁.refcount = -1) ∧
    ∀ w', w' ≠ w → s.Holds w' → s₁.Holds w' := by
  have hholds : s.Holds w := h.held.unlocking w (by rw [hpc]; rfl)
  rcases h.held.refcount with ⟨hwr, href⟩ | ⟨⟨w₁, hwr⟩, hnil, href⟩
  · have hmem : w ∈ s.readers := hholds.resolve_right fun hc => by
      rw [hwr] at hc
      cases hc
    have hlen := List.length_pos_of_mem hmem
    have hpos : 0 < s.refcount := by omega
    refine ⟨{ s with refcount := s.refcount - 1, readers := s.readers.erase w }, ?_, rfl, rfl, rfl, rfl,
      .inl ⟨hwr, ?_⟩, fun w' he hw' => ?_⟩
    · unfold drop
      rw [if_pos hpos]
    · show s.refcount - 1 = ((s.readers.erase w).length : ℤ)
      rw [List.length_erase_of_mem hmem]
      omega
    · exact .inl ((List.mem_erase_of_ne he).mpr (hw'.resolve_right fun hc => by
        rw [hwr] at hc
        cases hc))
  · refine ⟨{ s with refcount := 0, writer := none }, ?_, rfl, rfl, rfl, rfl, .inl ⟨rfl, ?_⟩, fun w' he hw' => ?_⟩
    · unfold drop
      rw [if_neg (by omega), if_pos href]
    · show (0 : ℤ) = (s.readers.length : ℤ)
      rw [hnil]
      rfl
    · have hone : ∀ {v : W}, s.Holds v → s.writer = some v := fun hv => hv.resolve_left fun hc => by
        rw [hnil] at hc
        exact absurd hc List.not_mem_nil
      exact absurd (Option.some.inj ((hone hw').symm.trans (hone hholds))) he

/-- **`pthread_rwlock_unlock`** behind its `pthread_mutex_lock`. -/
theorem drop (hpc : s.pc w = .drop) : (s.drop w).RwOk := by
  have hown : (s.pc w).owns = true := by rw [hpc]; rfl
  obtain ⟨s₁, heq, hmutex, hnwait, hcond, hpcs, hheld, hholds⟩ := h.dropped hpc
  rw [heq]
  have hp : ∀ p : RwPc, p = (if 0 < s.nwait .write then if s₁.refcount = 0 then .signal else .leave .ok
      else if 0 < s.nwait .read then .broadcast
      else .leave .ok) → p.owns = true ∧ p.unlocking = false ∧ (∀ m, p.sleeping m = false) ∧
        (∀ m, p.counted m = false) ∧ ∀ c, p ≠ .wait c := by
    intro p hp
    split_ifs at hp <;> rw [hp] <;> exact ⟨rfl, rfl, fun _ => rfl, fun _ => rfl, nofun⟩
  generalize hgen : (if 0 < s.nwait .write then if s₁.refcount = 0 then RwPc.signal else .leave .ok
      else if 0 < s.nwait .read then .broadcast
      else .leave .ok) = p at hp ⊢
  obtain ⟨hp1, hp2, hp3, hp4, hp5⟩ := hp p rfl
  have hpc' : (s₁.goto w p).pc = Function.update s.pc w p := by
    show Function.update s₁.pc w p = _
    rw [hpcs]
  have hasleep : ∀ m w', ((s₁.goto w p).pc w').sleeping m = true → 0 < s.nwait m := by
    intro m w' hw'
    rw [hpc'] at hw'
    by_cases he : w' = w
    · subst he
      rw [Function.update_self, hp3] at hw'
      cases hw'
    · rw [Function.update_of_ne he] at hw'
      refine (h.waiting.nwait m).pos (i := w') ?_
      cases hq : s.pc w' <;> rw [hq] at hw'
      case suspended => exact hw'
      all_goals cases hw'
  refine ⟨h.owner_keep hpc' hmutex (hp1.trans hown.symm), ⟨hheld, fun w' hw' => ?_⟩,
    h.waiting.keep hpc' hnwait (fun m => congrArg _ (congrFun hcond m)) (fun m => hcond ▸ h.waiting.settled m)
      (fun m => by rw [hp3, hpc]; rfl) (fun m => by rw [hp4, hpc]; rfl),
    h.must_keep hpc' hp5 (.inr hown), fun hz w' hw' => ⟨w, ?_⟩, fun hz w' hw' => ?_⟩
  · rw [hpc'] at hw'
    by_cases he : w' = w
    · subst he
      rw [Function.update_self, hp2] at hw'
      cases hw'
    · rw [Function.update_of_ne he] at hw'
      exact hholds w' he (h.held.unlocking w' hw')
  · have hz : s₁.refcount = 0 := hz
    rw [if_pos (hasleep _ w' hw'), if_pos hz] at hgen
    rw [hpc', Function.update_self, ← hgen]
    rfl
  · by_cases hn : 0 < s.nwait .write
    · left
      show 0 < s₁.nwait .write
      rw [hnwait]
      exact hn
    · rw [if_neg hn, if_pos (hasleep _ w' hw')] at hgen
      refine .inr ⟨w, ?_⟩
      rw [hpc', Function.update_self, ← hgen]
      rfl

/-- No thread sleeps on an empty list. -/
theorem awake {m : RwMode} (hnil : (s.cond m).suspended = []) (w' : W) : ¬ (s.pc w').sleeping m = true := by
  intro hw'
  have hmem := (h.waiting.list m w').mpr hw'
  rw [hnil] at hmem
  exact absurd hmem List.not_mem_nil

/-- The test of `pthread_cond_signal`. -/
theorem signal (hpc : s.pc w = .signal) : (s.signal w).RwOk := by
  have hcall : (s.pc w).calling = true → False := by rw [hpc]; nofun
  unfold RwLock.signal
  by_cases hnil : (s.cond .write).suspended = []
  · rw [if_pos hnil]
    exact h.goto (by rw [hpc]; rfl) nofun (fun m => by rw [hpc]; rfl) (fun m => by rw [hpc]; rfl) nofun
      (fun _ => .inr fun w' hw' => absurd hw' (h.awake hnil w')) fun hc => (hcall hc).elim
  · rw [if_neg hnil]
    exact h.goto (by rw [hpc]; rfl) nofun (fun m => by rw [hpc]; rfl) (fun m => by rw [hpc]; rfl) nofun
      (fun _ => .inl rfl) fun hc => (hcall hc).elim

/-- The owner of `rw_mutex` behind its `rt_sem_release`. -/
theorem released {m : RwMode} (hown : (s.pc w).owns = true) : (s.release m).pc w = s.pc w ∧
    ((∀ w', ¬ ((s.release m).pc w').sleeping m = true) ∨
      ∃ w₁ c, w₁ ≠ w ∧ c.mode = m ∧ (s.release m).pc w₁ = .resumed c false) := by
  obtain ⟨-, -, ⟨hnil, hpcs⟩ | ⟨w₁, c, timer, hpc₁, hm, hpcs⟩⟩ := h.release m
  · rw [hpcs]
    exact ⟨rfl, .inl (h.awake hnil)⟩
  · have hne : w₁ ≠ w := by
      rintro rfl
      rw [hpc₁] at hown
      cases hown
    rw [hpcs, Function.update_of_ne hne.symm]
    refine ⟨rfl, .inr ⟨w₁, c, hne, hm, ?_⟩⟩
    rw [Function.update_self]

/-- **`pthread_cond_signal`.** -/
theorem signalRelease (hpc : s.pc w = .signalRelease) : ((s.release .write).goto w (.leave .ok)).RwOk := by
  obtain ⟨hself, hcase⟩ := h.released (w := w) (m := .write) (by rw [hpc]; rfl)
  rw [hpc] at hself
  refine (h.release .write).1.goto (by rw [hself]; rfl) nofun (fun m => by rw [hself]; rfl)
    (fun m => by rw [hself]; rfl) nofun (fun _ => .inr fun w' hw' => ?_) fun hc => by rw [hself] at hc; cases hc
  rcases hcase with hno | ⟨w₁, c, hne, hm, hw₁⟩
  · exact absurd hw' (hno w')
  · refine ⟨w₁, hne, ?_⟩
    rw [hw₁]
    exact Bool.and_eq_true_iff.mpr ⟨decide_eq_true hm, rfl⟩

/-- **`pthread_cond_broadcast`**: the value is taken when no reader is left on the list. -/
theorem broadcast (hpc : s.pc w = .broadcast) : (s.broadcast w).RwOk := by
  have hgo : (s.pc w).going = true → False := by rw [hpc]; nofun
  unfold RwLock.broadcast
  obtain ⟨o, ho⟩ : ∃ o, (s.cond .read).trytake = o := ⟨_, rfl⟩
  rw [ho]
  cases o with
  | none =>
    exact h.goto (by rw [hpc]; rfl) nofun (fun m => by rw [hpc]; rfl) (fun m => by rw [hpc]; rfl) nofun
      (fun hc => (hgo hc).elim) fun _ => .inl rfl
  | some c =>
    have hv := h.value (CondSem.suspended_trytake ho).1 ((h.waiting.settled .read).trytake ho).1
    have hnil : (s.cond .read).suspended = [] :=
      (CondSem.suspended_trytake ho).1.symm.trans ((h.waiting.settled .read).trytake ho).2
    exact hv.goto (by rw [hpc]; rfl) nofun (fun m => by rw [hpc]; rfl) (fun m => by rw [hpc]; rfl) nofun
      (fun hc => (hgo hc).elim) fun _ => .inr fun w' hw' => absurd hw' (h.awake hnil w')

/-- A release of the broadcast. -/
theorem broadcastRelease (hpc : s.pc w = .broadcastRelease ∧ p = .broadcast ∨
    s.pc w = .broadcastLast ∧ p = .leave .ok) : ((s.release .read).goto w p).RwOk := by
  have hown : (s.pc w).owns = true := by rcases hpc with ⟨hpc, -⟩ | ⟨hpc, -⟩ <;> rw [hpc] <;> rfl
  have hself := (h.released (m := .read) hown).1
  rcases hpc with ⟨hpc, rfl⟩ | ⟨hpc, rfl⟩ <;> rw [hpc] at hself
  all_goals
    refine (h.release .read).1.goto (by rw [hself]; rfl) nofun (fun m => by rw [hself]; rfl)
      (fun m => by rw [hself]; rfl) nofun (fun hc => by rw [hself] at hc; cases hc) fun hc => ?_
  · exact .inl rfl
  · rw [hself] at hc
    cases hc

end RwOk

/-- The condition: a writer that gives up a wait for the free lock, as the last writer that is counted, leaves no
reader on the list. -/
def rwOk (s : RwLock W) : RwLabel W → Bool
  | .go w _ =>
    match s.pc w with
    | .woken c true =>
      decide (c.mode = .read) || decide (s.refcount ≠ 0) || decide (1 < s.nwait .write) ||
        (s.cond .read).suspended.isEmpty
    | _ => true
  | _ => true

namespace RwOk

variable (h : s.RwOk)
include h

/-- **A section of a thread.** -/
theorem step {ticks : ℕ} (hok : s.rwOk (.go w ticks) = true) (hst : s.step w ticks = some s') : s'.RwOk := by
  unfold RwLock.step at hst
  unfold rwOk at hok
  dsimp only at hok
  cases hpc : s.pc w <;> rw [hpc] at hst hok
  case lock c =>
    exact h.acquire hst rfl nofun (fun m => by rw [hpc]; rfl) (fun m => by rw [hpc]; rfl) nofun
      (fun hc => by rw [hpc] at hc; cases hc) fun hc => by rw [hpc] at hc; cases hc
  case test c =>
    obtain rfl := Option.some.inj hst
    exact h.test hpc
  case wait c =>
    obtain rfl := Option.some.inj hst
    exact h.wait hpc
  case resumed c timedOut =>
    exact h.acquire hst rfl nofun (fun m => by rw [hpc]; rfl) (fun m => by rw [hpc]; rfl) nofun
      (fun hc => by rw [hpc] at hc; exact hc) fun hc => by rw [hpc] at hc; cases hc
  case woken c timedOut =>
    obtain rfl := Option.some.inj hst
    refine h.woken hpc fun hm ht href hn => ?_
    subst ht
    dsimp only at hok
    rw [hm, href, decide_eq_false (by nofun), decide_eq_false (not_not.mpr rfl),
      decide_eq_false (Nat.not_lt.mpr hn), Bool.false_or, Bool.false_or, Bool.false_or] at hok
    exact List.isEmpty_iff.mp hok
  case leave result =>
    obtain rfl := Option.some.inj hst
    exact h.leave hpc
  case unlock =>
    exact h.acquire hst rfl (fun _ => h.held.unlocking w (by rw [hpc]; rfl)) (fun m => by rw [hpc]; rfl)
      (fun m => by rw [hpc]; rfl) nofun (fun hc => by rw [hpc] at hc; cases hc) fun hc => by rw [hpc] at hc; cases hc
  case drop =>
    obtain rfl := Option.some.inj hst
    exact h.drop hpc
  case signal =>
    obtain rfl := Option.some.inj hst
    exact h.signal hpc
  case signalRelease =>
    obtain rfl := Option.some.inj hst
    exact h.signalRelease hpc
  case broadcast =>
    obtain rfl := Option.some.inj hst
    exact h.broadcast hpc
  case broadcastRelease =>
    obtain rfl := Option.some.inj hst
    exact h.broadcastRelease (.inl ⟨hpc, rfl⟩)
  case broadcastLast =>
    obtain rfl := Option.some.inj hst
    exact h.broadcastRelease (.inr ⟨hpc, rfl⟩)
  all_goals cases hst

/-- A thread that is outside of the functions. -/
theorem enter (hout : s.outside w = true) (hown : p.owns = false) (hunl : p.unlocking = true → s.Holds w)
    (hs : ∀ m, p.sleeping m = false) (hc : ∀ m, p.counted m = false) (hwait : ∀ c, p ≠ .wait c) :
    (s.goto w p).RwOk := by
  unfold outside at hout
  cases hpc : s.pc w <;> rw [hpc] at hout
  case idle | returned =>
    exact h.goto (by rw [hpc, hown]; rfl) hunl (fun m => by rw [hpc, hs]; rfl) (fun m => by rw [hpc, hc]; rfl) hwait
      (fun hg => by rw [hpc] at hg; cases hg) fun hg => by rw [hpc] at hg; cases hg
  all_goals cases hout

/-- **One step.** -/
theorem next {a : RwLabel W} (hok : s.rwOk a = true) (hst : rwStep s a = some s') : s'.RwOk := by
  cases a with
  | call w c =>
    change (if s.outside w then some (s.goto w (.lock c)) else none) = some s' at hst
    by_cases hout : s.outside w = true
    · rw [if_pos hout] at hst
      obtain rfl := Option.some.inj hst
      exact h.enter hout rfl nofun (fun _ => rfl) (fun _ => rfl) nofun
    · rw [if_neg hout] at hst
      cases hst
  | unlock w =>
    change (if (s.outside w && (decide (w ∈ s.readers) || decide (s.writer = some w))) = true then
      some (s.goto w .unlock) else none) = some s' at hst
    by_cases hout : (s.outside w && (decide (w ∈ s.readers) || decide (s.writer = some w))) = true
    · rw [if_pos hout] at hst
      obtain rfl := Option.some.inj hst
      rw [Bool.and_eq_true, Bool.or_eq_true, decide_eq_true_iff, decide_eq_true_iff] at hout
      exact h.enter hout.1 rfl (fun _ => hout.2) (fun _ => rfl) (fun _ => rfl) nofun
    · rw [if_neg hout] at hst
      cases hst
  | go w ticks => exact h.step hok hst
  | timeOut w =>
    change s.timeOut w = some s' at hst
    unfold RwLock.timeOut at hst
    cases hpc : s.pc w <;> rw [hpc] at hst
    case suspended c timer =>
      cases timer with
      | true =>
        obtain rfl := Option.some.inj hst
        exact h.resume hpc
      | false => cases hst
    all_goals cases hst

end RwOk

end RwLock

open RwLock

variable {W : Type} [DecidableEq W]

theorem RwInit.ok {s : RwLock W} (h : RwInit s) : s.RwOk := by
  refine ⟨fun w => ?_, ⟨.inl ⟨h.writer, ?_⟩, fun w hw => ?_⟩, ⟨fun m => ?_, fun m w => ?_, fun m => ?_⟩,
    fun w c hw => ?_, ⟨fun _ w hw => ?_, fun _ w hw => ?_⟩⟩
  · rw [h.pc, h.mutex]
    exact ⟨fun hc => absurd hc Bool.false_ne_true, fun hc => absurd hc.symm (Option.some_ne_none w)⟩
  · rw [h.refcount, h.readers]
    rfl
  · rw [h.pc] at hw
    cases hw
  · rw [h.nwait]
    refine .zero fun w => ?_
    rw [h.pc]
    rfl
  · rw [h.cond, h.pc]
    exact ⟨fun hc => absurd hc List.not_mem_nil, fun hc => absurd hc Bool.false_ne_true⟩
  · rw [h.cond]
    exact .fresh
  · rw [h.pc] at hw
    cases hw
  all_goals
    rw [h.pc] at hw
    cases hw

/-- Every thread in the functions sleeps on a condition variable, and there is one. -/
def RwLock.Asleep (s : RwLock W) : Prop :=
  (∀ w, (s.pc w).inside = true → ∃ c timer, s.pc w = .suspended c timer) ∧ ∃ w, (s.pc w).inside = true

/-- What is promised of the lock. A writer is alone; `rw_refcount` is the number of readers, or -1 for a writer;
and no free lock has only sleeping threads, with or without a timer that runs. -/
structure RwGood (s : RwLock W) : Prop where
  alone : ∀ w, s.writer = some w → s.readers = []
  refcount : s.refcount = if s.writer = none then (s.readers.length : ℤ) else -1
  moving : s.writer = none → s.readers = [] → ¬ s.Asleep

theorem RwLock.RwOk.good {s : RwLock W} (h : s.RwOk) : RwGood s := by
  refine ⟨fun w hw => ?_, ?_, fun hwr hnil hsleep => ?_⟩
  · rcases h.held.refcount with ⟨hno, -⟩ | ⟨-, hnil, -⟩
    · rw [hno] at hw
      cases hw
    · exact hnil
  · rcases h.held.refcount with ⟨hno, href⟩ | ⟨⟨w, hw⟩, -, href⟩
    · rw [if_pos hno]
      exact href
    · rw [if_neg (by rw [hw]; nofun)]
      exact href
  · obtain ⟨hall, w, hw⟩ := hsleep
    have hz : s.refcount = 0 := by
      rcases h.held.refcount with ⟨-, href⟩ | ⟨⟨w, hw⟩, -⟩
      · rw [href, hnil]
        rfl
      · rw [hwr] at hw
        cases hw
    -- nobody relies on a thread that sleeps
    have hno : ∀ w, (s.pc w).going = false ∧ (s.pc w).calling = false := by
      intro w
      cases hpc : s.pc w
      case resumed | woken | test | signal | signalRelease | broadcast | broadcastRelease =>
        obtain ⟨c, timer, hc⟩ := hall w (by rw [hpc]; rfl)
        rw [hpc] at hc
        cases hc
      all_goals exact ⟨rfl, rfl⟩
    have hwrite : ∀ w, ¬ (s.pc w).sleeping .write = true := fun w hw => by
      obtain ⟨w', hw'⟩ := h.moving.writers hz w hw
      exact absurd ((hno w').1.symm.trans hw') Bool.false_ne_true
    obtain ⟨c, timer, hpc⟩ := hall w hw
    cases hm : c.mode with
    | write => exact hwrite w (by rw [hpc]; exact decide_eq_true hm)
    | read =>
      rcases h.moving.readers hz w (by rw [hpc]; exact decide_eq_true hm) with hn | ⟨w', hw'⟩
      · obtain ⟨w', hw'⟩ := (h.waiting.nwait .write).exists_of_pos hn
        have hin : (s.pc w').inside = true := by
          cases hq : s.pc w' <;> rw [hq] at hw'
          case idle | returned => cases hw'
          all_goals rfl
        obtain ⟨c', timer', hpc'⟩ := hall w' hin
        rw [hpc'] at hw'
        exact hwrite w' (by rw [hpc']; exact hw')
      · exact absurd ((hno w').2.symm.trans hw') Bool.false_ne_true

/-- **Reader-writer locks are kept in order** in every run whose steps meet the condition. -/
theorem rwlock_moving {s : RwLock W} (hs : (rwSystem W).Reach (fun s => s.rwOk) s) : RwGood s :=
  (hs.invariant (fun _ h => RwInit.ok h) fun _ _ _ h hok hst => h.next hok hst).good

/-! ## Two runs -/

/-- A lock of three threads. -/
def freshLock : RwLock (Fin 3) where
  mutex := none
  refcount := 0
  nwait _ := 0
  cond _ := .fresh
  pc _ := .idle
  readers := []
  writer := none

theorem freshLock_init : RwInit freshLock := ⟨rfl, rfl, fun _ => rfl, fun _ => rfl, fun _ => rfl, rfl, rfl⟩

/-- Some sections of a thread, with a time-out of 5 ticks. -/
def sections (w : Fin 3) (k : ℕ) : List (RwLabel (Fin 3)) := List.replicate k (.go w 5)

/-- Thread 0 reads, thread 1 waits to write and thread 2 to read behind it. -/
def queueUp : List (RwLabel (Fin 3)) :=
  [.call 0 ⟨.read, .forever⟩] ++ sections 0 3 ++ [.call 1 ⟨.write, .timed⟩] ++ sections 1 3 ++
    [.call 2 ⟨.read, .forever⟩] ++ sections 2 3

/-- Thread 1 is woken and writes; when it unlocks, thread 2 is woken and reads. -/
theorem rwlock_moving_three : ∃ s : RwLock (Fin 3), RwGood s ∧ s.readers = [2] ∧ s.refcount = 1 ∧
    s.pc 1 = .returned .ok := by
  obtain ⟨s, hs, hp⟩ := (rwSystem (Fin 3)).exists_reach (fun s => s.rwOk)
    (fun s => decide (s.readers = [2] ∧ s.refcount = 1 ∧ s.pc 1 = .returned .ok)) freshLock_init
    (queueUp ++ [.unlock 0] ++ sections 0 5 ++ sections 1 4 ++ [.unlock 1] ++ sections 1 9 ++ sections 2 4) (by decide)
  exact ⟨s, rwlock_moving hs, of_decide_eq_true hp⟩

/-- Thread 1 times out while thread 0 owns `rw_mutex` in `pthread_rwlock_unlock`, which still counts it and signals
nobody; thread 2 is left on a free lock. -/
theorem rwlock_stranded : ∃ s, (rwSystem (Fin 3)).Reach System.anyStep s ∧
    (s.writer = none ∧ s.readers = [] ∧ s.refcount = 0) ∧
    (∀ w, (s.pc w).inside = true → s.pc w = .suspended ⟨.read, .forever⟩ false) ∧ (s.pc 2).inside = true := by
  obtain ⟨s, hs, hp⟩ := (rwSystem (Fin 3)).exists_reach System.anyStep
    (fun s => decide ((s.writer = none ∧ s.readers = [] ∧ s.refcount = 0) ∧
      (∀ w, (s.pc w).inside = true → s.pc w = .suspended ⟨.read, .forever⟩ false) ∧ (s.pc 2).inside = true))
    freshLock_init
    (queueUp ++ [.unlock 0] ++ sections 0 1 ++ [.timeOut 1] ++ sections 0 3 ++ sections 1 3) (by decide)
  exact ⟨s, hs, of_decide_eq_true hp⟩

end RtThread
