import Mathlib.Data.Finset.Erase
import Mathlib.Data.Finset.Insert
import RtThread.Drivers.RingBlock
import RtThread.Ipc.Semaphore

/-!
# Asynchronous logging

`components/utilities/ulog/ulog.c`: `do_output` puts a log frame into the ring block buffer and releases
`async_notice`; the thread `async_output_thread_entry` empties the buffer, resets the semaphore and takes
it, for two seconds or for ever.

* `Ulog`, `UlogLabel`, `Ulog.step`: any number of callers of `ulog_output` and the thread;
* `Ulog.Stranded`: the thread waits for ever while a log is in the buffer and no release is to come;
* **`ulog_notStranded`**: no such state is reached while the semaphore is never reset over a log;
  `ulog_stranded`: one that is reached when it is.
-/

namespace RtThread

/-- Where `async_output_thread_entry` is: in the loop of `ulog_async_output`, before and after
`rt_rbb_blk_get` has returned a block; before `rt_sem_control` and before `rt_sem_take` in
`ulog_async_waiting_log`; and suspended there. The flag says whether the waiting time after this
`ulog_async_output` is `RT_WAITING_FOREVER`, as it is after the one of `ulog_flush` and the first one. -/
inductive AsyncPlace where
  | output (forever : Bool)
  | frame (blk : ℕ) (forever : Bool)
  | reset (forever : Bool)
  | take (forever : Bool)
  | waiting (forever : Bool)
  deriving DecidableEq

/-- The ring block buffer with the log frames in its blocks, the value of `async_notice`, the blocks that
callers have allocated and not put yet, the number of callers that are about to release the semaphore,
and the thread with the frames it has passed to the backends. -/
structure Ulog (F : Type) where
  rbb : Rbb
  frame : ℕ → Option F
  notice : ℕ
  filling : Finset ℕ
  releasing : ℕ
  place : AsyncPlace
  out : List F

/-- A caller allocates a block for a frame, puts it, or releases the semaphore, which a caller with a raw
log does as well; the thread gets a block, passes it on and frees it; it resets the semaphore, takes it,
and wakes up after two seconds. -/
inductive UlogLabel (F : Type) where
  | alloc (blkSize : ℕ) (log : F)
  | put (blk : ℕ)
  | raw
  | release
  | get
  | free
  | reset
  | take
  | timeout
  deriving DecidableEq

namespace Ulog

variable {F : Type} (s : Ulog F)

/-- `rt_rbb_blk_alloc` and the frame written by `do_output`. -/
def alloc (blkSize : ℕ) (log : F) : Option (Ulog F) :=
  if 1 ≤ blkSize ∧ blkSize ≤ s.rbb.bufSize then
    s.rbb.blkAlloc blkSize |>.map fun r =>
      match r with
      | (none, m) => { s with rbb := m }
      | (some i, m) =>
        { s with rbb := m, frame := Function.update s.frame i (some log), filling := insert i s.filling }
  else none

/-- `rt_rbb_blk_put` in `do_output`. -/
def put (blk : ℕ) : Option (Ulog F) :=
  if blk ∈ s.filling then
    (s.rbb.blkPut blk).map fun m =>
      { s with rbb := m, filling := s.filling.erase blk, releasing := s.releasing + 1 }
  else none

/-- `rt_sem_release` of `async_notice`, for which only the thread can be suspended. -/
def release : Option (Ulog F) :=
  if s.releasing = 0 then none
  else
    let s := { s with releasing := s.releasing - 1 }
    match s.place with
    | .waiting _ => some { s with place := .output false }
    | _ => some (if s.notice < semValueMax then { s with notice := s.notice + 1 } else s)

/-- `rt_rbb_blk_get` in `ulog_async_output`. -/
def get : Option (Ulog F) :=
  match s.place with
  | .output forever =>
    s.rbb.blkGet.map fun r =>
      match r with
      | (none, m) => { s with rbb := m, place := .reset forever }
      | (some i, m) => { s with rbb := m, place := .frame i forever }
  | _ => none

/-- The backends get the frame, and `rt_rbb_blk_free`. -/
def free : Option (Ulog F) :=
  match s.place with
  | .frame blk forever =>
    (s.rbb.blkFree blk).map fun m =>
      { s with rbb := m, place := .output forever, out := s.out ++ (s.frame blk).toList }
  | _ => none

/-- `rt_sem_control` with `RT_IPC_CMD_RESET`. -/
def reset : Option (Ulog F) :=
  match s.place with
  | .reset forever => some { s with notice := 0, place := .take forever }
  | _ => none

/-- `rt_sem_take`. -/
def take : Option (Ulog F) :=
  match s.place with
  | .take forever =>
    if 0 < s.notice then some { s with notice := s.notice - 1, place := .output false }
    else some { s with place := .waiting forever }
  | _ => none

/-- The time is over: `ulog_flush`. -/
def timeout : Option (Ulog F) :=
  if s.place = .waiting false then some { s with place := .output true } else none

/-- One step. -/
def step : UlogLabel F → Option (Ulog F)
  | .alloc blkSize log => s.alloc blkSize log
  | .put blk => s.put blk
  | .raw => some { s with releasing := s.releasing + 1 }
  | .release => s.release
  | .get => s.get
  | .free => s.free
  | .reset => s.reset
  | .take => s.take
  | .timeout => s.timeout

/-- A log is in the ring block buffer. -/
def HasLog : Prop := ∃ i < s.rbb.blkMaxNum, (s.rbb.blk i).status = .put

instance : Decidable s.HasLog := inferInstanceAs (Decidable (∃ i < _, _))

/-- The thread waits for ever, a log is in the buffer, and nobody is about to release the semaphore. -/
def Stranded : Prop := s.place = .waiting true ∧ s.HasLog ∧ s.releasing = 0

instance : Decidable s.Stranded := inferInstanceAs (Decidable (_ ∧ _))

end Ulog

/-- `ulog_init` and the start of the thread: the buffer lies anywhere below `2 ^ 32`. -/
structure UlogInit {F : Type} (s : Ulog F) : Prop where
  rbb : ∃ buf bufSize blockSet blkMaxNum, buf + bufSize < 2 ^ 32 ∧
    s.rbb = Rbb.init buf bufSize blockSet blkMaxNum
  notice : s.notice = 0
  filling : s.filling = ∅
  releasing : s.releasing = 0
  place : s.place = .output true

/-- The runs of asynchronous logging. -/
def ulogSystem (F : Type) : System (Ulog F) (UlogLabel F) where
  init := UlogInit
  step := Ulog.step

/-- When the semaphore is reset before the thread waits for ever, no log is in the buffer, or its release
is still to come. -/
def ulogOk {F : Type} (s : Ulog F) : UlogLabel F → Bool
  | .reset => decide (s.place = .reset true → s.HasLog → 0 < s.releasing)
  | _ => true

/-! ## The invariant -/

section

variable {F : Type} {s s' : Ulog F} {l f : List ℕ} {i : ℕ}

/-- The logs are the blocks of the list that are put. -/
theorem Rbb.Blocks.hasLog (h : s.rbb.Blocks l f) :
    s.HasLog ↔ ∃ i ∈ l, (s.rbb.blk i).status = .put := by
  constructor
  · rintro ⟨i, hi, hp⟩
    exact ⟨i, (h.live i hi).mp (by rw [hp]; decide), hp⟩
  · rintro ⟨i, hi, hp⟩
    exact ⟨i, h.index i hi, hp⟩

/-- Someone is about to wake the thread when there is a log. -/
def AsyncPlace.Of (s : Ulog F) : AsyncPlace → Prop
  | .take true => s.HasLog → 0 < s.releasing ∨ 0 < s.notice
  | .waiting true => s.HasLog → 0 < s.releasing
  | _ => True

/-- The block of the thread and those of the callers. -/
structure UlogBlocks (s : Ulog F) (l f : List ℕ) : Prop where
  blocks : s.rbb.Blocks l f
  filling : ∀ i ∈ s.filling, i ∈ l ∧ (s.rbb.blk i).status = .inited
  frame : ∀ i forever, s.place = .frame i forever → i ∈ l ∧ (s.rbb.blk i).status = .get

/-- The invariant. -/
structure UlogInv (s : Ulog F) : Prop where
  blocks : ∃ l f, UlogBlocks s l f
  place : s.place.Of s

theorem UlogInv.notStranded (h : UlogInv s) : ¬ s.Stranded := by
  rintro ⟨hp, hl, hr⟩
  have hplace := h.place
  rw [hp] at hplace
  have hpos : 0 < s.releasing := hplace hl
  omega

/-- What else a step may change. -/
theorem AsyncPlace.Of.mono {p : AsyncPlace} (h : p.Of s) (hlog : s'.HasLog → s.HasLog)
    (hr : s.releasing ≤ s'.releasing) (hn : s'.notice = s.notice) : p.Of s' := by
  cases p with
  | output forever => trivial
  | frame blk forever => trivial
  | reset forever => trivial
  | take forever =>
    cases forever with
    | false => trivial
    | true =>
      intro hl
      cases h (hlog hl) with
      | inl h => exact .inl (Nat.lt_of_lt_of_le h hr)
      | inr h => exact .inr (hn ▸ h)
  | waiting forever =>
    cases forever with
    | false => trivial
    | true => exact fun hl => Nat.lt_of_lt_of_le (h (hlog hl)) hr

/-- A block is allocated, or none is. -/
theorem UlogInv.alloc (h : UlogInv s) {blkSize : ℕ} {log : F} (hst : s.alloc blkSize log = some s') :
    UlogInv s' := by
  obtain ⟨⟨l, f, hb⟩, hplace⟩ := h
  unfold Ulog.alloc at hst
  by_cases hsize : 1 ≤ blkSize ∧ blkSize ≤ s.rbb.bufSize
  · rw [if_pos hsize] at hst
    obtain ⟨⟨r, m⟩, hr, hst⟩ := Option.map_eq_some_iff.mp hst
    cases hb.blocks.blkAlloc hsize.1 (fun _ => hsize.2) hr with
    | inl hnone =>
      obtain ⟨rfl, ⟨f', hb'⟩, hblk⟩ := hnone
      subst hst
      refine ⟨⟨l, f', hb', fun i hi => ?_, fun i forever hp => ?_⟩, hplace.mono ?_ (Nat.le_refl _) rfl⟩
      · exact hblk ▸ hb.filling i hi
      · exact hblk ▸ hb.frame i forever hp
      · rw [Rbb.Blocks.hasLog hb.blocks, Rbb.Blocks.hasLog hb']
        exact hblk ▸ id
    | inr hsome =>
      obtain ⟨i, rfl, hi, ⟨f', hb'⟩, hinit, hother⟩ := hsome
      subst hst
      have hne : ∀ j ∈ l, j ≠ i := fun j hj e => hi (e ▸ hj)
      refine ⟨⟨l ++ [i], f', hb', fun j hj => ?_, fun j forever hp => ?_⟩,
        hplace.mono ?_ (Nat.le_refl _) rfl⟩
      · cases Finset.mem_insert.mp hj with
        | inl hji =>
          rw [hji]
          exact ⟨List.mem_append_right _ List.mem_cons_self, hinit⟩
        | inr hj =>
          obtain ⟨hjl, hjs⟩ := hb.filling j hj
          exact ⟨List.mem_append_left _ hjl, (hother j (hne j hjl)).trans hjs⟩
      · obtain ⟨hjl, hjs⟩ := hb.frame j forever hp
        exact ⟨List.mem_append_left _ hjl, (hother j (hne j hjl)).trans hjs⟩
      · rw [Rbb.Blocks.hasLog hb.blocks, Rbb.Blocks.hasLog hb']
        rintro ⟨j, hj, hjs⟩
        have hji : j ≠ i := by
          rintro rfl
          exact absurd (hinit.symm.trans hjs) (by decide)
        cases List.mem_append.mp hj with
        | inl hj => exact ⟨j, hj, (hother j hji).symm.trans hjs⟩
        | inr hj => exact absurd (List.mem_singleton.mp hj) hji
  · rw [if_neg hsize] at hst
    cases hst

theorem UlogInv.put (h : UlogInv s) {blk : ℕ} (hst : s.put blk = some s') : UlogInv s' := by
  obtain ⟨⟨l, f, hb⟩, hplace⟩ := h
  unfold Ulog.put at hst
  by_cases hblk : blk ∈ s.filling
  · rw [if_pos hblk] at hst
    obtain ⟨m, hm, hst⟩ := Option.map_eq_some_iff.mp hst
    obtain ⟨hl, hinit⟩ := hb.filling blk hblk
    rw [Rbb.blkPut, if_pos hinit] at hm
    cases hm
    subst hst
    have hother : ∀ {st j}, (s.rbb.blk j).status = st → st ≠ .inited →
        ((s.rbb.setBlk blk { s.rbb.blk blk with status := .put }).blk j).status = st := by
      intro st j hj hne
      have hji : j ≠ blk := by
        rintro rfl
        exact hne (hj.symm.trans hinit)
      rw [Rbb.setBlk_blk_of_ne _ _ hji]
      exact hj
    refine ⟨⟨l, f, hb.blocks.setStatus hl (by decide), fun j hj => ?_, fun j forever hp => ?_⟩, ?_⟩
    · obtain ⟨hji, hj⟩ := Finset.mem_erase.mp hj
      obtain ⟨hjl, hjs⟩ := hb.filling j hj
      refine ⟨hjl, ?_⟩
      show ((s.rbb.setBlk blk _).blk j).status = _
      rw [Rbb.setBlk_blk_of_ne _ _ hji]
      exact hjs
    · obtain ⟨hjl, hjs⟩ := hb.frame j forever hp
      exact ⟨hjl, hother hjs (by decide)⟩
    · show s.place.Of _
      cases s.place with
      | output forever => trivial
      | frame blk forever => trivial
      | reset forever => trivial
      | take forever =>
        cases forever with
        | false => trivial
        | true => exact fun _ => .inl (Nat.succ_pos _)
      | waiting forever =>
        cases forever with
        | false => trivial
        | true => exact fun _ => Nat.succ_pos _
  · rw [if_neg hblk] at hst
    cases hst

theorem UlogInv.release (h : UlogInv s) (hst : s.release = some s') : UlogInv s' := by
  obtain ⟨⟨l, f, hb⟩, hplace⟩ := h
  unfold Ulog.release at hst
  by_cases h0 : s.releasing = 0
  · rw [if_pos h0] at hst
    cases hst
  · rw [if_neg h0] at hst
    have hkeep : (∀ forever, s.place ≠ .waiting forever) → ∀ notice, 0 < notice →
        UlogInv { s with releasing := s.releasing - 1, notice := notice } := by
      intro hwait notice hpos
      refine ⟨⟨l, f, hb.blocks, hb.filling, hb.frame⟩, ?_⟩
      show s.place.Of _
      cases hp : s.place with
      | output forever => trivial
      | frame blk forever => trivial
      | reset forever => trivial
      | take forever =>
        cases forever with
        | false => trivial
        | true => exact fun _ => .inr hpos
      | waiting forever => exact absurd hp (hwait forever)
    by_cases hwait : ∃ forever, s.place = .waiting forever
    · obtain ⟨forever, hp⟩ := hwait
      simp only [hp] at hst
      cases hst
      exact ⟨⟨l, f, hb.blocks, hb.filling, fun i forever hp => nomatch hp⟩, trivial⟩
    · rw [not_exists] at hwait
      have hst : some (if s.notice < semValueMax then
          { s with releasing := s.releasing - 1, notice := s.notice + 1 }
          else { s with releasing := s.releasing - 1 }) = some s' := by
        rw [← hst]
        cases hp : s.place with
        | waiting forever => exact absurd hp (hwait forever)
        | _ => rfl
      by_cases hmax : s.notice < semValueMax
      · rw [if_pos hmax] at hst
        cases hst
        exact hkeep hwait (s.notice + 1) (Nat.succ_pos _)
      · rw [if_neg hmax] at hst
        cases hst
        exact hkeep hwait s.notice (by unfold semValueMax at hmax; omega)

theorem UlogInv.get (h : UlogInv s) (hst : s.get = some s') : UlogInv s' := by
  obtain ⟨⟨l, f, hb⟩, hplace⟩ := h
  unfold Ulog.get at hst
  cases hp : s.place with
  | output forever =>
    simp only [hp, hb.blocks.lists.blkGet] at hst
    cases hf : l.find? fun i => (s.rbb.blk i).status = .put with
    | none =>
      rw [hf] at hst
      cases hst
      exact ⟨⟨l, f, hb.blocks, hb.filling, fun i forever hp => nomatch hp⟩, trivial⟩
    | some i =>
      rw [hf] at hst
      cases hst
      have hi := List.mem_of_find?_eq_some hf
      have hput : (s.rbb.blk i).status = .put := by simpa using List.find?_some hf
      refine ⟨⟨l, f, hb.blocks.setStatus hi (by decide), fun j hj => ?_, fun j forever hp => ?_⟩, trivial⟩
      · obtain ⟨hjl, hjs⟩ := hb.filling j hj
        have hji : j ≠ i := by
          rintro rfl
          exact absurd (hjs.symm.trans hput) (by decide)
        refine ⟨hjl, ?_⟩
        show ((s.rbb.setBlk i _).blk j).status = _
        rw [Rbb.setBlk_blk_of_ne _ _ hji]
        exact hjs
      · cases hp
        exact ⟨hi, congrArg RbbBlk.status (Rbb.setBlk_blk_self _ _ _)⟩
  | _ =>
    simp only [hp] at hst
    cases hst

theorem UlogInv.free (h : UlogInv s) (hst : s.free = some s') : UlogInv s' := by
  obtain ⟨⟨l, f, hb⟩, hplace⟩ := h
  unfold Ulog.free at hst
  cases hp : s.place with
  | frame blk forever =>
    simp only [hp] at hst
    obtain ⟨m, hm, hst⟩ := Option.map_eq_some_iff.mp hst
    obtain ⟨hl, hget⟩ := hb.frame blk forever hp
    obtain ⟨l₁, l₂, rfl, hb', hother⟩ := hb.blocks.blkFree (hb.blocks.index blk hl) hm
    subst hst
    refine ⟨⟨l₁ ++ l₂, _, hb', fun j hj => ?_, fun j forever hp => nomatch hp⟩, trivial⟩
    obtain ⟨hjl, hjs⟩ := hb.filling j hj
    have hji : j ≠ blk := by
      rintro rfl
      exact absurd (hjs.symm.trans hget) (by decide)
    refine ⟨?_, (hother j hji).trans hjs⟩
    cases List.mem_append.mp hjl with
    | inl h => exact List.mem_append_left _ h
    | inr h => exact List.mem_append_right _ ((List.mem_cons.mp h).resolve_left hji)
  | _ =>
    simp only [hp] at hst
    cases hst

theorem UlogInv.reset (h : UlogInv s) (hok : ulogOk s .reset = true) (hst : s.reset = some s') :
    UlogInv s' := by
  obtain ⟨⟨l, f, hb⟩, hplace⟩ := h
  unfold Ulog.reset at hst
  cases hp : s.place with
  | reset forever =>
    simp only [hp] at hst
    cases hst
    refine ⟨⟨l, f, hb.blocks, hb.filling, fun i forever hp => nomatch hp⟩, ?_⟩
    cases forever with
    | false => trivial
    | true => exact fun hlog => .inl (of_decide_eq_true hok hp hlog)
  | _ =>
    simp only [hp] at hst
    cases hst

theorem UlogInv.take (h : UlogInv s) (hst : s.take = some s') : UlogInv s' := by
  obtain ⟨⟨l, f, hb⟩, hplace⟩ := h
  unfold Ulog.take at hst
  cases hp : s.place with
  | take forever =>
    simp only [hp] at hst
    by_cases hn : 0 < s.notice
    · rw [if_pos hn] at hst
      cases hst
      exact ⟨⟨l, f, hb.blocks, hb.filling, fun i forever hp => nomatch hp⟩, trivial⟩
    · rw [if_neg hn] at hst
      cases hst
      refine ⟨⟨l, f, hb.blocks, hb.filling, fun i forever hp => nomatch hp⟩, ?_⟩
      cases forever with
      | false => trivial
      | true =>
        rw [hp] at hplace
        exact fun hlog => (hplace hlog).resolve_right hn
  | _ =>
    simp only [hp] at hst
    cases hst

theorem ulogStep_inv (h : UlogInv s) {a : UlogLabel F} (hok : ulogOk s a = true)
    (hst : s.step a = some s') : UlogInv s' := by
  cases a with
  | alloc blkSize log => exact h.alloc hst
  | put blk => exact h.put hst
  | raw =>
    cases hst
    obtain ⟨l, f, hb⟩ := h.blocks
    exact ⟨⟨l, f, hb.blocks, hb.filling, hb.frame⟩, h.place.mono id (Nat.le_succ _) rfl⟩
  | release => exact h.release hst
  | get => exact h.get hst
  | free => exact h.free hst
  | reset => exact h.reset hok hst
  | take => exact h.take hst
  | timeout =>
    obtain ⟨l, f, hb⟩ := h.blocks
    simp only [Ulog.step, Ulog.timeout] at hst
    by_cases hp : s.place = .waiting false
    · rw [if_pos hp] at hst
      cases hst
      exact ⟨⟨l, f, hb.blocks, hb.filling, fun i forever hp => nomatch hp⟩, trivial⟩
    · rw [if_neg hp] at hst
      cases hst

theorem UlogInit.inv (h : UlogInit s) : UlogInv s := by
  obtain ⟨buf, bufSize, blockSet, n, hb, hr⟩ := h.rbb
  refine ⟨⟨[], _, hr ▸ Rbb.Blocks.init buf bufSize hb blockSet n, ?_, ?_⟩, ?_⟩
  · rw [h.filling]
    exact fun i hi => absurd hi (Finset.notMem_empty i)
  · rw [h.place]
    exact fun i forever hp => nomatch hp
  · rw [h.place]
    trivial

/-- **No log is stranded** in a run in which the semaphore is never reset for ever over a log whose
release has already come. -/
theorem ulog_notStranded (hs : (ulogSystem F).Reach ulogOk s) : ¬ s.Stranded := by
  have hinv : UlogInv s := hs.invariant (I := UlogInv) (fun _ h => UlogInit.inv h)
    fun _ _ _ h hok hst => ulogStep_inv h hok hst
  exact hinv.notStranded

end

/-! ## Runs -/

/-- A buffer of three blocks. -/
def ulogStart : Ulog ℕ where
  rbb := Rbb.init 100 64 (fun _ => ⟨.unused, 0, 0, none⟩) 3
  frame := fun _ => none
  notice := 0
  filling := ∅
  releasing := 0
  place := .output true
  out := []

theorem ulogStart_init : UlogInit ulogStart :=
  ⟨⟨100, 64, _, 3, by decide, rfl⟩, rfl, rfl, rfl, rfl⟩

/-- A log arrives after the reset, and the thread is back in its wait. -/
theorem ulog_notStranded_waiting : ∃ s : Ulog ℕ, (ulogSystem ℕ).Reach ulogOk s ∧
    (s.out = [7] ∧ s.place = .waiting true) ∧ ¬ s.Stranded := by
  obtain ⟨s, hs, hp⟩ := System.exists_reach (ulogSystem ℕ) ulogOk
    (fun s => decide (s.out = [7] ∧ s.place = .waiting true)) ulogStart_init
    [.get, .reset, .alloc 16 7, .put 2, .release, .take, .get, .free, .get, .reset, .take, .timeout,
      .get, .reset, .take] (by decide)
  exact ⟨s, hs, of_decide_eq_true hp, ulog_notStranded hs⟩

/-- **A log is stranded** when it is put and its release comes between the last look into the buffer and
the reset of the semaphore. -/
theorem ulog_stranded : ¬ ∀ s : Ulog ℕ, (ulogSystem ℕ).Reach System.anyStep s → ¬ s.Stranded := by
  intro h
  obtain ⟨s, hs, hp⟩ := System.exists_reach (ulogSystem ℕ) System.anyStep
    (fun s => decide s.Stranded) ulogStart_init
    [.get, .alloc 16 7, .put 2, .release, .reset, .take] (by decide)
  exact h s hs (of_decide_eq_true hp)

end RtThread
