import RtThread.Ktime.PosixTimer

/-!
# The identifiers of POSIX timers

`timer_delete` leaves its cell of `_g_timerid` as it is, `timer_gettime` and `timer_settime` do not look at the
range of an identifier, and `timer_create` keeps the object when there is no identifier left. In runs that use
no deleted identifier, none out of range with the latter two, and no more than `TIMER_ID_MAX` timers at a time,
identifiers and objects are accounted for.

* `psxOk`: the condition; `PsxOk`: the invariant;
* `PsxOk.create`, `PsxOk.delete`, `PsxOk.access`: one call;
* **`timer_ids`**: the runs; `timer_deleted_twice`: a run with a deleted identifier.
-/

set_option linter.unusedSectionVars false

namespace RtThread

variable {O : Type} [DecidableEq O] {w : ℕ} {b : Board w} {s s' : PsxTimers O w} {k : ℕ} {o : O}

namespace PsxTimers

/-- The cell of an identifier is in the table and empty. -/
def neverUsed (s : PsxTimers O w) (k : ℕ) : Bool := decide (k < timerIdMax) && (s.gTimerid k).isNone

/-- **The condition** on a call and the state before it: an identifier belongs to a timer that is live, or its
cell is empty; or the range test of `timer_delete` or the tests of `timer_settime` on the times reject the
call; and `timer_create`, once it has got memory, finds an identifier. -/
def psxOk (s : PsxTimers O w) : PsxLabel O w → Bool
  | .create valid thread clockid mem =>
    !valid || thread || !clockid.supported || mem.isNone || (resourceIdGet s.idTimer).isSome
  | .delete k _ => (s.owner k).isSome || decide (timerIdMax ≤ k) || s.neverUsed k
  | .gettime k _ => (s.owner k).isSome || s.neverUsed k
  | .settime k v _ => (s.owner k).isSome || s.neverUsed k || (decide (k < timerIdMax) && !validSpec v)
  | .timeOuts _ _ _ => true

end PsxTimers

open PsxTimers

/-- A call with an identifier that no live timer has fails with `EINVAL` and accesses no timer object; any
other accesses the object of that timer only. -/
def PsxCall.Right (c : PsxCall O) : Prop :=
  match c.owner with
  | none => c.result = .einval ∧ c.touched = []
  | some o => c.touched ⊆ [o]

/-- **The invariant**: identifiers and objects of the live timers are distinct, and every allocated object
belongs to one of them. -/
structure PsxOk (s : PsxTimers O w) : Prop where
  ids : ∃ free, IdsOk s.idTimer free (s.live.map (·.1))
  size : s.idTimer.size = timerIdMax
  objects : (s.live.map (·.2)).Nodup
  table : ∀ p ∈ s.live, s.gTimerid p.1 = some p.2
  allocated : ∀ o, s.allocated o = true ↔ o ∈ s.live.map (·.2)
  counts : ∀ o, s.allocs o = s.frees o + if o ∈ s.live.map (·.2) then 1 else 0
  calls : ∀ c ∈ s.calls, c.Right

namespace PsxOk

variable (h : PsxOk s)
include h

theorem ids_nodup : (s.live.map (·.1)).Nodup := by
  obtain ⟨free, hids⟩ := h.ids
  exact (List.nodup_append.mp hids.nodup).2.1

theorem lt_max (hp : (k, o) ∈ s.live) : k < timerIdMax := by
  obtain ⟨free, hids⟩ := h.ids
  have hlt := hids.lt_noused (List.mem_map_of_mem (f := (·.1)) hp)
  have hbound := hids.bound
  rw [h.size] at hbound
  exact Nat.lt_of_lt_of_le hlt hbound

end PsxOk

theorem mem_of_owner (h : s.owner k = some o) : (k, o) ∈ s.live := by
  obtain ⟨p, hp, rfl⟩ := Option.map_eq_some_iff.mp h
  have hk : decide (p.1 = k) = true := List.find?_some (p := fun p : ℕ × O => decide (p.1 = k)) hp
  rw [← of_decide_eq_true hk]
  exact List.mem_of_find?_eq_some hp

namespace PsxOk

variable (h : PsxOk s)
include h

/-- **A call that changes no table** and accesses what it should. -/
theorem access {result : PsxResult} {touched : List O} {hr : HrState O w} {obj : O → TimerObj w}
    (hright : PsxCall.Right ⟨s.owner k, result, touched⟩) :
    PsxOk (s.record { s with hr := hr, obj := obj } k result touched) :=
  ⟨h.ids, h.size, h.objects, h.table, h.allocated, h.counts, List.forall_mem_cons.mpr ⟨hright, h.calls⟩⟩

/-- The timers that are left when one is deleted. -/
theorem objects_delete (hp : (k, o) ∈ s.live) (u : O) :
    u ∈ (s.live.filter fun p => !decide (p.1 = k)).map (·.2) ↔ u ∈ s.live.map (·.2) ∧ u ≠ o := by
  constructor
  · intro hu
    obtain ⟨p, hpf, rfl⟩ := List.mem_map.mp hu
    obtain ⟨hpl, hne⟩ := List.mem_filter.mp hpf
    refine ⟨List.mem_map_of_mem hpl, fun heq => ?_⟩
    have hsame : p = (k, o) := List.inj_on_of_nodup_map h.objects hpl hp heq
    rw [hsame] at hne
    simp at hne
  · rintro ⟨hu, hne⟩
    obtain ⟨p, hpl, rfl⟩ := List.mem_map.mp hu
    refine List.mem_map_of_mem (List.mem_filter.mpr ⟨hpl, ?_⟩)
    rw [Bool.not_eq_true', decide_eq_false_iff_not]
    intro hk
    have hsame : p = (k, o) := List.inj_on_of_nodup_map h.ids_nodup hpl hp hk
    exact hne (congrArg Prod.snd hsame)

/-- **A timer that is created.** -/
theorem create {m : ResourceId} {hr : HrState O w} {obj : O → TimerObj w} (ho : s.allocated o = false)
    (hget : resourceIdGet s.idTimer = some (k, m)) :
    PsxOk { s with
      hr := hr
      obj := obj
      allocated := Function.update s.allocated o true
      allocs := Function.update s.allocs o (s.allocs o + 1)
      idTimer := m
      gTimerid := Function.update s.gTimerid k (some o)
      live := (k, o) :: s.live } := by
  obtain ⟨free, hids⟩ := h.ids
  obtain ⟨hk, hsize, hids'⟩ := hids.get hget
  have hnew : o ∉ s.live.map (·.2) := by
    rw [← h.allocated, ho]
    exact Bool.false_ne_true
  refine ⟨hids', hsize.trans h.size, List.nodup_cons.mpr ⟨hnew, h.objects⟩, fun p hp => ?_, fun u => ?_,
    fun u => ?_, h.calls⟩
  · rcases List.mem_cons.mp hp with rfl | hp
    · exact Function.update_self ..
    · have hne : p.1 ≠ k := fun e => hk (e ▸ List.mem_map_of_mem hp)
      exact (Function.update_of_ne hne ..).trans (h.table p hp)
  · show Function.update s.allocated o true u = true ↔ u ∈ o :: s.live.map (·.2)
    rw [Function.update_apply, List.mem_cons]
    split_ifs with hu
    · exact iff_of_true rfl (.inl hu)
    · rw [h.allocated, or_iff_right hu]
  · show Function.update s.allocs o (s.allocs o + 1) u =
      s.frees u + if u ∈ o :: s.live.map (·.2) then 1 else 0
    have hcount := h.counts u
    by_cases hu : u = o
    · subst hu
      rw [Function.update_self, if_pos List.mem_cons_self]
      rw [if_neg hnew] at hcount
      rw [hcount]
    · have hiff : u ∈ o :: s.live.map (·.2) ↔ u ∈ s.live.map (·.2) := by
        rw [List.mem_cons, or_iff_right hu]
      rw [Function.update_of_ne hu, hcount]
      simp only [hiff]

/-- **A timer that is deleted.** -/
theorem delete {hr : HrState O w} {obj : O → TimerObj w} (hown : s.owner k = some o) :
    PsxOk (s.record { s with
      idTimer := resourceIdPut s.idTimer k
      obj := obj
      hr := hr
      allocated := Function.update s.allocated o false
      frees := Function.update s.frees o (s.frees o + 1)
      live := s.live.filter fun p => !decide (p.1 = k) } k .ok [o]) := by
  have hp := mem_of_owner hown
  obtain ⟨free, hids⟩ := h.ids
  have hk : k ∈ s.live.map (·.1) := List.mem_map_of_mem hp
  have hold : o ∈ s.live.map (·.2) := List.mem_map_of_mem hp
  have hkeys : (s.live.filter fun p => !decide (p.1 = k)).map (·.1) = (s.live.map (·.1)).erase k := by
    rw [h.ids_nodup.erase_eq_filter, List.filter_map]
    exact congrArg _ (List.filter_congr fun p _ => rfl)
  have hput : (resourceIdPut s.idTimer k).size = s.idTimer.size := by
    unfold resourceIdPut
    split_ifs <;> rfl
  refine ⟨⟨k :: free, ?_⟩, hput.trans h.size, h.objects.sublist (List.filter_sublist.map _), fun p hpl => ?_,
    fun u => ?_, fun u => ?_, List.forall_mem_cons.mpr ⟨?_, h.calls⟩⟩
  · show IdsOk (resourceIdPut s.idTimer k) (k :: free) ((s.live.filter fun p => !decide (p.1 = k)).map (·.1))
    rw [hkeys]
    exact hids.put hk
  · exact h.table p (List.mem_filter.mp hpl).1
  · show Function.update s.allocated o false u = true ↔ _
    rw [Function.update_apply]
    refine Iff.trans ?_ (h.objects_delete hp u).symm
    split_ifs with hu
    · exact iff_of_false not_false fun hc => hc.2 hu
    · rw [h.allocated, and_iff_left hu]
  · show s.allocs u = Function.update s.frees o (s.frees o + 1) u +
      if u ∈ (s.live.filter fun p => !decide (p.1 = k)).map (·.2) then 1 else 0
    have hcount := h.counts u
    have hiff := h.objects_delete hp u
    by_cases hu : u = o
    · subst hu
      rw [if_pos hold] at hcount
      rw [Function.update_self, if_neg fun hc => (hiff.mp hc).2 rfl]
      exact hcount
    · rw [and_iff_left hu] at hiff
      rw [Function.update_of_ne hu, hcount]
      simp only [hiff]
  · show PsxCall.Right ⟨s.owner k, .ok, [o]⟩
    unfold PsxCall.Right
    rw [hown]
    exact List.Subset.refl _

end PsxOk

theorem PsxInit.ok (h : PsxInit s) : PsxOk s := by
  have hlive := h.live
  refine ⟨⟨[], ?_⟩, by rw [h.idTimer], ?_, fun p hp => ?_, fun u => ?_, fun u => ?_, fun c hc => ?_⟩
  · rw [h.idTimer, hlive]
    exact ⟨.nil, List.Perm.refl _, Nat.zero_le _⟩
  · rw [hlive]
    exact List.nodup_nil
  · rw [hlive] at hp
    cases hp
  · rw [h.allocated, hlive]
    exact iff_of_false Bool.false_ne_true List.not_mem_nil
  · rw [h.allocs, h.frees, hlive]
    rfl
  · rw [h.calls] at hc
    cases hc

/-- A call on an empty cell. -/
theorem right_none (hown : s.owner k = none) : PsxCall.Right ⟨s.owner k, .einval, []⟩ := by
  unfold PsxCall.Right
  rw [hown]
  exact ⟨rfl, rfl⟩

/-- A call on a live timer. -/
theorem right_some (hown : s.owner k = some o) (r : PsxResult) : PsxCall.Right ⟨s.owner k, r, [o]⟩ := by
  unfold PsxCall.Right
  rw [hown]
  exact List.Subset.refl _

theorem right_nil (hown : s.owner k = some o) (r : PsxResult) : PsxCall.Right ⟨s.owner k, r, []⟩ := by
  unfold PsxCall.Right
  rw [hown]
  exact List.nil_subset _

/-- `timer_settime` writes the object and its high-resolution timer only. -/
theorem settimeObj_frame {v : ITimerSpec} {now : Option TimeSpec} {r : PsxResult × PsxTimers O w}
    (hr : s.settimeObj b o v now = some r) : ∃ hr' obj', r.2 = { s with hr := hr', obj := obj' } := by
  unfold settimeObj at hr
  dsimp only at hr
  by_cases hz : v.value.sec = 0 ∧ v.value.nsec = 0
  · rw [if_pos hz] at hr
    obtain rfl := Option.some.inj hr
    exact ⟨_, _, rfl⟩
  · rw [if_neg hz] at hr
    cases hsup : (s.obj o).clockid.supported with
    | false =>
      rw [hsup, Bool.not_false, if_pos rfl] at hr
      obtain rfl := Option.some.inj hr
      exact ⟨_, _, rfl⟩
    | true =>
      rw [hsup, Bool.not_true, if_neg Bool.false_ne_true] at hr
      cases now with
      | none =>
        obtain rfl := Option.some.inj hr
        exact ⟨_, _, rfl⟩
      | some ts =>
        dsimp only at hr
        by_cases hns : v.value.nsec - ts.nsec + (v.value.sec - ts.sec) * nanosecondPerSecond ≤ 0
        · rw [if_pos hns] at hr
          obtain rfl := Option.some.inj hr
          exact ⟨_, _, rfl⟩
        · rw [if_neg hns] at hr
          obtain ⟨hr', -, rfl⟩ := Option.map_eq_some_iff.mp hr
          exact ⟨_, _, rfl⟩

theorem neverUsed_iff : s.neverUsed k = true ↔ k < timerIdMax ∧ s.gTimerid k = none := by
  unfold neverUsed
  rw [Bool.and_eq_true, decide_eq_true_eq, Option.isNone_iff_eq_none]

/-- A call that answers `EINVAL` without an access. -/
theorem PsxOk.refuse (h : PsxOk s) (hown : s.owner k = none) : PsxOk (s.record s k .einval []) :=
  h.access (right_none hown)

/-- The calls of `timer_create`: nothing happens, or a timer is created. -/
theorem PsxOk.timerCreate {valid thread : Bool} {clockid : ClockId} {mem : Option O}
    {r : PsxResult × PsxTimers O w} (h : PsxOk s)
    (hok : psxOk s (.create valid thread clockid mem) = true)
    (hr : s.timerCreate valid thread clockid mem = some r) : PsxOk r.2 := by
  unfold PsxTimers.timerCreate at hr
  have hid : valid = true → thread = false → clockid.supported = true → mem.isSome = true →
      (resourceIdGet s.idTimer).isSome = true := by
    intro h₁ h₂ h₃ h₄
    have hmem : mem.isNone = false := by rw [Option.isNone_eq_false_iff, h₄]
    have hor : (!valid || thread || !clockid.supported || mem.isNone ||
        (resourceIdGet s.idTimer).isSome) = true := hok
    rw [h₁, h₂, h₃, hmem] at hor
    exact hor
  cases valid with
  | false =>
    obtain rfl := Option.some.inj hr
    exact h
  | true =>
    cases thread with
    | true =>
      obtain rfl := Option.some.inj hr
      exact h
    | false =>
      rw [Bool.not_true, if_neg Bool.false_ne_true, if_neg Bool.false_ne_true] at hr
      cases hsup : clockid.supported with
      | false =>
        rw [hsup, Bool.not_false, if_pos rfl] at hr
        obtain rfl := Option.some.inj hr
        exact h
      | true =>
        rw [hsup, Bool.not_true, if_neg Bool.false_ne_true] at hr
        cases mem with
        | none =>
          obtain rfl := Option.some.inj hr
          exact h
        | some timer =>
          dsimp only at hr
          cases ho : s.allocated timer with
          | true =>
            rw [ho, if_pos rfl] at hr
            cases hr
          | false =>
            rw [ho, if_neg Bool.false_ne_true] at hr
            obtain ⟨hr', -, rfl⟩ := Option.map_eq_some_iff.mp hr
            obtain ⟨⟨k, m⟩, hget⟩ := Option.isSome_iff_exists.mp (hid rfl rfl hsup rfl)
            rw [hget]
            exact h.create ho hget

/-- **One call.** -/
theorem PsxOk.step {a : PsxLabel O w} (h : PsxOk s) (hok : psxOk s a = true)
    (hst : psxStep b s a = some s') : PsxOk s' := by
  cases a with
  | create valid thread clockid mem =>
    obtain ⟨r, hr, rfl⟩ := Option.map_eq_some_iff.mp hst
    exact h.timerCreate hok hr
  | delete k interrupted =>
    obtain rfl := Option.some.inj hst
    cases hown : s.owner k with
    | some o =>
      have hp := mem_of_owner hown
      unfold timerDelete
      rw [if_neg (Nat.not_le_of_lt (h.lt_max hp)), h.table _ hp]
      exact h.delete hown
    | none =>
      have hcall : s.timerDelete b k interrupted = (.einval, [], s) := by
        have hor : ((s.owner k).isSome || decide (timerIdMax ≤ k) || s.neverUsed k) = true := hok
        rw [hown, Option.isSome_none, Bool.false_or, Bool.or_eq_true, decide_eq_true_eq, neverUsed_iff] at hor
        unfold timerDelete
        rcases hor with hle | ⟨hlt, hnull⟩
        · exact if_pos hle
        · rw [if_neg (Nat.not_le_of_lt hlt), hnull]
      rw [hcall]
      exact h.refuse hown
  | gettime k itsNull =>
    obtain rfl := Option.some.inj hst
    cases hown : s.owner k with
    | some o =>
      have hp := mem_of_owner hown
      unfold timerGettime
      rw [if_neg (Nat.not_le_of_lt (h.lt_max hp)), h.table _ hp]
      dsimp only
      split_ifs
      · exact h.access (right_nil hown _)
      · exact h.access (right_some hown _)
    | none =>
      have hor : ((s.owner k).isSome || s.neverUsed k) = true := hok
      rw [hown, Option.isSome_none, Bool.false_or, neverUsed_iff] at hor
      unfold timerGettime
      rw [if_neg (Nat.not_le_of_lt hor.1), hor.2]
      exact h.refuse hown
  | settime k v now =>
    obtain ⟨r, hr, rfl⟩ := Option.map_eq_some_iff.mp hst
    unfold timerSettime at hr
    cases hown : s.owner k with
    | some o =>
      have hp := mem_of_owner hown
      rw [if_neg (Nat.not_le_of_lt (h.lt_max hp)), h.table _ hp] at hr
      dsimp only at hr
      cases hv : validSpec v with
      | false =>
        rw [hv, Bool.not_false, if_pos rfl] at hr
        obtain rfl := Option.some.inj hr
        exact h.access (right_nil hown _)
      | true =>
        rw [hv, Bool.not_true, if_neg Bool.false_ne_true] at hr
        obtain ⟨r', hr', rfl⟩ := Option.map_eq_some_iff.mp hr
        obtain ⟨hr₀, obj₀, hset⟩ := settimeObj_frame hr'
        rw [hset]
        exact h.access (right_some hown _)
    | none =>
      have hor : ((s.owner k).isSome || s.neverUsed k ||
          (decide (k < timerIdMax) && !validSpec v)) = true := hok
      rw [hown, Option.isSome_none, Bool.false_or, Bool.or_eq_true, neverUsed_iff, Bool.and_eq_true,
        decide_eq_true_eq] at hor
      have hcall : r = (.einval, [], s) := by
        rcases hor with ⟨hlt, hnull⟩ | ⟨hlt, hv⟩
        · rw [if_neg (Nat.not_le_of_lt hlt), hnull] at hr
          exact (Option.some.inj hr).symm
        · rw [if_neg (Nat.not_le_of_lt hlt)] at hr
          cases hcell : s.gTimerid k with
          | none =>
            rw [hcell] at hr
            exact (Option.some.inj hr).symm
          | some timer =>
            rw [hcell] at hr
            dsimp only at hr
            rw [hv, if_pos rfl] at hr
            exact (Option.some.inj hr).symm
      rw [hcall]
      exact h.refuse hown
  | timeOuts hr active reload =>
    obtain rfl := Option.some.inj hst
    exact ⟨h.ids, h.size, h.objects, h.table, h.allocated, h.counts, h.calls⟩

/-- What is promised: live timers have distinct identifiers and objects, every call does what it should, and
an address was freed as often as it was allocated, but for the object of a live timer. -/
structure PsxGood (s : PsxTimers O w) : Prop where
  ids : (s.live.map (·.1)).Nodup
  objects : (s.live.map (·.2)).Nodup
  calls : ∀ c ∈ s.calls, c.Right
  counts : ∀ o, s.allocs o = s.frees o + if o ∈ s.live.map (·.2) then 1 else 0

/-- **Identifiers and objects are accounted for** in every run whose calls meet the condition. -/
theorem timer_ids (b : Board w) {s : PsxTimers O w} (hs : (psxSystem O b).Reach psxOk s) : PsxGood s := by
  have h : PsxOk s := hs.invariant (fun _ h => PsxInit.ok h) fun _ _ _ h hok hst => h.step hok hst
  exact ⟨h.ids_nodup, h.objects, h.calls, h.counts⟩

/-! ## Two runs -/

/-- No timers. -/
def noPsxTimers : PsxTimers ℕ 32 where
  hr := ⟨0, fun _ => ⟨0, 0, false, false⟩, [], none, none, [], fun _ => 0, fun _ => false, 0⟩
  obj _ := ⟨⟨0, 0⟩, ⟨0, 0⟩, 0, false, .realtime⟩
  allocated _ := false
  gTimerid _ := none
  idTimer := ⟨timerIdMax, fun _ => none, 0, none⟩
  live := []
  allocs _ := 0
  frees _ := 0
  calls := []

theorem noPsxTimers_init : PsxInit noPsxTimers :=
  ⟨fun _ => rfl, fun _ => rfl, rfl, rfl, fun _ => rfl, fun _ => rfl, rfl⟩

/-- A board with one counter, whose resolution is a nanosecond. -/
def nanoBoard : Board 32 := ⟨Board.wide_32, 1000000, 1000000, BitVec.toNat⟩

/-- Two timers; the first is deleted, and a third one gets its identifier and its address. -/
theorem timer_ids_again : ∃ s : PsxTimers ℕ 32, PsxGood s ∧ s.live = [(0, 7), (1, 8)] ∧ s.calls.length = 3 := by
  obtain ⟨s, hs, hp⟩ := (psxSystem ℕ nanoBoard).exists_reach psxOk
    (fun s => decide (s.live = [(0, 7), (1, 8)] ∧ s.calls.length = 3)) noPsxTimers_init
    [.create true false .monotonic (some 7), .create true false .realtime (some 8),
      .settime 0 ⟨⟨0, 0⟩, ⟨0, 50⟩⟩ (some ⟨0, 0⟩), .delete 0 false, .gettime 20 false,
      .create true false .boottime (some 7)] (by decide)
  exact ⟨s, timer_ids nanoBoard hs, of_decide_eq_true hp⟩

/-- A timer that is deleted twice: the second call succeeds, and frees the object again. -/
theorem timer_deleted_twice : ∃ s, (psxSystem ℕ nanoBoard).Reach System.anyStep s ∧
    (∃ c ∈ s.calls, c.owner = none ∧ c.result = .ok ∧ c.touched = [7]) ∧ s.allocs 7 = 1 ∧ s.frees 7 = 2 := by
  obtain ⟨s, hs, hp⟩ := (psxSystem ℕ nanoBoard).exists_reach System.anyStep
    (fun s => decide ((∃ c ∈ s.calls, c.owner = none ∧ c.result = .ok ∧ c.touched = [7]) ∧
      s.allocs 7 = 1 ∧ s.frees 7 = 2)) noPsxTimers_init
    [.create true false .monotonic (some 7), .delete 0 false, .delete 0 false] (by decide)
  exact ⟨s, hs, of_decide_eq_true hp⟩

end RtThread
