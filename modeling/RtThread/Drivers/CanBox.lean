import RtThread.Drivers.CanRx

/-!
# The slots of the reception box

A filter bank that is deactivated loses the first message of its list only, which keeps the bank as its owner;
the others stay threaded on a list that the next activation initialises. An interrupt that finds no slot on
either list loses its message.

* `BoxCore`: the lists, the owners and the hands; `BoxCore.take`, `BoxCore.putFree`, `BoxCore.putUse`;
* `BoxOk`: the invariant; `rxOk`: the condition;
* **`can_box`**: the runs; `can_deactivated`: a filter bank that is deactivated with messages on its list.
-/

set_option linter.unusedSectionVars false

namespace RtThread

variable {C M : Type} [DecidableEq C] [DecidableEq M] {n : ℕ}

/-- **The slots**: each is on `freelist`, on `uselist` or in one hand; the list of a bank holds the used slots
that it owns. -/
structure BoxCore (free use : List (Fin n)) (owner : Fin n → Option ℕ) (hdr : ℕ → CanHdr n)
    (hand : C → Option (Fin n)) : Prop where
  freeNodup : free.Nodup
  useNodup : use.Nodup
  apart : ∀ x ∈ free, x ∉ use
  hands : ∀ c x, hand c = some x → x ∉ free ∧ x ∉ use
  single : ∀ c c' x, hand c = some x → hand c' = some x → c = c'
  all : ∀ x, x ∈ free ∨ x ∈ use ∨ ∃ c, hand c = some x
  unowned : ∀ x, x ∉ use → owner x = none
  banks : ∀ b, (hdr b).list = use.filter (fun x => decide (owner x = some b)) ∧
    (hdr b).msgs = (hdr b).list.length

namespace BoxCore

variable {free use : List (Fin n)} {owner : Fin n → Option ℕ} {hdr : ℕ → CanHdr n}
  {hand : C → Option (Fin n)} {c : C} {x : Fin n} (h : BoxCore free use owner hdr hand)
include h

/-- **A slot that is taken off its lists.** -/
theorem take (hx : x ∈ free ∨ x ∈ use) (hc : hand c = none) :
    BoxCore (free.erase x) (use.erase x) (Function.update owner x none)
      (fun b => { hdr b with
        list := (hdr b).list.erase x
        msgs := if owner x = some b ∧ (hdr b).msgs ≠ 0 then (hdr b).msgs - 1 else (hdr b).msgs })
      (Function.update hand c (some x)) := by
  have hother : ∀ c' y, Function.update hand c (some x) c' = some y →
      c' = c ∧ y = x ∨ c' ≠ c ∧ hand c' = some y := by
    intro c' y hy
    rw [Function.update_apply] at hy
    split_ifs at hy with hcc
    · exact .inl ⟨hcc, (Option.some.inj hy).symm⟩
    · exact .inr ⟨hcc, hy⟩
  have hlist : ∀ y, hand y ≠ some x := by
    intro y hy
    obtain ⟨hf, hu⟩ := h.hands y x hy
    exact hx.elim hf hu
  refine ⟨h.freeNodup.erase x, h.useNodup.erase x, fun y hy hy' => ?_, fun c' y hy => ?_,
    fun c₁ c₂ y h₁ h₂ => ?_, fun y => ?_, fun y hy => ?_, fun b => ⟨?_, ?_⟩⟩
  · exact h.apart y (List.mem_of_mem_erase hy) (List.mem_of_mem_erase hy')
  · rcases hother c' y hy with ⟨-, rfl⟩ | ⟨-, hy⟩
    · exact ⟨h.freeNodup.not_mem_erase, h.useNodup.not_mem_erase⟩
    · obtain ⟨hf, hu⟩ := h.hands c' y hy
      exact ⟨fun hm => hf (List.mem_of_mem_erase hm), fun hm => hu (List.mem_of_mem_erase hm)⟩
  · rcases hother c₁ y h₁ with ⟨rfl, rfl⟩ | ⟨-, h₁'⟩
    · rcases hother c₂ y h₂ with ⟨rfl, -⟩ | ⟨-, h₂'⟩
      · rfl
      · exact absurd h₂' (hlist c₂)
    · rcases hother c₂ y h₂ with ⟨-, rfl⟩ | ⟨-, h₂'⟩
      · exact absurd h₁' (hlist c₁)
      · exact h.single c₁ c₂ y h₁' h₂'
  · by_cases hyx : y = x
    · refine .inr (.inr ⟨c, ?_⟩)
      rw [Function.update_self, hyx]
    · rcases h.all y with hy | hy | ⟨c', hy⟩
      · exact .inl ((List.mem_erase_of_ne hyx).mpr hy)
      · exact .inr (.inl ((List.mem_erase_of_ne hyx).mpr hy))
      · refine .inr (.inr ⟨c', ?_⟩)
        have hne : c' ≠ c := fun e => by
          rw [e, hc] at hy
          cases hy
        rw [Function.update_of_ne hne]
        exact hy
  · rw [Function.update_apply]
    split_ifs with hyx
    · rfl
    · exact h.unowned y fun hm => hy ((List.mem_erase_of_ne hyx).mpr hm)
  · show (hdr b).list.erase x = _
    rw [(h.banks b).1, List.erase_filter]
    refine List.filter_congr fun y hy => ?_
    rw [Function.update_of_ne (h.useNodup.mem_erase_iff.mp hy).1]
  · show (if owner x = some b ∧ (hdr b).msgs ≠ 0 then _ else _) = ((hdr b).list.erase x).length
    obtain ⟨hl, hm⟩ := h.banks b
    by_cases ho : owner x = some b
    · have hu : x ∈ use := by
        by_contra hu
        rw [h.unowned x hu] at ho
        cases ho
      have hin : x ∈ (hdr b).list := by
        rw [hl]
        exact List.mem_filter.mpr ⟨hu, decide_eq_true ho⟩
      have hpos := List.length_pos_of_mem hin
      rw [if_pos ⟨ho, by omega⟩, List.length_erase_of_mem hin, hm]
    · have hin : x ∉ (hdr b).list := by
        rw [hl]
        exact fun hin => ho (of_decide_eq_true (List.mem_filter.mp hin).2)
      rw [if_neg fun hq => ho hq.1, List.erase_of_not_mem hin]
      exact hm

/-- The hands of the other calls. -/
theorem other_hand (hc : hand c = some x) {c' : C} {y : Fin n}
    (hy : Function.update hand c none c' = some y) : c' ≠ c ∧ hand c' = some y ∧ y ≠ x := by
  have hcc : c' ≠ c := by
    rintro rfl
    rw [Function.update_self] at hy
    cases hy
  rw [Function.update_of_ne hcc] at hy
  refine ⟨hcc, hy, ?_⟩
  rintro rfl
  exact hcc (h.single c' c y hy hc)

/-- **A slot that is put back** on `freelist`. -/
theorem putFree (hc : hand c = some x) :
    BoxCore (free ++ [x]) use owner hdr (Function.update hand c none) := by
  obtain ⟨hxf, hxu⟩ := h.hands c x hc
  refine ⟨List.nodup_append.mpr ⟨h.freeNodup, List.nodup_singleton x, ?_⟩, h.useNodup, fun y hy => ?_,
    fun c' y hy => ?_, fun c₁ c₂ y h₁ h₂ => ?_, fun y => ?_, h.unowned, h.banks⟩
  · intro a ha b hb e
    obtain rfl := List.mem_singleton.mp hb
    exact hxf (e ▸ ha)
  · rcases List.mem_append.mp hy with hy | hy
    · exact h.apart y hy
    · obtain rfl := List.mem_singleton.mp hy
      exact hxu
  · obtain ⟨-, hy', hne⟩ := h.other_hand hc hy
    obtain ⟨hf, hu⟩ := h.hands c' y hy'
    refine ⟨fun hm => (List.mem_append.mp hm).elim hf fun hm => hne (List.mem_singleton.mp hm), hu⟩
  · exact h.single c₁ c₂ y (h.other_hand hc h₁).2.1 (h.other_hand hc h₂).2.1
  · rcases h.all y with hy | hy | ⟨c', hy⟩
    · exact .inl (List.mem_append_left _ hy)
    · exact .inr (.inl hy)
    · by_cases hcc : c' = c
      · rw [hcc, hc] at hy
        obtain rfl := Option.some.inj hy
        exact .inl (List.mem_append_right _ List.mem_cons_self)
      · exact .inr (.inr ⟨c', by rw [Function.update_of_ne hcc]; exact hy⟩)

/-- **A slot that is put** on `uselist`, and on the list of a bank if that is connected. -/
theorem putUse (hc : hand c = some x) (o : Option ℕ) (hdr' : ℕ → CanHdr n)
    (hlist : ∀ b, (hdr' b).list = if o = some b then (hdr b).list ++ [x] else (hdr b).list)
    (hmsgs : ∀ b, (hdr' b).msgs = if o = some b then (hdr b).msgs + 1 else (hdr b).msgs) :
    BoxCore free (use ++ [x]) (Function.update owner x o) hdr' (Function.update hand c none) := by
  obtain ⟨hxf, hxu⟩ := h.hands c x hc
  refine ⟨h.freeNodup, List.nodup_append.mpr ⟨h.useNodup, List.nodup_singleton x, ?_⟩, fun y hy hy' => ?_,
    fun c' y hy => ?_, fun c₁ c₂ y h₁ h₂ => ?_, fun y => ?_, fun y hy => ?_, fun b => ⟨?_, ?_⟩⟩
  · intro a ha b hb e
    obtain rfl := List.mem_singleton.mp hb
    exact hxu (e ▸ ha)
  · rcases List.mem_append.mp hy' with hy' | hy'
    · exact h.apart y hy hy'
    · obtain rfl := List.mem_singleton.mp hy'
      exact hxf hy
  · obtain ⟨-, hy', hne⟩ := h.other_hand hc hy
    obtain ⟨hf, hu⟩ := h.hands c' y hy'
    exact ⟨hf, fun hm => (List.mem_append.mp hm).elim hu fun hm => hne (List.mem_singleton.mp hm)⟩
  · exact h.single c₁ c₂ y (h.other_hand hc h₁).2.1 (h.other_hand hc h₂).2.1
  · rcases h.all y with hy | hy | ⟨c', hy⟩
    · exact .inl hy
    · exact .inr (.inl (List.mem_append_left _ hy))
    · by_cases hcc : c' = c
      · rw [hcc, hc] at hy
        obtain rfl := Option.some.inj hy
        exact .inr (.inl (List.mem_append_right _ List.mem_cons_self))
      · exact .inr (.inr ⟨c', by rw [Function.update_of_ne hcc]; exact hy⟩)
  · rw [List.mem_append, List.mem_singleton, not_or] at hy
    rw [Function.update_of_ne hy.2]
    exact h.unowned y hy.1
  · have hold : use.filter (fun y => decide (Function.update owner x o y = some b)) =
        use.filter fun y => decide (owner y = some b) := by
      refine List.filter_congr fun y hy => ?_
      have hyx : y ≠ x := by
        rintro rfl
        exact hxu hy
      rw [Function.update_of_ne hyx]
    rw [hlist, List.filter_append, hold, ← (h.banks b).1, List.filter_singleton, Function.update_self]
    by_cases ho : o = some b
    · rw [if_pos ho, decide_eq_true ho]
      rfl
    · rw [if_neg ho, decide_eq_false ho]
      exact (List.append_nil _).symm
  · rw [hmsgs, hlist, (h.banks b).2]
    split_ifs
    · rw [List.length_append, List.length_singleton]
    · rfl

/-- A bank with nothing on its list is switched. -/
theorem switch {b : ℕ} (hb : (hdr b).list = []) (connected : Bool) :
    BoxCore free use owner (Function.update hdr b ⟨connected, 0, []⟩) hand := by
  refine ⟨h.freeNodup, h.useNodup, h.apart, h.hands, h.single, h.all, h.unowned, fun b' => ?_⟩
  by_cases hbb : b' = b
  · subst hbb
    rw [Function.update_self, ← (h.banks b').1, hb]
    exact ⟨rfl, rfl⟩
  · rw [Function.update_of_ne hbb]
    exact h.banks b'

end BoxCore

/-- What a call knows: the messages that a read has got are those it took, the slot it copies included; a slot
that an interrupt has filled has its message. -/
def CanPc.Ok (data : Fin n → M) (took : List M) : CanPc M n → Prop
  | returned got => took = got
  | reading _ got => took = got
  | taken _ got x => took = got ++ [data x]
  | copied _ got _ => took = got
  | filled m x => data x = m
  | _ => True

theorem CanPc.Ok.congr {data data' : Fin n → M} {took : List M} {pc : CanPc M n} (h : pc.Ok data took)
    (hdata : ∀ x, pc.hand = some x → data' x = data x) : pc.Ok data' took := by
  cases pc with
  | taken hdrs got x =>
    show took = got ++ [data' x]
    rw [hdata x rfl]
    exact h
  | filled m x => exact (hdata x rfl).trans h
  | _ => exact h

/-- **The invariant**: besides, `freenumbers` is the length of `freelist`, no assertion has failed, and the used
slots hold the messages of a queue with tags. -/
structure BoxOk (s : CanBox C M n) : Prop where
  core : BoxCore s.freelist s.uselist s.owner s.hdr fun c => (s.pc c).hand
  count : s.freenumbers = s.freelist.length
  assertions : s.failed = false
  queue : replay s.log = some (s.uselist.map fun x => (s.data x, s.owner x))
  calls : ∀ c, (s.pc c).Ok s.data (s.took c)

namespace CanBox

variable (s : CanBox C M n)

/-- **The condition** on a step and the state before it: an interrupt finds a slot on a list, and a bank is
activated or deactivated while its list is empty. -/
def rxOk (cfg : CanCfg M) : CanLabel C M → Bool
  | .rxTake _ _ => !s.freelist.isEmpty || !s.uselist.isEmpty
  | .filterStep c =>
    match s.pc c with
    | .filtering (h :: _) false =>
      !decide (0 ≤ h ∧ h < cfg.maxhdr) || !(s.hdr h.toNat).connected || (s.hdr h.toNat).list.isEmpty
    | _ => true
  | .activate c =>
    match s.pc c with
    | .activating b _ => (s.hdr b).list.isEmpty
    | _ => true
  | _ => true

theorem hand_goto (c : C) (pc : CanPc M n) {o : Option (Fin n)} (ho : pc.hand = o) :
    (fun c' => ((s.goto c pc).pc c').hand) = Function.update (fun c' => (s.pc c').hand) c o := by
  subst ho
  funext c'
  show (Function.update s.pc c pc c').hand = _
  rw [Function.update_apply, Function.update_apply]
  split_ifs <;> rfl

end CanBox

open CanBox

namespace BoxOk

variable {s : CanBox C M n} (h : BoxOk s) {c : C} {x : Fin n} {pc' : CanPc M n}
include h

/-- The core behind a step that goes on. -/
theorem core_goto (hhand : pc'.hand = (s.pc c).hand) :
    BoxCore s.freelist s.uselist s.owner s.hdr fun c' => ((s.goto c pc').pc c').hand := by
  rw [hand_goto s c _ hhand, Function.update_eq_self]
  exact h.core

/-- The calls behind a step that goes on. -/
theorem calls_goto {took' : C → List M} (hpc : pc'.Ok s.data (took' c))
    (hother : ∀ c' ≠ c, took' c' = s.took c') (c' : C) : ((s.goto c pc').pc c').Ok s.data (took' c') := by
  show (Function.update s.pc c pc' c').Ok s.data (took' c')
  by_cases hcc : c' = c
  · rw [hcc, Function.update_self]
    exact hpc
  · rw [Function.update_of_ne hcc, hother c' hcc]
    exact h.calls c'

/-- **A step that moves no slot.** -/
theorem goto (hhand : pc'.hand = (s.pc c).hand) (hpc : pc'.Ok s.data (s.took c)) : BoxOk (s.goto c pc') :=
  ⟨h.core_goto hhand, h.count, h.assertions, h.queue, h.calls_goto hpc fun _ _ => rfl⟩

/-- **A slot that is taken.** -/
theorem take (hx : x ∈ s.freelist ∨ x ∈ s.uselist) (hc : (s.pc c).hand = none) (hhand : pc'.hand = some x)
    {freenumbers : ℕ} {failed : Bool} {took : C → List M} {log : List (QueueEvent M ℕ)}
    (hcount : freenumbers = (s.freelist.erase x).length) (hfailed : failed = false)
    (hqueue : replay log = some ((s.uselist.erase x).map fun y => (s.data y, s.owner y)))
    (hpc : pc'.Ok s.data (took c)) (hother : ∀ c' ≠ c, took c' = s.took c') :
    BoxOk { (s.unthread x (s.owner x)).goto c pc' with
      freenumbers := freenumbers, failed := failed, took := took, log := log } := by
  have hcore := h.core.take (c := c) hx hc
  refine ⟨?_, hcount, hfailed, ?_, h.calls_goto hpc hother⟩
  · rw [← hand_goto s c _ hhand] at hcore
    exact hcore
  · show replay log = some ((s.uselist.erase x).map fun y => (s.data y, Function.update s.owner x none y))
    rw [hqueue]
    refine congrArg some (List.map_congr_left fun y hy => ?_)
    rw [Function.update_of_ne (h.core.useNodup.mem_erase_iff.mp hy).1]

/-- **A read takes a slot.** -/
theorem readTake {cfg : CanCfg M} {s' : CanBox C M n} (hst : s.readTake cfg c = some s') : BoxOk s' := by
  unfold CanBox.readTake at hst
  have hcall := h.calls c
  cases hpc : s.pc c with
  | reading hdrs got =>
    rw [hpc] at hst hcall
    have hhand : (s.pc c).hand = none := by rw [hpc]; rfl
    have hgot : s.took c = got := hcall
    have hreturn : BoxOk (s.goto c (.returned got)) := h.goto hhand.symm hgot
    cases hdrs with
    | nil =>
      obtain rfl := Option.some.inj hst
      exact hreturn
    | cons hd hdrs =>
      dsimp only at hst
      have htake : ∀ x log, x ∈ s.uselist →
          replay log = some ((s.uselist.erase x).map fun y => (s.data y, s.owner y)) →
          BoxOk { (s.unthread x (s.owner x)).goto c (.taken hdrs got x) with
            took := Function.update s.took c (s.took c ++ [s.data x]), log := log } := by
        intro x log hx hlog
        have hfree : x ∉ s.freelist := fun hf => h.core.apart x hf hx
        refine h.take (.inr hx) hhand rfl ?_ h.assertions hlog ?_ fun c' hcc => Function.update_of_ne hcc ..
        · rw [List.erase_of_not_mem hfree]
          exact h.count
        · show Function.update s.took c (s.took c ++ [s.data x]) c = got ++ [s.data x]
          rw [Function.update_self, hgot]
      by_cases hbank : 0 ≤ hd ∧ hd < cfg.maxhdr ∧ (s.hdr hd.toNat).list ≠ []
      · rw [if_pos hbank] at hst
        obtain ⟨x, hhead, rfl⟩ := Option.map_eq_some_iff.mp hst
        have hlist := (h.core.banks hd.toNat).1
        have hmem : x ∈ s.uselist.filter fun y => decide (s.owner y = some hd.toNat) := by
          rw [← hlist]
          exact List.mem_of_head? hhead
        obtain ⟨hx, ho⟩ := List.mem_filter.mp hmem
        rw [← of_decide_eq_true ho]
        refine htake x _ hx ?_
        show (replay s.log).bind _ = _
        rw [h.queue]
        refine takeFrom_map ?_
        rw [← hhead, hlist]
      · rw [if_neg hbank] at hst
        by_cases hall : hd = -1
        · rw [if_pos hall] at hst
          cases hu : s.uselist with
          | nil =>
            rw [hu] at hst
            obtain rfl := Option.some.inj hst
            exact hreturn
          | cons x l =>
            rw [hu] at hst
            obtain rfl := Option.some.inj hst
            refine htake x _ (by rw [hu]; exact List.mem_cons_self) ?_
            show (replay s.log).bind _ = _
            rw [h.queue, hu, List.erase_cons_head]
            exact if_pos rfl
        · rw [if_neg hall] at hst
          obtain rfl := Option.some.inj hst
          exact hreturn
  | _ =>
    rw [hpc] at hst
    cases hst

/-- **An interrupt takes a slot.** -/
theorem rxTake {cfg : CanCfg M} {m : M} {s' : CanBox C M n} (hst : s.rxTake cfg c m = some s')
    (hok : s.freelist ≠ [] ∨ s.uselist ≠ []) : BoxOk s' := by
  unfold CanBox.rxTake at hst
  by_cases hrest : (s.pc c).atRest = true ∧ 0 ≤ cfg.hdrIndex m ∧ cfg.hdrIndex m < cfg.maxhdr
  · rw [if_pos hrest] at hst
    have hhand : (s.pc c).hand = none := by
      cases hpc : s.pc c with
      | idle => rfl
      | returned got => rfl
      | _ =>
        rw [hpc] at hrest
        cases hrest.1
    cases hf : s.freelist with
    | cons x l =>
      rw [hf] at hst
      obtain rfl := Option.some.inj hst
      have hx : x ∈ s.freelist := by
        rw [hf]
        exact List.mem_cons_self
      have hlen : s.freenumbers = l.length + 1 := by rw [h.count, hf, List.length_cons]
      refine h.take (.inl hx) hhand rfl ?_ ?_ ?_ trivial fun _ _ => rfl
      · rw [hlen, hf, List.erase_cons_head, Nat.add_sub_cancel]
      · rw [h.assertions, hlen, decide_eq_true (Nat.succ_pos _)]
        rfl
      · rw [List.erase_of_not_mem (h.core.apart x hx)]
        exact h.queue
    | nil =>
      cases hu : s.uselist with
      | nil => exact absurd hok (by simp [hf, hu])
      | cons x l =>
        rw [hf, hu] at hst
        obtain rfl := Option.some.inj hst
        have hx : x ∈ s.uselist := by
          rw [hu]
          exact List.mem_cons_self
        have hfree : x ∉ s.freelist := by
          rw [hf]
          exact List.not_mem_nil
        refine h.take (.inr hx) hhand rfl ?_ h.assertions ?_ trivial fun _ _ => rfl
        · rw [List.erase_of_not_mem hfree]
          exact h.count
        · show (replay s.log).bind _ = _
          rw [h.queue, hu, List.erase_cons_head]
          exact if_pos rfl
  · rw [if_neg hrest] at hst
    cases hst

/-- **A read puts its slot back.** -/
theorem readFree {s' : CanBox C M n} (hst : s.readFree c = some s') : BoxOk s' := by
  unfold CanBox.readFree at hst
  have hcall := h.calls c
  cases hpc : s.pc c with
  | copied hdrs got x =>
    rw [hpc] at hst hcall
    obtain rfl := Option.some.inj hst
    have hcore := h.core.putFree (c := c) (x := x) (by rw [hpc]; rfl)
    have hlen : (s.freelist ++ [x]).length = s.freenumbers + 1 := by
      rw [List.length_append, h.count, List.length_singleton]
    refine ⟨?_, hlen.symm, ?_, h.queue, h.calls_goto hcall fun _ _ => rfl⟩
    · have hhands : _ = Function.update _ c none := hand_goto s c (.reading hdrs got) rfl
      rw [← hhands] at hcore
      exact hcore
    · have hle := hcore.freeNodup.length_le_card
      rw [Fintype.card_fin, hlen] at hle
      show (s.failed || !decide (s.freenumbers + 1 ≤ n)) = false
      rw [h.assertions, decide_eq_true hle]
      rfl
  | _ =>
    rw [hpc] at hst
    cases hst

/-- An interrupt fills its slot. -/
theorem rxCopy {s' : CanBox C M n} (hst : s.rxCopy c = some s') : BoxOk s' := by
  unfold CanBox.rxCopy at hst
  cases hpc : s.pc c with
  | received m x =>
    rw [hpc] at hst
    obtain rfl := Option.some.inj hst
    have hhand : (s.pc c).hand = some x := by rw [hpc]; rfl
    obtain ⟨-, hxu⟩ := h.core.hands c x hhand
    refine ⟨h.core_goto hhand.symm, h.count, h.assertions, ?_, fun c' => ?_⟩
    · show replay s.log = some (s.uselist.map fun y => (Function.update s.data x m y, s.owner y))
      rw [h.queue]
      refine congrArg some (List.map_congr_left fun y hy => ?_)
      rw [Function.update_of_ne fun e : y = x => hxu (e ▸ hy)]
    · show (Function.update s.pc c (.filled m x) c').Ok (Function.update s.data x m) (s.took c')
      by_cases hcc : c' = c
      · rw [hcc, Function.update_self]
        exact Function.update_self ..
      · rw [Function.update_of_ne hcc]
        refine (h.calls c').congr fun y hy => Function.update_of_ne ?_ ..
        rintro rfl
        exact hcc (h.core.single c' c y hy hhand)
  | _ =>
    rw [hpc] at hst
    cases hst

/-- **An interrupt puts its message into the box.** -/
theorem rxPut {cfg : CanCfg M} {s' : CanBox C M n} (hst : s.rxPut cfg c = some s') : BoxOk s' := by
  unfold CanBox.rxPut at hst
  have hcall := h.calls c
  cases hpc : s.pc c with
  | filled m x =>
    rw [hpc] at hst hcall
    have hhand : (s.pc c).hand = some x := by rw [hpc]; rfl
    have hdata : s.data x = m := hcall
    obtain ⟨-, hxu⟩ := h.core.hands c x hhand
    have hown := h.core.unowned x hxu
    have hhands : _ = Function.update (fun c' => (s.pc c').hand) c none := hand_goto s c .idle rfl
    -- the used slots with the new one, whatever its owner
    have hqueue : ∀ o, replay (.put m o :: s.log) =
        some ((s.uselist ++ [x]).map fun y => (s.data y, Function.update s.owner x o y)) := by
      intro o
      show (replay s.log).bind _ = _
      rw [h.queue, List.map_append]
      refine congrArg some (congrArg₂ (· ++ ·) (List.map_congr_left fun y hy => ?_) ?_)
      · rw [Function.update_of_ne fun e : y = x => hxu (e ▸ hy)]
      · rw [List.map_singleton, Function.update_self, hdata]
    dsimp only at hst
    by_cases hcon : (s.hdr (cfg.hdrIndex m).toNat).connected = true
    · rw [if_pos hcon] at hst
      obtain rfl := Option.some.inj hst
      generalize (cfg.hdrIndex m).toNat = bank
      have hcore := h.core.putUse hhand (some bank)
        (Function.update s.hdr bank
          { s.hdr bank with list := (s.hdr bank).list ++ [x], msgs := (s.hdr bank).msgs + 1 })
        (fun b => by
          by_cases hb : b = bank
          · rw [hb, Function.update_self, if_pos rfl]
          · rw [Function.update_of_ne hb, if_neg fun e => hb (Option.some.inj e).symm])
        (fun b => by
          by_cases hb : b = bank
          · rw [hb, Function.update_self, if_pos rfl]
          · rw [Function.update_of_ne hb, if_neg fun e => hb (Option.some.inj e).symm])
      refine ⟨?_, h.count, h.assertions, hqueue _, h.calls_goto trivial fun _ _ => rfl⟩
      rw [← hhands] at hcore
      exact hcore
    · rw [if_neg hcon] at hst
      obtain rfl := Option.some.inj hst
      have hcore := h.core.putUse hhand none s.hdr (fun b => by rw [if_neg (Option.some_ne_none b).symm])
        (fun b => by rw [if_neg (Option.some_ne_none b).symm])
      have hsame : Function.update s.owner x none = s.owner := by
        rw [← hown, Function.update_eq_self]
      have hnone := hqueue none
      rw [hsame] at hcore hnone
      refine ⟨?_, h.count, h.assertions, hnone, h.calls_goto trivial fun _ _ => rfl⟩
      rw [← hhands] at hcore
      exact hcore
  | _ =>
    rw [hpc] at hst
    cases hst

/-- A read copies its message. -/
theorem readCopy {s' : CanBox C M n} (hst : s.readCopy c = some s') : BoxOk s' := by
  unfold CanBox.readCopy at hst
  have hcall := h.calls c
  cases hpc : s.pc c with
  | taken hdrs got x =>
    rw [hpc] at hst hcall
    obtain rfl := Option.some.inj hst
    exact h.goto (by rw [hpc]; rfl) hcall
  | _ =>
    rw [hpc] at hst
    cases hst

/-- **A bank is deactivated**, or passed over. -/
theorem filterStep {cfg : CanCfg M} {s' : CanBox C M n} (hst : s.filterStep cfg c = some s')
    (hok : s.rxOk cfg (.filterStep c) = true) : BoxOk s' := by
  unfold CanBox.filterStep at hst
  unfold CanBox.rxOk at hok
  dsimp only at hok
  cases hpc : s.pc c with
  | filtering banks actived =>
    rw [hpc] at hst hok
    have hhand : (s.pc c).hand = none := by rw [hpc]; rfl
    cases banks with
    | nil =>
      obtain rfl := Option.some.inj hst
      exact h.goto hhand.symm trivial
    | cons hd banks =>
      dsimp only at hst
      by_cases hbank : 0 ≤ hd ∧ hd < cfg.maxhdr
      · rw [if_pos hbank] at hst
        cases actived with
        | true =>
          rw [if_pos rfl] at hst
          by_cases hcon : (s.hdr hd.toNat).connected = true
          · rw [if_pos hcon] at hst
            obtain rfl := Option.some.inj hst
            exact h.goto hhand.symm trivial
          · rw [if_neg hcon] at hst
            obtain rfl := Option.some.inj hst
            exact h.goto hhand.symm trivial
        | false =>
          rw [if_neg Bool.false_ne_true] at hst
          by_cases hcon : (s.hdr hd.toNat).connected = true
          · rw [if_pos hcon] at hst
            obtain rfl := Option.some.inj hst
            have hempty : (s.hdr hd.toNat).list = [] := by
              dsimp only at hok
              rw [decide_eq_true hbank, hcon] at hok
              exact List.isEmpty_iff.mp hok
            have hcore := h.core.switch hempty false
            rw [hempty, List.tail_nil]
            refine ⟨?_, h.count, h.assertions, h.queue, h.calls_goto trivial fun _ _ => rfl⟩
            have hhands := hand_goto s c (.filtering banks false) rfl
            rw [show (CanPc.filtering banks false : CanPc M n).hand = (s.pc c).hand from hhand.symm,
              Function.update_eq_self] at hhands
            rw [← hhands] at hcore
            exact hcore
          · rw [if_neg hcon] at hst
            obtain rfl := Option.some.inj hst
            exact h.goto hhand.symm trivial
      · rw [if_neg hbank] at hst
        obtain rfl := Option.some.inj hst
        exact h.goto hhand.symm trivial
  | _ =>
    rw [hpc] at hst
    cases hst

/-- **A bank is activated.** -/
theorem activate {s' : CanBox C M n} (hst : s.activate c = some s')
    (hok : ∀ b banks, s.pc c = .activating b banks → (s.hdr b).list = []) : BoxOk s' := by
  unfold CanBox.activate at hst
  cases hpc : s.pc c with
  | activating b banks =>
    rw [hpc] at hst
    have hhand : (s.pc c).hand = none := by rw [hpc]; rfl
    obtain rfl := Option.some.inj hst
    have hcore := h.core.switch (hok b banks hpc) true
    refine ⟨?_, h.count, h.assertions, h.queue, h.calls_goto trivial fun _ _ => rfl⟩
    have hhands := hand_goto s c (.filtering banks true) rfl
    rw [show (CanPc.filtering banks true : CanPc M n).hand = (s.pc c).hand from hhand.symm,
      Function.update_eq_self] at hhands
    rw [← hhands] at hcore
    exact hcore
  | _ =>
    rw [hpc] at hst
    cases hst

theorem hand_of_atRest {pc : CanPc M n} (hrest : pc.atRest = true) : pc.hand = none := by
  cases pc with
  | idle => rfl
  | returned got => rfl
  | _ => cases hrest

/-- A call begins. -/
theorem read {hdrs : List ℤ} {s' : CanBox C M n} (hst : s.read c hdrs = some s') : BoxOk s' := by
  unfold CanBox.read at hst
  by_cases hrest : (s.pc c).atRest = true
  · rw [if_pos hrest] at hst
    obtain rfl := Option.some.inj hst
    refine ⟨h.core_goto (h.hand_of_atRest hrest).symm, h.count, h.assertions, h.queue,
      h.calls_goto ?_ fun c' hcc => Function.update_of_ne hcc ..⟩
    exact Function.update_self ..
  · rw [if_neg hrest] at hst
    cases hst

theorem setFilter {banks : List ℤ} {actived : Bool} {s' : CanBox C M n}
    (hst : s.setFilter c banks actived = some s') : BoxOk s' := by
  unfold CanBox.setFilter at hst
  by_cases hrest : (s.pc c).atRest = true
  · rw [if_pos hrest] at hst
    obtain rfl := Option.some.inj hst
    exact h.goto (h.hand_of_atRest hrest).symm trivial
  · rw [if_neg hrest] at hst
    cases hst

/-- **One step.** -/
theorem step {cfg : CanCfg M} {a : CanLabel C M} {s' : CanBox C M n} (hok : s.rxOk cfg a = true)
    (hst : canStep cfg s a = some s') : BoxOk s' := by
  cases a with
  | read c hdrs => exact h.read hst
  | readTake c => exact h.readTake hst
  | readCopy c => exact h.readCopy hst
  | readFree c => exact h.readFree hst
  | rxTake c m =>
    refine h.rxTake hst ?_
    have hor : (!s.freelist.isEmpty || !s.uselist.isEmpty) = true := hok
    rw [Bool.or_eq_true, Bool.not_eq_true', Bool.not_eq_true', List.isEmpty_eq_false_iff,
      List.isEmpty_eq_false_iff] at hor
    exact hor
  | rxCopy c => exact h.rxCopy hst
  | rxPut c => exact h.rxPut hst
  | setFilter c banks actived => exact h.setFilter hst
  | filterStep c => exact h.filterStep hst hok
  | activate c =>
    refine h.activate hst fun b banks hpc => ?_
    unfold rxOk at hok
    dsimp only at hok
    rw [hpc] at hok
    exact List.isEmpty_iff.mp hok

end BoxOk

theorem CanInit.ok {s : CanBox C M n} (h : CanInit s) : BoxOk s := by
  have hhand : ∀ c, (s.pc c).hand = none := fun c => by
    rw [h.pc]
    rfl
  refine ⟨⟨?_, ?_, fun x _ => ?_, fun c x hx => ?_, fun c c' x hx => ?_, fun x => .inl ?_, fun x _ => h.owner x,
    fun b => ?_⟩, ?_, h.failed, ?_, fun c => ?_⟩
  · rw [h.freelist]
    exact List.nodup_finRange n
  · rw [h.uselist]
    exact List.nodup_nil
  · rw [h.uselist]
    exact List.not_mem_nil
  · rw [hhand] at hx
    cases hx
  · rw [hhand] at hx
    cases hx
  · rw [h.freelist]
    exact List.mem_finRange x
  · rw [h.hdr, h.uselist]
    exact ⟨rfl, rfl⟩
  · rw [h.freelist, h.freenumbers, List.length_finRange]
  · rw [h.log, h.uselist]
    rfl
  · rw [h.pc]
    trivial

/-- What is promised of the reception box. Each slot is in exactly one place; `freenumbers` is right; what
happened to the box is what happens to a queue with tags; a read returns the messages it took, and each message
was delivered, or dropped, or is still there, once; the list of a bank holds the used slots it owns. -/
structure BoxGood (s : CanBox C M n) : Prop where
  nodup : (s.freelist ++ s.uselist).Nodup
  place : ∀ x, (x ∈ s.freelist ∨ x ∈ s.uselist) ∧ (∀ c, (s.pc c).hand ≠ some x) ∨
    (x ∉ s.freelist ∧ x ∉ s.uselist) ∧ ∃ c, (s.pc c).hand = some x ∧ ∀ c', (s.pc c').hand = some x → c' = c
  count : s.freenumbers = s.freelist.length
  assertions : s.failed = false
  queue : replay s.log = some (s.uselist.map fun x => (s.data x, s.owner x))
  once : (s.log.filterMap QueueEvent.arrival).Perm
    (s.log.filterMap QueueEvent.delivery ++ s.log.filterMap QueueEvent.loss ++ s.uselist.map s.data)
  returned : ∀ c got, s.pc c = .returned got → got = s.took c
  banks : ∀ b, (s.hdr b).list = s.uselist.filter (fun x => decide (s.owner x = some b)) ∧
    (s.hdr b).msgs = (s.hdr b).list.length

theorem BoxOk.good {s : CanBox C M n} (h : BoxOk s) : BoxGood s := by
  have hcore := h.core
  refine ⟨?_, fun x => ?_, h.count, h.assertions, h.queue, ?_, fun c got hpc => ?_, hcore.banks⟩
  · exact List.nodup_append.mpr ⟨hcore.freeNodup, hcore.useNodup, fun a ha b hb e => hcore.apart a ha (e ▸ hb)⟩
  · by_cases hx : x ∈ s.freelist ∨ x ∈ s.uselist
    · refine .inl ⟨hx, fun c hc => ?_⟩
      obtain ⟨hf, hu⟩ := hcore.hands c x hc
      exact hx.elim hf hu
    · rw [not_or] at hx
      obtain ⟨c, hc⟩ := ((hcore.all x).resolve_left hx.1).resolve_left hx.2
      exact .inr ⟨hx, c, hc, fun c' hc' => hcore.single c' c x hc' hc⟩
  · have hperm := replay_perm h.queue
    rw [List.map_map] at hperm
    exact hperm
  · have hcall := h.calls c
    rw [hpc] at hcall
    exact hcall.symm

/-- **The reception box is kept in order** in every run whose steps meet the condition. -/
theorem can_box (cfg : CanCfg M) {s : CanBox C M n} (hs : (canRxSystem C M n cfg).Reach (fun s => s.rxOk cfg) s) :
    BoxGood s :=
  (hs.invariant (fun _ h => CanInit.ok h) fun _ _ _ h hok hst => h.step hok hst).good

/-! ## Two runs -/

/-- Two banks; every message is for bank 0. -/
def bankZero : CanCfg ℕ := ⟨2, fun _ => 0⟩

/-- A box of two slots. -/
def emptyBox : CanBox ℕ ℕ 2 where
  freelist := List.finRange 2
  uselist := []
  freenumbers := 2
  data _ := 0
  owner _ := none
  hdr _ := ⟨false, 0, []⟩
  pc _ := .idle
  failed := false
  took _ := []
  log := []

theorem emptyBox_init : CanInit emptyBox :=
  ⟨rfl, rfl, rfl, fun _ => rfl, fun _ => rfl, fun _ => rfl, rfl, fun _ => rfl, rfl⟩

/-- The steps of an interrupt. -/
def receive (c m : ℕ) : List (CanLabel ℕ ℕ) := [.rxTake c m, .rxCopy c, .rxPut c]

/-- Bank 0 is activated and gets the messages 5, 6 and 7; the oldest is dropped, and a read returns the others. -/
theorem can_box_full : ∃ s : CanBox ℕ ℕ 2, BoxGood s ∧ s.took 1 = [6, 7] ∧
    s.log.filterMap QueueEvent.loss = [5] := by
  obtain ⟨s, hs, hp⟩ := (canRxSystem ℕ ℕ 2 bankZero).exists_reach (fun s => s.rxOk bankZero)
    (fun s => decide (s.took 1 = [6, 7] ∧ s.log.filterMap QueueEvent.loss = [5])) emptyBox_init
    ([.setFilter 2 [0] true, .filterStep 2, .activate 2, .filterStep 2] ++ receive 0 5 ++ receive 0 6 ++
      receive 0 7 ++ [.read 1 [0, -1, -1], .readTake 1, .readCopy 1, .readFree 1, .readTake 1, .readCopy 1,
        .readFree 1, .readTake 1]) (by decide)
  exact ⟨s, can_box bankZero hs, of_decide_eq_true hp⟩

/-- Bank 0 is deactivated with two messages on its list: one stays on the list, and both keep their owner. -/
theorem can_deactivated : ∃ s, (canRxSystem ℕ ℕ 2 bankZero).Reach System.anyStep s ∧
    (s.hdr 0).list = [1] ∧ (s.hdr 0).msgs = 0 ∧ s.uselist = [0, 1] ∧ s.owner 0 = some 0 := by
  obtain ⟨s, hs, hp⟩ := (canRxSystem ℕ ℕ 2 bankZero).exists_reach System.anyStep
    (fun s => decide ((s.hdr 0).list = [1] ∧ (s.hdr 0).msgs = 0 ∧ s.uselist = [0, 1] ∧ s.owner 0 = some 0))
    emptyBox_init
    ([.setFilter 2 [0] true, .filterStep 2, .activate 2, .filterStep 2] ++ receive 0 5 ++ receive 0 6 ++
      [.setFilter 2 [0] false, .filterStep 2]) (by decide)
  exact ⟨s, hs, of_decide_eq_true hp⟩

end RtThread
