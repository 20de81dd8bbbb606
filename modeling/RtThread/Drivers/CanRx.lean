import Mathlib.Data.Fintype.Card
import RtThread.Lib.System
import RtThread.Lib.TaggedQueue

/-!
# The reception box of a CAN device

`components/drivers/can/can.c` with `RT_CAN_USING_HDR`: the message slots are on `freelist` or `uselist`, and a
used slot also on the list of its filter bank. An interrupt takes a slot, fills it and puts it on `uselist`; a
read takes one off, copies it and puts it back on `freelist`; all else runs with interrupts enabled.

* `CanBox`, `CanPc`: the box and where a call is;
* `CanBox.readTake`, `readFree`, `rxTake`, `rxPut`, `filterStep`, `activate`: the critical sections of
  `_can_int_rx`, of the reception part of `rt_hw_can_isr` and of `RT_CAN_CMD_SET_FILTER`;
* `CanLabel`, `canRxSystem`: the runs.
-/

namespace RtThread

/-- `config.maxhdr`, and the `hdr_index` of a message. -/
structure CanCfg (M : Type) where
  maxhdr : ℕ
  hdrIndex : M → ℤ

/-- `struct rt_can_hdr` without its filter. -/
structure CanHdr (n : ℕ) where
  connected : Bool
  msgs : ℕ
  list : List (Fin n)

/-- Where a call is: not begun, or ended with the messages that a read returns; a read with the `hdr_index` of each entry of its buffer that is left and the messages it
has got, at the head of its loop or with a slot that it copies or has copied; an interrupt with a slot that it
fills or has filled; a `RT_CAN_CMD_SET_FILTER` with the banks that are left, in its loop or in the copy of a
filter. -/
inductive CanPc (M : Type) (n : ℕ) where
  | idle
  | returned (got : List M)
  | reading (hdrs : List ℤ) (got : List M)
  | taken (hdrs : List ℤ) (got : List M) (x : Fin n)
  | copied (hdrs : List ℤ) (got : List M) (x : Fin n)
  | received (m : M) (x : Fin n)
  | filled (m : M) (x : Fin n)
  | filtering (banks : List ℤ) (actived : Bool)
  | activating (bank : ℕ) (banks : List ℤ)

/-- The slot that a call has in its hand. -/
def CanPc.hand {M : Type} {n : ℕ} : CanPc M n → Option (Fin n)
  | taken _ _ x => some x
  | copied _ _ x => some x
  | received _ x => some x
  | filled _ x => some x
  | _ => none

/-- Whether a call may begin. -/
def CanPc.atRest {M : Type} {n : ℕ} : CanPc M n → Bool
  | idle => true
  | returned _ => true
  | _ => false

/-- The reception box, with `n` slots, and the calls. `failed` is whether an assertion has failed; `took` and
`log` only record what happened: the messages whose slots a read has taken, and what happened to the box, the
last first. -/
structure CanBox (C M : Type) (n : ℕ) where
  freelist : List (Fin n)
  uselist : List (Fin n)
  freenumbers : ℕ
  data : Fin n → M
  owner : Fin n → Option ℕ
  hdr : ℕ → CanHdr n
  pc : C → CanPc M n
  failed : Bool
  took : C → List M
  log : List (QueueEvent M ℕ)

namespace CanBox

variable {C M : Type} [DecidableEq C] [DecidableEq M] {n : ℕ} (cfg : CanCfg M) (s : CanBox C M n)

/-- Go on. -/
def goto (c : C) (pc : CanPc M n) : CanBox C M n := { s with pc := Function.update s.pc c pc }

/-- `rt_list_remove` of both nodes of a slot, with one message less for a bank, and no owner. -/
def unthread (x : Fin n) (bank : Option ℕ) : CanBox C M n :=
  { s with
    freelist := s.freelist.erase x
    uselist := s.uselist.erase x
    hdr := fun b => { s.hdr b with
      list := (s.hdr b).list.erase x
      msgs := if bank = some b ∧ (s.hdr b).msgs ≠ 0 then (s.hdr b).msgs - 1 else (s.hdr b).msgs }
    owner := Function.update s.owner x none }

/-- The first critical section of the loop of `_can_int_rx`. -/
def readTake (c : C) : Option (CanBox C M n) :=
  match s.pc c with
  | .reading [] got => some (s.goto c (.returned got))
  | .reading (h :: hdrs) got =>
    if 0 ≤ h ∧ h < cfg.maxhdr ∧ (s.hdr h.toNat).list ≠ [] then
      (s.hdr h.toNat).list.head?.map fun x =>
        { (s.unthread x (some h.toNat)).goto c (.taken hdrs got x) with
          took := Function.update s.took c (s.took c ++ [s.data x])
          log := .takeFrom h.toNat (s.data x) :: s.log }
    else if h = -1 then
      match s.uselist with
      | [] => some (s.goto c (.returned got))
      | x :: _ =>
        some { (s.unthread x (s.owner x)).goto c (.taken hdrs got x) with
          took := Function.update s.took c (s.took c ++ [s.data x])
          log := .take (s.data x) :: s.log }
    else some (s.goto c (.returned got))
  | _ => none

/-- The copy of the message. -/
def readCopy (c : C) : Option (CanBox C M n) :=
  match s.pc c with
  | .taken hdrs got x => some (s.goto c (.copied hdrs (got ++ [s.data x]) x))
  | _ => none

/-- The second critical section, with its assertion. -/
def readFree (c : C) : Option (CanBox C M n) :=
  match s.pc c with
  | .copied hdrs got x =>
    some { s.goto c (.reading hdrs got) with
      freelist := s.freelist ++ [x]
      freenumbers := s.freenumbers + 1
      failed := s.failed || !decide (s.freenumbers + 1 ≤ n) }
  | _ => none

/-- The first critical section of the reception, with its assertion. The driver has reported a message of a
bank that exists. -/
def rxTake (c : C) (m : M) : Option (CanBox C M n) :=
  if (s.pc c).atRest = true ∧ 0 ≤ cfg.hdrIndex m ∧ cfg.hdrIndex m < cfg.maxhdr then
    match s.freelist, s.uselist with
    | x :: _, _ =>
      some { (s.unthread x (s.owner x)).goto c (.received m x) with
        freenumbers := s.freenumbers - 1
        failed := s.failed || !decide (0 < s.freenumbers) }
    | [], x :: _ =>
      some { (s.unthread x (s.owner x)).goto c (.received m x) with log := .drop (s.data x) s.freelist.isEmpty :: s.log }
    | [], [] => some s
  else none

/-- The copy of the message into its slot. -/
def rxCopy (c : C) : Option (CanBox C M n) :=
  match s.pc c with
  | .received m x => some { s.goto c (.filled m x) with data := Function.update s.data x m }
  | _ => none

/-- The second critical section of the reception. -/
def rxPut (c : C) : Option (CanBox C M n) :=
  match s.pc c with
  | .filled m x =>
    let b := (cfg.hdrIndex m).toNat
    let s' := { s.goto c .idle with uselist := s.uselist ++ [x] }
    if (s.hdr b).connected then
      some { s' with
        hdr := Function.update s.hdr b
          { s.hdr b with list := (s.hdr b).list ++ [x], msgs := (s.hdr b).msgs + 1 }
        owner := Function.update s.owner x (some b)
        log := .put m (some b) :: s.log }
    else some { s' with log := .put m none :: s.log }
  | _ => none

/-- One bank of `RT_CAN_CMD_SET_FILTER`, up to the copy of its filter if it is activated. -/
def filterStep (c : C) : Option (CanBox C M n) :=
  match s.pc c with
  | .filtering [] _ => some (s.goto c .idle)
  | .filtering (h :: banks) actived =>
    if 0 ≤ h ∧ h < cfg.maxhdr then
      let b := h.toNat
      if actived then
        if (s.hdr b).connected then some (s.goto c (.filtering banks true))
        else some (s.goto c (.activating b banks))
      else if (s.hdr b).connected then
        -- the first message is taken off the list, and keeps its owner
        some { s.goto c (.filtering banks false) with
          hdr := Function.update s.hdr b ⟨false, 0, (s.hdr b).list.tail⟩ }
      else some (s.goto c (.filtering banks false))
    else some (s.goto c (.filtering banks actived))
  | _ => none

/-- The second critical section of an activation. -/
def activate (c : C) : Option (CanBox C M n) :=
  match s.pc c with
  | .activating b banks =>
    some { s.goto c (.filtering banks true) with hdr := Function.update s.hdr b ⟨true, 0, []⟩ }
  | _ => none

/-- A call of `rt_can_read`, with the `hdr_index` of each entry of its buffer. -/
def read (c : C) (hdrs : List ℤ) : Option (CanBox C M n) :=
  if (s.pc c).atRest then some { s.goto c (.reading hdrs []) with took := Function.update s.took c [] }
  else none

/-- A call of `rt_can_control` with `RT_CAN_CMD_SET_FILTER`, with the `hdr_bank` of each item. -/
def setFilter (c : C) (banks : List ℤ) (actived : Bool) : Option (CanBox C M n) :=
  if (s.pc c).atRest then some (s.goto c (.filtering banks actived)) else none

end CanBox

/-- The steps of the calls; `c` is the call. -/
inductive CanLabel (C M : Type) where
  | read (c : C) (hdrs : List ℤ)
  | readTake (c : C)
  | readCopy (c : C)
  | readFree (c : C)
  | rxTake (c : C) (m : M)
  | rxCopy (c : C)
  | rxPut (c : C)
  | setFilter (c : C) (banks : List ℤ) (actived : Bool)
  | filterStep (c : C)
  | activate (c : C)
  deriving DecidableEq

/-- One step. -/
def canStep {C M : Type} [DecidableEq C] [DecidableEq M] {n : ℕ} (cfg : CanCfg M) (s : CanBox C M n) :
    CanLabel C M → Option (CanBox C M n)
  | .read c hdrs => s.read c hdrs
  | .readTake c => s.readTake cfg c
  | .readCopy c => s.readCopy c
  | .readFree c => s.readFree c
  | .rxTake c m => s.rxTake cfg c m
  | .rxCopy c => s.rxCopy c
  | .rxPut c => s.rxPut cfg c
  | .setFilter c banks actived => s.setFilter c banks actived
  | .filterStep c => s.filterStep cfg c
  | .activate c => s.activate c

/-- The device has been opened. -/
structure CanInit {C M : Type} {n : ℕ} (s : CanBox C M n) : Prop where
  freelist : s.freelist = List.finRange n
  uselist : s.uselist = []
  freenumbers : s.freenumbers = n
  owner : ∀ x, s.owner x = none
  hdr : ∀ b, s.hdr b = ⟨false, 0, []⟩
  pc : ∀ c, s.pc c = .idle
  failed : s.failed = false
  took : ∀ c, s.took c = []
  log : s.log = []

/-- The runs of the reception box. -/
def canRxSystem (C M : Type) [DecidableEq C] [DecidableEq M] (n : ℕ) (cfg : CanCfg M) :
    System (CanBox C M n) (CanLabel C M) where
  init := CanInit
  step := canStep cfg

end RtThread
