import Mathlib.Data.List.Infix
import RtThread.Lib.System

/-!
# Receiving a file by YMODEM

`components/utilities/ymodem/ymodem.c`: the receiver reads a code, the rest of a packet, and answers; it
checks the sequence byte against its complement and the payload against its checksum, but not the
sequence byte against the packets before.

* `crc16`, `rymPacket`, `rymTransData`, `rymRead`: the packets and the checks of `_rym_trans_data`;
* `Ymodem`, `RymLabel`, `rymStep`: one file, from the packet that announces it to the call of `on_end`,
  with a sender that transmits a packet again unless it is acknowledged, over a link that corrupts and
  loses;
* **`ymodem_exact`**: the payloads passed to `on_data` are the packets of the file, each once, in every run
  in which damage is noticed and no acknowledgement of a packet is lost; `ymodem_repeated`: a run in
  which one is.
-/

namespace RtThread

/-! ## Packets -/

def rymSoh : UInt8 := 0x01
def rymStx : UInt8 := 0x02
def rymEot : UInt8 := 0x04
def rymAck : UInt8 := 0x06
def rymNak : UInt8 := 0x15
def rymCan : UInt8 := 0x18
def rymC : UInt8 := 0x43

/-- `RYM_MAX_ERRORS`. -/
def rymMaxErrors : ℕ := 5

/-- One bit of `CRC16`. -/
def crcBit (crc : UInt16) : UInt16 :=
  if crc &&& 0x8000 ≠ 0 then crc <<< 1 ^^^ 0x1021 else crc <<< 1

/-- One byte of `CRC16`. -/
def crcByte (crc : UInt16) (q : UInt8) : UInt16 :=
  (List.range 8).foldl (fun crc _ => crcBit crc) (crc ^^^ q.toUInt16 <<< 8)

/-- `CRC16`. -/
def crc16 (q : List UInt8) : UInt16 := q.foldl crcByte 0

/-- `_rym_send_packet`. -/
def rymPacket (index : ℕ) (p : List UInt8) : List UInt8 :=
  (if p.length = 128 then rymSoh else rymStx) :: UInt8.ofNat index :: ~~~ UInt8.ofNat index ::
    (p ++ [(crc16 p >>> 8).toUInt8, (crc16 p).toUInt8])

/-- `enum rym_stage` from the end of the handshake on. -/
inductive RymStage where
  | established
  | transmitting
  | finishing
  deriving DecidableEq

/-- What the receiver makes of a packet. -/
inductive RymRead where
  | eot
  | error
  | ignored
  | data (payload : List UInt8)
  deriving DecidableEq

/-- `_rym_trans_data` on the bytes behind the code, with the new stage and the bytes that are left. When
there are too few bytes they are read, and no more come. -/
def rymTransData (stage : RymStage) (dataSz : ℕ) (rx : List UInt8) :
    RymRead × RymStage × List UInt8 :=
  let tsz := 2 + dataSz + 2
  if rx.length < tsz then (.error, stage, [])
  else
    let buf := rx.take tsz
    let rx := rx.drop tsz
    if (buf.getD 0 0).toNat + (buf.getD 1 0).toNat ≠ 0xFF then (.error, stage, rx)
    else if stage = .established ∧ buf.getD 0 0 = 0 then (.ignored, stage, rx)
    else
      let data := (buf.drop 2).take dataSz
      let recvCrc := (buf.getD (tsz - 2) 0).toUInt16 <<< 8 ||| (buf.getD (tsz - 1) 0).toUInt16
      if recvCrc ≠ crc16 data then (.error, .transmitting, rx) else (.data data, .transmitting, rx)

/-- The code and the rest of a packet, as `_rym_do_trans` reads them. -/
def rymRead (stage : RymStage) (code : UInt8) (rx : List UInt8) : RymRead × RymStage × List UInt8 :=
  if code = rymSoh then rymTransData stage 128 rx
  else if code = rymStx then rymTransData stage 1024 rx
  else if code = rymEot then (.eot, stage, rx)
  else (.error, stage, rx)

/-- A file: the payload of the packet that announces it, and those of its data packets. -/
structure RymFile where
  header : List UInt8
  packets : List (List UInt8)
  sizes : ∀ p ∈ header :: packets, p.length = 128 ∨ p.length = 1024

/-- What the sender transmits: packet 0 is the announcement, and the end of the file follows the last
packet. -/
def RymFile.item (f : RymFile) (index : ℕ) : List UInt8 :=
  match (f.header :: f.packets)[index]? with
  | some p => rymPacket index p
  | none => [rymEot]

/-! ## The system -/

/-- The sender with the index of what it transmits and whether it waits for an answer, the bytes and
the answers on the link, and the receiver with what it has passed to `on_data`, whether it has read the
end of the file and whether it has called `on_end`. -/
structure Ymodem where
  index : ℕ
  waiting : Bool
  rx : List UInt8
  answers : List UInt8
  stage : RymStage
  errors : ℕ
  data : List (List UInt8)
  eot : Bool
  ended : Bool

/-- The sender transmits and the link delivers some bytes; the receiver reads a packet, with the answer of
`on_data`, or nothing; an answer reaches the sender or is lost; the sender gets no answer. -/
inductive RymLabel where
  | transmit (bytes : List UInt8)
  | read (code : UInt8)
  | readNone
  | answer (lost : Bool)
  | noAnswer
  deriving DecidableEq

namespace Ymodem

variable (s : Ymodem)

/-- `_rym_do_fin` up to its first answer. -/
def doFin : Ymodem :=
  { s with stage := .finishing, ended := true, answers := s.answers ++ [rymNak] }

/-- An error in `_rym_do_trans`. When it is one too many the loop is left, and `_rym_do_recv` goes on with
`_rym_do_fin`. -/
def transError : Ymodem :=
  let s := { s with errors := s.errors + 1 }
  if s.errors > rymMaxErrors then s.doFin else { s with answers := s.answers ++ [rymNak] }

/-- `_rym_do_trans` after `on_data` has returned. -/
def transAnswer (code : UInt8) : Ymodem :=
  if code = rymCan then { s with answers := s.answers ++ List.replicate 7 rymCan }.doFin
  else if code = rymAck then { s with answers := s.answers ++ [rymAck] }
  else s

/-- One turn of the loop of `_rym_do_trans`. -/
def doTrans (code : UInt8) : Option Ymodem :=
  match s.rx with
  | [] => none
  | b :: rx =>
    match rymRead s.stage b rx with
    | (.eot, _, rx) => some { s with rx := rx, eot := true }.doFin
    | (.error, stage, rx) => some { s with rx := rx, stage := stage }.transError
    | (.ignored, stage, rx) => some { s with rx := rx, stage := stage, errors := 0 }
    | (.data payload, stage, rx) =>
      some ({ s with rx := rx, stage := stage, errors := 0, data := s.data ++ [payload] }.transAnswer
        code)

/-- The sender gets an answer: it goes on after `ACK` and transmits again after `NAK`, and it ignores other
answers and those that it does not wait for. -/
def getAnswer (code : UInt8) : Ymodem :=
  if s.waiting = false then s
  else if code = rymAck then { s with index := s.index + 1, waiting := false }
  else if code = rymNak then { s with waiting := false }
  else s

end Ymodem

/-- One step. The link delivers at most as many bytes as were transmitted, the receiver gives up reading
when there is nothing to read, and the sender gives up waiting when nothing is on the link. -/
def rymStep (f : RymFile) (s : Ymodem) : RymLabel → Option Ymodem
  | .transmit bytes =>
    if s.waiting = false ∧ bytes.length ≤ (f.item s.index).length then
      some { s with rx := s.rx ++ bytes, waiting := true }
    else none
  | .read code => if s.ended = true then none else s.doTrans code
  | .readNone => if s.ended = false ∧ s.rx = [] then some s.transError else none
  | .answer lost =>
    match s.answers with
    | [] => none
    | code :: answers =>
      let s := { s with answers := answers }
      some (if lost then s else s.getAnswer code)
  | .noAnswer =>
    if s.waiting = true ∧ s.rx = [] ∧ s.answers = [] then some { s with waiting := false } else none

/-- `_rym_do_trans` begins: the announcement is acknowledged. -/
def rymInit (s : Ymodem) : Prop :=
  s = { index := 0, waiting := true, rx := [], answers := [rymAck, rymC], stage := .established,
        errors := 0, data := [], eot := false, ended := false }

/-- The runs that transmit a file. -/
def rymSystem (f : RymFile) : System Ymodem RymLabel where
  init := rymInit
  step := rymStep f

/-- The payloads passed to `on_data` are the packets from the first one on, each once, and all of them
when `on_end` is called, after the sender's end of file was read. -/
structure RymExact (f : RymFile) (s : Ymodem) : Prop where
  data : s.data <+: f.packets
  ended : s.ended = true → s.eot = true ∧ f.packets.length < s.index ∧ s.data = f.packets

/-- The sender transmits when nothing is on the link; what the receiver takes for a packet or for the end
of the file is what the sender has transmitted, and not its announcement; `on_data` returns `ACK`; there
is no error too many; and no acknowledgement is lost. -/
def rymOk (f : RymFile) (s : Ymodem) : RymLabel → Bool
  | .transmit _ => s.rx = [] && s.answers = []
  | .read code =>
    match s.rx with
    | [] => true
    | b :: rx =>
      match (rymRead s.stage b rx).1 with
      | .eot => s.rx = f.item s.index && f.packets.length < s.index
      | .error => s.errors < rymMaxErrors
      | .ignored => true
      | .data _ => s.rx = f.item s.index && 0 < s.index && code = rymAck
  | .readNone => s.errors < rymMaxErrors
  | .answer lost => !lost || s.answers.head? ≠ some rymAck
  | .noAnswer => true

/-! ## Reading a packet -/

section

variable {f : RymFile} {s s' : Ymodem}

theorem rymTransData_length (stage : RymStage) (dataSz : ℕ) (rx : List UInt8) :
    (rymTransData stage dataSz rx).2.2.length ≤ rx.length := by
  have hdrop : (rx.drop (2 + dataSz + 2)).length ≤ rx.length := by
    rw [List.length_drop]
    omega
  unfold rymTransData
  dsimp only
  split
  · exact Nat.zero_le _
  · split
    · exact hdrop
    · split
      · exact hdrop
      · split
        · exact hdrop
        · exact hdrop

/-- Reading never adds to what is left. -/
theorem rymRead_length (stage : RymStage) (code : UInt8) (rx : List UInt8) :
    (rymRead stage code rx).2.2.length ≤ rx.length := by
  unfold rymRead
  split
  · exact rymTransData_length stage 128 rx
  · split
    · exact rymTransData_length stage 1024 rx
    · split
      · exact le_refl _
      · exact le_refl _

/-- A sequence byte and its complement pass the check. -/
theorem rymSeq_complement (x : UInt8) : x.toNat + (~~~x).toNat = 0xFF := by
  have hx := x.toNat_lt
  rw [UInt8.toNat_not]
  show x.toNat + (256 - 1 - x.toNat) = 255
  omega

/-- The two bytes of a checksum. -/
theorem rymCrc_bytes (c : UInt16) :
    (c >>> 8).toUInt8.toUInt16 <<< 8 ||| c.toUInt8.toUInt16 = c := by
  apply UInt16.toNat_inj.mp
  have hc := c.toNat_lt
  have hhi : c.toNat / 256 < 256 := by omega
  have hlo : c.toNat % 256 < 2 ^ 8 := by omega
  rw [UInt16.toNat_or, UInt16.toNat_shiftLeft]
  show ((c >>> 8).toUInt8.toNat <<< 8) % 2 ^ 16 ||| c.toNat % 2 ^ 8 = c.toNat
  have hshift : (c >>> 8).toUInt8.toNat = c.toNat / 256 := by
    show c.toNat >>> 8 % 2 ^ 8 = c.toNat / 256
    rw [Nat.shiftRight_eq_div_pow]
    exact Nat.mod_eq_of_lt hhi
  rw [hshift, Nat.mod_eq_of_lt (by rw [Nat.shiftLeft_eq]; omega), ← Nat.shiftLeft_add_eq_or_of_lt hlo,
    Nat.shiftLeft_eq]
  omega

/-- **The receiver reads what `_rym_send_packet` has sent.** -/
theorem rymTransData_packet (stage : RymStage) (x : UInt8) (p : List UInt8) :
    rymTransData stage p.length (x :: ~~~x :: (p ++ [(crc16 p >>> 8).toUInt8, (crc16 p).toUInt8])) =
      if stage = .established ∧ x = 0 then (.ignored, stage, []) else (.data p, .transmitting, []) := by
  have hlen : (x :: ~~~x :: (p ++ [(crc16 p >>> 8).toUInt8, (crc16 p).toUInt8])).length =
      2 + p.length + 2 := by
    simp only [List.length_cons, List.length_append, List.length_nil]
    omega
  unfold rymTransData
  rw [if_neg (by omega)]
  dsimp only
  rw [List.take_of_length_le hlen.le, List.drop_of_length_le hlen.le]
  have hpayload : (((x :: ~~~x :: (p ++ [(crc16 p >>> 8).toUInt8, (crc16 p).toUInt8])).drop 2).take
      p.length) = p := List.take_left
  have hhi : (x :: ~~~x :: (p ++ [(crc16 p >>> 8).toUInt8, (crc16 p).toUInt8])).getD
      (2 + p.length + 2 - 2) 0 = (crc16 p >>> 8).toUInt8 := by
    rw [show 2 + p.length + 2 - 2 = p.length + 1 + 1 by omega, List.getD_cons_succ, List.getD_cons_succ]
    simp
  have hlo : (x :: ~~~x :: (p ++ [(crc16 p >>> 8).toUInt8, (crc16 p).toUInt8])).getD
      (2 + p.length + 2 - 1) 0 = (crc16 p).toUInt8 := by
    rw [show 2 + p.length + 2 - 1 = p.length + 1 + 1 + 1 by omega, List.getD_cons_succ,
      List.getD_cons_succ]
    simp
  rw [hpayload, hhi, hlo, rymCrc_bytes]
  simp only [List.getD_cons_zero, List.getD_cons_succ]
  rw [rymSeq_complement, if_neg (not_not_intro rfl), if_neg (not_not_intro rfl)]

theorem rymRead_code (stage : RymStage) {p : List UInt8} (hp : p.length = 128 ∨ p.length = 1024)
    (rx : List UInt8) : rymRead stage (if p.length = 128 then rymSoh else rymStx) rx =
      rymTransData stage p.length rx := by
  unfold rymRead
  cases hp with
  | inl hlen => rw [hlen, if_pos rfl, if_pos rfl]
  | inr hlen => rw [hlen, if_neg (show (1024 : ℕ) ≠ 128 by decide), if_neg (by decide), if_pos rfl]

/-- The packets of a file are read as they were sent, and the end of the file is none of them. -/
theorem rymRead_item {b : UInt8} {rx payload : List UInt8} (hitem : b :: rx = f.item s.index)
    (hdata : (rymRead s.stage b rx).1 = .data payload) :
    (f.header :: f.packets)[s.index]? = some payload ∧ (rymRead s.stage b rx).2.2 = [] := by
  unfold RymFile.item at hitem
  cases hp : (f.header :: f.packets)[s.index]? with
  | none =>
    rw [hp] at hitem
    obtain ⟨rfl, rfl⟩ := List.cons.inj hitem
    exact absurd hdata (by unfold rymRead; rw [if_neg (by decide), if_neg (by decide), if_pos rfl]; nofun)
  | some p =>
    rw [hp] at hitem
    obtain ⟨hb, hrx⟩ := List.cons.inj hitem
    rw [hb, hrx, rymRead_code s.stage (f.sizes p (List.mem_of_getElem? hp)), rymTransData_packet] at hdata ⊢
    by_cases hign : s.stage = .established ∧ UInt8.ofNat s.index = 0
    · rw [if_pos hign] at hdata
      cases hdata
    · rw [if_neg hign] at hdata ⊢
      cases hdata
      exact ⟨rfl, rfl⟩

theorem RymFile.item_ne_nil (f : RymFile) (index : ℕ) : f.item index ≠ [] := by
  unfold RymFile.item
  cases (f.header :: f.packets)[index]? with
  | none => exact List.cons_ne_nil _ _
  | some p => exact List.cons_ne_nil _ _

/-! ## The invariant -/

/-- What is on the link. Either the first answer is the acknowledgement of the packet that `on_data` has
got last, and nothing else is on its way; or that packet was acknowledged before. -/
def RymLink (f : RymFile) (s : Ymodem) : Prop :=
  (∃ l, s.answers = rymAck :: l ∧ rymAck ∉ l ∧ s.rx = [] ∧ s.waiting = true ∧
    s.index ≤ f.packets.length ∧ s.data = f.packets.take s.index) ∨
  (rymAck ∉ s.answers ∧ s.data = f.packets.take (s.index - 1))

/-- The invariant. -/
structure RymInv (f : RymFile) (s : Ymodem) : Prop where
  index : s.index ≤ f.packets.length + 1
  rx : s.rx.length ≤ (f.item s.index).length
  whole : s.rx = f.item s.index → s.answers = [] ∧ s.waiting = true
  link : RymLink f s
  ended : s.ended = true → s.eot = true ∧ f.packets.length < s.index

theorem RymInv.exact (h : RymInv f s) : RymExact f s where
  data := by
    cases h.link with
    | inl hl =>
      obtain ⟨l, -, -, -, -, -, hdata⟩ := hl
      exact hdata ▸ List.take_prefix _ _
    | inr hl => exact hl.2 ▸ List.take_prefix _ _
  ended := by
    intro he
    obtain ⟨heot, hlt⟩ := h.ended he
    refine ⟨heot, hlt, ?_⟩
    cases h.link with
    | inl hl =>
      obtain ⟨l, -, -, -, -, hle, -⟩ := hl
      omega
    | inr hl =>
      rw [hl.2]
      exact List.take_of_length_le (by omega)

/-- A link whose answers end with one that is no acknowledgement. -/
theorem RymLink.append {c : UInt8} (hc : c ≠ rymAck) (h : RymLink f s)
    (ha : s'.answers = s.answers ++ [c]) (hrx : s.rx = [] → s'.rx = [])
    (hw : s'.waiting = s.waiting) (hi : s'.index = s.index) (hd : s'.data = s.data) :
    RymLink f s' := by
  have hnot : ∀ l, rymAck ∉ l → rymAck ∉ l ++ [c] := by
    intro l hl hmem
    rw [List.mem_append, List.mem_singleton] at hmem
    exact hmem.elim hl fun he => hc he.symm
  cases h with
  | inl hl =>
    obtain ⟨l, hans, hl, hrx', hwait, hle, hdata⟩ := hl
    refine .inl ⟨l ++ [c], by rw [ha, hans, List.cons_append], hnot l hl, hrx hrx', hw.trans hwait,
      ?_, ?_⟩
    · rw [hi]
      exact hle
    · rw [hd, hi]
      exact hdata
  | inr hl =>
    refine .inr ⟨ha ▸ hnot _ hl.1, ?_⟩
    rw [hd, hi]
    exact hl.2

/-- An error that is not one too many is answered. -/
theorem transError_eq (h : s.errors < rymMaxErrors) :
    s.transError = { s with errors := s.errors + 1, answers := s.answers ++ [rymNak] } := by
  unfold Ymodem.transError
  exact if_neg (Nat.not_lt.mpr h)

/-- An error keeps the invariant when a part of what was transmitted is missing. -/
theorem RymInv.transError (h : RymInv f s) (he : s.errors < rymMaxErrors) {rx : List UInt8}
    (hrx : rx.length < (f.item s.index).length) (hnil : s.rx = [] → rx = []) (stage : RymStage) :
    RymInv f ({ s with rx := rx, stage := stage } : Ymodem).transError := by
  rw [transError_eq (s := { s with rx := rx, stage := stage }) he]
  refine ⟨h.index, Nat.le_of_lt hrx, ?_, h.link.append (by decide) rfl hnil rfl rfl rfl, h.ended⟩
  intro hall
  exact absurd (congrArg List.length hall) (Nat.ne_of_lt hrx)

theorem RymInv.transmit (h : RymInv f s) {bytes : List UInt8} (hok : rymOk f s (.transmit bytes) = true)
    (hst : rymStep f s (.transmit bytes) = some s') : RymInv f s' := by
  simp only [rymOk, Bool.and_eq_true, decide_eq_true_eq] at hok
  simp only [rymStep] at hst
  by_cases hcond : s.waiting = false ∧ bytes.length ≤ (f.item s.index).length
  · rw [if_pos hcond] at hst
    cases hst
    refine ⟨h.index, ?_, fun _ => ⟨hok.2, rfl⟩, ?_, h.ended⟩
    · show (s.rx ++ bytes).length ≤ _
      rw [hok.1]
      exact hcond.2
    · cases h.link with
      | inl hl =>
        obtain ⟨l, hans, -⟩ := hl
        rw [hok.2] at hans
        cases hans
      | inr hl => exact .inr hl
  · rw [if_neg hcond] at hst
    cases hst

/-- A packet is read. -/
theorem RymInv.doTrans (h : RymInv f s) {code : UInt8} (hok : rymOk f s (.read code) = true)
    (hst : s.doTrans code = some s') : RymInv f s' := by
  unfold Ymodem.doTrans at hst
  cases hrx : s.rx with
  | nil =>
    rw [hrx] at hst
    cases hst
  | cons b rx =>
    have hshort : (rymRead s.stage b rx).2.2.length < (f.item s.index).length := by
      have hle := h.rx
      have hread := rymRead_length s.stage b rx
      rw [hrx, List.length_cons] at hle
      omega
    have hpart : ∀ {l}, l = (rymRead s.stage b rx).2.2 → l ≠ f.item s.index := by
      intro l hl hall
      rw [hl] at hall
      exact absurd (congrArg List.length hall) (Nat.ne_of_lt hshort)
    have hnil : s.rx ≠ [] := by
      rw [hrx]
      exact List.cons_ne_nil _ _
    have hnone : rymAck ∉ s.answers ∧ s.data = f.packets.take (s.index - 1) := by
      cases h.link with
      | inl hl =>
        obtain ⟨l, -, -, hr, -⟩ := hl
        exact absurd hr hnil
      | inr hl => exact hl
    simp only [rymOk, hrx] at hok
    simp only [hrx] at hst
    cases hread : rymRead s.stage b rx with
    | mk r p =>
      rw [hread] at hok hst hshort hpart
      cases r with
      | eot =>
        simp only [Bool.and_eq_true, decide_eq_true_eq] at hok
        cases hst
        refine ⟨h.index, Nat.le_of_lt hshort, fun hall => absurd hall (hpart rfl), ?_, fun _ => ⟨rfl, hok.2⟩⟩
        exact h.link.append (c := rymNak) (by decide) rfl (fun hr => absurd hr hnil) rfl rfl rfl
      | error =>
        cases hst
        exact h.transError (of_decide_eq_true hok) hshort (fun hr => absurd hr hnil) _
      | ignored =>
        cases hst
        exact ⟨h.index, Nat.le_of_lt hshort, fun hall => absurd hall (hpart rfl), .inr hnone, h.ended⟩
      | data payload =>
        simp only [Bool.and_eq_true, decide_eq_true_eq] at hok
        obtain ⟨⟨hall, hpos⟩, rfl⟩ := hok
        obtain ⟨hans, hwait⟩ := h.whole (hrx.trans hall)
        obtain ⟨hp, hrest⟩ := rymRead_item hall (congrArg Prod.fst hread)
        have hrest' : p.2 = [] := by
          rw [hread] at hrest
          exact hrest
        cases hst
        unfold Ymodem.transAnswer
        rw [if_neg (by decide), if_pos rfl]
        refine ⟨h.index, Nat.le_of_lt hshort, fun hall => absurd hall (hpart rfl), ?_, h.ended⟩
        obtain ⟨i, hi⟩ : ∃ i, s.index = i + 1 := ⟨s.index - 1, by omega⟩
        rw [hi, List.getElem?_cons_succ] at hp
        obtain ⟨hlt, -⟩ := List.getElem?_eq_some_iff.mp hp
        refine .inl ⟨[], ?_, List.not_mem_nil, hrest', hwait, ?_, ?_⟩
        · show s.answers ++ [rymAck] = [rymAck]
          rw [hans, List.nil_append]
        · show s.index ≤ f.packets.length
          omega
        · show s.data ++ [payload] = f.packets.take s.index
          rw [hnone.2, hi, Nat.add_sub_cancel, List.take_add_one, hp]
          rfl

/-- An answer arrives or is lost. -/
theorem RymInv.answer (h : RymInv f s) {lost : Bool} (hok : rymOk f s (.answer lost) = true)
    (hst : rymStep f s (.answer lost) = some s') : RymInv f s' := by
  simp only [rymStep] at hst
  cases ha : s.answers with
  | nil =>
    rw [ha] at hst
    cases hst
  | cons code answers =>
    rw [ha] at hst
    cases hst
    have hpart : s.rx ≠ f.item s.index := by
      intro hall
      have hnil := (h.whole hall).1
      rw [ha] at hnil
      cases hnil
    cases h.link with
    | inl hl =>
      obtain ⟨l, hans, hl, hrx, hwait, hle, hdata⟩ := hl
      obtain ⟨rfl, rfl⟩ := List.cons.inj (ha.symm.trans hans)
      have hget : lost = false := by
        cases lost with
        | false => rfl
        | true => simp [rymOk, ha] at hok
      subst hget
      have hstep : ({ s with answers := answers } : Ymodem).getAnswer rymAck =
          { s with answers := answers, index := s.index + 1, waiting := false } := by
        unfold Ymodem.getAnswer
        rw [if_neg (by simp only [hwait, Bool.true_eq_false, not_false_eq_true]), if_pos rfl]
      rw [if_neg Bool.false_ne_true, hstep]
      refine ⟨Nat.succ_le_succ hle, ?_, ?_, .inr ⟨hl, hdata⟩, ?_⟩
      · show s.rx.length ≤ _
        rw [hrx]
        exact Nat.zero_le _
      · intro hall
        exact absurd (hall.symm.trans hrx) (f.item_ne_nil _)
      · intro he
        obtain ⟨heot, hlt⟩ := h.ended he
        exact ⟨heot, Nat.lt_succ_of_lt hlt⟩
    | inr hl =>
      rw [ha] at hl
      have hinv : ∀ waiting, RymInv f { s with answers := answers, waiting := waiting } := fun _ =>
        ⟨h.index, h.rx, fun hall => absurd hall hpart,
          .inr ⟨fun hmem => hl.1 (List.mem_cons_of_mem _ hmem), hl.2⟩, h.ended⟩
      have hcode : code ≠ rymAck := by
        rintro rfl
        exact hl.1 List.mem_cons_self
      cases lost with
      | true => exact hinv s.waiting
      | false =>
        rw [if_neg Bool.false_ne_true]
        unfold Ymodem.getAnswer
        split
        · exact hinv s.waiting
        · split
          · exact hinv false
          · exact hinv s.waiting

theorem rymStep_inv (h : RymInv f s) {a : RymLabel} (hok : rymOk f s a = true)
    (hst : rymStep f s a = some s') : RymInv f s' := by
  cases a with
  | transmit bytes => exact h.transmit hok hst
  | read code =>
    simp only [rymStep] at hst
    by_cases hend : s.ended = true
    · rw [if_pos hend] at hst
      cases hst
    · rw [if_neg hend] at hst
      exact h.doTrans hok hst
  | readNone =>
    simp only [rymStep] at hst
    by_cases hcond : s.ended = false ∧ s.rx = []
    · rw [if_pos hcond] at hst
      cases hst
      have hpos : s.rx.length < (f.item s.index).length := by
        rw [hcond.2]
        exact List.length_pos_of_ne_nil (f.item_ne_nil _)
      exact h.transError (of_decide_eq_true hok) hpos id s.stage
    · rw [if_neg hcond] at hst
      cases hst
  | answer lost => exact h.answer hok hst
  | noAnswer =>
    simp only [rymStep] at hst
    by_cases hcond : s.waiting = true ∧ s.rx = [] ∧ s.answers = []
    · rw [if_pos hcond] at hst
      cases hst
      refine ⟨h.index, h.rx, ?_, ?_, h.ended⟩
      · intro hall
        exact absurd (hall.symm.trans hcond.2.1) (f.item_ne_nil _)
      · cases h.link with
        | inl hl =>
          obtain ⟨l, hans, -⟩ := hl
          rw [hcond.2.2] at hans
          cases hans
        | inr hl => exact .inr hl
    · rw [if_neg hcond] at hst
      cases hst

theorem rymInit.inv (h : rymInit s) : RymInv f s := by
  subst h
  refine ⟨Nat.zero_le _, Nat.zero_le _, ?_, ?_, nofun⟩
  · intro hall
    exact absurd hall.symm (f.item_ne_nil 0)
  · exact .inl ⟨[rymC], rfl, by decide, rfl, rfl, Nat.zero_le _, rfl⟩

/-- **Reception is exact while no acknowledgement is lost.** In every run in which the receiver notices
damage, `on_data` returns `ACK`, there is never an error too many, and no acknowledgement of a packet is
lost, the payloads passed to `on_data` are the packets of the file, each once, and `on_end` is called
after the end of the file was read. -/
theorem ymodem_exact (hs : (rymSystem f).Reach (rymOk f) s) : RymExact f s := by
  have hinv : RymInv f s := hs.invariant (I := RymInv f) (fun _ h => rymInit.inv h)
    fun _ _ _ h hok hst => rymStep_inv h hok hst
  exact hinv.exact

/-- A packet that arrives as it was sent is read, but not the announcement once more. -/
theorem rymRead_packet (stage : RymStage) {index : ℕ} (hindex : UInt8.ofNat index ≠ 0) {p : List UInt8}
    (hp : p.length = 128 ∨ p.length = 1024) :
    ∃ b rx, rymPacket index p = b :: rx ∧ rymRead stage b rx = (.data p, .transmitting, []) := by
  refine ⟨_, _, rfl, ?_⟩
  rw [rymRead_code stage hp, rymTransData_packet, if_neg (fun h => hindex h.2)]

/-- The sender transmits a packet, and the receiver passes it to `on_data` and acknowledges it. -/
theorem rymReach_packet {ok : Ymodem → RymLabel → Bool} (hle : ∀ s a, rymOk f s a = true → ok s a = true)
    (hs : (rymSystem f).Reach ok s) (hwait : s.waiting = false) (hrx : s.rx = []) (ha : s.answers = [])
    (hlive : s.ended = false) {i : ℕ} (hi : s.index = i + 1) (hbyte : UInt8.ofNat (i + 1) ≠ 0)
    {p : List UInt8} (hp : f.packets[i]? = some p) :
    (rymSystem f).Reach ok { s with
      waiting := true, rx := [], stage := .transmitting, errors := 0, data := s.data ++ [p],
      answers := [rymAck] } := by
  have hitem : f.item s.index = rymPacket (i + 1) p := by
    unfold RymFile.item
    rw [hi, List.getElem?_cons_succ, hp]
  obtain ⟨b, rx, hpacket, hread⟩ := rymRead_packet s.stage hbyte
    (f.sizes p (List.mem_cons_of_mem _ (List.mem_of_getElem? hp)))
  have htransmit : rymStep f s (.transmit (b :: rx)) = some { s with rx := b :: rx, waiting := true } := by
    simp only [rymStep]
    rw [if_pos ⟨hwait, by rw [hitem, hpacket]⟩, hrx, List.nil_append]
  have hreadStep : rymStep f { s with rx := b :: rx, waiting := true } (.read rymAck) = some { s with
      waiting := true, rx := [], stage := .transmitting, errors := 0, data := s.data ++ [p],
      answers := [rymAck] } := by
    simp only [rymStep, Ymodem.doTrans]
    rw [if_neg (by rw [hlive]; exact Bool.false_ne_true), hread]
    dsimp only
    unfold Ymodem.transAnswer
    rw [if_neg (by decide), if_pos rfl, ha]
    rfl
  have htransmitOk : rymOk f s (.transmit (b :: rx)) = true := by
    simp only [rymOk, hrx, ha, decide_true, Bool.and_self]
  have hreadOk : rymOk f { s with rx := b :: rx, waiting := true } (.read rymAck) = true := by
    simp only [rymOk, hread]
    rw [hitem, hpacket, hi]
    simp only [Nat.succ_pos, decide_true, Bool.and_self]
  exact (hs.step (hle s (.transmit (b :: rx)) htransmitOk) htransmit).step (hle _ (.read rymAck) hreadOk)
    hreadStep

end

/-! ## Runs -/

/-- A file of one packet. -/
def rymOnePacket : RymFile where
  header := List.replicate 128 0
  packets := [List.replicate 128 7]
  sizes := by
    intro p hp
    simp only [List.mem_cons, List.not_mem_nil, or_false] at hp
    cases hp with
    | inl h => exact .inl (h ▸ rfl)
    | inr h => exact .inl (h ▸ rfl)

set_option maxRecDepth 2000 in
/-- The packet is lost, transmitted again and acknowledged, and the end of the file follows. -/
theorem ymodem_exact_again : ∃ s, (rymSystem rymOnePacket).Reach (rymOk rymOnePacket) s ∧
    (s.data = [List.replicate 128 7] ∧ s.ended = true) ∧ RymExact rymOnePacket s := by
  have hs : (rymSystem rymOnePacket).Reach (rymOk rymOnePacket) _ := .init rfl
  have hs := hs.run
    (l := [.answer false, .answer false, .transmit [], .readNone, .answer false]) rfl
  have hs := rymReach_packet (fun _ _ h => h) hs rfl rfl rfl rfl (i := 0) rfl (by decide) rfl
  have hs := hs.run (l := [.answer false, .transmit [rymEot], .read rymAck]) rfl
  exact ⟨_, hs, ⟨rfl, rfl⟩, ymodem_exact hs⟩

/-- **A lost acknowledgement repeats a packet**: it is transmitted again, and the receiver does not compare
its sequence byte with that of the packet before. -/
theorem ymodem_repeated : ¬ ∀ f s, (rymSystem f).Reach System.anyStep s → RymExact f s := by
  intro h
  have hs : (rymSystem rymOnePacket).Reach System.anyStep _ := .init rfl
  have hs := hs.run (l := [.answer false, .answer false]) rfl
  have hs := rymReach_packet (fun _ _ _ => rfl) hs rfl rfl rfl rfl (i := 0) rfl (by decide) rfl
  have hs := hs.run (l := [.answer true, .noAnswer]) rfl
  have hs := rymReach_packet (fun _ _ _ => rfl) hs rfl rfl rfl rfl (i := 0) rfl (by decide) rfl
  exact absurd (h _ _ hs).data.length_le (by decide)

end RtThread
