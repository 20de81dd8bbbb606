import RtThread.Lib.Resumable
import RtThread.Rtlink.Buffer
import RtThread.Rtlink.Session

/-!
# Checking what is received

`rt_link_frame_check`: a loop over a `switch` whose cases fall through, and whose variables are kept
while it waits for more bytes.

* `FrameCheck`, `FrameCheck.switch`, `FrameCheck.frameCheck`: the variables, the cases, the loop;
  `FrameCheck.receive` writes a piece into the buffer and runs it;
* `scan`, `scanStep`: what the unread bytes begin with, read from their start every time;
* `scanStep_resumable`: the scan resumes on more bytes;
* `FrameCheck.Stage`: what the variables say about the bytes read so far;
* **`switch_sim`**, **`frameCheck_runs`**: the loop does what the scan does.
-/

namespace RtThread

/-- `rt_link_frame_parse_t`. -/
inductive FrameParse where
  | findHead | parseHead | parseExtend | parseSeq | checkCrc | handleData
  deriving DecidableEq

/-- The variable `receive_frame`; `realData` is a pointer into the buffer. -/
structure ReceiveFrame where
  head : RtlinkHead
  extend : RtlinkExtend
  attr : RtlinkAttr
  dataLen : ℕ
  realData : ℕ

/-- The frame after `rt_memset`. -/
def ReceiveFrame.zero : ReceiveFrame := ⟨⟨false, false, false, 0, 0, 0⟩, ⟨0, 0⟩, .resend, 0, 0⟩

/-- The frame after `rt_link_frame_init`, with a head. -/
def ReceiveFrame.init (head : RtlinkHead) : ReceiveFrame := ⟨head, ⟨0, 0⟩, .reserve, head.length, 0⟩

/-- The receive buffer, the session, the variables of `rt_link_frame_check`, and the frames handed to
`rt_link_parse_frame` so far. -/
structure FrameCheck where
  rx : RxBuffer
  session : RtlinkSession
  frame : ReceiveFrame
  status : FrameParse
  data : ℕ
  buffLen : ℕ
  handed : List RtlinkReceived

namespace FrameCheck

section

-- what `rt_link_parse_frame` does to the session
variable (parse : RtlinkSession → RtlinkReceived → RtlinkSession) (s : FrameCheck)

/-- `read_point` moves on by a number of bytes. -/
def shiftRead (length : ℕ) : FrameCheck :=
  { s with rx := { s.rx with readPoint := s.rx.pointShift s.rx.readPoint length } }

/-- A byte is left out, and `__find_head`. -/
def reject : FrameCheck :=
  { s.shiftRead 1 with
    session := s.session.stopReceive, frame := .zero, buffLen := 4, status := .findHead }

/-- The case `HEADLE_FRAME_DATA`; the flag says that the loop goes on. -/
def handleData : FrameCheck × Bool :=
  if s.rx.recvLen < s.buffLen then (s, false)
  else
    let received : RtlinkReceived :=
      { service := s.frame.head.service, sequence := s.frame.head.sequence, ack := s.frame.head.ack,
        attr := s.frame.attr, parameter := s.frame.extend.parameter,
        payload := s.rx.hwCopy s.frame.realData s.frame.dataLen }
    ({ s.shiftRead s.buffLen with
        session := parse s.session received, handed := s.handed ++ [received], data := 0, buffLen := 4,
        status := .findHead }, true)

/-- The case `CHECK_FRAME_CRC`. -/
def checkCrc : FrameCheck × Bool :=
  if s.frame.head.crc then
    if s.rx.recvLen < s.buffLen then (s, false)
    else
      let data := s.rx.pointShift s.data s.frame.dataLen
      if leNat (s.rx.hwCopy data 4) ≠ (s.rx.getCrc s.rx.readPoint (s.buffLen - 4)).toNat then
        ({ s with data := data }.reject, true)
      else { s with data := data, status := .handleData }.handleData parse
  else { s with status := .handleData }.handleData parse

/-- The case `PARSE_FRAME_SEQ`. -/
def parseSeq : FrameCheck × Bool :=
  if s.session.inWindow s.frame.attr s.frame.head.sequence then
    let buffLen := s.buffLen + s.frame.dataLen
    let s := { s with frame := { s.frame with realData := s.data } }
    if s.frame.head.crc then { s with buffLen := buffLen + 4, status := .checkCrc }.checkCrc parse
    else { s with buffLen := buffLen, status := .handleData }.checkCrc parse
  else (s.reject, true)

/-- The case `PARSE_FRAME_EXTEND`. -/
def parseExtend : FrameCheck × Bool :=
  if s.frame.head.extend then
    if s.rx.recvLen < s.buffLen then (s, false)
    else
      let extend := RtlinkExtend.ofBytes (s.rx.hwCopy s.data 4)
      let s := { s with data := s.rx.pointShift s.data 4, frame := { s.frame with extend := extend } }
      match RtlinkAttr.ofCode extend.attr with
      | none => (s.reject, true)
      | some attr =>
        { s with frame := { s.frame with attr := attr }, status := .parseSeq }.parseSeq parse
  else { s with status := .parseSeq }.parseSeq parse

/-- The case `PARSE_FRAME_HEAD`. -/
def parseHead : FrameCheck × Bool :=
  if s.rx.recvLen < s.buffLen then (s, false)
  else
    let head := RtlinkHead.ofBytes (s.rx.hwCopy s.rx.readPoint 4)
    let s := { s with data := s.rx.pointShift s.rx.readPoint 4, frame := .init head }
    if rtlinkServiceMax ≤ head.service then (s.reject, true)
    else if head.extend then
      { s with buffLen := s.buffLen + 4, status := .parseExtend }.parseExtend parse
    else
      { s with frame := { s.frame with attr := .shortData }, status := .parseSeq }.parseExtend parse

/-- The `switch`. -/
def switch : FrameCheck × Bool :=
  match s.status with
  | .findHead =>
    if s.rx.peek &&& rtlinkFrameHeadMask = rtlinkFrameHead then ({ s with status := .parseHead }, true)
    else (s.shiftRead 1, true)
  | .parseHead => s.parseHead parse
  | .parseExtend => s.parseExtend parse
  | .parseSeq => s.parseSeq parse
  | .checkCrc => s.checkCrc parse
  | .handleData => s.handleData parse

/-- The loop of `rt_link_frame_check`, for a number of turns. -/
def frameCheckLoop : ℕ → FrameCheck → Option FrameCheck
  | 0, _ => none
  | n + 1, s =>
    if s.rx.recvLen = 0 then some s
    else
      match s.switch parse with
      | (s, true) => frameCheckLoop n s
      | (s, false) => some s

/-- `rt_link_frame_check`: every other turn takes a byte off the buffer. -/
def frameCheck : Option FrameCheck := frameCheckLoop parse (2 * s.rx.recvLen + 2) s

/-- A piece is written into the buffer and checked. -/
def receive (piece : List UInt8) : Option FrameCheck :=
  { s with rx := s.rx.bufferWrite piece }.frameCheck parse

end

end FrameCheck

/-! ## Scanning the unread bytes -/

/-- What the unread bytes begin with. -/
inductive ScanResult where
  | wait
  | skip
  | reject
  | frame (f : RtlinkReceived) (n : ℕ)

/-- The data behind a head of `hl` bytes, with its extension. -/
def scanData (q : List UInt8) (head : RtlinkHead) (attr : RtlinkAttr) (parameter hl : ℕ) : ScanResult :=
  let n := hl + head.length + if head.crc then 4 else 0
  if q.length < n then .wait
  else if head.crc ∧ leNat ((q.drop (hl + head.length)).take 4) ≠ (rtlinkCrc (q.take (n - 4))).toNat then
    .reject
  else
    .frame ⟨head.service, head.sequence, head.ack, attr, parameter, (q.drop hl).take head.length⟩ n

section

variable (session : RtlinkSession)

/-- A head whose attribute is known. -/
def scanSeq (q : List UInt8) (head : RtlinkHead) (attr : RtlinkAttr) (parameter hl : ℕ) : ScanResult :=
  if session.inWindow attr head.sequence then scanData q head attr parameter hl else .reject

/-- The extension behind a head. -/
def scanExtend (q : List UInt8) (head : RtlinkHead) : ScanResult :=
  if q.length < 8 then .wait
  else
    let extend := RtlinkExtend.ofBytes ((q.drop 4).take 4)
    match RtlinkAttr.ofCode extend.attr with
    | none => .reject
    | some attr => scanSeq session q head attr extend.parameter 8

/-- A head. -/
def scanHead (q : List UInt8) : ScanResult :=
  if q.length < 4 then .wait
  else
    let head := RtlinkHead.ofBytes (q.take 4)
    if rtlinkServiceMax ≤ head.service then .reject
    else if head.extend then scanExtend session q head
    else scanSeq session q head .shortData 0 4

/-- The unread bytes. -/
def scan : List UInt8 → ScanResult
  | [] => .wait
  | b :: q =>
    if b &&& rtlinkFrameHeadMask = rtlinkFrameHead then scanHead session (b :: q) else .skip

end

/-- One step on the unread bytes, with the session and the frames handed over. -/
def scanStep (parse : RtlinkSession → RtlinkReceived → RtlinkSession)
    (c : RtlinkSession × List RtlinkReceived) (q : List UInt8) :
    (RtlinkSession × List RtlinkReceived) × List UInt8 × Bool :=
  match scan c.1 q with
  | .wait => (c, q, false)
  | .skip => (c, q.drop 1, true)
  | .reject => ((c.1.stopReceive, c.2), q.drop 1, true)
  | .frame f n => ((parse c.1 f, c.2 ++ [f]), q.drop n, true)

/-! ## The scan resumes -/

section

variable {session : RtlinkSession} {head : RtlinkHead} {attr : RtlinkAttr} {parameter hl : ℕ}
  {p q : List UInt8}

theorem take_take_drop_append {i k : ℕ} (h : i + k ≤ q.length) :
    ((q ++ p).drop i).take k = (q.drop i).take k := by
  rw [List.drop_append_of_le_length (by omega), List.take_append_of_le_length]
  rw [List.length_drop]
  omega

/-- More bytes do not change what is not waited for. -/
theorem scanData_append (h : scanData q head attr parameter hl ≠ .wait) :
    scanData (q ++ p) head attr parameter hl = scanData q head attr parameter hl := by
  unfold scanData at h ⊢
  dsimp only at h ⊢
  by_cases hlen : q.length < hl + head.length + if head.crc then 4 else 0
  · rw [if_pos hlen] at h
    exact absurd rfl h
  · have hlen' : ¬(q ++ p).length < hl + head.length + if head.crc then 4 else 0 := by
      rw [List.length_append]
      omega
    rw [if_neg hlen, if_neg hlen', take_take_drop_append (i := hl) (by omega)]
    by_cases hcrc : head.crc = true
    · simp only [hcrc, if_true] at hlen ⊢
      rw [take_take_drop_append (by omega), List.take_append_of_le_length (by omega)]
    · have hno : ∀ {x : Prop}, ¬(head.crc = true ∧ x) := fun hc => hcrc hc.1
      rw [if_neg hno, if_neg hno]

theorem scanSeq_append (h : scanSeq session q head attr parameter hl ≠ .wait) :
    scanSeq session (q ++ p) head attr parameter hl = scanSeq session q head attr parameter hl := by
  unfold scanSeq at h ⊢
  by_cases hwin : session.inWindow attr head.sequence = true
  · rw [if_pos hwin] at h ⊢
    rw [if_pos hwin, scanData_append h]
  · rw [if_neg hwin, if_neg hwin]

theorem scanExtend_append (h : scanExtend session q head ≠ .wait) :
    scanExtend session (q ++ p) head = scanExtend session q head := by
  unfold scanExtend at h ⊢
  by_cases hlen : q.length < 8
  · rw [if_pos hlen] at h
    exact absurd rfl h
  · have hlen' : ¬(q ++ p).length < 8 := by
      rw [List.length_append]
      omega
    rw [if_neg hlen] at h
    rw [if_neg hlen, if_neg hlen', take_take_drop_append (by omega)]
    dsimp only at h ⊢
    cases hattr : RtlinkAttr.ofCode (RtlinkExtend.ofBytes ((q.drop 4).take 4)).attr with
    | none => rfl
    | some attr =>
      rw [hattr] at h
      exact scanSeq_append h

theorem scanHead_append (h : scanHead session q ≠ .wait) :
    scanHead session (q ++ p) = scanHead session q := by
  unfold scanHead at h ⊢
  by_cases hlen : q.length < 4
  · rw [if_pos hlen] at h
    exact absurd rfl h
  · have hlen' : ¬(q ++ p).length < 4 := by
      rw [List.length_append]
      omega
    rw [if_neg hlen] at h
    rw [if_neg hlen, if_neg hlen', List.take_append_of_le_length (by omega)]
    dsimp only at h ⊢
    by_cases hserv : rtlinkServiceMax ≤ (RtlinkHead.ofBytes (q.take 4)).service
    · rw [if_pos hserv, if_pos hserv]
    · rw [if_neg hserv] at h
      rw [if_neg hserv, if_neg hserv]
      by_cases hext : (RtlinkHead.ofBytes (q.take 4)).extend = true
      · rw [if_pos hext] at h
        rw [if_pos hext, if_pos hext, scanExtend_append h]
      · rw [if_neg hext] at h
        rw [if_neg hext, if_neg hext, scanSeq_append h]

theorem scan_append (h : scan session q ≠ .wait) : scan session (q ++ p) = scan session q := by
  cases q with
  | nil => exact absurd rfl h
  | cons b q =>
    rw [scan] at h ⊢
    rw [List.cons_append, scan]
    by_cases hb : b &&& rtlinkFrameHeadMask = rtlinkFrameHead
    · rw [if_pos hb] at h
      rw [if_pos hb, if_pos hb, ← List.cons_append, scanHead_append h]
    · rw [if_neg hb, if_neg hb]

/-- A frame is not longer than the bytes it is found in. -/
theorem scanData_le {f : RtlinkReceived} {n : ℕ} (h : scanData q head attr parameter hl = .frame f n) :
    n ≤ q.length ∧ hl ≤ n := by
  unfold scanData at h
  dsimp only at h
  split_ifs at h with hlen hcrc
  · cases h
    omega
  · cases h
    omega

theorem scanSeq_le {f : RtlinkReceived} {n : ℕ}
    (h : scanSeq session q head attr parameter hl = .frame f n) : n ≤ q.length ∧ hl ≤ n := by
  unfold scanSeq at h
  split_ifs at h
  exact scanData_le h

theorem scan_le {f : RtlinkReceived} {n : ℕ} (h : scan session q = .frame f n) : n ≤ q.length ∧ 4 ≤ n := by
  cases q with
  | nil => cases h
  | cons b q =>
    rw [scan] at h
    split_ifs at h
    unfold scanHead at h
    dsimp only at h
    split_ifs at h with hlen hserv hext
    · unfold scanExtend at h
      dsimp only at h
      split_ifs at h with hlen'
      cases hattr : RtlinkAttr.ofCode (RtlinkExtend.ofBytes (((b :: q).drop 4).take 4)).attr with
      | none =>
        rw [hattr] at h
        cases h
      | some attr =>
        rw [hattr] at h
        obtain ⟨hle, hge⟩ := scanSeq_le h
        exact ⟨hle, by omega⟩
    · exact scanSeq_le h

/-- **The scan resumes on more bytes.** -/
theorem scanStep_resumable (parse : RtlinkSession → RtlinkReceived → RtlinkSession) :
    Resumable (scanStep parse) := by
  have hdrop : ∀ {q : List UInt8} {n : ℕ} (p), n ≤ q.length → (q ++ p).drop n = q.drop n ++ p :=
    fun p hn => List.drop_append_of_le_length hn
  constructor
  · intro c q c' q' p hst
    unfold scanStep at hst ⊢
    have happ : scan c.1 q ≠ .wait → scan c.1 (q ++ p) = scan c.1 q := scan_append
    cases hscan : scan c.1 q with
    | wait =>
      rw [hscan] at hst
      cases hst
    | skip =>
      have hne : 1 ≤ q.length := by
        cases q with
        | nil => cases hscan
        | cons b q => exact Nat.succ_le_succ (Nat.zero_le _)
      rw [hscan] at hst happ
      rw [happ nofun]
      cases hst
      dsimp only
      rw [hdrop p hne]
    | reject =>
      have hne : 1 ≤ q.length := by
        cases q with
        | nil => cases hscan
        | cons b q => exact Nat.succ_le_succ (Nat.zero_le _)
      rw [hscan] at hst happ
      rw [happ nofun]
      cases hst
      dsimp only
      rw [hdrop p hne]
    | frame f n =>
      have hle := (scan_le hscan).1
      rw [hscan] at hst happ
      rw [happ nofun]
      cases hst
      dsimp only
      rw [hdrop p hle]
  · intro c q c' q' p hst
    unfold scanStep at hst
    cases hscan : scan c.1 q with
    | wait =>
      rw [hscan] at hst
      cases hst
      exact ⟨rfl, rfl⟩
    | _ =>
      rw [hscan] at hst
      cases hst

end

/-! ## The loop and the scan -/

namespace FrameCheck

/-- The head, with its extension, has been read and its sequence number checked. -/
structure AtData (s : FrameCheck) (q : List UInt8) (hl : ℕ) : Prop where
  dataLen : s.frame.dataLen = s.frame.head.length
  realData : s.frame.realData = ringIndex rtlinkReceiveBufferLength s.rx.readPoint hl
  buffLen : s.buffLen = hl + s.frame.head.length + if s.frame.head.crc then 4 else 0
  scan : ∀ p, scan s.session (q ++ p) =
    scanData (q ++ p) s.frame.head s.frame.attr s.frame.extend.parameter hl

/-- **What the variables say** about the unread bytes, and about all that may follow them. -/
def Stage (s : FrameCheck) (q : List UInt8) : Prop :=
  match s.status with
  | .findHead => s.buffLen = 4
  | .parseHead => s.buffLen = 4 ∧ q ≠ [] ∧ ∀ p, scan s.session (q ++ p) = scanHead s.session (q ++ p)
  | .parseExtend =>
    s.buffLen = 8 ∧ s.frame.head.extend = true ∧ s.frame.dataLen = s.frame.head.length ∧
      s.data = ringIndex rtlinkReceiveBufferLength s.rx.readPoint 4 ∧ 4 ≤ q.length ∧
      ∀ p, scan s.session (q ++ p) = scanExtend s.session (q ++ p) s.frame.head
  | .parseSeq => False
  | .checkCrc => s.frame.head.crc = true ∧ s.data = s.frame.realData ∧ ∃ hl, s.AtData q hl
  | .handleData => s.frame.head.crc = false ∧ ∃ hl, s.AtData q hl

variable (parse : RtlinkSession → RtlinkReceived → RtlinkSession) {s : FrameCheck} {q : List UInt8}
  {hl : ℕ}

/-- The case ends as the step of the scan does. -/
def Sim (s : FrameCheck) (q : List UInt8) (r : FrameCheck × Bool) : Prop :=
  ∃ q', r.1.rx.Holds q' ∧ r.1.Stage q' ∧
    scanStep parse (s.session, s.handed) q = ((r.1.session, r.1.handed), q', r.2)

/-- The same, for all that may follow. -/
theorem scan_self {r : List UInt8 → ScanResult} (h : ∀ p, scan s.session (q ++ p) = r (q ++ p)) :
    scan s.session q = r q := by
  have hnil := h []
  rwa [List.append_nil] at hnil

theorem shiftRead_holds {k : ℕ} (h : s.rx.Holds q) (hk : k ≤ q.length) :
    (s.shiftRead k).rx.Holds (q.drop k) := by
  have hzero := h.shift (i := 0) (k := k) (by omega)
  rw [ringIndex_zero h.read, Nat.zero_add] at hzero
  unfold shiftRead
  rw [hzero]
  exact h.drop hk

theorem reject_sim (h : s.rx.Holds q) (hscan : scan s.session q = .reject) :
    Sim parse s q (s.reject, true) := by
  have hne : 1 ≤ q.length := by
    cases q with
    | nil => cases hscan
    | cons b q => exact Nat.succ_le_succ (Nat.zero_le _)
  refine ⟨q.drop 1, shiftRead_holds h hne, rfl, ?_⟩
  unfold scanStep
  rw [hscan]
  rfl

theorem wait_sim (h : s.rx.Holds q) (hst : s.Stage q) (hscan : scan s.session q = .wait) :
    Sim parse s q (s, false) := by
  refine ⟨q, h, hst, ?_⟩
  unfold scanStep
  rw [hscan]

/-- A whole frame is handed over. -/
theorem handleData_go (h : s.rx.Holds q) (hs : s.AtData q hl) (hlen : s.buffLen ≤ q.length)
    (hscan : scan s.session q = .frame ⟨s.frame.head.service, s.frame.head.sequence, s.frame.head.ack,
      s.frame.attr, s.frame.extend.parameter, (q.drop hl).take s.frame.head.length⟩ s.buffLen) :
    Sim parse s q (s.handleData parse) := by
  have hbuff := hs.buffLen
  have hcopy : s.rx.hwCopy s.frame.realData s.frame.dataLen = (q.drop hl).take s.frame.head.length := by
    rw [hs.realData, hs.dataLen]
    exact h.copy (by omega)
  unfold handleData
  rw [h.recvLen_eq, if_neg (by omega), hcopy]
  refine ⟨q.drop s.buffLen, shiftRead_holds h hlen, rfl, ?_⟩
  unfold scanStep
  rw [hscan]

/-- The data of a frame without a CRC. -/
theorem handleData_sim (h : s.rx.Holds q) (hs : s.AtData q hl) (hcrc : s.frame.head.crc = false)
    (hstatus : s.status = .handleData) : Sim parse s q (s.handleData parse) := by
  have hscan : scan s.session q = scanData q s.frame.head s.frame.attr s.frame.extend.parameter hl :=
    scan_self (r := fun q => scanData q _ _ _ _) hs.scan
  unfold scanData at hscan
  dsimp only at hscan
  rw [← hs.buffLen] at hscan
  by_cases hlen : q.length < s.buffLen
  · rw [if_pos hlen] at hscan
    unfold handleData
    rw [if_pos (h.recvLen_eq ▸ hlen)]
    refine wait_sim parse h ?_ hscan
    unfold Stage
    rw [hstatus]
    exact ⟨hcrc, hl, hs⟩
  · rw [if_neg hlen, if_neg fun hc => absurd (hcrc ▸ hc.1) nofun] at hscan
    exact handleData_go parse h hs (Nat.le_of_not_lt hlen) hscan

theorem checkCrc_sim (h : s.rx.Holds q) (hs : s.AtData q hl) (hdata : s.data = s.frame.realData)
    (hst : s.frame.head.crc = true → s.Stage q) : Sim parse s q (s.checkCrc parse) := by
  have hbuff := hs.buffLen
  have hscan : scan s.session q = scanData q s.frame.head s.frame.attr s.frame.extend.parameter hl :=
    scan_self (r := fun q => scanData q _ _ _ _) hs.scan
  unfold checkCrc
  unfold scanData at hscan
  dsimp only at hscan
  rw [← hbuff] at hscan
  by_cases hcrc : s.frame.head.crc = true
  · rw [if_pos hcrc]
    by_cases hlen : q.length < s.buffLen
    · rw [if_pos (h.recvLen_eq ▸ hlen)]
      rw [if_pos hlen] at hscan
      exact wait_sim parse h (hst hcrc) hscan
    · rw [if_neg (h.recvLen_eq ▸ hlen)]
      rw [if_neg hlen] at hscan
      rw [if_pos hcrc] at hbuff
      have hshift : s.rx.pointShift s.data s.frame.dataLen =
          ringIndex rtlinkReceiveBufferLength s.rx.readPoint (hl + s.frame.head.length) := by
        rw [hdata, hs.realData, hs.dataLen]
        exact h.shift (by omega)
      dsimp only
      rw [hshift, h.copy (by omega), h.crc (by omega)]
      by_cases hne : leNat ((q.drop (hl + s.frame.head.length)).take 4) ≠
          (rtlinkCrc (q.take (s.buffLen - 4))).toNat
      · rw [if_pos hne]
        rw [if_pos ⟨hcrc, hne⟩] at hscan
        exact reject_sim (s := { s with data := _ }) parse h hscan
      · rw [if_neg hne]
        rw [if_neg fun hc => hne hc.2] at hscan
        exact handleData_go (s := { s with data := _, status := .handleData }) parse h
          ⟨hs.dataLen, hs.realData, hs.buffLen, hs.scan⟩ (Nat.le_of_not_lt hlen) hscan
  · rw [if_neg hcrc]
    exact handleData_sim (s := { s with status := .handleData }) parse h
      ⟨hs.dataLen, hs.realData, hs.buffLen, hs.scan⟩ (Bool.eq_false_iff.mpr hcrc) rfl

theorem parseSeq_sim {i : ℕ} (h : s.rx.Holds q) (hlen : s.frame.dataLen = s.frame.head.length)
    (hdata : s.data = ringIndex rtlinkReceiveBufferLength s.rx.readPoint i) (hbuff : s.buffLen = i)
    (hscan : ∀ p, scan s.session (q ++ p) =
      scanSeq s.session (q ++ p) s.frame.head s.frame.attr s.frame.extend.parameter i) :
    Sim parse s q (s.parseSeq parse) := by
  unfold parseSeq
  by_cases hwin : s.session.inWindow s.frame.attr s.frame.head.sequence = true
  · rw [if_pos hwin]
    have hdone : ∀ p, scan s.session (q ++ p) =
        scanData (q ++ p) s.frame.head s.frame.attr s.frame.extend.parameter i := by
      intro p
      rw [hscan p, scanSeq, if_pos hwin]
    dsimp only
    by_cases hcrc : s.frame.head.crc = true
    · rw [if_pos hcrc]
      have hs : ({ s with
          frame := { s.frame with realData := s.data }, buffLen := s.buffLen + s.frame.dataLen + 4,
          status := .checkCrc } : FrameCheck).AtData q i := by
        refine ⟨hlen, hdata, ?_, hdone⟩
        show s.buffLen + s.frame.dataLen + 4 = i + s.frame.head.length + if s.frame.head.crc then 4 else 0
        rw [if_pos hcrc, hbuff, hlen]
      exact checkCrc_sim parse h hs rfl fun _ => ⟨hcrc, rfl, i, hs⟩
    · rw [if_neg hcrc]
      have hs : ({ s with
          frame := { s.frame with realData := s.data }, buffLen := s.buffLen + s.frame.dataLen,
          status := .handleData } : FrameCheck).AtData q i := by
        refine ⟨hlen, hdata, ?_, hdone⟩
        show s.buffLen + s.frame.dataLen = i + s.frame.head.length + if s.frame.head.crc then 4 else 0
        rw [if_neg hcrc, hbuff, hlen, Nat.add_zero]
      exact checkCrc_sim parse h hs rfl fun hc => absurd hc hcrc
  · rw [if_neg hwin]
    refine reject_sim parse h ?_
    rw [scan_self (r := fun q => scanSeq _ q _ _ _ _) hscan]
    exact if_neg hwin

theorem parseExtend_sim (h : s.rx.Holds q) (hst : s.Stage q) (hstatus : s.status = .parseExtend) :
    Sim parse s q (s.parseExtend parse) := by
  have hst' := hst
  unfold Stage at hst'
  rw [hstatus] at hst'
  obtain ⟨hbuff, hext, hlen, hdata, hfour, hscan⟩ := hst'
  have hself : scan s.session q = scanExtend s.session q s.frame.head :=
    scan_self (r := fun q => scanExtend _ q _) hscan
  unfold scanExtend at hself
  unfold parseExtend
  rw [if_pos hext, h.recvLen_eq, hbuff]
  by_cases hshort : q.length < 8
  · rw [if_pos hshort]
    rw [if_pos hshort] at hself
    exact wait_sim parse h hst hself
  · rw [if_neg hshort]
    rw [if_neg hshort] at hself
    dsimp only at hself ⊢
    have hshift : s.rx.pointShift s.data 4 = ringIndex rtlinkReceiveBufferLength s.rx.readPoint 8 := by
      rw [hdata]
      exact h.shift (by omega)
    rw [hshift]
    have hcopy : s.rx.hwCopy s.data 4 = (q.drop 4).take 4 := by
      rw [hdata]
      exact h.copy (by omega)
    rw [hcopy]
    cases hattr : RtlinkAttr.ofCode (RtlinkExtend.ofBytes ((q.drop 4).take 4)).attr with
    | none =>
      rw [hattr] at hself
      exact reject_sim (s := { s with data := _ }) parse h hself
    | some attr =>
      have hnext := parseSeq_sim (i := 8) (q := q) (s := { s with
        data := ringIndex rtlinkReceiveBufferLength s.rx.readPoint 8,
        frame := { s.frame with
          extend := RtlinkExtend.ofBytes ((q.drop 4).take 4), attr := attr },
        status := .parseSeq }) parse h hlen rfl hbuff (by
          intro p
          show scan s.session (q ++ p) = _
          rw [hscan p, scanExtend, if_neg (by rw [List.length_append]; omega),
            take_take_drop_append (by omega)]
          dsimp only
          rw [hattr])
      rw [hbuff] at hnext
      exact hnext

theorem parseHead_sim (h : s.rx.Holds q) (hst : s.Stage q) (hstatus : s.status = .parseHead) :
    Sim parse s q (s.parseHead parse) := by
  have hst' := hst
  unfold Stage at hst'
  rw [hstatus] at hst'
  obtain ⟨hbuff, -, hscan⟩ := hst'
  have hself : scan s.session q = scanHead s.session q := scan_self (r := fun q => scanHead _ q) hscan
  unfold scanHead at hself
  unfold parseHead
  rw [h.recvLen_eq, hbuff]
  by_cases hshort : q.length < 4
  · rw [if_pos hshort]
    rw [if_pos hshort] at hself
    exact wait_sim parse h hst hself
  · rw [if_neg hshort]
    rw [if_neg hshort] at hself
    have hzero := ringIndex_zero h.read
    have hcopy : s.rx.hwCopy s.rx.readPoint 4 = q.take 4 := by
      have hcopy := h.copy (i := 0) (k := 4) (by omega)
      rwa [hzero, List.drop_zero] at hcopy
    have hshift : s.rx.pointShift s.rx.readPoint 4 =
        ringIndex rtlinkReceiveBufferLength s.rx.readPoint 4 := by
      have hshift := h.shift (i := 0) (k := 4) (by omega)
      rwa [hzero, Nat.zero_add] at hshift
    have hlong : ∀ p, ¬(q ++ p).length < 4 := by
      intro p
      rw [List.length_append]
      omega
    dsimp only at hself ⊢
    rw [hcopy, hshift]
    by_cases hserv : rtlinkServiceMax ≤ (RtlinkHead.ofBytes (q.take 4)).service
    · rw [if_pos hserv]
      rw [if_pos hserv] at hself
      exact reject_sim (s := { s with data := _ }) parse h hself
    · rw [if_neg hserv]
      have hcont : ∀ p, scan s.session (q ++ p) =
          if (RtlinkHead.ofBytes (q.take 4)).extend then
            scanExtend s.session (q ++ p) (RtlinkHead.ofBytes (q.take 4))
          else scanSeq s.session (q ++ p) (RtlinkHead.ofBytes (q.take 4)) .shortData 0 4 := by
        intro p
        rw [hscan p, scanHead, if_neg (hlong p), List.take_append_of_le_length (by omega)]
        dsimp only
        rw [if_neg hserv]
      by_cases hext : (RtlinkHead.ofBytes (q.take 4)).extend = true
      · rw [if_pos hext]
        simp only [if_pos hext] at hcont
        exact parseExtend_sim (s := { s with
          data := _, frame := .init _, buffLen := _, status := .parseExtend }) parse h
          ⟨rfl, hext, rfl, rfl, by omega, hcont⟩ rfl
      · rw [if_neg hext]
        simp only [if_neg hext] at hcont
        have hnext := parseSeq_sim (i := 4) (q := q) (s := { s with
          data := ringIndex rtlinkReceiveBufferLength s.rx.readPoint 4,
          frame := { ReceiveFrame.init (RtlinkHead.ofBytes (q.take 4)) with attr := .shortData },
          status := .parseSeq }) parse h rfl rfl hbuff hcont
        unfold parseExtend
        rw [hbuff] at hnext
        rw [if_neg (by show ¬(RtlinkHead.ofBytes (q.take 4)).extend = true; exact hext)]
        exact hnext

theorem scanStep_lt {c c' : RtlinkSession × List RtlinkReceived} {q' : List UInt8}
    (h : scanStep parse c q = (c', q', true)) : q'.length < q.length := by
  have hne : scan c.1 q ≠ .wait → 1 ≤ q.length := by
    intro hscan
    cases q with
    | nil => exact absurd rfl hscan
    | cons b q => exact Nat.succ_le_succ (Nat.zero_le _)
  unfold scanStep at h
  cases hscan : scan c.1 q with
  | wait =>
    rw [hscan] at h
    cases h
  | skip =>
    rw [hscan] at h hne
    cases h
    have hone := hne nofun
    rw [List.length_drop]
    omega
  | reject =>
    rw [hscan] at h hne
    cases h
    have hone := hne nofun
    rw [List.length_drop]
    omega
  | frame f n =>
    have hle := scan_le hscan
    rw [hscan] at h
    cases h
    rw [List.length_drop]
    omega

/-- **One turn of the loop** finds the head of a frame, or does a step of the scan. -/
theorem switch_sim (h : s.rx.Holds q) (hst : s.Stage q) (hne : q ≠ []) :
    s.status = .findHead ∧ s.switch parse = ({ s with status := .parseHead }, true) ∧
      ({ s with status := .parseHead } : FrameCheck).Stage q ∨ Sim parse s q (s.switch parse) := by
  unfold switch
  cases hstatus : s.status with
  | findHead =>
    have hst' := hst
    unfold Stage at hst'
    rw [hstatus] at hst'
    obtain ⟨b, q, rfl⟩ := List.exists_cons_of_ne_nil hne
    have hpeek := h.peek_eq rfl
    dsimp only
    rw [hpeek]
    by_cases hb : b &&& rtlinkFrameHeadMask = rtlinkFrameHead
    · rw [if_pos hb]
      refine .inl ⟨rfl, rfl, hst', hne, fun p => ?_⟩
      show scan s.session (b :: (q ++ p)) = _
      rw [scan, if_pos hb]
      rfl
    · rw [if_neg hb]
      refine .inr ⟨q, shiftRead_holds h (by simp), ?_, ?_⟩
      · show Stage (s.shiftRead 1) q
        have hkeep : (s.shiftRead 1).status = .findHead := hstatus
        unfold Stage
        rw [hkeep]
        exact hst'
      · unfold scanStep
        rw [scan, if_neg hb]
        rfl
  | parseHead => exact .inr (parseHead_sim parse h hst hstatus)
  | parseExtend => exact .inr (parseExtend_sim parse h hst hstatus)
  | parseSeq =>
    unfold Stage at hst
    rw [hstatus] at hst
    cases hst
  | checkCrc =>
    have hst' := hst
    unfold Stage at hst'
    rw [hstatus] at hst'
    obtain ⟨-, hdata, hl, hs⟩ := hst'
    exact .inr (checkCrc_sim parse h hs hdata fun _ => hst)
  | handleData =>
    have hst' := hst
    unfold Stage at hst'
    rw [hstatus] at hst'
    obtain ⟨hcrc, hl, hs⟩ := hst'
    exact .inr (handleData_sim parse h hs hcrc hstatus)

theorem frameCheckLoop_runs {n : ℕ} (h : s.rx.Holds q) (hst : s.Stage q)
    (hn : 2 * q.length + (if s.status = .findHead then 1 else 0) < n) :
    ∃ s' q', frameCheckLoop parse n s = some s' ∧ s'.rx.Holds q' ∧ s'.Stage q' ∧
      RunsOn (scanStep parse) (s.session, s.handed) q (s'.session, s'.handed) q' := by
  induction n generalizing s q with
  | zero => omega
  | succ n ih =>
    rw [frameCheckLoop, h.recvLen_eq]
    by_cases hnil : q = []
    · subst hnil
      exact ⟨s, [], if_pos rfl, h, hst, .wait rfl⟩
    · rw [if_neg fun hlen => hnil (List.length_eq_zero_iff.mp hlen)]
      cases switch_sim parse h hst hnil with
      | inl hhead =>
        obtain ⟨hstatus, hswitch, hst'⟩ := hhead
        rw [if_pos hstatus] at hn
        rw [hswitch]
        exact ih (s := { s with status := .parseHead }) h hst' (by rw [if_neg nofun]; omega)
      | inr hsim =>
        obtain ⟨q', hq', hst', hstep⟩ := hsim
        cases hswitch : s.switch parse with
        | mk s' go =>
          rw [hswitch] at hq' hst' hstep
          cases go with
          | false => exact ⟨s', q', rfl, hq', hst', .wait hstep⟩
          | true =>
            have hlt := scanStep_lt parse hstep
            have hfuel : 2 * q'.length + (if s'.status = .findHead then 1 else 0) < n := by
              split_ifs <;> split_ifs at hn <;> omega
            obtain ⟨s'', q'', hloop, hq'', hst'', hrun⟩ := ih hq' hst' hfuel
            exact ⟨s'', q'', hloop, hq'', hst'', .go hstep hrun⟩

/-- **`rt_link_frame_check` does what the scan does.** -/
theorem frameCheck_runs (h : s.rx.Holds q) (hst : s.Stage q) :
    ∃ s' q', s.frameCheck parse = some s' ∧ s'.rx.Holds q' ∧ s'.Stage q' ∧
      RunsOn (scanStep parse) (s.session, s.handed) q (s'.session, s'.handed) q' := by
  refine frameCheckLoop_runs parse h hst ?_
  rw [h.recvLen_eq]
  split_ifs <;> omega

end FrameCheck

end RtThread
