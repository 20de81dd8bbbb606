import Mathlib.Tactic.IntervalCases
import RtThread.Rtlink.Check

/-!
# Framing of rt-link

* `scan_bytes`: a frame that was sent is read as it was sent, if its sequence number passes the check,
  and rejected otherwise;
* `FrameCheck.receivePieces`, `FrameCheck.neverFull`: the pieces of a byte stream, one after the other;
* **`receivePieces_split`**: the frames handed over do not depend on how the stream is split;
* `accepted`, `Resyncs`: the frames whose sequence numbers pass the check, and the condition that no
  head of a frame is found inside a rejected one;
* **`rtlink_framing`**: the receiver hands over exactly the accepted frames; `rtlink_framing_inside`: a
  rejected frame inside which another one is found.
-/

namespace RtThread

/-! ## Reading what was sent -/

section

variable {session : RtlinkSession} {head : RtlinkHead} {attr : RtlinkAttr} {parameter : ℕ}
  {pre data rest : List UInt8} {f : RtlinkSent}

theorem head_mask (h : RtlinkHead) :
    ∃ l, h.bytes = UInt8.ofNat h.word :: l ∧
      UInt8.ofNat h.word &&& rtlinkFrameHeadMask = rtlinkFrameHead := by
  refine ⟨leBytes 3 (h.word / 256), rfl, ?_⟩
  have hmask : h.word % 256 % 32 = 21 := by
    unfold RtlinkHead.word
    omega
  apply UInt8.toNat_inj.mp
  rw [UInt8.toNat_and, UInt8.toNat_ofNat']
  show h.word % 256 &&& 2 ^ 5 - 1 = 21
  rw [Nat.and_two_pow_sub_one_eq_mod]
  exact hmask

/-- Data without a CRC. -/
theorem scanData_plain (hlen : head.length = data.length) (hcrc : head.crc = false) :
    scanData (pre ++ data ++ rest) head attr parameter pre.length =
      .frame ⟨head.service, head.sequence, head.ack, attr, parameter, data⟩ (pre ++ data).length := by
  unfold scanData
  have hno : ∀ {x : Prop}, ¬(head.crc = true ∧ x) := fun hc => absurd (hcrc ▸ hc.1) nofun
  dsimp only
  rw [if_neg hno, hlen, hcrc, List.append_assoc, List.drop_left, List.take_left]
  simp only [List.length_append, Bool.false_eq_true, if_false, Nat.add_zero]
  rw [if_neg (by omega)]

/-- Data with the CRC of all that stands before it. -/
theorem scanData_crc (hlen : head.length = data.length) (hcrc : head.crc = true) :
    scanData (pre ++ data ++ leBytes 4 (rtlinkCrc (pre ++ data)).toNat ++ rest) head attr parameter
        pre.length =
      .frame ⟨head.service, head.sequence, head.ack, attr, parameter, data⟩
        ((pre ++ data).length + 4) := by
  have hread : leNat (leBytes 4 (rtlinkCrc (pre ++ data)).toNat) = (rtlinkCrc (pre ++ data)).toNat := by
    rw [leNat_leBytes]
    exact Nat.mod_eq_of_lt (UInt32.toNat_lt _)
  have hbody : pre.length + data.length = (pre ++ data).length := List.length_append.symm
  unfold scanData
  dsimp only
  rw [if_pos hcrc, hlen, hbody, Nat.add_sub_cancel, List.append_assoc (pre ++ data), List.drop_left,
    List.take_left' (length_leBytes 4 _), List.take_left, hread, List.append_assoc pre, List.drop_left,
    List.take_left]
  have heq : ∀ {n : ℕ}, ¬(head.crc = true ∧ n ≠ n) := fun hc => hc.2 rfl
  rw [if_neg heq, if_neg]
  simp only [List.length_append, length_leBytes]
  omega

/-- A head without an extension. -/
theorem scan_head_short (hf : head.Fits) (hserv : head.service < rtlinkServiceMax)
    (hext : head.extend = false) :
    scan session (head.bytes ++ rest) =
      scanSeq session (head.bytes ++ rest) head .shortData 0 head.bytes.length := by
  obtain ⟨l, hl, hmask⟩ := head_mask head
  have hhead : scan session (head.bytes ++ rest) = scanHead session (head.bytes ++ rest) := by
    rw [hl, List.cons_append, scan, if_pos hmask]
  rw [hhead, scanHead, if_neg (by simp), List.take_left' RtlinkHead.length_bytes,
    RtlinkHead.ofBytes_bytes hf]
  dsimp only
  rw [if_neg (by omega), if_neg (by simp [hext]), RtlinkHead.length_bytes]

/-- A head with an extension. -/
theorem scan_head_extend {e : RtlinkExtend} (hf : head.Fits) (hserv : head.service < rtlinkServiceMax)
    (hext : head.extend = true) (he : RtlinkAttr.ofCode e.attr = some attr) (ha : e.attr < 65536)
    (hp : e.parameter < 65536) :
    scan session (head.bytes ++ e.bytes ++ rest) =
      scanSeq session (head.bytes ++ e.bytes ++ rest) head attr e.parameter
        (head.bytes ++ e.bytes).length := by
  obtain ⟨l, hl, hmask⟩ := head_mask head
  have hhead : scan session (head.bytes ++ e.bytes ++ rest) =
      scanHead session (head.bytes ++ e.bytes ++ rest) := by
    rw [hl, List.cons_append, List.cons_append, scan, if_pos hmask]
  rw [hhead, scanHead, if_neg (by simp), List.append_assoc, List.take_left' RtlinkHead.length_bytes,
    RtlinkHead.ofBytes_bytes hf]
  dsimp only
  rw [if_neg (by omega), if_pos hext, scanExtend, if_neg (by simp; omega), List.drop_left' RtlinkHead.length_bytes,
    List.take_left' RtlinkExtend.length_bytes, RtlinkExtend.ofBytes_bytes ha hp]
  dsimp only
  rw [he, List.length_append, RtlinkHead.length_bytes, RtlinkExtend.length_bytes]

/-- **What was sent is read as it was sent**, or rejected for its sequence number. -/
theorem scan_bytes (hf : f.Valid) :
    scan session (f.bytes ++ rest) =
      if session.inWindow f.received.attr f.received.sequence then .frame f.received f.bytes.length
      else .reject := by
  cases f with
  | command serv sequence attr parameter =>
    obtain ⟨hseq, hserv, -, -, hres, hparam⟩ := hf
    have hcode : attr.code < 65536 := by cases attr <;> decide
    have hfits : RtlinkHead.Fits ⟨true, false, false, sequence, serv, 0⟩ :=
      ⟨hseq, Nat.lt_trans hserv (by decide), Nat.zero_lt_succ _⟩
    show scan session (RtlinkHead.bytes _ ++ RtlinkExtend.bytes _ ++ rest) = _
    rw [scan_head_extend hfits hserv rfl (RtlinkAttr.ofCode_code hres) hcode hparam, scanSeq]
    by_cases hwin : session.inWindow attr sequence = true
    · rw [if_pos hwin]
      have hdata : scanData (RtlinkHead.bytes ⟨true, false, false, sequence, serv, 0⟩ ++
          RtlinkExtend.bytes ⟨attr.code, parameter⟩ ++ [] ++ rest)
          ⟨true, false, false, sequence, serv, 0⟩ attr parameter
          (RtlinkHead.bytes ⟨true, false, false, sequence, serv, 0⟩ ++
            RtlinkExtend.bytes ⟨attr.code, parameter⟩).length =
          .frame ⟨serv, sequence, false, attr, parameter, []⟩ _ := scanData_plain rfl rfl
      rw [List.append_nil] at hdata
      rw [hdata]
      exact (if_pos hwin).symm
    · rw [if_neg hwin]
      exact (if_neg hwin).symm
  | frame f =>
    obtain ⟨hseq, hserv, hlen, hkind⟩ := hf
    have hmax : f.realData.length < 2048 := Nat.lt_of_le_of_lt hlen (by decide)
    have hfits : RtlinkHead.Fits { f.head with length := f.realData.length } :=
      ⟨hseq, Nat.lt_trans hserv (by decide), hmax⟩
    -- the bytes up to the CRC, and what `scan` makes of the head
    obtain ⟨pre, hbytes, hscan⟩ : ∃ pre,
        frameSend f = (if f.head.crc then
            pre ++ f.realData ++ leBytes 4 (rtlinkCrc (pre ++ f.realData)).toNat
          else pre ++ f.realData) ∧
        ∀ t, scan session (pre ++ t) = scanSeq session (pre ++ t)
          { f.head with length := f.realData.length } f.attr f.extend.parameter pre.length := by
      cases hkind with
      | inl hshort =>
        obtain ⟨hattr, hext, hparam⟩ := hshort
        refine ⟨RtlinkHead.bytes { f.head with length := f.realData.length }, ?_, fun t => ?_⟩
        · simp [frameSend, hext, hattr]
        · rw [hattr, hparam]
          exact scan_head_short hfits hserv hext
      | inr hlong =>
        obtain ⟨hattr, hext, hcode, hparam⟩ := hlong
        refine ⟨RtlinkHead.bytes { f.head with length := f.realData.length } ++ f.extend.bytes, ?_,
          fun t => ?_⟩
        · simp [frameSend, hext, hattr]
        · rw [hattr]
          exact scan_head_extend hfits hserv hext (by rw [hcode]; rfl) (by rw [hcode]; decide) hparam
    show scan session (frameSend f ++ rest) = if session.inWindow f.attr f.head.sequence then
      .frame _ (frameSend f).length else .reject
    rw [hbytes]
    cases hcrc : f.head.crc with
    | false =>
      simp only [Bool.false_eq_true, if_false]
      have hdata : scanData (pre ++ f.realData ++ rest) { f.head with length := f.realData.length } f.attr
          f.extend.parameter pre.length =
          .frame (RtlinkSent.frame f).received (pre ++ f.realData).length := scanData_plain rfl hcrc
      rw [List.append_assoc, hscan, ← List.append_assoc, scanSeq, hdata]
    | true =>
      simp only [if_true]
      have hdata : scanData
          (pre ++ f.realData ++ leBytes 4 (rtlinkCrc (pre ++ f.realData)).toNat ++ rest)
          { f.head with length := f.realData.length } f.attr f.extend.parameter pre.length =
          .frame (RtlinkSent.frame f).received
            (pre ++ f.realData ++ leBytes 4 (rtlinkCrc (pre ++ f.realData)).toNat).length := by
        rw [List.length_append, length_leBytes]
        exact scanData_crc rfl hcrc
      rw [List.append_assoc, List.append_assoc, hscan, ← List.append_assoc, ← List.append_assoc, scanSeq,
        hdata]

end

/-! ## The pieces of a stream -/

namespace FrameCheck

section

variable (parse : RtlinkSession → RtlinkReceived → RtlinkSession) {s s' : FrameCheck}
  {p q : List UInt8} {ps ps' : List (List UInt8)}

/-- The receiver with an empty buffer, looking for a head. -/
def start (rx : RxBuffer) (session : RtlinkSession) : FrameCheck :=
  ⟨rx, session, .zero, .findHead, 0, 4, []⟩

/-- The pieces, one after the other. -/
def receivePieces (s : FrameCheck) : List (List UInt8) → Option FrameCheck
  | [] => some s
  | p :: ps => (s.receive parse p).bind fun s => receivePieces s ps

/-- No piece fills the buffer. -/
def neverFull (s : FrameCheck) : List (List UInt8) → Bool
  | [] => true
  | p :: ps =>
    decide (s.rx.recvLen + p.length < rtlinkReceiveBufferLength) &&
      (s.receive parse p).all fun s => neverFull s ps

theorem readPoint_bufferWrite (b : RxBuffer) : (b.bufferWrite p).readPoint = b.readPoint := by
  unfold RxBuffer.bufferWrite
  dsimp only
  split_ifs <;> rfl

/-- What the variables say holds with more bytes. -/
theorem stage_put (h : s.Stage q) : ({ s with rx := s.rx.bufferWrite p } : FrameCheck).Stage (q ++ p) := by
  unfold Stage at h ⊢
  have hat : ∀ {hl : ℕ}, s.AtData q hl →
      ({ s with rx := s.rx.bufferWrite p } : FrameCheck).AtData (q ++ p) hl := by
    intro hl hs
    refine ⟨hs.dataLen, ?_, hs.buffLen, fun p' => ?_⟩
    · show _ = ringIndex _ (s.rx.bufferWrite p).readPoint hl
      rw [readPoint_bufferWrite]
      exact hs.realData
    · rw [List.append_assoc]
      exact hs.scan (p ++ p')
  cases hstatus : s.status with
  | findHead =>
    rw [hstatus] at h
    exact h
  | parseHead =>
    rw [hstatus] at h
    refine ⟨h.1, fun hnil => h.2.1 (List.append_eq_nil_iff.mp hnil).1, fun p' => ?_⟩
    rw [List.append_assoc]
    exact h.2.2 (p ++ p')
  | parseExtend =>
    rw [hstatus] at h
    obtain ⟨hbuff, hext, hlen, hdata, hfour, hscan⟩ := h
    refine ⟨hbuff, hext, hlen, ?_, ?_, fun p' => ?_⟩
    · show _ = ringIndex _ (s.rx.bufferWrite p).readPoint 4
      rw [readPoint_bufferWrite]
      exact hdata
    · rw [List.length_append]
      omega
    · rw [List.append_assoc]
      exact hscan (p ++ p')
  | parseSeq =>
    rw [hstatus] at h
    cases h
  | checkCrc =>
    rw [hstatus] at h
    exact ⟨h.1, h.2.1, h.2.2.elim fun hl hs => ⟨hl, hstatus ▸ hat hs⟩⟩
  | handleData =>
    rw [hstatus] at h
    exact ⟨h.1, h.2.elim fun hl hs => ⟨hl, hstatus ▸ hat hs⟩⟩

/-- **The pieces are scanned one after the other.** -/
theorem receivePieces_feeds (h : s.rx.Holds q) (hst : s.Stage q) (hfull : s.neverFull parse ps = true) :
    ∃ s' q', s.receivePieces parse ps = some s' ∧ s'.rx.Holds q' ∧
      Feeds (scanStep parse) (s.session, s.handed) q ps (s'.session, s'.handed) q' := by
  induction ps generalizing s q with
  | nil => exact ⟨s, q, rfl, h, .nil⟩
  | cons p ps ih =>
    rw [neverFull, Bool.and_eq_true, decide_eq_true_eq, h.recvLen_eq] at hfull
    obtain ⟨hlen, hnext⟩ := hfull
    obtain ⟨s₁, q₁, hcheck, hq₁, hst₁, hrun⟩ :=
      frameCheck_runs (s := { s with rx := s.rx.bufferWrite p }) parse (h.put hlen) (stage_put hst)
    have hrec : s.receive parse p = some s₁ := hcheck
    rw [hrec] at hnext
    obtain ⟨s', q', hpieces, hq', hfeeds⟩ := ih hq₁ hst₁ hnext
    refine ⟨s', q', ?_, hq', .cons hrun hfeeds⟩
    rw [receivePieces, hrec]
    exact hpieces

/-- The pieces are scanned as the stream they make. -/
theorem receivePieces_runs {rx : RxBuffer} {session : RtlinkSession} (h : rx.Holds [])
    (hfull : (start rx session).neverFull parse ps = true) :
    ∃ s' q', (start rx session).receivePieces parse ps = some s' ∧ s'.rx.Holds q' ∧
      RunsOn (scanStep parse) (session, []) ps.flatten (s'.session, s'.handed) q' := by
  obtain ⟨s', q', hpieces, hq', hfeeds⟩ := receivePieces_feeds (s := start rx session) parse h rfl hfull
  exact ⟨s', q', hpieces, hq', hfeeds.runs (scanStep_resumable parse) rfl⟩

/-- **The frames handed over do not depend on how the stream is split**, nor does the session. -/
theorem receivePieces_split {rx rx' : RxBuffer} {session : RtlinkSession} (h : rx.Holds [])
    (h' : rx'.Holds []) (hfull : (start rx session).neverFull parse ps = true)
    (hfull' : (start rx' session).neverFull parse ps' = true) (hflat : ps.flatten = ps'.flatten) :
    ∃ s s', (start rx session).receivePieces parse ps = some s ∧
      (start rx' session).receivePieces parse ps' = some s' ∧ s.handed = s'.handed ∧
      s.session = s'.session := by
  obtain ⟨s, q, hs, -, hrun⟩ := receivePieces_runs parse h hfull
  obtain ⟨s', q', hs', -, hrun'⟩ := receivePieces_runs parse h' hfull'
  rw [← hflat] at hrun'
  have heq := (hrun.unique hrun').1
  exact ⟨s, s', hs, hs', congrArg Prod.snd heq, congrArg Prod.fst heq⟩

end

end FrameCheck

/-! ## Rejected frames -/

/-- The attribute that a head gives, and its length with the extension. -/
def headAttr (q : List UInt8) : Option RtlinkAttr × ℕ :=
  if (RtlinkHead.ofBytes (q.take 4)).extend then
    (RtlinkAttr.ofCode (RtlinkExtend.ofBytes ((q.drop 4).take 4)).attr, 8)
  else (some .shortData, 4)

/-- **Why no frame is found** at the start of the bytes: they begin with no head, with one of a service or
an attribute that there is not, with a sequence number that fails the check, or with a wrong CRC. -/
inductive PassedOver (session : RtlinkSession) (q : List UInt8) : Prop where
  | magic (h : ∃ b l, q = b :: l ∧ b &&& rtlinkFrameHeadMask ≠ rtlinkFrameHead)
  | service (hlen : 4 ≤ q.length) (h : rtlinkServiceMax ≤ (RtlinkHead.ofBytes (q.take 4)).service)
  | attr (hlen : 8 ≤ q.length) (h : (headAttr q).1 = none)
  | sequence (hlen : (headAttr q).2 ≤ q.length)
    (h : ∃ attr, (headAttr q).1 = some attr ∧
      session.inWindow attr (RtlinkHead.ofBytes (q.take 4)).sequence = false)
  | crc (hcrc : (RtlinkHead.ofBytes (q.take 4)).crc = true)
    (hlen : (headAttr q).2 + (RtlinkHead.ofBytes (q.take 4)).length + 4 ≤ q.length)
    (h : leNat ((q.drop ((headAttr q).2 + (RtlinkHead.ofBytes (q.take 4)).length)).take 4) ≠
      (rtlinkCrc (q.take ((headAttr q).2 + (RtlinkHead.ofBytes (q.take 4)).length))).toNat)

section

variable (parse : RtlinkSession → RtlinkReceived → RtlinkSession)

/-- **The frames whose sequence numbers pass the check**, each in the session that the ones before it
leave. -/
def accepted (session : RtlinkSession) : List RtlinkSent → List RtlinkReceived
  | [] => []
  | f :: fs =>
    if session.inWindow f.received.attr f.received.sequence then
      f.received :: accepted (parse session f.received) fs
    else accepted session.stopReceive fs

/-- **No frame is found inside a rejected one.** -/
def Resyncs (session : RtlinkSession) : List RtlinkSent → Prop
  | [] => True
  | f :: fs =>
    if session.inWindow f.received.attr f.received.sequence then
      Resyncs (parse session f.received) fs
    else
      (∀ i, 0 < i → i < f.bytes.length →
        PassedOver session ((f.bytes ++ fs.flatMap RtlinkSent.bytes).drop i)) ∧
        Resyncs session.stopReceive fs

end

section

variable {session : RtlinkSession} {q rest : List UInt8} {f : RtlinkSent} {fs : List RtlinkSent}

/-- The two ways to read a complete head. -/
theorem scanHead_eq (session : RtlinkSession) {attr : RtlinkAttr} (hlen : (headAttr q).2 ≤ q.length)
    (hserv : ¬rtlinkServiceMax ≤ (RtlinkHead.ofBytes (q.take 4)).service)
    (hattr : (headAttr q).1 = some attr) :
    ∃ parameter, scanHead session q =
      scanSeq session q (RtlinkHead.ofBytes (q.take 4)) attr parameter (headAttr q).2 := by
  unfold headAttr at hlen hattr ⊢
  unfold scanHead
  by_cases hext : (RtlinkHead.ofBytes (q.take 4)).extend = true
  · simp only [if_pos hext] at hlen hattr ⊢
    rw [if_neg (by omega), if_neg hserv]
    unfold scanExtend
    rw [if_neg (by omega)]
    dsimp only
    rw [hattr]
    exact ⟨_, rfl⟩
  · simp only [if_neg hext] at hlen hattr ⊢
    rw [if_neg (by omega), if_neg hserv]
    cases hattr
    exact ⟨_, rfl⟩

theorem le_headAttr : 4 ≤ (headAttr q).2 := by
  unfold headAttr
  split_ifs
  · exact Nat.le_of_ble_eq_true rfl
  · exact Nat.le_refl 4

/-- A complete head whose service there is not. -/
theorem scanHead_service (hlen : 4 ≤ q.length)
    (hserv : rtlinkServiceMax ≤ (RtlinkHead.ofBytes (q.take 4)).service) :
    scanHead session q = .reject := by
  unfold scanHead
  rw [if_neg (by omega)]
  exact if_pos hserv

/-- A complete head whose attribute there is not. -/
theorem scanHead_attribute (hlen : 8 ≤ q.length) (h : (headAttr q).1 = none) :
    scanHead session q = .reject := by
  by_cases hserv : rtlinkServiceMax ≤ (RtlinkHead.ofBytes (q.take 4)).service
  · exact scanHead_service (by omega) hserv
  · unfold headAttr at h
    by_cases hext : (RtlinkHead.ofBytes (q.take 4)).extend = true
    · rw [if_pos hext] at h
      dsimp only at h
      unfold scanHead
      rw [if_neg (by omega)]
      dsimp only
      rw [if_neg hserv, if_pos hext]
      unfold scanExtend
      rw [if_neg (by omega)]
      dsimp only
      rw [h]
    · rw [if_neg hext] at h
      cases h

/-- **The scan goes on** behind what is passed over. -/
theorem PassedOver.scan (h : PassedOver session q) :
    q ≠ [] ∧ (scan session q = .skip ∨ scan session q = .reject) := by
  -- behind the first byte only a rejection is left
  have hhead : 4 ≤ q.length → scanHead session q = .reject →
      q ≠ [] ∧ (RtThread.scan session q = .skip ∨ RtThread.scan session q = .reject) := by
    intro hlen hrej
    cases q with
    | nil => exact absurd hlen (by simp)
    | cons b q =>
      refine ⟨List.cons_ne_nil _ _, ?_⟩
      rw [RtThread.scan]
      by_cases hb : b &&& rtlinkFrameHeadMask = rtlinkFrameHead
      · rw [if_pos hb]
        exact .inr hrej
      · rw [if_neg hb]
        exact .inl rfl
  cases h with
  | magic h =>
    obtain ⟨b, l, rfl, hb⟩ := h
    refine ⟨List.cons_ne_nil _ _, .inl ?_⟩
    rw [RtThread.scan, if_neg hb]
  | service hlen h => exact hhead hlen (scanHead_service hlen h)
  | attr hlen h => exact hhead (by omega) (scanHead_attribute hlen h)
  | sequence hlen h =>
    obtain ⟨attr, hattr, hwin⟩ := h
    have hfour := le_headAttr (q := q)
    refine hhead (by omega) ?_
    by_cases hserv : rtlinkServiceMax ≤ (RtlinkHead.ofBytes (q.take 4)).service
    · exact scanHead_service (by omega) hserv
    · obtain ⟨parameter, hscan⟩ := scanHead_eq session hlen hserv hattr
      rw [hscan, scanSeq, if_neg (by rw [hwin]; exact Bool.false_ne_true)]
  | crc hcrc hlen h =>
    have hfour := le_headAttr (q := q)
    refine hhead (by omega) ?_
    by_cases hserv : rtlinkServiceMax ≤ (RtlinkHead.ofBytes (q.take 4)).service
    · exact scanHead_service (by omega) hserv
    · cases hattr : (headAttr q).1 with
      | none =>
        refine scanHead_attribute ?_ hattr
        unfold headAttr at hattr hlen
        by_cases hext : (RtlinkHead.ofBytes (q.take 4)).extend = true
        · rw [if_pos hext] at hlen
          dsimp only at hlen
          omega
        · rw [if_neg hext] at hattr
          cases hattr
      | some attr =>
        obtain ⟨parameter, hscan⟩ := scanHead_eq session (by omega) hserv hattr
        rw [hscan, scanSeq]
        by_cases hwin : session.inWindow attr (RtlinkHead.ofBytes (q.take 4)).sequence = true
        · rw [if_pos hwin]
          unfold scanData
          dsimp only
          rw [if_pos hcrc, if_neg (by omega), Nat.add_sub_cancel]
          exact if_pos ⟨hcrc, h⟩
        · rw [if_neg hwin]

theorem PassedOver.stopReceive (h : PassedOver session q) : PassedOver session.stopReceive q := by
  cases h with
  | magic h => exact .magic h
  | service hlen h => exact .service hlen h
  | attr hlen h => exact .attr hlen h
  | sequence hlen h => exact .sequence hlen h
  | crc hcrc hlen h => exact .crc hcrc hlen h

theorem bytes_ne_nil (hf : f.Valid) : f.bytes ≠ [] := by
  intro hnil
  have hscan : scan ⟨true, 0, [], 0, 0, 0, 0, none⟩ (f.bytes ++ []) = _ := scan_bytes hf
  rw [hnil] at hscan
  split_ifs at hscan
  · cases hscan
  · cases hscan

/-- A rejected frame is passed over, byte by byte. -/
theorem runs_passedOver {parse : RtlinkSession → RtlinkReceived → RtlinkSession}
    {handed : List RtlinkReceived} (pre : List UInt8) {c' : RtlinkSession × List RtlinkReceived}
    {q' : List UInt8} (hstop : session.stopReceive = session)
    (h : ∀ i < pre.length, PassedOver session ((pre ++ rest).drop i))
    (hrun : RunsOn (scanStep parse) (session, handed) rest c' q') :
    RunsOn (scanStep parse) (session, handed) (pre ++ rest) c' q' := by
  induction pre with
  | nil => exact hrun
  | cons b pre ih =>
    have hnext := ih fun i hi => h (i + 1) (Nat.succ_lt_succ hi)
    have hstep : scanStep parse (session, handed) (b :: pre ++ rest) =
        ((session, handed), pre ++ rest, true) := by
      have hscan := (h 0 (Nat.zero_lt_succ _)).scan.2
      rw [List.drop_zero] at hscan
      unfold scanStep
      cases hscan with
      | inl hskip =>
        rw [hskip]
        rfl
      | inr hrej =>
        rw [hrej]
        dsimp only
        rw [hstop]
        rfl
    exact .go hstep hnext

/-- **Scanning what was sent.** -/
theorem runs_accepted {parse : RtlinkSession → RtlinkReceived → RtlinkSession}
    (handed : List RtlinkReceived) (hvalid : ∀ f ∈ fs, f.Valid) (hsync : Resyncs parse session fs) :
    ∃ session', RunsOn (scanStep parse) (session, handed) (fs.flatMap RtlinkSent.bytes)
      (session', handed ++ accepted parse session fs) [] := by
  induction fs generalizing session handed with
  | nil =>
    refine ⟨session, ?_⟩
    rw [accepted, List.append_nil]
    exact .wait rfl
  | cons f fs ih =>
    have hscan : scan session (f.bytes ++ fs.flatMap RtlinkSent.bytes) = _ :=
      scan_bytes (hvalid f (List.mem_cons_self ..))
    have htail : ∀ g ∈ fs, g.Valid := fun g hg => hvalid g (List.mem_cons_of_mem _ hg)
    rw [List.flatMap_cons]
    unfold Resyncs at hsync
    unfold accepted
    by_cases hwin : session.inWindow f.received.attr f.received.sequence = true
    · rw [if_pos hwin] at hscan hsync
      obtain ⟨session', hrun⟩ := ih (handed ++ [f.received]) htail hsync
      refine ⟨session', ?_⟩
      rw [if_pos hwin]
      rw [List.append_assoc] at hrun
      refine .go ?_ hrun
      unfold scanStep
      dsimp only
      rw [hscan]
      dsimp only
      rw [List.drop_left]
    · rw [if_neg hwin] at hscan hsync
      obtain ⟨hpass, hsync⟩ := hsync
      obtain ⟨session', hrun⟩ := ih handed htail hsync
      refine ⟨session', ?_⟩
      rw [if_neg hwin]
      cases hbytes : f.bytes with
      | nil => exact absurd hbytes (bytes_ne_nil (hvalid f (List.mem_cons_self ..)))
      | cons b pre =>
        rw [hbytes] at hscan hpass
        refine .go ?_ (runs_passedOver pre (RtlinkSession.stopReceive_stopReceive _) ?_ hrun)
        · unfold scanStep
          dsimp only
          rw [hscan]
          rfl
        · intro i hi
          exact (hpass (i + 1) (Nat.zero_lt_succ _) (Nat.succ_lt_succ hi)).stopReceive

end

/-! ## The receiver -/

section

variable {parse : RtlinkSession → RtlinkReceived → RtlinkSession} {rx rx' : RxBuffer}
  {session : RtlinkSession} {fs : List RtlinkSent} {pieces pieces' : List (List UInt8)}

/-- **The receiver hands over exactly the accepted frames**, as they were sent and in order, however the
stream is split, if no frame is found inside a rejected one. -/
theorem rtlink_framing (hrx : rx.Holds []) (hvalid : ∀ f ∈ fs, f.Valid)
    (hpieces : pieces.flatten = fs.flatMap RtlinkSent.bytes)
    (hfull : (FrameCheck.start rx session).neverFull parse pieces = true)
    (hsync : Resyncs parse session fs) :
    ∃ s, (FrameCheck.start rx session).receivePieces parse pieces = some s ∧
      s.handed = accepted parse session fs ∧ s.rx.recvLen = 0 ∧
      ∀ rx' pieces', rx'.Holds [] → pieces'.flatten = pieces.flatten →
        (FrameCheck.start rx' session).neverFull parse pieces' = true →
        ∃ s', (FrameCheck.start rx' session).receivePieces parse pieces' = some s' ∧
          s'.handed = s.handed ∧ s'.session = s.session := by
  obtain ⟨s, q, hs, hq, hrun⟩ := FrameCheck.receivePieces_runs parse hrx hfull
  obtain ⟨session', hacc⟩ := runs_accepted [] hvalid hsync
  rw [hpieces] at hrun
  obtain ⟨heq, rfl⟩ := hrun.unique hacc
  refine ⟨s, hs, congrArg Prod.snd heq, hq.recvLen_eq, fun rx' pieces' hrx' hflat hfull' => ?_⟩
  obtain ⟨s', s₀, hs', hs₀, hhanded, hsession⟩ :=
    FrameCheck.receivePieces_split parse hrx' hrx hfull' hfull hflat
  rw [hs] at hs₀
  cases hs₀
  exact ⟨s', hs', hhanded, hsession⟩

/-- Short data on service 0, without an acknowledgement. -/
def shortFrame (crc : Bool) (sequence : ℕ) (data : List UInt8) : RtlinkFrame :=
  ⟨⟨false, crc, false, sequence, 0, 0⟩, ⟨0, 0⟩, .shortData, data⟩

/-- A session that has received the frame before `rxSeq + 1`, with nothing to send. -/
def idleSession (rxSeq : ℕ) : RtlinkSession := ⟨true, 0, [], 0, rxSeq, 0, 0, none⟩

/-- An empty buffer, read and written at the offset. -/
def emptyBuffer (i : ℕ) : RxBuffer := ⟨fun _ => 0, i, i⟩

/-- Short data in order moves `rx_seq` on. -/
def parseShort (s : RtlinkSession) (f : RtlinkReceived) : RtlinkSession := { s with rxSeq := f.sequence }

theorem emptyBuffer_holds {i : ℕ} (h : i < rtlinkReceiveBufferLength) : (emptyBuffer i).Holds [] := by
  refine ⟨h, Nat.zero_lt_succ _, ?_, rfl⟩
  exact (ringIndex_zero h).symm

/-- Two frames behind each other at the end of the buffer, the first in order and with a CRC. -/
theorem rtlink_framing_two :
    ∃ s, (FrameCheck.start (emptyBuffer 3075) (idleSession 0)).receivePieces parseShort
        [[0x55, 1, 64], [0, 171, 205, 69, 146, 211], [227, 0x15, 200, 32], [0, 1]] = some s ∧
      s.handed = [⟨0, 1, false, .shortData, 0, [171, 205]⟩] := by
  have hsync : Resyncs parseShort (idleSession 0)
      [.frame (shortFrame true 1 [171, 205]), .frame (shortFrame false 200 [1])] := by
    refine ⟨fun i hi hlt => ?_, trivial⟩
    have hlt' : i < 5 := hlt
    interval_cases i
    · exact .magic ⟨200, [32, 0, 1], rfl, by decide⟩
    · exact .magic ⟨32, [0, 1], rfl, by decide⟩
    · exact .magic ⟨0, [1], rfl, by decide⟩
    · exact .magic ⟨1, [], rfl, by decide⟩
  obtain ⟨s, hs, hhanded, -⟩ := rtlink_framing
    (emptyBuffer_holds (i := 3075) (by decide)) (by decide) (by decide +kernel)
    (by decide +kernel : (FrameCheck.start (emptyBuffer 3075) (idleSession 0)).neverFull parseShort
      [[0x55, 1, 64], [0, 171, 205, 69, 146, 211], [227, 0x15, 200, 32], [0, 1]] = true) hsync
  exact ⟨s, hs, hhanded⟩

/-- **A frame that was never sent**: the data of a rejected frame are read as a command. -/
theorem rtlink_framing_inside :
    ¬∀ (parse : RtlinkSession → RtlinkReceived → RtlinkSession) (rx : RxBuffer)
      (session : RtlinkSession) (fs : List RtlinkSent) (pieces : List (List UInt8)),
      rx.Holds [] → (∀ f ∈ fs, f.Valid) → pieces.flatten = fs.flatMap RtlinkSent.bytes →
      (FrameCheck.start rx session).neverFull parse pieces = true →
      ∃ s, (FrameCheck.start rx session).receivePieces parse pieces = some s ∧
        s.handed = accepted parse session fs := by
  intro h
  obtain ⟨s, hs, hhanded⟩ := h parseShort (emptyBuffer 0) (idleSession 255)
    [.frame (shortFrame false 10 (commandFrameSend 0 7 .detach 3))]
    [(RtlinkSent.frame (shortFrame false 10 (commandFrameSend 0 7 .detach 3))).bytes]
    (emptyBuffer_holds (by decide)) (by decide) (by decide) (by decide)
  have hrun : ((FrameCheck.start (emptyBuffer 0) (idleSession 255)).receivePieces parseShort
      [(RtlinkSent.frame (shortFrame false 10 (commandFrameSend 0 7 .detach 3))).bytes]).map
        FrameCheck.handed = some [⟨0, 7, false, .detach, 3, []⟩] := by decide
  rw [hs, Option.map_some, hhanded] at hrun
  exact absurd hrun (by decide)

end

end RtThread
