import RtThread.Rtlink.Frame

/-!
# The session of rt-link

`struct rt_link_session`: the frames to send and what is received.

* `TxFrame`, `RtlinkSession`;
* `RtlinkSession.inWindow`, `RtlinkSession.stopReceive`: the check of a sequence number,
  `rt_link_frame_stop_receive`.
-/

namespace RtThread

/-- A frame on `tx_data_slist`: the `index`th of the `total` frames of a message. -/
structure TxFrame where
  frame : RtlinkFrame
  index : ℕ
  total : ℕ
  issent : Bool

/-- `struct rt_link_session`, with `sendCount` for `sendtimer.parameter`, `connect` for the state being
`RT_LINK_CONNECT`, and the fields of `rx_record`. -/
structure RtlinkSession where
  connect : Bool
  txSeq : ℕ
  txData : List TxFrame
  sendCount : ℕ
  rxSeq : ℕ
  total : ℕ
  longCount : ℕ
  dataspace : Option (ℕ → UInt8)

namespace RtlinkSession

variable (s : RtlinkSession)

/-- The total of the first frame to send. -/
def txTotal : Option ℕ := s.txData.head?.map TxFrame.total

/-- `PARSE_FRAME_SEQ` in `rt_link_frame_check`. -/
def inWindow (attr : RtlinkAttr) (sequence : ℕ) : Bool :=
  seqInWindow s.rxSeq s.txSeq s.txTotal attr sequence

/-- `rt_link_frame_stop_receive`. -/
def stopReceive : RtlinkSession := { s with total := 0, longCount := 0, dataspace := none }

@[simp] theorem stopReceive_stopReceive : s.stopReceive.stopReceive = s.stopReceive := rfl

end RtlinkSession

end RtThread
