import Mathlib.Algebra.Group.Nat.Even
import Mathlib.Data.List.Basic

/-!
# Frames of rt-link

A frame is a head of four bytes, an extension of four bytes, the data, and a CRC of four bytes, the
second and the last where the head says so.

* `leBytes`, `leNat`: numbers as bytes, the low byte first;
* `sfCrc32`, `rtlinkCrc`: `rt_link_sf_crc32`, `rt_link_get_crc`;
* `RtlinkHead`, `RtlinkExtend`, `RtlinkFrame`: the structures, with `RtlinkHead.bytes`,
  `RtlinkHead.ofBytes`;
* `frameSend`, `commandFrameSend`: `frame_send`, `rt_link_command_frame_send`;
* **`RtlinkHead.ofBytes_bytes`**: a head is read as it was written.
-/

namespace RtThread

/-! ## Numbers as bytes -/

/-- The low `k` bytes of a number. -/
def leBytes : ℕ → ℕ → List UInt8
  | 0, _ => []
  | k + 1, n => UInt8.ofNat n :: leBytes k (n / 256)

/-- The number that the bytes make. -/
def leNat (l : List UInt8) : ℕ := l.foldr (fun b n => b.toNat + 256 * n) 0

@[simp] theorem length_leBytes (k n : ℕ) : (leBytes k n).length = k := by
  induction k generalizing n with
  | zero => rfl
  | succ k ih => rw [leBytes, List.length_cons, ih]

theorem leNat_leBytes (k n : ℕ) : leNat (leBytes k n) = n % 256 ^ k := by
  induction k generalizing n with
  | zero => simp [leBytes, leNat, Nat.mod_one]
  | succ k ih =>
    have hstep : leNat (leBytes (k + 1) n) = n % 256 + 256 * leNat (leBytes k (n / 256)) := by
      show (UInt8.ofNat n).toNat + 256 * leNat (leBytes k (n / 256)) = _
      rw [UInt8.toNat_ofNat']
    rw [hstep, ih, Nat.pow_succ, Nat.mul_comm (256 ^ k) 256, Nat.mod_mul]

/-! ## The CRC -/

/-- `crc_table`. -/
def crcTable : Array UInt32 := #[
  0x00000000, 0x77073096, 0xEE0E612C, 0x990951BA, 0x076DC419, 0x706AF48F, 0xE963A535, 0x9E6495A3,
  0x0EDB8832, 0x79DCB8A4, 0xE0D5E91E, 0x97D2D988, 0x09B64C2B, 0x7EB17CBD, 0xE7B82D07, 0x90BF1D91,
  0x1DB71064, 0x6AB020F2, 0xF3B97148, 0x84BE41DE, 0x1ADAD47D, 0x6DDDE4EB, 0xF4D4B551, 0x83D385C7,
  0x136C9856, 0x646BA8C0, 0xFD62F97A, 0x8A65C9EC, 0x14015C4F, 0x63066CD9, 0xFA0F3D63, 0x8D080DF5,
  0x3B6E20C8, 0x4C69105E, 0xD56041E4, 0xA2677172, 0x3C03E4D1, 0x4B04D447, 0xD20D85FD, 0xA50AB56B,
  0x35B5A8FA, 0x42B2986C, 0xDBBBC9D6, 0xACBCF940, 0x32D86CE3, 0x45DF5C75, 0xDCD60DCF, 0xABD13D59,
  0x26D930AC, 0x51DE003A, 0xC8D75180, 0xBFD06116, 0x21B4F4B5, 0x56B3C423, 0xCFBA9599, 0xB8BDA50F,
  0x2802B89E, 0x5F058808, 0xC60CD9B2, 0xB10BE924, 0x2F6F7C87, 0x58684C11, 0xC1611DAB, 0xB6662D3D,
  0x76DC4190, 0x01DB7106, 0x98D220BC, 0xEFD5102A, 0x71B18589, 0x06B6B51F, 0x9FBFE4A5, 0xE8B8D433,
  0x7807C9A2, 0x0F00F934, 0x9609A88E, 0xE10E9818, 0x7F6A0DBB, 0x086D3D2D, 0x91646C97, 0xE6635C01,
  0x6B6B51F4, 0x1C6C6162, 0x856530D8, 0xF262004E, 0x6C0695ED, 0x1B01A57B, 0x8208F4C1, 0xF50FC457,
  0x65B0D9C6, 0x12B7E950, 0x8BBEB8EA, 0xFCB9887C, 0x62DD1DDF, 0x15DA2D49, 0x8CD37CF3, 0xFBD44C65,
  0x4DB26158, 0x3AB551CE, 0xA3BC0074, 0xD4BB30E2, 0x4ADFA541, 0x3DD895D7, 0xA4D1C46D, 0xD3D6F4FB,
  0x4369E96A, 0x346ED9FC, 0xAD678846, 0xDA60B8D0, 0x44042D73, 0x33031DE5, 0xAA0A4C5F, 0xDD0D7CC9,
  0x5005713C, 0x270241AA, 0xBE0B1010, 0xC90C2086, 0x5768B525, 0x206F85B3, 0xB966D409, 0xCE61E49F,
  0x5EDEF90E, 0x29D9C998, 0xB0D09822, 0xC7D7A8B4, 0x59B33D17, 0x2EB40D81, 0xB7BD5C3B, 0xC0BA6CAD,
  0xEDB88320, 0x9ABFB3B6, 0x03B6E20C, 0x74B1D29A, 0xEAD54739, 0x9DD277AF, 0x04DB2615, 0x73DC1683,
  0xE3630B12, 0x94643B84, 0x0D6D6A3E, 0x7A6A5AA8, 0xE40ECF0B, 0x9309FF9D, 0x0A00AE27, 0x7D079EB1,
  0xF00F9344, 0x8708A3D2, 0x1E01F268, 0x6906C2FE, 0xF762575D, 0x806567CB, 0x196C3671, 0x6E6B06E7,
  0xFED41B76, 0x89D32BE0, 0x10DA7A5A, 0x67DD4ACC, 0xF9B9DF6F, 0x8EBEEFF9, 0x17B7BE43, 0x60B08ED5,
  0xD6D6A3E8, 0xA1D1937E, 0x38D8C2C4, 0x4FDFF252, 0xD1BB67F1, 0xA6BC5767, 0x3FB506DD, 0x48B2364B,
  0xD80D2BDA, 0xAF0A1B4C, 0x36034AF6, 0x41047A60, 0xDF60EFC3, 0xA867DF55, 0x316E8EEF, 0x4669BE79,
  0xCB61B38C, 0xBC66831A, 0x256FD2A0, 0x5268E236, 0xCC0C7795, 0xBB0B4703, 0x220216B9, 0x5505262F,
  0xC5BA3BBE, 0xB2BD0B28, 0x2BB45A92, 0x5CB36A04, 0xC2D7FFA7, 0xB5D0CF31, 0x2CD99E8B, 0x5BDEAE1D,
  0x9B64C2B0, 0xEC63F226, 0x756AA39C, 0x026D930A, 0x9C0906A9, 0xEB0E363F, 0x72076785, 0x05005713,
  0x95BF4A82, 0xE2B87A14, 0x7BB12BAE, 0x0CB61B38, 0x92D28E9B, 0xE5D5BE0D, 0x7CDCEFB7, 0x0BDBDF21,
  0x86D3D2D4, 0xF1D4E242, 0x68DDB3F8, 0x1FDA836E, 0x81BE16CD, 0xF6B9265B, 0x6FB077E1, 0x18B74777,
  0x88085AE6, 0xFF0F6A70, 0x66063BCA, 0x11010B5C, 0x8F659EFF, 0xF862AE69, 0x616BFFD3, 0x166CCF45,
  0xA00AE278, 0xD70DD2EE, 0x4E048354, 0x3903B3C2, 0xA7672661, 0xD06016F7, 0x4969474D, 0x3E6E77DB,
  0xAED16A4A, 0xD9D65ADC, 0x40DF0B66, 0x37D83BF0, 0xA9BCAE53, 0xDEBB9EC5, 0x47B2CF7F, 0x30B5FFE9,
  0xBDBDF21C, 0xCABAC28A, 0x53B39330, 0x24B4A3A6, 0xBAD03605, 0xCDD70693, 0x54DE5729, 0x23D967BF,
  0xB3667A2E, 0xC4614AB8, 0x5D681B02, 0x2A6F2B94, 0xB40BBE37, 0xC30C8EA1, 0x5A05DF1B, 0x2D02EF8D]

/-- `rt_link_sf_crc32` on the variable `crc`. -/
def sfCrc32 (crc : UInt32) (data : List UInt8) : UInt32 :=
  data.foldl (fun crc b =>
    let y := (crc ^^^ b.toUInt32) &&& 0xff
    crc >>> 8 ^^^ crcTable.getD y.toNat 0) crc

/-- `rt_link_get_crc` of bytes that are not in the ring. -/
def rtlinkCrc (data : List UInt8) : UInt32 := sfCrc32 0xffffffff data ^^^ 0xffffffff

/-! ## Frames -/

/-- `RT_LINK_FRAME_HEAD`. -/
def rtlinkFrameHead : UInt8 := 0x15

/-- `RT_LINK_FRAME_HEAD_MASK`. -/
def rtlinkFrameHeadMask : UInt8 := 0x1F

/-- `RT_LINK_FRAMES_MAX`. -/
def rtlinkFramesMax : ℕ := 3

/-- `RT_LINK_SERVICE_MAX`. -/
def rtlinkServiceMax : ℕ := 5

/-- `RT_LINK_MAX_DATA_LENGTH`. -/
def rtlinkMaxDataLength : ℕ := 1012

/-- `RT_LINK_RECEIVE_BUFFER_LENGTH`. -/
def rtlinkReceiveBufferLength : ℕ := 3080

/-- `rt_link_frame_attr_e`. -/
inductive RtlinkAttr where
  | resend | confirm | handshake | detach | sessionEnd | longData | shortData | reserve
  deriving DecidableEq

/-- The number of an attribute. -/
def RtlinkAttr.code : RtlinkAttr → ℕ
  | .resend => 0
  | .confirm => 1
  | .handshake => 2
  | .detach => 3
  | .sessionEnd => 4
  | .longData => 5
  | .shortData => 6
  | .reserve => 7

/-- The attribute below `RT_LINK_RESERVE_FRAME` with the number. -/
def RtlinkAttr.ofCode : ℕ → Option RtlinkAttr
  | 0 => some .resend
  | 1 => some .confirm
  | 2 => some .handshake
  | 3 => some .detach
  | 4 => some .sessionEnd
  | 5 => some .longData
  | 6 => some .shortData
  | _ => none

theorem RtlinkAttr.ofCode_code {a : RtlinkAttr} (h : a ≠ .reserve) : ofCode a.code = some a := by
  cases a with
  | reserve => exact absurd rfl h
  | _ => rfl

/-- `struct rt_link_frame_head`; `magicid` is `RT_LINK_FRAME_HEAD`. -/
structure RtlinkHead where
  extend : Bool
  crc : Bool
  ack : Bool
  sequence : ℕ
  service : ℕ
  length : ℕ
  deriving DecidableEq

/-- `struct rt_link_extend`. -/
structure RtlinkExtend where
  attr : ℕ
  parameter : ℕ
  deriving DecidableEq

namespace RtlinkHead

/-- The fields fit their bits. -/
structure Fits (h : RtlinkHead) : Prop where
  sequence : h.sequence < 256
  service : h.service < 32
  length : h.length < 2048

/-- The bit fields, the first one lowest. -/
def word (h : RtlinkHead) : ℕ :=
  21 + 32 * h.extend.toNat + 64 * h.crc.toNat + 128 * h.ack.toNat + 256 * (h.sequence % 256) +
    65536 * (h.service % 32) + 2097152 * (h.length % 2048)

/-- The head in memory. -/
def bytes (h : RtlinkHead) : List UInt8 := leBytes 4 h.word

/-- The head that the bytes are. -/
def ofBytes (l : List UInt8) : RtlinkHead where
  extend := leNat l / 32 % 2 = 1
  crc := leNat l / 64 % 2 = 1
  ack := leNat l / 128 % 2 = 1
  sequence := leNat l / 256 % 256
  service := leNat l / 65536 % 32
  length := leNat l / 2097152 % 2048

variable {h : RtlinkHead}

@[simp] theorem length_bytes : h.bytes.length = 4 := length_leBytes _ _

theorem leNat_bytes : leNat h.bytes = h.word := by
  rw [bytes, leNat_leBytes]
  refine Nat.mod_eq_of_lt ?_
  have hext := h.extend.toNat_le
  have hcrc := h.crc.toNat_le
  have hack := h.ack.toNat_le
  unfold word
  omega

/-- **A head is read as it was written.** -/
theorem ofBytes_bytes (hf : h.Fits) : ofBytes h.bytes = h := by
  have hseq := hf.sequence
  have hserv := hf.service
  have hlen := hf.length
  unfold ofBytes
  rw [leNat_bytes]
  unfold word
  cases h with
  | mk extend crc ack sequence service length =>
    dsimp only at hseq hserv hlen ⊢
    congr 1
    · cases extend <;> cases crc <;> cases ack <;> simp only [Bool.toNat_true, Bool.toNat_false,
        decide_eq_true_eq, decide_eq_false_iff_not] <;> omega
    · cases extend <;> cases crc <;> cases ack <;> simp only [Bool.toNat_true, Bool.toNat_false,
        decide_eq_true_eq, decide_eq_false_iff_not] <;> omega
    · cases extend <;> cases crc <;> cases ack <;> simp only [Bool.toNat_true, Bool.toNat_false,
        decide_eq_true_eq, decide_eq_false_iff_not] <;> omega
    · cases extend <;> cases crc <;> cases ack <;> simp only [Bool.toNat_true, Bool.toNat_false] <;> omega
    · cases extend <;> cases crc <;> cases ack <;> simp only [Bool.toNat_true, Bool.toNat_false] <;> omega
    · cases extend <;> cases crc <;> cases ack <;> simp only [Bool.toNat_true, Bool.toNat_false] <;> omega

end RtlinkHead

/-- The extension in memory. -/
def RtlinkExtend.bytes (e : RtlinkExtend) : List UInt8 := leBytes 2 e.attr ++ leBytes 2 e.parameter

/-- The extension that the bytes are. -/
def RtlinkExtend.ofBytes (l : List UInt8) : RtlinkExtend := ⟨leNat (l.take 2), leNat (l.drop 2)⟩

@[simp] theorem RtlinkExtend.length_bytes {e : RtlinkExtend} : e.bytes.length = 4 := by
  simp [RtlinkExtend.bytes]

theorem RtlinkExtend.ofBytes_bytes {e : RtlinkExtend} (ha : e.attr < 65536) (hp : e.parameter < 65536) :
    ofBytes e.bytes = e := by
  unfold ofBytes RtlinkExtend.bytes
  have htwo : ∀ {n : ℕ}, n < 65536 → n % 256 ^ 2 = n := fun h => Nat.mod_eq_of_lt h
  rw [List.take_left' (length_leBytes _ _), List.drop_left' (length_leBytes _ _), leNat_leBytes,
    leNat_leBytes, htwo ha, htwo hp]

/-- `struct rt_link_frame` on the list of frames to send; `data_len` is the length of the data. -/
structure RtlinkFrame where
  head : RtlinkHead
  extend : RtlinkExtend
  attr : RtlinkAttr
  realData : List UInt8
  deriving DecidableEq

/-- `frame_send`, with what it hands to `rt_link_hw_send`. -/
def frameSend (f : RtlinkFrame) : List UInt8 :=
  let head := { f.head with length := f.realData.length }
  let data := head.bytes ++ (if f.head.extend then f.extend.bytes else []) ++
    (if f.attr = .shortData ∨ f.attr = .longData then f.realData else [])
  if f.head.crc then data ++ leBytes 4 (rtlinkCrc data).toNat else data

/-- `rt_link_command_frame_send`, with what it hands to `rt_link_hw_send`. -/
def commandFrameSend (serv sequence : ℕ) (attr : RtlinkAttr) (parameter : ℕ) : List UInt8 :=
  let head : RtlinkHead := ⟨true, false, false, sequence, serv, 0⟩
  let extend : RtlinkExtend := ⟨attr.code, parameter⟩
  head.bytes ++ extend.bytes

/-- What is sent: a frame of `rt_link_send`, or a command. -/
inductive RtlinkSent where
  | frame (f : RtlinkFrame)
  | command (serv sequence : ℕ) (attr : RtlinkAttr) (parameter : ℕ)

/-- The bytes that are sent. -/
def RtlinkSent.bytes : RtlinkSent → List UInt8
  | .frame f => frameSend f
  | .command serv sequence attr parameter => commandFrameSend serv sequence attr parameter

/-- What is sent in `rtlink.c`: short data without an extension and long data with one, in a frame with
space for them, and commands that carry no data; numbers fit their fields. -/
def RtlinkSent.Valid : RtlinkSent → Prop
  | .frame f =>
    f.head.sequence < 256 ∧ f.head.service < rtlinkServiceMax ∧ f.realData.length ≤ rtlinkMaxDataLength ∧
      (f.attr = .shortData ∧ f.head.extend = false ∧ f.extend.parameter = 0 ∨
        f.attr = .longData ∧ f.head.extend = true ∧ f.extend.attr = RtlinkAttr.longData.code ∧
          f.extend.parameter < 65536)
  | .command serv sequence attr parameter =>
    sequence < 256 ∧ serv < rtlinkServiceMax ∧ attr ≠ .shortData ∧ attr ≠ .longData ∧ attr ≠ .reserve ∧
      parameter < 65536

instance : DecidablePred RtlinkSent.Valid := by
  rintro (f | ⟨serv, sequence, attr, parameter⟩)
  · exact inferInstanceAs (Decidable (_ ∧ _))
  · exact inferInstanceAs (Decidable (_ ∧ _))

/-- The frame that `rt_link_parse_frame` gets. -/
structure RtlinkReceived where
  service : ℕ
  sequence : ℕ
  ack : Bool
  attr : RtlinkAttr
  parameter : ℕ
  payload : List UInt8
  deriving DecidableEq

/-- The frame that was sent. -/
def RtlinkSent.received : RtlinkSent → RtlinkReceived
  | .frame f => ⟨f.head.service, f.head.sequence, f.head.ack, f.attr, f.extend.parameter, f.realData⟩
  | .command serv sequence attr parameter => ⟨serv, sequence, false, attr, parameter, []⟩

/-! ## The window -/

/-- `rt_link_check_seq`. -/
def checkSeq (new used : ℕ) : ℕ := (new + 256 - used) % 256

/-- `PARSE_FRAME_SEQ` in `rt_link_frame_check`: a confirmation or a request to send again is checked
against `tx_seq` and the total of the first frame to send, data and the end of a session against
`rx_seq`. -/
def seqInWindow (rxSeq txSeq : ℕ) (txTotal : Option ℕ) (attr : RtlinkAttr) (sequence : ℕ) : Bool :=
  match attr with
  | .confirm | .resend => txTotal.all fun total => decide (checkSeq sequence txSeq ≤ total)
  | .longData | .shortData | .sessionEnd =>
    -- the offset is an 8-bit number
    decide ((checkSeq sequence rxSeq + 255) % 256 ≤ rtlinkFramesMax)
  | .handshake | .detach => true
  | .reserve => false

end RtThread
