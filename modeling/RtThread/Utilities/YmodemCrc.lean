import RtThread.Utilities.Ymodem

/-!
# The two checksums of YMODEM

`components/utilities/ymodem/ymodem.c`: `CRC16` is built either with a table of 256 words
(`YMODEM_USING_CRC_TABLE`) or bit by bit.

* `ccittTable`, `crc16Table`: the version with the table, beside `crc16`;
* `crcTrailer`, `crcAccepts`: what `_rym_send_packet` appends, and the comparison of `_rym_trans_data`;
* `crcBits_xor`, `ccittTable_entries`: eight conditional shifts are linear, and a word of the table is eight
  shifts of its index;
* **`crc16_agree`**: the two versions are one function, so each accepts the packets of the other;
* `crcBits_injective`, `crc16_trailer`: no state is lost, and a string with its checksum has none;
* **`crc16_burst`**: a packet damaged in two neighbouring bytes is not taken for another one.
-/

namespace RtThread

/-- `ccitt_table`. -/
def ccittTable : List UInt16 :=
  [0x0000, 0x1021, 0x2042, 0x3063, 0x4084, 0x50A5, 0x60C6, 0x70E7,
    0x8108, 0x9129, 0xA14A, 0xB16B, 0xC18C, 0xD1AD, 0xE1CE, 0xF1EF,
    0x1231, 0x0210, 0x3273, 0x2252, 0x52B5, 0x4294, 0x72F7, 0x62D6,
    0x9339, 0x8318, 0xB37B, 0xA35A, 0xD3BD, 0xC39C, 0xF3FF, 0xE3DE,
    0x2462, 0x3443, 0x0420, 0x1401, 0x64E6, 0x74C7, 0x44A4, 0x5485,
    0xA56A, 0xB54B, 0x8528, 0x9509, 0xE5EE, 0xF5CF, 0xC5AC, 0xD58D,
    0x3653, 0x2672, 0x1611, 0x0630, 0x76D7, 0x66F6, 0x5695, 0x46B4,
    0xB75B, 0xA77A, 0x9719, 0x8738, 0xF7DF, 0xE7FE, 0xD79D, 0xC7BC,
    0x48C4, 0x58E5, 0x6886, 0x78A7, 0x0840, 0x1861, 0x2802, 0x3823,
    0xC9CC, 0xD9ED, 0xE98E, 0xF9AF, 0x8948, 0x9969, 0xA90A, 0xB92B,
    0x5AF5, 0x4AD4, 0x7AB7, 0x6A96, 0x1A71, 0x0A50, 0x3A33, 0x2A12,
    0xDBFD, 0xCBDC, 0xFBBF, 0xEB9E, 0x9B79, 0x8B58, 0xBB3B, 0xAB1A,
    0x6CA6, 0x7C87, 0x4CE4, 0x5CC5, 0x2C22, 0x3C03, 0x0C60, 0x1C41,
    0xEDAE, 0xFD8F, 0xCDEC, 0xDDCD, 0xAD2A, 0xBD0B, 0x8D68, 0x9D49,
    0x7E97, 0x6EB6, 0x5ED5, 0x4EF4, 0x3E13, 0x2E32, 0x1E51, 0x0E70,
    0xFF9F, 0xEFBE, 0xDFDD, 0xCFFC, 0xBF1B, 0xAF3A, 0x9F59, 0x8F78,
    0x9188, 0x81A9, 0xB1CA, 0xA1EB, 0xD10C, 0xC12D, 0xF14E, 0xE16F,
    0x1080, 0x00A1, 0x30C2, 0x20E3, 0x5004, 0x4025, 0x7046, 0x6067,
    0x83B9, 0x9398, 0xA3FB, 0xB3DA, 0xC33D, 0xD31C, 0xE37F, 0xF35E,
    0x02B1, 0x1290, 0x22F3, 0x32D2, 0x4235, 0x5214, 0x6277, 0x7256,
    0xB5EA, 0xA5CB, 0x95A8, 0x8589, 0xF56E, 0xE54F, 0xD52C, 0xC50D,
    0x34E2, 0x24C3, 0x14A0, 0x0481, 0x7466, 0x6447, 0x5424, 0x4405,
    0xA7DB, 0xB7FA, 0x8799, 0x97B8, 0xE75F, 0xF77E, 0xC71D, 0xD73C,
    0x26D3, 0x36F2, 0x0691, 0x16B0, 0x6657, 0x7676, 0x4615, 0x5634,
    0xD94C, 0xC96D, 0xF90E, 0xE92F, 0x99C8, 0x89E9, 0xB98A, 0xA9AB,
    0x5844, 0x4865, 0x7806, 0x6827, 0x18C0, 0x08E1, 0x3882, 0x28A3,
    0xCB7D, 0xDB5C, 0xEB3F, 0xFB1E, 0x8BF9, 0x9BD8, 0xABBB, 0xBB9A,
    0x4A75, 0x5A54, 0x6A37, 0x7A16, 0x0AF1, 0x1AD0, 0x2AB3, 0x3A92,
    0xFD2E, 0xED0F, 0xDD6C, 0xCD4D, 0xBDAA, 0xAD8B, 0x9DE8, 0x8DC9,
    0x7C26, 0x6C07, 0x5C64, 0x4C45, 0x3CA2, 0x2C83, 0x1CE0, 0x0CC1,
    0xEF1F, 0xFF3E, 0xCF5D, 0xDF7C, 0xAF9B, 0xBFBA, 0x8FD9, 0x9FF8,
    0x6E17, 0x7E36, 0x4E55, 0x5E74, 0x2E93, 0x3EB2, 0x0ED1, 0x1EF0]

/-- One byte of `CRC16` with the table. -/
def crcByteTable (crc : UInt16) (q : UInt8) : UInt16 :=
  crc <<< 8 ^^^ ccittTable.getD (((crc >>> 8) ^^^ q.toUInt16) &&& 0xff).toNat 0

/-- `CRC16` with `YMODEM_USING_CRC_TABLE`. -/
def crc16Table (q : List UInt8) : UInt16 := q.foldl crcByteTable 0

/-- The last two bytes of a packet of `_rym_send_packet`. -/
def crcTrailer (crc : List UInt8 → UInt16) (p : List UInt8) : List UInt8 :=
  [(crc p >>> 8).toUInt8, (crc p).toUInt8]

/-- The comparison of `_rym_trans_data`. -/
def crcAccepts (crc : List UInt8 → UInt16) (p trailer : List UInt8) : Prop :=
  (trailer.getD 0 0).toUInt16 <<< 8 ||| (trailer.getD 1 0).toUInt16 = crc p

/-! ## Eight shifts -/

/-- The loop over the bits of one byte. -/
def crcBits (crc : UInt16) : UInt16 := (List.range 8).foldl (fun crc _ => crcBit crc) crc

theorem crcByte_bits (crc : UInt16) (q : UInt8) :
    crcByte crc q = crcBits (crc ^^^ q.toUInt16 <<< 8) := rfl

/-- The bit that `crc & 0x8000` tests. -/
def crcTop (crc : UInt16) : Bool := crc.toBitVec.getLsbD 15

theorem and_top_ne_zero (x : UInt16) : x &&& 0x8000 ≠ 0 ↔ crcTop x = true := by
  have hand : (x &&& 0x8000).toBitVec = x.toBitVec &&& BitVec.twoPow 16 15 := rfl
  rw [Ne, ← UInt16.toBitVec_inj, hand, BitVec.and_twoPow]
  unfold crcTop
  cases x.toBitVec.getLsbD 15 <;> decide

theorem crcBit_eq (x : UInt16) : crcBit x = x <<< 1 ^^^ (if crcTop x = true then 0x1021 else 0) := by
  unfold crcBit
  simp only [and_top_ne_zero]
  split
  · rfl
  · exact UInt16.xor_zero.symm

theorem crcTop_xor (x y : UInt16) : crcTop (x ^^^ y) = (crcTop x ^^ crcTop y) := BitVec.getLsbD_xor

/-- One shift is linear. -/
theorem crcBit_xor (x y : UInt16) : crcBit (x ^^^ y) = crcBit x ^^^ crcBit y := by
  have hpoly : ∀ a b : Bool, (if (a ^^ b) = true then (0x1021 : UInt16) else 0) =
      (if a = true then 0x1021 else 0) ^^^ (if b = true then 0x1021 else 0) := by decide
  rw [crcBit_eq, crcBit_eq x, crcBit_eq y, crcTop_xor, hpoly, UInt16.shiftLeft_xor]
  ac_rfl

theorem crcBits_xor (x y : UInt16) : crcBits (x ^^^ y) = crcBits x ^^^ crcBits y := by
  unfold crcBits
  generalize List.range 8 = bits
  induction bits generalizing x y with
  | nil => rfl
  | cons bit bits ih =>
    simp only [List.foldl_cons]
    rw [crcBit_xor, ih]

/-- No bit of the low byte reaches the top in eight shifts. -/
theorem crcBits_low : ∀ i : Fin 256, crcBits (UInt16.ofNat i.1) = UInt16.ofNat i.1 <<< 8 := by
  decide +kernel

/-- **A word of the table is eight shifts of its index.** -/
theorem ccittTable_entries :
    ∀ i : Fin 256, ccittTable.getD i.1 0 = crcBits (UInt16.ofNat i.1 <<< 8) := by
  decide +kernel

/-- The index that the top byte and the next byte of the string select. -/
def crcIndex (crc : UInt16) (q : UInt8) : UInt16 := ((crc >>> 8) ^^^ q.toUInt16) &&& 0xff

theorem mask_lt (x : UInt16) : (x &&& 0xff).toNat < 256 := by
  rw [UInt16.toNat_and]
  exact Nat.lt_of_le_of_lt Nat.and_le_right (by decide)

theorem getLsbD_mask (i : ℕ) : (0xff#16).getLsbD i = decide (i < 8) := by
  have hmask : 0xff#16 = (BitVec.allOnes 8).setWidth 16 := by decide
  rw [hmask, BitVec.getLsbD_setWidth, BitVec.getLsbD_allOnes]
  by_cases hi : i < 8
  · simp [hi]
    omega
  · simp [hi]

/-- The low byte of the state, and above it the index. -/
theorem crc_split (crc : UInt16) (q : UInt8) :
    crc ^^^ q.toUInt16 <<< 8 = (crc &&& (0xff : UInt16)) ^^^ (crcIndex crc q <<< 8) := by
  apply UInt16.toBitVec_inj.mp
  apply BitVec.eq_of_getLsbD_eq
  intro i hi
  show (crc.toBitVec ^^^ (q.toBitVec.setWidth 16) <<< 8).getLsbD i =
    ((crc.toBitVec &&& 0xff#16) ^^^
      (((crc.toBitVec >>> 8) ^^^ q.toBitVec.setWidth 16) &&& 0xff#16) <<< 8).getLsbD i
  simp only [BitVec.getLsbD_xor, BitVec.getLsbD_and, BitVec.getLsbD_shiftLeft, getLsbD_mask,
    BitVec.getLsbD_ushiftRight]
  by_cases hlow : i < 8
  · simp [hlow]
  · have hhigh : i - 8 < 8 := by omega
    have hback : 8 + (i - 8) = i := by omega
    simp [hlow, hhigh, hback, hi]

theorem mask_shift (crc : UInt16) : (crc &&& 0xff) <<< 8 = crc <<< 8 := by
  apply UInt16.toBitVec_inj.mp
  apply BitVec.eq_of_getLsbD_eq
  intro i hi
  show ((crc.toBitVec &&& 0xff#16) <<< 8).getLsbD i = (crc.toBitVec <<< 8).getLsbD i
  simp only [BitVec.getLsbD_shiftLeft, BitVec.getLsbD_and, getLsbD_mask]
  by_cases hlow : i < 8
  · simp [hlow]
  · have hhigh : i - 8 < 8 := by omega
    simp [hhigh]

/-- **One look-up is eight shifts.** -/
theorem crcByteTable_eq (crc : UInt16) (q : UInt8) : crcByteTable crc q = crcByte crc q := by
  have hindex := ccittTable_entries ⟨(crcIndex crc q).toNat, mask_lt _⟩
  have hlow := crcBits_low ⟨(crc &&& 0xff).toNat, mask_lt crc⟩
  simp only [UInt16.ofNat_toNat] at hindex hlow
  rw [crcByte_bits, crc_split, crcBits_xor, hlow, mask_shift, ← hindex]
  rfl

theorem crc16Table_eq : crc16Table = crc16 := by
  funext q
  unfold crc16Table crc16
  congr 1
  funext crc x
  exact crcByteTable_eq crc x

theorem crcAccepts_trailer (crc : List UInt8 → UInt16) (p : List UInt8) :
    crcAccepts crc p (crcTrailer crc p) :=
  rymCrc_bytes (crc p)

/-- **The two versions of `CRC16` agree**: they return the same word for every string, the receiver
accepts a packet that was built with the table, and the receiver with the table one that was not. -/
theorem crc16_agree (q : List UInt8) :
    crc16Table q = crc16 q ∧
      (∀ stage x, rymTransData stage q.length (x :: ~~~x :: (q ++ crcTrailer crc16Table q)) =
        if stage = .established ∧ x = 0 then (.ignored, stage, []) else (.data q, .transmitting, [])) ∧
      crcAccepts crc16 q (crcTrailer crc16Table q) ∧ crcAccepts crc16Table q (crcTrailer crc16 q) := by
  rw [crc16Table_eq]
  refine ⟨rfl, ?_, crcAccepts_trailer crc16 q, crcAccepts_trailer crc16 q⟩
  intro stage x
  exact rymTransData_packet stage x q

/-! ## What the checksum notices -/

theorem crcBit_eq_zero {x : UInt16} (h : crcBit x = 0) : x = 0 := by
  rw [crcBit_eq] at h
  have hbit : ∀ i, ((x.toBitVec <<< 1) ^^^ (if crcTop x = true then 0x1021#16 else 0#16)).getLsbD i =
      false := by
    intro i
    have h' := congrArg (fun w : UInt16 => w.toBitVec.getLsbD i) h
    rw [← BitVec.getLsbD_zero (w := 16) (i := i)]
    cases htop : crcTop x with
    | true => simpa [htop] using h'
    | false => simpa [htop] using h'
  -- the polynomial is odd, and a shift is not
  have htop : crcTop x = false := by
    by_contra htop
    have h0 := hbit 0
    rw [if_pos (Bool.not_eq_false _ ▸ htop)] at h0
    simp at h0
  rw [htop] at hbit
  refine UInt16.toBitVec_inj.mp (BitVec.eq_of_getLsbD_eq fun i hi => ?_)
  by_cases hi' : i = 15
  · rw [hi']
    exact htop
  · have hi1 := hbit (i + 1)
    have hlt : i + 1 < 16 := by omega
    simpa [hlt, BitVec.getLsbD_eq_getElem hi] using hi1

theorem crcBit_injective : Function.Injective crcBit := by
  intro x y h
  refine UInt16.xor_eq_zero_iff.mp (crcBit_eq_zero ?_)
  rw [crcBit_xor, h, UInt16.xor_self]

/-- **Eight shifts lose nothing.** -/
theorem crcBits_injective : Function.Injective crcBits := by
  unfold crcBits
  induction List.range 8 with
  | nil => exact fun _ _ h => h
  | cons i bits ih => exact fun x y h => crcBit_injective (ih h)

theorem crcByte_injective (q : UInt8) : Function.Injective fun crc => crcByte crc q := by
  intro c d h
  exact (UInt16.xor_left_inj _).mp (crcBits_injective h)

/-- Two bytes are one word. -/
def crcWord (a b : UInt8) : UInt16 := a.toUInt16 <<< 8 ^^^ b.toUInt16

theorem crcByte_crcByte (crc : UInt16) (a b : UInt8) :
    crcByte (crcByte crc a) b = crcBits (crcBits (crc ^^^ crcWord a b)) := by
  have hlow := crcBits_low ⟨b.toNat, b.toNat_lt⟩
  simp only [UInt16.ofNat_uInt8ToNat] at hlow
  rw [crcByte_bits, crcByte_bits, crcWord, ← UInt16.xor_assoc, crcBits_xor _ b.toUInt16, hlow]

theorem crcWord_inj {a b a' b' : UInt8} (h : crcWord a' b' = crcWord a b) : a' = a ∧ b' = b := by
  have hbit : ∀ i, (crcWord a' b').toBitVec.getLsbD i = (crcWord a b).toBitVec.getLsbD i := by
    rw [h]
    exact fun _ => rfl
  have hget : ∀ (a b : UInt8) (i : ℕ), i < 8 → (crcWord a b).toBitVec.getLsbD i = b.toBitVec.getLsbD i ∧
      (crcWord a b).toBitVec.getLsbD (8 + i) = a.toBitVec.getLsbD i := by
    intro a b i hi
    have hi' : 8 + i < 16 := by omega
    have hi'' : i < 16 := by omega
    unfold crcWord
    simp [hi, hi', hi'']
  constructor
  · refine UInt8.toBitVec_inj.mp (BitVec.eq_of_getLsbD_eq fun i hi => ?_)
    rw [← (hget a' b' i hi).2, ← (hget a b i hi).2, hbit]
  · refine UInt8.toBitVec_inj.mp (BitVec.eq_of_getLsbD_eq fun i hi => ?_)
    rw [← (hget a' b' i hi).1, ← (hget a b i hi).1, hbit]

/-- **A string with its checksum behind it has the checksum zero**, and no other has. -/
theorem crc16_trailer (q : List UInt8) (hi lo : UInt8) :
    crc16 (q ++ [hi, lo]) = 0 ↔ crcAccepts crc16 q [hi, lo] := by
  have hor : hi.toUInt16 <<< 8 ||| lo.toUInt16 = crcWord hi lo := by
    refine UInt16.toBitVec_inj.mp (BitVec.eq_of_getLsbD_eq fun i hi16 => ?_)
    unfold crcWord
    by_cases hi8 : i < 8
    · simp [hi8]
    · simp [hi8, BitVec.getLsbD_of_ge lo.toBitVec i (by omega)]
  have hzero : crcBits 0 = 0 := by simpa using crcBits_xor 0 0
  have hfold : crc16 (q ++ [hi, lo]) = crcBits (crcBits (crc16 q ^^^ crcWord hi lo)) := by
    rw [← crcByte_crcByte]
    exact List.foldl_append
  show _ ↔ hi.toUInt16 <<< 8 ||| lo.toUInt16 = crc16 q
  rw [hfold, hor, eq_comm (a := crcWord hi lo), ← UInt16.xor_eq_zero_iff (a := crc16 q)]
  constructor
  · intro h
    refine crcBits_injective (crcBits_injective ?_)
    rw [h, hzero, hzero]
  · intro h
    rw [h, hzero, hzero]

/-- **A burst is noticed**: two strings that differ in two neighbouring bytes only have different
checksums. -/
theorem crc16_ne {l r : List UInt8} {a b a' b' : UInt8} (hne : (a', b') ≠ (a, b)) :
    crc16 (l ++ a' :: b' :: r) ≠ crc16 (l ++ a :: b :: r) := by
  unfold crc16
  rw [List.foldl_append, List.foldl_append]
  generalize l.foldl crcByte 0 = crc
  simp only [List.foldl_cons, crcByte_crcByte]
  intro h
  have hword : crcBits (crcBits (crc ^^^ crcWord a' b')) = crcBits (crcBits (crc ^^^ crcWord a b)) := by
    induction r using List.reverseRecOn with
    | nil => exact h
    | append_singleton r x ih =>
      rw [List.foldl_append, List.foldl_append] at h
      exact ih (crcByte_injective x h)
  obtain ⟨ha, hb⟩ := crcWord_inj
    ((UInt16.xor_right_inj crc).mp (crcBits_injective (crcBits_injective hword)))
  exact hne (by rw [ha, hb])

/-- What is accepted has the checksum zero. -/
theorem rymTransData_accepts {stage : RymStage} {x y : UInt8} {body p : List UInt8} {n : ℕ}
    (hn : body.length = n + 2) (h : (rymTransData stage n (x :: y :: body)).1 = .data p) :
    crc16 body = 0 := by
  have htwo : (body.drop n).length = 2 := by
    rw [List.length_drop]
    omega
  obtain ⟨hi, lo, hdrop⟩ := List.length_eq_two.mp htwo
  have hbody : body = body.take n ++ [hi, lo] := by
    rw [← hdrop, List.take_append_drop]
  have hlen : (x :: y :: body).length = 2 + n + 2 := by
    simp only [List.length_cons]
    omega
  rw [hbody, crc16_trailer]
  unfold rymTransData at h
  rw [if_neg (by omega)] at h
  dsimp only at h
  rw [List.take_of_length_le hlen.le, List.drop_of_length_le hlen.le] at h
  split_ifs at h with hseq hfirst hcrc
  have hget : ∀ i, (x :: y :: body).getD (n + i + 1 + 1) 0 = [hi, lo].getD i 0 := by
    intro i
    rw [List.getD_cons_succ, List.getD_cons_succ, ← hdrop]
    simp [List.getD]
  rw [not_not, show 2 + n + 2 - 2 = n + 0 + 1 + 1 by omega, show 2 + n + 2 - 1 = n + 1 + 1 + 1 by omega,
    hget 0, hget 1] at hcrc
  exact hcrc

/-- **A damaged packet is not taken for another one.** When the payload and the checksum of a packet arrive
with two neighbouring bytes changed, `_rym_trans_data` passes nothing to `on_data`. -/
theorem crc16_burst (stage : RymStage) (x y : UInt8) (q : List UInt8) {l r : List UInt8}
    {a b a' b' : UInt8} (hsent : q ++ crcTrailer crc16 q = l ++ a :: b :: r) (hne : (a', b') ≠ (a, b))
    (p : List UInt8) : (rymTransData stage q.length (x :: y :: (l ++ a' :: b' :: r))).1 ≠ .data p := by
  intro h
  have hlen : (l ++ a' :: b' :: r).length = q.length + 2 := by
    have := congrArg List.length hsent
    simp only [List.length_append, List.length_cons, crcTrailer, List.length_nil] at this ⊢
    omega
  have hzero : crc16 (l ++ a :: b :: r) = 0 := by
    rw [← hsent]
    exact (crc16_trailer q _ _).mpr (crcAccepts_trailer crc16 q)
  refine crc16_ne (l := l) (r := r) hne ?_
  rw [rymTransData_accepts hlen h, hzero]

/-- The last byte of the payload and the first of its checksum are changed. -/
theorem crc16_burst_edge : (rymTransData .transmitting 3
    [1, 0xfe, 0x31, 0x32, 0, 0, (crc16 [0x31, 0x32, 0x33]).toUInt8]).1 ≠ .data [0x31, 0x32, 0] :=
  crc16_burst .transmitting 1 0xfe [0x31, 0x32, 0x33] (l := [0x31, 0x32])
    (r := [(crc16 [0x31, 0x32, 0x33]).toUInt8]) (a := 0x33) rfl
    (fun h => absurd (congrArg Prod.fst h) (by decide)) [0x31, 0x32, 0]

end RtThread
