import RtThread.Drivers.RingBuffer
import RtThread.Kservice.Vsnprintf

/-!
# Raw logging

`ulog_raw`, `do_output` for a raw text and the part of `ulog_async_output` for the ring buffer of raw
texts, with one backend that takes the level and has no filter.

* `RawText`: a formatted text; `logBuf`, `logLen`: the line buffer and the length that is computed;
* `logBuf_printed`: the line buffer is what `rt_vsnprintf` leaves there;
* `syncOutputs`: what the calls hand to the backend synchronously; `storedOutputs`, `asyncOutputs`: what
  they store asynchronously, and what is handed on;
* `async_flatten`: what is handed on is what was stored;
* **`ulog_raw_right`**: when both modes output the texts.
-/

namespace RtThread

/-- `ULOG_LINE_BUF_SIZE`, with the check of `ulog.c`, and `ULOG_ASYNC_OUTPUT_BUF_SIZE`. -/
structure UlogSizes where
  lineBufSize : ℕ
  asyncBufSize : ℕ
  line_le : 80 ≤ lineBufSize
  async_le : rtAlignSize ≤ asyncBufSize

/-- A formatted text, with a length that is an `int`, and the byte behind the part of the line buffer
that it is printed into. -/
structure RawText where
  text : List UInt8
  last : UInt8
  len_lt : text.length < 2 ^ 31

/-- A call of `ulog_raw`, or of `ulog_async_output` where `rt_malloc` succeeds or does not. -/
inductive RawOp where
  | raw (t : RawText)
  | output (mem : Bool)

namespace UlogRaw

/-- The line buffer behind `rt_vsnprintf`, as far as it is read. -/
def logBuf (n : ℕ) (t : RawText) : List UInt8 := t.text.take (n - 1) ++ [0, t.last]

/-- `log_len`, from what `rt_vsnprintf` returns. -/
def logLen (n : ℕ) (t : RawText) : ℕ :=
  let fmtResult := (BitVec.ofNat 32 t.text.length).toInt
  if -1 < fmtResult ∧ fmtResult ≤ n then fmtResult.toNat else n

/-! ## The functions -/

/-- `do_output` with `async_enabled` cleared: what the backend gets. -/
def doOutput (n : ℕ) (t : RawText) : List UInt8 := (logBuf n t).take (logLen n t)

/-- `do_output` with `async_enabled` set: what is put in `async_rb`. The length is cast to 16 bits. -/
def doOutputAsync (n : ℕ) (t : RawText) : List UInt8 := (logBuf n t).take ((logLen n t + 1) % 2 ^ 16)

/-- What a call of `rt_ringbuffer_put` stores. -/
def storedOf (rb : RingBuffer) (xs : List UInt8) : List UInt8 := xs.take (rb.put xs).1

/-- `ulog_async_output`: what the backend gets, and `async_rb`. The length is cast to 16 bits. -/
def asyncOutput (rb : RingBuffer) (mem : Bool) : List UInt8 × RingBuffer :=
  if mem then (rb.get (rb.dataLen % 2 ^ 16)).2 else ([], rb)

/-- What the calls of `ulog_raw` hand to the backend in the synchronous mode. -/
def syncOutputs (n : ℕ) : List RawOp → List (List UInt8)
  | [] => []
  | .raw t :: ops => doOutput n t :: syncOutputs n ops
  | .output _ :: ops => syncOutputs n ops

/-- What the calls of `ulog_raw` store in the asynchronous mode. -/
def storedOutputs (n : ℕ) : RingBuffer → List RawOp → List (List UInt8)
  | _, [] => []
  | rb, .raw t :: ops =>
    storedOf rb (doOutputAsync n t) :: storedOutputs n (rb.put (doOutputAsync n t)).2 ops
  | rb, .output mem :: ops => storedOutputs n (asyncOutput rb mem).2 ops

/-- What the calls of `ulog_async_output` hand to the backend in the asynchronous mode. -/
def asyncOutputs (n : ℕ) : RingBuffer → List RawOp → List (List UInt8)
  | _, [] => []
  | rb, .raw t :: ops => asyncOutputs n (rb.put (doOutputAsync n t)).2 ops
  | rb, .output mem :: ops => (asyncOutput rb mem).1 :: asyncOutputs n (asyncOutput rb mem).2 ops

/-- The texts of the calls, as far as the line buffer has room for them. -/
def rawTexts (n : ℕ) : List RawOp → List (List UInt8)
  | [] => []
  | .raw t :: ops => t.text.take (n - 1) :: rawTexts n ops
  | .output _ :: ops => rawTexts n ops

/-- **What is claimed of raw logging**, where the ring buffer is emptied at the end. -/
structure RawRight (n : ℕ) (rb : RingBuffer) (ops : List RawOp) : Prop where
  same : (asyncOutputs n rb (ops ++ [.output true])).flatten = (syncOutputs n ops).flatten
  sync : syncOutputs n ops = rawTexts n ops
  async : storedOutputs n rb ops = rawTexts n ops
  noNul : ∀ t ∈ rawTexts n ops, 0 ∉ t

/-- **The condition**: a text fits in the line buffer, has no NUL, and is as long as the room that is
left in the ring buffer, so that the NUL behind it is cut off. -/
def Fits (n size : ℕ) : ℕ → List RawOp → Prop
  | _, [] => True
  | room, .raw t :: ops => (t.text.length = room ∧ t.text.length < n ∧ t.text.length + 1 < 2 ^ 16 ∧
      0 ∉ t.text) ∧ Fits n size 0 ops
  | room, .output mem :: ops => Fits n size (if mem then size else room) ops

/-! ## One call -/

section

variable {n k : ℕ} {t : RawText} {rb : RingBuffer}

theorem logLen_eq : logLen n t = min t.text.length n := by
  have hint : (BitVec.ofNat 32 t.text.length).toInt = t.text.length := by
    have := t.len_lt
    rw [BitVec.toInt_ofNat', Int.bmod_def]
    omega
  unfold logLen
  rw [hint]
  dsimp only
  split_ifs <;> omega

/-- **The line buffer is what `rt_vsnprintf` leaves in it.** -/
theorem logBuf_printed {mem mem' : BitVec 32 → UInt8} {buf size ret : BitVec 32} (hsize : size ≠ 0)
    (hroom : buf.toNat + size.toNat < 2 ^ 32)
    (hlast : t.last = mem (buf + size)) (h : Printed mem mem' buf size t.text ret) (i : ℕ)
    (hi : i ≤ logLen size.toNat t) :
    mem' (buf + BitVec.ofNat 32 i) = (logBuf size.toNat t).getD i 0 := by
  have hpos : 0 < size.toNat := Nat.pos_of_ne_zero fun e => hsize (BitVec.eq_of_toNat_eq e)
  have hlen : (t.text.take (size.toNat - 1)).length = min (size.toNat - 1) t.text.length :=
    List.length_take
  rw [logLen_eq] at hi
  unfold logBuf
  rw [List.getD_eq_getElem?_getD]
  rcases Nat.lt_trichotomy i (min (size.toNat - 1) t.text.length) with hlt | heq | hgt
  · rw [h.text i (by omega) (by omega), List.getElem?_append_left (by omega),
      List.getElem?_take_of_lt (by omega), List.getD_eq_getElem?_getD]
  · rw [heq, h.nul, List.getElem?_append_right (by omega), hlen, Nat.sub_self]
    rfl
  · -- the byte behind the part that is printed into
    have hsi : i = size.toNat := by omega
    have hbuf : buf + BitVec.ofNat 32 i = buf + size := by rw [hsi, BitVec.ofNat_toNat]; simp
    have hout : mem' (buf + size) = mem (buf + size) := by
      refine h.outside _ fun j hj e => ?_
      have h1 := congrArg BitVec.toNat e
      rw [BitVec.toNat_add, BitVec.toNat_add, BitVec.toNat_ofNat] at h1
      omega
    rw [hbuf, hout, ← hlast, List.getElem?_append_right (by omega), hlen,
      show i - min (size.toNat - 1) t.text.length = 1 by omega]
    rfl

theorem logBuf_of_lt (h : t.text.length < n) : logBuf n t = t.text ++ [0, t.last] := by
  rw [logBuf, List.take_of_length_le (by omega)]

/-- A beginning of a text and more is the text when it has its length. -/
theorem take_append_iff {a b : List UInt8} {m : ℕ} (hm : m < a.length + b.length) :
    (a ++ b).take m = a ↔ m = a.length := by
  constructor
  · intro h
    have hlen := congrArg List.length h
    rw [List.length_take, List.length_append] at hlen
    omega
  · intro h
    rw [h, List.take_left]

/-- **A call in the synchronous mode**: a text that does not fit is handed on with the NUL. -/
theorem doOutput_iff (hn : 0 < n) : doOutput n t = t.text.take (n - 1) ↔ t.text.length < n := by
  unfold doOutput
  rw [logLen_eq]
  constructor
  · intro h
    have hlen := congrArg List.length h
    unfold logBuf at hlen
    rw [List.length_take, List.length_append, List.length_take] at hlen
    by_contra hge
    simp only [List.length_cons, List.length_nil] at hlen
    omega
  · intro h
    rw [logBuf_of_lt h, Nat.min_eq_left h.le, List.take_left, List.take_of_length_le (by omega)]

theorem storedOf_eq (h : rb.Holds k) (xs : List UInt8) :
    storedOf rb xs = xs.take (rb.bufferSize - k) := by
  rw [storedOf, (RingBuffer.put_spec h xs).1, List.take_eq_take_iff]
  omega

/-- **A call in the asynchronous mode**: the NUL is stored too, where there is room for it. -/
theorem stored_iff (h : rb.Holds k) (hlt : t.text.length < n) :
    storedOf rb (doOutputAsync n t) = t.text ↔
      t.text.length = rb.bufferSize - k ∧ t.text.length + 1 < 2 ^ 16 := by
  have hlen := t.len_lt
  unfold doOutputAsync
  rw [storedOf_eq h, List.take_take, logLen_eq, Nat.min_eq_left hlt.le, logBuf_of_lt hlt,
    take_append_iff (by simp; omega)]
  omega

theorem put_full (h : rb.Holds k) (hlt : t.text.length < n) (hroom : t.text.length = rb.bufferSize - k)
    (hlen : t.text.length + 1 < 2 ^ 16) :
    (rb.put (doOutputAsync n t)).2.Holds rb.bufferSize ∧
      (rb.put (doOutputAsync n t)).2.contents = rb.contents ++ t.text := by
  obtain ⟨-, h2, h3⟩ := RingBuffer.put_spec h (doOutputAsync n t)
  have hle := h.le
  have hxs : (doOutputAsync n t).length = t.text.length + 1 := by
    unfold doOutputAsync
    rw [logLen_eq, Nat.min_eq_left hlt.le, logBuf_of_lt hlt, Nat.mod_eq_of_lt hlen]
    simp
  have hfull : k + min (doOutputAsync n t).length (rb.bufferSize - k) = rb.bufferSize := by omega
  rw [hfull] at h2
  rw [← storedOf_eq h, (stored_iff h hlt).mpr ⟨hroom, hlen⟩] at h3
  exact ⟨h2, h3⟩

theorem asyncOutput_spec (h : rb.Holds k) (hk : k < 2 ^ 16) :
    (asyncOutput rb true).1 = rb.contents ∧ (asyncOutput rb true).2.Holds 0 ∧
      (asyncOutput rb true).2.contents = [] ∧ (asyncOutput rb true).2.bufferSize = rb.bufferSize := by
  unfold asyncOutput
  rw [if_pos rfl, h.dataLen, Nat.mod_eq_of_lt hk]
  obtain ⟨-, h2, h3, h4⟩ := RingBuffer.get_spec h k
  rw [Nat.min_self, Nat.sub_self] at h3
  refine ⟨?_, h3, ?_, RingBuffer.get_bufferSize k⟩
  · rw [h2, List.take_of_length_le (h.contents_length.le)]
  · rw [h4, List.drop_of_length_le (h.contents_length.le)]

end

/-! ## Sequences of calls -/

section

variable {n k size : ℕ} {rb : RingBuffer} {ops : List RawOp}

/-- The ring buffer is empty or full, and what is in it can be taken out at once. -/
def EmptyOrFull (k size : ℕ) : Prop := k = 0 ∨ (k = size ∧ size < 2 ^ 16)

theorem EmptyOrFull.lt (h : EmptyOrFull k size) : k < 2 ^ 16 := by
  rcases h with rfl | ⟨rfl, h⟩
  · decide
  · exact h

/-- A text that fills the ring buffer leaves it full. -/
theorem EmptyOrFull.fill {m : ℕ} (h : EmptyOrFull k size) (hroom : m = size - k)
    (hm : m + 1 < 2 ^ 16) : EmptyOrFull size size := by
  rcases h with rfl | ⟨-, h⟩
  · exact Or.inr ⟨rfl, by omega⟩
  · exact Or.inr ⟨rfl, h⟩

variable (ops) in
/-- **The calls one by one**: each outputs its text in both modes exactly under the condition. -/
theorem outputs_iff (hn : 0 < n) (h : rb.Holds k) (hk : EmptyOrFull k rb.bufferSize) :
    (syncOutputs n ops = rawTexts n ops ∧ storedOutputs n rb ops = rawTexts n ops ∧
      ∀ t ∈ rawTexts n ops, 0 ∉ t) ↔ Fits n rb.bufferSize (rb.bufferSize - k) ops := by
  induction ops generalizing rb k with
  | nil => exact iff_of_true ⟨rfl, rfl, fun t ht => absurd ht List.not_mem_nil⟩ trivial
  | cons op ops ih =>
    cases op with
    | output mem =>
      rw [syncOutputs, storedOutputs, rawTexts, Fits]
      cases mem with
      | false => exact ih h hk
      | true =>
        obtain ⟨-, h0, -, hsize⟩ := asyncOutput_spec h hk.lt
        rw [ih h0 (Or.inl rfl), hsize]
        rfl
    | raw t =>
      rw [syncOutputs, storedOutputs, rawTexts, Fits, List.cons.injEq, List.cons.injEq,
        List.forall_mem_cons, doOutput_iff hn]
      by_cases hlt : t.text.length < n
      · rw [List.take_of_length_le (show t.text.length ≤ n - 1 by omega), stored_iff h hlt]
        by_cases hroom : t.text.length = rb.bufferSize - k ∧ t.text.length + 1 < 2 ^ 16
        · obtain ⟨hfull, -⟩ := put_full h hlt hroom.1 hroom.2
          have hsize := (RingBuffer.put_frame rb (doOutputAsync n t)).1
          have hrest := ih (hsize.symm ▸ hfull) (hsize.symm ▸ hk.fill hroom.1 hroom.2)
          rw [hsize, Nat.sub_self] at hrest
          rw [← hrest]
          tauto
        · tauto
      · tauto

/-- **What is handed on is what was stored.** -/
theorem async_flatten (h : rb.Holds k) (hk : EmptyOrFull k rb.bufferSize)
    (hfits : Fits n rb.bufferSize (rb.bufferSize - k) ops) :
    (asyncOutputs n rb (ops ++ [.output true])).flatten =
      rb.contents ++ (storedOutputs n rb ops).flatten := by
  induction ops generalizing rb k with
  | nil =>
    obtain ⟨hout, -, -, -⟩ := asyncOutput_spec h hk.lt
    rw [List.nil_append, asyncOutputs, hout]
    rfl
  | cons op ops ih =>
    cases op with
    | output mem =>
      rw [List.cons_append, asyncOutputs, storedOutputs, List.flatten_cons]
      cases mem with
      | false => exact ih h hk hfits
      | true =>
        obtain ⟨hout, h0, hnil, hsize⟩ := asyncOutput_spec h hk.lt
        have hrest := ih h0 (Or.inl rfl) (hsize.symm ▸ hfits)
        rw [hrest, hout, hnil]
        rfl
    | raw t =>
      obtain ⟨⟨hroom, hlt, hlen, -⟩, hfits⟩ := hfits
      obtain ⟨hfull, hcontents⟩ := put_full h hlt hroom hlen
      have hsize := (RingBuffer.put_frame rb (doOutputAsync n t)).1
      have hrest := ih (hsize.symm ▸ hfull) (hsize.symm ▸ hk.fill hroom hlen)
        (by rw [hsize, Nat.sub_self]; exact hfits)
      rw [List.cons_append, asyncOutputs, storedOutputs, List.flatten_cons, hrest, hcontents,
        (stored_iff h hlt).mpr ⟨hroom, hlen⟩, List.append_assoc]

end

/-- **Raw logging**: after `rt_ringbuffer_create`, both modes output the texts of the calls exactly when
each text fits in the line buffer, has no NUL and fills the ring buffer. -/
theorem ulog_raw_right (c : UlogSizes) (pool : ℕ → UInt8) (ops : List RawOp) :
    RawRight c.lineBufSize (RingBuffer.init pool c.asyncBufSize) ops ↔
      Fits c.lineBufSize (rtAlignDown c.asyncBufSize) (rtAlignDown c.asyncBufSize) ops := by
  have hpos : 0 < c.lineBufSize := (Nat.zero_lt_succ 79).trans_le c.line_le
  have h := RingBuffer.init_holds pool c.async_le
  have hall := outputs_iff ops hpos h (Or.inl rfl)
  constructor
  · exact fun hright => hall.mp ⟨hright.sync, hright.async, hright.noNul⟩
  · intro hfits
    obtain ⟨hsync, hstored, hnul⟩ := hall.mpr hfits
    refine ⟨?_, hsync, hstored, hnul⟩
    rw [async_flatten h (Or.inl rfl) hfits, hsync, hstored,
      List.eq_nil_of_length_eq_zero h.contents_length, List.nil_append]

/-- The default sizes. -/
def defaultSizes : UlogSizes := ⟨128, 2048, by decide, by decide⟩

/-- **One character is output with a NUL.** -/
theorem ulog_raw_nul : ¬ ∀ (c : UlogSizes) (pool : ℕ → UInt8) (ops : List RawOp),
    ((rawTexts c.lineBufSize ops).map fun t => t.length + 1).sum ≤ rtAlignDown c.asyncBufSize →
      RawRight c.lineBufSize (RingBuffer.init pool c.asyncBufSize) ops := by
  intro h
  have hright := h defaultSizes (fun _ => 0) [.raw ⟨[65], 0, by decide⟩] (by decide)
  exact absurd hright.async (by decide)

end UlogRaw

end RtThread
