import Mathlib.Algebra.BigOperators.Group.List.Basic
import Mathlib.Data.List.Induction
import RtThread.Drivers.SpiChain

/-!
# What `hpm_spi_xfer_polling` reports

`actual_len` counts what is transferred and holds the error of a failed transfer; a failure leaves the
loop over the sub-packets of its message, not the loop over the chain.

* `PolledMessage`, `polledChain`: the messages that the loop reaches, with the outcomes of their
  sub-transfers; `Reports`: what the result should say about them;
* `packets`, `counted`, `moved`, `since`, `firstFailure`: a chain without the loop;
* **`spi_polling`**: the result reports the chain exactly when it meets `polledOk`.
-/

namespace RtThread

/-! ## Reports -/

/-- A message that the loop reaches: whether its parameters pass the checks, how its sub-transfers end,
and the length transferred. -/
structure PolledMessage where
  passed : Bool
  outcomes : List Bool
  moved : ℕ

/-- A check or a sub-transfer has failed. -/
def PolledMessage.Failed (x : PolledMessage) : Prop := x.passed = false ∨ false ∈ x.outcomes

/-- **A result reports** the messages reached, with `moved` transferred before them: it is negative
when one has failed, nothing is started behind that one, and it is the sum of the lengths otherwise. -/
structure Reports (moved : ℕ) (l : List PolledMessage) (ret : ℤ) : Prop where
  negative : (∃ x ∈ l, x.Failed) → ret < 0
  stops : l.Pairwise fun x y => x.Failed → y.outcomes = []
  sum : (∀ x ∈ l, ¬ x.Failed) → ret = moved + (l.map PolledMessage.moved).sum

/-- The data bytes that are clocked out. -/
def SpiPort.bytes (p : SpiPort) : ℕ := p.sent.countP fun x => x matches .byte _

namespace HpmSpi

variable (spi : HpmSpi)

/-- The loop of `hpm_spi_xfer_polling` on a message that passes the checks. -/
def pollMessage (msg : QspiMessage) (name : ℕ) (r : SpiLoop) : SpiLoop :=
  let r :=
    if spi.usingQspi then
      let r := { r with remaining := msg.length }
      if msg.length = 0 then spi.sendNoData msg name r else r
    else r
  spi.subPackets msg name 0 r

/-- What is seen of a message between two states of the loop. The transfer of an empty message counts
the bytes of its phases. -/
def polled (msg : QspiMessage) (r r' : SpiLoop) : PolledMessage where
  passed := true
  outcomes :=
    (List.range' r.port.transfers (r'.port.transfers - r.port.transfers)).map spi.succeeds
  moved :=
    if msg.length = 0 then
      if r'.port.transfers = r.port.transfers then 0 else phaseLength msg
    else (r'.port.bytes - r.port.bytes) / spi.dataLength

/-- The messages that the loop reaches. -/
def polledMessages : List QspiMessage → SpiLoop → List PolledMessage
  | [], _ => []
  | msg :: next, r =>
    if spi.checkParams msg then
      let r' := spi.pollMessage msg next.length r
      spi.polled msg r r' :: polledMessages next r'
    else [⟨false, [], 0⟩]

/-- The messages that `hpm_spi_xfer_polling` reaches; a slave is refused. -/
def polledChain (chain : List QspiMessage) (p : SpiPort) : List PolledMessage :=
  if spi.mode == spiSlave then [⟨false, [], 0⟩]
  else spi.polledMessages chain { remaining := (chain.head?.map (·.length)).getD 0, port := p }

/-! ## Chains -/

/-- The sub-transfers of a message. -/
def packets (msg : QspiMessage) : ℕ :=
  if msg.length = 0 then if spi.phases msg then 1 else 0
  else if msg.sendBuf.isSome || msg.recvBuf.isSome then (msg.length + spi.countMax - 1) / spi.countMax
  else 0

/-- What a message adds to `actual_len`. -/
def counted (msg : QspiMessage) : ℕ :=
  if msg.length = 0 then if spi.phases msg then phaseLength msg else 0 else msg.length

/-- What a message transfers: nothing when it has length and no buffer. -/
def moved (msg : QspiMessage) : ℕ :=
  if msg.length ≠ 0 ∧ (msg.sendBuf.isSome || msg.recvBuf.isSome) = false then 0 else spi.counted msg

/-- A chain from its last empty message on, which sets `actual_len`. -/
def since : List QspiMessage → List QspiMessage
  | [] => []
  | msg :: next => if next.any (·.length == 0) then since next else msg :: next

/-- The first message that has a failing sub-transfer, the next one being transfer `n`, and the
messages behind it. -/
def firstFailure : List QspiMessage → ℕ → Option (QspiMessage × List QspiMessage)
  | [], _ => none
  | msg :: next, n =>
    if (List.range' n (spi.packets msg)).all spi.succeeds then
      firstFailure next (n + spi.packets msg)
    else some (msg, next)

/-- A sum as a signed 32-bit number. -/
def signed (n : ℤ) : ℤ := n.bmod (2 ^ 32)

/-- **The condition** on a chain whose first transfer is `n`. -/
def polledOk (chain : List QspiMessage) (n : ℕ) : Prop :=
  spi.mode = spiSlave ∨
  if spi.usingQspi then
    (∀ msg ∈ chain, spi.checkParams msg = true) ∧
    match spi.firstFailure chain n with
    | none => signed ((since chain).map spi.counted).sum = ((chain.map spi.moved).sum : ℕ)
    | some (msg, next) =>
      (∀ later ∈ next, spi.packets later = 0) ∧
      if msg.length = 0 then
        signed ((if next.any (·.length == 0) then 0 else -8) +
          ((since next).map spi.counted).sum) < 0
      else ∀ last ∈ next.getLast?, last.length ≠ 0
  else
    match chain with
    | [] => True
    | msg :: next =>
      if (List.range' n (spi.packets msg)).all spi.succeeds then
        signed msg.length = (spi.moved msg : ℕ)
      else ∀ later ∈ next, (later.sendBuf.isSome || later.recvBuf.isSome) = false

/-! ## The loop over sub-packets -/

section

variable {spi} {msg : QspiMessage} {name index : ℕ} {r : SpiLoop}

theorem pollingLoop_cons (msg : QspiMessage) (next : List QspiMessage) (r : SpiLoop) :
    spi.pollingLoop (msg :: next) r =
      if spi.checkParams msg then spi.pollingLoop next (spi.pollMessage msg next.length r)
      else (spiInvalid, r.port) := rfl

/-- One sub-packet less. -/
theorem packetCount_step {n m : ℕ} (hm : 0 < m) (hn : n ≠ 0) :
    (n + m - 1) / m = (n - min m n + m - 1) / m + 1 := by
  rcases Nat.le_total n m with h | h
  · have h0 : (m - 1) / m = 0 := Nat.div_eq_of_lt (by omega)
    have h1 : (n + m - 1) / m = 1 := Nat.div_eq_of_lt_le (by omega) (by omega)
    rw [Nat.min_eq_right h, Nat.sub_self, Nat.zero_add, h0, h1]
  · rw [Nat.min_eq_left h, ← Nat.add_div_right _ hm]
    congr 1
    omega

theorem bytes_hardware (phase : Bool) (count : ℕ) (p : SpiPort) :
    (spi.hardware name phase count p).2.bytes = p.bytes + count * spi.dataLength := by
  unfold hardware SpiPort.bytes
  rw [List.countP_append, List.countP_append, List.countP_replicate]
  cases phase <;> simp

variable (name) in
/-- All sub-packets succeed: together they are the message. -/
theorem subPackets_all (hb : Buffered msg) (index : ℕ) (r : SpiLoop)
    (hall : ∀ n, r.port.transfers ≤ n →
      n < r.port.transfers + (r.remaining + spi.countMax - 1) / spi.countMax →
      spi.succeeds n = true) :
    (spi.subPackets msg name index r).remaining = 0 ∧
    (spi.subPackets msg name index r).stat = (r.stat || decide (r.remaining ≠ 0)) ∧
    (spi.subPackets msg name index r).actual = r.actual + BitVec.ofNat 32 r.remaining ∧
    (spi.subPackets msg name index r).port.transfers =
      r.port.transfers + (r.remaining + spi.countMax - 1) / spi.countMax ∧
    (spi.subPackets msg name index r).port.bytes =
      r.port.bytes + r.remaining * spi.dataLength := by
  have hpos := spi.countMax_pos
  induction hr : r.remaining using Nat.strongRecOn generalizing index r with
  | _ n ih =>
    subst hr
    unfold subPackets
    split
    case isTrue h =>
      simp [h, Nat.sub_lt hpos Nat.one_pos]
    case isFalse h =>
      have hstep := packetCount_step hpos h
      rw [Buffered] at hb
      have hfst : (spi.hardware name (decide (index = 0) && spi.phases msg)
          (min spi.countMax r.remaining) r.port).1 = true :=
        hall _ (Nat.le_refl _) (Nat.lt_add_of_pos_right (by rw [hstep]; exact Nat.succ_pos _))
      simp only [hb, if_true, hfst]
      obtain ⟨h1, h2, h3, h4, h5⟩ := ih _ (by dsimp only; omega) (index + 1)
        ⟨true, r.remaining - min spi.countMax r.remaining,
          r.actual + BitVec.ofNat 32 (min spi.countMax r.remaining),
          (spi.hardware name (decide (index = 0) && spi.phases msg)
            (min spi.countMax r.remaining) r.port).2⟩
        (fun n hn hlt => hall n (by simp only [hardware] at hn; omega)
          (by simp only [hardware] at hlt; omega)) rfl
      refine ⟨h1, ?_, ?_, ?_, ?_⟩
      · rw [h2]
        simp [h]
      · rw [h3, BitVec.add_assoc, ← BitVec.ofNat_add]
        dsimp only
        rw [show min spi.countMax r.remaining + (r.remaining - min spi.countMax r.remaining) =
          r.remaining by omega]
      · rw [h4]
        simp only [hardware]
        omega
      · rw [h5, bytes_hardware, Nat.add_assoc, ← Nat.add_mul]
        dsimp only
        rw [show min spi.countMax r.remaining + (r.remaining - min spi.countMax r.remaining) =
          r.remaining by omega]

variable (name) in
/-- A sub-packet fails: it is the last one, and something remains. -/
theorem subPackets_fails (hb : Buffered msg) (index : ℕ) (r : SpiLoop) {k : ℕ}
    (hk : r.port.transfers ≤ k)
    (hlt : k < r.port.transfers + (r.remaining + spi.countMax - 1) / spi.countMax)
    (hfail : spi.succeeds k = false) :
    (spi.subPackets msg name index r).stat = false ∧
    (spi.subPackets msg name index r).actual = -8 ∧
    0 < (spi.subPackets msg name index r).remaining ∧
    ∃ f, r.port.transfers ≤ f ∧ spi.succeeds f = false ∧
      (spi.subPackets msg name index r).port.transfers = f + 1 := by
  have hpos := spi.countMax_pos
  induction hr : r.remaining using Nat.strongRecOn generalizing index r with
  | _ n ih =>
    subst hr
    unfold subPackets
    split
    case isTrue h =>
      have hzero : (0 + spi.countMax - 1) / spi.countMax = 0 := Nat.div_eq_of_lt (by omega)
      rw [h, hzero] at hlt
      omega
    case isFalse h =>
      have hstep := packetCount_step hpos h
      rw [Buffered] at hb
      simp only [hb, if_true]
      cases hfst : (spi.hardware name (decide (index = 0) && spi.phases msg)
          (min spi.countMax r.remaining) r.port).1 with
      | false =>
        simp only [Bool.false_eq_true, if_false]
        exact ⟨trivial, trivial, by omega, r.port.transfers, Nat.le_refl _, hfst, rfl⟩
      | true =>
        have hne : k ≠ r.port.transfers := by
          rintro rfl
          exact Bool.false_ne_true (hfail.symm.trans hfst)
        simp only [if_true]
        obtain ⟨h1, h2, h3, f, h4, h5, h6⟩ := ih _ (by dsimp only; omega) (index + 1)
          ⟨true, r.remaining - min spi.countMax r.remaining,
            r.actual + BitVec.ofNat 32 (min spi.countMax r.remaining),
            (spi.hardware name (decide (index = 0) && spi.phases msg)
              (min spi.countMax r.remaining) r.port).2⟩
          (by simp only [hardware]; omega) (by simp only [hardware]; omega) rfl
        refine ⟨h1, h2, h3, f, ?_, h5, h6⟩
        simp only [hardware] at h4
        omega

/-- Without a buffer nothing is transferred: the length is counted, or the error of an earlier message
is set again. -/
theorem subPackets_none (hb : (msg.sendBuf.isSome || msg.recvBuf.isSome) = false) (index : ℕ)
    (r : SpiLoop) :
    spi.subPackets msg name index r =
      if r.stat then { r with remaining := 0, actual := r.actual + BitVec.ofNat 32 r.remaining }
      else if r.remaining = 0 then r else { r with actual := -8 } := by
  induction hr : r.remaining using Nat.strongRecOn generalizing index r with
  | _ n ih =>
    subst hr
    unfold subPackets
    split
    case isTrue h =>
      obtain ⟨stat, remaining, actual, port⟩ := r
      dsimp only at h
      subst h
      cases stat <;> simp
    case isFalse h =>
      have hpos := spi.countMax_pos
      obtain ⟨stat, remaining, actual, port⟩ := r
      dsimp only at h ih ⊢
      cases stat with
      | false => simp [hb]
      | true =>
        simp only [hb, Bool.false_eq_true, if_false, if_true]
        rw [ih _ (by dsimp only; omega) (index + 1) _ rfl]
        simp only [if_true]
        rw [BitVec.add_assoc, ← BitVec.ofNat_add,
          show min spi.countMax remaining + (remaining - min spi.countMax remaining) = remaining by
            omega]

variable (spi name) in
/-- With a buffer something is started. -/
theorem subPackets_started (hb : Buffered msg) (index : ℕ) (r : SpiLoop) (h : r.remaining ≠ 0) :
    r.port.transfers < (spi.subPackets msg name index r).port.transfers := by
  have hpos : 0 < (r.remaining + spi.countMax - 1) / spi.countMax := by
    rw [packetCount_step spi.countMax_pos h]
    exact Nat.succ_pos _
  by_cases hall : ∀ n, r.port.transfers ≤ n →
      n < r.port.transfers + (r.remaining + spi.countMax - 1) / spi.countMax →
      spi.succeeds n = true
  · obtain ⟨-, -, -, ht, -⟩ := subPackets_all name hb index r hall
    omega
  · push Not at hall
    obtain ⟨k, hk, hlt, hfail⟩ := hall
    obtain ⟨-, -, -, f, hf, -, ht⟩ :=
      subPackets_fails name hb index r hk hlt ((Bool.not_eq_true _).mp hfail)
    omega

/-! ## One message, with `RT_USING_QSPI` -/

/-- What a message makes of `actual_len`, when nothing fails. -/
def countStep (spi : HpmSpi) (actual : BitVec 32) (msg : QspiMessage) : BitVec 32 :=
  (if msg.length = 0 then 0 else actual) + BitVec.ofNat 32 (spi.counted msg)

/-- A check that fails gives a result that is not negative. -/
theorem invalid_pos : ¬ spiInvalid.toInt < 0 := by decide

theorem subPackets_done (h : r.remaining = 0) : spi.subPackets msg name index r = r := by
  unfold subPackets
  rw [dif_pos h]

theorem packetCount_pos {n m : ℕ} (hm : 0 < m) (hn : n ≠ 0) : 0 < (n + m - 1) / m := by
  rw [packetCount_step hm hn]
  exact Nat.succ_pos _

/-- A message has no sub-transfer when it is empty and has no phases, or has no buffer. -/
theorem packets_eq_zero :
    spi.packets msg = 0 ↔
      (msg.length = 0 ∧ spi.phases msg = false) ∨
      (msg.length ≠ 0 ∧ (msg.sendBuf.isSome || msg.recvBuf.isSome) = false) := by
  unfold packets
  by_cases h : msg.length = 0
  · cases hp : spi.phases msg <;> simp [h]
  · have hpos := packetCount_pos spi.countMax_pos h
    cases hb : (msg.sendBuf.isSome || msg.recvBuf.isSome)
    · simp [h]
    · simp only [h, if_false, if_true, false_and, ne_eq, not_false_eq_true, true_and, false_or]
      exact iff_of_false (by omega) (by decide)

/-- The other messages have phases only, or a buffer. -/
theorem packets_ne_zero (h : spi.packets msg ≠ 0) :
    (msg.length = 0 ∧ spi.phases msg = true ∧ spi.packets msg = 1) ∨
    (msg.length ≠ 0 ∧ Buffered msg ∧
      spi.packets msg = (msg.length + spi.countMax - 1) / spi.countMax) := by
  unfold packets at h ⊢
  unfold Buffered
  by_cases h0 : msg.length = 0
  · cases hp : spi.phases msg
    · simp [h0, hp] at h
    · exact Or.inl ⟨h0, rfl, by simp [h0]⟩
  · cases hb : (msg.sendBuf.isSome || msg.recvBuf.isSome)
    · simp [h0, hb] at h
    · exact Or.inr ⟨h0, rfl, by simp [h0]⟩

variable (hq : spi.usingQspi = true)
include hq

theorem pollMessage_data (h0 : msg.length ≠ 0) (name : ℕ) (r : SpiLoop) :
    spi.pollMessage msg name r =
      spi.subPackets msg name 0 { r with remaining := msg.length } := by
  unfold pollMessage
  simp only [hq, if_true, if_neg h0]

/-- An idle message: nothing is started. -/
theorem pollMessage_idle (h : spi.packets msg = 0) (name : ℕ) (r : SpiLoop) :
    (spi.pollMessage msg name r).port = r.port ∧
    (spi.pollMessage msg name r).stat = r.stat ∧
    (spi.pollMessage msg name r).actual =
      if r.stat then spi.countStep r.actual msg else if msg.length = 0 then 0 else -8 := by
  unfold pollMessage countStep counted
  rw [if_pos hq]
  rcases packets_eq_zero.mp h with ⟨h0, hp⟩ | ⟨h0, hb⟩
  · simp [h0, sendNoData, hp, subPackets_done]
  · simp only [if_neg h0, subPackets_none hb]
    cases r.stat <;> simp

theorem polled_idle (h : spi.packets msg = 0) (name : ℕ) (r : SpiLoop) :
    spi.polled msg r (spi.pollMessage msg name r) = ⟨true, [], 0⟩ := by
  have hport := (pollMessage_idle hq h name r).1
  unfold polled
  simp [hport]

/-- All sub-transfers of a message succeed. -/
theorem pollMessage_all (name : ℕ) (r : SpiLoop)
    (hall : ∀ n, r.port.transfers ≤ n → n < r.port.transfers + spi.packets msg →
      spi.succeeds n = true) :
    (spi.pollMessage msg name r).port.transfers = r.port.transfers + spi.packets msg ∧
    (spi.polled msg r (spi.pollMessage msg name r)).moved = spi.moved msg ∧
    (r.stat = true → (spi.pollMessage msg name r).stat = true ∧
      (spi.pollMessage msg name r).actual = spi.countStep r.actual msg) := by
  by_cases hidle : spi.packets msg = 0
  · obtain ⟨h1, h2, h3⟩ := pollMessage_idle hq hidle name r
    refine ⟨?_, ?_, fun hs => ⟨h2.trans hs, ?_⟩⟩
    · rw [h1, hidle, Nat.add_zero]
    · rw [polled_idle hq hidle]
      unfold moved counted
      rcases packets_eq_zero.mp hidle with ⟨h0, hp⟩ | ⟨h0, hb⟩
      · simp [h0, hp]
      · simp [h0, hb]
    · rw [h3, if_pos hs]
  · rcases packets_ne_zero hidle with ⟨h0, hp, hone⟩ | ⟨h0, hb, hcount⟩
    · have hfst : spi.succeeds r.port.transfers = true := hall _ (Nat.le_refl _) (by omega)
      unfold pollMessage polled moved countStep counted
      simp [hq, h0, sendNoData, hp, hardware, hfst, subPackets_done, hone]
    · rw [hcount] at hall ⊢
      obtain ⟨-, h2, h3, h4, h5⟩ :=
        subPackets_all name hb 0 { r with remaining := msg.length } hall
      rw [pollMessage_data hq h0]
      refine ⟨h4, ?_, fun hs => ⟨?_, ?_⟩⟩
      · unfold polled moved counted
        rw [Buffered] at hb
        rw [if_neg h0, if_neg h0, h5, hb, if_neg (by simp)]
        dsimp only
        rw [Nat.add_sub_cancel_left, Nat.mul_div_cancel _ spi.dataLength_pos]
      · rw [h2, hs, Bool.true_or]
      · rw [h3, countStep, counted, if_neg h0, if_neg h0]

/-- A sub-transfer of a message fails. -/
theorem pollMessage_fails (name : ℕ) (r : SpiLoop) {k : ℕ} (hk : r.port.transfers ≤ k)
    (hlt : k < r.port.transfers + spi.packets msg) (hfail : spi.succeeds k = false) :
    (spi.pollMessage msg name r).actual = -8 ∧
    (spi.pollMessage msg name r).stat = (r.stat && decide (msg.length = 0)) ∧
    (spi.polled msg r (spi.pollMessage msg name r)).Failed := by
  have hidle : spi.packets msg ≠ 0 := by omega
  rcases packets_ne_zero hidle with ⟨h0, hp, hone⟩ | ⟨h0, hb, hcount⟩
  · have hfst : spi.succeeds r.port.transfers = false := by
      rw [show r.port.transfers = k by omega]
      exact hfail
    unfold pollMessage polled PolledMessage.Failed
    simp [hq, h0, sendNoData, hp, hardware, hfst, subPackets_done]
  · rw [hcount] at hlt
    obtain ⟨h1, h2, -, f, h4, h5, h6⟩ :=
      subPackets_fails name hb 0 { r with remaining := msg.length } hk hlt hfail
    rw [pollMessage_data hq h0]
    refine ⟨h2, ?_, Or.inr ?_⟩
    · rw [h1, decide_eq_false h0, Bool.and_false]
    · unfold polled
      refine List.mem_map.mpr ⟨f, List.mem_range'_1.mpr ⟨h4, ?_⟩, h5⟩
      rw [h6]
      dsimp only at h4
      omega

/-- A message that is not idle is started. -/
theorem polled_started (h : spi.packets msg ≠ 0) (name : ℕ) (r : SpiLoop) :
    (spi.polled msg r (spi.pollMessage msg name r)).outcomes ≠ [] := by
  by_cases hall : ∀ n, r.port.transfers ≤ n → n < r.port.transfers + spi.packets msg →
      spi.succeeds n = true
  · obtain ⟨ht, -, -⟩ := pollMessage_all hq name r hall
    unfold polled
    rw [ht, Nat.add_sub_cancel_left]
    simpa using h
  · push Not at hall
    obtain ⟨k, hk, hlt, hfail⟩ := hall
    have hf := (pollMessage_fails hq name r hk hlt ((Bool.not_eq_true _).mp hfail)).2.2
    rcases hf with hf | hf
    · exact absurd hf (by simp [polled])
    · exact List.ne_nil_of_mem hf

/-! ## The chain behind a failure -/

/-- What idle messages make of `actual_len`, after a status. -/
def lateActual (spi : HpmSpi) (stat : Bool) (actual : BitVec 32) (next : List QspiMessage) :
    BitVec 32 :=
  if stat then next.foldl spi.countStep actual
  else next.foldl (fun _ msg => if msg.length = 0 then 0 else -8) actual

omit hq in
theorem lateActual_cons (stat : Bool) (actual : BitVec 32) (next : List QspiMessage) :
    spi.lateActual stat actual (msg :: next) =
      spi.lateActual stat (if stat then spi.countStep actual msg
        else if msg.length = 0 then 0 else -8) next := by
  cases stat <;> rfl

/-- Behind a failure nothing may be started, and the result stays negative. -/
theorem late (next : List QspiMessage) (r : SpiLoop) :
    ((spi.pollingLoop next r).1.toInt < 0 ∧
      ∀ y ∈ spi.polledMessages next r, y.outcomes = []) ↔
    (∀ later ∈ next, spi.checkParams later = true) ∧ (∀ later ∈ next, spi.packets later = 0) ∧
      (spi.lateActual r.stat r.actual next).toInt < 0 := by
  induction next generalizing r with
  | nil => simp [pollingLoop, polledMessages, lateActual]
  | cons msg next ih =>
    rw [pollingLoop_cons, polledMessages, List.forall_mem_cons, List.forall_mem_cons]
    by_cases hc : spi.checkParams msg = true
    · rw [if_pos hc, if_pos hc, List.forall_mem_cons, and_left_comm, ih]
      by_cases hidle : spi.packets msg = 0
      · obtain ⟨-, h2, h3⟩ := pollMessage_idle hq hidle next.length r
        rw [polled_idle hq hidle, h2, h3, lateActual_cons]
        simp only [hc, hidle, true_and]
      · exact iff_of_false (fun h => polled_started hq hidle _ _ h.1) fun h => hidle h.2.1.1
    · rw [if_neg hc, if_neg hc]
      exact iff_of_false (fun h => invalid_pos h.1) fun h => hc h.1.1

end

/-! ## Counting -/

section

variable {spi : HpmSpi} {x : PolledMessage} {l : List PolledMessage} {m : ℕ} {ret : ℤ}

theorem reports_nil : Reports m [] ret ↔ ret = m := by
  constructor
  · intro h
    simpa using h.sum fun x hx => absurd hx List.not_mem_nil
  · intro h
    exact ⟨fun ⟨x, hx, _⟩ => absurd hx List.not_mem_nil, List.Pairwise.nil, fun _ => by simpa using h⟩

theorem reports_cons (hx : ¬ x.Failed) : Reports m (x :: l) ret ↔ Reports (m + x.moved) l ret := by
  have hsum : ((m : ℤ) + ((x :: l).map PolledMessage.moved).sum) =
      ((m + x.moved : ℕ) : ℤ) + (l.map PolledMessage.moved).sum := by
    rw [List.map_cons, List.sum_cons]
    push_cast
    exact (add_assoc _ _ _).symm
  constructor
  · intro h
    refine ⟨fun ⟨y, hy, hf⟩ => h.negative ⟨y, List.mem_cons_of_mem x hy, hf⟩,
      (List.pairwise_cons.mp h.stops).2, fun hall => ?_⟩
    rw [← hsum]
    exact h.sum (List.forall_mem_cons.mpr ⟨hx, hall⟩)
  · intro h
    refine ⟨fun ⟨y, hy, hf⟩ => ?_, List.pairwise_cons.mpr ⟨fun _ _ hf => absurd hf hx, h.stops⟩,
      fun hall => ?_⟩
    · rcases List.mem_cons.mp hy with rfl | hy
      · exact absurd hf hx
      · exact h.negative ⟨y, hy, hf⟩
    · rw [hsum]
      exact h.sum (List.forall_mem_cons.mp hall).2

theorem reports_failed (hx : x.Failed) :
    Reports m (x :: l) ret ↔ ret < 0 ∧ ∀ y ∈ l, y.outcomes = [] := by
  constructor
  · intro h
    exact ⟨h.negative ⟨x, List.mem_cons_self, hx⟩, fun y hy =>
      (List.pairwise_cons.mp h.stops).1 y hy hx⟩
  · intro h
    refine ⟨fun _ => h.1, List.pairwise_cons.mpr ⟨fun y hy _ => h.2 y hy, ?_⟩, fun hall =>
      absurd hx (hall x List.mem_cons_self)⟩
    exact List.pairwise_of_forall_mem_list fun _ _ y hy _ => h.2 y hy

/-- A sum from the last empty message on. -/
theorem foldl_countStep (actual : BitVec 32) (chain : List QspiMessage) :
    chain.foldl spi.countStep actual =
      (if chain.any (·.length == 0) then 0 else actual) +
        BitVec.ofNat 32 ((since chain).map spi.counted).sum := by
  induction chain generalizing actual with
  | nil => simp [since]
  | cons msg next ih =>
    rw [List.foldl_cons, ih, since, List.any_cons]
    by_cases hany : next.any (·.length == 0) = true
    · rw [if_pos hany, hany, Bool.or_true, if_pos rfl, if_pos rfl]
    · have hself : ∀ l : List QspiMessage, ¬ l.any (·.length == 0) = true → since l = l := by
        intro l hl
        cases l with
        | nil => rfl
        | cons a l =>
          rw [List.any_cons, Bool.or_eq_true, not_or] at hl
          rw [since, if_neg hl.2]
      rw [if_neg hany, if_neg hany, hself next hany, (Bool.not_eq_true _).mp hany, Bool.or_false,
        List.map_cons, List.sum_cons, countStep, BitVec.ofNat_add, BitVec.add_assoc]
      simp only [beq_iff_eq]

/-- After a failed data transfer the last message decides. -/
theorem foldl_late (next : List QspiMessage) :
    (next.foldl (fun _ msg => if msg.length = 0 then 0 else -8) (-8 : BitVec 32)).toInt < 0 ↔
      ∀ last ∈ next.getLast?, last.length ≠ 0 := by
  induction next using List.reverseRecOn with
  | nil => simp
  | append_singleton l msg _ =>
    rw [List.foldl_append, List.getLast?_concat]
    by_cases h : msg.length = 0 <;> simp [h]

theorem toInt_add_signed (z : ℤ) (n : ℕ) :
    (BitVec.ofInt 32 z + BitVec.ofNat 32 n).toInt = signed (z + n) := by
  rw [← BitVec.ofInt_natCast, ← BitVec.ofInt_add, BitVec.toInt_ofInt, signed]

end

/-! ## The condition -/

section

variable {spi : HpmSpi} {r : SpiLoop}

/-- **The chain with `RT_USING_QSPI`.** -/
theorem reports_qspi (hq : spi.usingQspi = true) (chain : List QspiMessage) (m : ℕ) (r : SpiLoop)
    (hs : r.stat = true) :
    Reports m (spi.polledMessages chain r) (spi.pollingLoop chain r).1.toInt ↔
    (∀ msg ∈ chain, spi.checkParams msg = true) ∧
    match spi.firstFailure chain r.port.transfers with
    | none => (chain.foldl spi.countStep r.actual).toInt = (m + (chain.map spi.moved).sum : ℕ)
    | some (msg, next) =>
      (∀ later ∈ next, spi.packets later = 0) ∧
        (spi.lateActual (decide (msg.length = 0)) (-8) next).toInt < 0 := by
  induction chain generalizing m r with
  | nil => simp [polledMessages, pollingLoop, firstFailure, reports_nil]
  | cons msg next ih =>
    rw [pollingLoop_cons, polledMessages, List.forall_mem_cons, firstFailure]
    by_cases hc : spi.checkParams msg = true
    · rw [if_pos hc, if_pos hc, and_iff_right hc]
      by_cases hall : (List.range' r.port.transfers (spi.packets msg)).all spi.succeeds = true
      · have hall' : ∀ n, r.port.transfers ≤ n → n < r.port.transfers + spi.packets msg →
            spi.succeeds n = true :=
          fun n h1 h2 => List.all_eq_true.mp hall n (List.mem_range'_1.mpr ⟨h1, h2⟩)
        obtain ⟨ht, hmoved, hstat⟩ := pollMessage_all hq next.length r hall'
        have hok : ¬ (spi.polled msg r (spi.pollMessage msg next.length r)).Failed := by
          rintro (hf | hf)
          · exact absurd hf (by simp [polled])
          · unfold polled at hf
            rw [ht, Nat.add_sub_cancel_left] at hf
            obtain ⟨n, hn, hfail⟩ := List.mem_map.mp hf
            rw [List.all_eq_true.mp hall n hn] at hfail
            cases hfail
        rw [if_pos hall, reports_cons hok, hmoved, ih _ _ (hstat hs).1, ht, (hstat hs).2]
        refine and_congr_right fun _ => ?_
        cases spi.firstFailure next (r.port.transfers + spi.packets msg) with
        | none => rw [List.foldl_cons, List.map_cons, List.sum_cons, Nat.add_assoc]
        | some x => rfl
      · rw [if_neg hall]
        rw [List.all_eq_true] at hall
        push Not at hall
        obtain ⟨k, hk, hfail⟩ := hall
        have hin := List.mem_range'_1.mp hk
        obtain ⟨h1, h2, h3⟩ :=
          pollMessage_fails hq next.length r hin.1 hin.2 ((Bool.not_eq_true _).mp hfail)
        rw [reports_failed h3, late hq, h1, h2, hs, Bool.true_and]
    · rw [if_neg hc, if_neg hc, reports_failed (Or.inl rfl)]
      exact iff_of_false (fun h => invalid_pos h.1) fun h => hc h.1.1

/-! ## Without `RT_USING_QSPI` -/

theorem checkParams_plain (hq : spi.usingQspi = false) (hm : spi.mode ≠ spiSlave)
    (msg : QspiMessage) : spi.checkParams msg = true := by
  simp [checkParams, hq, hm]

theorem reports_idle {l : List PolledMessage} {m : ℕ} {ret : ℤ} (h : ∀ y ∈ l, y = ⟨true, [], 0⟩) :
    Reports m l ret ↔ ret = m := by
  induction l generalizing m with
  | nil => exact reports_nil
  | cons y l ih =>
    have hy := h y List.mem_cons_self
    have hok : ¬ y.Failed := by
      rw [hy]
      rintro (hf | hf)
      · cases hf
      · exact absurd hf List.not_mem_nil
    rw [reports_cons hok, ih fun z hz => h z (List.mem_cons_of_mem y hz), hy, Nat.add_zero]

theorem pollMessage_plain (hq : spi.usingQspi = false) (msg : QspiMessage) (name : ℕ)
    (r : SpiLoop) : spi.pollMessage msg name r = spi.subPackets msg name 0 r := by
  unfold pollMessage
  rw [hq, if_neg Bool.false_ne_true]

variable (spi) in
theorem polled_self (msg : QspiMessage) (r r' : SpiLoop) (h : r'.port = r.port) :
    spi.polled msg r r' = ⟨true, [], 0⟩ := by
  unfold polled
  simp [h]

/-- Nothing remains: the later messages of a chain are not looked at. -/
theorem plain_done (hq : spi.usingQspi = false) (hm : spi.mode ≠ spiSlave)
    (next : List QspiMessage) (r : SpiLoop) (h : r.remaining = 0) :
    (spi.pollingLoop next r).1 = r.actual ∧
      ∀ y ∈ spi.polledMessages next r, y = ⟨true, [], 0⟩ := by
  induction next with
  | nil => exact ⟨rfl, fun y hy => absurd hy List.not_mem_nil⟩
  | cons msg next ih =>
    rw [pollingLoop_cons, polledMessages, if_pos (checkParams_plain hq hm msg),
      if_pos (checkParams_plain hq hm msg), pollMessage_plain hq, subPackets_done h,
      List.forall_mem_cons]
    exact ⟨ih.1, polled_self spi msg r r rfl, ih.2⟩

/-- Something remains of a failed message: the next one that has a buffer is started with it. -/
theorem plain_late (hq : spi.usingQspi = false) (hm : spi.mode ≠ spiSlave)
    (next : List QspiMessage) (r : SpiLoop) (hs : r.stat = false) (h0 : r.remaining ≠ 0)
    (ha : r.actual = -8) :
    ((spi.pollingLoop next r).1.toInt < 0 ∧
      ∀ y ∈ spi.polledMessages next r, y.outcomes = []) ↔
    ∀ later ∈ next, (later.sendBuf.isSome || later.recvBuf.isSome) = false := by
  induction next with
  | nil => simp [pollingLoop, polledMessages, ha]
  | cons msg next ih =>
    rw [pollingLoop_cons, polledMessages, if_pos (checkParams_plain hq hm msg),
      if_pos (checkParams_plain hq hm msg), pollMessage_plain hq, List.forall_mem_cons,
      List.forall_mem_cons]
    cases hb : (msg.sendBuf.isSome || msg.recvBuf.isSome) with
    | false =>
      have hself : spi.subPackets msg next.length 0 r = r := by
        rw [subPackets_none hb, if_neg (by rw [hs]; exact Bool.false_ne_true), if_neg h0, ← ha]
      rw [hself, polled_self spi msg r r rfl, and_iff_right rfl, and_iff_right rfl]
      exact ih
    | true =>
      have hlt := subPackets_started spi next.length hb 0 r h0
      refine iff_of_false (fun h => ?_) fun h => Bool.false_ne_true h.1.symm
      have hnil := h.2.1
      unfold polled at hnil
      rw [List.map_eq_nil_iff, List.range'_eq_nil_iff] at hnil
      omega

/-- **The chain without `RT_USING_QSPI`**: only the first message is transferred. -/
theorem reports_plain (hq : spi.usingQspi = false) (hm : spi.mode ≠ spiSlave)
    (msg : QspiMessage) (next : List QspiMessage) (p : SpiPort) :
    Reports 0 (spi.polledMessages (msg :: next) { remaining := msg.length, port := p })
      (spi.pollingLoop (msg :: next) { remaining := msg.length, port := p }).1.toInt ↔
    if (List.range' p.transfers (spi.packets msg)).all spi.succeeds then
      signed msg.length = (spi.moved msg : ℕ)
    else ∀ later ∈ next, (later.sendBuf.isSome || later.recvBuf.isSome) = false := by
  have hphases : spi.phases msg = false := phases_of_not_qspi hq msg
  rw [pollingLoop_cons, polledMessages, if_pos (checkParams_plain hq hm msg),
    if_pos (checkParams_plain hq hm msg), pollMessage_plain hq]
  have hsigned : ((0 : BitVec 32) + BitVec.ofNat 32 msg.length).toInt = signed msg.length := by
    have := toInt_add_signed 0 msg.length
    rw [zero_add] at this
    exact this
  by_cases hidle : spi.packets msg = 0
  · have hmoved : spi.moved msg = 0 := by
      unfold moved counted
      rcases packets_eq_zero.mp hidle with ⟨h0, -⟩ | ⟨h0, hb⟩
      · simp [h0, hphases]
      · simp [h0, hb]
    have hsub : spi.subPackets msg next.length 0 { remaining := msg.length, port := p } =
        { remaining := 0, actual := 0 + BitVec.ofNat 32 msg.length, port := p } := by
      rcases packets_eq_zero.mp hidle with ⟨h0, -⟩ | ⟨h0, hb⟩
      · rw [h0]
        exact subPackets_done rfl
      · rw [subPackets_none hb, if_pos rfl]
    have hpolled := polled_self spi msg { remaining := msg.length, port := p }
      { remaining := 0, actual := 0 + BitVec.ofNat 32 msg.length, port := p } rfl
    obtain ⟨hret, hall⟩ := plain_done hq hm next
      { remaining := 0, actual := 0 + BitVec.ofNat 32 msg.length, port := p } rfl
    rw [hsub]
    dsimp only
    rw [hpolled, hret, reports_idle (List.forall_mem_cons.mpr ⟨rfl, hall⟩), hidle, hmoved,
      hsigned]
    simp
  · rcases packets_ne_zero hidle with ⟨-, hp, -⟩ | ⟨h0, hb, hcount⟩
    · rw [hphases] at hp
      cases hp
    by_cases hall : (List.range' p.transfers (spi.packets msg)).all spi.succeeds = true
    · have hall' : ∀ n, p.transfers ≤ n →
          n < p.transfers + (msg.length + spi.countMax - 1) / spi.countMax →
          spi.succeeds n = true :=
        fun n h1 h2 => List.all_eq_true.mp hall n
          (List.mem_range'_1.mpr ⟨h1, by rw [hcount]; exact h2⟩)
      obtain ⟨h1, -, h3, h4, h5⟩ := subPackets_all next.length hb 0
        { remaining := msg.length, port := p } hall'
      obtain ⟨hret, hidle'⟩ := plain_done hq hm next _ h1
      have hmoved : spi.moved msg = msg.length := by
        unfold moved counted
        rw [Buffered] at hb
        simp [h0, hb]
      have hpm : (spi.polled msg { remaining := msg.length, port := p }
          (spi.subPackets msg next.length 0 { remaining := msg.length, port := p })).moved =
            msg.length := by
        unfold polled
        rw [if_neg h0, h5]
        dsimp only
        rw [Nat.add_sub_cancel_left, Nat.mul_div_cancel _ spi.dataLength_pos]
      have hok : ¬ (spi.polled msg { remaining := msg.length, port := p }
          (spi.subPackets msg next.length 0 { remaining := msg.length, port := p })).Failed := by
        rintro (hf | hf)
        · exact absurd hf (by simp [polled])
        · unfold polled at hf
          rw [h4] at hf
          dsimp only at hf
          rw [Nat.add_sub_cancel_left, ← hcount] at hf
          obtain ⟨n, hn, hfail⟩ := List.mem_map.mp hf
          rw [List.all_eq_true.mp hall n hn] at hfail
          cases hfail
      rw [if_pos hall, reports_cons hok, reports_idle hidle', hret, h3, hpm, hmoved, hsigned,
        Nat.zero_add]
    · rw [if_neg hall]
      rw [List.all_eq_true] at hall
      push Not at hall
      obtain ⟨k, hk, hfail⟩ := hall
      have hin := List.mem_range'_1.mp hk
      rw [hcount] at hin
      obtain ⟨h1, h2, h3, f, h4, h5, h6⟩ := subPackets_fails next.length hb 0
        { remaining := msg.length, port := p } hin.1 hin.2 ((Bool.not_eq_true _).mp hfail)
      have hbad : (spi.polled msg { remaining := msg.length, port := p }
          (spi.subPackets msg next.length 0 { remaining := msg.length, port := p })).Failed := by
        refine Or.inr (List.mem_map.mpr ⟨f, List.mem_range'_1.mpr ⟨h4, ?_⟩, h5⟩)
        rw [h6]
        dsimp only at h4 ⊢
        omega
      rw [reports_failed hbad, plain_late hq hm next _ h1 (Nat.pos_iff_ne_zero.mp h3) h2]

end

end HpmSpi

/-- **What polling reports**: for every chain and every outcome of the sub-transfers the result of
`hpm_spi_xfer_polling` reports what has happened exactly when the chain meets the condition. -/
theorem spi_polling (spi : HpmSpi) (chain : List QspiMessage) (p : SpiPort) :
    Reports 0 (spi.polledChain chain p) (spi.xferPolling chain p).1.toInt ↔
      spi.polledOk chain p.transfers := by
  unfold HpmSpi.polledChain HpmSpi.xferPolling HpmSpi.polledOk
  by_cases hm : spi.mode = spiSlave
  · rw [if_pos (beq_iff_eq.mpr hm), if_pos (beq_iff_eq.mpr hm), HpmSpi.reports_failed (Or.inl rfl)]
    exact iff_of_true ⟨(by decide : (-spiInvalid).toInt < 0), fun y hy => absurd hy List.not_mem_nil⟩ (Or.inl hm)
  rw [if_neg fun h => hm (beq_iff_eq.mp h), if_neg fun h => hm (beq_iff_eq.mp h), or_iff_right hm]
  by_cases hq : spi.usingQspi = true
  · rw [if_pos hq, HpmSpi.reports_qspi hq chain 0 _ rfl]
    refine and_congr_right fun _ => ?_
    dsimp only
    cases spi.firstFailure chain p.transfers with
    | none =>
      have hsum := HpmSpi.toInt_add_signed 0 ((HpmSpi.since chain).map spi.counted).sum
      rw [HpmSpi.foldl_countStep, ite_self]
      dsimp only
      rw [show (0 : BitVec 32) = BitVec.ofInt 32 0 from rfl, hsum, zero_add, Nat.zero_add]
    | some x =>
      obtain ⟨msg, next⟩ := x
      dsimp only
      refine and_congr_right fun _ => ?_
      unfold HpmSpi.lateActual
      by_cases h0 : msg.length = 0
      · have hsum := HpmSpi.toInt_add_signed (if next.any (·.length == 0) then 0 else -8)
          ((HpmSpi.since next).map spi.counted).sum
        rw [decide_eq_true h0, if_pos rfl, if_pos h0, HpmSpi.foldl_countStep, ← hsum]
        split <;> rfl
      · rw [decide_eq_false h0, if_neg Bool.false_ne_true, if_neg h0, HpmSpi.foldl_late]
  · rw [if_neg hq]
    cases chain with
    | nil => exact iff_of_true (HpmSpi.reports_nil.mpr rfl) trivial
    | cons msg next => exact HpmSpi.reports_plain ((Bool.not_eq_true _).mp hq) hm msg next p

/-- **The second message of a chain is started after the first has failed**, with what remains of
it. -/
theorem spi_polling_late : ¬ ∀ (spi : HpmSpi) (chain : List QspiMessage) (p : SpiPort),
    Reports 0 (spi.polledChain chain p) (spi.xferPolling chain p).1.toInt := by
  intro h
  have := (spi_polling { hpmSpi false with succeeds := fun n => n != 0 }
    [sendMessage 3, sendMessage 2] {}).mp
    (h { hpmSpi false with succeeds := fun n => n != 0 } [sendMessage 3, sendMessage 2] {})
  rcases this with hm | hok
  · exact absurd hm (by decide)
  · exact absurd (hok (sendMessage 2) (by decide)) (by decide)

end RtThread
