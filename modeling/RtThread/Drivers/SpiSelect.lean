import RtThread.Drivers.SpiBus

/-!
# The chip select of an hpm SPI device

`rt_spi_send_then_send` and `rt_spi_send_then_recv` select the device with their first message and
release it with the second; `hpm_spi_xfer` drives the line as the flags of a message say.

* `SpiSelect`: the bus, its lock and the lines; `csControl`, `hpmXfer`: the driver;
* `xferTwo`, `sendTwo`, `sendRecv`: the two calls, which are those of the bus: `xferTwo_xferThen`;
* **`spi_select`**: a device that was not selected is not selected at the return exactly when the first
  transfer does not fail, and the lock is as it was; `spi_left_selected`.
-/

set_option linter.unusedSectionVars false

namespace RtThread

/-! ## The driver -/

/-- `RT_SPI_NO_CS`. -/
def spiNoCs : BitVec 8 := 0x20

/-- The bus, how often its lock is held, the levels of the pins, and what the callbacks were told last;
a device has a callback when its `user_data` is not NULL. -/
structure SpiSelect (D B : Type) where
  spi : Spi D B
  lock : B → ℕ
  level : ℕ → Bool
  taken : D → Bool
  callback : D → Bool

namespace SpiSelect

variable {D B : Type} [DecidableEq D] [DecidableEq B] (s : SpiSelect D B) (device d : D) (b : B)

/-- The mode of a device has a flag. -/
def flag (f : BitVec 8) : Bool := (s.spi.dev device).config.mode &&& f != 0

/-- Take or release the chip select: the callback of a device without a pin, the pin otherwise. -/
def csControl (take : Bool) : SpiSelect D B :=
  match (s.spi.dev device).csPin with
  | none =>
    if s.callback device then { s with taken := Function.update s.taken device take } else s
  | some pin =>
    if s.flag device spiNoCs then s
    else { s with level := Function.update s.level pin (take == s.flag device spiCsHigh) }

/-- `hpm_spi_xfer`, with the result of the transfer itself. -/
def hpmXfer (msg : SpiMessage) (len : ℤ) : ℤ × SpiSelect D B :=
  let s := if msg.csTake then s.csControl device true else s
  (len, if msg.csRelease then s.csControl device false else s)

/-- `rt_mutex_take` of the bus. -/
def takeLock : SpiSelect D B := { s with lock := Function.update s.lock b (s.lock b + 1) }

/-- `rt_mutex_release` of the bus. -/
def releaseLock : SpiSelect D B := { s with lock := Function.update s.lock b (s.lock b - 1) }

/-- The owner test at the beginning of a transfer. -/
def acquire (a : SpiAnswer) : ℤ × SpiSelect D B :=
  ((s.spi.acquire device b a).1, { s with spi := (s.spi.acquire device b a).2 })

/-! ## The calls -/

/-- Two messages one after the other, under the lock. -/
def xferTwo (a : SpiAnswer) (first second : SpiMessage) : Option (ℤ × SpiSelect D B) :=
  (s.spi.dev device).bus.map fun b =>
    if a.take ≠ 0 then (spiIoError, s)
    else
      let r := (s.takeLock b).acquire device b a
      if r.1 ≠ 0 then (r.1, r.2.releaseLock b)
      else
        let r := r.2.hpmXfer device first (a.xfer 0)
        if r.1 < 0 then (r.1, r.2.releaseLock b)
        else
          let r := r.2.hpmXfer device second (a.xfer 1)
          if r.1 < 0 then (r.1, r.2.releaseLock b) else (0, r.2.releaseLock b)

/-- `rt_spi_send_then_send`. -/
def sendTwo (a : SpiAnswer) (sendBuf1 : Option ℕ) (length1 : ℕ) (sendBuf2 : Option ℕ)
    (length2 : ℕ) : Option (ℤ × SpiSelect D B) :=
  s.xferTwo device a ⟨sendBuf1, none, length1, true, false⟩ ⟨sendBuf2, none, length2, false, true⟩

/-- `rt_spi_send_then_recv`. -/
def sendRecv (a : SpiAnswer) (sendBuf : Option ℕ) (sendLength : ℕ) (recvBuf : Option ℕ)
    (recvLength : ℕ) : Option (ℤ × SpiSelect D B) :=
  s.xferTwo device a ⟨sendBuf, none, sendLength, true, false⟩
    ⟨none, recvBuf, recvLength, false, true⟩

/-- The chip select of a device is asserted: its callback has taken it, or its pin has the active
level. -/
def Selected : Prop :=
  (match (s.spi.dev device).csPin with
  | none => s.taken device
  | some pin => s.level pin == s.flag device spiCsHigh) = true

instance : Decidable (s.Selected device) := inferInstanceAs (Decidable (_ = true))

/-- The driver has a line to drive. -/
def driven : Bool :=
  match (s.spi.dev device).csPin with
  | none => s.callback device
  | some _ => !s.flag device spiNoCs

/-- Two devices have their own lines. -/
def apart : Bool :=
  match (s.spi.dev device).csPin with
  | none => true
  | some pin => (s.spi.dev d).csPin != some pin

/-- The first transfer of a call is started. -/
def starts (a : SpiAnswer) : Bool :=
  a.take == 0 && match (s.spi.dev device).bus with
    | none => false
    | some b => (s.spi.bus b).owner == some device || a.configure == 0

/-! ## The lines -/

variable {s device d b} {a : SpiAnswer} {first second : SpiMessage} {take : Bool}

@[simp] theorem csControl_spi : (s.csControl device take).spi = s.spi := by
  unfold csControl
  split <;> split <;> rfl

@[simp] theorem csControl_lock : (s.csControl device take).lock = s.lock := by
  unfold csControl
  split <;> split <;> rfl

@[simp] theorem csControl_callback : (s.csControl device take).callback = s.callback := by
  unfold csControl
  split <;> split <;> rfl

@[simp] theorem hpmXfer_spi (msg : SpiMessage) (len : ℤ) :
    (s.hpmXfer device msg len).2.spi = s.spi := by
  unfold hpmXfer
  dsimp only
  split <;> split <;> simp

/-- Two states with the same devices and the same lines. -/
structure Alike (s s' : SpiSelect D B) : Prop where
  dev : s.spi.dev = s'.spi.dev
  level : s.level = s'.level
  taken : s.taken = s'.taken
  callback : s.callback = s'.callback

theorem Alike.selected {s' : SpiSelect D B} (h : Alike s s') : s.Selected d ↔ s'.Selected d := by
  unfold Selected flag
  rw [h.dev, h.level, h.taken]

theorem Alike.csControl {s' : SpiSelect D B} (h : Alike s s') :
    Alike (s.csControl device take) (s'.csControl device take) := by
  obtain ⟨hdev, hlevel, htaken, hcallback⟩ := h
  unfold SpiSelect.csControl flag
  rw [hdev]
  split
  · by_cases hc : s'.callback device = true
    · rw [if_pos (hcallback ▸ hc), if_pos hc]
      exact ⟨hdev, hlevel, congrArg (Function.update · device take) htaken, hcallback⟩
    · rw [if_neg (hcallback ▸ hc), if_neg hc]
      exact ⟨hdev, hlevel, htaken, hcallback⟩
  · split
    · exact ⟨hdev, hlevel, htaken, hcallback⟩
    · exact ⟨hdev, congrArg (Function.update · _ _) hlevel, htaken, hcallback⟩

/-- The driver sets the line it has. -/
theorem selected_csControl (h : s.driven device = true) :
    (s.csControl device take).Selected device ↔ take = true := by
  unfold Selected
  rw [csControl_spi]
  unfold driven at h
  unfold csControl
  cases hpin : (s.spi.dev device).csPin with
  | none =>
    rw [hpin] at h
    dsimp only at h ⊢
    rw [if_pos h]
    simp
  | some pin =>
    rw [hpin] at h
    dsimp only at h ⊢
    rw [if_neg (by simpa using h)]
    unfold flag
    cases take <;> simp

/-- Without a line nothing changes. -/
theorem csControl_not_driven (h : s.driven device = false) : s.csControl device take = s := by
  unfold driven at h
  unfold csControl
  split <;> rename_i hpin <;> rw [hpin] at h <;> dsimp only at h
  · exact if_neg (by rw [h]; exact Bool.false_ne_true)
  · exact if_pos (by simpa using h)

/-- The line of another device stays as it is. -/
theorem selected_csControl_apart (hne : d ≠ device) (h : s.apart device d = true) :
    (s.csControl device take).Selected d ↔ s.Selected d := by
  unfold apart at h
  unfold csControl
  cases hpin : (s.spi.dev device).csPin with
  | none =>
    dsimp only
    split
    · unfold Selected flag
      dsimp only
      rw [Function.update_of_ne hne]
    · rfl
  | some pin =>
    rw [hpin] at h
    dsimp only at h ⊢
    split
    · rfl
    · unfold Selected flag
      dsimp only
      split
      · rfl
      · rename_i pin' hpin'
        rw [hpin'] at h
        have hp : pin' ≠ pin := by
          intro he
          rw [he] at h
          simp at h
        rw [Function.update_of_ne hp]

/-! ## The calls -/

theorem releaseLock_takeLock : ((s.takeLock b).releaseLock b).lock = s.lock := by
  unfold takeLock releaseLock
  dsimp only
  rw [Function.update_self, Nat.add_sub_cancel, Function.update_idem, Function.update_eq_self]

theorem acquire_dev : (s.spi.acquire device b a).2.dev = s.spi.dev := by
  unfold Spi.acquire
  split
  · rfl
  · split <;> rfl

/-- What is done under the lock leaves the lock as it was. -/
theorem releaseLock_of (s' : SpiSelect D B) (h : s'.lock = (s.takeLock b).lock) :
    (s'.releaseLock b).lock = s.lock := by
  rw [← releaseLock_takeLock (s := s) (b := b)]
  unfold releaseLock
  rw [h]

/-- **The calls are those of the bus**, with the lock and the lines. -/
theorem xferTwo_xferThen :
    (s.xferTwo device a first second).map (fun x => (x.1, x.2.spi)) =
      (s.spi.xferThen device a first second).map fun o => (o.result, o.spi) := by
  unfold xferTwo Spi.xferThen Spi.onBus
  rw [Option.map_map, Option.map_map]
  refine Option.map_congr fun b _ => ?_
  dsimp only [Function.comp_apply]
  by_cases htake : a.take ≠ 0
  · rw [if_pos htake, if_pos htake]
  rw [if_neg htake, if_neg htake]
  have hfst : ((s.takeLock b).acquire device b a).1 = (s.spi.acquire device b a).1 := rfl
  have hspi : ((s.takeLock b).acquire device b a).2.spi = (s.spi.acquire device b a).2 := rfl
  by_cases hacq : (s.spi.acquire device b a).1 ≠ 0
  · rw [if_pos (hfst ▸ hacq), if_pos hacq]
    rfl
  rw [if_neg (hfst ▸ hacq), if_neg hacq]
  have hlen : ∀ (s : SpiSelect D B) (msg : SpiMessage) (len : ℤ),
      (s.hpmXfer device msg len).1 = len := fun _ _ _ => rfl
  unfold Spi.xfer
  dsimp only [List.length_nil, List.nil_append, List.length_singleton]
  simp only [hlen]
  by_cases h0 : a.xfer 0 < 0
  · simp only [if_pos h0, releaseLock, hpmXfer_spi, hspi]
  · by_cases h1 : a.xfer 1 < 0
    · simp only [if_neg h0, if_pos h1, releaseLock, hpmXfer_spi, hspi]
    · simp only [if_neg h0, if_neg h1, releaseLock, hpmXfer_spi, hspi]

theorem starts_eq (hb : (s.spi.dev device).bus = some b) (htake : a.take = 0) :
    s.starts device a = true ↔ (s.spi.acquire device b a).1 = 0 := by
  unfold starts Spi.acquire
  rw [htake, hb]
  by_cases how : (s.spi.bus b).owner = some device
  · simp [how]
  · by_cases hconf : a.configure = 0 <;> simp [how, hconf]

/-- **How a call with two messages ends**: without a transfer, after the first one, or after both. -/
theorem xferTwo_cases {x : ℤ × SpiSelect D B} {buf1 recv1 buf2 recv2 : Option ℕ} {n1 n2 : ℕ}
    (h : s.xferTwo device a ⟨buf1, recv1, n1, true, false⟩ ⟨buf2, recv2, n2, false, true⟩ =
      some x) :
    x.2.lock = s.lock ∧
    ((s.starts device a = false ∧ Alike x.2 s) ∨
      (s.starts device a = true ∧ a.xfer 0 < 0 ∧ Alike x.2 (s.csControl device true)) ∨
      (s.starts device a = true ∧ 0 ≤ a.xfer 0 ∧
        Alike x.2 ((s.csControl device true).csControl device false))) := by
  obtain ⟨b, hb, hx⟩ := Option.map_eq_some_iff.mp h
  by_cases htake : a.take ≠ 0
  · rw [if_pos htake] at hx
    subst hx
    refine ⟨rfl, Or.inl ⟨?_, rfl, rfl, rfl, rfl⟩⟩
    unfold starts
    rw [beq_eq_false_iff_ne.mpr htake, Bool.false_and]
  rw [if_neg htake] at hx
  have hstart := starts_eq (s := s) (a := a) hb (not_not.mp htake)
  have hlike : Alike ((s.takeLock b).acquire device b a).2 s := ⟨acquire_dev, rfl, rfl, rfl⟩
  by_cases hacq : (s.spi.acquire device b a).1 = 0
  · have hacq' : ¬ ((s.takeLock b).acquire device b a).1 ≠ 0 := not_not.mpr hacq
    simp only [if_neg hacq'] at hx
    split at hx
    · rename_i h0
      subst hx
      have hfirst : Alike _ (s.csControl device true) := hlike.csControl
      refine ⟨releaseLock_of _ (csControl_lock.trans rfl), Or.inr (Or.inl ⟨hstart.mpr hacq, h0, ?_⟩)⟩
      exact ⟨hfirst.dev, hfirst.level, hfirst.taken, hfirst.callback⟩
    · rename_i h0
      have hboth : Alike _ ((s.csControl device true).csControl device false) :=
        (hlike.csControl ).csControl
      have hx2 : x.2 = ((((s.takeLock b).acquire device b a).2.csControl device true).csControl
          device false).releaseLock b := by
        split at hx <;> exact (congrArg Prod.snd hx).symm
      rw [hx2]
      refine ⟨releaseLock_of _ (csControl_lock.trans (csControl_lock.trans rfl)),
        Or.inr (Or.inr ⟨hstart.mpr hacq, Int.not_lt.mp h0, ?_⟩)⟩
      exact ⟨hboth.dev, hboth.level, hboth.taken, hboth.callback⟩
  · have hacq' : ((s.takeLock b).acquire device b a).1 ≠ 0 := hacq
    simp only [if_pos hacq'] at hx
    subst hx
    refine ⟨releaseLock_of _ rfl, Or.inl ⟨?_, hlike.dev, hlike.level, hlike.taken, hlike.callback⟩⟩
    rw [← Bool.not_eq_true, hstart]
    exact hacq

theorem driven_csControl : (s.csControl device take).driven d = s.driven d := by
  unfold driven flag
  rw [csControl_spi, csControl_callback]

theorem apart_csControl : (s.csControl device take).apart device d = s.apart device d := by
  unfold apart
  rw [csControl_spi]

/-- The condition for one of the two calls. -/
theorem xferTwo_select {x : ℤ × SpiSelect D B} {buf1 recv1 buf2 recv2 : Option ℕ} {n1 n2 : ℕ}
    (h : s.xferTwo device a ⟨buf1, recv1, n1, true, false⟩ ⟨buf2, recv2, n2, false, true⟩ =
      some x) :
    x.2.lock = s.lock ∧
    (∀ d, d ≠ device → s.apart device d = true → (x.2.Selected d ↔ s.Selected d)) ∧
    ((¬ s.Selected device → ¬ x.2.Selected device) ↔
      s.Selected device ∨ s.starts device a = false ∨ s.driven device = false ∨ 0 ≤ a.xfer 0) := by
  obtain ⟨hlock, hcases⟩ := xferTwo_cases h
  refine ⟨hlock, fun d hne hd => ?_, ?_⟩
  · rcases hcases with ⟨-, hx⟩ | ⟨-, -, hx⟩ | ⟨-, -, hx⟩
    · exact hx.selected
    · exact hx.selected.trans (selected_csControl_apart hne hd)
    · exact hx.selected.trans ((selected_csControl_apart hne (apart_csControl.trans hd)).trans
        (selected_csControl_apart hne hd))
  · rcases hcases with ⟨hstart, hx⟩ | ⟨hstart, h0, hx⟩ | ⟨-, h0, hx⟩
    · rw [hx.selected]
      exact iff_of_true id (Or.inr (Or.inl hstart))
    · rw [hx.selected]
      cases hdr : s.driven device with
      | false =>
        rw [csControl_not_driven hdr]
        exact iff_of_true id (Or.inr (Or.inr (Or.inl rfl)))
      | true =>
        rw [selected_csControl hdr]
        constructor
        · intro hsel
          exact Or.inl (by_contra fun hno => hsel hno rfl)
        · rintro (hsel | hc | hc | hc)
          · exact fun hno => absurd hsel hno
          · rw [hstart] at hc
            cases hc
          · cases hc
          · omega
    · rw [hx.selected]
      refine iff_of_true ?_ (Or.inr (Or.inr (Or.inr h0)))
      cases hdr : s.driven device with
      | false =>
        rw [csControl_not_driven (driven_csControl.trans hdr), csControl_not_driven hdr]
        exact id
      | true =>
        rw [selected_csControl (driven_csControl.trans hdr)]
        exact fun _ => Bool.false_ne_true

end SpiSelect

/-- **The chip select is released.** When one of the two calls returns, the lock is as it was, other
devices are selected as they were, and the device is not selected, if it was not, exactly when its
first transfer does not fail or nothing was driven. -/
theorem spi_select {D B : Type} [DecidableEq D] [DecidableEq B] (s : SpiSelect D B) (device : D)
    (a : SpiAnswer) (buf1 buf2 : Option ℕ) (n1 n2 : ℕ) (x : ℤ × SpiSelect D B)
    (h : s.sendTwo device a buf1 n1 buf2 n2 = some x ∨
      s.sendRecv device a buf1 n1 buf2 n2 = some x) :
    x.2.lock = s.lock ∧
    (∀ d, d ≠ device → s.apart device d = true → (x.2.Selected d ↔ s.Selected d)) ∧
    ((¬ s.Selected device → ¬ x.2.Selected device) ↔
      s.Selected device ∨ s.starts device a = false ∨ s.driven device = false ∨ 0 ≤ a.xfer 0) :=
  h.elim SpiSelect.xferTwo_select SpiSelect.xferTwo_select

/-- Two devices on one bus, with the pins 0 and 1, active low, and both high. -/
def twoSelects : SpiSelect (Fin 2) Unit where
  spi := { dev := fun d => { bus := some (), csPin := some d.val }, bus := fun _ => {} }
  lock _ := 0
  level _ := true
  taken _ := false
  callback _ := false

/-- Two transfers that succeed. -/
theorem spi_select_two : ∃ x : ℤ × SpiSelect (Fin 2) Unit, x.2.lock = twoSelects.lock ∧
    (∀ d, d ≠ 0 → twoSelects.apart 0 d = true → (x.2.Selected d ↔ twoSelects.Selected d)) ∧
    ((¬ twoSelects.Selected 0 → ¬ x.2.Selected 0) ↔
      twoSelects.Selected 0 ∨ twoSelects.starts 0 {} = false ∨ twoSelects.driven 0 = false ∨
        0 ≤ ({} : SpiAnswer).xfer 0) :=
  ⟨_, spi_select twoSelects 0 {} (some 0) (some 0) 1 1 _ (Or.inl rfl)⟩

/-- **The device stays selected** when the first transfer fails. -/
theorem spi_left_selected : ¬ ∀ (s : SpiSelect (Fin 2) Unit) (device : Fin 2) (a : SpiAnswer)
    (buf1 buf2 : Option ℕ) (n1 n2 : ℕ) (x : ℤ × SpiSelect (Fin 2) Unit),
    s.sendTwo device a buf1 n1 buf2 n2 = some x → ¬ s.Selected device → ¬ x.2.Selected device := by
  intro h
  have hx := spi_select twoSelects 0 { xfer := fun _ => -8 } (some 0) (some 0) 1 1 _ (Or.inl rfl)
  rcases hx.2.2.mp (h twoSelects 0 { xfer := fun _ => -8 } (some 0) (some 0) 1 1 _ rfl) with
    hc | hc | hc | hc
  · exact absurd hc (by decide)
  · exact absurd hc (by decide)
  · exact absurd hc (by decide)
  · exact absurd hc (by decide)

end RtThread
