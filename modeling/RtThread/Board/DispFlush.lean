import RtThread.Lib.System

/-!
# Flushing the display in direct mode

`board/lvgl/lv_port_disp.c`: the last flush of a frame copies the invalid areas to the frame buffer of the
LCD, one blit of the PDMA for each. `lvgl_pdma_start` begins with the last area, and the interrupt handler
goes on with the one before; both skip the areas that LVGL has joined with others.

* `LvFrame`, `LvAdapter`: what is flushed, and the state with the registers of the PDMA;
* `lvglPdmaStart`, `lvglPdmaDone`, `lvglPdmaIsr`: the functions; the thread enables the interrupt in a step
  of its own;
* `flushSystem`: LVGL flushes, the PDMA finishes, the interrupt arrives, each at any time;
* `frameEvents`: the blits of a frame, one after the other, and then one `lv_disp_flush_ready`;
* `Owes`: what is left to do in a state; `pdmaLoop_cases`, `FlushInv.step`: no step changes the whole;
* **`disp_flush`**: in every run these events happen in this order, and every flush comes to its end.
-/

namespace RtThread

/-- `LV_INV_BUF_SIZE`. -/
def lvInvBufSize : ℕ := 32

/-- `lv_area_t`. -/
structure LvArea where
  x1 : ℕ
  y1 : ℕ
  x2 : ℕ
  y2 : ℕ

/-- The last flush of a frame: the buffer, and the invalid areas of the display. -/
structure LvFrame where
  colorP : ℕ
  invP : ℕ
  invAreaJoined : ℕ → Bool
  invAreas : ℕ → LvArea
  fits : invP ≤ lvInvBufSize

/-- The registers that `lvgl_pdma_blit` writes. -/
structure PdmaBlit where
  planeBuffer : ℕ
  outputBuffer : ℕ
  width : ℕ
  height : ℕ

/-- `lvgl_pdma_blit` of an area, with buffers that are `stride` pixels wide. -/
def lvglPdmaBlit (stride pixelSize dst src : ℕ) (area : LvArea) : PdmaBlit where
  planeBuffer := src + (area.y1 * stride + area.x1) * pixelSize
  outputBuffer := dst + (area.y1 * stride + area.x1) * pixelSize
  width := area.x2 + 1 - area.x1
  height := area.y2 + 1 - area.y1

/-- What happens: a blit begins or ends, `lv_disp_flush_ready` is called. -/
inductive FlushEvent where
  | start (b : PdmaBlit)
  | finish (b : PdmaBlit)
  | ready

/-- The constants of the display. -/
structure LvDisp where
  stride : ℕ
  pixelSize : ℕ
  lcdcBuffer : ℕ

/-- The adapter with the registers of the PDMA, the frames flushed so far and the events. `enabling` is the
thread in front of the `pdma_enable_irq` of a blit. -/
structure LvAdapter where
  waitFlushBuffer : ℕ
  invP : ℕ
  invAreaJoined : ℕ → Bool
  invAreas : ℕ → LvArea
  running : Option PdmaBlit
  pdmaDone : Bool
  doneIrqEn : Bool
  enabling : Bool
  flushing : Bool
  frames : List LvFrame
  events : List FlushEvent

variable (d : LvDisp)

namespace LvAdapter

variable (s : LvAdapter)

/-- `lv_disp_flush_ready`. -/
def flushReady : LvAdapter := { s with flushing := false, events := s.events ++ [.ready] }

/-- `pdma_stop`. -/
def pdmaStop : LvAdapter := { s with running := none, pdmaDone := false }

/-- The blit of an area, up to `pdma_start`. -/
def blit (i : ℕ) : LvAdapter :=
  let b := lvglPdmaBlit d.stride d.pixelSize d.lcdcBuffer s.waitFlushBuffer (s.invAreas i)
  { s.pdmaStop with running := some b, events := s.events ++ [.start b] }

/-- The loop of `lvgl_pdma_start` and `lvgl_pdma_done` for `inv_p`; the second part tells whether it has
started a blit. -/
def pdmaLoop : ℕ → LvAdapter → LvAdapter × Bool
  | 0, s => (s, false)
  | p + 1, s =>
    let s := { s with invP := p }
    if s.invAreaJoined p then pdmaLoop p (if p = 0 then s.flushReady.pdmaStop else s)
    else (s.blit d p, true)

/-- `lvgl_pdma_start`, up to `pdma_start`. -/
def lvglPdmaStart : LvAdapter :=
  if s.invP = 0 then s.flushReady
  else
    let r := pdmaLoop d s.invP s
    { r.1 with enabling := r.2 }

/-- `lvgl_pdma_done`. -/
def lvglPdmaDone : LvAdapter :=
  if s.invP = 0 then s.flushReady.pdmaStop
  else
    let r := pdmaLoop d s.invP s
    { r.1 with doneIrqEn := r.1.doneIrqEn || r.2 }

/-- `lvgl_pdma_isr`. -/
def lvglPdmaIsr : LvAdapter := ({ s with doneIrqEn := false } : LvAdapter).pdmaStop.lvglPdmaDone d

/-- `lv_flush_display_direct` for the last flush of a frame. -/
def flushDisplayDirect (f : LvFrame) : LvAdapter :=
  ({ s with flushing := true, waitFlushBuffer := f.colorP, invP := f.invP, frames := s.frames ++ [f]
            invAreaJoined := f.invAreaJoined, invAreas := f.invAreas } : LvAdapter).lvglPdmaStart d

end LvAdapter

/-- A step of LVGL, of the thread in `lvgl_pdma_start`, of the PDMA, or the interrupt. -/
inductive FlushLabel where
  | flush (f : LvFrame)
  | enableIrq
  | pdmaFinish
  | isr

/-- A step; LVGL waits until a flush is ready before it draws the next area. -/
def flushStep (s : LvAdapter) : FlushLabel → Option LvAdapter
  | .flush f => if s.flushing = false ∧ s.enabling = false then some (s.flushDisplayDirect d f) else none
  | .enableIrq => if s.enabling then some { s with enabling := false, doneIrqEn := true } else none
  | .pdmaFinish => s.running.map fun b =>
      { s with running := none, pdmaDone := true, events := s.events ++ [.finish b] }
  | .isr => if s.pdmaDone ∧ s.doneIrqEn then some (s.lvglPdmaIsr d) else none

/-- Nothing is flushed after `lvgl_pdma_init`. -/
structure FlushInit (s : LvAdapter) : Prop where
  running : s.running = none
  pdmaDone : s.pdmaDone = false
  doneIrqEn : s.doneIrqEn = false
  enabling : s.enabling = false
  flushing : s.flushing = false
  invP : s.invP = 0
  frames : s.frames = []
  events : s.events = []

/-- The runs. -/
def flushSystem : System LvAdapter FlushLabel where
  init := FlushInit
  step := flushStep d

/-- The blits of the first areas of a frame, the last one first. -/
def areaEvents (f : LvFrame) : ℕ → List FlushEvent
  | 0 => []
  | p + 1 =>
    let b := lvglPdmaBlit d.stride d.pixelSize d.lcdcBuffer f.colorP (f.invAreas p)
    (if f.invAreaJoined p then [] else [.start b, .finish b]) ++ areaEvents f p

/-- **What a frame comes to**: each area that is not joined is copied once, one blit after the other, and
then the flush is ready. -/
def frameEvents (f : LvFrame) : List FlushEvent := areaEvents d f f.invP ++ [.ready]

/-- How many steps are left at most, without new frames. -/
def LvAdapter.left (s : LvAdapter) : ℕ :=
  3 * s.invP + (if s.running.isSome then 2 else 0) + (if s.pdmaDone then 1 else 0) +
    (if s.enabling then 1 else 0)

/-- A step of a flush under way. -/
def FlushLabel.isFlush : FlushLabel → Bool
  | .flush _ => true
  | _ => false

/-- **The claim in a state**: the events are those of the frames, as far as they have come; all of them when
no flush is under way; and a flush under way goes on, and not forever. -/
structure FlushRight (s : LvAdapter) : Prop where
  order : s.events <+: s.frames.flatMap (frameEvents d)
  ready : s.flushing = false → s.events = s.frames.flatMap (frameEvents d)
  goesOn : s.flushing = true → ∃ a s', a.isFlush = false ∧ flushStep d s a = some s'
  ends : ∀ a s', a.isFlush = false → flushStep d s a = some s' → s'.left < s.left

/-! ## The loop over the areas -/

section

variable {d} {s s' : LvAdapter} {f : LvFrame} {l : List FlushEvent} {n : ℕ}

/-- The state holds a frame. -/
structure LvAdapter.Holds (s : LvAdapter) (f : LvFrame) : Prop where
  buffer : s.waitFlushBuffer = f.colorP
  joined : s.invAreaJoined = f.invAreaJoined
  areas : s.invAreas = f.invAreas

/-- The blit of an area of the frame. -/
def LvFrame.blit (d : LvDisp) (f : LvFrame) (i : ℕ) : PdmaBlit :=
  lvglPdmaBlit d.stride d.pixelSize d.lcdcBuffer f.colorP (f.invAreas i)

theorem areaEvents_succ (i : ℕ) : areaEvents d f (i + 1) =
    (if f.invAreaJoined i then [] else [.start (f.blit d i), .finish (f.blit d i)]) ++ areaEvents d f i := rfl

/-- **The loop**: all areas are joined, and the flush is ready; or it begins the next blit. -/
theorem pdmaLoop_cases (h : s.Holds f) (hn : n ≠ 0) :
    (s.pdmaLoop d n = (({ s with invP := 0 } : LvAdapter).flushReady.pdmaStop, false) ∧
        areaEvents d f n = []) ∨
      ∃ i < n, s.pdmaLoop d n = (({ s with invP := i } : LvAdapter).blit d i, true) ∧
        areaEvents d f n = .start (f.blit d i) :: .finish (f.blit d i) :: areaEvents d f i := by
  induction n generalizing s with
  | zero => exact absurd rfl hn
  | succ p ih =>
    have hloop : s.pdmaLoop d (p + 1) =
        if s.invAreaJoined p then LvAdapter.pdmaLoop d p (if p = 0 then
          ({ s with invP := p } : LvAdapter).flushReady.pdmaStop else { s with invP := p })
        else (({ s with invP := p } : LvAdapter).blit d p, true) := rfl
    rw [hloop, areaEvents_succ, ← h.joined]
    by_cases hj : s.invAreaJoined p = true
    · rw [if_pos hj, if_pos hj, List.nil_append]
      by_cases hp : p = 0
      · left
        rw [if_pos hp, hp]
        exact ⟨rfl, rfl⟩
      · rw [if_neg hp]
        have hs : ({ s with invP := p } : LvAdapter).Holds f := ⟨h.buffer, h.joined, h.areas⟩
        refine (ih hs hp).imp_right ?_
        rintro ⟨i, hi, hr⟩
        exact ⟨i, Nat.lt_succ_of_lt hi, hr⟩
    · rw [if_neg hj, if_neg hj]
      exact .inr ⟨p, Nat.lt_succ_self p, rfl, rfl⟩

theorem blit_running (h : s.Holds f) (i : ℕ) : (s.blit d i).running = some (f.blit d i) := by
  unfold LvFrame.blit
  rw [← h.buffer, ← h.areas]
  rfl

theorem blit_events (h : s.Holds f) (i : ℕ) : (s.blit d i).events = s.events ++ [.start (f.blit d i)] := by
  unfold LvFrame.blit
  rw [← h.buffer, ← h.areas]
  rfl

/-! ## What is left to do -/

variable (d) in
/-- **What a state owes**: nothing between two flushes, the rest of a frame while a blit runs, and when it has
finished and the interrupt is on its way. -/
inductive Owes (s : LvAdapter) : List FlushEvent → Prop where
  | idle : s.flushing = false → s.enabling = false → s.doneIrqEn = false → s.running = none →
      s.pdmaDone = false → s.invP = 0 → Owes s []
  | running (f : LvFrame) (b : PdmaBlit) : s.flushing = true → s.Holds f → s.doneIrqEn = !s.enabling →
      s.running = some b → s.pdmaDone = false →
      Owes s (.finish b :: (areaEvents d f s.invP ++ [.ready]))
  | finished (f : LvFrame) : s.flushing = true → s.Holds f → s.doneIrqEn = !s.enabling →
      s.running = none → s.pdmaDone = true → Owes s (areaEvents d f s.invP ++ [.ready])

/-- A blit begins, in the thread or in the interrupt handler. -/
theorem Owes.blit (hf : s.flushing = true) (h : s.Holds f) (hirq : s.doneIrqEn = !s.enabling) (i : ℕ) :
    Owes d (({ s with invP := i } : LvAdapter).blit d i)
      (.finish (f.blit d i) :: (areaEvents d f i ++ [.ready])) := by
  have hs : ({ s with invP := i } : LvAdapter).Holds f := ⟨h.buffer, h.joined, h.areas⟩
  exact .running f _ hf ⟨h.buffer, h.joined, h.areas⟩ hirq (blit_running hs i) rfl

variable (d) in
/-- The events so far and those that are owed are those of the frames. -/
def FlushInv (s : LvAdapter) : Prop :=
  ∃ l, Owes d s l ∧ s.events ++ l = s.frames.flatMap (frameEvents d)

theorem FlushInv.flush (h : FlushInv d s) (hf : s.flushing = false) (f : LvFrame) :
    FlushInv d (s.flushDisplayDirect d f) := by
  obtain ⟨l, howes, hev⟩ := h
  cases howes with
  | running f b hf' => rw [hf] at hf'; cases hf'
  | finished f hf' => rw [hf] at hf'; cases hf'
  | idle _ hen hirq hrun hdone _ =>
    rw [List.append_nil] at hev
    have hall : (s.frames ++ [f]).flatMap (frameEvents d) = s.events ++ frameEvents d f := by
      rw [List.flatMap_append, List.flatMap_singleton, hev]
    unfold LvAdapter.flushDisplayDirect LvAdapter.lvglPdmaStart
    dsimp only
    by_cases h0 : f.invP = 0
    · rw [if_pos h0]
      refine ⟨[], .idle rfl hen hirq hrun hdone h0, ?_⟩
      refine Eq.trans ?_ hall.symm
      unfold frameEvents
      rw [h0, List.append_nil]
      rfl
    · rw [if_neg h0]
      have hholds : ({ s with
          flushing := true, waitFlushBuffer := f.colorP, invP := f.invP, frames := s.frames ++ [f]
          invAreaJoined := f.invAreaJoined, invAreas := f.invAreas } : LvAdapter).Holds f :=
        ⟨rfl, rfl, rfl⟩
      rcases pdmaLoop_cases (d := d) hholds h0 with ⟨hloop, hnone⟩ | ⟨i, -, hloop, hnext⟩
      · rw [hloop]
        refine ⟨[], .idle rfl rfl hirq rfl rfl rfl, ?_⟩
        refine Eq.trans ?_ hall.symm
        unfold frameEvents
        rw [hnone, List.append_nil]
        rfl
      · rw [hloop]
        have howes := Owes.blit (d := d) (s := { s with
          flushing := true, waitFlushBuffer := f.colorP, invP := f.invP, frames := s.frames ++ [f]
          invAreaJoined := f.invAreaJoined, invAreas := f.invAreas, enabling := true }) (f := f) rfl
          ⟨rfl, rfl, rfl⟩ hirq i
        refine ⟨_, howes, ?_⟩
        refine Eq.trans ?_ hall.symm
        unfold frameEvents
        rw [hnext]
        exact List.append_assoc ..

theorem FlushInv.isr (h : FlushInv d s) (hdone : s.pdmaDone = true) (hirq : s.doneIrqEn = true) :
    FlushInv d (s.lvglPdmaIsr d) := by
  obtain ⟨l, howes, hev⟩ := h
  cases howes with
  | idle _ _ _ _ hdone' => rw [hdone] at hdone'; cases hdone'
  | running f b _ _ _ _ hdone' => rw [hdone] at hdone'; cases hdone'
  | finished f hf hholds hen hrun _ =>
    have hen : s.enabling = false := by
      rw [hirq] at hen
      exact (Bool.not_eq_true' _).mp hen.symm
    have hs : ({ s with doneIrqEn := false } : LvAdapter).pdmaStop.Holds f :=
      ⟨hholds.buffer, hholds.joined, hholds.areas⟩
    unfold LvAdapter.lvglPdmaIsr LvAdapter.lvglPdmaDone
    by_cases h0 : s.invP = 0
    · rw [if_pos (show ({ s with doneIrqEn := false } : LvAdapter).pdmaStop.invP = 0 from h0)]
      refine ⟨[], .idle rfl hen rfl rfl rfl h0, ?_⟩
      refine Eq.trans ?_ hev
      rw [h0, List.append_nil]
      rfl
    · rw [if_neg (show ({ s with doneIrqEn := false } : LvAdapter).pdmaStop.invP ≠ 0 from h0)]
      rcases pdmaLoop_cases (d := d) hs h0 with ⟨hloop, hnone⟩ | ⟨i, -, hloop, hnext⟩
      · dsimp only [LvAdapter.pdmaStop] at hloop ⊢
        rw [hloop]
        refine ⟨[], .idle rfl hen rfl rfl rfl rfl, ?_⟩
        refine Eq.trans ?_ hev
        rw [hnone, List.append_nil]
        rfl
      · dsimp only [LvAdapter.pdmaStop] at hloop ⊢
        rw [hloop]
        have howes := Owes.blit (d := d) (s := { s.pdmaStop with doneIrqEn := true }) (f := f) hf
          ⟨hholds.buffer, hholds.joined, hholds.areas⟩ (show true = !s.enabling by rw [hen]; rfl) i
        have hevents := blit_events (d := d) (f := f)
          (s := { s.pdmaStop with doneIrqEn := true, invP := i })
          ⟨hholds.buffer, hholds.joined, hholds.areas⟩ i
        rw [hnext] at hev
        refine ⟨_, howes, Eq.trans (congrArg (· ++ _) hevents) (Eq.trans ?_ hev)⟩
        exact List.append_assoc ..

/-- **No step changes what the run comes to.** -/
theorem FlushInv.step {a : FlushLabel} (h : FlushInv d s) (hst : flushStep d s a = some s') :
    FlushInv d s' := by
  cases a with
  | flush f =>
    obtain ⟨⟨hf, -⟩, ⟨⟩⟩ := Option.ite_none_right_eq_some.mp hst
    exact h.flush hf f
  | enableIrq =>
    obtain ⟨hen, ⟨⟩⟩ := Option.ite_none_right_eq_some.mp hst
    obtain ⟨l, howes, hev⟩ := h
    refine ⟨l, ?_, hev⟩
    cases howes with
    | idle _ hen' => rw [hen] at hen'; cases hen'
    | running f b hf hholds _ hrun hdone =>
      exact .running f b hf ⟨hholds.buffer, hholds.joined, hholds.areas⟩ rfl hrun hdone
    | finished f hf hholds _ hrun hdone =>
      exact .finished f hf ⟨hholds.buffer, hholds.joined, hholds.areas⟩ rfl hrun hdone
  | pdmaFinish =>
    obtain ⟨b, hb, ⟨⟩⟩ := Option.map_eq_some_iff.mp hst
    obtain ⟨l, howes, hev⟩ := h
    cases howes with
    | idle _ _ _ hrun => rw [hb] at hrun; cases hrun
    | finished f _ _ _ hrun => rw [hb] at hrun; cases hrun
    | running f b' hf hholds hirq hrun _ =>
      rw [hb] at hrun
      cases hrun
      refine ⟨_, .finished f hf ⟨hholds.buffer, hholds.joined, hholds.areas⟩ hirq rfl rfl, ?_⟩
      rw [← hev]
      exact List.append_assoc ..
  | isr =>
    obtain ⟨⟨hdone, hirq⟩, ⟨⟩⟩ := Option.ite_none_right_eq_some.mp hst
    exact h.isr hdone hirq

theorem FlushInv.init (h : FlushInit s) : FlushInv d s := by
  refine ⟨[], .idle h.flushing h.enabling h.doneIrqEn h.running h.pdmaDone h.invP, ?_⟩
  rw [h.events, h.frames]
  rfl

/-- The interrupt goes on to an area in front, or ends the flush. -/
theorem left_isr (h : FlushInv d s) (hdone : s.pdmaDone = true) (hirq : s.doneIrqEn = true) :
    (s.lvglPdmaIsr d).left < s.left := by
  obtain ⟨l, howes, -⟩ := h
  cases howes with
  | idle _ _ _ _ hdone' => rw [hdone] at hdone'; cases hdone'
  | running f b _ _ _ _ hdone' => rw [hdone] at hdone'; cases hdone'
  | finished f hf hholds hen hrun _ =>
    have hen : s.enabling = false := by
      rw [hirq] at hen
      exact (Bool.not_eq_true' _).mp hen.symm
    have hs : ({ s with doneIrqEn := false } : LvAdapter).pdmaStop.Holds f :=
      ⟨hholds.buffer, hholds.joined, hholds.areas⟩
    have hleft : s.left = 3 * s.invP + 1 := by
      unfold LvAdapter.left
      rw [hrun, hdone, hen]
      rfl
    rw [hleft]
    unfold LvAdapter.lvglPdmaIsr LvAdapter.lvglPdmaDone
    by_cases h0 : s.invP = 0
    · rw [if_pos (show ({ s with doneIrqEn := false } : LvAdapter).pdmaStop.invP = 0 from h0)]
      show 3 * s.invP + 0 + 0 + (if s.enabling then 1 else 0) < _
      rw [hen]
      exact Nat.lt_succ_self _
    · rw [if_neg (show ({ s with doneIrqEn := false } : LvAdapter).pdmaStop.invP ≠ 0 from h0)]
      rcases pdmaLoop_cases (d := d) hs h0 with ⟨hloop, -⟩ | ⟨i, hi, hloop, -⟩
      · dsimp only [LvAdapter.pdmaStop] at hloop ⊢
        rw [hloop]
        show 3 * 0 + 0 + 0 + (if s.enabling then 1 else 0) < _
        rw [hen]
        exact Nat.succ_pos _
      · dsimp only [LvAdapter.pdmaStop] at hloop ⊢
        rw [hloop]
        have hi' : i < s.invP := hi
        show 3 * i + 2 + 0 + (if s.enabling then 1 else 0) < _
        rw [hen]
        show 3 * i + 2 < 3 * s.invP + 1
        omega

theorem FlushInv.ends {a : FlushLabel} (h : FlushInv d s) (ha : a.isFlush = false)
    (hst : flushStep d s a = some s') : s'.left < s.left := by
  cases a with
  | flush f => cases ha
  | enableIrq =>
    obtain ⟨hen, ⟨⟩⟩ := Option.ite_none_right_eq_some.mp hst
    unfold LvAdapter.left
    rw [hen]
    exact Nat.lt_succ_self _
  | pdmaFinish =>
    obtain ⟨b, hb, ⟨⟩⟩ := Option.map_eq_some_iff.mp hst
    obtain ⟨l, howes, -⟩ := h
    cases howes with
    | idle _ _ _ hrun => rw [hb] at hrun; cases hrun
    | finished f _ _ _ hrun => rw [hb] at hrun; cases hrun
    | running f b' _ _ _ _ hdone =>
      unfold LvAdapter.left
      rw [hb, hdone]
      exact Nat.add_lt_add_right (Nat.lt_succ_self (3 * s.invP + 1)) _
  | isr =>
    obtain ⟨⟨hdone, hirq⟩, ⟨⟩⟩ := Option.ite_none_right_eq_some.mp hst
    exact left_isr h hdone hirq

theorem FlushInv.goesOn (h : FlushInv d s) (hf : s.flushing = true) :
    ∃ a s', a.isFlush = false ∧ flushStep d s a = some s' := by
  obtain ⟨l, howes, -⟩ := h
  cases howes with
  | idle hf' => rw [hf] at hf'; cases hf'
  | running f b _ _ _ hrun =>
    exact ⟨.pdmaFinish, _, rfl, Option.map_eq_some_iff.mpr ⟨b, hrun, rfl⟩⟩
  | finished f _ _ hirq _ hdone =>
    cases hen : s.enabling with
    | true => exact ⟨.enableIrq, _, rfl, if_pos hen⟩
    | false =>
      rw [hen] at hirq
      exact ⟨.isr, _, rfl, if_pos ⟨hdone, hirq⟩⟩

theorem FlushInv.right (h : FlushInv d s) : FlushRight d s where
  order := by
    obtain ⟨l, -, hev⟩ := h
    exact ⟨l, hev⟩
  ready hf := by
    obtain ⟨l, howes, hev⟩ := h
    cases howes with
    | idle => exact (List.append_nil _).symm.trans hev
    | running f b hf' => rw [hf] at hf'; cases hf'
    | finished f hf' => rw [hf] at hf'; cases hf'
  goesOn := h.goesOn
  ends _ _ := h.ends

end

/-- **The flush in direct mode**: in every run, with any areas and whenever the interrupt arrives, each area
that is not joined is copied exactly once, no two blits overlap, and the flush is ready once, after the last
of them. -/
theorem disp_flush {s : LvAdapter} (h : (flushSystem d).Reach System.anyStep s) : FlushRight d s :=
  (h.invariant (I := FlushInv d) (fun _ hs => FlushInv.init hs) fun _ _ _ hs _ hst => hs.step hst).right

/-- After `lvgl_pdma_init`. -/
def pdmaInit : LvAdapter :=
  ⟨0, 0, fun _ => false, fun _ => ⟨0, 0, 0, 0⟩, none, false, false, false, false, [], []⟩

/-- Three areas, the last one joined: the second one is copied first. -/
theorem disp_flush_three : ∃ s : LvAdapter, s.flushing = true ∧ s.invP = 1 ∧
    FlushRight ⟨800, 2, 4096⟩ s := by
  have hinit : (flushSystem ⟨800, 2, 4096⟩).Reach System.anyStep pdmaInit :=
    .init ⟨rfl, rfl, rfl, rfl, rfl, rfl, rfl, rfl⟩
  have hflush := hinit.step
    (a := .flush ⟨8192, 3, fun i => i == 2, fun i => ⟨i, 0, i + 9, 9⟩, by decide⟩) rfl rfl
  exact ⟨_, rfl, rfl, disp_flush _ hflush⟩

end RtThread
