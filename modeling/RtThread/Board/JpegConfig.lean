import Mathlib.Data.List.Count
import RtThread.Kernel.Align

/-!
# Loading JPEG images

`jpeg_file_to_lvgl` and `jpeg_file_to_lvgl_release` of `jpeg_config.c`, with the outcomes of the file
system, of the heap and of the decoder as arguments. Of the functions of the decoder only the blocks
count that they leave with the job.

* `HeapBlock`: a block of `rt_malloc`; `JpegEvent`: what a call allocates, frees, opens and closes;
* `load`, `release`: the two functions; the word of the memory at an address is an argument of the latter;
* `load_leaks`, `release_wrong`: what they do wrong;
* **`jpeg_right`**: the sequences of calls that balance their resources.
-/

namespace RtThread

/-- An address that `rt_malloc` returns when it does not fail. -/
structure HeapBlock where
  addr : BitVec 32
  ne_null : addr ≠ 0
  aligned : addr.toNat % rtAlignSize = 0

/-- Blocks are allocated and freed, a job with its blocks is freed, files are opened and closed. -/
inductive JpegEvent where
  | alloc (addr : BitVec 32)
  | free (addr : BitVec 32)
  | jobFree (addr : BitVec 32)
  | fopen
  | fclose
  deriving DecidableEq

/-- The outcomes of the calls that `jpeg_file_to_lvgl` makes. -/
structure JpegOutcome where
  /-- `hpm_jpeg_decode_job_alloc`. -/
  job : Option HeapBlock
  /-- `f_open`. -/
  opened : Bool
  /-- `f_open` and `f_size` in `file_get_size`. -/
  size : Option ℕ
  /-- `rt_malloc(len)`. -/
  buf : Option HeapBlock
  /-- `f_open` in `file_restore`, and whether all bytes were read. -/
  read : Option Bool
  /-- The buffer that `hpm_jpeg_decode_job_fill_file` allocates. -/
  file : Option HeapBlock
  /-- The buffer that `hpm_jpeg_decode_job_start` allocates, if it succeeds. -/
  image : Option HeapBlock
  /-- The job is finished, or has an error. -/
  finished : Bool
  /-- `rt_malloc(sizeof(lv_img_dsc_t))`. -/
  desc : Option HeapBlock
  /-- The size of the image. -/
  width : BitVec 11
  height : BitVec 11

/-- An image that was returned: the descriptor, the job, and the header in its first word. -/
structure JpegImage where
  desc : BitVec 32
  job : BitVec 32
  header : BitVec 32

/-- What a call of `jpeg_file_to_lvgl` returns, and what it has done. -/
structure JpegEnd where
  image : Option JpegImage
  events : List JpegEvent

/-- A call of `jpeg_file_to_lvgl`, or of `jpeg_file_to_lvgl_release` for an image that was returned
before, with the words of the memory. -/
inductive JpegCall where
  | load (o : JpegOutcome)
  | release (i : ℕ) (word : BitVec 32 → BitVec 32)

namespace Jpeg

/-! ## The functions -/

/-- `file_get_size`. -/
def fileGetSize : Option ℕ → ℕ × List JpegEvent
  | none => (0, [])
  | some size => (size, [.fopen, .fclose])

/-- `file_restore`. -/
def fileRestore : Option Bool → Bool × List JpegEvent
  | none => (false, [])
  | some ok => (ok, [.fopen, .fclose])

/-- `LV_IMG_CF_TRUE_COLOR`. -/
def lvImgCfTrueColor : ℕ := 4

/-- `lv_img_header_t`: `cf` in the lowest bits, `w` from bit 10 and `h` from bit 21 on. -/
def header (width height : BitVec 11) : BitVec 32 :=
  BitVec.ofNat 32 (lvImgCfTrueColor + width.toNat * 2 ^ 10 + height.toNat * 2 ^ 21)

/-- The label `ERROR`. -/
def errorExit (buf : Option HeapBlock) : List JpegEvent :=
  (buf.toList.map fun b => .free b.addr) ++ [.fclose]

/-- `jpeg_file_to_lvgl` from `hpm_jpeg_decode_job_start` on. -/
def decode (o : JpegOutcome) (job : HeapBlock) : JpegEnd :=
  match o.image with
  | none => ⟨none, []⟩
  | some image =>
    if o.finished then
      match o.desc with
      | none => ⟨none, [.alloc image.addr, .fclose]⟩
      | some desc =>
        ⟨some ⟨desc.addr, job.addr, header o.width o.height⟩,
          [.alloc image.addr, .fclose, .alloc desc.addr]⟩
    else ⟨none, [.alloc image.addr]⟩

/-- `jpeg_file_to_lvgl` from `rt_malloc` for the file on. -/
def fill (o : JpegOutcome) (job : HeapBlock) : JpegEnd :=
  match o.buf with
  | none => ⟨none, errorExit none⟩
  | some buf =>
    let r := fileRestore o.read
    if r.1 then
      match o.file with
      | none => ⟨none, .alloc buf.addr :: r.2 ++ errorExit o.buf⟩
      | some file =>
        let d := decode o job
        -- the job is not NULL here
        ⟨d.image, .alloc buf.addr :: r.2 ++ [.alloc file.addr, .free buf.addr] ++ d.events⟩
    else ⟨none, .alloc buf.addr :: r.2 ++ errorExit o.buf⟩

/-- `jpeg_file_to_lvgl`. -/
def load (o : JpegOutcome) : JpegEnd :=
  match o.job with
  | none => ⟨none, []⟩
  | some job =>
    if o.opened then
      let n := fileGetSize o.size
      if n.1 = 0 then ⟨none, [.alloc job.addr, .fopen] ++ n.2 ++ errorExit none⟩
      else
        let r := fill o job
        ⟨r.image, [.alloc job.addr, .fopen] ++ n.2 ++ r.events⟩
    else ⟨none, [.alloc job.addr]⟩

/-- The offset of `lv_img` in `struct jpeg_adapter`. -/
def lvImgOffset : BitVec 32 := 4

/-- `jpeg_file_to_lvgl_release`: the adapter is looked for around the descriptor. -/
def release (word : BitVec 32 → BitVec 32) (lvImg : BitVec 32) : List JpegEvent :=
  let jpegDec := lvImg - lvImgOffset
  let job := word jpegDec
  let img := word (jpegDec + lvImgOffset)
  (if img ≠ 0 then [.free img] else []) ++ [.jobFree job]

/-! ## What they should do -/

/-- The images that some calls have returned. -/
def images : List JpegCall → List JpegImage
  | [] => []
  | .load o :: calls => (load o).image.toList ++ images calls
  | .release _ _ :: calls => images calls

/-- Every block is freed as often as it is allocated, and every file is closed. -/
structure Balanced (events : List JpegEvent) : Prop where
  blocks : ∀ a, events.count (.free a) = events.count (.alloc a)
  files : events.count .fclose = events.count .fopen

/-- The descriptor and the job of an image are freed, and nothing else. -/
def Frees (img : JpegImage) (events : List JpegEvent) : Prop :=
  events = [.free img.desc, .jobFree img.job]

/-- **What is claimed of a sequence of calls.** -/
structure JpegRight (calls : List JpegCall) : Prop where
  null : ∀ o, .load o ∈ calls → (load o).image = none → Balanced (load o).events
  releasable : ∀ img ∈ images calls, ∃ word : BitVec 32 → BitVec 32, word img.desc = img.header ∧
    Frees img (release word img.desc)
  released : ∀ pre i word post, calls = pre ++ .release i word :: post → ∀ img ∈ (images pre)[i]?,
    word img.desc = img.header → Frees img (release word img.desc)

/-! ## What they do -/

section

variable {o : JpegOutcome} {job : HeapBlock}

/-- The header is no address of a block. -/
theorem header_ne (width height : BitVec 11) :
    (header width height).toNat % rtAlignSize = lvImgCfTrueColor := by
  unfold header lvImgCfTrueColor rtAlignSize
  rw [BitVec.toNat_ofNat]
  omega

/-- The descriptor of an image is a block, and the header is in it. -/
theorem load_image {img : JpegImage} (himg : (load o).image = some img) :
    ∃ (b : HeapBlock) (w h : BitVec 11), img.desc = b.addr ∧ img.header = header w h := by
  have hdecode : ∀ job, (decode o job).image = some img →
      ∃ (b : HeapBlock) (w h : BitVec 11), img.desc = b.addr ∧ img.header = header w h := by
    intro job h
    unfold decode at h
    split at h
    · cases h
    · split_ifs at h
      split at h
      · cases h
      · cases h
        exact ⟨_, _, _, rfl, rfl⟩
  have hfill : ∀ job, (fill o job).image = some img →
      ∃ (b : HeapBlock) (w h : BitVec 11), img.desc = b.addr ∧ img.header = header w h := by
    intro job h
    unfold fill at h
    split at h
    · cases h
    · dsimp only at h
      split_ifs at h
      split at h
      · cases h
      · exact hdecode job h
  unfold load at himg
  split at himg
  · cases himg
  · dsimp only at himg
    split_ifs at himg
    exact hfill _ himg

/-- **A release is wrong** for every image: it takes the header for the descriptor. -/
theorem release_wrong {word : BitVec 32 → BitVec 32} {img : JpegImage}
    (himg : (load o).image = some img) (hword : word img.desc = img.header) :
    ¬ Frees img (release word img.desc) := by
  obtain ⟨b, w, h, hdesc, hheader⟩ := load_image himg
  have hmod := header_ne w h
  rw [← hheader] at hmod
  have hne : img.header ≠ 0 := by
    intro hzero
    rw [hzero] at hmod
    exact absurd hmod (by decide)
  unfold Frees release
  dsimp only
  rw [BitVec.sub_add_cancel, hword, if_pos hne, List.singleton_append]
  intro heq
  have hfree := (List.cons.inj heq).1
  rw [JpegEvent.free.injEq, hdesc] at hfree
  rw [hfree, b.aligned] at hmod
  exact absurd hmod (by decide)

variable (o job) in
theorem decode_frees (a : BitVec 32) : (decode o job).events.count (.free a) = 0 := by
  unfold decode
  split
  · rfl
  · split_ifs
    · split <;> simp
    · simp

theorem fileGetSize_frees (size : Option ℕ) (a : BitVec 32) :
    (fileGetSize size).2.count (.free a) = 0 ∧ (fileGetSize size).2.count (.alloc a) = 0 := by
  cases size <;> simp [fileGetSize]

theorem fileRestore_frees (read : Option Bool) (a : BitVec 32) :
    (fileRestore read).2.count (.free a) = 0 := by
  cases read <;> simp [fileRestore]

variable (o job) in
/-- What is freed has been allocated. -/
theorem fill_frees (a : BitVec 32) :
    (fill o job).events.count (.free a) ≤ (fill o job).events.count (.alloc a) := by
  have hread := fileRestore_frees o.read a
  have hdecode := decode_frees o job a
  unfold fill
  cases hbuf : o.buf with
  | none => simp [errorExit]
  | some buf =>
    dsimp only
    split_ifs
    · cases o.file with
      | none => simp [errorExit, hread, List.count_cons]
      | some file => simp [hread, hdecode, List.count_cons]
    · simp [errorExit, hread, List.count_cons]

/-- **A job that was allocated is not freed.** -/
theorem load_leaks (hjob : o.job = some job) : ¬ Balanced (load o).events := by
  intro h
  have hcount := h.blocks job.addr
  have hsize := fileGetSize_frees o.size job.addr
  have hfill := fill_frees o job job.addr
  revert hcount
  unfold load
  rw [hjob]
  dsimp only
  split_ifs
  · simp [errorExit, hsize]
  · simp [hsize]
    omega
  · simp

end

theorem mem_images {calls : List JpegCall} {img : JpegImage} (h : img ∈ images calls) :
    ∃ o, .load o ∈ calls ∧ (load o).image = some img := by
  induction calls with
  | nil => exact absurd h List.not_mem_nil
  | cons c calls ih =>
    have hrest : img ∈ images calls → ∃ o, .load o ∈ c :: calls ∧ (load o).image = some img := by
      intro hmem
      obtain ⟨o, ho, himg⟩ := ih hmem
      exact ⟨o, List.mem_cons_of_mem _ ho, himg⟩
    cases c with
    | release i word => exact hrest h
    | load o =>
      rcases List.mem_append.mp h with hmem | hmem
      · exact ⟨o, List.mem_cons_self, Option.mem_toList.mp hmem⟩
      · exact hrest hmem

theorem images_mem {calls : List JpegCall} {o : JpegOutcome} {img : JpegImage}
    (ho : .load o ∈ calls) (himg : (load o).image = some img) : img ∈ images calls := by
  induction calls with
  | nil => exact absurd ho List.not_mem_nil
  | cons c calls ih =>
    rcases List.mem_cons.mp ho with rfl | hmem
    · exact List.mem_append_left _ (Option.mem_toList.mpr himg)
    · cases c with
      | release i word => exact ih hmem
      | load p => exact List.mem_append_right _ (ih hmem)

/-- **Loading JPEG images** balances the resources in exactly the sequences in which no decode job is
allocated. -/
theorem jpeg_right (calls : List JpegCall) :
    JpegRight calls ↔ ∀ o, .load o ∈ calls → o.job = none := by
  constructor
  · intro h o ho
    by_contra hne
    obtain ⟨job, hjob⟩ := Option.ne_none_iff_exists'.mp hne
    cases himg : (load o).image with
    | none => exact load_leaks hjob (h.null o ho himg)
    | some img =>
      obtain ⟨word, hword, hfrees⟩ := h.releasable img (images_mem ho himg)
      exact release_wrong himg hword hfrees
  · intro h
    have hnone : ∀ pre ⊆ calls, images pre = [] := by
      intro pre hsub
      refine List.eq_nil_iff_forall_not_mem.mpr fun img hmem => ?_
      obtain ⟨o, ho, himg⟩ := mem_images hmem
      rw [load, h o (hsub ho)] at himg
      cases himg
    refine ⟨fun o ho _ => ?_, fun img hmem => ?_, ?_⟩
    · rw [load, h o ho]
      exact ⟨fun _ => rfl, rfl⟩
    · rw [hnone calls (List.Subset.refl _)] at hmem
      exact absurd hmem List.not_mem_nil
    · rintro pre i word post rfl img hmem
      rw [hnone pre (List.subset_append_left _ _)] at hmem
      cases hmem

/-- The file cannot be opened. -/
def noFile : JpegOutcome :=
  ⟨some ⟨0x1000, by decide, by decide⟩, false, none, none, none, none, none, false, none, 0, 0⟩

/-- **A call for a file that does not exist keeps its job.** -/
theorem jpeg_leak : ¬ ∀ calls, JpegRight calls := by
  intro h
  exact load_leaks (o := noFile) rfl ((h [.load noFile]).null _ (List.mem_singleton_self _) rfl)

end Jpeg

end RtThread
