import RtThread.Kernel.Align
import RtThread.Lib.Chain
import RtThread.Lib.Runs
import RtThread.Lib.System

/-!
# The pages of the slab heap

`src/slab.c`, `rt_slab_page_alloc` and `rt_slab_page_free`: the free pages are a singly linked list
of runs, each described in its own first page. A page is named by its number, its address divided by
the page size, and a pointer to one by `Option ℕ`.

* `SlabPages` and its operations; the loops carry a bound on their number of rounds;
* `FreeList m h l`: the list from the pointer `h` has the runs `l`; `allocLoop_spec`,
  `freeLoop_spec`: the loops cut and merge as `takeRuns` and `putRun` do;
* `PageState`, `pageSystem`: runs of the two functions, with every page counted that is handed out;
* **`slabPages_invariant`**: the free list is sorted, maximal, and the complement of what is
  allocated.
-/

namespace RtThread

/-- `RT_MM_PAGE_SIZE`. -/
abbrev rtMmPageSize : ℕ := 4096

/-- The number of page addresses in 32 bits. -/
abbrev pageCount : ℕ := 2 ^ 20

/-- `b + k` on pointers to pages. -/
def pagePlus (b k : ℕ) : ℕ := (b + k) % pageCount

theorem pageCount_lt : pageCount < 2 ^ 32 := by decide

theorem pagePlus_eq {b k : ℕ} (h : b + k < pageCount) : pagePlus b k = b + k := Nat.mod_eq_of_lt h

/-- The page allocator of `struct rt_slab`: the head of the list, and the fields of `struct
rt_slab_page` at every page. -/
structure SlabPages where
  pageList : Option ℕ
  next : ℕ → Option ℕ
  page : ℕ → ℕ

namespace SlabPages

variable (m : SlabPages)

/-- `*prev`; the null stands for `&slab->page_list`. -/
def link : Option ℕ → Option ℕ
  | none => m.pageList
  | some b => m.next b

/-- `*prev = n`. -/
def setLink (prev n : Option ℕ) : SlabPages :=
  match prev with
  | none => { m with pageList := n }
  | some b => { m with next := Function.update m.next b n }

/-- `n->next = x; n->page = k`. -/
def setPage (n : ℕ) (x : Option ℕ) (k : ℕ) : SlabPages :=
  { m with next := Function.update m.next n x, page := Function.update m.page n k }

/-- The loop of `rt_slab_page_alloc`, in at most `fuel` rounds. -/
def allocLoop (npages : ℕ) : ℕ → Option ℕ → Option (Option ℕ × SlabPages)
  | 0, _ => none
  | fuel + 1, prev =>
    match m.link prev with
    | none => some (none, m)
    | some b =>
      if m.page b > npages then
        let n := pagePlus b npages
        some (some b, (m.setPage n (m.next b) (m.page b - npages)).setLink prev (some n))
      else if m.page b = npages then some (some b, m.setLink prev (m.next b))
      else allocLoop npages fuel (some b)

/-- `rt_slab_page_alloc`. -/
def pageAlloc (npages : ℕ) : Option (Option ℕ × SlabPages) :=
  if npages = 0 then some (none, m) else m.allocLoop npages pageCount none

/-- The loop of `rt_slab_page_free` and the insertion behind it; nothing where an assertion fails. -/
def freeLoop (n npages : ℕ) : ℕ → Option ℕ → Option SlabPages
  | 0, _ => none
  | fuel + 1, prev =>
    match m.link prev with
    | none => some ((m.setPage n none npages).setLink prev (some n))
    | some b =>
      if m.page b > 0 ∧ (b > n ∨ pagePlus b (m.page b) ≤ n) then
        if pagePlus b (m.page b) = n then
          let k := (m.page b + npages) % 2 ^ 32
          -- the successor's address, which is 0 for the null
          let c := (m.next b).getD 0
          if pagePlus b k = c then some (m.setPage b (m.next c) ((k + m.page c) % 2 ^ 32))
          else some (m.setPage b (m.next b) k)
        else if b = pagePlus n npages then
          some ((m.setPage n (m.next b) ((m.page b + npages) % 2 ^ 32)).setLink prev (some n))
        else if b > pagePlus n npages then
          some ((m.setPage n (some b) npages).setLink prev (some n))
        else freeLoop n npages fuel (some b)
      else none

/-- `rt_slab_page_free`. -/
def pageFree (addr npages : ℕ) : Option SlabPages :=
  if addr ≠ 0 ∧ npages ≠ 0 then m.freeLoop addr npages pageCount none else none

/-- `rt_slab_page_init`, on a structure that `rt_slab_init` has set to zero. -/
def pageInit (addr npages : ℕ) : Option SlabPages :=
  if addr ≠ 0 ∧ npages ≠ 0 then { m with pageList := none }.pageFree addr npages else none

end SlabPages

/-- The heap that `rt_slab_init` finds in the memory of `size` bytes from `beginAddr` on, from its
first to behind its last page; `sizeofSlab` is `sizeof(struct rt_slab)`. -/
def slabRange (sizeofSlab beginAddr size : ℕ) : Option (ℕ × ℕ) :=
  let slab := alignTo beginAddr rtAlignSize
  let startAddr := (slab + sizeofSlab) % 2 ^ 32
  let beginAlign := alignTo startAddr rtMmPageSize
  let endAlign := alignDownTo ((beginAddr + size) % 2 ^ 32) rtMmPageSize
  if beginAlign ≥ endAlign then none
  else some (beginAlign / rtMmPageSize, endAlign / rtMmPageSize)

theorem slabRange_lt {sizeofSlab beginAddr size b e : ℕ}
    (h : slabRange sizeofSlab beginAddr size = some (b, e)) : b < e ∧ e < pageCount := by
  dsimp only [slabRange] at h
  split_ifs at h with hlt
  obtain ⟨rfl, rfl⟩ := Prod.mk.inj (Option.some.inj h)
  simp only [alignTo, alignDownTo, rtMmPageSize] at hlt ⊢
  have : pageCount = 1048576 := rfl
  omega

/-! ## The list of runs -/

namespace SlabPages

/-- The page list from the pointer `h` has the runs `l`. -/
def FreeList (m : SlabPages) (h : Option ℕ) (l : List (ℕ × ℕ)) : Prop :=
  NextChain m.next h (l.map Prod.fst) ∧ ∀ r ∈ l, m.page r.1 = r.2

variable {m m' : SlabPages} {h prev x : Option ℕ} {l : List (ℕ × ℕ)} {r : ℕ × ℕ} {b k n lo : ℕ}

theorem FreeList.nil : m.FreeList none [] := ⟨.nil, by simp⟩

theorem FreeList.cons (hl : m.FreeList (m.next b) l) (hk : m.page b = k) :
    m.FreeList (some b) ((b, k) :: l) := by
  refine ⟨.cons hl.1, fun r hr => ?_⟩
  rcases List.mem_cons.mp hr with rfl | hr
  · exact hk
  · exact hl.2 r hr

theorem FreeList.eq_nil (hl : m.FreeList none l) : l = [] := by
  have := hl.1.eq_nil
  simpa using this

theorem FreeList.unique {l' : List (ℕ × ℕ)} (hl : m.FreeList h l) (hl' : m.FreeList h l') :
    l = l' := by
  have he := hl.1.unique hl'.1
  have hmap : ∀ {l}, m.FreeList h l → (l.map Prod.fst).map (fun b => (b, m.page b)) = l :=
    fun {l} hl => by
      rw [List.map_map]
      refine (List.map_congr_left fun r hr => ?_).trans (List.map_id l)
      rw [Function.comp_apply, hl.2 r hr, id_eq]
  rw [← hmap hl, ← hmap hl', he]

/-- **The first run of a list.** -/
theorem FreeList.pop (hl : m.FreeList (some b) l) :
    ∃ t, l = (b, m.page b) :: t ∧ m.FreeList (m.next b) t := by
  obtain ⟨t, ht, hc⟩ := hl.1.pop
  cases l with
  | nil => cases ht
  | cons r l =>
    obtain ⟨a, k⟩ := r
    obtain ⟨rfl, rfl⟩ := List.cons.inj ht
    have hk : m.page a = k := hl.2 (a, k) List.mem_cons_self
    subst hk
    exact ⟨l, rfl, hc, fun r hr => hl.2 r (List.mem_cons_of_mem _ hr)⟩

/-- **Only the pages at which runs start matter.** -/
theorem FreeList.frame (hl : m.FreeList h l)
    (hf : ∀ r ∈ l, m'.next r.1 = m.next r.1 ∧ m'.page r.1 = m.page r.1) : m'.FreeList h l := by
  refine ⟨hl.1.frame fun b hb => ?_, fun r hr => (hf r hr).2.trans (hl.2 r hr)⟩
  obtain ⟨r, hr, rfl⟩ := List.mem_map.mp hb
  exact (hf r hr).1

theorem link_setLink (m : SlabPages) (prev x : Option ℕ) : (m.setLink prev x).link prev = x := by
  cases prev with
  | none => rfl
  | some b => exact Function.update_self _ _ _

theorem setLink_next (h : prev ≠ some b) : (m.setLink prev x).next b = m.next b := by
  cases prev with
  | none => rfl
  | some c => exact Function.update_of_ne (fun e => h (congrArg some e.symm)) _ _

@[simp] theorem setLink_page (m : SlabPages) (prev x : Option ℕ) :
    (m.setLink prev x).page = m.page := by
  cases prev <;> rfl

@[simp] theorem setPage_next_self (m : SlabPages) (n k : ℕ) (x : Option ℕ) :
    (m.setPage n x k).next n = x := Function.update_self _ _ _

@[simp] theorem setPage_page_self (m : SlabPages) (n k : ℕ) (x : Option ℕ) :
    (m.setPage n x k).page n = k := Function.update_self _ _ _

theorem setPage_next (h : b ≠ n) : (m.setPage n x k).next b = m.next b :=
  Function.update_of_ne h _ _

theorem setPage_page (h : b ≠ n) : (m.setPage n x k).page b = m.page b :=
  Function.update_of_ne h _ _

theorem setLink_pageList (h : prev ≠ none) : (m.setLink prev x).pageList = m.pageList := by
  cases prev with
  | none => exact absurd rfl h
  | some b => rfl

/-- What a loop leaves alone: the pages before `lo`, but for the link it starts from. -/
structure Frame (m m' : SlabPages) (prev : Option ℕ) (lo : ℕ) : Prop where
  pageList : prev ≠ none → m'.pageList = m.pageList
  next : ∀ b, b < lo → prev ≠ some b → m'.next b = m.next b
  page : ∀ b, b < lo → m'.page b = m.page b

theorem frame_setLink (m : SlabPages) (prev x : Option ℕ) (lo : ℕ) :
    Frame m (m.setLink prev x) prev lo where
  pageList := setLink_pageList
  next _ _ h := setLink_next h
  page _ _ := by rw [setLink_page]

theorem frame_setPage (h : lo ≤ n) (x : Option ℕ) (k : ℕ) (prev : Option ℕ) :
    Frame m (m.setPage n x k) prev lo where
  pageList _ := rfl
  next _ hb _ := setPage_next (by omega)
  page _ hb := setPage_page (by omega)

theorem Frame.trans {m₁ m₂ : SlabPages} (h : Frame m m₁ prev lo) (h' : Frame m₁ m₂ prev lo) :
    Frame m m₂ prev lo where
  pageList hp := (h'.pageList hp).trans (h.pageList hp)
  next b hb hp := (h'.next b hb hp).trans (h.next b hb hp)
  page b hb := (h'.page b hb).trans (h.page b hb)

/-- The link to a page is before what a loop from this page on changes. -/
theorem Frame.link {lo' : ℕ} (hf : Frame m m' (some b) lo') (hlo : lo ≤ b) (hle : b < lo')
    (hprev : ∀ c, prev = some c → c < lo) : m'.link prev = m.link prev := by
  cases prev with
  | none => exact hf.pageList (Option.some_ne_none b)
  | some c =>
    have hc := hprev c rfl
    exact hf.next c (by omega) fun e => by
      have := Option.some.inj e
      omega

/-- A loop from the page `b` on is also one from the link to it. -/
theorem Frame.mono {lo' : ℕ} (hf : Frame m m' (some b) lo') (hlo : lo ≤ b) (hle : b < lo')
    (prev : Option ℕ) : Frame m m' prev lo where
  pageList _ := hf.pageList (Option.some_ne_none b)
  next c hc _ := hf.next c (by omega) fun e => by
    have := Option.some.inj e
    omega
  page c hc := hf.page c (by omega)

/-- The page `b` stays in front of a list changed behind it. -/
theorem FreeList.consFrame {lo' : ℕ} (hl : m'.FreeList (m'.link (some b)) l)
    (hf : Frame m m' (some b) lo') (hle : b < lo') :
    m'.FreeList (some b) ((b, m.page b) :: l) :=
  FreeList.cons hl (hf.page b hle)

/-- A list that starts behind `lo` does not see a change of the link before it. -/
theorem FreeList.setLink (hl : m.FreeList h l) (hr : Runs lo l) (hprev : ∀ c, prev = some c → c < lo)
    (x : Option ℕ) : (m.setLink prev x).FreeList h l := by
  refine hl.frame fun r hr' => ⟨setLink_next fun e => ?_, by rw [setLink_page]⟩
  have h1 := hprev _ e
  have h2 := hr.le hr'
  omega

theorem FreeList.setPage (hl : m.FreeList h l) (hr : Runs lo l) (hn : n < lo) (x : Option ℕ)
    (k : ℕ) : (m.setPage n x k).FreeList h l := by
  refine hl.frame fun r hr' => ?_
  have := hr.le hr'
  exact ⟨setPage_next (by omega), setPage_page (by omega)⟩

/-! ## The loops -/

/-- **Linking a run in front of a list.** -/
theorem linkRun_spec (hl : m.FreeList x l) (hr : Runs lo l) (hn : n < lo)
    (hprev : ∀ c, prev = some c → c < n) (k : ℕ) :
    ((m.setPage n x k).setLink prev (some n)).FreeList
      (((m.setPage n x k).setLink prev (some n)).link prev) ((n, k) :: l) := by
  have hnp : prev ≠ some n := fun e => (Nat.lt_irrefl n) (hprev n e)
  rw [link_setLink]
  refine FreeList.cons ?_ (by rw [setLink_page, setPage_page_self])
  rw [setLink_next hnp, setPage_next_self]
  exact (hl.setPage hr hn _ _).setLink hr (fun c hc => by have := hprev c hc; omega) _

/-- **Describing the first run of a list anew.** -/
theorem setFirst_spec (hb : m.link prev = some b) (hl : m.FreeList x l) (hr : Runs lo l)
    (hbl : b < lo) (hprev : ∀ c, prev = some c → c < b) (k : ℕ) :
    (m.setPage b x k).FreeList ((m.setPage b x k).link prev) ((b, k) :: l) := by
  have hlink : (m.setPage b x k).link prev = m.link prev := by
    cases prev with
    | none => rfl
    | some c => exact setPage_next (Nat.ne_of_lt (hprev c rfl))
  rw [hlink, hb]
  refine FreeList.cons ?_ (setPage_page_self _ _ _ _)
  rw [setPage_next_self]
  exact hl.setPage hr hbl _ _

/-- **`rt_slab_page_alloc` cuts the pages off the first run that has as many.** -/
theorem allocLoop_spec {fuel : ℕ} (hl : m.FreeList (m.link prev) l) (hr : Runs lo l)
    (hprev : ∀ c, prev = some c → c < lo) (hfuel : l.length < fuel) (hn : 0 < n)
    (hb : ∀ r ∈ l, r.1 + r.2 < pageCount) :
    match takeRuns n l with
    | none => m.allocLoop n fuel prev = some (none, m)
    | some (p, l') => ∃ m', m.allocLoop n fuel prev = some (some p, m') ∧
        m'.FreeList (m'.link prev) l' ∧ Frame m m' prev lo := by
  induction fuel generalizing prev lo l with
  | zero => omega
  | succ fuel ih =>
    simp only [allocLoop]
    cases hx : m.link prev with
    | none =>
      rw [hx] at hl
      rw [hl.eq_nil]
      rfl
    | some b =>
      rw [hx] at hl
      obtain ⟨t, rfl, ht⟩ := hl.pop
      obtain ⟨h1, h2, h3⟩ := hr
      dsimp only at h1 h2 h3
      have hbk := hb _ List.mem_cons_self
      dsimp only at hbk
      simp only [takeRuns, gt_iff_lt]
      split_ifs with c1 c2
      · -- the run is longer: its rest starts at a page of its own
        have hplus : pagePlus b n = b + n := pagePlus_eq (by omega)
        rw [hplus]
        exact ⟨_, rfl, linkRun_spec ht h3 (by omega) (fun c hc => by have := hprev c hc; omega) _,
          (frame_setPage (by omega) _ _ _).trans (frame_setLink _ _ _ _)⟩
      · refine ⟨_, rfl, ?_, frame_setLink _ _ _ _⟩
        rw [link_setLink]
        exact ht.setLink h3 (fun c hc => by have := hprev c hc; omega) _
      · have hfuel' : t.length < fuel := by
          rw [List.length_cons] at hfuel
          omega
        have := ih (show m.FreeList (m.link (some b)) t from ht) h3
          (fun c hc => by cases hc; omega) hfuel' fun r hr => hb r (List.mem_cons_of_mem _ hr)
        cases htr : takeRuns n t with
        | none =>
          rw [htr] at this
          exact this
        | some q =>
          rw [htr] at this
          obtain ⟨m', hm', hl', hf⟩ := this
          refine ⟨m', hm', ?_, hf.mono h1 (by omega) prev⟩
          rw [hf.link h1 (by omega) hprev, hx]
          exact hl'.consFrame hf (by omega)

/-- A run that grows, up to its successor. -/
theorem growFirst_spec (hx : m.link prev = some b) (ht : m.FreeList (m.next b) l)
    (hr : Runs (b + m.page b + 1) l) (hprev : ∀ c, prev = some c → c < lo) (hlo : lo ≤ b)
    (hn : b + (m.page b + n) < pageCount) (hpos : 0 < m.page b)
    (hb : ∀ r ∈ l, r.1 + r.2 < pageCount) :
    ∃ m', (if pagePlus b (m.page b + n) = (m.next b).getD 0 then
          some (m.setPage b (m.next ((m.next b).getD 0))
            ((m.page b + n + m.page ((m.next b).getD 0)) % 2 ^ 32))
        else some (m.setPage b (m.next b) (m.page b + n))) = some m' ∧
      m'.FreeList (m'.link prev) (growRun b (m.page b) n l) ∧ Frame m m' prev lo := by
  have hprevb : ∀ c, prev = some c → c < b := fun c hc => by
    have := hprev c hc
    omega
  rw [pagePlus_eq hn]
  cases hc : m.next b with
  | none =>
    rw [hc] at ht
    rw [ht.eq_nil, Option.getD_none, if_neg (by omega)]
    exact ⟨_, rfl, setFirst_spec hx .nil trivial (Nat.lt_succ_self b) hprevb _,
      frame_setPage hlo _ _ _⟩
  | some c =>
    rw [hc] at ht
    obtain ⟨t, rfl, ht'⟩ := ht.pop
    have hck := hb _ List.mem_cons_self
    dsimp only at hck
    rw [Option.getD_some]
    simp only [growRun]
    split_ifs with he
    · have hk : (m.page b + n + m.page c) % 2 ^ 32 = m.page b + n + m.page c :=
        Nat.mod_eq_of_lt (by have := pageCount_lt; omega)
      rw [hk]
      exact ⟨_, rfl, setFirst_spec hx ht' hr.2.2 (by dsimp only; omega) hprevb _,
        frame_setPage hlo _ _ _⟩
    · exact ⟨_, rfl, setFirst_spec hx ht hr (by omega) hprevb _, frame_setPage hlo _ _ _⟩

/-- **`rt_slab_page_free` merges the run into the list**, where no page of it is free. -/
theorem freeLoop_spec {fuel a : ℕ} (hl : m.FreeList (m.link prev) l) (hr : Runs lo l)
    (hprev : ∀ c, prev = some c → c < lo) (hfuel : l.length < fuel) (hn : 0 < n) (hlo : lo ≤ a)
    (han : a + n < pageCount) (hb : ∀ r ∈ l, r.1 + r.2 < pageCount)
    (hf : ∀ i, a ≤ i → i < a + n → cover l i = 0) :
    ∃ m', m.freeLoop a n fuel prev = some m' ∧ m'.FreeList (m'.link prev) (putRun a n l) ∧
      Frame m m' prev lo := by
  have hprev' : ∀ c, prev = some c → c < a := fun c hc => by
    have := hprev c hc
    omega
  induction fuel generalizing prev lo l with
  | zero => omega
  | succ fuel ih =>
    have hframe : ∀ x k, Frame m ((m.setPage a x k).setLink prev (some a)) prev lo := fun x k =>
      (frame_setPage hlo _ _ _).trans (frame_setLink _ _ _ _)
    simp only [freeLoop]
    cases hx : m.link prev with
    | none =>
      rw [hx] at hl
      rw [hl.eq_nil]
      exact ⟨_, rfl, linkRun_spec .nil trivial (Nat.lt_succ_self a) hprev' n, hframe _ _⟩
    | some b =>
      rw [hx] at hl
      obtain ⟨t, rfl, ht⟩ := hl.pop
      obtain ⟨h1, h2, h3⟩ := hr
      dsimp only at h1 h2 h3
      have hbk := hb _ List.mem_cons_self
      dsimp only at hbk
      have hplus : pagePlus b (m.page b) = b + m.page b := pagePlus_eq hbk
      have hplusA : pagePlus a n = a + n := pagePlus_eq han
      -- the assertion: the run `b` does not meet the new one
      have hba : ¬ (a ≤ b ∧ b < a + n) := fun hb' =>
        cover_eq_zero (hf b hb'.1 hb'.2) List.mem_cons_self ⟨Nat.le_refl _, by dsimp only; omega⟩
      have hab : ¬ (b ≤ a ∧ a < b + m.page b) := fun ha =>
        cover_eq_zero (hf a (Nat.le_refl _) (by omega)) List.mem_cons_self ha
      have hassert : m.page b > 0 ∧ (b > a ∨ b + m.page b ≤ a) := ⟨h2, by omega⟩
      have hprevb : ∀ c, prev = some c → c < b := fun c hc => by
        have := hprev c hc
        omega
      have hk : (m.page b + n) % 2 ^ 32 = m.page b + n :=
        Nat.mod_eq_of_lt (by have := pageCount_lt; omega)
      dsimp only
      rw [hplus, hplusA, hk, if_pos hassert]
      simp only [putRun]
      by_cases c1 : b + m.page b = a
      · rw [if_pos c1, if_pos c1]
        exact growFirst_spec hx ht h3 hprev h1 (by omega) h2
          fun r hr => hb r (List.mem_cons_of_mem _ hr)
      rw [if_neg c1, if_neg c1]
      split_ifs with c2 c3
      · exact ⟨_, rfl, linkRun_spec ht h3 (by omega) hprev' _, hframe _ _⟩
      · refine ⟨_, rfl, ?_, hframe _ _⟩
        exact linkRun_spec (FreeList.cons ht rfl) ⟨Nat.le_refl b, h2, h3⟩ (by omega)
          hprev' _
      · have hfuel' : t.length < fuel := by
          rw [List.length_cons] at hfuel
          omega
        have hf' : ∀ i, a ≤ i → i < a + n → cover t i = 0 := fun i hi hi' => by
          have := hf i hi hi'
          rw [cover] at this
          omega
        obtain ⟨m', hm', hl', hfr⟩ := ih (show m.FreeList (m.link (some b)) t from ht) h3
          (fun c hc => by cases hc; omega) hfuel' (by omega)
          (fun r hr => hb r (List.mem_cons_of_mem _ hr)) hf' (fun c hc => by cases hc; omega)
        refine ⟨m', hm', ?_, hfr.mono h1 (by omega) prev⟩
        rw [hfr.link h1 (by omega) hprev, hx]
        exact hl'.consFrame hfr (by omega)

/-- **`rt_slab_page_alloc`** on a heap with the free runs `l`. -/
theorem pageAlloc_spec (hl : m.FreeList m.pageList l) (hr : Runs lo l)
    (hb : ∀ r ∈ l, r.1 + r.2 < pageCount) (hn : n ≠ 0) :
    match takeRuns n l with
    | none => m.pageAlloc n = some (none, m)
    | some (p, l') => ∃ m', m.pageAlloc n = some (some p, m') ∧ m'.FreeList m'.pageList l' := by
  have hlen : l.length < pageCount := by
    have := hr.length_le (fun r hr => Nat.le_sub_one_of_lt (hb r hr))
    have : pageCount = 1048576 := rfl
    omega
  have := allocLoop_spec (show m.FreeList (m.link none) l from hl) hr (by simp) hlen (Nat.pos_of_ne_zero hn) hb
  rw [pageAlloc, if_neg hn]
  cases ht : takeRuns n l with
  | none =>
    rw [ht] at this
    exact this
  | some q =>
    rw [ht] at this
    obtain ⟨m', h1, h2, -⟩ := this
    exact ⟨m', h1, h2⟩

/-- **`rt_slab_page_free`** of pages that are not free. -/
theorem pageFree_spec {a : ℕ} (hl : m.FreeList m.pageList l) (hr : Runs lo l)
    (hb : ∀ r ∈ l, r.1 + r.2 < pageCount) (hlo : lo ≤ a) (ha : a ≠ 0) (hn : n ≠ 0)
    (han : a + n < pageCount) (hf : ∀ i, a ≤ i → i < a + n → cover l i = 0) :
    ∃ m', m.pageFree a n = some m' ∧ m'.FreeList m'.pageList (putRun a n l) := by
  have hlen : l.length < pageCount := by
    have := hr.length_le (fun r hr => Nat.le_sub_one_of_lt (hb r hr))
    have : pageCount = 1048576 := rfl
    omega
  obtain ⟨m', h1, h2, -⟩ := freeLoop_spec (show m.FreeList (m.link none) l from hl) hr (by simp) hlen
    (Nat.pos_of_ne_zero hn) hlo han hb hf
  exact ⟨m', by rw [pageFree, if_pos ⟨ha, hn⟩, h1], h2⟩

end SlabPages

/-! ## Runs of the page allocator -/

/-- A heap from page `heapStart` to before page `heapEnd`, with the number of times each page is
handed out. -/
structure PageState where
  heapStart : ℕ
  heapEnd : ℕ
  slab : SlabPages
  held : ℕ → ℕ

/-- The calls, and the writes of the owner of a page where a free page has its description. -/
inductive PageLabel where
  | alloc (npages : ℕ)
  | free (addr npages : ℕ)
  | write (page : ℕ) (next : Option ℕ) (n : ℕ)
  deriving DecidableEq, Repr

namespace PageState

/-- Pages handed out to a caller of `rt_slab_page_free`. -/
def Held (s : PageState) (addr npages : ℕ) : Prop :=
  npages ≠ 0 ∧ ∀ i, i < npages → 0 < s.held (addr + i)

instance (s : PageState) (addr npages : ℕ) : Decidable (s.Held addr npages) := by
  unfold Held; infer_instance

/-- One call or write. -/
def step (s : PageState) : PageLabel → Option PageState
  | .alloc n =>
    match s.slab.pageAlloc n with
    | none => none
    | some (none, m) => some { s with slab := m }
    | some (some p, m) => some { s with slab := m, held := fun i => s.held i + inRun (p, n) i }
  | .free a n =>
    if s.Held a n then
      (s.slab.pageFree a n).map fun m =>
        { s with slab := m, held := fun i => s.held i - inRun (a, n) i }
    else none
  | .write p x k => if 0 < s.held p then some { s with slab := s.slab.setPage p x k } else none

/-- The start: the pages that `rt_slab_init` hands to `rt_slab_page_init`. -/
def Start (sizeofSlab : ℕ) (s : PageState) : Prop :=
  ∃ beginAddr size m₀, slabRange sizeofSlab beginAddr size = some (s.heapStart, s.heapEnd) ∧
    SlabPages.pageInit m₀ s.heapStart (s.heapEnd - s.heapStart) = some s.slab ∧ s.held = fun _ => 0

/-- What holds between the calls, with the free runs `l`. -/
structure Inv (s : PageState) (l : List (ℕ × ℕ)) : Prop where
  list : s.slab.FreeList s.slab.pageList l
  runs : Runs s.heapStart l
  pages : ∀ i, s.held i + cover l i = if s.heapStart ≤ i ∧ i < s.heapEnd then 1 else 0
  start : 0 < s.heapStart
  stop : s.heapStart < s.heapEnd
  limit : s.heapEnd < pageCount

variable {s s' : PageState} {l : List (ℕ × ℕ)} {r : ℕ × ℕ} {a i n p : ℕ}

theorem Inv.run_le (h : s.Inv l) (hr : r ∈ l) : r.1 + r.2 ≤ s.heapEnd := by
  have hpos := h.runs.pos hr
  have h1 := h.pages (r.1 + r.2 - 1)
  have h2 : 0 < cover l (r.1 + r.2 - 1) := cover_pos.mpr ⟨r, hr, by omega, by omega⟩
  split_ifs at h1 <;> omega

theorem Inv.run_lt (h : s.Inv l) : ∀ r ∈ l, r.1 + r.2 < pageCount := fun r hr => by
  have h1 := h.run_le hr
  have h2 := h.limit
  omega

theorem Inv.held_cover (h : s.Inv l) (hi : 0 < s.held i) :
    s.heapStart ≤ i ∧ i < s.heapEnd ∧ cover l i = 0 ∧ s.held i = 1 := by
  have := h.pages i
  split_ifs at this with hc
  · exact ⟨hc.1, hc.2, by omega, by omega⟩
  · omega

/-- Held pages lie in the heap and are not free. -/
theorem Inv.held_range (h : s.Inv l) (ha : s.Held a n) :
    s.heapStart ≤ a ∧ a + n ≤ s.heapEnd ∧ ∀ i, a ≤ i → i < a + n → cover l i = 0 ∧ s.held i = 1 := by
  have hi : ∀ i, a ≤ i → i < a + n → 0 < s.held i := fun i h1 h2 => by
    have := ha.2 (i - a) (by omega)
    have he : a + (i - a) = i := by omega
    rwa [he] at this
  have hn := ha.1
  refine ⟨(h.held_cover (hi a (Nat.le_refl _) (by omega))).1, ?_, fun i h1 h2 => ?_⟩
  · have := (h.held_cover (hi (a + n - 1) (by omega) (by omega))).2.1
    omega
  · exact (h.held_cover (hi i h1 h2)).2.2

/-- **No call of `rt_slab_page_alloc` fails to return**, and what it returns was free. -/
theorem Inv.alloc (h : s.Inv l) (n : ℕ) :
    ∃ m, s.slab.pageAlloc n = some (none, m) ∧ m = s.slab ∨
      ∃ p l', s.slab.pageAlloc n = some (some p, m) ∧ m.FreeList m.pageList l' ∧
        Runs s.heapStart l' ∧ ∀ i, cover l i = cover l' i + inRun (p, n) i := by
  by_cases hn : n = 0
  · exact ⟨s.slab, .inl ⟨by rw [SlabPages.pageAlloc, if_pos hn], rfl⟩⟩
  have := SlabPages.pageAlloc_spec h.list h.runs h.run_lt hn
  cases ht : takeRuns n l with
  | none =>
    rw [ht] at this
    exact ⟨_, .inl ⟨this, rfl⟩⟩
  | some q =>
    obtain ⟨p, l'⟩ := q
    rw [ht] at this
    obtain ⟨m, h1, h2⟩ := this
    exact ⟨m, .inr ⟨p, l', h1, h2, h.runs.takeRuns (Nat.pos_of_ne_zero hn) ht, cover_takeRuns ht⟩⟩

/-- **No assertion of `rt_slab_page_free` fails** on pages that are held. -/
theorem Inv.free (h : s.Inv l) (ha : s.Held a n) :
    ∃ m, s.slab.pageFree a n = some m ∧ m.FreeList m.pageList (putRun a n l) := by
  obtain ⟨h1, h2, h3⟩ := h.held_range ha
  have hpos := h.start
  have hlim := h.limit
  exact SlabPages.pageFree_spec h.list h.runs h.run_lt h1 (by omega) ha.1 (by omega)
    fun i hi hi' => (h3 i hi hi').1

/-- **One call or write.** -/
theorem Inv.step (h : s.Inv l) {x : PageLabel} (hs : s.step x = some s') : ∃ l', s'.Inv l' := by
  cases x with
  | alloc n =>
    simp only [PageState.step] at hs
    obtain ⟨m, ⟨he, rfl⟩ | ⟨p, l', he, h1, h2, h3⟩⟩ := h.alloc n
    · rw [he] at hs
      cases hs
      exact ⟨l, h⟩
    · rw [he] at hs
      cases hs
      refine ⟨l', { h with list := h1, runs := h2, pages := fun i => ?_ }⟩
      have := h.pages i
      rw [h3 i] at this
      dsimp only
      omega
  | free a n =>
    simp only [PageState.step] at hs
    split_ifs at hs with ha
    obtain ⟨m, he, h1⟩ := h.free ha
    obtain ⟨h2, h3, h4⟩ := h.held_range ha
    rw [he] at hs
    cases hs
    refine ⟨putRun a n l, { h with list := h1, runs := ?_, pages := fun i => ?_ }⟩
    · exact h.runs.putRun (Nat.pos_of_ne_zero ha.1) h2 fun i hi hi' => (h4 i hi hi').1
    · have h5 := h.pages i
      have h6 : inRun (a, n) i ≤ s.held i := by
        by_cases hi : 0 < inRun (a, n) i
        · obtain ⟨h7, h8⟩ := inRun_pos.mp hi
          rw [(h4 i h7 h8).2, inRun]
          split_ifs <;> omega
        · omega
      rw [cover_putRun]
      dsimp only
      omega
  | write p x k =>
    simp only [PageState.step] at hs
    split_ifs at hs with hp
    cases hs
    refine ⟨l, { h with list := h.list.frame fun r hr => ?_ }⟩
    -- a held page starts no run
    have hne : r.1 ≠ p := by
      rintro rfl
      have hpos := h.runs.pos hr
      exact cover_eq_zero (h.held_cover hp).2.2.1 hr ⟨Nat.le_refl _, by omega⟩
    exact ⟨SlabPages.setPage_next hne, SlabPages.setPage_page hne⟩

/-- **`rt_slab_page_init`** makes the heap one run. -/
theorem Start.inv (sizeofSlab : ℕ) (h : s.Start sizeofSlab) :
    s.Inv [(s.heapStart, s.heapEnd - s.heapStart)] := by
  obtain ⟨b, size, m₀, hr, hi, hheld⟩ := h
  obtain ⟨h1, h2⟩ := slabRange_lt hr
  have hne : s.heapStart ≠ 0 := by
    intro h0
    rw [SlabPages.pageInit, h0, if_neg (by simp)] at hi
    cases hi
  have hn : s.heapEnd - s.heapStart ≠ 0 := by omega
  rw [SlabPages.pageInit, if_pos ⟨hne, hn⟩] at hi
  have hnil : { m₀ with pageList := none }.FreeList none [] := SlabPages.FreeList.nil
  obtain ⟨m, hm, hl⟩ := SlabPages.pageFree_spec hnil trivial (by simp) (Nat.le_refl s.heapStart) hne
    hn (by omega) fun _ _ _ => rfl
  rw [hm] at hi
  cases hi
  have hruns : Runs s.heapStart [(s.heapStart, s.heapEnd - s.heapStart)] :=
    ⟨Nat.le_refl _, Nat.pos_of_ne_zero hn, trivial⟩
  refine ⟨hl, hruns, fun i => ?_, Nat.pos_of_ne_zero hne, h1, h2⟩
  rw [hheld, cover, cover, inRun]
  dsimp only
  split_ifs <;> omega

/-- **Nothing held: the list is the single run of the start.** -/
theorem Inv.eq_single (h : s.Inv l) (h0 : ∀ i, s.held i = 0) :
    l = [(s.heapStart, s.heapEnd - s.heapStart)] := by
  have hlt := h.stop
  have hr : Runs s.heapStart [(s.heapStart, s.heapEnd - s.heapStart)] :=
    ⟨Nat.le_refl _, by dsimp only; omega, trivial⟩
  refine h.runs.ext hr fun i => ?_
  have := h.pages i
  rw [h0 i, Nat.zero_add] at this
  rw [this, cover, cover, inRun]
  split_ifs <;> omega

end PageState

/-- `rt_slab_page_alloc` and `rt_slab_page_free` in any order. -/
def pageSystem (sizeofSlab : ℕ) : System PageState PageLabel where
  init := PageState.Start sizeofSlab
  step := PageState.step

/-- **Main result.** In every state of every run the free list is sorted, its runs are not empty,
disjoint and not adjacent; every page of the heap is either free or handed out, once; with nothing
handed out the list is the single run of the start; and every further call returns. -/
theorem slabPages_invariant {sizeofSlab : ℕ} {s : PageState}
    (h : (pageSystem sizeofSlab).Reach System.anyStep s) :
    ∃ l, s.slab.FreeList s.slab.pageList l ∧ (l.Pairwise fun r r' => r.1 + r.2 < r'.1) ∧
      (∀ r ∈ l, 0 < r.2) ∧
      (∀ i, s.held i + cover l i = if s.heapStart ≤ i ∧ i < s.heapEnd then 1 else 0) ∧
      ((∀ i, s.held i = 0) → l = [(s.heapStart, s.heapEnd - s.heapStart)]) ∧
      (∀ n, (s.slab.pageAlloc n).isSome) ∧ ∀ a n, s.Held a n → (s.slab.pageFree a n).isSome := by
  have hinv : ∃ l, s.Inv l := by
    refine h.invariant (I := fun s => ∃ l, s.Inv l) (fun _ hs => ⟨_, PageState.Start.inv _ hs⟩) ?_
    intro s x s' ⟨l, hl⟩ _ hs
    exact hl.step hs
  obtain ⟨l, hl⟩ := hinv
  refine ⟨l, hl.list, hl.runs.pairwise, fun r hr => hl.runs.pos hr, hl.pages, hl.eq_single,
    fun n => ?_, fun a n ha => ?_⟩
  · obtain ⟨m, ⟨he, -⟩ | ⟨p, l', he, -⟩⟩ := hl.alloc n <;> rw [he] <;> rfl
  · obtain ⟨m, he, -⟩ := hl.free ha
    rw [he]
    rfl

/-- Three runs handed out, the outer ones given back first, then the one between them. -/
theorem slabPages_invariant_merged : ∃ s : PageState, s.slab.pageList = some 2 ∧
    s.slab.next 2 = none ∧ s.slab.page 2 = 15 ∧
    ∃ l, s.slab.FreeList s.slab.pageList l ∧ (l.Pairwise fun r r' => r.1 + r.2 < r'.1) ∧
      (∀ r ∈ l, 0 < r.2) ∧
      (∀ i, s.held i + cover l i = if s.heapStart ≤ i ∧ i < s.heapEnd then 1 else 0) ∧
      ((∀ i, s.held i = 0) → l = [(s.heapStart, s.heapEnd - s.heapStart)]) ∧
      (∀ n, (s.slab.pageAlloc n).isSome) ∧ ∀ a n, s.Held a n → (s.slab.pageFree a n).isSome := by
  obtain ⟨m, hm⟩ : ∃ m, SlabPages.pageInit ⟨none, fun _ => none, fun _ => 0⟩ 2 15 = some m :=
    ⟨_, rfl⟩
  have hstart : (pageSystem 364).init ⟨2, 17, m, fun _ => 0⟩ :=
    ⟨0x1000, 0x10000, _, (by decide : slabRange 364 0x1000 0x10000 = some (2, 17)), hm, rfl⟩
  obtain ⟨s, hs, hp⟩ := (pageSystem 364).exists_reach System.anyStep
    (fun s => decide (s.slab.pageList = some 2 ∧ s.slab.next 2 = none ∧ s.slab.page 2 = 15)) hstart
    [.alloc 2, .alloc 3, .alloc 4, .write 5 (some 9) 1, .free 2 2, .free 7 4, .free 4 3]
    (by cases hm; decide)
  obtain ⟨h1, h2, h3⟩ := of_decide_eq_true hp
  exact ⟨s, h1, h2, h3, slabPages_invariant hs⟩

end RtThread
