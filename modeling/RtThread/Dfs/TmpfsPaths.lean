import Mathlib.Data.Fintype.EquivFin
import RtThread.Dfs.TmpfsBuffers
import RtThread.Lib.Paths

/-!
# The paths of tmpfs

* `rawNames`, `passed`: what stands between the slashes of a path, and the names that the lookup compares;
  an empty one is read as the next one;
* `fileName`: what `_path_separate` copies into `file_name`;
* `Tmpfs.Named`: each component is the name of a node in the list of the one before;
* `openBuf_cases`, `renameBuf_cases`: what the calls write; `names_of_reach`: all runs keep `NamesInv`;
* `chain_reach`: any short names are made a chain of directories;
* **`tmpfs_paths`**: in every run the calls on a path stay in their buffers, store its last component
  with its NUL and find exactly what has its components as names, if and only if `TmpfsPath.ok`.
-/

set_option linter.unusedSectionVars false

namespace RtThread

/-! ## The names of a path -/

/-- What stands between the slashes, behind those in front. -/
def rawNames (path : List Char) : List (List Char) :=
  if path.dropWhile (· = '/') = [] then [] else (path.dropWhile (· = '/')).splitOn '/'

/-- The names that `find_subpath` compares. -/
def passedFrom (curpath : List Char) : List Char → List (List Char)
  | [] => [curpath]
  | c :: rest =>
    if c = '/' then getSubdir curpath :: passedFrom rest rest else passedFrom curpath rest

/-- The names that `dfs_tmpfs_lookup` compares. -/
def passed (path : List Char) : List (List Char) :=
  match path.dropWhile (· = '/') with
  | [] => []
  | c :: rest => passedFrom (c :: rest) (c :: rest)

/-- The file name that `_path_separate` copies. -/
def fileName : List Char → Option (List Char)
  | [] => none
  | c :: rest =>
    if c = '/' ∧ [] ∉ rest.splitOn '/' then (rest.splitOn '/').getLast? else none

/-- A name that cannot be stored. -/
def isLong (c : List Char) : Bool := tmpfsNameMax ≤ c.length

/-- **The condition** on a path. -/
def TmpfsPath.ok (path : TmpfsPath) : Bool :=
  match (rawNames path.chars).find? isLong with
  | none => decide ([] ∉ rawNames path.chars)
  | some c => decide (c.length = tmpfsNameMax) && !(fileName path.chars).any isLong

section

variable {path pre rest c t : List Char} {l m : List (List Char)}

/-- Each empty name is the next one that is not empty. -/
def fillNames : List (List Char) → List (List Char)
  | [] => []
  | c :: l => (if c = [] then (l.find? (· ≠ [])).getD [] else c) :: fillNames l

theorem fillNames_nil : fillNames [] = [] := rfl

theorem fillNames_cons : fillNames (c :: l) =
    (if c = [] then (l.find? (· ≠ [])).getD [] else c) :: fillNames l := rfl

theorem fillNames_length : (fillNames l).length = l.length := by
  induction l with
  | nil => rfl
  | cons c l ih => rw [fillNames_cons, List.length_cons, ih, List.length_cons]

theorem fillNames_self (h : [] ∉ l) : fillNames l = l := by
  induction l with
  | nil => rfl
  | cons c l ih =>
    rw [List.mem_cons, not_or] at h
    rw [fillNames_cons, if_neg (Ne.symm h.1), ih h.2]

/-- Filling in makes no new name. -/
theorem mem_fillNames (hc : c ≠ []) (h : c ∈ fillNames l) : c ∈ l := by
  induction l with
  | nil => cases h
  | cons d l ih =>
    rw [fillNames_cons] at h
    rcases List.mem_cons.mp h with he | h
    · by_cases hd : d = []
      · rw [if_pos hd] at he
        cases hfind : l.find? (· ≠ []) with
        | none =>
          rw [hfind] at he
          exact absurd he hc
        | some e =>
          rw [hfind] at he
          exact List.mem_cons_of_mem _ (he ▸ List.mem_of_find?_eq_some hfind)
      · rw [if_neg hd] at he
        exact he ▸ List.mem_cons_self
    · exact List.mem_cons_of_mem _ (ih h)

/-- A name in front of one that is not empty is not empty. -/
theorem fillNames_ne_nil {n : List (List Char)} (hc : c ≠ []) (h : fillNames l = m ++ c :: n) :
    [] ∉ m := by
  induction l generalizing m with
  | nil => simp [fillNames_nil] at h
  | cons d l ih =>
    cases m with
    | nil => exact List.not_mem_nil
    | cons e m =>
      rw [fillNames_cons, List.cons_append] at h
      obtain ⟨he, h⟩ := List.cons.inj h
      rw [List.mem_cons, not_or]
      refine ⟨?_, ih h⟩
      by_cases hd : d = []
      · have hcl : c ∈ l := mem_fillNames hc (h ▸ List.mem_append_right _ List.mem_cons_self)
        rw [if_pos hd] at he
        cases hfind : l.find? (· ≠ []) with
        | none => simpa [hc] using List.find?_eq_none.mp hfind c hcl
        | some e' =>
          rw [hfind] at he
          have := List.find?_some hfind
          rw [← he]
          exact Ne.symm (by simpa using this)
      · rw [if_neg hd] at he
        exact he ▸ Ne.symm hd

theorem find?_of_imp {p q : List Char → Bool} (h : ∀ c, q c = true → p c = true)
    (hp : l.find? p = some c) (hq : q c = true) : l.find? q = some c := by
  induction l with
  | nil => cases hp
  | cons d l ih =>
    rw [List.find?_cons] at hp ⊢
    cases hqd : q d with
    | true =>
      rw [h d hqd] at hp
      exact hp
    | false =>
      cases hpd : p d with
      | true =>
        rw [hpd] at hp
        cases hp
        rw [hq] at hqd
        cases hqd
      | false =>
        rw [hpd] at hp
        exact ih hp

theorem isLong_ne_nil (h : isLong c = true) : c ≠ [] := by
  rintro rfl
  exact absurd h (by decide)

/-- The first long name is the same. -/
theorem find_fillNames : (fillNames l).find? isLong = l.find? isLong := by
  induction l with
  | nil => rfl
  | cons c l ih =>
    rw [fillNames_cons, List.find?_cons, List.find?_cons, ih]
    by_cases hc : c = []
    · have hnil : isLong [] = false := by decide
      rw [if_pos hc, hc, hnil]
      cases hlong : isLong ((l.find? (· ≠ [])).getD []) with
      | false => rfl
      | true =>
        cases hfind : l.find? (· ≠ []) with
        | none =>
          rw [hfind] at hlong
          exact absurd rfl (isLong_ne_nil hlong)
        | some e =>
          rw [hfind] at hlong
          exact (find?_of_imp (fun c h => by simpa using isLong_ne_nil h) hfind hlong).symm
    · rw [if_neg hc]

/-! ## The names that the lookup compares -/

theorem find_splitOn (t : List Char) : ((t.splitOn '/').find? (· ≠ [])).getD [] = getSubdir t := by
  induction t with
  | nil => rfl
  | cons a t ih =>
    by_cases ha : a = '/'
    · have happ : ('/' :: t).splitOn '/' = [] :: t.splitOn '/' :=
        List.splitOn_append_cons_self_of_not_mem List.not_mem_nil t
      rw [ha, happ, List.find?_cons_of_neg (by simp), ih]
      unfold getSubdir
      rw [List.dropWhile_cons_of_pos (by simp)]
    · have hw : '/' ∉ (a :: t).takeWhile (· ≠ '/') := by
        intro hmem
        have := List.mem_takeWhile_imp hmem
        simp at this
      have hne : (a :: t).takeWhile (· ≠ '/') ≠ [] := by
        rw [List.takeWhile_cons_of_pos (by simpa using ha)]
        exact List.cons_ne_nil _ _
      have happ := List.takeWhile_append_dropWhile (p := fun c => decide (c ≠ '/')) (l := a :: t)
      have hfirst := List.head?_dropWhile_not (fun c => decide (c ≠ '/')) (a :: t)
      generalize (a :: t).takeWhile (· ≠ '/') = w at *
      generalize (a :: t).dropWhile (fun c => decide (c ≠ '/')) = r at *
      have hslash : ∀ c ∈ r.head?, c = '/' := by
        intro c hc
        rw [hc] at hfirst
        simpa using hfirst
      rw [← happ, getSubdir_word ⟨hne, hw⟩ hslash]
      cases r with
      | nil =>
        rw [List.append_nil, List.splitOn_eq_singleton hw, List.find?_cons_of_pos (by simpa using hne)]
        rfl
      | cons c r =>
        rw [hslash c rfl, List.splitOn_append_cons_self_of_not_mem hw,
          List.find?_cons_of_pos (by simpa using hne)]
        rfl

theorem passedFrom_eq (hpre : '/' ∉ pre) :
    passedFrom (pre ++ rest) rest = fillNames ((pre ++ rest).splitOn '/') := by
  induction rest generalizing pre with
  | nil =>
    rw [List.append_nil, List.splitOn_eq_singleton hpre, passedFrom, fillNames_cons, fillNames_nil]
    by_cases hnil : pre = []
    · rw [if_pos hnil, hnil]
      rfl
    · rw [if_neg hnil]
  | cons c rest ih =>
    rw [passedFrom]
    by_cases hc : c = '/'
    · have hrest := ih (show '/' ∉ [] from List.not_mem_nil)
      rw [List.nil_append] at hrest
      rw [if_pos hc, hc, List.splitOn_append_cons_self_of_not_mem hpre, fillNames_cons, hrest]
      refine congrArg (· :: _) ?_
      by_cases hnil : pre = []
      · rw [if_pos hnil, hnil, find_splitOn]
        unfold getSubdir
        rw [List.nil_append, List.dropWhile_cons_of_pos (by simp)]
      · rw [if_neg hnil]
        exact getSubdir_word ⟨hnil, hpre⟩ fun a ha => (Option.some.inj ha).symm
    · have happ : pre ++ c :: rest = (pre ++ [c]) ++ rest := by simp
      rw [if_neg hc, happ]
      exact ih (by simp [hpre, Ne.symm hc])

/-- **The lookup compares the names of the path**, each empty one filled in. -/
theorem passed_eq : passed path = fillNames (rawNames path) := by
  unfold passed rawNames
  cases hw : path.dropWhile (· = '/') with
  | nil => rfl
  | cons c rest =>
    rw [if_neg (List.cons_ne_nil c rest)]
    exact @passedFrom_eq [] _ List.not_mem_nil

/-- The components of the path are the names that are not empty. -/
theorem components_eq : components '/' path = (rawNames path).filter (· ≠ []) := by
  rw [← components_dropWhile, rawNames]
  split
  · rename_i hnil
    rw [hnil, components_nil]
    rfl
  · rfl

/-! ## The file name -/

theorem separateFrom_none {parent name : List Char} (hname : '/' ∉ name)
    (hlen : parent.length + (name.length + rest.length) < dfsPathMax) :
    separateFrom parent name rest = none ↔ [] ∉ (name ++ rest).splitOn '/' ∧
      ((name ++ rest).splitOn '/').getLast?.any isLong = true := by
  induction rest generalizing parent name with
  | nil =>
    rw [separateFrom, List.append_nil, List.splitOn_eq_singleton hname]
    by_cases hnil : name = []
    · simp [hnil]
    · have hparent : parent.length < dfsPathMax := by omega
      by_cases hlt : name.length < tmpfsNameMax
      · simp [hnil, hparent, hlt, isLong]
      · simp [hnil, hparent, hlt, isLong, Ne.symm hnil, Nat.le_of_not_lt hlt]
  | cons c rest ih =>
    rw [separateFrom]
    by_cases hc : c = '/'
    · rw [if_pos hc, hc, List.splitOn_append_cons_self_of_not_mem hname]
      by_cases hnil : name = []
      · simp [hnil]
      · rw [List.length_cons] at hlen
        rw [if_neg hnil, ih List.not_mem_nil (by simp; omega), List.nil_append, List.mem_cons, not_or,
          List.getLast?_cons_of_ne_nil (List.splitOn_ne_nil _ _)]
        simp [Ne.symm hnil]
    · have happ : name ++ c :: rest = (name ++ [c]) ++ rest := by simp
      rw [List.length_cons] at hlen
      rw [if_neg hc, happ]
      exact ih (by simp [hname, Ne.symm hc]) (by simp; omega)

/-- **There is no room for the file name** when it is long. -/
theorem pathSeparate_none (hlen : path.length < dfsPathMax) :
    pathSeparate path = none ↔ path.head? ≠ some '/' ∨ (fileName path).any isLong = true := by
  cases path with
  | nil => simp [pathSeparate]
  | cons c rest =>
    rw [pathSeparate, fileName]
    by_cases hc : c = '/'
    · rw [List.length_cons] at hlen
      rw [if_pos hc, separateFrom_none List.not_mem_nil (by simp; omega), List.nil_append]
      by_cases hmem : [] ∈ rest.splitOn '/'
      · simp [hmem, hc]
      · simp [hmem, hc]
    · simp [hc]

theorem fileName_mem (h : fileName path = some c) : c ∈ rawNames path := by
  cases path with
  | nil => cases h
  | cons a rest =>
    rw [fileName] at h
    obtain ⟨⟨ha, hmem⟩, hlast⟩ := Option.ite_none_right_eq_some.mp h
    cases rest with
    | nil => simp at hmem
    | cons b rest =>
      have hb : b ≠ '/' := by
        rintro rfl
        rw [← List.nil_append ('/' :: rest),
          List.splitOn_append_cons_self_of_not_mem List.not_mem_nil] at hmem
        exact hmem List.mem_cons_self
      have hdrop : (a :: b :: rest).dropWhile (· = '/') = b :: rest := by
        rw [List.dropWhile_cons_of_pos (by simpa using ha), List.dropWhile_cons_of_neg (by simpa using hb)]
      rw [rawNames, hdrop, if_neg (List.cons_ne_nil _ _)]
      exact List.mem_of_getLast? hlast

end

/-! ## Names and nodes -/

namespace Tmpfs

variable {α : Type} [DecidableEq α] {s s' : Tmpfs α} {d e f p x : α} {c nm pp path : List Char}
  {cs : List (List Char)}

variable (s) in
/-- **Each component is the name** of a node in the list of the one before. -/
def Named (d : α) : List (List Char) → α → Prop
  | [], f => f = d
  | c :: cs, f => ∃ e ∈ (s.file d).subdirs, bufText (s.file e).name = c ∧ Named e cs f

theorem lookup_passed : s.lookup path = s.walk s.root (passed path) := by
  have hfrom : ∀ {pre rest : List Char} {d : α}, '/' ∉ pre →
      s.lookupFrom d (pre ++ rest) rest = s.walk d (passedFrom (pre ++ rest) rest) := by
    intro pre rest
    induction rest generalizing pre with
    | nil =>
      intro d hpre
      have hget : getSubdir (pre ++ []) = pre := by
        rw [List.append_nil, ← find_splitOn, List.splitOn_eq_singleton hpre]
        by_cases hnil : pre = []
        · rw [hnil]
          rfl
        · rw [List.find?_cons_of_pos (by simpa using hnil)]
          rfl
      rw [lookupFrom, passedFrom, walk, hget, List.append_nil]
      cases s.child d pre with
      | none => rfl
      | some f => rfl
    | cons c rest ih =>
      intro d hpre
      rw [lookupFrom, passedFrom]
      by_cases hc : c = '/'
      · rw [if_pos hc, if_pos hc, walk]
        cases s.child d (getSubdir (pre ++ c :: rest)) with
        | none => rfl
        | some f =>
          dsimp only
          refine if_congr Iff.rfl ?_ rfl
          exact @ih [] _ List.not_mem_nil
      · have happ : pre ++ c :: rest = (pre ++ [c]) ++ rest := by simp
        rw [if_neg hc, if_neg hc, happ]
        exact ih (by simp [hpre, Ne.symm hc])
  unfold lookup passed
  cases path.dropWhile (· = '/') with
  | nil => rfl
  | cons c rest => exact @hfrom [] _ _ List.not_mem_nil

/-- The child with a name is unique. -/
theorem child_texts (hs : s.NamesInv) (hd : d ∈ s.live) :
    s.texts.child d c = some e ↔ e ∈ (s.file d).subdirs ∧ bufText (s.file e).name = c := by
  constructor
  · intro h
    have hname := List.find?_some h
    exact ⟨child_mem (s := s.texts) h, of_decide_eq_true hname⟩
  · rintro ⟨he, hc⟩
    cases h : s.texts.child d c with
    | none => exact absurd hc (child_none (s := s.texts) h e he)
    | some e' =>
      have hmem := child_mem (s := s.texts) h
      have hname := List.find?_some h
      have hname : bufText (s.file e').name = c := of_decide_eq_true hname
      exact congrArg some (List.inj_on_of_nodup_map (hs.names d hd) hmem he (hname.trans hc.symm))

/-- **A walk ends** at the node that has the names. -/
theorem walk_iff (hs : s.NamesInv) (hd : d ∈ s.live) :
    s.texts.walk d cs = some (some f) ↔ s.Named d cs f := by
  induction cs generalizing d with
  | nil =>
    rw [walk, Named]
    simp [eq_comm]
  | cons c cs ih =>
    rw [walk, Named]
    constructor
    · intro h
      by_cases hlen : c.length ≤ tmpfsNameMax
      · rw [if_pos hlen] at h
        cases he : s.texts.child d c with
        | none =>
          rw [he] at h
          cases h
        | some e =>
          rw [he] at h
          obtain ⟨hmem, hname⟩ := (child_texts hs hd).mp he
          exact ⟨e, hmem, hname, (ih (hs.live d hd e hmem)).mp h⟩
      · rw [if_neg hlen] at h
        cases h
    · rintro ⟨e, hmem, hname, hn⟩
      have hshort := (hs.stored d hd e hmem).short
      rw [hname] at hshort
      rw [if_pos hshort.le, (child_texts hs hd).mpr ⟨hmem, hname⟩]
      exact (ih (hs.live d hd e hmem)).mpr hn

/-- Names are short. -/
theorem Named.short (hs : s.NamesInv) (hd : d ∈ s.live) (h : s.Named d cs f) :
    ∀ c ∈ cs, isLong c = false := by
  induction cs generalizing d with
  | nil => exact List.forall_mem_nil _
  | cons c cs ih =>
    obtain ⟨e, hmem, hname, hn⟩ := h
    refine List.forall_mem_cons.mpr ⟨?_, ih (hs.live d hd e hmem) hn⟩
    have hshort := (hs.stored d hd e hmem).short
    rw [hname] at hshort
    unfold isLong
    rw [decide_eq_false_iff_not]
    omega

/-- **A walk writes past the buffer** at the first long name, when that is longer than the buffer. -/
theorem walk_none (hs : s.NamesInv) (hd : d ∈ s.live) (h : s.texts.walk d cs = none) :
    ∃ c, cs.find? isLong = some c ∧ tmpfsNameMax < c.length := by
  induction cs generalizing d with
  | nil => cases h
  | cons c cs ih =>
    rw [walk] at h
    by_cases hlen : c.length ≤ tmpfsNameMax
    · rw [if_pos hlen] at h
      cases he : s.texts.child d c with
      | none =>
        rw [he] at h
        cases h
      | some e =>
        rw [he] at h
        obtain ⟨hmem, hname⟩ := (child_texts hs hd).mp he
        obtain ⟨c', hc', hlt⟩ := ih (hs.live d hd e hmem) h
        have hshort := (hs.stored d hd e hmem).short
        rw [hname] at hshort
        refine ⟨c', ?_, hlt⟩
        rw [List.find?_cons_of_neg (by simpa [isLong] using hshort)]
        exact hc'
    · refine ⟨c, List.find?_cons_of_pos (decide_eq_true (by omega)), by omega⟩

/-! ## What the calls write -/

theorem strncpy_text (hc : nulChar ∉ c) (hlen : c.length < tmpfsNameMax) {buf : List Char}
    (hb : bufText buf = c) : bufText (strncpy buf) = c ∧ nulChar ∈ strncpy buf := by
  have heq : strncpy buf = c ++ List.replicate (tmpfsNameMax - c.length) nulChar := by
    unfold strncpy
    rw [hb, List.take_of_length_le hlen.le]
  rw [heq]
  refine ⟨bufText_pad hc _, List.mem_append_right _ ?_⟩
  exact List.mem_replicate.mpr ⟨by omega, rfl⟩

theorem lookupBuf_ok {path : TmpfsPath} {r : Option α} (hs : s.NamesInv) :
    s.lookupBuf path.chars = .ok r ↔ s.texts.lookup path.chars = some r := by
  rw [lookupBuf_eq hs path.no_nul]
  cases s.texts.lookup path.chars with
  | none => simp
  | some r => simp

theorem lookupBuf_overrun {path : TmpfsPath} (hs : s.NamesInv) :
    s.lookupBuf path.chars = .error .overrun ↔ s.texts.lookup path.chars = none := by
  rw [lookupBuf_eq hs path.no_nul]
  cases s.texts.lookup path.chars with
  | none => simp
  | some r => simp

/-- The parent of a path can be looked up when the path can. -/
theorem lookup_parent_some (h : pathSeparate path = some (some (pp, nm)))
    (hl : s.lookup path ≠ none) : s.lookup pp ≠ none := by
  obtain ⟨cs, hall, -, hpath, hpp⟩ := separate_spec h
  have hwalk : ∀ {cs : List (List Char)} {d : α}, s.walk d cs = none → s.walk d (cs ++ [nm]) = none := by
    intro cs
    induction cs with
    | nil => intro d h; cases h
    | cons c cs ih =>
      intro d h
      rw [List.cons_append, walk]
      rw [walk] at h
      split
      · rename_i hlen
        rw [if_pos hlen] at h
        cases hc : s.child d c with
        | none =>
          rw [hc] at h
          cases h
        | some e =>
          rw [hc] at h
          exact ih h
      · rfl
  intro hnone
  rw [lookup_parent (fun c hc => hall c (List.mem_append_left _ hc)) hpp] at hnone
  rw [hpath, lookup_slashed hall] at hl
  exact hl (hwalk hnone)

/-- **The scan of a new path**, once it has not been found: it stays in the buffers unless the file name
is long, and then the parent is looked up. -/
theorem separate_cases {path : TmpfsPath} (b : PathBufs) (hs : s.NamesInv)
    (hl : s.texts.lookup path.chars = some none) :
    (∃ e, separateBuf b path.chars = .error e ∧
      (e = .overrun → (fileName path.chars).any isLong = true)) ∨
    (∃ r, separateBuf b path.chars = .ok r ∧ r.2.head? = some nulChar) ∨
    ∃ r pp nm o, separateBuf b path.chars = .ok r ∧ r.2.head? ≠ some nulChar ∧
      pathSeparate path.chars = some (some (pp, nm)) ∧ s.lookupBuf (bufText r.1) = .ok o ∧
      s.texts.lookup pp = some o ∧ bufText r.2 = nm := by
  rcases separateBuf_eq b path.no_nul path.short with ⟨h1, h2⟩ | ⟨-, r, h2, h3⟩ |
    ⟨pp, nm, r, h1, h2, h3, h4, h5, h6⟩
  · refine .inl ⟨_, h2, fun he => ?_⟩
    rcases (pathSeparate_none path.short).mp h1 with h | h
    · rw [if_neg h] at he
      cases he
    · exact h
  · exact .inr (.inl ⟨r, h2, h3⟩)
  · refine .inr (.inr ⟨r, pp, nm, ?_⟩)
    have hsome := lookup_parent_some (s := s.texts) h1 (by rw [hl]; exact Option.some_ne_none _)
    obtain ⟨o, ho⟩ := Option.ne_none_iff_exists'.mp hsome
    refine ⟨o, h2, h3, h1, ?_, ho, h5⟩
    rw [h4, lookupBuf_eq hs h6, ho]

/-- What `dfs_tmpfs_open` leaves. -/
inductive OpenEnd (s : Tmpfs α) (path : TmpfsPath) (directory : Bool) (mem : Option α) :
    Except TmpfsFault (ℤ × Tmpfs α) → Prop
  | same (ret : ℤ) : OpenEnd s path directory mem (.ok (ret, s))
  | fault (e : TmpfsFault) (h : e = .overrun → s.texts.lookup path.chars = none ∨
      (fileName path.chars).any isLong = true) : OpenEnd s path directory mem (.error e)
  | created (p x : α) (pp nm buf : List Char) (hx : mem = some x)
      (hl : s.texts.lookup path.chars = some none)
      (hsep : pathSeparate path.chars = some (some (pp, nm)))
      (hp : s.texts.lookup pp = some (some p)) (hbuf : bufText buf = nm) :
      OpenEnd s path directory mem (.ok (0, s.create p x (strncpy buf) directory))

theorem openBuf_cases (path : TmpfsPath) (hs : s.NamesInv) (b : PathBufs) (refCount : ℕ)
    (isDir creat directory : Bool) (mem : Option α) :
    OpenEnd s path directory mem (s.openBuf b refCount isDir path.chars creat directory mem) := by
  unfold openBuf
  by_cases h0 : refCount = 0
  · rw [if_pos h0]
    exact .fault _ fun he => by cases he
  rw [if_neg h0]
  by_cases h1 : 1 < refCount
  · rw [if_pos h1]
    exact .same _
  rw [if_neg h1]
  cases hl : s.texts.lookup path.chars with
  | none =>
    rw [(lookupBuf_overrun hs).mpr hl]
    exact .fault _ fun _ => .inl hl
  | some d =>
    rw [(lookupBuf_ok hs).mpr hl, ok_bind]
    cases d with
    | some d => exact .same _
    | none =>
      cases creat with
      | false => exact .same _
      | true =>
        dsimp only
        rw [if_pos rfl]
        rcases separate_cases b hs hl with ⟨e, h2, h3⟩ | ⟨r, h2, h3⟩ |
          ⟨r, pp, nm, o, h2, h3, h4, h5, h6, h7⟩
        · rw [h2]
          exact .fault _ fun he => .inr (h3 he)
        · rw [h2, ok_bind, if_pos h3]
          exact .same _
        · rw [h2, ok_bind, if_neg h3, h5, ok_bind]
          cases o with
          | none => exact .same _
          | some p =>
            cases mem with
            | none => exact .same _
            | some x => exact .created p x pp nm r.2 rfl hl h4 h6 h7

/-- What `dfs_tmpfs_rename` leaves. -/
inductive RenameEnd (s : Tmpfs α) (oldpath newpath : TmpfsPath) :
    Except TmpfsFault (ℤ × Tmpfs α) → Prop
  | same (ret : ℤ) : ret ≠ 0 → RenameEnd s oldpath newpath (.ok (ret, s))
  | fault (e : TmpfsFault) (h : e = .overrun → s.texts.lookup newpath.chars = none ∨
      s.texts.lookup oldpath.chars = none ∨ (fileName newpath.chars).any isLong = true) :
      RenameEnd s oldpath newpath (.error e)
  | renamed (p x : α) (pp nm buf : List Char) (hl : s.texts.lookup newpath.chars = some none)
      (hx : s.texts.lookup oldpath.chars = some (some x))
      (hsep : pathSeparate newpath.chars = some (some (pp, nm)))
      (hp : s.texts.lookup pp = some (some p)) (hbuf : bufText buf = nm) :
      RenameEnd s oldpath newpath (.ok (0, (s.detach x).attach p x (strncpy buf)))

theorem renameBuf_cases (hs : s.NamesInv) (b : PathBufs) (oldpath newpath : TmpfsPath) :
    RenameEnd s oldpath newpath (s.renameBuf b oldpath.chars newpath.chars) := by
  unfold renameBuf
  cases hl : s.texts.lookup newpath.chars with
  | none =>
    rw [(lookupBuf_overrun hs).mpr hl]
    exact .fault _ fun _ => .inl hl
  | some d =>
    rw [(lookupBuf_ok hs).mpr hl, ok_bind]
    cases d with
    | some d => exact .same _ (by decide)
    | none =>
      dsimp only
      cases hx : s.texts.lookup oldpath.chars with
      | none =>
        rw [(lookupBuf_overrun hs).mpr hx]
        exact .fault _ fun _ => .inr (.inl hx)
      | some x =>
        rw [(lookupBuf_ok hs).mpr hx, ok_bind]
        cases x with
        | none => exact .same _ (by decide)
        | some x =>
          dsimp only
          rcases separate_cases b hs hl with ⟨e, h2, h3⟩ | ⟨r, h2, h3⟩ |
            ⟨r, pp, nm, o, h2, h3, h4, h5, h6, h7⟩
          · rw [h2]
            exact .fault _ fun he => .inr (.inr (h3 he))
          · rw [h2, ok_bind, if_pos h3]
            exact .same _ (by decide)
          · rw [h2, ok_bind, if_neg h3, h5, ok_bind]
            cases o with
            | none => exact .fault _ fun he => by cases he
            | some p => exact .renamed p x pp nm r.2 hl hx h4 h6 h7

/-! ## Every run -/

theorem lookup_mem (hs : s.NamesInv) (h : s.texts.lookup path = some (some p)) : p ∈ s.live := by
  have hreach := lookup_reach h
  clear h
  induction hreach with
  | refl => exact hs.root
  | tail _ hst ih => exact hs.live _ ih _ hst

/-- The node that a path creates or renames: its new name, and its parent. -/
theorem separate_stored {path : TmpfsPath} {buf : List Char} (hs : s.NamesInv)
    (hl : s.texts.lookup path.chars = some none)
    (hsep : pathSeparate path.chars = some (some (pp, nm)))
    (hp : s.texts.lookup pp = some (some p)) (hbuf : bufText buf = nm) :
    p ∈ s.live ∧ s.texts.child p nm = none ∧ bufText (strncpy buf) = nm ∧ Stored (strncpy buf) ∧
      (components '/' path.chars).getLast? = some nm := by
  obtain ⟨cs, hall, hlen, hpath, -⟩ := separate_spec hsep
  have hnul : nulChar ∉ nm := by
    intro h
    refine path.no_nul ?_
    rw [hpath]
    exact mem_slashed (List.mem_append_right _ (List.mem_singleton_self nm)) h
  obtain ⟨htext, hmem⟩ := strncpy_text hnul hlen hbuf
  refine ⟨lookup_mem hs hp, ?_, htext, ⟨hmem, ?_, ?_⟩, ?_⟩
  · exact Option.some.inj ((lookup_separate hsep hp).symm.trans hl)
  · rw [htext]
    exact hlen
  · rw [htext]
    exact hall nm (List.mem_append_right _ (List.mem_singleton_self nm))
  · have hcomp : components '/' path.chars = cs ++ [nm] := by
      rw [hpath]
      exact components_flatMap hall
    rw [hcomp, List.getLast?_concat]

theorem create_subdirs {directory : Bool} {name : List Char} :
    ((s.create p x name directory).file d).subdirs =
      if d = x then [] else if d = p then x :: (s.file p).subdirs else (s.file d).subdirs := by
  unfold create
  dsimp only
  split
  · rfl
  · split <;> rfl

theorem attach_subdirs {name : List Char} :
    (((s.detach x).attach p x name).file d).subdirs =
      if d = p then x :: (s.file d).subdirs.filter (· ≠ x) else (s.file d).subdirs.filter (· ≠ x) := rfl

theorem texts_create {directory : Bool} {name : List Char} :
    (s.create p x name directory).texts = s.texts.create p x (bufText name) directory := by
  unfold texts create
  refine congrArg (Tmpfs.mk _ · _) (funext fun d => ?_)
  dsimp only
  split
  · rfl
  · split <;> rfl

theorem texts_attach {name : List Char} :
    ((s.detach x).attach p x name).texts = (s.texts.detach x).attach p x (bufText name) := by
  unfold texts detach attach
  refine congrArg (Tmpfs.mk _ · _) (funext fun d => ?_)
  dsimp only
  split <;> rfl

theorem NamesInv.create {directory : Bool} {name : List Char} (hs : s.NamesInv) (hp : p ∈ s.live)
    (hx : x ∉ s.live) (hname : Stored name) (hchild : s.texts.child p (bufText name) = none) :
    (s.create p x name directory).NamesInv := by
  have hmem : ∀ d ∈ insert x s.live, ∀ f ∈ ((s.create p x name directory).file d).subdirs,
      f = x ∨ ∃ d ∈ s.live, f ∈ (s.file d).subdirs := by
    intro d hd f hf
    rw [create_subdirs] at hf
    by_cases hdx : d = x
    · rw [if_pos hdx] at hf
      cases hf
    · rw [if_neg hdx] at hf
      by_cases hdp : d = p
      · rw [if_pos hdp] at hf
        exact (List.mem_cons.mp hf).imp id fun h => ⟨p, hp, h⟩
      · rw [if_neg hdp] at hf
        exact .inr ⟨d, (Finset.mem_insert.mp hd).resolve_left hdx, hf⟩
  refine ⟨Finset.mem_insert_of_mem hs.root, fun d hd f hf => ?_, fun d hd f hf => ?_, ?_⟩
  · rcases hmem d hd f hf with rfl | ⟨e, he, hfe⟩
    · exact Finset.mem_insert_self _ _
    · exact Finset.mem_insert_of_mem (hs.live e he f hfe)
  · rcases hmem d hd f hf with rfl | ⟨e, he, hfe⟩
    · have hself : ((s.create p f name directory).file f).name = name := by
        unfold Tmpfs.create
        dsimp only
        rw [if_pos rfl]
      rw [hself]
      exact hname
    · have hne : f ≠ x := fun h => hx (h ▸ hs.live e he f hfe)
      rw [create_file_name hne]
      exact hs.stored e he f hfe
  · have hnames := create_names (s := s.texts) directory hp hx hs.live hchild hs.names
    rw [← texts_create] at hnames
    exact hnames

theorem NamesInv.unlink (hs : s.NamesInv) (hx : x ≠ s.root) :
    ({ s.detach x with live := s.live.erase x } : Tmpfs α).NamesInv := by
  have hmem : ∀ d f, f ∈ ((s.detach x).file d).subdirs → f ∈ (s.file d).subdirs ∧ f ≠ x := by
    intro d f hf
    simpa [detach] using hf
  refine ⟨Finset.mem_erase.mpr ⟨Ne.symm hx, hs.root⟩, fun d hd f hf => ?_, fun d hd f hf => ?_,
    fun d hd => ?_⟩
  · obtain ⟨hf, hne⟩ := hmem d f hf
    exact Finset.mem_erase.mpr ⟨hne, hs.live d (Finset.mem_of_mem_erase hd) f hf⟩
  · exact hs.stored d (Finset.mem_of_mem_erase hd) f (hmem d f hf).1
  · exact (hs.names d (Finset.mem_of_mem_erase hd)).sublist (List.filter_sublist.map _)

theorem NamesInv.rename {name : List Char} (hs : s.NamesInv) (hx : x ∈ s.live)
    (hname : Stored name) (hchild : s.texts.child p (bufText name) = none) :
    ((s.detach x).attach p x name).NamesInv := by
  have hmem : ∀ d ∈ s.live, ∀ f ∈ (((s.detach x).attach p x name).file d).subdirs,
      f = x ∨ f ∈ (s.file d).subdirs ∧ f ≠ x := by
    intro d hd f hf
    rw [attach_subdirs] at hf
    have hfilter : f ∈ (s.file d).subdirs.filter (· ≠ x) → f ∈ (s.file d).subdirs ∧ f ≠ x := by
      intro h
      simpa using h
    split at hf
    · exact (List.mem_cons.mp hf).imp id hfilter
    · exact .inr (hfilter hf)
  refine ⟨hs.root, fun d hd f hf => ?_, fun d hd f hf => ?_, ?_⟩
  · rcases hmem d hd f hf with rfl | ⟨h, -⟩
    · exact hx
    · exact hs.live d hd f h
  · rcases hmem d hd f hf with rfl | ⟨h, hne⟩
    · have hself : (((s.detach f).attach p f name).file f).name = name := if_pos rfl
      rw [hself]
      exact hname
    · have hother : (((s.detach x).attach p x name).file f).name = (s.file f).name := if_neg hne
      rw [hother]
      exact hs.stored d hd f h
  · have hnames := rename_names (s := s.texts) (x := x) hchild hs.names
    rw [← texts_attach] at hnames
    exact hnames

theorem NamesInv.call {k : TmpfsBufCall α} {ret : ℤ} (hs : s.NamesInv) (hen : s.enabledBuf k = true)
    (h : s.callBuf k = .ok (ret, s')) : s'.NamesInv := by
  cases k with
  | «open» b refCount isDir path creat directory mem =>
    have hend := openBuf_cases path hs b refCount isDir creat directory mem
    have he : s.openBuf b refCount isDir path.chars creat directory mem = .ok (ret, s') := h
    rw [he] at hend
    cases hend with
    | same => exact hs
    | created p x pp nm buf hx hl hsep hp hbuf =>
      obtain ⟨hpl, hchild, htext, hst, -⟩ := separate_stored hs hl hsep hp hbuf
      have hxl : x ∉ s.live := by simpa [enabledBuf, hx] using hen
      exact hs.create hpl hxl hst (htext.symm ▸ hchild)
  | unlink path =>
    have he : s.unlinkBuf path.chars = .ok (ret, s') := h
    unfold unlinkBuf at he
    cases hl : s.lookupBuf path.chars with
    | error e =>
      rw [hl] at he
      cases he
    | ok x =>
      rw [hl, ok_bind] at he
      cases x with
      | none =>
        cases he
        exact hs
      | some x =>
        dsimp only at he
        by_cases hx : x = s.root
        · rw [if_pos hx] at he
          cases he
        · rw [if_neg hx] at he
          cases he
          exact hs.unlink hx
  | rename b oldpath newpath =>
    have hend := renameBuf_cases hs b oldpath newpath
    have he : s.renameBuf b oldpath.chars newpath.chars = .ok (ret, s') := h
    rw [he] at hend
    cases hend with
    | same => exact hs
    | renamed p x pp nm buf hl hx hsep hp hbuf =>
      obtain ⟨-, hchild, htext, hst, -⟩ := separate_stored hs hl hsep hp hbuf
      exact hs.rename (lookup_mem hs hx) hst (htext.symm ▸ hchild)

theorem NamesInv.init (h : (tmpfsBufSystem α).init s) : s.NamesInv := by
  obtain ⟨hlive, hroot⟩ := h
  have hempty : ∀ d ∈ s.live, (s.file d).subdirs = [] := by
    intro d hd
    rw [hlive, Finset.mem_singleton] at hd
    rw [hd, hroot]
  refine ⟨?_, fun d hd f hf => ?_, fun d hd f hf => ?_, fun d hd => ?_⟩
  · rw [hlive]
    exact Finset.mem_singleton_self _
  · rw [hempty d hd] at hf
    cases hf
  · rw [hempty d hd] at hf
    cases hf
  · rw [hempty d hd]
    exact List.nodup_nil

theorem step_some {k : TmpfsBufCall α} (h : (tmpfsBufSystem α).step s k = some s') :
    s.enabledBuf k = true ∧ ∃ ret, s.callBuf k = .ok (ret, s') := by
  obtain ⟨hen, h⟩ := Option.ite_none_right_eq_some.mp h
  obtain ⟨r, hr, rfl⟩ := Option.map_eq_some_iff.mp h
  refine ⟨hen, r.1, ?_⟩
  cases hc : s.callBuf k with
  | error e =>
    rw [hc] at hr
    cases hr
  | ok r' =>
    rw [hc] at hr
    cases hr
    rfl

/-- **Every run keeps the names.** -/
theorem names_of_reach (h : (tmpfsBufSystem α).Reach System.anyStep s) : s.NamesInv := by
  refine h.invariant (I := NamesInv) (fun s hs => NamesInv.init hs) fun s k s' hs _ hst => ?_
  obtain ⟨hen, ret, hc⟩ := step_some hst
  exact hs.call hen hc

/-! ## The property of a path -/

variable (s) in
/-- **What is claimed of a path**: no call on it writes past a buffer, what a call creates or renames has
its last component as its name, with the NUL, and a lookup finds what has its components as names. -/
structure PathSafe (path : TmpfsPath) : Prop where
  lookup : ∃ r, s.lookupBuf path.chars = .ok r
  finds : ∀ f, s.lookupBuf path.chars = .ok (some f) ↔ s.Named s.root (components '/' path.chars) f
  opened : ∀ b refCount isDir creat directory mem,
    s.openBuf b refCount isDir path.chars creat directory mem ≠ .error .overrun
  created : ∀ b refCount isDir creat directory x ret s', x ∉ s.live →
    s.openBuf b refCount isDir path.chars creat directory (some x) = .ok (ret, s') → x ∈ s'.live →
    nulChar ∈ (s'.file x).name ∧
      (components '/' path.chars).getLast? = some (bufText (s'.file x).name)
  renameTo : ∀ b (oldpath : TmpfsPath), (∃ r, s.lookupBuf oldpath.chars = .ok r) →
    s.renameBuf b oldpath.chars path.chars ≠ .error .overrun
  renamed : ∀ b (oldpath : TmpfsPath) s', s.renameBuf b oldpath.chars path.chars = .ok (0, s') →
    ∃ x, s.lookupBuf oldpath.chars = .ok (some x) ∧ nulChar ∈ (s'.file x).name ∧
      (components '/' path.chars).getLast? = some (bufText (s'.file x).name)
  renameFrom : ∀ b (newpath : TmpfsPath), (∃ r, s.lookupBuf newpath.chars = .ok r) →
    (fileName newpath.chars).any isLong = false →
    s.renameBuf b path.chars newpath.chars ≠ .error .overrun

theorem safe_of_ok {path : TmpfsPath} (hs : s.NamesInv) (hok : path.ok = true) : s.PathSafe path := by
  have hfind : (passed path.chars).find? isLong = (rawNames path.chars).find? isLong := by
    rw [passed_eq, find_fillNames]
  have hsome : s.texts.lookup path.chars ≠ none := by
    intro h
    rw [lookup_passed] at h
    obtain ⟨c, hc, hlt⟩ := walk_none hs hs.root h
    rw [hfind] at hc
    unfold TmpfsPath.ok at hok
    rw [hc] at hok
    have := of_decide_eq_true (Bool.and_eq_true_iff.mp hok).1
    omega
  have hname : (fileName path.chars).any isLong = false := by
    unfold TmpfsPath.ok at hok
    cases hc : (rawNames path.chars).find? isLong with
    | none =>
      cases hnm : fileName path.chars with
      | none => rfl
      | some nm => simpa using List.find?_eq_none.mp hc nm (fileName_mem hnm)
    | some c =>
      rw [hc] at hok
      simpa using (Bool.and_eq_true_iff.mp hok).2
  have hoverrun : ¬ (s.texts.lookup path.chars = none ∨ (fileName path.chars).any isLong = true) := by
    rintro (h | h)
    · exact hsome h
    · rw [hname] at h
      cases h
  obtain ⟨r, hr⟩ := Option.ne_none_iff_exists'.mp hsome
  refine ⟨⟨r, (lookupBuf_ok hs).mpr hr⟩, fun f => ?_, ?_, ?_, ?_, ?_, ?_⟩
  · rw [lookupBuf_ok hs, lookup_passed, walk_iff hs (show s.texts.root ∈ s.live from hs.root)]
    unfold TmpfsPath.ok at hok
    cases hc : (rawNames path.chars).find? isLong with
    | none =>
      rw [hc] at hok
      have hmem := of_decide_eq_true hok
      have hfilter : (rawNames path.chars).filter (· ≠ []) = rawNames path.chars := by
        rw [List.filter_eq_self]
        intro c hcm
        exact decide_eq_true fun he => hmem (he ▸ hcm)
      rw [passed_eq, fillNames_self hmem, components_eq, hfilter]
      rfl
    | some c =>
      have hlong := List.find?_some hc
      have hcmem : c ∈ components '/' path.chars := by
        rw [components_eq, List.mem_filter]
        exact ⟨List.mem_of_find?_eq_some hc, by simpa using isLong_ne_nil hlong⟩
      rw [← hfind] at hc
      constructor
      · intro h
        have := h.short hs hs.root c (List.mem_of_find?_eq_some hc)
        rw [hlong] at this
        cases this
      · intro h
        have := h.short hs hs.root c hcmem
        rw [hlong] at this
        cases this
  · intro b refCount isDir creat directory mem he
    have hend := openBuf_cases path hs b refCount isDir creat directory mem
    rw [he] at hend
    cases hend with
    | fault _ h => exact hoverrun (h rfl)
  · intro b refCount isDir creat directory x ret s' hx he hlive
    have hend := openBuf_cases path hs b refCount isDir creat directory (some x)
    rw [he] at hend
    cases hend with
    | same => exact absurd hlive hx
    | created p x' pp nm buf hx' hl hsep hp hbuf =>
      cases hx'
      obtain ⟨-, -, htext, hst, hlast⟩ := separate_stored hs hl hsep hp hbuf
      have hself : ((s.create p x (strncpy buf) directory).file x).name = strncpy buf := by
        unfold Tmpfs.create
        dsimp only
        rw [if_pos rfl]
      rw [hself]
      exact ⟨hst.nul, hlast.trans (congrArg some htext.symm)⟩
  · intro b oldpath ⟨r', hr'⟩ he
    have hend := renameBuf_cases hs b oldpath path
    rw [he] at hend
    cases hend with
    | fault _ h =>
      rcases h rfl with h | h | h
      · exact hoverrun (.inl h)
      · rw [(lookupBuf_overrun hs).mpr h] at hr'
        cases hr'
      · exact hoverrun (.inr h)
  · intro b oldpath s' he
    have hend := renameBuf_cases hs b oldpath path
    rw [he] at hend
    cases hend with
    | same _ h => exact absurd rfl h
    | renamed p x pp nm buf hl hx hsep hp hbuf =>
      obtain ⟨-, -, htext, hst, hlast⟩ := separate_stored hs hl hsep hp hbuf
      have hself : (((s.detach x).attach p x (strncpy buf)).file x).name = strncpy buf := if_pos rfl
      refine ⟨x, (lookupBuf_ok hs).mpr hx, ?_⟩
      rw [hself]
      exact ⟨hst.nul, hlast.trans (congrArg some htext.symm)⟩
  · intro b newpath ⟨r', hr'⟩ hfit he
    have hend := renameBuf_cases hs b path newpath
    rw [he] at hend
    cases hend with
    | fault _ h =>
      rcases h rfl with h | h | h
      · rw [(lookupBuf_overrun hs).mpr h] at hr'
        cases hr'
      · exact hsome h
      · rw [hfit] at h
        cases h

/-! ## Chains of directories -/

/-- A name that can be stored. -/
structure ShortName (c : List Char) : Prop where
  word : IsWord c
  no_nul : nulChar ∉ c
  short : c.length < tmpfsNameMax

theorem separateFrom_skip {parent name w rest : List Char} (hw : '/' ∉ w) :
    separateFrom parent name (w ++ rest) = separateFrom parent (name ++ w) rest := by
  induction w generalizing name with
  | nil => rw [List.nil_append, List.append_nil]
  | cons a w ih =>
    rw [List.mem_cons, not_or] at hw
    rw [List.cons_append, separateFrom, if_neg (Ne.symm hw.1), ih hw.2, List.append_assoc,
      List.singleton_append]

/-- **A path of components is taken apart** into its parent and the last one. -/
theorem pathSeparate_slashed (hall : ∀ c ∈ cs ++ [nm], IsWord c) (hlen : nm.length < tmpfsNameMax)
    (hpp : (slashed cs).length < dfsPathMax) :
    pathSeparate (slashed (cs ++ [nm])) =
      some (some (if slashed cs = [] then ['/'] else slashed cs, nm)) := by
  have hfrom : ∀ {cs : List (List Char)} {parent rest : List Char}, (∀ c ∈ cs ++ [nm], IsWord c) →
      (parent ++ slashed cs).length < dfsPathMax → '/' :: rest = slashed (cs ++ [nm]) →
      separateFrom parent [] rest =
        some (some (if parent ++ slashed cs = [] then ['/'] else parent ++ slashed cs, nm)) := by
    intro cs
    induction cs with
    | nil =>
      intro parent rest hall hlt hrest
      have hnm := hall nm List.mem_cons_self
      have heq : rest = nm ++ [] := (List.cons.inj hrest).2
      rw [heq, separateFrom_skip hnm.2, List.nil_append, separateFrom, if_neg hnm.1]
      rw [slashed_nil, List.append_nil] at hlt ⊢
      rw [if_pos ⟨hlt, hlen⟩]
    | cons c cs ih =>
      intro parent rest hall hlt hrest
      have hc := hall c List.mem_cons_self
      have heq : rest = c ++ slashed (cs ++ [nm]) := (List.cons.inj hrest).2
      have happ : parent ++ slashed (c :: cs) = parent ++ '/' :: c ++ slashed cs := by simp
      obtain ⟨rest', hrest'⟩ : ∃ rest', slashed (cs ++ [nm]) = '/' :: rest' := by
        cases cs with
        | nil => exact ⟨_, rfl⟩
        | cons d cs => exact ⟨_, rfl⟩
      rw [happ] at hlt ⊢
      rw [heq, separateFrom_skip hc.2, List.nil_append, hrest', separateFrom, if_pos rfl, if_neg hc.1]
      exact ih (fun d hd => hall d (List.mem_cons_of_mem _ hd)) hlt hrest'.symm
  obtain ⟨rest, hrest⟩ : ∃ rest, slashed (cs ++ [nm]) = '/' :: rest := by
    cases cs with
    | nil => exact ⟨_, rfl⟩
    | cons d cs => exact ⟨_, rfl⟩
  rw [hrest, pathSeparate, if_pos rfl, hfrom hall hpp hrest.symm, List.nil_append]

/-- The path with short names. -/
theorem exists_path (hcs : ∀ c ∈ cs, ShortName c) (hlen : (slashed cs).length < dfsPathMax) :
    ∃ path : TmpfsPath, path.chars = slashed cs := by
  refine ⟨⟨slashed cs, fun h => ?_, hlen⟩, rfl⟩
  obtain ⟨c, hc, hmem⟩ := List.mem_flatMap.mp h
  rcases List.mem_cons.mp hmem with h | h
  · exact absurd h (by decide)
  · exact (hcs c hc).no_nul h

/-- Arrays on the stack. -/
def stackBufs : PathBufs where
  parent := List.replicate dfsPathMax nulChar
  name := List.replicate tmpfsNameMax nulChar
  parent_length := List.length_replicate
  name_length := List.length_replicate

/-- The buffers of a path that is taken apart, and the lookup of its parent. -/
theorem separateBuf_some {path : TmpfsPath} {o : Option α} (b : PathBufs) (hs : s.NamesInv)
    (h : pathSeparate path.chars = some (some (pp, nm))) (ho : s.texts.lookup pp = some o) :
    ∃ r, separateBuf b path.chars = .ok r ∧ r.2.head? ≠ some nulChar ∧
      s.lookupBuf (bufText r.1) = .ok o ∧ bufText r.2 = nm := by
  rcases separateBuf_eq b path.no_nul path.short with ⟨h1, -⟩ | ⟨h1, -⟩ |
    ⟨pp', nm', r, h1, h2, h3, h4, h5, h6⟩
  · rw [h] at h1
    cases h1
  · rw [h] at h1
    cases h1
  · rw [h] at h1
    cases h1
    refine ⟨r, h2, h3, ?_, h5⟩
    rw [h4, lookupBuf_eq hs h6, ho]

theorem reach_call {k : TmpfsBufCall α} {ret : ℤ} (h : (tmpfsBufSystem α).Reach System.anyStep s)
    (hen : s.enabledBuf k = true) (hk : s.callBuf k = .ok (ret, s')) :
    (tmpfsBufSystem α).Reach System.anyStep s' := by
  refine h.step (a := k) rfl ?_
  show (if s.enabledBuf k then _ else none) = _
  rw [if_pos hen, hk]
  rfl

/-- **A directory or a file is made** below the directory that the names lead to. -/
theorem create_reach (directory : Bool) (h : (tmpfsBufSystem α).Reach System.anyStep s)
    (hall : ∀ c ∈ cs ++ [nm], ShortName c) (hlen : (slashed (cs ++ [nm])).length < dfsPathMax)
    (hp : s.texts.walk s.root cs = some (some p)) (hchild : s.texts.child p nm = none) (hx : x ∉ s.live) :
    ∃ buf, bufText buf = nm ∧ (tmpfsBufSystem α).Reach System.anyStep (s.create p x buf directory) := by
  have hs := names_of_reach h
  have hwords : ∀ c ∈ cs ++ [nm], IsWord c := fun c hc => (hall c hc).word
  have hnm := hall nm (List.mem_append_right _ (List.mem_singleton_self nm))
  obtain ⟨path, hpath⟩ := exists_path hall hlen
  have hlt : (slashed cs).length < dfsPathMax := by
    rw [slashed_append, List.length_append] at hlen
    omega
  have hsep := pathSeparate_slashed hwords hnm.short hlt
  have hl : s.texts.lookup path.chars = some none := by
    rw [hpath, lookup_slashed hwords, ← hchild]
    exact walk_concat hp hnm.short.le
  have hpp : s.texts.lookup (if slashed cs = [] then ['/'] else slashed cs) = some (some p) :=
    (lookup_parent (fun c hc => hwords c (List.mem_append_left _ hc)) rfl).trans hp
  rw [← hpath] at hsep
  obtain ⟨r, h1, h2, h3, h4⟩ := separateBuf_some stackBufs hs hsep hpp
  have hopen : s.callBuf (.open stackBufs 1 false path true directory (some x)) =
      .ok (0, s.create p x (strncpy r.2) directory) := by
    unfold callBuf openBuf
    dsimp only
    rw [if_neg (by decide), if_neg (by decide), (lookupBuf_ok hs).mpr hl, ok_bind]
    dsimp only
    rw [if_pos rfl, h1, ok_bind, if_neg h2, h3, ok_bind]
  have hen : s.enabledBuf (.open stackBufs 1 false path true directory (some x)) = true := by
    simpa [enabledBuf] using hx
  exact ⟨strncpy r.2, (strncpy_text hnm.no_nul hnm.short h4).1, reach_call h hen hopen⟩

/-- **A directory of the root is moved** below another one. -/
theorem rename_reach {t n c : List Char} (h : (tmpfsBufSystem α).Reach System.anyStep s)
    (ht : ShortName t) (hn : ShortName n) (hc : ShortName c)
    (hx : s.texts.child s.root t = some x) (hp : s.texts.child s.root n = some p)
    (hchild : s.texts.child p c = none) :
    ∃ buf, bufText buf = c ∧
      (tmpfsBufSystem α).Reach System.anyStep ((s.detach x).attach p x buf) := by
  have hs := names_of_reach h
  have hall : ∀ e ∈ [n] ++ [c], ShortName e := by
    intro e he
    simp only [List.singleton_append, List.mem_cons, List.not_mem_nil, or_false] at he
    rcases he with rfl | rfl
    · exact hn
    · exact hc
  have hold : ∀ e ∈ [t], ShortName e := fun e he => List.mem_singleton.mp he ▸ ht
  have hwords : ∀ e ∈ [n] ++ [c], IsWord e := fun e he => (hall e he).word
  have hn1 : n.length < 32 := hn.short
  have hc1 : c.length < 32 := hc.short
  have ht1 : t.length < 32 := ht.short
  have hlen : (slashed ([n] ++ [c])).length < dfsPathMax := by
    have : (slashed ([n] ++ [c])).length = n.length + (c.length + 1) + 1 := by simp [slashed]
    rw [this, dfsPathMax]
    omega
  obtain ⟨newpath, hnew⟩ := exists_path hall hlen
  obtain ⟨oldpath, holdp⟩ := exists_path hold (by
    have : (slashed [t]).length = t.length + 1 := by simp [slashed]
    rw [this, dfsPathMax]
    omega)
  have hroot : ∀ {e : List Char} {f : α}, ShortName e → s.texts.child s.root e = some f →
      s.texts.walk s.root [e] = some (some f) := by
    intro e f he hf
    rw [walk, if_pos he.short.le, hf]
    rfl
  have hl : s.texts.lookup newpath.chars = some none := by
    rw [hnew, lookup_slashed hwords, ← hchild]
    exact walk_concat (hroot hn hp) hc.short.le
  have hlx : s.texts.lookup oldpath.chars = some (some x) := by
    rw [holdp, lookup_slashed fun e he => (hold e he).word]
    exact hroot ht hx
  have hsep : pathSeparate (slashed ([n] ++ [c])) = _ := pathSeparate_slashed hwords hc.short (by
    rw [slashed_append, List.length_append] at hlen
    omega)
  have hpp : s.texts.lookup (if slashed [n] = [] then ['/'] else slashed [n]) = some (some p) :=
    (lookup_parent (show ∀ e ∈ [n], IsWord e from fun e he => hwords e (List.mem_append_left _ he))
      rfl).trans
      (hroot hn hp)
  rw [← hnew] at hsep
  obtain ⟨r, h1, h2, h3, h4⟩ := separateBuf_some stackBufs hs hsep hpp
  have hrename : s.callBuf (.rename stackBufs oldpath newpath) =
      .ok (0, (s.detach x).attach p x (strncpy r.2)) := by
    unfold callBuf renameBuf
    dsimp only
    rw [(lookupBuf_ok hs).mpr hl, ok_bind]
    dsimp only
    rw [(lookupBuf_ok hs).mpr hlx, ok_bind]
    dsimp only
    rw [h1, ok_bind, if_neg h2, h3, ok_bind]
  exact ⟨strncpy r.2, (strncpy_text hc.no_nul hc.short h4).1, reach_call h rfl hrename⟩

variable (s) in
/-- The nodes are in a line below a node. -/
def Line : α → List α → Prop
  | d, [] => (s.file d).subdirs = []
  | d, n :: ns => (s.file d).subdirs = [n] ∧ Line n ns

theorem Line.congr {ns : List α} (h : s.Line d ns)
    (he : ∀ e ∈ d :: ns, (s'.file e).subdirs = (s.file e).subdirs) : s'.Line d ns := by
  induction ns generalizing d with
  | nil => exact (he d List.mem_cons_self).trans h
  | cons n ns ih =>
    exact ⟨(he d List.mem_cons_self).trans h.1, ih h.2 fun e h => he e (List.mem_cons_of_mem _ h)⟩

theorem Line.mem {ns : List α} (h : s.Line d ns) :
    ∀ e ∈ d :: ns, ∀ g ∈ (s.file e).subdirs, g ∈ ns := by
  induction ns generalizing d with
  | nil =>
    intro e he g hg
    rw [List.mem_singleton.mp he, show (s.file d).subdirs = [] from h] at hg
    exact hg
  | cons n ns ih =>
    intro e he g hg
    rcases List.mem_cons.mp he with rfl | he
    · rw [h.1] at hg
      exact List.mem_singleton.mp hg ▸ List.mem_cons_self
    · exact List.mem_cons_of_mem _ (ih h.2 e he g hg)

theorem Line.named {ns : List α} (h : s.Line d ns) :
    ∃ f, s.Named d (ns.map fun n => bufText (s.file n).name) f := by
  induction ns generalizing d with
  | nil => exact ⟨d, rfl⟩
  | cons n ns ih =>
    obtain ⟨f, hf⟩ := ih h.2
    exact ⟨f, n, h.1 ▸ List.mem_cons_self, rfl, hf⟩

theorem Line.length_le {ns : List α} (h : s.Line d ns) (hn : s.Named d cs f) :
    cs.length ≤ ns.length := by
  induction ns generalizing d cs with
  | nil =>
    cases cs with
    | nil => exact le_rfl
    | cons c cs =>
      obtain ⟨e, he, -⟩ := hn
      rw [show (s.file d).subdirs = [] from h] at he
      cases he
  | cons n ns ih =>
    cases cs with
    | nil => exact Nat.zero_le _
    | cons c cs =>
      obtain ⟨e, he, -, hn⟩ := hn
      rw [h.1] at he
      rw [List.mem_singleton.mp he] at hn
      exact Nat.succ_le_succ (ih h.2 hn)

/-- Nothing but directories with the names, each below the one before. -/
structure ChainOf (s : Tmpfs α) (cs : List (List Char)) (ns : List α) : Prop where
  nodup : (s.root :: ns).Nodup
  live : ∀ n ∈ ns, n ∈ s.live
  line : s.Line s.root ns
  names : (ns.map fun n => bufText (s.file n).name) = cs

/-- A mounted file system with the root 0. -/
def mountedBuf : Tmpfs ℕ := ⟨0, fun _ => ⟨.dir, strncpy ['/'], []⟩, {0}⟩

theorem mountedBuf_reach : (tmpfsBufSystem ℕ).Reach System.anyStep mountedBuf := .init ⟨rfl, rfl⟩

/-- **A directory on top of a chain**: it is made under the root, and the chain is moved below it. -/
theorem ChainOf.cons {ns : List α} {t n c buf buf' : List Char} {ds : List (List Char)}
    (h : s.ChainOf (t :: ds) (f :: ns)) (hroot : s.root ∈ s.live) (hx : x ∉ s.live)
    (hbuf : bufText buf = n) (hbuf' : bufText buf' = c) :
    (((s.create s.root x buf true).detach f).attach x f buf').ChainOf (n :: c :: ds) (x :: f :: ns) := by
  have hrx : s.root ≠ x := fun he => hx (he ▸ hroot)
  have hfx : f ≠ x := fun he => hx (he ▸ h.live f List.mem_cons_self)
  have hne : ∀ e ∈ f :: ns, e ≠ x ∧ e ≠ s.root := by
    intro e he
    refine ⟨fun heq => hx (heq ▸ h.live e he), fun heq => ?_⟩
    exact (List.nodup_cons.mp h.nodup).1 (heq ▸ he)
  have hnodup := (List.nodup_cons.mp h.nodup).2
  have hsub : ∀ e ∈ f :: ns,
      ((((s.create s.root x buf true).detach f).attach x f buf').file e).subdirs =
        (s.file e).subdirs := by
    intro e he
    rw [attach_subdirs, if_neg (hne e he).1, create_subdirs, if_neg (hne e he).1, if_neg (hne e he).2,
      List.filter_eq_self]
    intro g hg
    refine decide_eq_true fun heq => ?_
    exact (List.nodup_cons.mp hnodup).1 (heq ▸ h.line.2.mem e he g hg)
  refine ⟨?_, ?_, ⟨?_, ?_, h.line.2.congr hsub⟩, ?_⟩
  · refine List.nodup_cons.mpr ⟨?_, List.nodup_cons.mpr ⟨fun hmem => (hne x hmem).1 rfl, hnodup⟩⟩
    intro hmem
    rcases List.mem_cons.mp hmem with he | he
    · exact hrx he
    · exact (List.nodup_cons.mp h.nodup).1 he
  · intro e he
    rcases List.mem_cons.mp he with rfl | he
    · exact Finset.mem_insert_self _ _
    · exact Finset.mem_insert_of_mem (h.live e he)
  · show ((((s.create s.root x buf true).detach f).attach x f buf').file s.root).subdirs = _
    rw [attach_subdirs, if_neg hrx, create_subdirs, if_neg hrx, if_pos rfl, h.line.1]
    simp [Ne.symm hfx]
  · rw [attach_subdirs, if_pos rfl, create_subdirs, if_pos rfl, List.filter_nil]
  · have hnames : ∀ e, e ≠ f → ((((s.create s.root x buf true).detach f).attach x f buf').file e).name =
        ((s.create s.root x buf true).file e).name := fun e he => if_neg he
    have hf : ((((s.create s.root x buf true).detach f).attach x f buf').file f).name = buf' :=
      if_pos rfl
    have hself : ((s.create s.root x buf true).file x).name = buf := by
      unfold Tmpfs.create
      dsimp only
      rw [if_pos rfl]
    rw [List.map_cons, List.map_cons, hnames x (Ne.symm hfx), hself, hf, hbuf, hbuf']
    refine congrArg (n :: c :: ·) ?_
    rw [← (List.cons.inj h.names).2]
    refine List.map_congr_left fun e he => ?_
    have hef : e ≠ f := fun heq => (List.nodup_cons.mp hnodup).1 (heq ▸ he)
    rw [hnames e hef, create_file_name (hne e (List.mem_cons_of_mem _ he)).1]

/-- **Any short names are made a chain** of directories. -/
theorem chain_reach (hcs : ∀ c ∈ cs, ShortName c) {n : List Char} (hn : ShortName n) :
    ∃ (s : Tmpfs ℕ) (ns : List ℕ), (tmpfsBufSystem ℕ).Reach System.anyStep s ∧ s.ChainOf (n :: cs) ns := by
  have hshort : ∀ {n : List Char}, ShortName n → (slashed ([] ++ [n])).length < dfsPathMax := by
    intro n hn
    have h1 : n.length < 32 := hn.short
    have h2 : (slashed ([] ++ [n])).length = n.length + 1 := by simp [slashed]
    rw [h2, dfsPathMax]
    omega
  have hall : ∀ {n : List Char}, ShortName n → ∀ c ∈ [] ++ [n], ShortName c := by
    intro n hn c hc
    exact List.mem_singleton.mp hc ▸ hn
  induction cs generalizing n with
  | nil =>
    obtain ⟨buf, hbuf, hreach⟩ := create_reach (x := 1) true mountedBuf_reach (hall hn) (hshort hn) rfl rfl
      (by decide)
    have hnodup : ([0, 1] : List ℕ).Nodup := by decide
    refine ⟨_, [1], hreach, hnodup, fun n hn => ?_, ⟨rfl, rfl⟩, congrArg (· :: []) hbuf⟩
    exact List.mem_singleton.mp hn ▸ Finset.mem_insert_self _ _
  | cons c cs ih =>
    obtain ⟨t, ht, htn⟩ : ∃ t, ShortName t ∧ t ≠ n := by
      by_cases hx : n = ['x']
      · exact ⟨['y'], ⟨⟨by decide, by decide⟩, by decide, by decide⟩, by rw [hx]; decide⟩
      · exact ⟨['x'], ⟨⟨by decide, by decide⟩, by decide, by decide⟩, Ne.symm hx⟩
    obtain ⟨s, ns, hreach, hchain⟩ := ih (fun d hd => hcs d (List.mem_cons_of_mem _ hd)) ht
    have hs := names_of_reach hreach
    cases ns with
    | nil => exact absurd hchain.names (by simp)
    | cons f ns =>
      obtain ⟨x, hx⟩ := Infinite.exists_notMem_finset s.live
      have hname : bufText (s.file f).name = t := (List.cons.inj hchain.names).1
      have hfree : s.texts.child s.root n = none := by
        cases he : s.texts.child s.root n with
        | none => rfl
        | some e =>
          obtain ⟨hmem, htext⟩ := (child_texts hs hs.root).mp he
          rw [hchain.line.1] at hmem
          rw [List.mem_singleton.mp hmem, hname] at htext
          exact absurd htext htn
      obtain ⟨buf, hbuf, hreach'⟩ := create_reach true hreach (hall hn) (hshort hn) rfl hfree hx
      have hs' := names_of_reach hreach'
      have hrx : s.root ≠ x := fun he => hx (he ▸ hs.root)
      have hfx : f ≠ x := fun he => hx (he ▸ hchain.live f List.mem_cons_self)
      have hsub : ((s.create s.root x buf true).file s.root).subdirs = [x, f] := by
        rw [create_subdirs, if_neg hrx, if_pos rfl, hchain.line.1]
      have hself : ((s.create s.root x buf true).file x).name = buf := by
        unfold Tmpfs.create
        dsimp only
        rw [if_pos rfl]
      have hcx : (s.create s.root x buf true).texts.child (s.create s.root x buf true).root n = some x := by
        refine (child_texts hs' hs'.root).mpr ⟨?_, by rw [hself, hbuf]⟩
        show x ∈ ((s.create s.root x buf true).file s.root).subdirs
        rw [hsub]
        exact List.mem_cons_self
      have hcf : (s.create s.root x buf true).texts.child (s.create s.root x buf true).root t = some f := by
        refine (child_texts hs' hs'.root).mpr ⟨?_, by rw [create_file_name hfx, hname]⟩
        show f ∈ ((s.create s.root x buf true).file s.root).subdirs
        rw [hsub]
        exact List.mem_cons_of_mem _ List.mem_cons_self
      have hnone : (s.create s.root x buf true).texts.child x c = none := by
        have hnil : ((s.create s.root x buf true).texts.file x).subdirs = [] := by
          show ((s.create s.root x buf true).file x).subdirs = []
          rw [create_subdirs, if_pos rfl]
        unfold child
        rw [hnil]
        rfl
      obtain ⟨buf', hbuf', hreach''⟩ :=
        rename_reach hreach' ht hn (hcs c List.mem_cons_self) hcf hcx hnone
      exact ⟨_, _, hreach'', hchain.cons hs.root hx hbuf hbuf'⟩

theorem exists_chain (hcs : ∀ c ∈ cs, ShortName c) :
    ∃ (s : Tmpfs ℕ) (ns : List ℕ), (tmpfsBufSystem ℕ).Reach System.anyStep s ∧ s.ChainOf cs ns := by
  cases cs with
  | nil =>
    refine ⟨mountedBuf, [], mountedBuf_reach, List.nodup_singleton _, List.forall_mem_nil _, rfl, rfl⟩
  | cons c cs =>
    exact chain_reach (fun d hd => hcs d (List.mem_cons_of_mem _ hd)) (hcs c List.mem_cons_self)

/-! ## All paths -/

theorem shortName_of_mem {path : TmpfsPath} (hc : c ∈ rawNames path.chars) (hne : c ≠ [])
    (hlong : isLong c = false) : ShortName c := by
  have hmem : c ∈ components '/' path.chars := by
    rw [components_eq, List.mem_filter]
    exact ⟨hc, by simpa using hne⟩
  obtain ⟨hword, hchars⟩ := components_mem hmem
  refine ⟨hword, fun h => path.no_nul (hchars _ h), ?_⟩
  unfold isLong at hlong
  have := of_decide_eq_false hlong
  omega

theorem walk_long {pre post : List (List Char)} (h : s.walk d pre = some (some f))
    (hc : tmpfsNameMax < c.length) : s.walk d (pre ++ c :: post) = none := by
  induction pre generalizing d with
  | nil => rw [List.nil_append, walk, if_neg (by omega)]
  | cons a pre ih =>
    rw [walk] at h
    rw [List.cons_append, walk]
    split
    · rename_i hlen
      rw [if_pos hlen] at h
      cases he : s.child d a with
      | none =>
        rw [he] at h
        cases h
      | some e =>
        rw [he] at h
        exact ih h
    · rfl

/-- **A path that does not meet the condition** fails in the file system with the directories in front. -/
theorem exists_unsafe {path : TmpfsPath} (hok : path.ok = false) :
    ∃ s : Tmpfs ℕ, (tmpfsBufSystem ℕ).Reach System.anyStep s ∧ ¬ s.PathSafe path := by
  have hfind : (passed path.chars).find? isLong = (rawNames path.chars).find? isLong := by
    rw [passed_eq, find_fillNames]
  unfold TmpfsPath.ok at hok
  cases hc : (rawNames path.chars).find? isLong with
  | none =>
    rw [hc] at hok
    have hmem : [] ∈ rawNames path.chars := by simpa using hok
    have hcs : ∀ c ∈ components '/' path.chars, ShortName c := by
      intro c hcm
      rw [components_eq, List.mem_filter] at hcm
      exact shortName_of_mem hcm.1 (by simpa using hcm.2) (by simpa using List.find?_eq_none.mp hc c hcm.1)
    obtain ⟨s, ns, hreach, hchain⟩ := exists_chain hcs
    have hs := names_of_reach hreach
    refine ⟨s, hreach, fun hsafe => ?_⟩
    obtain ⟨f, hf⟩ := hchain.line.named
    rw [hchain.names, ← hsafe.finds f, lookupBuf_ok hs, lookup_passed,
      walk_iff hs (show s.texts.root ∈ s.live from hs.root)] at hf
    have hle := hchain.line.length_le hf
    rw [passed_eq, fillNames_length] at hle
    have hlen : (components '/' path.chars).length = ns.length := by
      rw [← hchain.names, List.length_map]
    have hlt : (components '/' path.chars).length < (rawNames path.chars).length := by
      rw [components_eq]
      exact List.length_filter_lt_length_iff_exists.mpr ⟨[], hmem, by simp⟩
    omega
  | some c =>
    rw [hc] at hok
    dsimp only at hok
    have hlong := List.find?_some hc
    rw [hc] at hfind
    by_cases hlen : c.length = tmpfsNameMax
    · have hname : (fileName path.chars).any isLong = true := by simpa [hlen] using hok
      refine ⟨mountedBuf, mountedBuf_reach, fun hsafe => ?_⟩
      have hs := names_of_reach mountedBuf_reach
      have hl : mountedBuf.texts.lookup path.chars = some none := by
        rw [lookup_passed]
        cases hp : passed path.chars with
        | nil =>
          rw [hp] at hfind
          cases hfind
        | cons a l =>
          have ha : a.length ≤ tmpfsNameMax := by
            rw [hp, List.find?_cons] at hfind
            cases hla : isLong a with
            | true =>
              rw [hla] at hfind
              cases hfind
              exact hlen.le
            | false =>
              have := of_decide_eq_false hla
              omega
          rw [walk, if_pos ha]
          rfl
      refine hsafe.opened stackBufs 1 false true true none ?_
      have hhead : path.chars.head? = some '/' := by
        cases hp : path.chars with
        | nil =>
          rw [hp] at hname
          cases hname
        | cons a rest =>
          rw [hp, fileName] at hname
          by_cases ha : a = '/'
          · rw [ha]
            rfl
          · rw [if_neg fun h => ha h.1] at hname
            cases hname
      have hsep : separateBuf stackBufs path.chars = .error .overrun := by
        have hnone := (pathSeparate_none path.short).mpr (.inr hname)
        rcases separateBuf_eq stackBufs path.no_nul path.short with ⟨-, h⟩ | ⟨h, -⟩ | ⟨_, _, _, h, -⟩
        · rw [h, if_pos hhead]
        · rw [hnone] at h
          cases h
        · rw [hnone] at h
          cases h
      unfold openBuf
      rw [if_neg (by decide), if_neg (by decide), (lookupBuf_ok hs).mpr hl, ok_bind]
      dsimp only
      rw [if_pos rfl, hsep]
      rfl
    · have hlt : tmpfsNameMax < c.length := by
        have := of_decide_eq_true hlong
        omega
      obtain ⟨-, pre, post, hsplit, hpre⟩ := List.find?_eq_some_iff_append.mp hfind
      have hne := isLong_ne_nil hlong
      have hcs : ∀ a ∈ pre, ShortName a := by
        intro a ha
        have hane : a ≠ [] := by
          rintro rfl
          rw [passed_eq] at hsplit
          exact fillNames_ne_nil hne hsplit ha
        have hmem : a ∈ passed path.chars := hsplit ▸ List.mem_append_left _ ha
        rw [passed_eq] at hmem
        exact shortName_of_mem (mem_fillNames hane hmem) hane (by simpa using hpre a ha)
      obtain ⟨s, ns, hreach, hchain⟩ := exists_chain hcs
      have hs := names_of_reach hreach
      refine ⟨s, hreach, fun hsafe => ?_⟩
      obtain ⟨f, hf⟩ := hchain.line.named
      rw [hchain.names, ← walk_iff hs hs.root] at hf
      have hnone : s.texts.lookup path.chars = none := by
        rw [lookup_passed, hsplit]
        exact walk_long hf hlt
      obtain ⟨r, hr⟩ := hsafe.lookup
      rw [(lookupBuf_overrun hs).mpr hnone] at hr
      cases hr

/-- **The paths of tmpfs**: in every run no call on a path writes past a buffer, what it creates or
renames has the last component of the path as its name, with the NUL, and a lookup finds exactly what
has the components as names, if and only if the path meets the condition: no component is long and none
is empty, or the first long one fills `subdir_name` and the file name is not long. -/
theorem tmpfs_paths (path : TmpfsPath) :
    (∀ s : Tmpfs ℕ, (tmpfsBufSystem ℕ).Reach System.anyStep s → s.PathSafe path) ↔
      path.ok = true := by
  constructor
  · intro h
    by_contra hok
    obtain ⟨s, hreach, hunsafe⟩ := exists_unsafe (eq_false_of_ne_true hok)
    exact hunsafe (h s hreach)
  · intro hok s hreach
    exact safe_of_ok (names_of_reach hreach) hok

/-- A name of 33 characters below the root. -/
def longPath : TmpfsPath := ⟨'/' :: List.replicate 33 'a', by decide, by decide⟩

/-- **A lookup writes past `subdir_name`.** -/
theorem tmpfs_path_overrun :
    ¬ ∀ (path : TmpfsPath) (s : Tmpfs ℕ), (tmpfsBufSystem ℕ).Reach System.anyStep s →
      s.PathSafe path := by
  intro h
  obtain ⟨s, hreach, hunsafe⟩ := exists_unsafe (show longPath.ok = false by decide)
  exact hunsafe (h longPath s hreach)

end Tmpfs

end RtThread
