import Mathlib.Data.List.TakeWhile
import RtThread.Dfs.TmpfsTree

/-!
# The buffers of tmpfs

The functions of `Dfs.Tmpfs` with the arrays that they write: `subdir_name`, `parent_path`, `file_name`
and the names of the nodes, as the characters in memory.

* `putChars`, `strcmpEq`, `strncpy`: what is written at consecutive places, compared and copied;
* `lookupBuf`, `separateBuf`, `openBuf`, `renameBuf`, `unlinkBuf`: the functions; a fault is a write
  past the end of a buffer, a read past it, a failed assertion or the free of the root;
* `NamesInv`: the names are stored with their NUL, and are distinct among siblings;
* **`lookupBuf_eq`**, **`separateBuf_eq`**: without a fault they are the functions of `Dfs.Tmpfs`, and
  there is a write past a buffer exactly when those have no result.
-/

set_option linter.unusedSectionVars false

namespace RtThread

/-! ## Characters in memory -/

/-- The NUL. -/
def nulChar : Char := Char.ofNat 0

/-- A path string that is shorter than `DFS_PATH_MAX`. -/
structure TmpfsPath where
  chars : List Char
  no_nul : nulChar ∉ chars
  short : chars.length < dfsPathMax

/-- Why a call has no result. -/
inductive TmpfsFault where
  | overrun
  | overread
  | assertion
  | badFree
  deriving DecidableEq

/-- Writing characters into a buffer from a place on. -/
def putChars (buf : List Char) (i : ℕ) : List Char → Except TmpfsFault (List Char)
  | [] => .ok buf
  | c :: cs => if i < buf.length then putChars (buf.set i c) (i + 1) cs else .error .overrun

/-- Copying characters, and a NUL behind them. -/
def copyString (buf cs : List Char) : Except TmpfsFault (List Char) :=
  (putChars buf 0 cs).bind fun buf => putChars buf cs.length [nulChar]

/-- `rt_strcmp(s, t) == 0`. -/
def strcmpEq : List Char → List Char → Except TmpfsFault Bool
  | a :: s, b :: t => if a ≠ b then .ok false else if a = nulChar then .ok true else strcmpEq s t
  | _, _ => .error .overread

/-- The string in a buffer. -/
def bufText (buf : List Char) : List Char := buf.takeWhile (· ≠ nulChar)

/-- `strncpy` of the string in a buffer into a name. -/
def strncpy (buf : List Char) : List Char :=
  (bufText buf).take tmpfsNameMax ++ List.replicate (tmpfsNameMax - (bufText buf).length) nulChar

/-- A name that is stored with its NUL. -/
structure Stored (buf : List Char) : Prop where
  nul : nulChar ∈ buf
  short : (bufText buf).length < tmpfsNameMax
  word : IsWord (bufText buf)

/-! ## The functions -/

/-- The loop of `_get_subdir`. -/
def getSubdirLoop (name : List Char) (i : ℕ) : List Char → Except TmpfsFault (List Char)
  | [] => .ok name
  | c :: rest =>
    if c = '/' then .ok name
    else if i < name.length then getSubdirLoop (name.set i c) (i + 1) rest else .error .overrun

/-- `_get_subdir` into `subdir_name`, which is cleared before. -/
def subdirName (path : List Char) : Except TmpfsFault (List Char) :=
  getSubdirLoop (List.replicate tmpfsNameMax nulChar) 0 (path.dropWhile (· = '/'))

/-- `parent_path` and `file_name` on the stack. -/
structure PathBufs where
  parent : List Char
  name : List Char
  parent_length : parent.length = dfsPathMax
  name_length : name.length = tmpfsNameMax

/-- `_path_separate` after the text `parent` and a slash; `name` is the component read so far. -/
def separateLoop (bufs : List Char × List Char) (parent name : List Char) :
    List Char → Except TmpfsFault (List Char × List Char)
  | [] =>
    if name = [] then .ok bufs
    else do
      let p ← copyString bufs.1 parent
      let n ← copyString bufs.2 name
      .ok (p, n)
  | c :: rest =>
    if c = '/' then
      if name = [] then .ok bufs else separateLoop bufs (parent ++ '/' :: name) [] rest
    else separateLoop bufs parent (name ++ [c]) rest

/-- `_path_separate`: the contents of the buffers. -/
def separateBuf (b : PathBufs) : List Char → Except TmpfsFault (List Char × List Char)
  | [] => .error .assertion
  | c :: rest =>
    if c = '/' then do
      let n ← putChars b.name 0 [nulChar]
      let r ← separateLoop (b.parent, n) [] [] rest
      if r.1.head? = some nulChar then do
        let p ← putChars r.1 0 ['/', nulChar]
        .ok (p, r.2)
      else .ok r
    else .error .assertion

namespace Tmpfs

variable {α : Type} [DecidableEq α] (s : Tmpfs α)

/-- The loop over the children in `dfs_tmpfs_lookup`. -/
def searchName (name : List Char) : List α → Except TmpfsFault (Option α)
  | [] => .ok none
  | f :: l => do
    if ← strcmpEq (s.file f).name name then .ok (some f) else searchName name l

/-- `find_subpath` in `dfs_tmpfs_lookup`. -/
def findSubpath (curfile : α) (curpath : List Char) : List Char → Except TmpfsFault (Option α)
  | [] => do
    let _ ← subdirName curpath
    s.searchName (curpath ++ [nulChar]) (s.file curfile).subdirs
  | c :: rest =>
    if c = '/' then do
      let name ← subdirName curpath
      match ← s.searchName name (s.file curfile).subdirs with
      | none => .ok none
      | some file => findSubpath file rest rest
    else findSubpath curfile curpath rest

/-- `dfs_tmpfs_lookup`. -/
def lookupBuf (path : List Char) : Except TmpfsFault (Option α) :=
  match path.dropWhile (· = '/') with
  | [] => .ok (some s.root)
  | c :: rest => s.findSubpath s.root (c :: rest) (c :: rest)

/-- `dfs_tmpfs_open`; the arguments are those of `Tmpfs.open`. -/
def openBuf (b : PathBufs) (refCount : ℕ) (isDir : Bool) (path : List Char) (creat directory : Bool)
    (mem : Option α) : Except TmpfsFault (ℤ × Tmpfs α) :=
  if refCount = 0 then .error .assertion
  else if 1 < refCount then .ok (if isDir && !directory then negEnoent else 0, s)
  else do
    match ← s.lookupBuf path with
    | some d => .ok (fill (s.file d).type directory, s)
    | none =>
      if creat then do
        let r ← separateBuf b path
        if r.2.head? = some nulChar then .ok (negEnoent, s)
        else do
          match ← s.lookupBuf (bufText r.1) with
          | none => .ok (negEnoent, s)
          | some p =>
            match mem with
            | none => .ok (negEnomem, s)
            | some x => .ok (0, s.create p x (strncpy r.2) directory)
      else .ok (negEnoent, s)

/-- `dfs_tmpfs_unlink`. -/
def unlinkBuf (path : List Char) : Except TmpfsFault (ℤ × Tmpfs α) := do
  match ← s.lookupBuf path with
  | none => .ok (negEnoent, s)
  | some x =>
    -- the root is a member of the superblock
    if x = s.root then .error .badFree
    else .ok (0, { s.detach x with live := s.live.erase x })

/-- `dfs_tmpfs_rename`. -/
def renameBuf (b : PathBufs) (oldpath newpath : List Char) : Except TmpfsFault (ℤ × Tmpfs α) := do
  match ← s.lookupBuf newpath with
  | some _ => .ok (negEexist, s)
  | none =>
    match ← s.lookupBuf oldpath with
    | none => .ok (negEnoent, s)
    | some x =>
      let r ← separateBuf b newpath
      if r.2.head? = some nulChar then .ok (negEnoent, s)
      else do
        match ← s.lookupBuf (bufText r.1) with
        | none => .error .assertion
        | some p => .ok (0, (s.detach x).attach p x (strncpy r.2))

/-- The names as texts. -/
def texts : Tmpfs α :=
  { s with file := fun d => { s.file d with name := bufText (s.file d).name } }

end Tmpfs

/-- A call, with the buffers on its stack. -/
inductive TmpfsBufCall (α : Type) where
  | open (b : PathBufs) (refCount : ℕ) (isDir : Bool) (path : TmpfsPath) (creat directory : Bool)
      (mem : Option α)
  | unlink (path : TmpfsPath)
  | rename (b : PathBufs) (oldpath newpath : TmpfsPath)

section

variable {α : Type} [DecidableEq α]

/-- A call on the buffers. -/
def Tmpfs.callBuf (s : Tmpfs α) : TmpfsBufCall α → Except TmpfsFault (ℤ × Tmpfs α)
  | .open b refCount isDir path creat directory mem =>
    s.openBuf b refCount isDir path.chars creat directory mem
  | .unlink path => s.unlinkBuf path.chars
  | .rename b oldpath newpath => s.renameBuf b oldpath.chars newpath.chars

/-- `rt_calloc` returns a node that is not allocated. -/
def Tmpfs.enabledBuf (s : Tmpfs α) : TmpfsBufCall α → Bool
  | .open _ _ _ _ _ _ mem => mem.all fun x => decide (x ∉ s.live)
  | .unlink _ => true
  | .rename _ _ _ => true

/-- The sequences of calls, after `dfs_tmpfs_mount`; a fault ends them. -/
def tmpfsBufSystem (α : Type) [DecidableEq α] : System (Tmpfs α) (TmpfsBufCall α) where
  init s := s.live = {s.root} ∧ s.file s.root = ⟨.dir, strncpy ['/'], []⟩
  step s c := if s.enabledBuf c then (s.callBuf c).toOption.map Prod.snd else none

end

/-! ## Buffers -/

section

variable {buf s t path : List Char} {i : ℕ}

/-- **What is written stays in the buffer** when it fits, and does not otherwise. -/
theorem putChars_eq {cs : List Char} (hi : i ≤ buf.length) :
    putChars buf i cs =
      if i + cs.length ≤ buf.length then
        .ok (buf.take i ++ cs ++ buf.drop (i + cs.length)) else .error .overrun := by
  induction cs generalizing buf i with
  | nil => simp [putChars, hi]
  | cons c cs ih =>
    rw [putChars]
    by_cases hlt : i < buf.length
    · rw [if_pos hlt, ih (by rw [List.length_set]; omega), List.length_set, List.length_cons]
      have hlen : i + 1 + cs.length = i + (cs.length + 1) := by omega
      rw [hlen]
      refine if_congr Iff.rfl (congrArg _ ?_) rfl
      rw [List.drop_set_of_lt (by omega), List.take_add_one, List.take_set_of_le le_rfl,
        List.getElem?_set_self hlt, Option.toList_some, List.append_assoc _ [c],
        List.singleton_append]
    · rw [if_neg hlt, if_neg (by rw [List.length_cons]; omega)]

theorem putChars_zero {cs : List Char} :
    putChars buf 0 cs =
      if cs.length ≤ buf.length then .ok (cs ++ buf.drop cs.length) else .error .overrun := by
  rw [putChars_eq (Nat.zero_le _), Nat.zero_add, List.take_zero, List.nil_append]

theorem getSubdirLoop_eq (hi : i ≤ buf.length) :
    getSubdirLoop buf i path = putChars buf i (path.takeWhile (· ≠ '/')) := by
  induction path generalizing buf i with
  | nil => rfl
  | cons c rest ih =>
    rw [getSubdirLoop, List.takeWhile_cons]
    by_cases hc : c = '/'
    · simp [hc, putChars]
    · rw [if_neg hc, if_pos (decide_eq_true hc), putChars]
      by_cases hlt : i < buf.length
      · rw [if_pos hlt, if_pos hlt, ih (by rw [List.length_set]; omega)]
      · rw [if_neg hlt, if_neg hlt]

/-- **`subdir_name`** holds the component when that has at most `TMPFS_NAME_MAX` characters. -/
theorem subdirName_eq :
    subdirName path =
      if (getSubdir path).length ≤ tmpfsNameMax then
        .ok (getSubdir path ++ List.replicate (tmpfsNameMax - (getSubdir path).length) nulChar)
      else .error .overrun := by
  unfold subdirName getSubdir
  rw [getSubdirLoop_eq (Nat.zero_le _), putChars_zero, List.length_replicate, List.drop_replicate]

theorem bufText_append (h : nulChar ∉ s) : bufText (s ++ nulChar :: t) = s := by
  unfold bufText
  have hall : ∀ a ∈ s, decide (a ≠ nulChar) = true := by
    intro a ha
    exact decide_eq_true fun he => h (he ▸ ha)
  rw [List.takeWhile_append_of_pos hall, List.takeWhile_cons_of_neg (by simp), List.append_nil]

theorem bufText_pad (h : nulChar ∉ s) (n : ℕ) : bufText (s ++ List.replicate n nulChar) = s := by
  cases n with
  | zero =>
    unfold bufText
    rw [List.replicate_zero, List.append_nil, List.takeWhile_eq_self_iff]
    exact fun a ha => decide_eq_true fun he => h (he ▸ ha)
  | succ n => rw [List.replicate_succ, bufText_append h]

theorem nul_notMem_bufText : nulChar ∉ bufText buf := by
  intro h
  have := List.mem_takeWhile_imp h
  simp at this

/-- A buffer is its string up to the NUL. -/
theorem exists_of_nul (h : nulChar ∈ buf) : ∃ t, buf = bufText buf ++ nulChar :: t := by
  induction buf with
  | nil => cases h
  | cons a buf ih =>
    by_cases ha : a = nulChar
    · exact ⟨buf, by simp [bufText, ha]⟩
    · obtain ⟨t, ht⟩ := ih ((List.mem_cons.mp h).resolve_left (Ne.symm ha))
      refine ⟨t, ?_⟩
      have : bufText (a :: buf) = a :: bufText buf := by simp [bufText, ha]
      rw [this, List.cons_append, ← ht]

/-- **A stored name is compared** with a string, or with characters that go on behind it. -/
theorem strcmpEq_append {cs : List Char} (hcs : nulChar ∉ cs) (h : nulChar ∈ buf ∨ cs.length < buf.length) :
    strcmpEq (cs ++ nulChar :: t) buf = .ok (decide (cs = bufText buf)) := by
  induction cs generalizing buf with
  | nil =>
    cases buf with
    | nil => simp at h
    | cons b buf =>
      by_cases hb : b = nulChar
      · simp [strcmpEq, bufText, hb]
      · simp [strcmpEq, bufText, hb, Ne.symm hb]
  | cons c cs ih =>
    rw [List.mem_cons, not_or] at hcs
    cases buf with
    | nil => simp at h
    | cons b buf =>
      rw [List.cons_append, strcmpEq]
      by_cases hb : c = b
      · subst hb
        have h' : nulChar ∈ buf ∨ cs.length < buf.length := by
          simpa [hcs.1] using h
        rw [if_neg (not_not_intro rfl), if_neg (Ne.symm hcs.1), ih hcs.2 h']
        simp [bufText, Ne.symm hcs.1]
      · have hne : ¬ (c :: cs = bufText (b :: buf)) := by
          intro he
          unfold bufText at he
          rw [List.takeWhile_cons] at he
          split at he
          · exact hb (List.cons.inj he).1
          · cases he
        rw [if_pos hb, decide_eq_false hne]

/-! ## The parent path and the file name -/

theorem ok_bind {β γ : Type} (x : β) (f : β → Except TmpfsFault γ) : (Except.ok x >>= f) = f x := rfl

theorem error_bind {β γ : Type} (e : TmpfsFault) (f : β → Except TmpfsFault γ) :
    (Except.error e >>= f) = .error e := rfl

/-- **A string fits** when there is room for its NUL. -/
theorem copyString_eq {cs : List Char} :
    copyString buf cs =
      if cs.length < buf.length then .ok (cs ++ nulChar :: buf.drop (cs.length + 1))
      else .error .overrun := by
  unfold copyString
  rw [putChars_zero]
  by_cases hle : cs.length ≤ buf.length
  · have hlen : (cs ++ buf.drop cs.length).length = buf.length := by
      rw [List.length_append, List.length_drop]
      omega
    rw [if_pos hle]
    show putChars (cs ++ buf.drop cs.length) cs.length [nulChar] = _
    rw [putChars_eq (by omega), hlen]
    refine if_congr Iff.rfl (congrArg _ ?_) rfl
    simp
  · rw [if_neg hle, if_neg fun h => hle h.le]
    rfl

theorem separateLoop_eq {bufs : List Char × List Char} {parent name rest : List Char}
    (hp : bufs.1.length = dfsPathMax) (hn : bufs.2.length = tmpfsNameMax)
    (hlen : parent.length + (name.length + rest.length) < dfsPathMax) :
    (separateFrom parent name rest = none ∧
      separateLoop bufs parent name rest = .error .overrun) ∨
    (separateFrom parent name rest = some none ∧ separateLoop bufs parent name rest = .ok bufs) ∨
    ∃ pp nm t t', separateFrom parent name rest = some (some (if pp = [] then ['/'] else pp, nm)) ∧
      separateLoop bufs parent name rest = .ok (pp ++ nulChar :: t, nm ++ nulChar :: t') ∧
      (pp ++ nulChar :: t).length = dfsPathMax := by
  induction rest generalizing parent name with
  | nil =>
    rw [separateFrom, separateLoop]
    by_cases hnil : name = []
    · rw [if_pos hnil, if_pos hnil]
      exact .inr (.inl ⟨rfl, rfl⟩)
    · have hparent : parent.length < dfsPathMax := by omega
      have hroom : parent.length < bufs.1.length := by omega
      rw [if_neg hnil, if_neg hnil, copyString_eq, if_pos hroom, ok_bind, copyString_eq, hn]
      by_cases hname : name.length < tmpfsNameMax
      · rw [if_pos ⟨hparent, hname⟩, if_pos hname]
        refine .inr (.inr ⟨parent, name, bufs.1.drop (parent.length + 1),
          bufs.2.drop (name.length + 1), rfl, rfl, ?_⟩)
        rw [List.length_append, List.length_cons, List.length_drop]
        omega
      · rw [if_neg fun h => hname h.2, if_neg hname]
        exact .inl ⟨rfl, rfl⟩
  | cons c rest ih =>
    rw [separateFrom, separateLoop]
    by_cases hc : c = '/'
    · rw [if_pos hc, if_pos hc]
      by_cases hnil : name = []
      · rw [if_pos hnil, if_pos hnil]
        exact .inr (.inl ⟨rfl, rfl⟩)
      · rw [if_neg hnil, if_neg hnil]
        refine ih ?_
        simp only [List.length_append, List.length_cons, List.length_nil] at hlen ⊢
        omega
    · rw [if_neg hc, if_neg hc]
      refine ih ?_
      simp only [List.length_append, List.length_cons, List.length_nil] at hlen ⊢
      omega

/-- The components of a path have no character that the path does not have. -/
theorem mem_slashed {cs : List (List Char)} {c : List Char} {a : Char} (hc : c ∈ cs) (ha : a ∈ c) :
    a ∈ slashed cs := List.mem_flatMap.mpr ⟨c, hc, List.mem_cons_of_mem _ ha⟩

/-- **The buffers of `_path_separate`** hold what `pathSeparate` says; there is a write past one
exactly when that has no result for a path with a leading slash. -/
theorem separateBuf_eq (b : PathBufs) (hnul : nulChar ∉ path) (hlen : path.length < dfsPathMax) :
    (pathSeparate path = none ∧
      separateBuf b path = .error (if path.head? = some '/' then .overrun else .assertion)) ∨
    (pathSeparate path = some none ∧
      ∃ r, separateBuf b path = .ok r ∧ r.2.head? = some nulChar) ∨
    ∃ pp nm r, pathSeparate path = some (some (pp, nm)) ∧ separateBuf b path = .ok r ∧
      r.2.head? ≠ some nulChar ∧ bufText r.1 = pp ∧ bufText r.2 = nm ∧ nulChar ∉ pp := by
  cases path with
  | nil => exact .inl ⟨rfl, rfl⟩
  | cons c rest =>
    rw [pathSeparate, separateBuf]
    by_cases hc : c = '/'
    · rw [if_pos hc, if_pos hc, hc]
      have hb := b.name_length
      have hput : putChars b.name 0 [nulChar] = .ok ([nulChar] ++ b.name.drop 1) := by
        rw [putChars_zero, if_pos (by rw [hb]; decide)]
        rfl
      have hn : ([nulChar] ++ b.name.drop 1).length = tmpfsNameMax := by
        rw [List.length_append, List.length_drop, hb]
        rfl
      rw [List.length_cons] at hlen
      rw [hput]
      rcases @separateLoop_eq (b.parent, [nulChar] ++ b.name.drop 1) [] [] rest b.parent_length hn
        (by simpa using by omega) with
        ⟨h1, h2⟩ | ⟨h1, h2⟩ | ⟨pp, nm, t, t', h1, h2, h3⟩
      · rw [ok_bind, h2, error_bind]
        exact .inl ⟨h1, rfl⟩
      · rw [ok_bind, h2, ok_bind]
        refine .inr (.inl ⟨h1, ?_⟩)
        dsimp only
        by_cases hhead : b.parent.head? = some nulChar
        · rw [if_pos hhead, putChars_zero, if_pos (by rw [b.parent_length]; decide), ok_bind]
          exact ⟨_, rfl, rfl⟩
        · rw [if_neg hhead]
          exact ⟨_, rfl, rfl⟩
      · obtain ⟨cs, hcs, hnm, -, hpath, hpp⟩ := separateFrom_spec List.not_mem_nil h1
        rw [List.nil_append] at hpath hpp
        have hmem : ∀ a ∈ slashed (cs ++ [nm]), a ≠ nulChar := by
          intro a ha he
          rw [← hpath, ← hc, he] at ha
          exact hnul ha
        have hnmnul : nulChar ∉ nm := fun h =>
          hmem _ (mem_slashed (List.mem_append_right _ (List.mem_singleton_self nm)) h) rfl
        have hppnul : nulChar ∉ if pp = [] then ['/'] else pp := by
          rw [hpp]
          split
          · decide
          · exact fun h => hmem _ (by rw [slashed_append]; exact List.mem_append_left _ h) rfl
        have hhead : ∀ {w u : List Char}, w ≠ [] → nulChar ∉ w →
            (w ++ nulChar :: u).head? ≠ some nulChar := by
          intro w u hw hnot he
          obtain ⟨a, w, rfl⟩ := List.exists_cons_of_ne_nil hw
          exact hnot (Option.some.inj he ▸ List.mem_cons_self)
        rw [ok_bind, h2, ok_bind]
        refine .inr (.inr ⟨if pp = [] then ['/'] else pp, nm, ?_⟩)
        dsimp only
        by_cases hnil : pp = []
        · have hfirst : (pp ++ nulChar :: t).head? = some nulChar := by
            rw [hnil]
            rfl
          have htwo : ['/', nulChar].length ≤ (pp ++ nulChar :: t).length := by
            rw [h3]
            decide
          rw [if_pos hfirst, putChars_zero, if_pos htwo, ok_bind]
          refine ⟨_, h1, rfl, hhead hnm.1 hnmnul, ?_, bufText_append hnmnul, hppnul⟩
          rw [if_pos hnil]
          exact bufText_append (s := ['/']) (by decide)
        · rw [if_neg hnil] at hppnul
          rw [if_neg (hhead hnil hppnul)]
          refine ⟨_, h1, rfl, hhead hnm.1 hnmnul, ?_, bufText_append hnmnul, ?_⟩
          · rw [if_neg hnil]
            exact bufText_append hppnul
          · rw [if_neg hnil]
            exact hppnul
    · rw [if_neg hc, if_neg hc]
      refine .inl ⟨rfl, ?_⟩
      rw [if_neg (by simpa using hc)]

end

/-! ## Lookups -/

namespace Tmpfs

variable {α : Type} [DecidableEq α] {s : Tmpfs α} {d : α} {path curpath : List Char}

variable (s) in
/-- **The names** of the nodes that are linked are stored with their NUL, and are distinct among
siblings. -/
structure NamesInv : Prop where
  root : s.root ∈ s.live
  live : ∀ d ∈ s.live, ∀ f ∈ (s.file d).subdirs, f ∈ s.live
  stored : ∀ d ∈ s.live, ∀ f ∈ (s.file d).subdirs, Stored (s.file f).name
  names : ∀ d ∈ s.live, ((s.file d).subdirs.map fun f => bufText (s.file f).name).Nodup

theorem searchName_eq {name : List Char} {l : List α} (hl : ∀ f ∈ l, Stored (s.file f).name)
    (h : nulChar ∈ name ∨ tmpfsNameMax ≤ name.length) :
    s.searchName name l = .ok (l.find? fun f => (s.texts.file f).name = bufText name) := by
  induction l with
  | nil => rfl
  | cons f l ih =>
    obtain ⟨hnul, hshort, -⟩ := hl f List.mem_cons_self
    obtain ⟨t, ht⟩ := exists_of_nul hnul
    have hcmp : strcmpEq (s.file f).name name = .ok (decide ((s.texts.file f).name = bufText name)) := by
      rw [ht, strcmpEq_append nul_notMem_bufText (h.imp_right fun hle => by omega)]
      rfl
    rw [searchName, hcmp, ok_bind, ih fun f hf => hl f (List.mem_cons_of_mem _ hf), List.find?_cons]
    by_cases he : (s.texts.file f).name = bufText name
    · rw [decide_eq_true he]
      rfl
    · rw [decide_eq_false he]
      rfl

theorem findSubpath_eq (hs : s.NamesInv) {pre rest : List Char} (hd : d ∈ s.live)
    (hnul : nulChar ∉ pre ++ rest) (hpre : '/' ∉ pre) :
    s.findSubpath d (pre ++ rest) rest =
      match s.texts.lookupFrom d (pre ++ rest) rest with
      | none => .error .overrun
      | some r => .ok r := by
  induction rest generalizing d pre with
  | nil =>
    rw [findSubpath, lookupFrom, subdirName_eq]
    by_cases hlen : (getSubdir (pre ++ [])).length ≤ tmpfsNameMax
    · rw [if_pos hlen, if_pos hlen, ok_bind,
        searchName_eq (hs.stored d hd) (.inl (by simp)), bufText_append hnul]
      rfl
    · rw [if_neg hlen, if_neg hlen]
      rfl
  | cons c rest ih =>
    rw [findSubpath, lookupFrom]
    by_cases hc : c = '/'
    · rw [if_pos hc, if_pos hc, subdirName_eq]
      by_cases hlen : (getSubdir (pre ++ c :: rest)).length ≤ tmpfsNameMax
      · have hsub : nulChar ∉ getSubdir (pre ++ c :: rest) := fun h => hnul
          ((List.dropWhile_suffix _).subset ((List.takeWhile_prefix _).subset h))
        have hbuf : nulChar ∈ getSubdir (pre ++ c :: rest) ++ List.replicate
              (tmpfsNameMax - (getSubdir (pre ++ c :: rest)).length) nulChar ∨
            tmpfsNameMax ≤ (getSubdir (pre ++ c :: rest) ++ List.replicate
              (tmpfsNameMax - (getSubdir (pre ++ c :: rest)).length) nulChar).length := by
          right
          rw [List.length_append, List.length_replicate]
          omega
        rw [if_pos hlen, if_pos hlen, ok_bind, searchName_eq (hs.stored d hd) hbuf, bufText_pad hsub,
          ok_bind]
        have hchild : ((s.file d).subdirs.find? fun f =>
            (s.texts.file f).name = getSubdir (pre ++ c :: rest)) =
            s.texts.child d (getSubdir (pre ++ c :: rest)) := rfl
        rw [hchild]
        cases hf : s.texts.child d (getSubdir (pre ++ c :: rest)) with
        | none => rfl
        | some f =>
          have hrest : nulChar ∉ [] ++ rest := fun h =>
            hnul (List.mem_append_right _ (List.mem_cons_of_mem _ h))
          exact ih (hs.live d hd f (child_mem (s := s.texts) hf)) hrest List.not_mem_nil
      · rw [if_neg hlen, if_neg hlen]
        rfl
    · rw [if_neg hc, if_neg hc]
      have happ : pre ++ c :: rest = (pre ++ [c]) ++ rest := by simp
      rw [happ] at hnul ⊢
      exact ih hd hnul (by simp [hpre, Ne.symm hc])

/-- **A lookup stays in its buffer** exactly when `Tmpfs.lookup` has a result, and has that result. -/
theorem lookupBuf_eq (hs : s.NamesInv) (hnul : nulChar ∉ path) :
    s.lookupBuf path =
      match s.texts.lookup path with
      | none => .error .overrun
      | some r => .ok r := by
  unfold lookupBuf lookup
  have hdrop : nulChar ∉ path.dropWhile (· = '/') := fun h => hnul ((List.dropWhile_suffix _).subset h)
  cases hw : path.dropWhile (· = '/') with
  | nil => rfl
  | cons c rest =>
    rw [hw] at hdrop
    exact @findSubpath_eq _ _ _ _ hs [] _ hs.root hdrop List.not_mem_nil

end Tmpfs

end RtThread
