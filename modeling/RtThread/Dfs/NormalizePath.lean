import RtThread.Kservice.Vsnprintf
import RtThread.Lib.CString
import RtThread.Lib.Paths

/-!
# Normalized paths

`dfs_normalize_path` joins a directory and a file name in a new buffer and then rewrites the path in
place, with a cursor `src` that reads and a cursor `dst` that writes. All accesses are checked here
against the buffer.

* `dfsNormalizePath`: the function, with its loops `skipSlashes`, `copyName`, `eraseSlashes` and
  `upLoop`;
* `Cursors`: what is written are the names of a directory, and what is to be read is the rest;
  `pathBody_spec`: what one turn of the loop does;
* **`normalize_path`**: the result is the lexical resolution, and a normalized path is left as it is;
* **`normalize_path_join`**: a path in a directory that was normalized before is the joined path.
-/

namespace RtThread

/-! ## The function -/

/-- The buffer and the cursors. -/
structure PathState where
  buf : List UInt8
  src : ℕ
  dst : ℕ

/-- A byte is written, if it lies in the buffer. -/
def putByte (buf : List UInt8) (i : ℕ) (c : UInt8) : Option (List UInt8) :=
  if i < buf.length then some (buf.set i c) else none

/-- `while ((*src == '/') && (*src != '\0')) src++;`. -/
def skipSlashes (buf : List UInt8) : ℕ → ℕ → Option ℕ
  | 0, _ => none
  | n + 1, src => do
    let c ← buf[src]?
    if c = chr '/' ∧ c ≠ 0 then skipSlashes buf n (src + 1) else some src

/-- `while ((c = *src++) != '\0' && c != '/') *dst++ = c;`, with the last `c`. -/
def copyName : ℕ → PathState → Option (UInt8 × PathState)
  | 0, _ => none
  | n + 1, s => do
    let c ← s.buf[s.src]?
    if c ≠ 0 ∧ c ≠ chr '/' then
      let buf ← putByte s.buf s.dst c
      copyName n { buf := buf, src := s.src + 1, dst := s.dst + 1 }
    else some (c, { s with src := s.src + 1 })

/-- `while (c == '/') c = *src++;`. -/
def eraseSlashes (buf : List UInt8) : ℕ → UInt8 → ℕ → Option ℕ
  | 0, _, _ => none
  | n + 1, c, src =>
    if c = chr '/' then do
      let c ← buf[src]?
      eraseSlashes buf n c (src + 1)
    else some src

/-- `while (dst0 < dst && dst[-1] != '/') dst--;`. -/
def upLoop (buf : List UInt8) : ℕ → Option ℕ
  | 0 => some 0
  | dst + 1 => do
    let c ← buf[dst]?
    if c ≠ chr '/' then upLoop buf dst else some (dst + 1)

/-- What a turn of the loop leads to: the next turn, the end of the loop, or the return of a null
pointer. -/
inductive PathTurn where
  | next (s : PathState)
  | stop (s : PathState)
  | null

/-- `dst - dst0 == 1 && dst[-1] == '/'`. -/
def atRoot (s : PathState) : Option Bool :=
  if s.dst ≠ 1 then some false else (s.buf[0]?).map fun c => c = chr '/'

/-- `up_one`. -/
def upOne (s : PathState) : Option PathTurn :=
  (atRoot s).bind fun root =>
    if root = false then
      if s.dst = 0 then some .null
      else (upLoop s.buf (s.dst - 1)).map fun dst => .next { s with dst := dst }
    else (upLoop s.buf s.dst).map fun dst => .next { s with dst := dst }

/-- Copy up to the next `/` and erase all `/`. -/
def copyUp (s : PathState) : Option PathTurn := do
  let (c, s) ← copyName s.buf.length s
  if c = chr '/' then
    let buf ← putByte s.buf s.dst (chr '/')
    let src ← eraseSlashes buf (buf.length + 1) c s.src
    some (.next { buf := buf, src := src - 1, dst := s.dst + 1 })
  else some (.stop s)

/-- The body of the loop. -/
def pathBody (s : PathState) : Option PathTurn := do
  let c ← s.buf[s.src]?
  if c = chr '.' then
    let c1 ← s.buf[s.src + 1]?
    if c1 = 0 then copyUp { s with src := s.src + 1 }
    else if c1 = chr '/' then
      let src ← skipSlashes s.buf s.buf.length (s.src + 2)
      some (.next { s with src := src })
    else if c1 = chr '.' then
      let c2 ← s.buf[s.src + 2]?
      if c2 = 0 then upOne { s with src := s.src + 2 }
      else if c2 = chr '/' then
        let src ← skipSlashes s.buf s.buf.length (s.src + 3)
        upOne { s with src := src }
      else copyUp s
    else copyUp s
  else copyUp s

/-- The loop. The inner `none` is a null pointer. -/
def pathLoop : ℕ → PathState → Option (Option PathState)
  | 0, _ => none
  | n + 1, s => do
    match ← pathBody s with
    | .next s => pathLoop n s
    | .stop s => some (some s)
    | .null => some none

/-- Remove `/` in the end of the path if it exists. -/
def trimSlash (buf : List UInt8) (dst : ℕ) : Option (List UInt8) :=
  if dst = 0 then none
  else if dst - 1 ≠ 0 then
    (buf[dst - 1]?).bind fun c => if c = chr '/' then putByte buf (dst - 1) 0 else some buf
  else some buf

/-- What is done after the loop. -/
def pathFinish (s : PathState) : Option (List UInt8) := do
  let buf ← putByte s.buf s.dst 0
  let buf ← trimSlash buf s.dst
  let c ← buf[0]?
  if c = 0 then
    let buf ← putByte buf 0 (chr '/')
    putByte buf 1 0
  else some buf

/-- What is done with the joined path, which ends with a NUL. -/
def normalizeBuf (fullpath : List UInt8) : Option (Option (List UInt8)) :=
  (pathLoop (fullpath.length + 1) { buf := fullpath, src := 0, dst := 0 }).bind fun r =>
    r.elim (some none) fun s => (pathFinish s).map fun buf => some (cString buf)

/-- `dfs_normalize_path`. `workingDirectory` is the working directory with `DFS_USING_WORKDIR`, and
`malloc` says whether there is memory for the buffer. The inner `none` is a null pointer; there is no
result when an access is outside the buffer or a loop does not end. -/
def dfsNormalizePath (workingDirectory : Option CStr) (malloc : Bool) (directory : Option CStr)
    (filename : CStr) : Option (Option (List UInt8)) :=
  let directory := directory.or workingDirectory
  if filename.chars.head? ≠ some (chr '/') then
    match directory with
    | none => some none
    | some directory =>
      if malloc = false then some none
      else normalizeBuf (directory.chars ++ [chr '/'] ++ filename.chars ++ [0])
  else if malloc = false then some none
  else normalizeBuf (filename.chars ++ [0])

/-! ## The cursors -/

section
variable {buf out rest name tail t : List UInt8} {names : List (List UInt8)} {c : UInt8}
  {s : PathState} {N n src : ℕ}

theorem take_set {i : ℕ} (h : i < buf.length) : (buf.set i c).take (i + 1) = buf.take i ++ [c] := by
  rw [List.take_add_one, List.take_set_of_le (Nat.le_refl i), List.getElem?_set_self h]
  rfl

theorem read_of_drop {x : UInt8} {l : List UInt8} (h : buf.drop src = x :: l) :
    buf[src]? = some x := by
  have hget : (buf.drop src)[0]? = buf[src + 0]? := List.getElem?_drop
  rw [h, Nat.add_zero] at hget
  exact hget.symm

theorem read_of_take {x : UInt8} {l : List UInt8} (h : buf.take (l.length + 1) = l ++ [x]) :
    buf[l.length]? = some x := by
  rw [← List.getElem?_take_of_lt (Nat.lt_succ_self l.length), h,
    List.getElem?_append_right (Nat.le_refl _), Nat.sub_self]
  rfl

/-- `out` is written, and `rest` is to be read. -/
structure Cursors (N : ℕ) (s : PathState) (out rest : List UInt8) : Prop where
  size : s.buf.length = N
  written : s.buf.take s.dst = out
  unread : s.buf.drop s.src = rest ++ [0]
  le : s.dst ≤ s.src
  no_nul : (0 : UInt8) ∉ rest

/-- The next bytes are those of the rest. -/
theorem Cursors.read (h : Cursors N s out rest) (i : ℕ) :
    s.buf[s.src + i]? = (rest ++ [0])[i]? := by
  rw [← h.unread, List.getElem?_drop]

theorem Cursors.src_lt (h : Cursors N s out rest) : s.src + rest.length + 1 = N := by
  have hlen := congrArg List.length h.unread
  rw [List.length_drop, List.length_append, List.length_singleton, h.size] at hlen
  omega

/-- **Copying a name.** -/
theorem copyName_spec (hsize : s.buf.length = N) (hout : s.buf.take s.dst = out)
    (hrest : s.buf.drop s.src = name ++ c :: tail) (hle : s.dst ≤ s.src)
    (hname : ∀ x ∈ name, x ≠ 0 ∧ x ≠ chr '/') (hc : c = 0 ∨ c = chr '/') (hn : name.length < n) :
    ∃ buf, copyName n s = some (c, { buf := buf, src := s.src + name.length + 1
                                     dst := s.dst + name.length }) ∧
      buf.length = N ∧ buf.take (s.dst + name.length) = out ++ name ∧
      buf.drop (s.src + name.length) = c :: tail := by
  induction name generalizing s out n with
  | nil =>
    obtain ⟨n, rfl⟩ := Nat.exists_eq_succ_of_ne_zero (Nat.ne_of_gt hn)
    have hread := read_of_drop hrest
    refine ⟨s.buf, ?_, hsize, ?_, hrest⟩
    · have hstop : ¬ (c ≠ 0 ∧ c ≠ chr '/') := fun h => hc.elim h.1 h.2
      simp only [copyName, hread, Option.bind_eq_bind, Option.bind_some, if_neg hstop]
      rfl
    · rw [List.append_nil]
      exact hout
  | cons x name ih =>
    obtain ⟨n, rfl⟩ := Nat.exists_eq_succ_of_ne_zero (Nat.ne_of_gt (Nat.zero_lt_of_lt hn))
    have hread := read_of_drop hrest
    have hlt : s.src < s.buf.length := (List.getElem?_eq_some_iff.mp hread).1
    have hput : putByte s.buf s.dst x = some (s.buf.set s.dst x) := if_pos (by omega)
    have hx := hname x List.mem_cons_self
    have htake : (s.buf.set s.dst x).take (s.dst + 1) = out ++ [x] := by
      rw [take_set (by omega), hout]
    obtain ⟨buf, hcopy, hsize', hout', hrest'⟩ := ih
      (s := { buf := s.buf.set s.dst x, src := s.src + 1, dst := s.dst + 1 }) (n := n)
      (by rw [List.length_set]; exact hsize) htake
      (by
        dsimp only
        rw [List.drop_set_of_lt (by omega), ← List.drop_drop, hrest]
        rfl)
      (Nat.succ_le_succ hle) (fun y hy => hname y (List.mem_cons_of_mem _ hy))
      (Nat.lt_of_succ_lt_succ hn)
    refine ⟨buf, ?_, hsize', ?_, ?_⟩
    · simp only [copyName, hread, hput, Option.bind_eq_bind, Option.bind_some, if_pos hx, hcopy,
        List.length_cons]
      congr 3
      all_goals omega
    · rw [List.append_assoc] at hout'
      rw [List.length_cons, ← Nat.add_assoc, Nat.add_right_comm]
      exact hout'
    · rw [List.length_cons, ← Nat.add_assoc, Nat.add_right_comm]
      exact hrest'

/-- Slashes are skipped. -/
theorem skipSlashes_spec (hrest : buf.drop src = t ++ [0]) (hn : t.length < n) :
    ∃ src', skipSlashes buf n src = some src' ∧ src ≤ src' ∧
      buf.drop src' = t.dropWhile (· = chr '/') ++ [0] := by
  induction t generalizing src n with
  | nil =>
    obtain ⟨n, rfl⟩ := Nat.exists_eq_succ_of_ne_zero (Nat.ne_of_gt hn)
    have hread := read_of_drop hrest
    refine ⟨src, ?_, Nat.le_refl _, hrest⟩
    simp only [skipSlashes, hread, Option.bind_eq_bind, Option.bind_some]
    rfl
  | cons x t ih =>
    obtain ⟨n, rfl⟩ := Nat.exists_eq_succ_of_ne_zero (Nat.ne_of_gt (Nat.zero_lt_of_lt hn))
    have hread := read_of_drop hrest
    rw [List.dropWhile_cons]
    simp only [skipSlashes, hread, Option.bind_eq_bind, Option.bind_some]
    by_cases hx : x = chr '/'
    · have hx0 : x = chr '/' ∧ x ≠ 0 := ⟨hx, by rw [hx]; decide⟩
      rw [if_pos hx0, if_pos (decide_eq_true hx)]
      have hdrop : buf.drop (src + 1) = t ++ [0] := by
        rw [← List.drop_drop, hrest]
        rfl
      obtain ⟨src', hskip, hle, hrest'⟩ := ih hdrop (Nat.lt_of_succ_lt_succ hn)
      exact ⟨src', hskip, Nat.le_of_succ_le hle, hrest'⟩
    · rw [if_neg fun h => hx h.1, if_neg (by simpa using hx)]
      exact ⟨src, rfl, Nat.le_refl _, hrest⟩

/-- Slashes are erased, with the byte behind them. -/
theorem eraseSlashes_spec (hrest : buf.drop src = t ++ [0]) (hn : t.length + 1 < n) :
    ∃ src', eraseSlashes buf n (chr '/') src = some (src' + 1) ∧ src ≤ src' ∧
      buf.drop src' = t.dropWhile (· = chr '/') ++ [0] := by
  induction t generalizing src n with
  | nil =>
    obtain ⟨n, rfl⟩ := Nat.exists_eq_succ_of_ne_zero (Nat.ne_of_gt (Nat.zero_lt_of_lt hn))
    obtain ⟨n, rfl⟩ := Nat.exists_eq_succ_of_ne_zero (n := n) (by omega)
    have hread := read_of_drop hrest
    refine ⟨src, ?_, Nat.le_refl _, hrest⟩
    simp only [eraseSlashes, hread, Option.bind_eq_bind, Option.bind_some, if_pos]
    rfl
  | cons x t ih =>
    obtain ⟨n, rfl⟩ := Nat.exists_eq_succ_of_ne_zero (Nat.ne_of_gt (Nat.zero_lt_of_lt hn))
    have hread := read_of_drop hrest
    rw [List.dropWhile_cons]
    simp only [eraseSlashes, hread, Option.bind_eq_bind, Option.bind_some, if_pos]
    by_cases hx : x = chr '/'
    · rw [if_pos (decide_eq_true hx), hx]
      have hdrop : buf.drop (src + 1) = t ++ [0] := by
        rw [← List.drop_drop, hrest]
        rfl
      obtain ⟨src', herase, hle, hrest'⟩ := ih hdrop (Nat.lt_of_succ_lt_succ hn)
      exact ⟨src', herase, Nat.le_of_succ_le hle, hrest'⟩
    · obtain ⟨n, rfl⟩ := Nat.exists_eq_succ_of_ne_zero (n := n) (by omega)
      rw [if_neg (by simpa using hx)]
      refine ⟨src, ?_, Nat.le_refl _, hrest⟩
      rw [eraseSlashes, if_neg hx]

/-- **A name is copied**, with one slash behind it if there are any. -/
theorem copyUp_spec (h : Cursors N s out (name ++ tail)) (hname : chr '/' ∉ name) :
    (tail = [] → ∃ s', copyUp s = some (.stop s') ∧ s'.buf.length = N ∧
      s'.buf.take s'.dst = out ++ name ∧ s'.dst < N) ∧
    ∀ t, tail = chr '/' :: t → ∃ s', copyUp s = some (.next s') ∧
      Cursors N s' (out ++ name ++ [chr '/']) (t.dropWhile (· = chr '/')) := by
  have hchars : ∀ x ∈ name, x ≠ 0 ∧ x ≠ chr '/' := fun x hx =>
    ⟨fun e => h.no_nul (List.mem_append_left _ (e ▸ hx)), fun e => hname (e ▸ hx)⟩
  have hlt := h.src_lt
  rw [List.length_append] at hlt
  have hunread := h.unread
  have hle := h.le
  constructor
  · rintro rfl
    rw [List.append_nil] at hunread
    obtain ⟨buf, hcopy, hsize, hout, -⟩ := copyName_spec (n := s.buf.length) h.size h.written hunread
      h.le hchars (.inl rfl) (by rw [h.size]; omega)
    refine ⟨⟨buf, s.src + name.length + 1, s.dst + name.length⟩, ?_, hsize, hout, ?_⟩
    · simp only [copyUp, hcopy, Option.bind_eq_bind, Option.bind_some]
      rfl
    · dsimp only
      omega
  · rintro t rfl
    rw [List.append_assoc, List.cons_append] at hunread
    obtain ⟨buf, hcopy, hsize, hout, hrest⟩ := copyName_spec (n := s.buf.length) h.size h.written
      hunread h.le hchars (.inr rfl) (by rw [h.size]; omega)
    rw [List.length_cons] at hlt
    have hput : putByte buf (s.dst + name.length) (chr '/') =
        some (buf.set (s.dst + name.length) (chr '/')) := if_pos (by omega)
    have hdrop : (buf.set (s.dst + name.length) (chr '/')).drop (s.src + name.length + 1) =
        t ++ [0] := by
      rw [List.drop_set_of_lt (by omega), ← List.drop_drop, hrest]
      rfl
    obtain ⟨src, herase, hsrc, hrest'⟩ := eraseSlashes_spec
      (n := (buf.set (s.dst + name.length) (chr '/')).length + 1) hdrop (by
        rw [List.length_set]
        omega)
    refine ⟨⟨buf.set (s.dst + name.length) (chr '/'), src, s.dst + name.length + 1⟩, ?_,
      ⟨?_, ?_, hrest', ?_, ?_⟩⟩
    · simp only [copyUp, hcopy, hput, herase, Option.bind_eq_bind, Option.bind_some, if_pos]
      rfl
    · dsimp only
      rw [List.length_set, hsize]
    · dsimp only
      rw [take_set (by omega), hout]
    · dsimp only
      omega
    · refine fun hmem => h.no_nul (List.mem_append_right _ (List.mem_cons_of_mem _ ?_))
      exact List.dropWhile_subset _ hmem

/-- **Going up** over the last name. -/
theorem upLoop_spec (hbuf : buf.take (out.length + name.length) = out ++ name)
    (hout : out.getLast? = some (chr '/')) (hname : chr '/' ∉ name) :
    upLoop buf (out.length + name.length) = some out.length := by
  induction name using List.reverseRecOn with
  | nil =>
    obtain ⟨out', rfl⟩ := List.getLast?_eq_some_iff.mp hout
    rw [List.append_nil, List.length_append, List.length_singleton, List.length_nil,
      Nat.add_zero] at hbuf
    rw [List.length_append, List.length_singleton, List.length_nil, Nat.add_zero, upLoop,
      read_of_take hbuf]
    rfl
  | append_singleton name x ih =>
    have hlen : out.length + (name ++ [x]).length = (out ++ name).length + 1 := by
      rw [List.length_append, List.length_append, List.length_singleton]
      omega
    rw [hlen, ← List.append_assoc] at hbuf
    have hx : x ≠ chr '/' := fun e =>
      hname (e ▸ List.mem_append_right _ (List.mem_singleton_self x))
    have htake : buf.take (out.length + name.length) = out ++ name := by
      have hcut := congrArg (List.take (out ++ name).length) hbuf
      rw [List.take_take, Nat.min_eq_left (Nat.le_succ _), List.take_left] at hcut
      rwa [List.length_append] at hcut
    rw [hlen, upLoop, read_of_take hbuf]
    simp only [Option.bind_eq_bind, Option.bind_some, if_pos hx]
    rw [List.length_append]
    exact ih htake fun hmem => hname (List.mem_append_left _ hmem)

/-- **`up_one`** leaves the directory, or stays at the root. -/
theorem upOne_spec (h : Cursors N s (parentPath (chr '/') names) rest)
    (hnames : ∀ c ∈ names, chr '/' ∉ c) :
    ∃ s', upOne s = some (.next s') ∧
      Cursors N s' (parentPath (chr '/') names.dropLast) rest := by
  have hlen := congrArg List.length h.written
  have hlt := h.src_lt
  have hle := h.le
  rw [List.length_take, h.size, Nat.min_eq_left (by omega)] at hlen
  rcases List.eq_nil_or_concat names with rfl | ⟨names, c, rfl⟩
  · -- at the root
    have hdst : s.dst = 1 := hlen
    have hwritten := h.written
    rw [hdst] at hwritten
    have hroot : s.buf[0]? = some (chr '/') := read_of_take (l := []) hwritten
    have hcheck : atRoot s = some true := by
      rw [atRoot, if_neg (not_not.mpr hdst), hroot]
      rfl
    have hup : upLoop s.buf s.dst = some s.dst := by
      rw [hdst, upLoop, hroot]
      rfl
    refine ⟨s, ?_, h⟩
    rw [upOne, hcheck, Option.bind_some, if_neg Bool.noConfusion, hup, Option.map_some]
  · -- the last name goes
    rw [List.concat_eq_append] at *
    have hwritten := h.written
    rw [parentPath_append, ← List.append_assoc] at hwritten hlen
    rw [List.dropLast_concat]
    have hc : chr '/' ∉ c := hnames c (List.mem_append_right _ (List.mem_singleton_self c))
    have hpos : 0 < (parentPath (chr '/') names).length := Nat.zero_lt_succ _
    rw [List.length_append, List.length_append, List.length_singleton] at hlen
    have hcut : ∀ l l' : List UInt8, parentPath (chr '/') names ++ c ++ [chr '/'] = l ++ l' →
        s.buf.take l.length = l := fun l l' he => by
      have hl := congrArg List.length he
      rw [List.length_append, List.length_append, List.length_append, List.length_singleton] at hl
      have htake := congrArg (List.take l.length) hwritten
      rwa [List.take_take, Nat.min_eq_left (by omega), he, List.take_left] at htake
    have hdir := hcut (parentPath (chr '/') names) (c ++ [chr '/']) (List.append_assoc ..)
    have hname := hcut (parentPath (chr '/') names ++ c) [chr '/'] rfl
    rw [List.length_append] at hname
    have hdst : s.dst - 1 = (parentPath (chr '/') names).length + c.length := by omega
    have hcheck : atRoot s = some false := if_pos (by omega)
    have hup : upLoop s.buf (s.dst - 1) = some (parentPath (chr '/') names).length := by
      rw [hdst]
      exact upLoop_spec hname (parentPath_getLast names) hc
    refine ⟨{ s with dst := (parentPath (chr '/') names).length }, ?_,
      ⟨h.size, hdir, h.unread, ?_, h.no_nul⟩⟩
    · have hne : s.dst ≠ 0 := by omega
      rw [upOne, hcheck, Option.bind_some, if_pos rfl, if_neg hne, hup, Option.map_some]
    · dsimp only
      omega

/-! ## One turn of the loop -/

/-- The names of the directory that has been written, and what follows, which starts with a name. -/
structure AtName (N : ℕ) (s : PathState) (names : List (List UInt8)) (rest : List UInt8) : Prop where
  cursors : Cursors N s (parentPath (chr '/') names) rest
  valid : ∀ c ∈ names, c ≠ [] ∧ chr '/' ∉ c ∧ (0 : UInt8) ∉ c
  start : rest.head? ≠ some (chr '/')

/-- The loop has ended with the path of the directory, or with a name in it. -/
structure AtEnd (N : ℕ) (s : PathState) (names : List (List UInt8)) : Prop where
  size : s.buf.length = N
  room : s.dst < N
  valid : ∀ c ∈ names, c ≠ [] ∧ chr '/' ∉ c ∧ (0 : UInt8) ∉ c
  written : s.buf.take s.dst = parentPath (chr '/') names ∨
    (names ≠ [] ∧ s.buf.take s.dst = render (chr '/') names)

/-- What follows slashes does not start with one. -/
theorem dropWhile_head? (t : List UInt8) :
    (t.dropWhile (· = chr '/')).head? ≠ some (chr '/') := by
  have hhead := List.head?_dropWhile_not (· = chr '/') t
  cases hx : (t.dropWhile (· = chr '/')).head? with
  | none => exact nofun
  | some x =>
    rw [hx] at hhead
    intro e
    rw [Option.some.inj e] at hhead
    simp at hhead

theorem dropWhile_length (t : List UInt8) :
    (t.dropWhile (· = chr '/')).length ≤ t.length := (List.dropWhile_sublist _).length_le

/-- A path that does not start with a slash starts with a name. -/
theorem exists_name (hnil : rest ≠ []) (hstart : rest.head? ≠ some (chr '/')) :
    ∃ name, name ≠ [] ∧ chr '/' ∉ name ∧ (rest = name ∨ ∃ t, rest = name ++ chr '/' :: t) := by
  induction rest with
  | nil => exact absurd rfl hnil
  | cons x rest ih =>
    have hx : chr '/' ≠ x := fun e => hstart (by rw [e]; rfl)
    by_cases hr : rest = []
    · refine ⟨[x], List.cons_ne_nil _ _, fun hm => hx (List.mem_singleton.mp hm), .inl ?_⟩
      rw [hr]
    by_cases hs : rest.head? = some (chr '/')
    · obtain ⟨t, rfl⟩ : ∃ t, rest = chr '/' :: t := by
        cases rest with
        | nil => cases hs
        | cons y t => exact ⟨t, by rw [Option.some.inj hs]⟩
      exact ⟨[x], List.cons_ne_nil _ _, fun hm => hx (List.mem_singleton.mp hm), .inr ⟨t, rfl⟩⟩
    · obtain ⟨name, -, hslash, hname⟩ := ih hr hs
      refine ⟨x :: name, List.cons_ne_nil _ _,
        List.not_mem_cons_of_ne_of_not_mem hx hslash, ?_⟩
      rcases hname with rfl | ⟨t, rfl⟩
      · exact .inl rfl
      · exact .inr ⟨t, rfl⟩

/-- A component that is neither `.` nor `..` is copied. -/
theorem pathBody_name (h : Cursors N s out (name ++ tail)) (hnil : name ≠ [])
    (hslash : chr '/' ∉ name) (hdot : name ≠ [chr '.']) (hdots : name ≠ [chr '.', chr '.']) :
    pathBody s = copyUp s := by
  have hno : ∀ x ∈ name, x ≠ 0 ∧ x ≠ chr '/' := fun x hx =>
    ⟨fun e => h.no_nul (List.mem_append_left _ (e ▸ hx)), fun e => hslash (e ▸ hx)⟩
  match name with
  | [] => exact absurd rfl hnil
  | x :: name =>
    have h0 : s.buf[s.src]? = some x := h.read 0
    by_cases hx : x = chr '.'
    swap
    · simp only [pathBody, h0, Option.bind_eq_bind, Option.bind_some, if_neg hx]
    match name with
    | [] => exact absurd (by rw [hx]) hdot
    | y :: name =>
      have h1 : s.buf[s.src + 1]? = some y := h.read 1
      obtain ⟨hy0, hy⟩ := hno y (List.mem_cons_of_mem _ List.mem_cons_self)
      by_cases hydot : y = chr '.'
      swap
      · simp only [pathBody, h0, h1, Option.bind_eq_bind, Option.bind_some, if_pos hx, if_neg hy0,
          if_neg hy, if_neg hydot]
      match name with
      | [] => exact absurd (by rw [hx, hydot]) hdots
      | z :: name =>
        have h2 : s.buf[s.src + 2]? = some z := h.read 2
        obtain ⟨hz0, hz⟩ := hno z
          (List.mem_cons_of_mem _ (List.mem_cons_of_mem _ List.mem_cons_self))
        simp only [pathBody, h0, h1, h2, Option.bind_eq_bind, Option.bind_some, if_pos hx,
          if_neg hy0, if_neg hy, if_pos hydot, if_neg hz0, if_neg hz]

/-- The cursor `src` moves on. -/
theorem Cursors.move (h : Cursors N s out rest) {src' : ℕ} {rest' : List UInt8}
    (hdrop : s.buf.drop src' = rest' ++ [0]) (hle : s.src ≤ src') (hno : (0 : UInt8) ∉ rest') :
    Cursors N { s with src := src' } out rest' :=
  ⟨h.size, h.written, hdrop, Nat.le_trans h.le hle, hno⟩

/-- The component `.`. -/
theorem pathBody_dot (h : Cursors N s out (chr '.' :: tail)) :
    (tail = [] → ∃ s', pathBody s = some (.stop s') ∧ s'.buf.length = N ∧
      s'.buf.take s'.dst = out ∧ s'.dst < N) ∧
    ∀ t, tail = chr '/' :: t → ∃ s', pathBody s = some (.next s') ∧
      Cursors N s' out (t.dropWhile (· = chr '/')) := by
  have h0 : s.buf[s.src]? = some (chr '.') := h.read 0
  constructor
  · rintro rfl
    have h1 : s.buf[s.src + 1]? = some 0 := h.read 1
    have hdrop : s.buf.drop (s.src + 1) = [] ++ [0] := by
      rw [← List.drop_drop, h.unread]
      rfl
    have hmove : Cursors N { s with src := s.src + 1 } out ([] ++ []) :=
      h.move hdrop (Nat.le_succ _) List.not_mem_nil
    obtain ⟨s', hcopy, hsize, hout, hlt⟩ := (copyUp_spec hmove List.not_mem_nil).1 rfl
    rw [List.append_nil] at hout
    refine ⟨s', ?_, hsize, hout, hlt⟩
    simp only [pathBody, h0, h1, Option.bind_eq_bind, Option.bind_some, if_pos, hcopy]
  · rintro t rfl
    have h1 : s.buf[s.src + 1]? = some (chr '/') := h.read 1
    have hlt := h.src_lt
    have hdrop : s.buf.drop (s.src + 2) = t ++ [0] := by
      rw [← List.drop_drop, h.unread]
      rfl
    obtain ⟨src', hskip, hle, hrest⟩ := skipSlashes_spec (n := s.buf.length) hdrop (by
      rw [List.length_cons, List.length_cons] at hlt
      rw [h.size]
      omega)
    have hne : ¬ chr '/' = (0 : UInt8) := by decide
    refine ⟨{ s with src := src' }, ?_, h.move hrest (by omega) fun hm => h.no_nul ?_⟩
    · simp only [pathBody, h0, h1, hskip, Option.bind_eq_bind, Option.bind_some, if_pos, if_neg hne]
    · exact List.mem_cons_of_mem _ (List.mem_cons_of_mem _ (List.dropWhile_subset _ hm))

/-- The component `..`. -/
theorem pathBody_dots (h : Cursors N s (parentPath (chr '/') names) (chr '.' :: chr '.' :: tail))
    (hnames : ∀ c ∈ names, chr '/' ∉ c) :
    (tail = [] → ∃ s', pathBody s = some (.next s') ∧
      Cursors N s' (parentPath (chr '/') names.dropLast) []) ∧
    ∀ t, tail = chr '/' :: t → ∃ s', pathBody s = some (.next s') ∧
      Cursors N s' (parentPath (chr '/') names.dropLast) (t.dropWhile (· = chr '/')) := by
  have h0 : s.buf[s.src]? = some (chr '.') := h.read 0
  have h1 : s.buf[s.src + 1]? = some (chr '.') := h.read 1
  have hne : ¬ chr '.' = (0 : UInt8) := by decide
  have hne' : ¬ chr '.' = chr '/' := by decide
  constructor
  · rintro rfl
    have h2 : s.buf[s.src + 2]? = some 0 := h.read 2
    have hdrop : s.buf.drop (s.src + 2) = [] ++ [0] := by
      rw [← List.drop_drop, h.unread]
      rfl
    obtain ⟨s', hup, hs'⟩ := upOne_spec (h.move hdrop (by omega) List.not_mem_nil) hnames
    refine ⟨s', ?_, hs'⟩
    simp only [pathBody, h0, h1, h2, Option.bind_eq_bind, Option.bind_some, if_pos, if_neg hne,
      if_neg hne', hup]
  · rintro t rfl
    have h2 : s.buf[s.src + 2]? = some (chr '/') := h.read 2
    have hlt := h.src_lt
    have hdrop : s.buf.drop (s.src + 3) = t ++ [0] := by
      rw [← List.drop_drop, h.unread]
      rfl
    obtain ⟨src', hskip, hle, hrest⟩ := skipSlashes_spec (n := s.buf.length) hdrop (by
      rw [List.length_cons, List.length_cons, List.length_cons] at hlt
      rw [h.size]
      omega)
    have hslash : ¬ chr '/' = (0 : UInt8) := by decide
    have hno : (0 : UInt8) ∉ t.dropWhile (· = chr '/') := fun hm => h.no_nul
      (List.mem_cons_of_mem _ (List.mem_cons_of_mem _ (List.mem_cons_of_mem _
        (List.dropWhile_subset _ hm))))
    obtain ⟨s', hup, hs'⟩ := upOne_spec (h.move hrest (by omega) hno) hnames
    refine ⟨s', ?_, hs'⟩
    simp only [pathBody, h0, h1, h2, hskip, Option.bind_eq_bind, Option.bind_some, if_pos,
      if_neg hne, if_neg hne', if_neg hslash, hup]

/-- The components of a name, and of what follows it. -/
theorem components_name (hnil : name ≠ []) (hslash : chr '/' ∉ name) (t : List UInt8) :
    components (chr '/') name = [name] ∧
      components (chr '/') (name ++ chr '/' :: t) =
        name :: components (chr '/') (t.dropWhile (· = chr '/')) := by
  refine ⟨components_self hslash hnil, ?_⟩
  rw [components_append, components_self hslash hnil, components_dropWhile]
  rfl

/-- **One turn of the loop** takes one component, or ends the loop. -/
theorem pathBody_spec (h : AtName N s names rest) :
    (∃ s' names' rest', pathBody s = some (.next s') ∧ AtName N s' names' rest' ∧
      rest'.length < rest.length ∧
      (components (chr '/') rest').foldl (resolveStep (chr '.')) names' =
        (components (chr '/') rest).foldl (resolveStep (chr '.')) names) ∨
    ∃ s', pathBody s = some (.stop s') ∧
      AtEnd N s' ((components (chr '/') rest).foldl (resolveStep (chr '.')) names) := by
  have hc := h.cursors
  by_cases hrest : rest = []
  · -- the end of the path
    subst hrest
    have h0 : s.buf[s.src]? = some 0 := hc.read 0
    have hne : ¬ (0 : UInt8) = chr '.' := by decide
    have hc' : Cursors N s (parentPath (chr '/') names) ([] ++ []) := hc
    obtain ⟨s', hcopy, hsize, hout, hlt⟩ := (copyUp_spec hc' List.not_mem_nil).1 rfl
    rw [List.append_nil] at hout
    refine .inr ⟨s', ?_, hsize, hlt, ?_, .inl ?_⟩
    · simp only [pathBody, h0, Option.bind_eq_bind, Option.bind_some, if_neg hne, hcopy]
    · rw [components_nil]
      exact h.valid
    · rw [components_nil]
      exact hout
  obtain ⟨name, hnil, hslash, hform⟩ := exists_name hrest h.start
  have hup : ∀ c ∈ names, chr '/' ∉ c := fun c hc => (h.valid c hc).2.1
  have hdrop : ∀ c ∈ names.dropLast, c ≠ [] ∧ chr '/' ∉ c ∧ (0 : UInt8) ∉ c := fun c hc =>
    h.valid c (List.dropLast_subset _ hc)
  have hpush : (0 : UInt8) ∉ name → ∀ c ∈ names ++ [name],
      c ≠ [] ∧ chr '/' ∉ c ∧ (0 : UInt8) ∉ c := fun h0 c hc => by
    rcases List.mem_append.mp hc with hc | hc
    · exact h.valid c hc
    · rw [List.mem_singleton.mp hc]
      exact ⟨hnil, hslash, h0⟩
  rcases hform with rfl | ⟨t, rfl⟩
  · -- the last component
    rw [(components_name hnil hslash []).1]
    by_cases hdot : rest = [chr '.']
    · subst hdot
      obtain ⟨s', hbody, hsize, hout, hlt⟩ := (pathBody_dot hc).1 rfl
      exact .inr ⟨s', hbody, hsize, hlt, h.valid, .inl hout⟩
    by_cases hdots : rest = [chr '.', chr '.']
    · subst hdots
      obtain ⟨s', hbody, hs'⟩ := (pathBody_dots hc hup).1 rfl
      refine .inl ⟨s', _, [], hbody, ⟨hs', hdrop, nofun⟩, Nat.zero_lt_succ _, ?_⟩
      rw [components_nil]
      rfl
    · have hstep : resolveStep (chr '.') names rest = names ++ [rest] := by
        rw [resolveStep, if_neg hdot, if_neg hdots]
      rw [List.foldl_cons, List.foldl_nil, hstep]
      have hc' : Cursors N s (parentPath (chr '/') names) (rest ++ []) := by rwa [List.append_nil]
      obtain ⟨s', hcopy, hsize, hout, hlt⟩ := (copyUp_spec hc' hslash).1 rfl
      refine .inr ⟨s', (pathBody_name hc' hnil hslash hdot hdots).trans hcopy, hsize, hlt,
        hpush hc.no_nul, .inr ⟨by simp, ?_⟩⟩
      rw [hout, parentPath_render]
  · -- a component with others behind it
    rw [(components_name hnil hslash t).2, List.foldl_cons]
    have hshort : (t.dropWhile (· = chr '/')).length < (name ++ chr '/' :: t).length := by
      have hle := dropWhile_length t
      rw [List.length_append, List.length_cons]
      omega
    by_cases hdot : name = [chr '.']
    · subst hdot
      obtain ⟨s', hbody, hs'⟩ := (pathBody_dot hc).2 t rfl
      exact .inl ⟨s', names, _, hbody, ⟨hs', h.valid, dropWhile_head? t⟩, hshort, rfl⟩
    by_cases hdots : name = [chr '.', chr '.']
    · subst hdots
      obtain ⟨s', hbody, hs'⟩ := (pathBody_dots hc hup).2 t rfl
      exact .inl ⟨s', _, _, hbody, ⟨hs', hdrop, dropWhile_head? t⟩, hshort, rfl⟩
    · have hstep : resolveStep (chr '.') names name = names ++ [name] := by
        rw [resolveStep, if_neg hdot, if_neg hdots]
      obtain ⟨s', hcopy, hs'⟩ := (copyUp_spec hc hslash).2 t rfl
      rw [hstep]
      refine .inl ⟨s', names ++ [name], _, (pathBody_name hc hnil hslash hdot hdots).trans hcopy,
        ⟨?_, hpush fun hm => hc.no_nul (List.mem_append_left _ hm), dropWhile_head? t⟩, hshort, rfl⟩
      rw [parentPath_append, ← List.append_assoc]
      exact hs'

/-! ## The whole path -/

/-- **The loop** resolves what follows. -/
theorem pathLoop_spec (h : AtName N s names rest) (hn : rest.length < n) :
    ∃ s', pathLoop n s = some (some s') ∧
      AtEnd N s' ((components (chr '/') rest).foldl (resolveStep (chr '.')) names) := by
  induction n generalizing s names rest with
  | zero => exact absurd hn (Nat.not_lt_zero _)
  | succ n ih =>
    rcases pathBody_spec h with ⟨s', names', rest', hbody, h', hlt, hfold⟩ | ⟨s', hbody, hend⟩
    · obtain ⟨s'', hloop, hend⟩ := ih h' (by omega)
      rw [hfold] at hend
      refine ⟨s'', ?_, hend⟩
      simp only [pathLoop, hbody, Option.bind_eq_bind, Option.bind_some, hloop]
    · refine ⟨s', ?_, hend⟩
      simp only [pathLoop, hbody, Option.bind_eq_bind, Option.bind_some]

/-- The path of names has no NUL and starts with a slash. -/
theorem render_chars (hvalid : ∀ c ∈ names, c ≠ [] ∧ chr '/' ∉ c ∧ (0 : UInt8) ∉ c) :
    (0 : UInt8) ∉ render (chr '/') names ∧ (render (chr '/') names).head? = some (chr '/') := by
  have hne : (0 : UInt8) ≠ chr '/' := by decide
  rw [render]
  by_cases hnil : names = []
  · rw [if_pos hnil]
    exact ⟨fun hm => hne (List.mem_singleton.mp hm), rfl⟩
  · rw [if_neg hnil]
    constructor
    · intro hm
      obtain ⟨c, hc, hm⟩ := List.mem_flatMap.mp hm
      exact List.not_mem_cons_of_ne_of_not_mem hne (hvalid c hc).2.2 hm
    · cases names with
      | nil => exact absurd rfl hnil
      | cons c names => rfl

/-- The path of names that is not the root does not end with a slash. -/
theorem render_last (hvalid : ∀ c ∈ names, c ≠ [] ∧ chr '/' ∉ c ∧ (0 : UInt8) ∉ c)
    (hnil : names ≠ []) : ∃ l x, render (chr '/') names = l ++ [x] ∧ x ≠ chr '/' := by
  rcases List.eq_nil_or_concat names with rfl | ⟨names, c, rfl⟩
  · exact absurd rfl hnil
  rw [List.concat_eq_append] at *
  obtain ⟨hc, hslash, -⟩ := hvalid c (List.mem_append_right _ (List.mem_singleton_self c))
  rcases List.eq_nil_or_concat c with rfl | ⟨c, x, rfl⟩
  · exact absurd rfl hc
  rw [List.concat_eq_append] at *
  refine ⟨parentPath (chr '/') names ++ c, x, ?_, fun e => hslash ?_⟩
  · rw [← parentPath_render, List.append_assoc]
  · rw [e]
    exact List.mem_append_right _ (List.mem_singleton_self _)

/-- The end of `pathFinish`, for a path that is not empty. -/
theorem pathFinish_end (tail : List UInt8) {buf' : List UInt8} (hput : putByte s.buf s.dst 0 = some buf')
    (htrim : trimSlash buf' s.dst = some (out ++ 0 :: tail)) (hout : (0 : UInt8) ∉ out)
    (hhead : out.head? = some (chr '/')) :
    ∃ buf, pathFinish s = some buf ∧ cString buf = out := by
  obtain ⟨out', rfl⟩ : ∃ out', out = chr '/' :: out' := by
    cases out with
    | nil => cases hhead
    | cons x out' => exact ⟨out', by rw [Option.some.inj hhead]⟩
  have hne : ¬ chr '/' = (0 : UInt8) := by decide
  refine ⟨_, ?_, cString_append hout tail⟩
  simp only [pathFinish, hput, htrim, Option.bind_eq_bind, Option.bind_some, List.cons_append,
    List.getElem?_cons_zero, if_neg hne]

/-- **What is done after the loop** gives the path of the names. -/
theorem pathFinish_spec (h : AtEnd N s names) :
    ∃ buf, pathFinish s = some buf ∧ cString buf = render (chr '/') names := by
  obtain ⟨hno, hhead⟩ := render_chars h.valid
  have hroom := h.room
  have hput : putByte s.buf s.dst 0 = some (s.buf.set s.dst 0) := if_pos (by rw [h.size]; exact hroom)
  have hbuf : s.buf.set s.dst 0 = s.buf.take s.dst ++ 0 :: s.buf.drop (s.dst + 1) := by
    rw [List.set_eq_take_append_cons_drop, if_pos (by rw [h.size]; exact hroom)]
  have hdst : (s.buf.take s.dst).length = s.dst := by
    rw [List.length_take, h.size]
    omega
  rcases h.written with hdir | ⟨hnil, hname⟩
  · by_cases hnil : names = []
    · -- the root keeps its slash
      subst hnil
      have hone : s.dst = 1 := by
        rw [hdir] at hdst
        exact hdst.symm
      refine pathFinish_end (s.buf.drop (s.dst + 1)) hput ?_ hno hhead
      rw [hbuf, hdir, hone]
      rfl
    · -- the slash of another directory goes
      rw [render_parentPath hnil] at hdir
      rw [hdir, List.length_append, List.length_singleton] at hdst
      rw [hdir] at hbuf
      have hread : (s.buf.set s.dst 0)[s.dst - 1]? = some (chr '/') := by
        rw [hbuf, ← hdst, Nat.add_sub_cancel, List.append_assoc,
          List.getElem?_append_right (Nat.le_refl _), Nat.sub_self]
        rfl
      have hset : (s.buf.set s.dst 0).set (s.dst - 1) 0 =
          render (chr '/') names ++ 0 :: 0 :: s.buf.drop (s.dst + 1) := by
        rw [hbuf, ← hdst, Nat.add_sub_cancel, List.append_assoc, List.set_append_right _ _ (Nat.le_refl _),
          Nat.sub_self]
        rfl
      have hlong : 0 < (render (chr '/') names).length := by
        cases hr : render (chr '/') names with
        | nil =>
          rw [hr] at hhead
          cases hhead
        | cons x l => exact Nat.zero_lt_succ _
      refine pathFinish_end (0 :: s.buf.drop (s.dst + 1)) hput ?_ hno hhead
      rw [trimSlash, if_neg (by omega), if_pos (by omega), hread, Option.bind_some, if_pos rfl,
        putByte, if_pos (by rw [List.length_set, h.size]; omega), hset]
  · -- a name has no slash behind it
    obtain ⟨l, x, hlast, hx⟩ := render_last h.valid hnil
    rw [hname] at hbuf hdst
    refine pathFinish_end (s.buf.drop (s.dst + 1)) hput ?_ hno hhead
    rw [hlast, List.length_append, List.length_singleton] at hdst
    have hread : (s.buf.set s.dst 0)[s.dst - 1]? = some x := by
      rw [hbuf, hlast, ← hdst, Nat.add_sub_cancel, List.append_assoc,
        List.getElem?_append_right (Nat.le_refl _), Nat.sub_self]
      rfl
    rw [trimSlash, if_neg (by omega), hread, Option.bind_some, if_neg hx, hbuf]
    split_ifs
    · rfl
    · rfl

/-- **A path that starts with a slash** is resolved. -/
theorem normalizeBuf_spec (hstart : t.head? = some (chr '/')) (hno : (0 : UInt8) ∉ t) :
    normalizeBuf (t ++ [0]) =
      some (some (render (chr '/') (resolve (chr '.') (components (chr '/') t)))) := by
  obtain ⟨t', rfl⟩ : ∃ t', t = chr '/' :: t' := by
    cases t with
    | nil => cases hstart
    | cons x t' => exact ⟨t', by rw [Option.some.inj hstart]⟩
  have hc : Cursors (chr '/' :: t' ++ [0]).length
      { buf := chr '/' :: t' ++ [0], src := 0, dst := 0 } [] ([] ++ chr '/' :: t') :=
    ⟨rfl, rfl, rfl, Nat.le_refl _, hno⟩
  obtain ⟨s', hcopy, hs'⟩ := (copyUp_spec hc List.not_mem_nil).2 t' rfl
  have hbody : pathBody { buf := chr '/' :: t' ++ [0], src := 0, dst := 0 } = some (.next s') := by
    have h0 : (chr '/' :: t' ++ [0])[0]? = some (chr '/') := rfl
    have hne : ¬ chr '/' = chr '.' := by decide
    simp only [pathBody, h0, Option.bind_eq_bind, Option.bind_some, if_neg hne, hcopy]
  have hat : AtName (chr '/' :: t' ++ [0]).length s' [] (t'.dropWhile (· = chr '/')) :=
    ⟨hs', fun c hc => absurd hc List.not_mem_nil, dropWhile_head? t'⟩
  obtain ⟨s'', hloop, hend⟩ := pathLoop_spec (n := (chr '/' :: t' ++ [0]).length) hat (by
    have hle := dropWhile_length t'
    rw [List.length_append, List.length_cons, List.length_singleton]
    omega)
  rw [components_dropWhile] at hend
  obtain ⟨buf, hfinish, hstr⟩ := pathFinish_spec hend
  rw [normalizeBuf, pathLoop]
  simp only [hbody, Option.bind_eq_bind, Option.bind_some, hloop, Option.elim_some, hfinish,
    Option.map_some]
  rw [hstr, components_slash, resolve]

end

/-! ## The result -/

/-- An absolute path whose components are names; the root is the only one that ends with a slash. -/
def NormalPath (p : List UInt8) : Prop :=
  ∃ names, (∀ c ∈ names, IsName (chr '/') (chr '.') c) ∧ p = render (chr '/') names

/-- The path that a directory and a file name stand for. -/
def joinPath (directory : Option CStr) (filename : CStr) : List UInt8 :=
  if filename.chars.head? = some (chr '/') then filename.chars
  else directory.elim [] (fun d => d.chars ++ [chr '/']) ++ filename.chars

/-- The file name is absolute, or the directory is. -/
def AbsolutePath (directory : Option CStr) (filename : CStr) : Prop :=
  filename.chars.head? = some (chr '/') ∨ ∃ d, directory = some d ∧ d.chars.head? = some (chr '/')

/-- The components that are left of a path are names. -/
theorem resolve_components (t : List UInt8) :
    ∀ c ∈ resolve (chr '.') (components (chr '/') t), IsName (chr '/') (chr '.') c :=
  resolve_names fun _ hc => (components_mem hc).1

/-- They have no NUL. -/
theorem resolve_valid {t : List UInt8} (hno : (0 : UInt8) ∉ t) :
    ∀ c ∈ resolve (chr '.') (components (chr '/') t), c ≠ [] ∧ chr '/' ∉ c ∧ (0 : UInt8) ∉ c :=
  fun c hc => by
    have hname := resolve_components t c hc
    refine ⟨hname.ne_nil, hname.no_slash, fun h0 => hno ?_⟩
    exact (components_mem (mem_resolve hc)).2 0 h0

section
variable {workingDirectory directory : Option CStr} {filename : CStr}

theorem joinPath_no_nul (directory : Option CStr) (filename : CStr) :
    (0 : UInt8) ∉ joinPath directory filename := by
  rw [joinPath]
  split_ifs
  · exact filename.no_nul
  · intro hm
    rcases List.mem_append.mp hm with hm | hm
    · cases directory with
      | none => exact absurd hm List.not_mem_nil
      | some d =>
        rcases List.mem_append.mp hm with hm | hm
        · exact d.no_nul hm
        · exact absurd (List.mem_singleton.mp hm) (by decide)
    · exact filename.no_nul hm

theorem joinPath_head? (habs : AbsolutePath directory filename) :
    (joinPath directory filename).head? = some (chr '/') := by
  rw [joinPath]
  split_ifs with hf
  · exact hf
  · obtain ⟨d, rfl, hd⟩ := habs.resolve_left hf
    rw [Option.elim_some, List.append_assoc, List.head?_append, hd]
    rfl

/-- The function works on the joined path. -/
theorem dfsNormalizePath_eq (habs : AbsolutePath (directory.or workingDirectory) filename)
    (malloc : Bool) : dfsNormalizePath workingDirectory malloc directory filename =
      if malloc = false then some none
      else normalizeBuf (joinPath (directory.or workingDirectory) filename ++ [0]) := by
  rw [dfsNormalizePath, joinPath]
  by_cases hf : filename.chars.head? = some (chr '/')
  · rw [if_neg (not_not.mpr hf), if_pos hf]
  · obtain ⟨d, hd, -⟩ := habs.resolve_left hf
    rw [if_pos hf, if_neg hf, hd]
    rfl

end

/-- **`dfs_normalize_path` gives the lexical resolution** of an absolute path, without an access
outside its buffer, and a null pointer only without memory. The result is a normalized path, and
normalizing it again, in any directory, gives it again. -/
theorem normalize_path (workingDirectory directory : Option CStr) (filename : CStr)
    (habs : AbsolutePath (directory.or workingDirectory) filename) :
    dfsNormalizePath workingDirectory false directory filename = some none ∧
    ∃ p : CStr, dfsNormalizePath workingDirectory true directory filename = some (some p.chars) ∧
      p.chars = render (chr '/') (resolve (chr '.')
        (components (chr '/') (joinPath (directory.or workingDirectory) filename))) ∧
      NormalPath p.chars ∧
      ∀ workingDirectory' directory',
        dfsNormalizePath workingDirectory' true directory' p = some (some p.chars) := by
  have hno := joinPath_no_nul (directory.or workingDirectory) filename
  have hnames := resolve_components (joinPath (directory.or workingDirectory) filename)
  obtain ⟨hzero, hhead⟩ := render_chars (resolve_valid hno)
  refine ⟨dfsNormalizePath_eq habs false, ⟨_, hzero⟩, ?_, rfl, ⟨_, hnames, rfl⟩, fun wd d => ?_⟩
  · exact (dfsNormalizePath_eq habs true).trans (normalizeBuf_spec (joinPath_head? habs) hno)
  · have hself : joinPath (d.or wd) ⟨_, hzero⟩ = render (chr '/') (resolve (chr '.')
        (components (chr '/') (joinPath (directory.or workingDirectory) filename))) := if_pos hhead
    refine (dfsNormalizePath_eq (.inl hhead) true).trans ?_
    rw [hself]
    refine (normalizeBuf_spec hhead hzero).trans ?_
    rw [components_render fun c hc => ⟨(hnames c hc).ne_nil, (hnames c hc).no_slash⟩,
      resolve_self hnames]

/-- `../x` in `/a/b`. -/
theorem normalize_path_up : ∃ p : CStr,
    dfsNormalizePath none true (some ⟨[chr '/', chr 'a', chr '/', chr 'b'], by decide⟩)
      ⟨[chr '.', chr '.', chr '/', chr 'x'], by decide⟩ = some (some p.chars) ∧
    p.chars = [chr '/', chr 'a', chr '/', chr 'x'] ∧ NormalPath p.chars := by
  obtain ⟨-, p, hp, htext, hnormal, -⟩ := normalize_path none
    (some ⟨[chr '/', chr 'a', chr '/', chr 'b'], by decide⟩)
    ⟨[chr '.', chr '.', chr '/', chr 'x'], by decide⟩ (.inr ⟨_, rfl, rfl⟩)
  refine ⟨p, hp, ?_, hnormal⟩
  rw [htext]
  decide

/-- **Paths compose.** A file name in a directory that `dfs_normalize_path` has given, as `chdir` sets it, is
the file name behind the one that led there. -/
theorem normalize_path_join (workingDirectory' : Option CStr) {workingDirectory directory : Option CStr}
    {f g fg p : CStr} (habs : AbsolutePath (directory.or workingDirectory) f)
    (hp : dfsNormalizePath workingDirectory true directory f = some (some p.chars))
    (hf : f.chars ≠ []) (hg : g.chars.head? ≠ some (chr '/')) (hfg : fg.chars = f.chars ++ chr '/' :: g.chars) :
    dfsNormalizePath workingDirectory' true (some p) g =
      dfsNormalizePath workingDirectory true directory fg := by
  have hhead : fg.chars.head? = f.chars.head? := by
    rw [hfg, List.head?_append_of_ne_nil _ hf]
  have habs' : AbsolutePath (directory.or workingDirectory) fg := by
    rw [AbsolutePath, hhead]
    exact habs
  have hjoin : joinPath (directory.or workingDirectory) fg =
      joinPath (directory.or workingDirectory) f ++ chr '/' :: g.chars := by
    rw [joinPath, joinPath, hhead, hfg]
    split_ifs
    · rfl
    · rw [List.append_assoc]
  have hno := joinPath_no_nul (directory.or workingDirectory) f
  have hnames := resolve_components (joinPath (directory.or workingDirectory) f)
  have hchars : p.chars = render (chr '/') (resolve (chr '.')
      (components (chr '/') (joinPath (directory.or workingDirectory) f))) := by
    rw [dfsNormalizePath_eq habs true, if_neg (by simp), normalizeBuf_spec (joinPath_head? habs) hno] at hp
    exact (Option.some.inj (Option.some.inj hp)).symm
  have hpabs : AbsolutePath ((some p).or workingDirectory') g :=
    .inr ⟨p, rfl, hchars ▸ render_head? _⟩
  have hpg : joinPath ((some p).or workingDirectory') g = p.chars ++ chr '/' :: g.chars := by
    rw [joinPath, if_neg hg]
    simp
  rw [dfsNormalizePath_eq hpabs true, dfsNormalizePath_eq habs' true, if_neg (by simp), if_neg (by simp),
    normalizeBuf_spec (joinPath_head? hpabs) (joinPath_no_nul _ _),
    normalizeBuf_spec (joinPath_head? habs') (joinPath_no_nul _ _), hpg, hjoin, components_append,
    components_append, hchars,
    components_render fun c hc => ⟨(hnames c hc).ne_nil, (hnames c hc).no_slash⟩,
    resolve_resolve_append fun c hc => ⟨(components_mem hc).1.1, (components_mem hc).1.2⟩]

/-- `../x` after `b/.` in `/a`. -/
theorem normalize_path_join_up :
    dfsNormalizePath none true (some ⟨[chr '/', chr 'a', chr '/', chr 'b'], by decide⟩)
      ⟨[chr '.', chr '.', chr '/', chr 'x'], by decide⟩ =
    dfsNormalizePath none true (some ⟨[chr '/', chr 'a'], by decide⟩)
      ⟨[chr 'b', chr '/', chr '.', chr '/', chr '.', chr '.', chr '/', chr 'x'], by decide⟩ :=
  normalize_path_join none (f := ⟨[chr 'b', chr '/', chr '.'], by decide⟩) (.inr ⟨_, rfl, rfl⟩)
    (by decide) (by decide) (by decide) rfl

end RtThread
