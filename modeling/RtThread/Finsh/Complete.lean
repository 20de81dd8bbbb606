import RtThread.Lib.CString
import RtThread.Lib.CommonPrefix

/-!
# Completion of the command line

`msh_auto_complete` and `msh_auto_complete_path` of `msh.c` on the `FINSH_CMD_SIZE + 1` bytes of
`shell->line`. A write behind these bytes, or behind the 256 bytes of `full_path`, has no result.

* `MshEnv`, `ShellLine`: the commands and the directories, and a line with what stands behind its NUL;
* `autoCompletePath`, `autoComplete`: the two functions;
* `lineMatches`, `Completes`: the matches of the last word, and what is claimed of the completion;
* `foldl_pathStep`, `foldl_commandStep`: the two loops find the longest common beginning of the matches;
* **`complete_line`**: the claim holds exactly when `CompletesWhen` does.
-/

namespace RtThread

/-- `FINSH_CMD_SIZE`. -/
def finshCmdSize : ℕ := 80

/-- The size of `full_path`. -/
def fullPathSize : ℕ := 256

/-- The characters that the functions look for. -/
def slash : UInt8 := 47

def space : UInt8 := 32

/-- The name of a command, which is a part of an identifier in `MSH_FUNCTION_EXPORT_CMD`. -/
structure CommandName extends CStr where
  no_space : space ∉ chars

/-- The name of a directory entry, in `d_name` with its NUL. -/
structure EntryName extends CStr where
  short : chars.length < 256

/-- The table of commands, the working directory, whether `rt_malloc` has memory, the entries that
`readdir` gives of a directory, and whether a path is a folder or a link to one. -/
structure MshEnv where
  commands : List CommandName
  cwd : EntryName
  memory : Bool
  opendir : List UInt8 → Option (List EntryName)
  folder : List UInt8 → Bool

/-- A command line shorter than `FINSH_CMD_SIZE`, with any bytes behind its NUL. -/
structure ShellLine where
  bytes : List UInt8
  size : bytes.length = finshCmdSize + 1
  short : (cString bytes).length < finshCmdSize

/-! ## The functions -/

/-- Bytes are written into an array from a place on. -/
def writeBytes (mem : List UInt8) (i : ℕ) (bs : List UInt8) : Option (List UInt8) :=
  if i + bs.length ≤ mem.length then some (mem.take i ++ bs ++ mem.drop (i + bs.length)) else none

/-- `str_common`. -/
def strCommon : List UInt8 → List UInt8 → ℕ
  | a :: s, b :: t => if a = b then strCommon s t + 1 else 0
  | _, _ => 0

/-- The variables `multi`, `min_length` and `full_path` of the loop over the entries. -/
structure PathScan where
  multi : ℕ
  minLength : ℕ
  fullPath : List UInt8

/-- The loop over the entries. -/
def pathStep (index : List UInt8) (r : PathScan) (name : List UInt8) : PathScan :=
  if strncmpEq index name index.length then
    let r := { r with multi := r.multi + 1 }
    let r := if r.minLength = 0 then { r with minLength := name.length, fullPath := name } else r
    let length := strCommon name r.fullPath
    if length < r.minLength then { r with minLength := length } else r
  else r

/-- The place behind the last slash; `index` of the text before the place `i`. -/
def pathIndex (i index : ℕ) : List UInt8 → ℕ
  | [] => index
  | c :: rest => pathIndex (i + 1) (if c = slash then i + 1 else index) rest

/-- What stands in `full_path` before the parent path. -/
def pathBase (cwd path : List UInt8) : List UInt8 :=
  if path.head? = some slash then []
  else if cwd.getLast? = some slash then cwd else cwd ++ [slash]

/-- `msh_auto_complete_path` of the place `p` of the line. -/
def autoCompletePath (e : MshEnv) (mem : List UInt8) (p : ℕ) : Option (List UInt8) :=
  let path := cString (mem.drop p)
  if e.memory then
    let dest := pathIndex 0 0 path
    let fullPath := pathBase e.cwd.chars path ++ path.take dest
    if fullPath.length < fullPathSize then
      match e.opendir fullPath with
      | none => some mem
      | some entries =>
        let index := path.drop dest
        if index = [] then some mem
        else
          let r := (entries.map (·.chars)).foldl (pathStep index) ⟨0, 0, fullPath⟩
          if r.minLength = 0 then some mem
          else do
            let mem ← writeBytes mem (p + dest) (r.fullPath.take r.minLength)
            let mem ← writeBytes mem (p + (dest + r.minLength)) [0]
            let path := cString (mem.drop p)
            if r.multi = 1 ∧ e.folder path then writeBytes mem (p + path.length) [slash, 0]
            else some mem
    else none
  else some mem

/-- The loop over the commands, with `min_length` and `name_ptr`. -/
def commandStep (line : List UInt8) (r : ℕ × Option (List UInt8)) (cmdName : List UInt8) :
    ℕ × Option (List UInt8) :=
  if strncmpEq line cmdName line.length then
    let r := if r.1 = 0 then (cmdName.length, some cmdName) else r
    let length := strCommon (r.2.getD []) cmdName
    if length < r.1 then (length, r.2) else r
  else r

/-- The last space among the first `n + 1` characters, the first of them apart. -/
def lastSpace (text : List UInt8) : ℕ → Option ℕ
  | 0 => none
  | n + 1 => if text[n + 1]? = some space then some (n + 1) else lastSpace text n

/-- The loop over the commands in `msh_auto_complete`, and the name that is written. -/
def autoCompleteCommand (e : MshEnv) (mem : List UInt8) : Option (List UInt8) :=
  let line := cString mem
  let r := (e.commands.map (·.chars)).foldl (commandStep line) (0, none)
  match r.2 with
  | some name => writeBytes mem 0 (name.take r.1)
  | none => some mem

/-- `msh_auto_complete`. -/
def autoComplete (e : MshEnv) (mem : List UInt8) : Option (List UInt8) :=
  let line := cString mem
  if line = [] then some mem
  else
    match lastSpace line line.length with
    | some p => do
      let mem ← autoCompletePath e mem (p + 1)
      autoCompleteCommand e mem
    | none => autoCompleteCommand e mem

/-! ## The property -/

/-- The directory of a path, with its slash, and the last component. -/
def pathDir (path : List UInt8) : List UInt8 := path.take (pathIndex 0 0 path)

def pathStem (path : List UInt8) : List UInt8 := path.drop (pathIndex 0 0 path)

/-- The directory as it stands in `full_path`. -/
def pathFull (e : MshEnv) (path : List UInt8) : List UInt8 := pathBase e.cwd.chars path ++ pathDir path

/-- The entries of the directory that begin with the last component. -/
def pathNames (e : MshEnv) (path : List UInt8) : List (List UInt8) :=
  (((e.opendir (pathFull e path)).getD []).map (·.chars)).filter (pathStem path <+: ·)

/-- The commands that begin with a text. -/
def commandNames (e : MshEnv) (line : List UInt8) : List (List UInt8) :=
  (e.commands.map (·.chars)).filter (line <+: ·)

/-- The matches of the last word: of an argument the entries of its directory that begin with the last
component, with the directory in front; otherwise the commands that begin with the line. -/
def lineMatches (e : MshEnv) (line : List UInt8) : List (List UInt8) :=
  match lastSpace line line.length with
  | some p => (pathNames e (line.drop (p + 1))).map (pathDir (line.drop (p + 1)) ++ ·)
  | none => commandNames e line

/-- What stands before the last word. -/
def lineHead (line : List UInt8) : List UInt8 :=
  match lastSpace line line.length with
  | some p => line.take (p + 1)
  | none => []

/-- **The claim**: no byte is written behind the line, it ends with a NUL, and its last word has been
replaced by the longest common beginning of the matches. -/
def Completes (e : MshEnv) (l : ShellLine) : Prop :=
  let line := cString l.bytes
  ∃ mem, autoComplete e l.bytes = some mem ∧ 0 ∈ mem ∧
    if lineMatches e line = [] then cString mem = line
    else ∃ p, IsLongestPrefix p (lineMatches e line) ∧ cString mem = lineHead line ++ p

/-- The line with the common beginning of the matches. -/
def completedLine (e : MshEnv) (line : List UInt8) : List UInt8 :=
  if lineMatches e line = [] then line else lineHead line ++ commonPrefixAll (lineMatches e line)

/-- **The condition.** Of an argument: `full_path` has room for its directory; and the last component is
empty or there is no memory, and there is nothing to add; or there are no matches, or the completed line
has room and is not the path of the only match, a folder. Of a command: the line is empty and there is
nothing to add, or the byte where the completed line ends is zero. -/
def CompletesWhen (e : MshEnv) (l : ShellLine) : Prop :=
  let line := cString l.bytes
  let new := completedLine e line
  match lastSpace line line.length with
  | some p =>
    let path := line.drop (p + 1)
    (e.memory = true → (pathFull e path).length < fullPathSize) ∧
      if e.memory = false ∨ pathStem path = [] then new = line
      else lineMatches e line = [] ∨ (new.length ≤ finshCmdSize ∧
        ¬ ((lineMatches e line).length = 1 ∧ e.folder (new.drop (p + 1)) = true))
  | none => if line = [] then new = line else l.bytes[new.length]? = some 0

/-! ## The loops -/

theorem strCommon_eq (s t : List UInt8) : strCommon s t = (commonPrefix s t).length := by
  induction s generalizing t with
  | nil => rfl
  | cons a s ih =>
    cases t with
    | nil => rfl
    | cons b t =>
      rw [strCommon, commonPrefix]
      split
      · rw [ih, List.length_cons]
      · rfl

/-- A loop whose variables are a function of the matches so far. -/
theorem foldl_matches {β γ : Type} {step : γ → β → γ} {p : β → Bool} (f : List β → γ)
    (h : ∀ ms x, (∀ m ∈ ms, p m = true) → step (f ms) x = f (if p x then ms ++ [x] else ms))
    (ms l : List β) (hms : ∀ m ∈ ms, p m = true) : l.foldl step (f ms) = f (ms ++ l.filter p) := by
  induction l generalizing ms with
  | nil => rw [List.filter_nil, List.append_nil, List.foldl_nil]
  | cons x l ih =>
    rw [List.foldl_cons, h ms x hms]
    by_cases hx : p x = true
    · have hms' : ∀ m ∈ ms ++ [x], p m = true := by
        intro m hm
        rcases List.mem_append.mp hm with hm | hm
        · exact hms m hm
        · rw [List.mem_singleton.mp hm, hx]
      rw [if_pos hx, ih _ hms', List.filter_cons_of_pos hx, List.append_assoc, List.singleton_append]
    · rw [if_neg hx, ih _ hms, List.filter_cons_of_neg hx]

/-- `min_length` after a match that is not the first. -/
theorem commonPrefixAll_length (m d : List UInt8) (ms : List (List UInt8)) :
    (commonPrefixAll (m :: ms ++ [d])).length =
      if strCommon m d < (commonPrefixAll (m :: ms)).length then strCommon m d
      else (commonPrefixAll (m :: ms)).length := by
  have hle : (commonPrefixAll (m :: ms)).length ≤ m.length :=
    ((foldl_commonPrefix m ms).common m List.mem_cons_self).length_le
  have hle' := (commonPrefix_left m d).length_le
  rw [commonPrefixAll_concat, List.length_take, strCommon_eq]
  split <;> omega

theorem commonPrefixAll_pos {index : List UInt8} {ms : List (List UInt8)} (hi : index ≠ [])
    (hne : ms ≠ []) (h : ∀ m ∈ ms, index <+: m) : (commonPrefixAll ms).length ≠ 0 := by
  have hpos := List.length_pos_of_ne_nil hi
  have hle := ((commonPrefixAll_spec hne).longest index h).length_le
  omega

/-- The first match, cut off at `min_length`. -/
theorem take_commonPrefixAll (m : List UInt8) (ms : List (List UInt8)) :
    m.take (commonPrefixAll (m :: ms)).length = commonPrefixAll (m :: ms) :=
  (List.prefix_iff_eq_take.mp ((foldl_commonPrefix m ms).common m List.mem_cons_self)).symm

/-- The variables of the loop over the entries. -/
def scanOf (fullPath : List UInt8) : List (List UInt8) → PathScan
  | [] => ⟨0, 0, fullPath⟩
  | m :: ms => ⟨(m :: ms).length, (commonPrefixAll (m :: ms)).length, m⟩

/-- The variables of the loop over the commands. -/
def commandScanOf : List (List UInt8) → ℕ × Option (List UInt8)
  | [] => (0, none)
  | m :: ms => ((commonPrefixAll (m :: ms)).length, some m)

theorem strCommon_self (d : List UInt8) : strCommon d d = d.length := by
  rw [strCommon_eq]
  have hle := (prefix_commonPrefix (p := d) List.prefix_rfl List.prefix_rfl).length_le
  have hge := (commonPrefix_left d d).length_le
  omega

theorem strCommon_comm (s t : List UInt8) : strCommon s t = strCommon t s := by
  rw [strCommon_eq, strCommon_eq, commonPrefix_comm]

variable {index fp : List UInt8}

theorem pathStep_scanOf (hi : index ≠ []) (ms : List (List UInt8)) (d : List UInt8)
    (h : ∀ m ∈ ms, decide (index <+: m) = true) :
    pathStep index (scanOf fp ms) d =
      scanOf fp (if decide (index <+: d) = true then ms ++ [d] else ms) := by
  unfold pathStep
  by_cases hd : index <+: d
  · rw [if_pos (strncmpEq_length.mpr hd), if_pos (decide_eq_true hd)]
    cases ms with
    | nil =>
      simp [scanOf, strCommon_self, commonPrefixAll]
    | cons m ms =>
      have hpos := commonPrefixAll_pos hi (List.cons_ne_nil m ms) fun k hk => of_decide_eq_true (h k hk)
      have hlen := commonPrefixAll_length m d ms
      rw [strCommon_comm, List.cons_append] at hlen
      have hmulti : (m :: ms).length + 1 = (m :: (ms ++ [d])).length := by
        rw [List.length_cons, List.length_cons, List.length_append, List.length_singleton]
      simp only [scanOf, hpos, if_false, List.cons_append]
      rw [hlen, ← hmulti]
      by_cases hlt : strCommon d m < (commonPrefixAll (m :: ms)).length
      · rw [if_pos hlt, if_pos hlt]
      · rw [if_neg hlt, if_neg hlt]
  · rw [if_neg (fun hc => hd (strncmpEq_length.mp hc)), if_neg (by simpa using hd)]

/-- **The loop over the entries.** -/
theorem foldl_pathStep (hi : index ≠ []) (fp : List UInt8) (names : List (List UInt8)) :
    names.foldl (pathStep index) ⟨0, 0, fp⟩ = scanOf fp (names.filter (index <+: ·)) :=
  foldl_matches (p := fun d => decide (index <+: d)) (scanOf fp) (pathStep_scanOf hi) [] names
    (fun _ h => absurd h List.not_mem_nil)

theorem commandStep_scanOf (hi : index ≠ []) (ms : List (List UInt8)) (d : List UInt8)
    (h : ∀ m ∈ ms, decide (index <+: m) = true) :
    commandStep index (commandScanOf ms) d =
      commandScanOf (if decide (index <+: d) = true then ms ++ [d] else ms) := by
  unfold commandStep
  by_cases hd : index <+: d
  · rw [if_pos (strncmpEq_length.mpr hd), if_pos (decide_eq_true hd)]
    cases ms with
    | nil => simp [commandScanOf, strCommon_self, commonPrefixAll]
    | cons m ms =>
      have hpos := commonPrefixAll_pos hi (List.cons_ne_nil m ms) fun k hk => of_decide_eq_true (h k hk)
      have hlen := commonPrefixAll_length m d ms
      rw [List.cons_append] at hlen
      simp only [commandScanOf, hpos, if_false, List.cons_append, Option.getD_some]
      rw [hlen]
      by_cases hlt : strCommon m d < (commonPrefixAll (m :: ms)).length
      · rw [if_pos hlt, if_pos hlt]
      · rw [if_neg hlt, if_neg hlt]
  · rw [if_neg (fun hc => hd (strncmpEq_length.mp hc)), if_neg (by simpa using hd)]

/-- **The loop over the commands.** -/
theorem foldl_commandStep (hi : index ≠ []) (names : List (List UInt8)) :
    names.foldl (commandStep index) (0, none) = commandScanOf (names.filter (index <+: ·)) :=
  foldl_matches (p := fun d => decide (index <+: d)) commandScanOf (commandStep_scanOf hi) [] names
    (fun _ h => absurd h List.not_mem_nil)

/-! ## The bytes of the line -/

variable {mem mem' line text rest bs : List UInt8} {i p : ℕ} {e : MshEnv}

theorem cString_drop (hz : (0 : UInt8) ∉ line) (hp : p ≤ line.length) :
    cString ((line ++ 0 :: rest).drop p) = line.drop p := by
  rw [List.drop_append_of_le_length hp, cString_append fun h => hz (List.mem_of_mem_drop h)]

/-- A text that is written with a NUL behind it. -/
theorem writeBytes_nul (hi : i ≤ mem.length) :
    ((writeBytes mem i bs).bind fun mem => writeBytes mem (i + bs.length) [0]) =
      if i + bs.length < mem.length then
        some (mem.take i ++ bs ++ 0 :: mem.drop (i + bs.length + 1))
      else none := by
  unfold writeBytes
  by_cases h : i + bs.length ≤ mem.length
  · have htake : (mem.take i ++ bs).length = i + bs.length := by
      rw [List.length_append, List.length_take, Nat.min_eq_left hi]
    have hlen : (mem.take i ++ bs ++ mem.drop (i + bs.length)).length = mem.length := by
      rw [List.length_append, htake, List.length_drop, Nat.add_sub_cancel' h]
    rw [if_pos h, Option.bind_some, hlen]
    have hdrop : (mem.take i ++ bs ++ mem.drop (i + bs.length)).drop (i + bs.length + 1) =
        mem.drop (i + bs.length + 1) := by
      rw [← List.drop_drop, List.drop_left' htake, List.drop_drop]
    by_cases hlt : i + bs.length < mem.length
    · rw [if_pos hlt, if_pos (show _ + [(0 : UInt8)].length ≤ _ from hlt), List.take_left' htake]
      rw [List.length_singleton, hdrop, List.append_assoc _ [0], List.singleton_append]
    · rw [if_neg hlt, if_neg (show ¬ _ + [(0 : UInt8)].length ≤ _ from hlt)]
  · rw [if_neg h, if_neg (fun hlt => h (Nat.le_of_lt hlt))]
    rfl

/-- `strcat` of a slash. -/
theorem writeBytes_slash (hz : (0 : UInt8) ∉ text)
    (h : writeBytes (text ++ 0 :: rest) text.length [slash, 0] = some mem') :
    cString mem' = text ++ [slash] := by
  unfold writeBytes at h
  obtain ⟨-, h⟩ := Option.ite_none_right_eq_some.mp h
  cases h
  have hslash : (0 : UInt8) ∉ text ++ [slash] := by
    intro hmem
    rcases List.mem_append.mp hmem with hmem | hmem
    · exact hz hmem
    · exact absurd (List.mem_singleton.mp hmem) (by decide)
  rw [List.take_left, List.append_assoc, List.cons_append, List.singleton_append, List.append_cons,
    cString_append hslash]

/-! ## The path -/

theorem pathIndex_le (path : List UInt8) (i index : ℕ) (h : index ≤ i) :
    pathIndex i index path ≤ i + path.length := by
  induction path generalizing i index with
  | nil => exact h
  | cons c rest ih =>
    rw [pathIndex, List.length_cons]
    have hnext : (if c = slash then i + 1 else index) ≤ i + 1 := by split <;> omega
    have := ih (i + 1) _ hnext
    omega

theorem autoCompletePath_noMemory (h : e.memory = false) : autoCompletePath e mem p = some mem := by
  unfold autoCompletePath
  rw [h, if_neg Bool.false_ne_true]

theorem autoCompletePath_overrun (hm : e.memory = true)
    (h : ¬ (pathFull e (cString (mem.drop p))).length < fullPathSize) :
    autoCompletePath e mem p = none := by
  unfold autoCompletePath
  rw [if_pos hm]
  exact if_neg h

/-- There is nothing to write. -/
theorem autoCompletePath_none (hm : e.memory = true)
    (hfull : (pathFull e (cString (mem.drop p))).length < fullPathSize)
    (h : pathStem (cString (mem.drop p)) = [] ∨ pathNames e (cString (mem.drop p)) = []) :
    autoCompletePath e mem p = some mem := by
  unfold autoCompletePath
  rw [if_pos hm]
  dsimp only
  unfold pathFull pathDir at hfull
  rw [if_pos hfull]
  unfold pathNames pathFull pathDir pathStem at h
  cases ho : e.opendir (pathBase e.cwd.chars (cString (mem.drop p)) ++ _) with
  | none => rfl
  | some entries =>
    rw [ho, Option.getD_some] at h
    dsimp only
    split
    · rfl
    · rw [foldl_pathStep ‹_›, h.resolve_left ‹_›]
      rfl

theorem mem_pathNames {m path : List UInt8} (h : m ∈ pathNames e path) :
    pathStem path <+: m ∧ (0 : UInt8) ∉ m := by
  obtain ⟨hm, hstem⟩ := List.mem_filter.mp h
  obtain ⟨d, -, rfl⟩ := List.mem_map.mp hm
  exact ⟨of_decide_eq_true hstem, d.no_nul⟩

theorem commonPrefixAll_no_nul {ms : List (List UInt8)} (hne : ms ≠ [])
    (h : ∀ m ∈ ms, (0 : UInt8) ∉ m) : (0 : UInt8) ∉ commonPrefixAll ms := by
  obtain ⟨m, hm⟩ := List.exists_mem_of_ne_nil ms hne
  exact fun hz => h m hm (((commonPrefixAll_spec hne).common m hm).subset hz)

/-- The line with the common beginning of the matches has no NUL. -/
theorem completed_no_nul (hz : (0 : UInt8) ∉ line) (hnames : pathNames e (line.drop p) ≠ []) :
    (0 : UInt8) ∉ line.take p ++ pathDir (line.drop p) ++
      commonPrefixAll (pathNames e (line.drop p)) := by
  intro h
  rcases List.mem_append.mp h with h | h
  · rcases List.mem_append.mp h with h | h
    · exact hz (List.mem_of_mem_take h)
    · exact hz (List.mem_of_mem_drop (List.mem_of_mem_take h))
  · exact commonPrefixAll_no_nul hnames (fun m hm => (mem_pathNames hm).2) h

/-- **There are matches.** -/
theorem autoCompletePath_some (hm : e.memory = true) (hz : (0 : UInt8) ∉ line)
    (hmem : mem = line ++ 0 :: rest) (hp : p ≤ line.length)
    (hfull : (pathFull e (line.drop p)).length < fullPathSize) (hstem : pathStem (line.drop p) ≠ [])
    (hnames : pathNames e (line.drop p) ≠ [])
    (htext : text = line.take p ++ pathDir (line.drop p) ++ commonPrefixAll (pathNames e (line.drop p))) :
    autoCompletePath e mem p =
      if text.length < mem.length then
        if (pathNames e (line.drop p)).length = 1 ∧ e.folder (text.drop p) = true then
          writeBytes (text ++ 0 :: mem.drop (text.length + 1)) text.length [slash, 0]
        else some (text ++ 0 :: mem.drop (text.length + 1))
      else none := by
  have hpath : cString (mem.drop p) = line.drop p := by rw [hmem, cString_drop hz hp]
  obtain ⟨dest, hdest⟩ : ∃ dest, dest = pathIndex 0 0 (line.drop p) := ⟨_, rfl⟩
  have hle : p + dest ≤ line.length := by
    have := pathIndex_le (line.drop p) 0 0 (Nat.le_refl 0)
    rw [List.length_drop] at this
    omega
  have hmlen : line.length < mem.length := by
    rw [hmem, List.length_append, List.length_cons]
    omega
  unfold autoCompletePath
  rw [if_pos hm]
  dsimp only
  rw [hpath, ← hdest]
  have hfull' := hfull
  unfold pathFull pathDir at hfull'
  rw [← hdest] at hfull'
  rw [if_pos hfull']
  have hstem' := hstem
  unfold pathStem at hstem'
  rw [← hdest] at hstem'
  cases ho : e.opendir (pathBase e.cwd.chars (line.drop p) ++ (line.drop p).take dest) with
  | none =>
    refine absurd ?_ hnames
    unfold pathNames pathFull pathDir
    rw [← hdest, ho]
    rfl
  | some entries =>
    have hfilter : (entries.map (·.chars)).filter ((line.drop p).drop dest <+: ·) =
        pathNames e (line.drop p) := by
      unfold pathNames pathFull pathDir pathStem
      rw [← hdest, ho, Option.getD_some]
    dsimp only
    rw [if_neg hstem', foldl_pathStep hstem', hfilter]
    obtain ⟨c, hc⟩ : ∃ c, c = commonPrefixAll (pathNames e (line.drop p)) := ⟨_, rfl⟩
    have hpos : c.length ≠ 0 := by
      rw [hc]
      exact commonPrefixAll_pos hstem hnames fun m hm => (mem_pathNames hm).1
    have hz' : (0 : UInt8) ∉ text := by
      rw [htext]
      exact completed_no_nul hz hnames
    have htake : mem.take (p + dest) ++ c = text := by
      rw [htext, hmem, List.take_append_of_le_length hle, List.take_add, hc, pathDir, ← hdest]
    have hlen : p + dest + c.length = text.length := by
      rw [← htake, List.length_append, List.length_take, Nat.min_eq_left (by omega)]
    have hscan : ∀ fp, (scanOf fp (pathNames e (line.drop p))).minLength = c.length ∧
        (scanOf fp (pathNames e (line.drop p))).fullPath.take c.length = c ∧
        (scanOf fp (pathNames e (line.drop p))).multi = (pathNames e (line.drop p)).length := by
      intro fp
      rw [hc]
      cases hn : pathNames e (line.drop p) with
      | nil => exact absurd hn hnames
      | cons m ms => exact ⟨rfl, take_commonPrefixAll m ms, rfl⟩
    obtain ⟨h1, h2, h3⟩ := hscan (pathBase e.cwd.chars (line.drop p) ++ (line.drop p).take dest)
    rw [h1, if_neg hpos, h2, h3, ← Nat.add_assoc]
    show (writeBytes mem (p + dest) c).bind (fun mem =>
      (writeBytes mem (p + dest + c.length) [0]).bind fun mem => _) = _
    rw [← Option.bind_assoc, writeBytes_nul (by omega), htake, hlen]
    by_cases hlt : text.length < mem.length
    · have hp' : p ≤ text.length := by omega
      have hdrop : p + (text.drop p).length = text.length := by
        rw [List.length_drop]
        omega
      rw [if_pos hlt, if_pos hlt, Option.bind_some, cString_drop hz' hp', hdrop]
    · rw [if_neg hlt, if_neg hlt]
      rfl

/-! ## The commands -/

theorem autoCompleteCommand_none (hl : cString mem ≠ []) (h : commandNames e (cString mem) = []) :
    autoCompleteCommand e mem = some mem := by
  unfold autoCompleteCommand
  dsimp only
  rw [foldl_commandStep hl, ← commandNames, h]
  rfl

theorem autoCompleteCommand_some (hl : cString mem ≠ []) (h : commandNames e (cString mem) ≠ []) :
    autoCompleteCommand e mem = writeBytes mem 0 (commonPrefixAll (commandNames e (cString mem))) := by
  unfold autoCompleteCommand
  dsimp only
  rw [foldl_commandStep hl, ← commandNames]
  cases hn : commandNames e (cString mem) with
  | nil => exact absurd hn h
  | cons m ms =>
    exact congrArg (writeBytes mem 0) (take_commonPrefixAll m ms)

theorem mem_commandNames {m : List UInt8} (h : m ∈ commandNames e line) :
    line <+: m ∧ (0 : UInt8) ∉ m ∧ space ∉ m := by
  obtain ⟨hm, hline⟩ := List.mem_filter.mp h
  obtain ⟨d, -, rfl⟩ := List.mem_map.mp hm
  exact ⟨of_decide_eq_true hline, d.no_nul, d.no_space⟩

/-- No command begins with a line that has a space. -/
theorem commandNames_space (h : space ∈ line) : commandNames e line = [] := by
  rw [List.eq_nil_iff_forall_not_mem]
  intro m hm
  obtain ⟨hp, -, hs⟩ := mem_commandNames hm
  exact hs (hp.subset h)

theorem lastSpace_spec {text : List UInt8} {n : ℕ} (h : lastSpace text n = some p) :
    text[p]? = some space := by
  induction n with
  | zero => cases h
  | succ n ih =>
    rw [lastSpace] at h
    split at h
    · cases h
      assumption
    · exact ih h

/-! ## The condition -/

theorem completes_iff (l : ShellLine) : Completes e l ↔ ∃ mem, autoComplete e l.bytes = some mem ∧
    0 ∈ mem ∧ cString mem = completedLine e (cString l.bytes) := by
  unfold Completes completedLine
  dsimp only
  refine exists_congr fun mem => and_congr_right fun _ => and_congr_right fun _ => ?_
  by_cases hm : lineMatches e (cString l.bytes) = []
  · rw [if_pos hm, if_pos hm]
  · rw [if_neg hm, if_neg hm]
    have hspec := commonPrefixAll_spec hm
    exact ⟨fun ⟨p, hp, he⟩ => he.trans (by rw [hp.unique hspec]), fun he => ⟨_, hspec, he⟩⟩

theorem ShellLine.eq_append (l : ShellLine) : ∃ rest, l.bytes = cString l.bytes ++ 0 :: rest := by
  refine cString_split ?_
  have := l.short
  rw [l.size]
  omega

theorem ShellLine.nul_mem (l : ShellLine) : 0 ∈ l.bytes := by
  obtain ⟨rest, h⟩ := l.eq_append
  rw [h]
  exact List.mem_append_right _ List.mem_cons_self

/-- What the name of a command leaves. -/
theorem writeBytes_command (hz : (0 : UInt8) ∉ text) : (∃ mem', writeBytes mem 0 text = some mem' ∧
    0 ∈ mem' ∧ cString mem' = text) ↔ mem[text.length]? = some 0 := by
  have hread : mem[text.length]? = (mem.drop text.length).head? := by
    rw [List.head?_drop]
  rw [hread, ← cString_eq_nil]
  unfold writeBytes
  rw [Nat.zero_add, List.take_zero, List.nil_append]
  constructor
  · rintro ⟨mem', h, hnul, heq⟩
    obtain ⟨-, h⟩ := Option.ite_none_right_eq_some.mp h
    cases h
    rw [cString_append_text hz] at heq
    refine ⟨(List.mem_append.mp hnul).resolve_left hz, ?_⟩
    exact List.append_right_eq_self.mp heq
  · rintro ⟨hnul, heq⟩
    have hle : text.length ≤ mem.length := by
      by_contra hlt
      rw [List.drop_eq_nil_of_le (by omega)] at hnul
      exact absurd hnul List.not_mem_nil
    refine ⟨_, if_pos hle, List.mem_append_right _ hnul, ?_⟩
    rw [cString_append_text hz, heq, List.append_nil]

/-- **A command.** -/
theorem complete_command (l : ShellLine)
    (hs : lastSpace (cString l.bytes) (cString l.bytes).length = none) :
    Completes e l ↔ if cString l.bytes = [] then completedLine e (cString l.bytes) = cString l.bytes
      else l.bytes[(completedLine e (cString l.bytes)).length]? = some 0 := by
  have hmatch : lineMatches e (cString l.bytes) = commandNames e (cString l.bytes) := by
    unfold lineMatches
    rw [hs]
  have hhead : lineHead (cString l.bytes) = [] := by
    unfold lineHead
    rw [hs]
  obtain ⟨rest, hrest⟩ := l.eq_append
  rw [completes_iff]
  unfold autoComplete
  dsimp only
  by_cases hl : cString l.bytes = []
  · rw [if_pos hl, if_pos hl]
    constructor
    · rintro ⟨mem, h, -, heq⟩
      cases h
      exact heq.symm
    · exact fun h => ⟨_, rfl, l.nul_mem, h.symm⟩
  · rw [if_neg hl, if_neg hl, hs]
    dsimp only
    by_cases hn : commandNames e (cString l.bytes) = []
    · have hnew : completedLine e (cString l.bytes) = cString l.bytes := by
        rw [completedLine, hmatch, if_pos hn]
      rw [autoCompleteCommand_none hl hn, hnew]
      have hnul : (cString l.bytes ++ 0 :: rest)[(cString l.bytes).length]? = some 0 := by simp
      rw [← hrest] at hnul
      exact ⟨fun _ => hnul, fun _ => ⟨_, rfl, l.nul_mem, rfl⟩⟩
    · have hnew : completedLine e (cString l.bytes) =
          commonPrefixAll (commandNames e (cString l.bytes)) := by
        rw [completedLine, hmatch, if_neg hn, hhead, List.nil_append]
      rw [autoCompleteCommand_some hl hn, hnew]
      exact writeBytes_command (commonPrefixAll_no_nul hn fun m hm => (mem_commandNames hm).2.1)

theorem autoCompleteCommand_space (h : space ∈ cString mem) : autoCompleteCommand e mem = some mem :=
  autoCompleteCommand_none (List.ne_nil_of_mem h) (commandNames_space h)

/-- A line that was not changed. -/
theorem complete_unchanged (l : ShellLine) (hs : space ∈ cString l.bytes)
    (h : autoComplete e l.bytes = autoCompleteCommand e l.bytes) :
    Completes e l ↔ completedLine e (cString l.bytes) = cString l.bytes := by
  rw [completes_iff, h, autoCompleteCommand_space hs]
  constructor
  · rintro ⟨mem, he, -, heq⟩
    cases he
    exact heq.symm
  · exact fun h => ⟨_, rfl, l.nul_mem, h.symm⟩

/-- A line with the common beginning of the matches. -/
theorem complete_changed (l : ShellLine) (hz : (0 : UInt8) ∉ text) (hs : space ∈ text)
    (hnew : completedLine e (cString l.bytes) = text) {unique : Prop} [Decidable unique]
    (h : autoComplete e l.bytes = (if text.length < l.bytes.length then
      if unique then writeBytes (text ++ 0 :: rest) text.length [slash, 0]
      else some (text ++ 0 :: rest)
      else none).bind (autoCompleteCommand e)) :
    Completes e l ↔ text.length ≤ finshCmdSize ∧ ¬ unique := by
  rw [completes_iff, h, hnew, l.size]
  by_cases hlen : text.length ≤ finshCmdSize
  · rw [if_pos (Nat.lt_succ_of_le hlen)]
    by_cases hu : unique
    · rw [if_pos hu]
      refine ⟨fun ⟨mem, he, _, heq⟩ => ?_, fun hc => absurd hu hc.2⟩
      obtain ⟨mem1, hw, hc⟩ := Option.bind_eq_some_iff.mp he
      have hstr := writeBytes_slash hz hw
      rw [autoCompleteCommand_space (by rw [hstr]; exact List.mem_append_left _ hs)] at hc
      cases hc
      rw [hstr] at heq
      exact absurd (congrArg List.length heq) (by simp)
    · have hstr : cString (text ++ 0 :: rest) = text := cString_append hz rest
      rw [if_neg hu, Option.bind_some, autoCompleteCommand_space (by rw [hstr]; exact hs)]
      exact ⟨fun _ => ⟨hlen, hu⟩,
        fun _ => ⟨_, rfl, List.mem_append_right _ List.mem_cons_self, hstr⟩⟩
  · rw [if_neg (fun h => hlen (Nat.le_of_lt_succ h)), Option.bind_none]
    exact ⟨fun ⟨_, he, _⟩ => (nomatch he), fun h => absurd h.1 hlen⟩

/-- **An argument.** -/
theorem complete_argument (l : ShellLine)
    (hs : lastSpace (cString l.bytes) (cString l.bytes).length = some p) :
    Completes e l ↔ CompletesWhen e l := by
  obtain ⟨rest, hrest⟩ := l.eq_append
  have hz := cString_no_nul l.bytes
  have hspace := lastSpace_spec hs
  have hp : p + 1 ≤ (cString l.bytes).length := (List.getElem?_eq_some_iff.mp hspace).1
  have hmem : space ∈ (cString l.bytes).take (p + 1) := by
    refine List.mem_of_getElem? (i := p) ?_
    rw [List.getElem?_take_of_lt (Nat.lt_succ_self p), hspace]
  have hne : cString l.bytes ≠ [] := List.ne_nil_of_mem (List.mem_of_mem_take hmem)
  have hauto : autoComplete e l.bytes =
      (autoCompletePath e l.bytes (p + 1)).bind (autoCompleteCommand e) := by
    unfold autoComplete
    dsimp only
    rw [if_neg hne, hs]
    rfl
  have hpath : cString ((cString l.bytes ++ 0 :: rest).drop (p + 1)) =
      (cString l.bytes).drop (p + 1) := cString_drop hz hp
  rw [← hrest] at hpath
  have hmatch : lineMatches e (cString l.bytes) = (pathNames e ((cString l.bytes).drop (p + 1))).map
      (pathDir ((cString l.bytes).drop (p + 1)) ++ ·) := by
    unfold lineMatches
    rw [hs]
  have hhead : lineHead (cString l.bytes) = (cString l.bytes).take (p + 1) := by
    unfold lineHead
    rw [hs]
  unfold CompletesWhen
  dsimp only
  rw [hs]
  dsimp only
  have hkeep : autoCompletePath e l.bytes (p + 1) = some l.bytes →
      (Completes e l ↔ completedLine e (cString l.bytes) = cString l.bytes) := by
    intro h
    refine complete_unchanged l (List.mem_of_mem_take hmem) ?_
    rw [hauto, h, Option.bind_some]
  cases hm : e.memory with
  | false =>
    rw [hkeep (autoCompletePath_noMemory hm), if_pos (.inl rfl)]
    exact ⟨fun h => ⟨fun h => (nomatch h), h⟩, And.right⟩
  | true =>
    by_cases hfull : (pathFull e ((cString l.bytes).drop (p + 1))).length < fullPathSize
    · have hnone := fun h => hkeep (autoCompletePath_none hm (hpath ▸ hfull) h)
      by_cases hstem : pathStem ((cString l.bytes).drop (p + 1)) = []
      · rw [hnone (.inl (by rw [hpath, hstem])), if_pos (.inr hstem)]
        exact ⟨fun h => ⟨fun _ => hfull, h⟩, And.right⟩
      · have hcond : ¬ (true = false ∨ pathStem ((cString l.bytes).drop (p + 1)) = []) :=
          not_or.mpr ⟨fun h => (nomatch h), hstem⟩
        rw [if_neg hcond]
        by_cases hnames : pathNames e ((cString l.bytes).drop (p + 1)) = []
        · rw [hnone (.inr (by rw [hpath, hnames])), completedLine, hmatch, hnames, List.map_nil]
          exact ⟨fun _ => ⟨fun _ => hfull, .inl rfl⟩, fun _ => if_pos rfl⟩
        · have hmap : lineMatches e (cString l.bytes) ≠ [] := by
            rw [hmatch]
            exact fun h => hnames (List.map_eq_nil_iff.mp h)
          have hnew : completedLine e (cString l.bytes) = (cString l.bytes).take (p + 1) ++
              pathDir ((cString l.bytes).drop (p + 1)) ++
              commonPrefixAll (pathNames e ((cString l.bytes).drop (p + 1))) := by
            rw [completedLine, if_neg hmap, hmatch, hhead, commonPrefixAll_append _ hnames,
              List.append_assoc]
          have hrun := autoCompletePath_some hm hz hrest hp hfull hstem hnames hnew
          rw [hrun] at hauto
          have hz' := completed_no_nul (p := p + 1) hz hnames
          rw [← hnew] at hz'
          have hs' : space ∈ completedLine e (cString l.bytes) := by
            rw [hnew, List.append_assoc]
            exact List.mem_append_left _ hmem
          rw [complete_changed l hz' hs' rfl hauto, hmatch, List.length_map]
          constructor
          · exact fun h => ⟨fun _ => hfull, .inr h⟩
          · exact fun h => h.2.resolve_left fun h => hnames (List.map_eq_nil_iff.mp h)
    · have hover : autoCompletePath e l.bytes (p + 1) = none :=
        autoCompletePath_overrun hm (by rw [hpath]; exact hfull)
      rw [completes_iff, hauto, hover, Option.bind_none]
      exact ⟨fun ⟨_, h, _⟩ => (nomatch h), fun h => absurd (h.1 rfl) hfull⟩

/-- **The completion stays in the line** exactly when the condition holds. -/
theorem complete_line (e : MshEnv) (l : ShellLine) : Completes e l ↔ CompletesWhen e l := by
  cases hs : lastSpace (cString l.bytes) (cString l.bytes).length with
  | none =>
    rw [complete_command l hs]
    unfold CompletesWhen
    dsimp only
    rw [hs]
  | some p => exact complete_argument l hs

/-- A name of 100 letters. -/
def longName : EntryName where
  chars := List.replicate 100 97
  no_nul := fun h => absurd (List.eq_of_mem_replicate h) (by decide)
  short := by decide

/-- The root directory has this one entry. -/
def longEnv : MshEnv where
  commands := []
  cwd := ⟨⟨[slash], by decide⟩, by decide⟩
  memory := true
  opendir := fun path => if path = [slash] then some [longName] else none
  folder := fun _ => false

/-- The command line of a listing of "a". -/
def listLine : ShellLine where
  bytes := [108, 115, space, 97] ++ List.replicate 77 0
  size := rfl
  short := by decide

/-- The name is written behind the line. -/
theorem complete_overrun : ¬ Completes longEnv listLine := by
  rintro ⟨mem, h, -⟩
  have hnone : autoComplete longEnv listLine.bytes = none := by decide +kernel
  rw [hnone] at h
  cases h

end RtThread
