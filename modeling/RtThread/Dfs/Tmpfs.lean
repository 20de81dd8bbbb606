import Mathlib.Data.Finset.Basic
import RtThread.Lib.System

/-!
# The tmpfs file system

The `tmpfs_file` nodes below the root of a superblock: each has a type, a name and the list of its
children.

* `getSubdir`, `Tmpfs.lookup`: `_get_subdir`, `dfs_tmpfs_lookup`;
* `pathSeparate`: `_path_separate`;
* `Tmpfs.open`, `Tmpfs.unlink`, `Tmpfs.rename`: the operations on paths;
* `TmpfsCall`, `Tmpfs.call`, `tmpfsSystem`: sequences of these.

A call that writes past a buffer or fails an assertion has no result.
-/

namespace RtThread

/-- `TMPFS_NAME_MAX`. -/
def tmpfsNameMax : ℕ := 32

/-- `DFS_PATH_MAX`. -/
def dfsPathMax : ℕ := 256

/-- `-ENOENT`. -/
def negEnoent : ℤ := -2

/-- `-ENOMEM`. -/
def negEnomem : ℤ := -12

/-- `-EEXIST`. -/
def negEexist : ℤ := -17

/-- `TMPFS_TYPE_FILE` and `TMPFS_TYPE_DIR`. -/
inductive TmpfsType where
  | file
  | dir
  deriving DecidableEq

/-- `struct tmpfs_file`; the list `subdirs` links the children. -/
structure TmpfsFile (α : Type) where
  type : TmpfsType
  name : List Char
  subdirs : List α

/-- `struct tmpfs_sb`, with the nodes that are allocated. -/
structure Tmpfs (α : Type) where
  root : α
  file : α → TmpfsFile α
  live : Finset α

/-! ## Paths -/

/-- `_get_subdir`. -/
def getSubdir (path : List Char) : List Char :=
  (path.dropWhile (· = '/')).takeWhile (· ≠ '/')

/-- `_path_separate` after the text `parent` and a slash; `name` is the component read so far. -/
def separateFrom (parent name : List Char) : List Char → Option (Option (List Char × List Char))
  | [] =>
    if name = [] then some none
    else if parent.length < dfsPathMax ∧ name.length < tmpfsNameMax then
      some (some (if parent = [] then ['/'] else parent, name))
    else none
  | c :: rest =>
    if c = '/' then
      -- an empty component ends the scan with an empty file name
      if name = [] then some none else separateFrom (parent ++ '/' :: name) [] rest
    else separateFrom parent (name ++ [c]) rest

/-- `_path_separate`: the parent path and the file name, if it is not empty. -/
def pathSeparate : List Char → Option (Option (List Char × List Char))
  | [] => none
  | c :: rest => if c = '/' then separateFrom [] [] rest else none

namespace Tmpfs

variable {α : Type} [DecidableEq α] (s : Tmpfs α)

/-- The first child with the name. -/
def child (d : α) (name : List Char) : Option α :=
  (s.file d).subdirs.find? fun f => (s.file f).name = name

/-- `find_subpath` in `dfs_tmpfs_lookup`: `curpath` is compared with the children of `curfile` once
the rest of the path has no slash. -/
def lookupFrom (curfile : α) (curpath : List Char) : List Char → Option (Option α)
  | [] =>
    if (getSubdir curpath).length ≤ tmpfsNameMax then some (s.child curfile curpath) else none
  | c :: rest =>
    if c = '/' then
      if (getSubdir curpath).length ≤ tmpfsNameMax then
        match s.child curfile (getSubdir curpath) with
        | none => some none
        | some file => lookupFrom file rest rest
      else none
    else lookupFrom curfile curpath rest

/-- `dfs_tmpfs_lookup`. -/
def lookup (path : List Char) : Option (Option α) :=
  match path.dropWhile (· = '/') with
  | [] => some (some s.root)
  | c :: rest => s.lookupFrom s.root (c :: rest) (c :: rest)

/-- The nodes that `find_subpath` passes. -/
def trailFrom (curfile : α) (curpath : List Char) : List Char → List α
  | [] => curfile :: (s.child curfile curpath).toList
  | c :: rest =>
    if c = '/' then
      match s.child curfile (getSubdir curpath) with
      | none => [curfile]
      | some file => curfile :: trailFrom file rest rest
    else trailFrom curfile curpath rest

/-- The nodes that `dfs_tmpfs_lookup` passes, the root first and the node it finds last. -/
def trail (path : List Char) : List α :=
  match path.dropWhile (· = '/') with
  | [] => [s.root]
  | c :: rest => s.trailFrom s.root (c :: rest) (c :: rest)

/-! ## The operations -/

/-- The result of `dfs_tmpfs_open` for the node. -/
def fill (type : TmpfsType) (directory : Bool) : ℤ :=
  if decide (type = .dir) = directory then 0 else negEnomem

/-- A new node, first in the list of its parent. -/
def create (p x : α) (name : List Char) (directory : Bool) : Tmpfs α :=
  { s with
    file := fun d =>
      if d = x then ⟨if directory then .dir else .file, name, []⟩
      else if d = p then { s.file p with subdirs := x :: (s.file p).subdirs }
      else s.file d
    live := insert x s.live }

/-- `dfs_tmpfs_open`, for a vnode with its count, its being a directory and its path, with the flags
`O_CREAT` and `O_DIRECTORY`; `mem` is what `rt_calloc` returns. -/
def «open» (refCount : ℕ) (isDir : Bool) (path : List Char) (creat directory : Bool)
    (mem : Option α) : Option (ℤ × Tmpfs α) :=
  if refCount = 0 then none
  else if 1 < refCount then
    some (if isDir && !directory then negEnoent else 0, s)
  else
    match s.lookup path with
    | none => none
    | some (some d) => some (fill (s.file d).type directory, s)
    | some none =>
      if creat then
        match pathSeparate path with
        | none => none
        | some none => some (negEnoent, s)
        | some (some (parent, name)) =>
          match s.lookup parent with
          | none => none
          | some none => some (negEnoent, s)
          | some (some p) =>
            match mem with
            | none => some (negEnomem, s)
            | some x => some (0, s.create p x name directory)
      else some (negEnoent, s)

/-- `rt_list_remove` on the `sibling` of a node. -/
def detach (x : α) : Tmpfs α :=
  { s with file := fun d => { s.file d with subdirs := (s.file d).subdirs.filter (· ≠ x) } }

/-- `dfs_tmpfs_unlink`. -/
def unlink (path : List Char) : Option (ℤ × Tmpfs α) :=
  match s.lookup path with
  | none => none
  | some none => some (negEnoent, s)
  | some (some x) => some (0, { s.detach x with live := s.live.erase x })

/-- `rt_list_insert_after` into the list of `p`, with the name. -/
def attach (p x : α) (name : List Char) : Tmpfs α :=
  { s with
    file := fun d =>
      { type := (s.file d).type
        name := if d = x then name else (s.file d).name
        subdirs := if d = p then x :: (s.file d).subdirs else (s.file d).subdirs } }

/-- `dfs_tmpfs_rename`. -/
def rename (oldpath newpath : List Char) : Option (ℤ × Tmpfs α) :=
  match s.lookup newpath with
  | none => none
  | some (some _) => some (negEexist, s)
  | some none =>
    match s.lookup oldpath with
    | none => none
    | some none => some (negEnoent, s)
    | some (some x) =>
      match pathSeparate newpath with
      | none => none
      | some none => some (negEnoent, s)
      | some (some (parent, name)) =>
        match s.lookup parent with
        | none => none
        -- `RT_ASSERT(p_file != NULL)`
        | some none => none
        | some (some p) => some (0, (s.detach x).attach p x name)

end Tmpfs

/-- The operations on paths. -/
inductive TmpfsCall (α : Type) where
  | open (refCount : ℕ) (isDir : Bool) (path : List Char) (creat directory : Bool) (mem : Option α)
  | unlink (path : List Char)
  | rename (oldpath newpath : List Char)

namespace Tmpfs

variable {α : Type} [DecidableEq α] (s : Tmpfs α)

/-- An operation, with the value it returns. -/
def call : TmpfsCall α → Option (ℤ × Tmpfs α)
  | .open refCount isDir path creat directory mem => s.open refCount isDir path creat directory mem
  | .unlink path => s.unlink path
  | .rename oldpath newpath => s.rename oldpath newpath

/-- What the callers promise: a vnode that is opened is counted, and `rt_calloc` returns a node that is
not allocated. -/
def enabled : TmpfsCall α → Bool
  | .open refCount _ _ _ _ mem => decide (0 < refCount) && mem.all fun x => decide (x ∉ s.live)
  | .unlink _ => true
  | .rename _ _ => true

end Tmpfs

/-- The sequences of operations, after `dfs_tmpfs_mount`. -/
def tmpfsSystem (α : Type) [DecidableEq α] : System (Tmpfs α) (TmpfsCall α) where
  init s := s.live = {s.root} ∧ s.file s.root = ⟨.dir, ['/'], []⟩
  step s c := if s.enabled c then (s.call c).map Prod.snd else none

end RtThread
