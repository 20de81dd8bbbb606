import Mathlib.Data.Finset.Basic
import RtThread.Lib.System

/-!
# Descriptors, files and vnodes of the device file system

The descriptor table, the `dfs_file` structures it points to and the vnodes these point to, each with
a reference count, and the hash table that finds a vnode by its full path.

* `Dfs` with `fdSlotExpand`, `fdSlotAlloc`, `fdAlloc`, `slot`, `fdtFdRelease`, `fdShare`: the table,
  under its lock;
* `bkdrHash`, `vnodeFind`, `dfsFileOpen`, `openFailed`, `dfsFileClose`: the sections under the lock of
  the vnode table;
* `DfsCall`, `DfsState`, `DfsLabel`, `dfsStep`, `dfsSystem`: the calls of the threads, one step for
  each section.

A section that follows a NULL or freed pointer, or frees an object twice, has no result.
-/

namespace RtThread

/-- `DFS_FD_MAX`. -/
def fdMax : ℕ := 16

/-- `DFS_STDIO_OFFSET`. -/
def stdioOffset : ℕ := 3

/-- `bkdr_hash`. -/
def bkdrHash (str : List UInt8) : ℕ :=
  (str.foldl (fun hash c => hash * 131 + c.toUInt32) (0 : UInt32)).toNat % 128

/-- `struct dfs_file`. -/
structure DfsFile (V : Type) where
  refCount : ℤ
  vnode : Option V

/-- `struct dfs_vnode`. -/
structure DfsVnode where
  refCount : ℤ
  fullpath : List UInt8

/-- The descriptor table, the live `dfs_file`s, allocated or on the stack of a `dfs_mount`, the live
vnodes and the hash table. -/
structure Dfs (F V : Type) where
  maxfd : ℕ
  fds : ℕ → Option F
  files : Finset F
  stack : Finset F
  file : F → DfsFile V
  vnodes : Finset V
  vnode : V → DfsVnode
  head : ℕ → List V

/-- What the code outside the sections answers: the memory allocator, `dfs_normalize_path`,
`dfs_filesystem_lookup`, the operations of the file system, and the rest of `dfs_mount`. -/
structure DfsAnswer (V : Type) where
  fullpath : Bool := true
  lookup : Bool := true
  calloc : Option V := none
  hasOpen : Bool := true
  fopsOpen : Bool := true
  fopsClose : ℤ := 0
  mount : ℤ := 0

/-- How the first section of `dfs_file_open` ends: a vnode was found and `fops->open` is still to be
called, the file is open, or an error is returned. -/
inductive OpenResult (V : Type) where
  | found (v : V)
  | opened
  | error

namespace Dfs

section

variable {F V : Type} [DecidableEq F] [DecidableEq V] (p : Dfs F V)

/-- A live `dfs_file`. -/
abbrev live : Finset F := p.files ∪ p.stack

def setFile (f : F) (x : DfsFile V) : Dfs F V := { p with file := Function.update p.file f x }

def setVnode (v : V) (x : DfsVnode) : Dfs F V := { p with vnode := Function.update p.vnode v x }

/-! ## The descriptor table -/

/-- `fd_slot_expand`. -/
def fdSlotExpand (fd : ℕ) (realloc : Bool) : Option (Dfs F V) :=
  if fd < p.maxfd then some p
  else if fd ≥ fdMax then none
  else if realloc then
    let nr := min ((fd + 4) / 4 * 4) fdMax
    some { p with
      maxfd := nr
      fds := fun index => if p.maxfd ≤ index ∧ index < nr then none else p.fds index }
  else none

/-- `fd_slot_alloc`. -/
def fdSlotAlloc (startfd : ℕ) (realloc : Bool) : Option (ℕ × Dfs F V) :=
  match (List.range' startfd (p.maxfd - startfd)).find? fun idx => p.fds idx = none with
  | some idx => some (idx, p)
  | none =>
    let idx := if p.maxfd < startfd then startfd else p.maxfd
    (p.fdSlotExpand idx realloc).map fun p => (idx, p)

/-- `fd_alloc`. The table stays expanded when `rt_calloc` fails. -/
def fdAlloc (startfd : ℕ) (realloc : Bool) (calloc : Option F) : Option ℕ × Dfs F V :=
  match p.fdSlotAlloc startfd realloc, calloc with
  | none, _ => (none, p)
  | some (_, p), none => (none, p)
  | some (idx, p), some fd =>
    (some idx, { p with
      files := insert fd p.files
      file := Function.update p.file fd ⟨1, none⟩
      fds := Function.update p.fds idx (some fd) })

/-- The entry of a descriptor, NULL out of the bounds of the table. -/
def slot (fd : ℤ) : Option F := if fd < 0 ∨ fd ≥ p.maxfd then none else p.fds fd.toNat

/-- `fds[newfd] = fds[oldfd]` and the count of the shared `dfs_file`. -/
def fdShare (oldfd newfd : ℕ) : Option (Dfs F V) :=
  match p.fds oldfd with
  | none => none
  | some f =>
    if f ∉ p.files then none
    else
      let p := { p with fds := Function.update p.fds newfd (some f) }
      some (p.setFile f { p.file f with refCount := (p.file f).refCount + 1 })

/-- `fdt_fd_release`. The vnode is freed where it stands: it stays in the hash table. -/
def fdtFdRelease (fd : ℤ) : Option (Dfs F V) :=
  match p.slot fd with
  | none => some p
  | some f =>
    let p := { p with fds := Function.update p.fds fd.toNat none }
    if f ∉ p.files then none
    else
      let n : ℤ := (p.file f).refCount - 1
      if n ≠ 0 then some (p.setFile f { p.file f with refCount := n })
      else match (p.file f).vnode with
        | none => some { p with files := p.files.erase f }
        | some v =>
          if v ∉ p.vnodes then none
          else
            let m := (p.vnode v).refCount - 1
            let p := p.setVnode v { p.vnode v with refCount := m }
            let p := if m = 0 then { p with vnodes := p.vnodes.erase v } else p
            some { p with files := p.files.erase f }

/-! ## Open and close -/

/-- `dfs_vnode_find`: walk the bucket. -/
def vnodeFind (path : List UInt8) : List V → Option (Option V)
  | [] => some none
  | v :: hh =>
    if v ∉ p.vnodes then none
    else if path = (p.vnode v).fullpath then some (some v)
    else vnodeFind path hh

/-- Take a vnode out of the hash table, clear the pointer of the `dfs_file` and free the vnode. -/
def freeVnode (d : F) (v : V) : Dfs F V :=
  let hash := bkdrHash (p.vnode v).fullpath
  let p := { p with head := Function.update p.head hash ((p.head hash).erase v) }
  let p := p.setFile d { p.file d with vnode := none }
  { p with vnodes := p.vnodes.erase v }

/-- `dfs_file_open` once `fops->open` has failed. -/
def openFailed (d : F) (v : V) : Option (Dfs F V) :=
  if d ∉ p.live ∨ v ∉ p.vnodes then none
  else
    let n := (p.vnode v).refCount - 1
    let p := p.setVnode v { p.vnode v with refCount := n }
    some (if n = 0 then p.freeVnode d v else p)

/-- A new vnode, with one reference, in the hash table. -/
def newVnode (d : F) (fullpath : List UInt8) (v : V) : Dfs F V :=
  let p := { p with vnodes := insert v p.vnodes }
  let p := p.setVnode v ⟨1, fullpath⟩
  let p := p.setFile d { p.file d with vnode := some v }
  let hash := bkdrHash fullpath
  { p with head := Function.update p.head hash (v :: p.head hash) }

/-- `dfs_file_open` up to the first `dfs_fm_unlock`. The vnode that is found is opened after it, the
new one before it. -/
def dfsFileOpen (d : F) (path : List UInt8) (e : DfsAnswer V) : Option (Dfs F V × OpenResult V) :=
  if !e.fullpath then some (p, .error)
  else match p.vnodeFind path (p.head (bkdrHash path)) with
    | none => none
    | some (some v) =>
      if d ∉ p.live then none
      else
        let p := p.setVnode v { p.vnode v with refCount := (p.vnode v).refCount + 1 }
        some (p.setFile d { p.file d with vnode := some v }, .found v)
    | some none =>
      match e.lookup, e.calloc, e.hasOpen with
      | true, some v, true =>
        if d ∉ p.live then none
        else
          let p := p.newVnode d path v
          if e.fopsOpen then some (p, .opened)
          else (p.openFailed d v).map fun p => (p, .error)
      | _, _, _ => some (p, .error)

/-- The section of `dfs_file_close`. -/
def dfsFileClose (d : F) (e : DfsAnswer V) : Option (Dfs F V × ℤ) :=
  if d ∉ p.live then none
  else match (p.file d).vnode with
    | none => none
    | some v =>
      if v ∉ p.vnodes then none
      else if (p.vnode v).refCount ≤ 0 then some (p, -6)
      else some (if (p.vnode v).refCount = 1 then p.freeVnode d v else p, e.fopsClose)

end

end Dfs

/-! ## Calls -/

/-- The callers of `dfs_file_open`. -/
inductive Opener where
  | open (fd : ℕ)
  | mount
  deriving DecidableEq

/-- The callers of `dfs_file_close`. -/
inductive Closer where
  | close (fd : ℤ)
  | mount
  | dup2 (oldfd newfd : ℕ)
  deriving DecidableEq

/-- Where a thread is between two sections: in `open` before `fd_get`, before the section of
`dfs_file_open` and before the `fops->open` of a vnode that was found; in `open` before `fd_release`;
in `dfs_file_close` before the test of `ref_count` and before the section; in `close` before
`fd_release`; in `sys_dup2` before `fd_release` and before the entry is shared. -/
inductive DfsCall (F V : Type) where
  | idle
  | fdGet (fd : ℕ) (path : List UInt8)
  | fileOpen (c : Opener) (d : F) (path : List UInt8)
  | fopsOpen (c : Opener) (d : F) (v : V)
  | openRelease (fd : ℕ)
  | closeTest (c : Closer) (d : F)
  | closeSection (c : Closer) (d : F)
  | closeRelease (fd result : ℤ)
  | dup2Release (oldfd newfd : ℕ)
  | dup2Share (oldfd newfd : ℕ)
  deriving DecidableEq

/-- The objects, the owner of `fdlock` between sections, the calls and their last results. -/
structure DfsState (T F V : Type) where
  dfs : Dfs F V
  fdlock : Option T
  fault : Bool
  call : T → DfsCall F V
  ret : T → ℤ

/-- A call begins with its first section, or goes on with the next one. -/
inductive DfsLabel (T F V : Type) where
  | open (t : T) (path : List UInt8) (realloc : Bool) (calloc : Option F)
  | close (t : T) (fd : ℤ)
  | mount (t : T) (path : List UInt8) (fd : F)
  | dup (t : T) (oldfd : ℤ) (realloc : Bool)
  | dup2 (t : T) (oldfd newfd : ℤ) (realloc : Bool)
  | proceed (t : T) (e : DfsAnswer V)

section

variable {T F V : Type} [DecidableEq T] [DecidableEq F] [DecidableEq V]

namespace DfsState

variable (s : DfsState T F V) (t : T) (p : Dfs F V)

/-- The call goes on. -/
def go (c : DfsCall F V) : DfsState T F V := { s with dfs := p, call := Function.update s.call t c }

/-- The call returns. -/
def finish (r : ℤ) : DfsState T F V :=
  { s with dfs := p, call := Function.update s.call t .idle, ret := Function.update s.ret t r }

/-- The call follows a bad pointer. -/
def crash : DfsState T F V := { s with fault := true, call := Function.update s.call t .idle }

/-- `dfs_mount` is done with the `dfs_file` on its stack. -/
def leaveMount (d : F) (r : ℤ) : DfsState T F V := s.finish t { p with stack := p.stack.erase d } r

/-- `dfs_file_open` returns an error. -/
def openError (c : Opener) (d : F) : DfsState T F V :=
  match c with
  | .open fd => s.go t p (.openRelease fd)
  | .mount => s.leaveMount t p d (-1)

/-- `dfs_file_open` returns 0. -/
def openOk (c : Opener) (d : F) : DfsState T F V :=
  match c with
  | .open fd => s.finish t p fd
  | .mount => s.go t p (.closeTest .mount d)

/-- `dfs_file_close` returns. -/
def closed (c : Closer) (d : F) (e : DfsAnswer V) (result : ℤ) : DfsState T F V :=
  match c with
  | .close fd => s.go t p (.closeRelease fd result)
  | .mount => s.leaveMount t p d e.mount
  | .dup2 oldfd newfd =>
    if result < 0 then { s.finish t p (-1) with fdlock := none }
    else s.go t p (.dup2Release oldfd newfd)

/-- `sys_dup`. -/
def sysDup (oldfd : ℤ) (realloc : Bool) : DfsState T F V :=
  match s.dfs.slot oldfd with
  | none => s.finish t s.dfs (-1)
  | some _ =>
    match s.dfs.fdSlotAlloc stdioOffset realloc with
    | none => s.finish t s.dfs (-1)
    | some (newfd, p) =>
      match p.fdShare oldfd.toNat newfd with
      | none => s.crash t
      | some p => s.finish t p newfd

/-- `sys_dup2` up to `dfs_file_close`, or to its end when there is nothing to close. -/
def sysDup2 (oldfd newfd : ℤ) (realloc : Bool) : DfsState T F V :=
  match s.dfs.slot oldfd with
  | none => s.finish t s.dfs (-1)
  | some f =>
    if newfd < 0 then s.finish t s.dfs (-1)
    else match s.dfs.fdSlotExpand newfd.toNat realloc with
      | none => s.finish t s.dfs (-1)
      | some p =>
        if p.fds newfd.toNat = some f then s.finish t p newfd
        else match p.fds newfd.toNat with
          | some d => { s.go t p (.closeTest (.dup2 oldfd.toNat newfd.toNat) d) with fdlock := some t }
          | none =>
            match p.fdShare oldfd.toNat newfd.toNat with
            | none => s.crash t
            | some p => s.finish t p newfd

/-- The next section of a call. `fdlock` is free, or the call is the `sys_dup2` that owns it. -/
def proceed (e : DfsAnswer V) : Option (DfsState T F V) :=
  match s.call t with
  | .idle => none
  | .fdGet fd path =>
    if s.fdlock ≠ none then none
    else match s.dfs.slot fd with
      | none => some (s.go t s.dfs (.openRelease fd))
      | some d => some (s.go t s.dfs (.fileOpen (.open fd) d path))
  | .fileOpen c d path =>
    match s.dfs.dfsFileOpen d path e with
    | none => some (s.crash t)
    | some (p, .found v) => some (s.go t p (.fopsOpen c d v))
    | some (p, .opened) => some (s.openOk t p c d)
    | some (p, .error) => some (s.openError t p c d)
  | .fopsOpen c d v =>
    if d ∉ s.dfs.live ∨ v ∉ s.dfs.vnodes then some (s.crash t)
    else if e.fopsOpen then some (s.openOk t s.dfs c d)
    else match s.dfs.openFailed d v with
      | none => some (s.crash t)
      | some p => some (s.openError t p c d)
  | .openRelease fd =>
    if s.fdlock ≠ none then none
    else match s.dfs.fdtFdRelease fd with
      | none => some (s.crash t)
      | some p => some (s.finish t p (-1))
  | .closeTest c d =>
    if d ∉ s.dfs.live then some (s.crash t)
    else if (s.dfs.file d).refCount = 1 then some (s.go t s.dfs (.closeSection c d))
    else some (s.closed t s.dfs c d e 0)
  | .closeSection c d =>
    match s.dfs.dfsFileClose d e with
    | none => some (s.crash t)
    | some (p, result) => some (s.closed t p c d e result)
  | .closeRelease fd result =>
    if s.fdlock ≠ none then none
    else match s.dfs.fdtFdRelease fd with
      | none => some (s.crash t)
      | some p => some (s.finish t p (if result < 0 then -1 else 0))
  | .dup2Release oldfd newfd =>
    match s.dfs.fdtFdRelease newfd with
    | none => some (s.crash t)
    | some p => some (s.go t p (.dup2Share oldfd newfd))
  | .dup2Share oldfd newfd =>
    match s.dfs.fdShare oldfd newfd with
    | none => some (s.crash t)
    | some p => some { s.finish t p newfd with fdlock := none }

end DfsState

/-- A step of the threads. Allocated memory is not in use, and sections wait for `fdlock`. -/
def dfsStep (s : DfsState T F V) : DfsLabel T F V → Option (DfsState T F V)
  | .open t path realloc calloc =>
    if s.call t ≠ .idle ∨ s.fdlock ≠ none ∨ calloc.any (· ∈ s.dfs.live) then none
    else match s.dfs.fdAlloc stdioOffset realloc calloc with
      | (none, p) => some (s.finish t p (-1))
      | (some fd, p) => some (s.go t p (.fdGet fd path))
  | .close t fd =>
    if s.call t ≠ .idle ∨ s.fdlock ≠ none then none
    else match s.dfs.slot fd with
      | none => some (s.finish t s.dfs (-1))
      | some d => some (s.go t s.dfs (.closeTest (.close fd) d))
  | .mount t path fd =>
    if s.call t ≠ .idle ∨ fd ∈ s.dfs.live then none
    else
      let p := s.dfs.setFile fd ⟨1, none⟩
      some (s.go t { p with stack := insert fd p.stack } (.fileOpen .mount fd path))
  | .dup t oldfd realloc =>
    if s.call t ≠ .idle ∨ s.fdlock ≠ none then none else some (s.sysDup t oldfd realloc)
  | .dup2 t oldfd newfd realloc =>
    if s.call t ≠ .idle ∨ s.fdlock ≠ none then none else some (s.sysDup2 t oldfd newfd realloc)
  | .proceed t e => if e.calloc.any (· ∈ s.dfs.vnodes) then none else s.proceed t e

/-- After `dfs_init`: an empty table, an empty hash table and no call. -/
structure DfsInit (s : DfsState T F V) : Prop where
  maxfd : s.dfs.maxfd = 0
  files : s.dfs.files = ∅
  stack : s.dfs.stack = ∅
  vnodes : s.dfs.vnodes = ∅
  head : ∀ hash, s.dfs.head hash = []
  fdlock : s.fdlock = none
  fault : s.fault = false
  call : ∀ t, s.call t = .idle

/-- The runs of the calls. -/
def dfsSystem (T F V : Type) [DecidableEq T] [DecidableEq F] [DecidableEq V] :
    System (DfsState T F V) (DfsLabel T F V) where
  init := DfsInit
  step := dfsStep

end

end RtThread
