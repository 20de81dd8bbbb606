import Mathlib.Algebra.Ring.Int.Defs
import Mathlib.Data.Finset.Card
import RtThread.Dfs.Tmpfs

/-!
# The contents of a tmpfs file

`dfs_tmpfs_open`, `read`, `write`, `lseek` and `close` for one file, with what `dfs_file.c` and
`dfs_posix.c` do around them for its vnode and for the position of a descriptor.

* `TmpfsNode`, `TmpfsVnode`: the two places with a size; `TmpfsData`: the file and its descriptors;
* `TmpfsData.call`: a call, with its result; `none` where it reaches outside the data;
* `ByteFile`, `ArrayStep`: one array of bytes with positions, and what a call should do with it;
* `DataInv`: the sizes agree and the positions lie within them;
* **`tmpfs_data`**: when a call does with the file what it should do with the array.
-/

set_option linter.unusedSectionVars false

namespace RtThread

/-- `struct tmpfs_file`: the size and the data of a file. -/
structure TmpfsNode where
  size : ℕ
  data : Option (List UInt8)

/-- `struct dfs_vnode` of an open file. -/
structure TmpfsVnode where
  size : ℕ
  refCount : ℕ

/-- A file, with the descriptors that are open for it and their positions. -/
structure TmpfsData (D : Type) where
  node : Option TmpfsNode
  vnode : Option TmpfsVnode
  opened : Finset D
  pos : D → ℤ

/-- `O_CREAT`, `O_TRUNC` and `O_APPEND`. -/
structure OpenFlags where
  creat : Bool
  trunc : Bool
  append : Bool

/-- `SEEK_SET`, `SEEK_CUR` and `SEEK_END`. -/
inductive Whence where
  | set
  | cur
  | fromEnd

/-- A call. For `open`: whether the vnode and the node can be allocated and the parent exists. For
`write`: what `rt_realloc` leaves behind the bytes that it keeps, if it does not fail. -/
inductive DataCall (D : Type) where
  | open (d : D) (flags : OpenFlags) (vnodeMem parent nodeMem : Bool)
  | read (d : D) (count : ℕ)
  | write (d : D) (buf : List UInt8) (mem : Option (ℕ → UInt8))
  | lseek (d : D) (offset : ℤ) (whence : Whence)
  | close (d : D)

/-- A value as `size_t`, in 32 bits. -/
def toSize (x : ℤ) : ℕ := (x % 2 ^ 32).toNat

/-- A value as `off_t` or `ssize_t`, in 32 bits. -/
def toOff (x : ℤ) : ℤ := x.bmod (2 ^ 32)

/-- `-EINVAL` at `lseek` is turned into this. -/
def negOne : ℤ := -1

namespace TmpfsData

variable {D : Type} [DecidableEq D] (s : TmpfsData D)

/-! ## The calls -/

/-- The file in `dfs_tmpfs_open`, found or made. -/
def openNode (flags : OpenFlags) (parent nodeMem : Bool) : Except ℤ TmpfsNode :=
  match s.node with
  | some n => .ok n
  | none =>
    if flags.creat then
      if parent then
        if nodeMem then .ok ⟨0, none⟩ else .error negEnomem
      else .error negEnoent
    else .error negEnoent

/-- `dfs_file_open` and `dfs_tmpfs_open`. -/
def openFile (d : D) (flags : OpenFlags) (vnodeMem parent nodeMem : Bool) : ℤ × TmpfsData D :=
  match s.vnode with
  | some v =>
    -- the flags are not looked at
    (0, { s with
      vnode := some { v with refCount := v.refCount + 1 }
      opened := insert d s.opened
      pos := Function.update s.pos d 0 })
  | none =>
    if vnodeMem then
      match s.openNode flags parent nodeMem with
      | .error e => (e, s)
      | .ok n =>
        let n := if flags.trunc then ⟨0, none⟩ else n
        (0, { s with
          node := some n
          vnode := some ⟨n.size, 1⟩
          opened := insert d s.opened
          pos := Function.update s.pos d (if flags.append then toOff n.size else 0) })
    else (negEnomem, s)

/-- The bytes from a position on, where they lie in the data. -/
def loadData (n : TmpfsNode) (pos : ℤ) (length : ℕ) : Option (List UInt8) :=
  if length = 0 then some []
  else n.data.bind fun l =>
    if 0 ≤ pos ∧ pos.toNat + length ≤ l.length then some ((l.drop pos.toNat).take length) else none

/-- `memcpy` to a position, where the bytes lie in the data. -/
def storeData (n : TmpfsNode) (pos : ℤ) (buf : List UInt8) : Option TmpfsNode :=
  if buf = [] then some n
  else n.data.bind fun l =>
    if 0 ≤ pos ∧ pos.toNat + buf.length ≤ l.length then
      some { n with data := some (l.take pos.toNat ++ buf ++ l.drop (pos.toNat + buf.length)) }
    else none

/-- `rt_realloc`: the bytes that are kept, and others behind them. -/
def reallocData (n : TmpfsNode) (size : ℕ) (mem : ℕ → UInt8) : TmpfsNode :=
  let l := n.data.getD []
  ⟨size, some (l.take size ++ (List.range (size - l.length)).map mem)⟩

/-- `dfs_tmpfs_read`. -/
def readFile (d : D) (count : ℕ) : Option ((ℤ × List UInt8) × TmpfsData D) :=
  match s.node, s.vnode with
  | some n, some v =>
    let rest := toSize (v.size - s.pos d)
    let length := if count < rest then count else rest
    (loadData n (s.pos d) length).map fun bytes =>
      ((toOff length, bytes), { s with pos := Function.update s.pos d (toOff (s.pos d + length)) })
  | _, _ => none

/-- `dfs_tmpfs_write`. -/
def writeFile (d : D) (buf : List UInt8) (mem : Option (ℕ → UInt8)) : Option (ℤ × TmpfsData D) :=
  match s.node, s.vnode with
  | some n, some v =>
    let size := toSize (buf.length + s.pos d)
    let store := fun (n : TmpfsNode) (vsize : ℕ) => (storeData n (s.pos d) buf).map fun n =>
      (toOff buf.length, { s with
        node := some n
        vnode := some { v with size := vsize }
        pos := Function.update s.pos d (toOff (s.pos d + buf.length)) })
    if v.size < size then
      match mem with
      | none => some (0, s)
      | some mem => store (reallocData n size mem) size
    else store n v.size
  | _, _ => none

/-- The `switch` in `lseek`. -/
def lseekOffset (d : D) (v : TmpfsVnode) (offset : ℤ) : Whence → ℤ
  | .set => offset
  | .cur => toOff (offset + s.pos d)
  | .fromEnd => toOff (offset + v.size)

/-- `lseek`, `dfs_file_lseek` and `dfs_tmpfs_lseek`. -/
def lseekFile (d : D) (offset : ℤ) (whence : Whence) : Option (ℤ × TmpfsData D) :=
  s.vnode.map fun v =>
    let offset := s.lseekOffset d v offset whence
    if offset < 0 then (negOne, s)
    else if offset ≤ toOff v.size then (offset, { s with pos := Function.update s.pos d offset })
    else (negOne, s)

/-- `close`: `dfs_file_close`, `dfs_tmpfs_close` and `fd_release`. -/
def closeFile (d : D) : Option (ℤ × TmpfsData D) :=
  s.vnode.map fun v =>
    (0, { s with
      vnode := if v.refCount = 1 then none else some { v with refCount := v.refCount - 1 }
      opened := s.opened.erase d })

/-- A call: what it returns, with the bytes that it reads. -/
def call : DataCall D → Option ((ℤ × List UInt8) × TmpfsData D)
  | .open d flags vnodeMem parent nodeMem =>
    let r := s.openFile d flags vnodeMem parent nodeMem
    some ((r.1, []), r.2)
  | .read d count => s.readFile d count
  | .write d buf mem => (s.writeFile d buf mem).map fun r => ((r.1, []), r.2)
  | .lseek d offset whence => (s.lseekFile d offset whence).map fun r => ((r.1, []), r.2)
  | .close d => (s.closeFile d).map fun r => ((r.1, []), r.2)

/-- A descriptor is new where it is opened and open elsewhere, and the arguments have their types. -/
def enabled : DataCall D → Bool
  | .open d _ _ _ _ => decide (d ∉ s.opened)
  | .read d _ => decide (d ∈ s.opened)
  | .write d buf _ => decide (d ∈ s.opened) && decide (buf.length < 2 ^ 32)
  | .lseek d offset _ => decide (d ∈ s.opened) && decide (-2 ^ 31 ≤ offset ∧ offset < 2 ^ 31)
  | .close d => decide (d ∈ s.opened)

end TmpfsData

/-! ## One array of bytes -/

/-- A file as an array of bytes, if it exists, with the descriptors and their positions. -/
structure ByteFile (D : Type) where
  bytes : Option (List UInt8)
  opened : Finset D
  pos : D → ℤ

namespace ByteFile

variable {D : Type} [DecidableEq D] (f : ByteFile D)

/-- The contents. -/
def contents : List UInt8 := f.bytes.getD []

/-- A position that moves. -/
def move (d : D) (pos : ℤ) : ByteFile D := { f with pos := Function.update f.pos d pos }

/-- A descriptor is opened, with the contents that the file then has. -/
def opens (d : D) (flags : OpenFlags) : ByteFile D :=
  let l := if flags.trunc then [] else f.contents
  ⟨some l, insert d f.opened, Function.update f.pos d (if flags.append then l.length else 0)⟩

/-- Bytes are written at the position. -/
def writes (d : D) (buf : List UInt8) : ByteFile D :=
  let p := (f.pos d).toNat
  { f with
    bytes := some (f.contents.take p ++ buf ++ f.contents.drop (p + buf.length))
    pos := Function.update f.pos d (f.pos d + buf.length) }

/-- Where a descriptor is moved to. -/
def target (d : D) (offset : ℤ) : Whence → ℤ
  | .set => offset
  | .cur => offset + f.pos d
  | .fromEnd => offset + f.contents.length

end ByteFile

/-- **What a call should do with the array**, with its result: calls that fail change nothing, and a
write fails only for want of memory. -/
def ArrayStep {D : Type} [DecidableEq D] (f : ByteFile D) :
    DataCall D → ℤ × List UInt8 → ByteFile D → Prop
  | .open d flags _ _ _, r, f' => (r.1 < 0 ∧ f' = f) ∨ (r.1 = 0 ∧ f' = f.opens d flags)
  | .read d count, r, f' =>
    r.2 = (f.contents.drop (f.pos d).toNat).take count ∧ r.1 = r.2.length ∧
      f' = f.move d (f.pos d + r.2.length)
  | .write d buf mem, r, f' =>
    (mem.isNone ∧ r.1 = 0 ∧ f' = f) ∨ (r.1 = buf.length ∧ f' = f.writes d buf)
  | .lseek d offset whence, r, f' =>
    let p := f.target d offset whence
    if 0 ≤ p ∧ p ≤ f.contents.length then r.1 = p ∧ f' = f.move d p else r.1 = negOne ∧ f' = f
  | .close d, r, f' => r.1 = 0 ∧ f' = { f with opened := f.opened.erase d }

namespace TmpfsData

variable {D : Type} [DecidableEq D] (s : TmpfsData D)

/-- The array that a file stands for. -/
def view : ByteFile D := ⟨s.node.map fun n => n.data.getD [], s.opened, s.pos⟩

/-- **A call is right**: it stays in the data and does what it should do with the array, and then the
positions lie within the file. -/
def Right (k : DataCall D) : Prop :=
  ∃ r s', s.call k = some (r, s') ∧ ArrayStep s.view k r s'.view ∧
    ∀ d ∈ s'.opened, 0 ≤ s'.pos d ∧ s'.pos d ≤ s'.view.contents.length

/-- **The condition**: a file that is open already is opened without `O_TRUNC` and `O_APPEND`, unless it
is empty; what is written ends below 2 GiB, or would not and the memory fails. -/
def ok : DataCall D → Bool
  | .open _ flags _ _ _ => s.vnode.all fun v => decide (v.size = 0) || (!flags.trunc && !flags.append)
  | .write d buf mem => decide (s.pos d + buf.length < 2 ^ 31) ||
      (mem.isNone && decide (s.pos d + buf.length < 2 ^ 32))
  | _ => true

end TmpfsData

namespace TmpfsData

/-! ## The bytes -/

section

variable {n : TmpfsNode} {p length : ℕ}

theorem toOff_of_lt {x : ℤ} (h0 : 0 ≤ x) (hlt : x < 2 ^ 31) : toOff x = x := by
  unfold toOff
  rw [Int.bmod_def]
  omega

theorem toSize_of_lt {x : ℤ} (h0 : 0 ≤ x) (hlt : x < 2 ^ 32) : toSize x = x.toNat := by
  unfold toSize
  rw [Int.emod_eq_of_lt h0 hlt]

/-- Data with bytes is there. -/
theorem data_some (h : 0 < (n.data.getD []).length) : n.data = some (n.data.getD []) := by
  cases hdata : n.data with
  | none =>
    rw [hdata] at h
    exact absurd h (Nat.lt_irrefl 0)
  | some l => rfl

theorem loadData_spec (h : p + length ≤ (n.data.getD []).length) :
    loadData n p length = some (((n.data.getD []).drop p).take length) := by
  unfold loadData
  by_cases hzero : length = 0
  · rw [if_pos hzero, hzero, List.take_zero]
  · rw [if_neg hzero]
    rw [data_some (n := n) (by omega), Option.bind_some, Option.getD_some, Int.toNat_natCast,
      if_pos ⟨Int.natCast_nonneg p, h⟩]

theorem storeData_spec {buf : List UInt8} (h : p + buf.length ≤ (n.data.getD []).length) :
    ∃ n', storeData n p buf = some n' ∧ n'.size = n.size ∧ n'.data.getD [] =
      (n.data.getD []).take p ++ buf ++ (n.data.getD []).drop (p + buf.length) := by
  unfold storeData
  by_cases hnil : buf = []
  · rw [if_pos hnil]
    refine ⟨n, rfl, rfl, ?_⟩
    rw [hnil, List.append_nil, List.length_nil, Nat.add_zero, List.take_append_drop]
  · have hpos := List.length_pos_iff.mpr hnil
    rw [if_neg hnil]
    rw [data_some (n := n) (by omega), Option.bind_some, Option.getD_some, Int.toNat_natCast,
      if_pos ⟨Int.natCast_nonneg p, h⟩]
    exact ⟨_, rfl, rfl, rfl⟩

theorem storeData_outside {buf : List UInt8} (h : (n.data.getD []).length < p + buf.length)
    (hnil : buf ≠ []) : storeData n p buf = none := by
  unfold storeData
  rw [if_neg hnil, Option.bind_eq_none_iff]
  intro l hl
  rw [hl, Option.getD_some] at h
  rw [Int.toNat_natCast]
  exact if_neg fun hin => absurd hin.2 (by omega)

/-- What is kept and what is written make up the bytes, when the file grows. -/
theorem reallocData_spec (buf : List UInt8) (mem : ℕ → UInt8) (hp : p ≤ (n.data.getD []).length)
    (hgrow : (n.data.getD []).length ≤ p + buf.length) :
    ((reallocData n (p + buf.length) mem).data.getD []).length = p + buf.length ∧
      ((reallocData n (p + buf.length) mem).data.getD []).take p = (n.data.getD []).take p := by
  unfold reallocData
  dsimp only
  rw [Option.getD_some, List.take_of_length_le hgrow, List.take_append_of_le_length hp]
  refine ⟨?_, rfl⟩
  rw [List.length_append, List.length_map, List.length_range]
  omega

end

/-! ## The invariant -/

/-- **The invariant**: the sizes agree, and the positions lie within them. -/
structure DataInv {D : Type} (s : TmpfsData D) : Prop where
  node : ∀ n, s.node = some n → n.size = (n.data.getD []).length ∧ n.size < 2 ^ 31
  closed : s.vnode = none → s.opened = ∅
  vnode : ∀ v, s.vnode = some v → v.refCount = s.opened.card ∧ ∃ n, s.node = some n ∧ v.size = n.size
  pos : ∀ d ∈ s.opened, 0 ≤ s.pos d ∧ s.pos d ≤ s.view.contents.length

variable {D : Type} [DecidableEq D] {s s' : TmpfsData D} {d : D}

/-- What an open descriptor belongs to. -/
structure At (s : TmpfsData D) (d : D) (n : TmpfsNode) (v : TmpfsVnode) (p : ℕ) : Prop where
  node : s.node = some n
  vnode : s.vnode = some v
  pos : s.pos d = p
  contents : s.view.contents = n.data.getD []
  nodeSize : n.size = (n.data.getD []).length
  vnodeSize : v.size = (n.data.getD []).length
  le : p ≤ (n.data.getD []).length
  lt : (n.data.getD []).length < 2 ^ 31

theorem DataInv.at (h : DataInv s) (hd : d ∈ s.opened) : ∃ n v p, At s d n v p := by
  cases hv : s.vnode with
  | none =>
    rw [h.closed hv] at hd
    exact absurd hd (Finset.notMem_empty d)
  | some v =>
    obtain ⟨-, n, hn, hsize⟩ := h.vnode v hv
    obtain ⟨hlen, hlt⟩ := h.node n hn
    have hcontents : s.view.contents = n.data.getD [] := by
      unfold ByteFile.contents view
      rw [hn]
      rfl
    obtain ⟨h0, hle⟩ := h.pos d hd
    rw [hcontents] at hle
    refine ⟨n, v, (s.pos d).toNat, hn, hv, (Int.toNat_of_nonneg h0).symm, hcontents, hlen,
      hsize.trans hlen, ?_, hlen ▸ hlt⟩
    omega

/-- A position that moves within the file. -/
theorem DataInv.move (h : DataInv s) {p : ℤ} (h0 : 0 ≤ p) (hle : p ≤ s.view.contents.length) :
    DataInv { s with pos := Function.update s.pos d p } where
  node := h.node
  closed := h.closed
  vnode := h.vnode
  pos e he := by
    by_cases hed : e = d
    · subst hed
      dsimp only
      rw [Function.update_self]
      exact ⟨h0, hle⟩
    · dsimp only
      rw [Function.update_of_ne hed]
      exact h.pos e he

theorem DataInv.right (h : DataInv s') {k : DataCall D} {r : ℤ × List UInt8}
    (hk : s.call k = some (r, s')) (hstep : ArrayStep s.view k r s'.view) : s.Right k :=
  ⟨r, s', hk, hstep, h.pos⟩

/-! ## The calls -/

/-- **Reading.** -/
theorem DataInv.readFile (h : DataInv s) (hd : d ∈ s.opened) (count : ℕ) :
    ∃ r s', s.call (.read d count) = some (r, s') ∧ ArrayStep s.view (.read d count) r s'.view ∧
      DataInv s' := by
  obtain ⟨n, v, p, hat⟩ := h.at hd
  have hle := hat.le
  have hlt := hat.lt
  have hsize := hat.vnodeSize
  have hrest : toSize (v.size - s.pos d) = (n.data.getD []).length - p := by
    rw [hat.pos, hat.vnodeSize, toSize_of_lt (by omega) (by omega)]
    omega
  obtain ⟨len, hlen⟩ : ∃ len, len = min count ((n.data.getD []).length - p) := ⟨_, rfl⟩
  have hif : (if count < (n.data.getD []).length - p then count else (n.data.getD []).length - p) =
      len := by
    rw [hlen]
    split_ifs <;> omega
  have hbytes : ((n.data.getD []).drop p).take len = ((n.data.getD []).drop p).take count := by
    rw [List.take_eq_take_iff, List.length_drop]
    omega
  have hlength : (((n.data.getD []).drop p).take count).length = len := by
    rw [List.length_take, List.length_drop, hlen]
  have hret : toOff len = len := toOff_of_lt (by omega) (by omega)
  have hpos : toOff (s.pos d + len) = s.pos d + len :=
    toOff_of_lt (by rw [hat.pos]; omega) (by rw [hat.pos]; omega)
  have hcall : s.call (.read d count) = some (((len : ℤ), ((n.data.getD []).drop p).take count),
      { s with pos := Function.update s.pos d (s.pos d + len) }) := by
    rw [call, TmpfsData.readFile, hat.node, hat.vnode]
    dsimp only
    rw [hrest, hif, hpos, hret, hat.pos, loadData_spec (by omega), hbytes, Option.map_some]
  refine ⟨_, _, hcall, ⟨?_, ?_, ?_⟩, h.move ?_ ?_⟩
  · show _ = (s.view.contents.drop (s.pos d).toNat).take count
    rw [hat.contents, hat.pos, Int.toNat_natCast]
  · dsimp only
    rw [hlength]
  · dsimp only
    rw [hlength]
    rfl
  · rw [hat.pos]
    omega
  · rw [hat.pos, hat.contents]
    omega

/-- The target of `lseek` is right, or lies beyond what `off_t` can hold. -/
theorem At.lseekOffset {n : TmpfsNode} {v : TmpfsVnode} {p : ℕ} (hat : At s d n v p) {offset : ℤ}
    (hmin : -2 ^ 31 ≤ offset) (hmax : offset < 2 ^ 31) (whence : Whence) :
    s.lseekOffset d v offset whence = s.view.target d offset whence ∨
      (s.lseekOffset d v offset whence < 0 ∧ 2 ^ 31 ≤ s.view.target d offset whence) := by
  have hle := hat.le
  have hlt := hat.lt
  have hwrap : ∀ x : ℤ, -2 ^ 31 ≤ x → x < 2 ^ 32 → toOff x = x ∨ (toOff x < 0 ∧ 2 ^ 31 ≤ x) := by
    intro x h1 h2
    unfold toOff
    rw [Int.bmod_def]
    omega
  cases whence with
  | set => exact Or.inl rfl
  | cur => exact hwrap (offset + s.pos d) (by rw [hat.pos]; omega) (by rw [hat.pos]; omega)
  | fromEnd =>
    have hsize := hat.vnodeSize
    unfold ByteFile.target TmpfsData.lseekOffset
    rw [hat.contents, ← hsize]
    exact hwrap (offset + v.size) (by omega) (by omega)

/-- **Moving the position.** -/
theorem DataInv.lseekFile (h : DataInv s) (hd : d ∈ s.opened) {offset : ℤ} (hmin : -2 ^ 31 ≤ offset)
    (hmax : offset < 2 ^ 31) (whence : Whence) :
    ∃ r s', s.call (.lseek d offset whence) = some (r, s') ∧
      ArrayStep s.view (.lseek d offset whence) r s'.view ∧ DataInv s' := by
  obtain ⟨n, v, p, hat⟩ := h.at hd
  have hle := hat.le
  have hlt := hat.lt
  obtain ⟨t, ht⟩ : ∃ t, t = s.lseekOffset d v offset whence := ⟨_, rfl⟩
  have htarget := hat.lseekOffset hmin hmax whence
  rw [← ht] at htarget
  have hsize : toOff v.size = (n.data.getD []).length := by
    rw [hat.vnodeSize, toOff_of_lt (by omega) (by omega)]
  have hcall : s.call (.lseek d offset whence) = some
      (if t < 0 then ((negOne, []), s)
      else if t ≤ (n.data.getD []).length then ((t, []), { s with pos := Function.update s.pos d t })
      else ((negOne, []), s)) := by
    rw [call, TmpfsData.lseekFile, hat.vnode, Option.map_some, Option.map_some, ← ht, hsize]
    dsimp only
    split_ifs <;> rfl
  have hstep : ∀ r f', ArrayStep s.view (.lseek d offset whence) r f' ↔
      if 0 ≤ s.view.target d offset whence ∧
          s.view.target d offset whence ≤ (n.data.getD []).length then
        r.1 = s.view.target d offset whence ∧ f' = s.view.move d (s.view.target d offset whence)
      else r.1 = negOne ∧ f' = s.view := by
    intro r f'
    rw [← hat.contents]
    rfl
  by_cases hin : 0 ≤ t ∧ t ≤ (n.data.getD []).length
  · rw [if_neg (by omega), if_pos hin.2] at hcall
    refine ⟨_, _, hcall, ?_, h.move hin.1 (by rw [hat.contents]; exact hin.2)⟩
    rcases htarget with heq | hout
    · rw [hstep, ← heq, if_pos hin]
      exact ⟨rfl, rfl⟩
    · omega
  · have hfail : s.call (.lseek d offset whence) = some ((negOne, []), s) := by
      rw [hcall]
      split_ifs
      · rfl
      · omega
      · rfl
    refine ⟨_, _, hfail, ?_, h⟩
    rw [hstep, if_neg ?_]
    · exact ⟨rfl, rfl⟩
    · rcases htarget with heq | hout
      · rwa [← heq]
      · omega

/-- **Closing.** -/
theorem DataInv.closeFile (h : DataInv s) (hd : d ∈ s.opened) :
    ∃ r s', s.call (.close d) = some (r, s') ∧ ArrayStep s.view (.close d) r s'.view ∧ DataInv s' := by
  obtain ⟨n, v, p, hat⟩ := h.at hd
  obtain ⟨hcount, hnode⟩ := h.vnode v hat.vnode
  have hcard := Finset.card_erase_of_mem hd
  have hcall : s.call (.close d) = some ((0, []), { s with
      vnode := if v.refCount = 1 then none else some { v with refCount := v.refCount - 1 }
      opened := s.opened.erase d }) := by
    rw [call, TmpfsData.closeFile, hat.vnode]
    rfl
  refine ⟨_, _, hcall, ⟨rfl, rfl⟩, h.node, fun hnone => ?_, fun w hw => ?_, fun e he => ?_⟩
  · dsimp only at hnone ⊢
    split_ifs at hnone with hone
    rw [← Finset.card_eq_zero, hcard, ← hcount, hone]
  · dsimp only at hw ⊢
    split_ifs at hw with hone
    cases hw
    exact ⟨by rw [hcard, hcount], hnode⟩
  · exact h.pos e (Finset.mem_of_mem_erase he)

/-- The file after a write, from the node `m` that the bytes are stored in. -/
theorem At.stored {n m : TmpfsNode} {v : TmpfsVnode} {p : ℕ} (hat : At s d n v p) (h : DataInv s)
    (buf : List UInt8) (hm : m.size = (m.data.getD []).length) (hlt : m.size < 2 ^ 31)
    (hin : p + buf.length ≤ (m.data.getD []).length) (hgrown : (n.data.getD []).length ≤ m.size)
    (htake : (m.data.getD []).take p = (n.data.getD []).take p)
    (hdrop : (m.data.getD []).drop (p + buf.length) = (n.data.getD []).drop (p + buf.length)) :
    ∃ m', storeData m p buf = some m' ∧
      ∀ s', s' = { s with
          node := some m'
          vnode := some { v with size := m.size }
          pos := Function.update s.pos d (s.pos d + buf.length) } →
        s'.view = s.view.writes d buf ∧ DataInv s' := by
  obtain ⟨m', hm', hsize', hdata⟩ := storeData_spec hin
  refine ⟨m', hm', fun s' hs' => ?_⟩
  have hlen : (m'.data.getD []).length = m.size := by
    rw [hdata, hm, List.length_append, List.length_append, List.length_take, List.length_drop]
    omega
  rw [htake, hdrop] at hdata
  have hview : s'.view = s.view.writes d buf := by
    have hp : (s.view.pos d).toNat = p := by
      show (s.pos d).toNat = p
      rw [hat.pos, Int.toNat_natCast]
    unfold ByteFile.writes
    rw [hat.contents, hp]
    dsimp only
    rw [← hdata, hs']
    rfl
  have hcontents : s'.view.contents = m'.data.getD [] := by
    rw [hs']
    rfl
  refine ⟨hview, ?_, ?_, ?_, ?_⟩
  · intro k hk
    rw [hs'] at hk
    cases hk
    exact ⟨hsize'.trans hlen.symm, hsize'.symm ▸ hlt⟩
  · intro hv
    rw [hs'] at hv
    cases hv
  · intro w hw
    rw [hs'] at hw ⊢
    cases hw
    exact ⟨(h.vnode v hat.vnode).1, m', rfl, hsize'.symm⟩
  · intro e he
    rw [hcontents, hlen]
    rw [hs'] at he ⊢
    dsimp only at he ⊢
    by_cases hed : e = d
    · rw [hed, Function.update_self, hat.pos]
      omega
    · rw [Function.update_of_ne hed]
      have hpos := h.pos e he
      rw [hat.contents] at hpos
      omega

/-- **Writing**, below 2 GiB or without memory. -/
theorem DataInv.writeFile (h : DataInv s) (hd : d ∈ s.opened) {buf : List UInt8}
    {mem : Option (ℕ → UInt8)} (hok : s.ok (.write d buf mem) = true) :
    ∃ r s', s.call (.write d buf mem) = some (r, s') ∧ ArrayStep s.view (.write d buf mem) r s'.view ∧
      DataInv s' := by
  obtain ⟨n, v, p, hat⟩ := h.at hd
  have hle := hat.le
  have hlt := hat.lt
  have hok' : s.pos d + buf.length < 2 ^ 31 ∨
      (mem.isNone = true ∧ s.pos d + buf.length < 2 ^ 32) := by
    simpa [ok] using hok
  have hsize : toSize (buf.length + s.pos d) = p + buf.length := by
    rw [hat.pos] at hok' ⊢
    rw [toSize_of_lt (by omega) (by omega)]
    omega
  have hcall : s.call (.write d buf mem) = (s.writeFile d buf mem).map fun r => ((r.1, []), r.2) := rfl
  have hret : p + buf.length < 2 ^ 31 → toOff buf.length = buf.length :=
    fun hend => toOff_of_lt (by omega) (by omega)
  have hpos : p + buf.length < 2 ^ 31 → toOff (s.pos d + buf.length) = s.pos d + buf.length :=
    fun hend => toOff_of_lt (by rw [hat.pos]; omega) (by rw [hat.pos]; omega)
  rw [hcall, TmpfsData.writeFile, hat.node, hat.vnode]
  dsimp only
  rw [hsize, hat.vnodeSize]
  by_cases hgrow : (n.data.getD []).length < p + buf.length
  · rw [if_pos hgrow]
    cases mem with
    | none => exact ⟨_, _, rfl, Or.inl ⟨rfl, rfl, rfl⟩, h⟩
    | some mem =>
      have hend : p + buf.length < 2 ^ 31 := by
        rw [hat.pos] at hok'
        simp at hok'
        omega
      obtain ⟨hlen, htake⟩ := reallocData_spec buf mem hle hgrow.le
      obtain ⟨m', hm', hs'⟩ := hat.stored h (m := reallocData n (p + buf.length) mem) buf
        hlen.symm hend hlen.symm.le hgrow.le htake
        (by rw [List.drop_of_length_le hlen.le, List.drop_of_length_le hgrow.le])
      dsimp only
      rw [hpos hend, hret hend, hat.pos, hm', ← hat.pos]
      obtain ⟨hview, hinv⟩ := hs' _ rfl
      exact ⟨_, _, rfl, Or.inr ⟨rfl, hview⟩, hinv⟩
  · rw [if_neg hgrow]
    have hend : p + buf.length < 2 ^ 31 := by omega
    obtain ⟨m', hm', hs'⟩ := hat.stored h (m := n) buf hat.nodeSize
      (hat.nodeSize.symm ▸ hlt) (Nat.le_of_not_lt hgrow) hat.nodeSize.symm.le rfl rfl
    rw [hpos hend, hret hend, hat.pos, hm', ← hat.pos, ← hat.nodeSize]
    obtain ⟨hview, hinv⟩ := hs' _ rfl
    exact ⟨_, _, rfl, Or.inr ⟨rfl, hview⟩, hinv⟩

/-- **A write that would end at 2 GiB or above**: the position wraps, or the size does. -/
theorem DataInv.write_wrong (h : DataInv s) (hd : d ∈ s.opened) {buf : List UInt8}
    (hbuf : buf.length < 2 ^ 32) {mem : Option (ℕ → UInt8)} (hno : s.ok (.write d buf mem) = false) :
    ¬ s.Right (.write d buf mem) := by
  rintro ⟨r, s', hcall, -, hpos⟩
  obtain ⟨n, v, p, hat⟩ := h.at hd
  have hle := hat.le
  have hlt := hat.lt
  have hno' : 2 ^ 31 ≤ s.pos d + buf.length ∧ (mem.isNone = true → 2 ^ 32 ≤ s.pos d + buf.length) := by
    simpa [ok] using hno
  rw [hat.pos] at hno'
  have hne : buf ≠ [] := by
    rintro rfl
    simp at hno'
    omega
  have heq : s.call (.write d buf mem) = (s.writeFile d buf mem).map fun r => ((r.1, []), r.2) := rfl
  rw [heq, TmpfsData.writeFile, hat.node, hat.vnode] at hcall
  dsimp only at hcall
  rw [hat.vnodeSize, hat.pos] at hcall
  by_cases hover : 2 ^ 32 ≤ (p : ℤ) + buf.length
  · have hsize : toSize (buf.length + p) = p + buf.length - 2 ^ 32 := by
      unfold toSize
      omega
    rw [hsize, if_neg (by omega), storeData_outside (by omega) hne] at hcall
    cases hcall
  · have hsize : toSize (buf.length + p) = p + buf.length := by
      rw [toSize_of_lt (by omega) (by omega)]
      omega
    rw [hsize, if_pos (by omega)] at hcall
    cases mem with
    | none => exact hover (hno'.2 rfl)
    | some mem =>
      dsimp only at hcall
      rw [Option.map_map, Option.map_eq_some_iff] at hcall
      obtain ⟨m, -, hm⟩ := hcall
      have hs' := congrArg Prod.snd hm
      rw [Function.comp_apply] at hs'
      dsimp only at hs'
      rw [← hs'] at hpos
      have hneg := (hpos d hd).1
      dsimp only at hneg
      rw [Function.update_self] at hneg
      unfold toOff at hneg
      rw [Int.bmod_def] at hneg
      omega

/-- The file that is found or made. -/
theorem DataInv.openNode (h : DataInv s) (flags : OpenFlags) (parent nodeMem : Bool) :
    (∀ e, s.openNode flags parent nodeMem = .error e → e < 0) ∧
      ∀ n, s.openNode flags parent nodeMem = .ok n → n.size = (n.data.getD []).length ∧
        n.size < 2 ^ 31 ∧ n.data.getD [] = s.view.contents := by
  unfold TmpfsData.openNode
  cases hnode : s.node with
  | some m =>
    refine ⟨fun e he => (nomatch he), fun n hn => ?_⟩
    cases hn
    refine ⟨(h.node m hnode).1, (h.node m hnode).2, ?_⟩
    unfold ByteFile.contents view
    rw [hnode]
    rfl
  | none =>
    dsimp only
    refine ⟨fun e he => ?_, fun n hn => ?_⟩
    · split_ifs at he <;> cases he <;> decide
    · split_ifs at hn
      cases hn
      refine ⟨rfl, by decide, ?_⟩
      unfold ByteFile.contents view
      rw [hnode]
      rfl

/-- **Opening** a file that is not open, or one that is without flags that matter. -/
theorem DataInv.openFile (h : DataInv s) (hd : d ∉ s.opened) {flags : OpenFlags}
    {vnodeMem parent nodeMem : Bool} (hok : s.ok (.open d flags vnodeMem parent nodeMem) = true) :
    ∃ r s', s.call (.open d flags vnodeMem parent nodeMem) = some (r, s') ∧
      ArrayStep s.view (.open d flags vnodeMem parent nodeMem) r s'.view ∧ DataInv s' := by
  have hcall : s.call (.open d flags vnodeMem parent nodeMem) =
      some (((s.openFile d flags vnodeMem parent nodeMem).1, []),
        (s.openFile d flags vnodeMem parent nodeMem).2) := rfl
  refine ⟨_, _, hcall, ?_⟩
  unfold TmpfsData.openFile
  cases hv : s.vnode with
  | some v =>
    obtain ⟨hcount, n, hn, hsize⟩ := h.vnode v hv
    have hcontents : s.view.contents = n.data.getD [] := by
      unfold ByteFile.contents view
      rw [hn]
      rfl
    have hok' : v.size = 0 ∨ (flags.trunc = false ∧ flags.append = false) := by
      unfold ok at hok
      rw [hv] at hok
      simpa using hok
    -- the flags do not matter for an empty file
    have hflags : (if flags.trunc then [] else s.view.contents) = s.view.contents ∧
        (if flags.append then ((if flags.trunc then [] else s.view.contents).length : ℤ) else 0) = 0 := by
      rcases hok' with hzero | ⟨htrunc, happend⟩
      · have hnil : s.view.contents = [] := by
          rw [hcontents]
          exact List.eq_nil_of_length_eq_zero ((h.node n hn).1.symm.trans (hsize.symm.trans hzero))
        rw [hnil]
        exact ⟨ite_self _, by rw [ite_self]; exact ite_self _⟩
      · rw [htrunc, happend]
        exact ⟨rfl, rfl⟩
    refine ⟨Or.inr ⟨rfl, ?_⟩, h.node, fun hnone => (nomatch hnone), fun w hw => ?_, fun e he => ?_⟩
    · unfold ByteFile.opens
      dsimp only
      rw [hflags.1] at *
      rw [hflags.2, hcontents]
      unfold view
      rw [hn]
      rfl
    · cases hw
      exact ⟨by rw [Finset.card_insert_of_notMem hd, hcount], n, hn, hsize⟩
    · dsimp only at he ⊢
      by_cases hed : e = d
      · rw [hed, Function.update_self]
        exact ⟨le_refl _, Int.natCast_nonneg _⟩
      · rw [Function.update_of_ne hed]
        exact h.pos e (Finset.mem_of_mem_insert_of_ne he hed)
  | none =>
    dsimp only
    cases vnodeMem with
    | false =>
      rw [if_neg Bool.false_ne_true]
      exact ⟨Or.inl ⟨(by decide : negEnomem < 0), rfl⟩, h⟩
    | true =>
      rw [if_pos rfl]
      obtain ⟨herr, hfound⟩ := h.openNode flags parent nodeMem
      cases hnode : s.openNode flags parent nodeMem with
      | error e => exact ⟨Or.inl ⟨herr e hnode, rfl⟩, h⟩
      | ok n =>
        obtain ⟨hlen, hlt, hcontents⟩ := hfound n hnode
        dsimp only
        obtain ⟨m, hm⟩ : ∃ m, m = if flags.trunc then (⟨0, none⟩ : TmpfsNode) else n := ⟨_, rfl⟩
        have hdata : m.data.getD [] = if flags.trunc then [] else s.view.contents := by
          rw [hm, ← hcontents]
          split_ifs <;> rfl
        have hsize : m.size = (m.data.getD []).length ∧ m.size < 2 ^ 31 := by
          rw [hm]
          split_ifs
          · exact ⟨rfl, by decide⟩
          · exact ⟨hlen, hlt⟩
        have hoff : toOff m.size = (m.data.getD []).length := by
          rw [hsize.1]
          exact toOff_of_lt (by omega) (by omega)
        have hempty := h.closed hv
        rw [← hm, hoff]
        refine ⟨Or.inr ⟨rfl, ?_⟩, fun k hk => ?_, fun hnone => (nomatch hnone), fun w hw => ?_,
          fun e he => ?_⟩
        · unfold ByteFile.opens
          dsimp only
          rw [← hdata]
          rfl
        · cases hk
          exact hsize
        · cases hw
          refine ⟨?_, m, rfl, rfl⟩
          rw [Finset.card_insert_of_notMem hd, hempty]
          rfl
        · dsimp only at he ⊢
          rw [hempty] at he
          have hed : e = d := by simpa using he
          show _ ∧ _ ≤ ((m.data.getD []).length : ℤ)
          rw [hed, Function.update_self]
          split_ifs <;> omega

/-- **Opening a file with bytes that is open** with `O_TRUNC` or `O_APPEND`: the flags are lost. -/
theorem DataInv.open_wrong (h : DataInv s) {flags : OpenFlags} {vnodeMem parent nodeMem : Bool}
    (hno : s.ok (.open d flags vnodeMem parent nodeMem) = false) :
    ¬ s.Right (.open d flags vnodeMem parent nodeMem) := by
  rintro ⟨r, s', hcall, hstep, -⟩
  cases hv : s.vnode with
  | none =>
    unfold ok at hno
    rw [hv] at hno
    cases hno
  | some v =>
    obtain ⟨-, n, hn, hsize⟩ := h.vnode v hv
    have hcontents : s.view.contents = n.data.getD [] := by
      unfold ByteFile.contents view
      rw [hn]
      rfl
    have hlen : s.view.contents.length = v.size := by
      rw [hcontents, hsize, (h.node n hn).1]
    have hno' : v.size ≠ 0 ∧ (flags.trunc = false → flags.append = true) := by
      unfold ok at hno
      rw [hv] at hno
      simpa using hno
    have heq : s.call (.open d flags vnodeMem parent nodeMem) =
        some (((s.openFile d flags vnodeMem parent nodeMem).1, []),
          (s.openFile d flags vnodeMem parent nodeMem).2) := rfl
    rw [heq, TmpfsData.openFile, hv] at hcall
    cases hcall
    rcases hstep with ⟨hneg, -⟩ | ⟨-, hview⟩
    · exact absurd hneg (lt_irrefl 0)
    · have hbytes := congrArg ByteFile.contents hview
      have hpos := congrFun (congrArg ByteFile.pos hview) d
      unfold ByteFile.opens at hbytes hpos
      dsimp only [view] at hpos
      rw [Function.update_self, Function.update_self] at hpos
      cases htrunc : flags.trunc with
      | true =>
        rw [htrunc] at hbytes
        have hnil : s.view.contents = [] := hbytes
        rw [hnil] at hlen
        exact hno'.1 hlen.symm
      | false =>
        rw [htrunc, hno'.2 htrunc, if_pos rfl, if_neg Bool.false_ne_true] at hpos
        have hzero : (0 : ℤ) = s.view.contents.length := hpos
        omega

/-- **One call**: it is right exactly under the condition, and then it keeps the invariant. -/
theorem DataInv.call (h : DataInv s) {k : DataCall D} (hen : s.enabled k = true) :
    (s.Right k ↔ s.ok k = true) ∧
      ∀ r s', s.ok k = true → s.call k = some (r, s') → DataInv s' := by
  have hright : ∀ k : DataCall D, (∃ r s', s.call k = some (r, s') ∧ ArrayStep s.view k r s'.view ∧
      DataInv s') → s.Right k ∧ ∀ r s', s.call k = some (r, s') → DataInv s' := by
    rintro k ⟨r, s', hcall, hstep, hinv⟩
    refine ⟨hinv.right hcall hstep, fun r' s'' hcall' => ?_⟩
    rw [hcall] at hcall'
    cases hcall'
    exact hinv
  cases k with
  | «open» d flags vnodeMem parent nodeMem =>
    have hd : d ∉ s.opened := of_decide_eq_true hen
    refine ⟨⟨fun hr => ?_, fun hok => (hright _ (h.openFile hd hok)).1⟩,
      fun r s' hok => (hright _ (h.openFile hd hok)).2 r s'⟩
    by_contra hno
    exact h.open_wrong (eq_false_of_ne_true hno) hr
  | read d count =>
    have hread := hright _ (h.readFile (of_decide_eq_true hen) count)
    exact ⟨iff_of_true hread.1 rfl, fun r s' _ => hread.2 r s'⟩
  | write d buf mem =>
    obtain ⟨hd, hbuf⟩ := Bool.and_eq_true_iff.mp hen
    have hd' : d ∈ s.opened := of_decide_eq_true hd
    refine ⟨⟨fun hr => ?_, fun hok => (hright _ (h.writeFile hd' hok)).1⟩,
      fun r s' hok => (hright _ (h.writeFile hd' hok)).2 r s'⟩
    by_contra hno
    exact h.write_wrong hd' (of_decide_eq_true hbuf) (eq_false_of_ne_true hno) hr
  | lseek d offset whence =>
    obtain ⟨hd, hoff⟩ := Bool.and_eq_true_iff.mp hen
    obtain ⟨hmin, hmax⟩ := of_decide_eq_true hoff
    have hseek := hright _ (h.lseekFile (of_decide_eq_true hd) hmin hmax whence)
    exact ⟨iff_of_true hseek.1 rfl, fun r s' _ => hseek.2 r s'⟩
  | close d =>
    have hclose := hright _ (h.closeFile (of_decide_eq_true hen))
    exact ⟨iff_of_true hclose.1 rfl, fun r s' _ => hclose.2 r s'⟩

end TmpfsData

end RtThread
