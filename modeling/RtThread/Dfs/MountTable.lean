import Mathlib.Data.List.FinRange
import RtThread.Dfs.NormalizePath
import RtThread.Lib.System

/-!
# The mount table

`dfs_mount` looks for the path as its caller spelled it in a table of normalized paths, and fills an
entry before the device and the file system have accepted it; `dfs_filesystem_lookup` goes through the
table for the longest path.

* `dfsMount`, `dfsUnmount`, `dfsFilesystemLookup`: the functions, with `mountLoop`, `lookupBody`;
* `Valid`: an entry is zero, or has a normalized path and operations;
* `dfsMount_cases`, `dfsUnmount_cases`: what the calls do; `dfsFilesystemLookup_longest`;
* **`mount_table`**: every path is mounted once exactly when the mounts meet `mountOnce`.
-/

namespace RtThread

/-! ## The functions -/

/-- `struct dfs_filesystem_ops`: its name, and whether it has a `mount` and an `unmount`. -/
structure FilesystemOps where
  name : CStr
  mount : Bool
  unmount : Bool

/-- `struct dfs_filesystem`; an empty entry is zero. -/
structure DfsFilesystem where
  devId : Option ℕ := none
  path : Option (List UInt8) := none
  ops : Option FilesystemOps := none
  data : ℕ := 0

/-- `filesystem_table`. -/
abbrev MountTable (n : ℕ) := Fin n → DfsFilesystem

/-- A working directory is an absolute path. -/
structure WorkingDirectory extends CStr where
  absolute : chars.head? = some (chr '/')

/-- What the code outside finds and answers: the working directory, the allocator, the device, the
registered file systems, `dfs_file_open`, `rt_device_open`, and `mount` and `unmount` of the file
system, which can write `data`. -/
structure MountAnswer where
  workingDirectory : Option WorkingDirectory := none
  malloc : Bool := true
  deviceFind : Option ℕ := none
  operationTable : List (Option FilesystemOps)
  fileOpen : Bool := true
  typeAddr : ℕ := 1
  deviceOpen : Bool := true
  mount : ℤ := 0
  unmount : ℤ := 0
  data : ℕ := 0

/-- `dfs_normalize_path(NULL, path)`. -/
def MountAnswer.normalize (w : MountAnswer) (path : CStr) : Option (Option (List UInt8)) :=
  dfsNormalizePath (w.workingDirectory.map (·.toCStr)) w.malloc none path

/-- The file system of a type. -/
def MountAnswer.findOps (w : MountAnswer) (filesystemtype : CStr) : Option FilesystemOps :=
  (w.operationTable.find? fun ops => ops.any fun ops =>
    strncmpEq ops.name.chars filesystemtype.chars ops.name.chars.length).join

/-- `"/"`. -/
def rootPath : List UInt8 := [chr '/']

/-- `"/dev"`. -/
def devPath : List UInt8 := [chr '/', chr 'd', chr 'e', chr 'v']

/-- What the search in the table finds: the path, or the first empty entry, if there is one. -/
inductive MountSlot (n : ℕ) where
  | mounted
  | entry (fs : Option (Fin n))

namespace MountTable

section
variable {n : ℕ} (table : MountTable n)

/-- The search of `dfs_mount`. -/
def mountLoop (path : List UInt8) : List (Fin n) → Option (Fin n) → Option (MountSlot n)
  | [], fs => some (.entry fs)
  | iter :: rest, fs =>
    match (table iter).ops with
    | none => mountLoop path rest (fs.or (some iter))
    | some _ => (table iter).path.bind fun p =>
      if p = path then some .mounted else mountLoop path rest fs

/-- An entry is filled, and cleared when the device or the file system refuses. -/
def mountEntry (fs : Fin n) (devId : Option ℕ) (fullpath : List UInt8) (ops : FilesystemOps)
    (w : MountAnswer) : ℤ × MountTable n :=
  let table := Function.update table fs
    { devId := devId, path := some fullpath, ops := some ops, data := w.typeAddr }
  if devId.isSome = true ∧ w.deviceOpen = false then (-1, Function.update table fs {})
  else
    let table := Function.update table fs { table fs with data := w.data }
    if w.mount < 0 then (-1, Function.update table fs {}) else (0, table)

/-- `dfs_mount`. There is no result when a null pointer is followed. -/
def dfsMount (deviceName : Option CStr) (path filesystemtype : CStr) (w : MountAnswer) :
    Option (ℤ × MountTable n) :=
  let devId := deviceName.bind fun _ => w.deviceFind
  if deviceName.isSome = true ∧ w.deviceFind = none then some (-1, table)
  else match w.findOps filesystemtype with
    | none => some (-1, table)
    | some ops =>
      if ops.mount = false then some (-1, table)
      else (w.normalize path).bind fun r => r.elim (some (-1, table)) fun fullpath =>
        if (fullpath ≠ rootPath ∧ fullpath ≠ devPath) ∧ w.fileOpen = false then some (-1, table)
        else (table.mountLoop path.chars (List.finRange n) none).map fun
          | .mounted => (-1, table)
          | .entry none => (-1, table)
          | .entry (some fs) => table.mountEntry fs devId fullpath ops w

/-- `dfs_unmount`. -/
def dfsUnmount (specialfile : CStr) (w : MountAnswer) : Option (ℤ × MountTable n) :=
  (w.normalize specialfile).bind fun r => r.elim (some (-1, table)) fun fullpath =>
    match (List.finRange n).find? fun iter => (table iter).path = some fullpath with
    | none => some (-1, table)
    | some fs => (table fs).ops.map fun ops =>
      if ops.unmount = false then (-1, table)
      else if w.unmount < 0 then (-1, Function.update table fs { table fs with data := w.data })
      else (0, Function.update table fs {})

/-- The body of the loop of `dfs_filesystem_lookup`, with `fs` and `prefixlen`. -/
def lookupBody (path : List UInt8) (r : Option (Fin n) × ℕ) (iter : Fin n) : Option (Fin n) × ℕ :=
  match (table iter).path, (table iter).ops with
  | some p, some _ =>
    let fspath := p.length
    if fspath < r.2 ∨ strncmpEq p path fspath = false then r
    else if fspath > 1 ∧ path.length > fspath ∧ path[fspath]? ≠ some (chr '/') then r
    else (some iter, fspath)
  | _, _ => r

/-- `dfs_filesystem_lookup`. -/
def dfsFilesystemLookup (path : List UInt8) : Option (Fin n) :=
  ((List.finRange n).foldl (table.lookupBody path) (none, 0)).1

end

end MountTable

/-- The calls. -/
inductive MountCall where
  | mount (deviceName : Option CStr) (path filesystemtype : CStr) (w : MountAnswer)
  | unmount (specialfile : CStr) (w : MountAnswer)

/-- The table after a call, and what it returns. -/
def MountTable.call {n : ℕ} (table : MountTable n) : MountCall → Option (ℤ × MountTable n)
  | .mount deviceName path filesystemtype w => table.dfsMount deviceName path filesystemtype w
  | .unmount specialfile w => table.dfsUnmount specialfile w

/-- The runs of the table, which `dfs_init` clears. -/
def mountRuns (n : ℕ) : System (MountTable n) MountCall where
  init table := table = fun _ => {}
  step table c := (table.call c).map (·.2)

/-! ## Normalized paths -/

/-- The normalized path of a path. -/
def fullPath (workingDirectory : Option WorkingDirectory) (path : CStr) : List UInt8 :=
  render (chr '/') (resolve (chr '.') (components (chr '/')
    (joinPath (workingDirectory.map (·.toCStr)) path)))

theorem fullPath_normal (workingDirectory : Option WorkingDirectory) (path : CStr) :
    NormalPath (fullPath workingDirectory path) :=
  ⟨_, resolve_components _, rfl⟩

/-- A normalized path stays as it is. -/
theorem fullPath_self {path : CStr} (h : NormalPath path.chars)
    (workingDirectory : Option WorkingDirectory) :
    fullPath workingDirectory path = path.chars := by
  obtain ⟨names, hnames, hp⟩ := h
  have hhead : path.chars.head? = some (chr '/') := by rw [hp, render_head?]
  rw [fullPath, joinPath, if_pos hhead, hp,
    components_render fun c hc => ⟨(hnames c hc).ne_nil, (hnames c hc).no_slash⟩, resolve_self hnames]

/-- There is a directory for a path that is not absolute. -/
def MountAnswer.hasDirectory (w : MountAnswer) (path : CStr) : Bool :=
  decide (path.chars.head? = some (chr '/')) || w.workingDirectory.isSome

/-- **What `dfs_normalize_path` answers.** -/
theorem MountAnswer.normalize_eq (w : MountAnswer) (path : CStr) : w.normalize path =
    some (if w.malloc = true ∧ w.hasDirectory path = true then
      some (fullPath w.workingDirectory path) else none) := by
  by_cases hdir : w.hasDirectory path = true
  · have habs : AbsolutePath ((none : Option CStr).or (w.workingDirectory.map (·.toCStr))) path := by
      rcases Bool.or_eq_true_iff.mp hdir with h | h
      · exact .inl (of_decide_eq_true h)
      · obtain ⟨d, hd⟩ := Option.isSome_iff_exists.mp h
        exact .inr ⟨d.toCStr, by rw [hd]; rfl, d.absolute⟩
    rw [normalize, dfsNormalizePath_eq habs]
    by_cases hm : w.malloc = false
    · rw [if_pos hm, if_neg fun h => by rw [hm] at h; exact absurd h.1 (by decide)]
    · rw [if_neg hm, if_pos ⟨Bool.eq_true_of_not_eq_false hm, hdir⟩,
        normalizeBuf_spec (joinPath_head? habs) (joinPath_no_nul _ _)]
      rfl
  · rw [if_neg fun h => hdir h.2]
    rw [hasDirectory, Bool.or_eq_true_iff, not_or, decide_eq_true_eq] at hdir
    have hnone : w.workingDirectory = none := by simpa using hdir.2
    rw [normalize, dfsNormalizePath, if_pos hdir.1, hnone]
    rfl

/-! ## The entries -/

/-- An entry is zero, or has a normalized path and operations. -/
def DfsFilesystem.Valid (fs : DfsFilesystem) : Prop :=
  fs = {} ∨ ∃ p ops, fs.path = some p ∧ fs.ops = some ops ∧ NormalPath p

namespace MountTable

section
variable {n : ℕ} {table : MountTable n} {deviceName : Option CStr} {path filesystemtype : CStr}
  {w : MountAnswer}

/-- All entries are valid. -/
def Valid (table : MountTable n) : Prop := ∀ i, (table i).Valid

/-- No two entries have the same path. -/
def Distinct (table : MountTable n) : Prop :=
  ∀ i j p, (table i).path = some p → (table j).path = some p → i = j

/-- The device, the file system, the memory, the directory, the table and the `mount` of the file
system grant a mount. -/
def grants (table : MountTable n) (deviceName : Option CStr) (path filesystemtype : CStr)
    (w : MountAnswer) : Bool :=
  (!deviceName.isSome || (w.deviceFind.isSome && w.deviceOpen)) &&
    (w.findOps filesystemtype).any (·.mount) && w.malloc && w.hasDirectory path &&
    (decide (fullPath w.workingDirectory path = rootPath) ||
      decide (fullPath w.workingDirectory path = devPath) || w.fileOpen) &&
    decide (∃ i, (table i).ops.isNone = true) && decide (0 ≤ w.mount)

/-- **The condition**: a mount that is granted has a path that is spelled as it is stored, or is not
in the table. -/
def mountOnce (table : MountTable n) : MountCall → Bool
  | .mount deviceName path filesystemtype w => !table.grants deviceName path filesystemtype w ||
      decide (path.chars = fullPath w.workingDirectory path ∨
        ∀ i, (table i).path ≠ some (fullPath w.workingDirectory path))
  | .unmount _ _ => true

/-- An entry without operations is zero. -/
theorem Valid.empty (hv : table.Valid) {i : Fin n} (h : (table i).ops = none) : table i = {} := by
  rcases hv i with hi | ⟨p, ops, -, hops, -⟩
  · exact hi
  · rw [h] at hops
    cases hops

/-- A path in the table is normalized. -/
theorem Valid.normal (hv : table.Valid) {i : Fin n} {p : List UInt8}
    (h : (table i).path = some p) : NormalPath p ∧ ∃ ops, (table i).ops = some ops := by
  rcases hv i with hi | ⟨q, ops, hq, hops, hnormal⟩
  · rw [hi] at h
    cases h
  · rw [hq] at h
    exact ⟨Option.some.inj h ▸ hnormal, ops, hops⟩

theorem Valid.update (hv : table.Valid) (fs : Fin n) {x : DfsFilesystem} (hx : x.Valid) :
    Valid (Function.update table fs x) := by
  intro i
  by_cases hi : i = fs
  · rw [hi, Function.update_self]
    exact hx
  · rw [Function.update_of_ne hi]
    exact hv i

/-- An entry that is cleared, or keeps its path. -/
theorem Distinct.update (hd : table.Distinct) (fs : Fin n) {x : DfsFilesystem}
    (hx : ∀ p, x.path = some p → (table fs).path = some p) :
    Distinct (Function.update table fs x) := by
  have hpath : ∀ i p, (Function.update table fs x i).path = some p → (table i).path = some p := by
    intro i p h
    by_cases hi : i = fs
    · rw [hi, Function.update_self] at h
      rw [hi]
      exact hx p h
    · rwa [Function.update_of_ne hi] at h
  intro i j p hi hj
  exact hd i j p (hpath i p hi) (hpath j p hj)

/-- A path that is put in an empty entry is distinct exactly when the table does not have it. -/
theorem Distinct.put_iff (hd : table.Distinct) {fs : Fin n} (hfs : (table fs).path = none)
    {x : DfsFilesystem} {p : List UInt8} (hx : x.path = some p) :
    Distinct (Function.update table fs x) ↔ ∀ i, (table i).path ≠ some p := by
  constructor
  · intro h i hi
    have hne : i ≠ fs := fun e => by rw [e, hfs] at hi; cases hi
    refine hne (h i fs p ?_ ?_)
    · rw [Function.update_of_ne hne, hi]
    · rw [Function.update_self, hx]
  · intro h i j q hi hj
    by_cases hif : i = fs
    · by_cases hjf : j = fs
      · rw [hif, hjf]
      · rw [hif, Function.update_self, hx] at hi
        rw [Function.update_of_ne hjf, ← Option.some.inj hi] at hj
        exact absurd hj (h j)
    · rw [Function.update_of_ne hif] at hi
      by_cases hjf : j = fs
      · rw [hjf, Function.update_self, hx] at hj
        rw [← Option.some.inj hj] at hi
        exact absurd hi (h i)
      · rw [Function.update_of_ne hjf] at hj
        exact hd i j q hi hj

/-! ## Mounting -/

/-- **The search**: the path is found as it is spelled, or the first empty entry. -/
theorem mountLoop_spec (hv : table.Valid) (path : List UInt8) (l : List (Fin n))
    (fs : Option (Fin n)) :
    (table.mountLoop path l fs = some .mounted ∧ ∃ i ∈ l, (table i).path = some path) ∨
    (table.mountLoop path l fs =
        some (.entry (fs.or (l.find? fun i => (table i).ops.isNone))) ∧
      ∀ i ∈ l, (table i).path ≠ some path) := by
  induction l generalizing fs with
  | nil => exact .inr ⟨by rw [List.find?_nil, Option.or_none]; rfl,
      fun i hi => absurd hi List.not_mem_nil⟩
  | cons iter rest ih =>
    rw [mountLoop]
    cases hops : (table iter).ops with
    | none =>
      have hnone : (table iter).path ≠ some path := by
        rw [hv.empty hops]
        exact nofun
      rcases ih (fs.or (some iter)) with ⟨h, i, hi, hp⟩ | ⟨h, hno⟩
      · exact .inl ⟨h, i, List.mem_cons_of_mem _ hi, hp⟩
      · refine .inr ⟨?_, fun i hi => ?_⟩
        · rw [List.find?_cons_of_pos (by rw [hops]; rfl)]
          refine h.trans ?_
          cases fs <;> rfl
        · rcases List.mem_cons.mp hi with rfl | hi
          · exact hnone
          · exact hno i hi
    | some ops =>
      have hfind : (iter :: rest).find? (fun i => (table i).ops.isNone) =
          rest.find? fun i => (table i).ops.isNone :=
        List.find?_cons_of_neg (by rw [hops]; exact Bool.false_ne_true)
      obtain ⟨p, -, hp, -, -⟩ : ∃ p ops, (table iter).path = some p ∧ (table iter).ops = some ops ∧
          NormalPath p := by
        refine (hv iter).resolve_left fun h => ?_
        rw [h] at hops
        cases hops
      dsimp only
      rw [hp, Option.bind_some]
      by_cases he : p = path
      · rw [if_pos he]
        exact .inl ⟨rfl, iter, List.mem_cons_self, by rw [hp, he]⟩
      · rw [if_neg he, hfind]
        rcases ih fs with ⟨h, i, hi, hpi⟩ | ⟨h, hno⟩
        · exact .inl ⟨h, i, List.mem_cons_of_mem _ hi, hpi⟩
        · refine .inr ⟨h, fun i hi => ?_⟩
          rcases List.mem_cons.mp hi with rfl | hi
          · rw [hp]
            exact fun e => he (Option.some.inj e)
          · exact hno i hi

/-- An empty entry is filled, or is zero again. -/
theorem mountEntry_cases {fs : Fin n} (hfs : table fs = {}) (devId : Option ℕ)
    (fullpath : List UInt8) (ops : FilesystemOps) (w : MountAnswer) :
    table.mountEntry fs devId fullpath ops w =
      if (devId.isSome = true → w.deviceOpen = true) ∧ 0 ≤ w.mount then
        (0, Function.update table fs
          { devId := devId, path := some fullpath, ops := some ops, data := w.data })
      else (-1, table) := by
  have hclear : Function.update table fs {} = table := by
    rw [← hfs]
    exact Function.update_eq_self fs table
  rw [mountEntry]
  dsimp only
  rw [Function.update_self, Function.update_idem, Function.update_idem, Function.update_idem,
    hclear]
  by_cases hopen : devId.isSome = true ∧ w.deviceOpen = false
  · rw [if_pos hopen, if_neg fun h => ?_]
    have htrue := h.1 hopen.1
    rw [hopen.2] at htrue
    cases htrue
  · rw [if_neg hopen]
    have hgo : devId.isSome = true → w.deviceOpen = true := fun h =>
      Bool.eq_true_of_not_eq_false fun hf => hopen ⟨h, hf⟩
    by_cases hm : w.mount < 0
    · rw [if_pos hm, if_neg fun h => absurd h.2 (by omega)]
    · rw [if_neg hm, if_pos ⟨hgo, by omega⟩, Function.update_idem]

/-- What grants a mount that has an entry. -/
theorem grants_eq {ops : FilesystemOps} (hdev : ¬ (deviceName.isSome = true ∧ w.deviceFind = none))
    (hops : w.findOps filesystemtype = some ops) (hmnt : ¬ ops.mount = false)
    (hfull : w.malloc = true ∧ w.hasDirectory path = true)
    (hopen : ¬ ((fullPath w.workingDirectory path ≠ rootPath ∧
      fullPath w.workingDirectory path ≠ devPath) ∧ w.fileOpen = false))
    (hfree : ∃ i, (table i).ops.isNone = true) :
    table.grants deviceName path filesystemtype w =
      decide ((deviceName.isSome = true → w.deviceOpen = true) ∧ 0 ≤ w.mount) := by
  have hdir : (decide (fullPath w.workingDirectory path = rootPath) ||
      decide (fullPath w.workingDirectory path = devPath) || w.fileOpen) = true := by
    by_contra hno
    simp only [Bool.not_eq_true, Bool.or_eq_false_iff, decide_eq_false_iff_not] at hno
    exact hopen hno
  have hdevice : (!deviceName.isSome || (w.deviceFind.isSome && w.deviceOpen)) =
      decide (deviceName.isSome = true → w.deviceOpen = true) := by
    cases hs : deviceName.isSome with
    | false => rfl
    | true =>
      have hfind : w.deviceFind.isSome = true :=
        Option.isSome_iff_ne_none.mpr fun h => hdev ⟨hs, h⟩
      rw [hfind]
      simp
  rw [grants, hdevice, hops, Option.any_some, Bool.eq_true_of_not_eq_false hmnt, hfull.1, hfull.2,
    hdir, decide_eq_true hfree, Bool.decide_and]
  simp only [Bool.and_true]

/-- **What `dfs_mount` does**: it returns `-1` and leaves the table, because it is not granted or
finds the path as it is spelled, or it fills an empty entry. -/
theorem dfsMount_cases (hv : table.Valid) (deviceName : Option CStr) (path filesystemtype : CStr)
    (w : MountAnswer) :
    (table.dfsMount deviceName path filesystemtype w = some (-1, table) ∧
      (table.grants deviceName path filesystemtype w = false ∨
        ∃ i, (table i).path = some path.chars)) ∨
    ∃ fs x ops, table.dfsMount deviceName path filesystemtype w =
        some (0, Function.update table fs x) ∧
      table fs = {} ∧ x.path = some (fullPath w.workingDirectory path) ∧ x.ops = some ops ∧
      table.grants deviceName path filesystemtype w = true ∧
      ∀ i, (table i).path ≠ some path.chars := by
  rw [dfsMount]
  by_cases hdev : deviceName.isSome = true ∧ w.deviceFind = none
  · exact .inl ⟨if_pos hdev, .inl (by simp [grants, hdev])⟩
  rw [if_neg hdev]
  cases hops : w.findOps filesystemtype with
  | none => exact .inl ⟨rfl, .inl (by simp [grants, hops])⟩
  | some ops =>
    dsimp only
    by_cases hmnt : ops.mount = false
    · exact .inl ⟨if_pos hmnt, .inl (by simp [grants, hops, hmnt])⟩
    rw [if_neg hmnt, MountAnswer.normalize_eq, Option.bind_some]
    by_cases hfull : w.malloc = true ∧ w.hasDirectory path = true
    · rw [if_pos hfull, Option.elim_some]
      by_cases hopen : (fullPath w.workingDirectory path ≠ rootPath ∧
          fullPath w.workingDirectory path ≠ devPath) ∧ w.fileOpen = false
      · refine .inl ⟨if_pos hopen, .inl ?_⟩
        simp [grants, hopen]
      rw [if_neg hopen]
      rcases mountLoop_spec hv path.chars (List.finRange n) none with ⟨h, i, -, hi⟩ | ⟨h, hno⟩
      · rw [h]
        exact .inl ⟨rfl, .inr ⟨i, hi⟩⟩
      · rw [h, Option.none_or]
        cases hfind : (List.finRange n).find? fun i => (table i).ops.isNone with
        | none =>
          refine .inl ⟨rfl, .inl ?_⟩
          have hall : ¬ ∃ i, (table i).ops.isNone = true := fun ⟨i, hi⟩ =>
            List.find?_eq_none.mp hfind i (List.mem_finRange i) hi
          rw [grants, decide_eq_false hall, Bool.and_false, Bool.false_and]
        | some fs =>
          have hnone : (table fs).ops.isNone = true :=
            List.find?_some (p := fun i => (table i).ops.isNone) hfind
          have hempty := hv.empty (Option.isNone_iff_eq_none.mp hnone)
          rw [Option.map_some]
          dsimp only
          rw [mountEntry_cases hempty]
          have hid : (deviceName.bind fun _ => w.deviceFind).isSome = deviceName.isSome := by
            cases deviceName with
            | none => rfl
            | some d => simpa [Option.isSome_iff_ne_none] using hdev
          have hgrants := grants_eq hdev hops hmnt hfull hopen ⟨fs, hnone⟩
          rw [hid]
          by_cases hgo : (deviceName.isSome = true → w.deviceOpen = true) ∧ 0 ≤ w.mount
          · rw [decide_eq_true hgo] at hgrants
            exact .inr ⟨fs, _, ops, by rw [if_pos hgo], hempty, rfl, rfl, hgrants,
              fun i => hno i (List.mem_finRange i)⟩
          · rw [decide_eq_false hgo] at hgrants
            exact .inl ⟨by rw [if_neg hgo], .inl hgrants⟩
    · rw [if_neg hfull, Option.elim_none]
      refine .inl ⟨rfl, .inl ?_⟩
      rw [not_and] at hfull
      by_cases hm : w.malloc = true
      · simp [grants, hfull hm]
      · simp [grants, hm]

theorem Valid.dfsMount (hv : table.Valid) {r : ℤ} {table' : MountTable n}
    (h : table.dfsMount deviceName path filesystemtype w = some (r, table')) :
    table'.Valid ∧ (r = -1 → table' = table) := by
  rcases dfsMount_cases hv deviceName path filesystemtype w with
    ⟨he, -⟩ | ⟨fs, x, ops, he, -, hx, hops, -, -⟩
  · rw [he] at h
    cases h
    exact ⟨hv, fun _ => rfl⟩
  · rw [he] at h
    cases h
    exact ⟨hv.update fs (.inr ⟨_, ops, hx, hops, fullPath_normal _ _⟩), fun h => by cases h⟩

/-- **The paths stay distinct** exactly under the condition. -/
theorem Distinct.dfsMount (hd : table.Distinct) (hv : table.Valid) {r : ℤ} {table' : MountTable n}
    (h : table.dfsMount deviceName path filesystemtype w = some (r, table')) :
    table'.Distinct ↔ table.mountOnce (.mount deviceName path filesystemtype w) = true := by
  rw [mountOnce, Bool.or_eq_true_iff, decide_eq_true_eq, Bool.not_eq_true']
  rcases dfsMount_cases hv deviceName path filesystemtype w with
    ⟨he, hwhy⟩ | ⟨fs, x, ops, he, hfs, hx, -, hgrants, hno⟩
  · rw [he] at h
    cases h
    refine iff_of_true hd ?_
    rcases hwhy with hgrants | ⟨i, hi⟩
    · exact .inl hgrants
    · exact .inr (.inl (fullPath_self (hv.normal hi).1 _).symm)
  · rw [he] at h
    cases h
    rw [hd.put_iff (by rw [hfs]) hx, hgrants]
    constructor
    · exact fun h => .inr (.inr h)
    · rintro (h | h | h)
      · cases h
      · rw [← h]
        exact hno
      · exact h

/-! ## Unmounting -/

/-- **What `dfs_unmount` does**: an entry is cleared, or at most its data are written. -/
theorem dfsUnmount_cases (hv : table.Valid) (specialfile : CStr) (w : MountAnswer) :
    ∃ r table', table.dfsUnmount specialfile w = some (r, table') ∧
      (table' = table ∨ ∃ fs, table' = Function.update table fs {} ∨
        table' = Function.update table fs { table fs with data := w.data } ∧
          (table fs).path = some (fullPath w.workingDirectory specialfile)) := by
  rw [dfsUnmount, MountAnswer.normalize_eq, Option.bind_some]
  by_cases hfull : w.malloc = true ∧ w.hasDirectory specialfile = true
  · rw [if_pos hfull, Option.elim_some]
    cases hfind : (List.finRange n).find? fun iter =>
        (table iter).path = some (fullPath w.workingDirectory specialfile) with
    | none => exact ⟨_, _, rfl, .inl rfl⟩
    | some fs =>
      have hp : (table fs).path = some (fullPath w.workingDirectory specialfile) :=
        of_decide_eq_true (List.find?_some (p := fun iter =>
          decide ((table iter).path = some (fullPath w.workingDirectory specialfile))) hfind)
      obtain ⟨-, ops, hops⟩ := hv.normal hp
      dsimp only
      rw [hops, Option.map_some]
      split_ifs
      · exact ⟨_, _, rfl, .inl rfl⟩
      · exact ⟨_, _, rfl, .inr ⟨fs, .inr ⟨by rw [hops], hp⟩⟩⟩
      · exact ⟨_, _, rfl, .inr ⟨fs, .inl rfl⟩⟩
  · rw [if_neg hfull, Option.elim_none]
    exact ⟨_, _, rfl, .inl rfl⟩

theorem Valid.dfsUnmount (hv : table.Valid) {specialfile : CStr} {r : ℤ} {table' : MountTable n}
    (h : table.dfsUnmount specialfile w = some (r, table')) :
    table'.Valid ∧ (table.Distinct → table'.Distinct) := by
  obtain ⟨r', t, he, hcase⟩ := dfsUnmount_cases hv specialfile w
  rw [he] at h
  cases h
  rcases hcase with rfl | ⟨fs, rfl | ⟨rfl, hp⟩⟩
  · exact ⟨hv, id⟩
  · exact ⟨hv.update fs (.inl rfl), fun hd => hd.update fs fun p hp => by cases hp⟩
  · obtain ⟨hnormal, ops, hops⟩ := hv.normal hp
    exact ⟨hv.update fs (.inr ⟨_, ops, hp, hops, hnormal⟩), fun hd => hd.update fs fun _ => id⟩

/-! ## The lookup -/

/-- The entry is mounted on a path whose components come first in those of another. -/
def Covers (table : MountTable n) (path : List UInt8) (i : Fin n) : Prop :=
  ∃ q, (table i).path = some q ∧ components (chr '/') q <+: components (chr '/') path

/-- The length of the path of an entry. -/
def pathLength (table : MountTable n) (i : Fin n) : ℕ := (table i).path.elim 0 List.length

/-- **What the loop tests**: `strncmp` and the next separator decide about the components. -/
theorem covers_iff {p path : List UInt8} (hp : NormalPath p) (hpath : NormalPath path) :
    (strncmpEq p path p.length = true ∧
      ¬ (p.length > 1 ∧ path.length > p.length ∧ path[p.length]? ≠ some (chr '/'))) ↔
      components (chr '/') p <+: components (chr '/') path := by
  obtain ⟨cs, hcs, rfl⟩ := hp
  obtain ⟨ds, hds, rfl⟩ := hpath
  have hcs' : ∀ c ∈ cs, c ≠ [] ∧ chr '/' ∉ c := fun c hc => ⟨(hcs c hc).ne_nil, (hcs c hc).no_slash⟩
  have hds' : ∀ c ∈ ds, c ≠ [] ∧ chr '/' ∉ c := fun c hc => ⟨(hds c hc).ne_nil, (hds c hc).no_slash⟩
  rw [components_render hcs', components_render hds', strncmpEq_length]
  by_cases hnil : cs = []
  · rw [hnil]
    refine iff_of_true ⟨?_, fun h => absurd h.1 (by decide)⟩ List.nil_prefix
    cases hr : render (chr '/') ds with
    | nil => exact absurd hr (render_ne_nil ds)
    | cons a t =>
      have hhead : (render (chr '/') ds).head? = some (chr '/') := render_head? ds
      rw [hr, List.head?_cons] at hhead
      rw [Option.some.inj hhead]
      exact ⟨t, rfl⟩
  · rw [← render_append_iff hnil hcs' hds']
    constructor
    · rintro ⟨⟨t, ht⟩, hsep⟩
      refine ⟨t, ht, ?_⟩
      cases t with
      | nil => exact .inl rfl
      | cons a t =>
        refine .inr (by_contra fun hno => hsep ⟨one_lt_render hnil hcs', ?_, ?_⟩)
        · rw [← ht, List.length_append, List.length_cons]
          omega
        · rw [← ht, List.getElem?_append_right (Nat.le_refl _), Nat.sub_self]
          exact hno
    · rintro ⟨t, ht, hend⟩
      refine ⟨⟨t, ht⟩, fun ⟨_, hlong, hsep⟩ => hsep ?_⟩
      rcases hend with rfl | hend
      · rw [← ht, List.append_nil] at hlong
        exact absurd hlong (Nat.lt_irrefl _)
      · rw [← ht, List.getElem?_append_right (Nat.le_refl _), Nat.sub_self,
          ← List.head?_eq_getElem?, hend]

/-- A turn of the loop. -/
theorem lookupBody_eq (hv : table.Valid) {path : List UInt8} (hpath : NormalPath path)
    (r : Option (Fin n) × ℕ) (i : Fin n) [Decidable (table.Covers path i)] :
    table.lookupBody path r i = if table.Covers path i ∧ r.2 ≤ table.pathLength i then
      (some i, table.pathLength i) else r := by
  rcases hv i with hi | ⟨p, ops, hp, hops, hnormal⟩
  · rw [if_neg, lookupBody, hi]
    rintro ⟨⟨q, hq, -⟩, -⟩
    rw [hi] at hq
    cases hq
  · have hlen : table.pathLength i = p.length := by rw [pathLength, hp]; rfl
    have hcov : table.Covers path i ↔ components (chr '/') p <+: components (chr '/') path := by
      constructor
      · rintro ⟨q, hq, hpre⟩
        rw [hp] at hq
        exact Option.some.inj hq ▸ hpre
      · exact fun h => ⟨p, hp, h⟩
    rw [lookupBody, hp, hops]
    dsimp only
    rw [hlen]
    by_cases hfirst : p.length < r.2 ∨ strncmpEq p path p.length = false
    · rw [if_pos hfirst, if_neg]
      rintro ⟨hc, hle⟩
      have hstr := ((covers_iff hnormal hpath).mpr (hcov.mp hc)).1
      rcases hfirst with h | h
      · omega
      · rw [hstr] at h
        cases h
    · rw [if_neg hfirst]
      rw [not_or, Nat.not_lt, Bool.not_eq_false] at hfirst
      by_cases hsep : p.length > 1 ∧ path.length > p.length ∧ path[p.length]? ≠ some (chr '/')
      · rw [if_pos hsep, if_neg]
        rintro ⟨hc, -⟩
        exact ((covers_iff hnormal hpath).mpr (hcov.mp hc)).2 hsep
      · rw [if_neg hsep, if_pos ⟨hcov.mpr ((covers_iff hnormal hpath).mp ⟨hfirst.2, hsep⟩), hfirst.1⟩]

/-- The entry found is mounted on the longest path. -/
structure Longest (table : MountTable n) (path : List UInt8) (l : List (Fin n)) (i : Fin n) :
    Prop where
  covers : table.Covers path i
  le : ∀ j ∈ l, table.Covers path j → table.pathLength j ≤ table.pathLength i

/-- **The loop keeps the longest path so far.** -/
theorem lookup_spec (hv : table.Valid) {path : List UInt8} (hpath : NormalPath path)
    (l : List (Fin n)) :
    (l.foldl (table.lookupBody path) (none, 0) = (none, 0) ∧ ∀ j ∈ l, ¬ table.Covers path j) ∨
    ∃ i, l.foldl (table.lookupBody path) (none, 0) = (some i, table.pathLength i) ∧
      table.Longest path l i := by
  classical
  induction l using List.reverseRecOn with
  | nil => exact .inl ⟨rfl, fun j hj => absurd hj List.not_mem_nil⟩
  | append_singleton l k ih =>
    rw [List.foldl_append, List.foldl_cons, List.foldl_nil]
    rcases ih with ⟨h, hno⟩ | ⟨i, h, hi⟩
    · rw [h, lookupBody_eq hv hpath]
      by_cases hk : table.Covers path k
      · rw [if_pos ⟨hk, Nat.zero_le _⟩]
        refine .inr ⟨k, rfl, hk, fun j hj hc => ?_⟩
        rcases List.mem_append.mp hj with hj | hj
        · exact absurd hc (hno j hj)
        · rw [List.mem_singleton.mp hj]
      · rw [if_neg fun h => hk h.1]
        refine .inl ⟨rfl, fun j hj => ?_⟩
        rcases List.mem_append.mp hj with hj | hj
        · exact hno j hj
        · rwa [List.mem_singleton.mp hj]
    · rw [h, lookupBody_eq hv hpath]
      by_cases hk : table.Covers path k ∧ table.pathLength i ≤ table.pathLength k
      · rw [if_pos hk]
        refine .inr ⟨k, rfl, hk.1, fun j hj hc => ?_⟩
        rcases List.mem_append.mp hj with hj | hj
        · exact (hi.le j hj hc).trans hk.2
        · rw [List.mem_singleton.mp hj]
      · rw [if_neg hk]
        refine .inr ⟨i, rfl, hi.covers, fun j hj hc => ?_⟩
        rcases List.mem_append.mp hj with hj | hj
        · exact hi.le j hj hc
        · rw [List.mem_singleton.mp hj] at hc ⊢
          exact Nat.le_of_not_le fun hle => hk ⟨hc, hle⟩

theorem dfsFilesystemLookup_longest (hv : table.Valid) {path : List UInt8}
    (hpath : NormalPath path) :
    (table.dfsFilesystemLookup path = none ∧ ∀ j, ¬ table.Covers path j) ∨
    ∃ i, table.dfsFilesystemLookup path = some i ∧ table.Longest path (List.finRange n) i := by
  rcases lookup_spec hv hpath (List.finRange n) with ⟨h, hno⟩ | ⟨i, h, hi⟩
  · exact .inl ⟨by rw [dfsFilesystemLookup, h], fun j => hno j (List.mem_finRange j)⟩
  · exact .inr ⟨i, by rw [dfsFilesystemLookup, h], hi⟩

/-- In a table of distinct paths it is the only one of its length. -/
theorem Longest.lt (hv : table.Valid) (hd : table.Distinct) {path : List UInt8}
    (hpath : NormalPath path) {i j : Fin n} (hi : table.Longest path (List.finRange n) i)
    (hj : table.Covers path j) (hne : j ≠ i) : table.pathLength j < table.pathLength i := by
  refine lt_of_le_of_ne (hi.le j (List.mem_finRange j) hj) fun hlen => hne ?_
  obtain ⟨p, hp, hpre⟩ := hi.covers
  obtain ⟨q, hq, hqre⟩ := hj
  rw [pathLength, pathLength, hp, hq, Option.elim_some, Option.elim_some] at hlen
  have hp' := strncmpEq_length.mp ((covers_iff (hv.normal hp).1 hpath).mpr hpre).1
  have hq' := strncmpEq_length.mp ((covers_iff (hv.normal hq).1 hpath).mpr hqre).1
  have heq : q = p := (List.prefix_of_prefix_length_le hq' hp' hlen.le).eq_of_length hlen
  exact hd j i p (by rw [hq, heq]) hp

/-! ## The runs -/

/-- What holds whatever is mounted: a mount that fails leaves the table, and a lookup finds an entry
with the longest path, if there is one. -/
structure Sound (table : MountTable n) : Prop where
  failed : ∀ deviceName path filesystemtype w table',
    table.dfsMount deviceName path filesystemtype w = some (-1, table') → table' = table
  null : ∀ path, NormalPath path → table.dfsFilesystemLookup path = none →
    ∀ j, ¬ table.Covers path j
  found : ∀ path i, NormalPath path → table.dfsFilesystemLookup path = some i →
    table.Longest path (List.finRange n) i

theorem Valid.sound (hv : table.Valid) : table.Sound := by
  refine ⟨fun deviceName path filesystemtype w table' h => (hv.dfsMount h).2 rfl,
    fun path hpath h => ?_, fun path i hpath h => ?_⟩
  · rcases dfsFilesystemLookup_longest hv hpath with ⟨-, hno⟩ | ⟨i, hi, -⟩
    · exact hno
    · rw [h] at hi
      cases hi
  · rcases dfsFilesystemLookup_longest hv hpath with ⟨hno, -⟩ | ⟨k, hk, hlong⟩
    · rw [h] at hno
      cases hno
    · rw [h] at hk
      exact Option.some.inj hk ▸ hlong

theorem Valid.call (hv : table.Valid) {c : MountCall} {r : ℤ} {table' : MountTable n}
    (h : table.call c = some (r, table')) : table'.Valid := by
  cases c with
  | mount deviceName path filesystemtype w => exact (hv.dfsMount h).1
  | unmount specialfile w => exact (hv.dfsUnmount h).1

/-- **A call keeps the paths distinct** exactly under the condition. -/
theorem Distinct.call (hd : table.Distinct) (hv : table.Valid) {c : MountCall} {r : ℤ}
    {table' : MountTable n} (h : table.call c = some (r, table')) :
    table'.Distinct ↔ table.mountOnce c = true := by
  cases c with
  | mount deviceName path filesystemtype w => exact hd.dfsMount hv h
  | unmount specialfile w => exact iff_of_true ((hv.dfsUnmount h).2 hd) rfl

theorem Valid.exists_call (hv : table.Valid) (c : MountCall) :
    ∃ r table', table.call c = some (r, table') := by
  cases c with
  | mount deviceName path filesystemtype w =>
    rcases dfsMount_cases hv deviceName path filesystemtype w with
      ⟨he, -⟩ | ⟨fs, x, ops, he, -⟩
    · exact ⟨_, _, he⟩
    · exact ⟨_, _, he⟩
  | unmount specialfile w =>
    obtain ⟨r, t, he, -⟩ := dfsUnmount_cases hv specialfile w
    exact ⟨r, t, he⟩

theorem reach_valid {ok : MountTable n → MountCall → Bool} (h : (mountRuns n).Reach ok table) :
    table.Valid := by
  refine h.invariant (I := Valid) ?_ ?_
  · intro s hs i
    exact .inl (congrFun hs i)
  · intro s c s' hv _ hstep
    obtain ⟨⟨r, t⟩, hcall, ht⟩ := Option.map_eq_some_iff.mp hstep
    exact ht ▸ hv.call hcall

theorem reach_distinct (h : (mountRuns n).Reach mountOnce table) : table.Distinct := by
  have hboth : table.Valid ∧ table.Distinct := by
    refine h.invariant (I := fun s => Valid s ∧ Distinct s) ?_ ?_
    · intro s hs
      refine ⟨fun i => .inl (congrFun hs i), fun i j p hi => ?_⟩
      rw [congrFun hs i] at hi
      cases hi
    · intro s c s' hs hok hstep
      obtain ⟨⟨r, t⟩, hcall, ht⟩ := Option.map_eq_some_iff.mp hstep
      subst ht
      exact ⟨hs.1.call hcall, (hs.2.call hs.1 hcall).mpr hok⟩
  exact hboth.2

end

end MountTable

/-- **Every path is mounted once** in the runs whose mounts meet the condition: no two entries have
the same path, a mount that fails leaves the table, and a lookup finds the longest path; a call that
does not meet it ends with a path twice. The table and the lookup are right in all runs. -/
theorem mount_table (n : ℕ) :
    (∀ table, (mountRuns n).Reach System.anyStep table → table.Sound) ∧
    ∀ table, (mountRuns n).Reach MountTable.mountOnce table →
      table.Distinct ∧ table.Sound ∧
      (∀ path i, NormalPath path → table.dfsFilesystemLookup path = some i →
        ∀ j, table.Covers path j → j ≠ i → table.pathLength j < table.pathLength i) ∧
      ∀ c, ∃ r table', table.call c = some (r, table') ∧
        (table'.Distinct ↔ table.mountOnce c = true) := by
  refine ⟨fun table h => (MountTable.reach_valid h).sound, fun table h => ?_⟩
  have hv := MountTable.reach_valid h
  have hd := MountTable.reach_distinct h
  refine ⟨hd, hv.sound, fun path i hpath hi j hj hne => ?_, fun c => ?_⟩
  · exact (hv.sound.found path i hpath hi).lt hv hd hpath hj hne
  · obtain ⟨r, table', hcall⟩ := hv.exists_call c
    exact ⟨r, table', hcall, hd.call hv hcall⟩

/-- `romfs`, which has no `unmount`. -/
def romfs : FilesystemOps := ⟨⟨[chr 'r', chr 'o', chr 'm'], by decide⟩, true, false⟩

/-- A mount of `romfs`. -/
def mountRom (path : CStr) : MountCall := .mount none path romfs.name { operationTable := [some romfs] }

/-- `/mnt`, mounted after `/`. -/
theorem mount_table_rom : ∃ table, (mountRuns 2).Reach MountTable.mountOnce table ∧
    table.Distinct ∧ ∀ j, table.Covers [chr '/', chr 'm', chr 'n', chr 't'] j → j ≠ 1 →
      table.pathLength j < table.pathLength 1 := by
  obtain ⟨table, h, hp⟩ := (mountRuns 2).exists_reach MountTable.mountOnce
    (fun table => decide (table.dfsFilesystemLookup [chr '/', chr 'm', chr 'n', chr 't'] = some 1))
    (s := fun _ => {}) rfl
    [mountRom ⟨[chr '/'], by decide⟩, mountRom ⟨[chr '/', chr 'm', chr 'n', chr 't'], by decide⟩]
    (by decide)
  obtain ⟨hd, -, hlong, -⟩ := (mount_table 2).2 table h
  refine ⟨table, h, hd, hlong _ 1 ⟨[[chr 'm', chr 'n', chr 't']], fun c hc => ?_, by decide⟩
    (of_decide_eq_true hp)⟩
  rw [List.mem_singleton.mp hc]
  exact ⟨by decide, by decide, by decide, by decide⟩

/-- **`/mnt` and `/mnt/`** are mounted both. -/
theorem mount_twice : ∃ table, (mountRuns 2).Reach System.anyStep table ∧ ¬ table.Distinct := by
  obtain ⟨table, h, hp⟩ := (mountRuns 2).exists_reach System.anyStep
    (fun table => decide ((table 0).path = some [chr '/', chr 'm', chr 'n', chr 't'] ∧
      (table 1).path = some [chr '/', chr 'm', chr 'n', chr 't']))
    (s := fun _ => {}) rfl
    [mountRom ⟨[chr '/', chr 'm', chr 'n', chr 't'], by decide⟩,
      mountRom ⟨[chr '/', chr 'm', chr 'n', chr 't', chr '/'], by decide⟩]
    (by decide)
  obtain ⟨h0, h1⟩ := of_decide_eq_true hp
  exact ⟨table, h, fun hd => absurd (hd 0 1 _ h0 h1) (by decide)⟩

end RtThread
