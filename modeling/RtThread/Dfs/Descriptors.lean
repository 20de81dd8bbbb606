import RtThread.Dfs.Objects

/-!
# The calls on the descriptor table

`components/dfs/dfs_v1/src/dfs.c`: `fd_new`, `fd_release`, `sys_dup` and `sys_dup2`, each one run of its
sections, with successful opens and with closes between them.

* `fdNew`, `sysDup`, `fileClose`, `sysDup2`, `fdStep`, `fdSystem`: the calls and their runs;
* `Referenced`: the counts are exact, whatever the hash table holds: `fd_release` frees a vnode where it
  stands;
* **`fd_table`**: the counts are exact, a new descriptor is the lowest free one, and a `sys_dup2` that
  returns -1 leaves both descriptors as they were exactly when the close of the replaced file does not
  fail after it has freed the vnode; `fd_dup2_closed`: a descriptor left without its vnode.
-/

set_option linter.unusedSectionVars false

namespace RtThread

namespace Dfs

variable {F V : Type} [DecidableEq F] [DecidableEq V] (p : Dfs F V)

/-! ## Calls -/

/-- `fd_new`. -/
def fdNew (realloc : Bool) (calloc : Option F) : Dfs F V × ℤ :=
  match p.fdAlloc stdioOffset realloc calloc with
  | (none, p) => (p, -1)
  | (some idx, p) => (p, idx)

/-- `sys_dup`. -/
def sysDup (oldfd : ℤ) (realloc : Bool) : Option (Dfs F V × ℤ) :=
  match p.slot oldfd with
  | none => some (p, -1)
  | some _ =>
    match p.fdSlotAlloc stdioOffset realloc with
    | none => some (p, -1)
    | some (newfd, p) => (p.fdShare oldfd.toNat newfd).map fun p => (p, (newfd : ℤ))

/-- `dfs_file_close`: the test of `ref_count` and the section. -/
def fileClose (d : F) (e : DfsAnswer V) : Option (Dfs F V × ℤ) :=
  if d ∉ p.live then none
  else if (p.file d).refCount = 1 then p.dfsFileClose d e
  else some (p, 0)

/-- `sys_dup2`. -/
def sysDup2 (oldfd newfd : ℤ) (realloc : Bool) (e : DfsAnswer V) : Option (Dfs F V × ℤ) :=
  match p.slot oldfd with
  | none => some (p, -1)
  | some f =>
    if newfd < 0 then some (p, -1)
    else match p.fdSlotExpand newfd.toNat realloc with
      | none => some (p, -1)
      | some p =>
        if p.fds newfd.toNat = some f then some (p, newfd)
        else match p.fds newfd.toNat with
          | none => (p.fdShare oldfd.toNat newfd.toNat).map fun p => (p, newfd)
          | some d =>
            match p.fileClose d e with
            | none => none
            | some (p, ret) =>
              if ret < 0 then some (p, -1)
              else (p.fdtFdRelease newfd).bind fun p =>
                (p.fdShare oldfd.toNat newfd.toNat).map fun p => (p, newfd)

/-- `dfs_file_open` of a descriptor without a vnode, when it succeeds. -/
def fileOpened (fd : ℤ) (path : List UInt8) (e : DfsAnswer V) : Option (Dfs F V) :=
  match p.slot fd with
  | none => none
  | some d =>
    if (p.file d).vnode ≠ none ∨ !e.fopsOpen then none
    else match p.dfsFileOpen d path e with
      | some (p, .found _) => some p
      | some (p, .opened) => some p
      | _ => none

/-- `close`. -/
def closeCall (fd : ℤ) (e : DfsAnswer V) : Option (Dfs F V) :=
  match p.slot fd with
  | none => some p
  | some d => (p.fileClose d e).bind fun (p, _) => p.fdtFdRelease fd

/-- A call, with the answers of the code outside. -/
inductive FdCall (F V : Type) where
  | fdNew (realloc : Bool) (calloc : Option F)
  | fdRelease (fd : ℤ)
  | sysDup (oldfd : ℤ) (realloc : Bool)
  | sysDup2 (oldfd newfd : ℤ) (realloc : Bool) (e : DfsAnswer V)
  | opened (fd : ℤ) (path : List UInt8) (e : DfsAnswer V)
  | close (fd : ℤ) (e : DfsAnswer V)

/-- A call on the table. Allocated memory is not in use. -/
def fdStep : FdCall F V → Option (Dfs F V)
  | .fdNew realloc calloc =>
    if calloc.any (· ∈ p.live) then none else some (p.fdNew realloc calloc).1
  | .fdRelease fd => p.fdtFdRelease fd
  | .sysDup oldfd realloc => (p.sysDup oldfd realloc).map Prod.fst
  | .sysDup2 oldfd newfd realloc e => (p.sysDup2 oldfd newfd realloc e).map Prod.fst
  | .opened fd path e => if e.calloc.any (· ∈ p.vnodes) then none else p.fileOpened fd path e
  | .close fd e => p.closeCall fd e

/-- After `dfs_init`. -/
structure Fresh : Prop where
  maxfd : p.maxfd = 0
  files : p.files = ∅
  stack : p.stack = ∅
  vnodes : p.vnodes = ∅
  head : ∀ hash, p.head hash = []

/-- The runs of the calls. -/
def fdSystem (F V : Type) [DecidableEq F] [DecidableEq V] : System (Dfs F V) (FdCall F V) where
  init := Fresh
  step := fdStep

/-! ## Exact counts without the hash table -/

/-- The state with another hash table. -/
def withHead (head : ℕ → List V) : Dfs F V := { p with head := head }

/-- **The counts are exact**, with some hash table, and no `dfs_mount` is in progress. -/
structure Referenced : Prop where
  wf : ∃ head, (p.withHead head).Wf
  stack : p.stack = ∅
  bound : p.maxfd ≤ fdMax

variable {p} {p' : Dfs F V} {head : ℕ → List V}

variable (head) in
theorem fdSlotExpand_withHead (fd : ℕ) (realloc : Bool) :
    (p.withHead head).fdSlotExpand fd realloc =
      (p.fdSlotExpand fd realloc).map fun p => p.withHead head := by
  unfold fdSlotExpand
  show (if fd < p.maxfd then _ else _) = _
  by_cases h1 : fd < p.maxfd
  · simp only [if_pos h1, Option.map_some]
  · by_cases h2 : fd ≥ fdMax
    · simp only [if_neg h1, if_pos h2, Option.map_none]
    · cases realloc
      · simp only [if_neg h1, if_neg h2, Bool.false_eq_true, if_false, Option.map_none]
      · simp only [if_neg h1, if_neg h2, if_true, Option.map_some]
        rfl

variable (head) in
theorem fdSlotAlloc_withHead (startfd : ℕ) (realloc : Bool) :
    (p.withHead head).fdSlotAlloc startfd realloc =
      (p.fdSlotAlloc startfd realloc).map fun x => (x.1, x.2.withHead head) := by
  unfold fdSlotAlloc
  cases hf : (List.range' startfd (p.maxfd - startfd)).find? fun idx => p.fds idx = none with
  | some idx =>
    rw [show ((List.range' startfd ((p.withHead head).maxfd - startfd)).find? fun idx =>
      (p.withHead head).fds idx = none) = some idx from hf]
    rfl
  | none =>
    rw [show ((List.range' startfd ((p.withHead head).maxfd - startfd)).find? fun idx =>
      (p.withHead head).fds idx = none) = none from hf]
    simp only [fdSlotExpand_withHead, Option.map_map]
    rfl

variable (head) in
theorem fdAlloc_withHead (startfd : ℕ) (realloc : Bool) (calloc : Option F) :
    (p.withHead head).fdAlloc startfd realloc calloc =
      ((p.fdAlloc startfd realloc calloc).1, (p.fdAlloc startfd realloc calloc).2.withHead head) := by
  unfold fdAlloc
  rw [fdSlotAlloc_withHead]
  cases p.fdSlotAlloc startfd realloc with
  | none => rfl
  | some x => cases calloc <;> rfl

theorem fdShare_withHead (oldfd newfd : ℕ) :
    (p.withHead head).fdShare oldfd newfd =
      (p.fdShare oldfd newfd).map fun p => p.withHead head := by
  unfold fdShare
  show (match p.fds oldfd with | none => none | some f => if f ∉ p.files then none else _) = _
  cases p.fds oldfd with
  | none => rfl
  | some f => by_cases hf : f ∉ p.files <;> simp only [hf] <;> rfl

theorem fdtFdRelease_withHead (fd : ℤ) :
    (p.withHead head).fdtFdRelease fd = (p.fdtFdRelease fd).map fun p => p.withHead head := by
  unfold Dfs.fdtFdRelease
  show (match p.slot fd with | none => some (p.withHead head) | some f => _) = _
  cases p.slot fd with
  | none => rfl
  | some f =>
    by_cases hf : f ∉ p.files
    · simp only [withHead, hf, not_false_eq_true, if_true, Option.map_none]
    · by_cases hn : (p.file f).refCount - 1 = 0
      · cases hv : (p.file f).vnode with
        | none => simp [withHead, hf, hn, hv]
        | some v =>
          by_cases hm : v ∉ p.vnodes
          · simp [withHead, hf, hn, hv, hm]
          · by_cases h0 : (p.vnode v).refCount - 1 = 0 <;>
              simp [withHead, setVnode, hf, hn, hv, hm, h0]
      · simp [withHead, setFile, hf, hn]

/-! ## Operations -/

/-- What a file holds that is not live does not matter. -/
theorem Wf.setDead (hw : p.Wf) {f : F} (hf : f ∉ p.live) (x : DfsFile V) : (p.setFile f x).Wf := by
  have hne : ∀ g ∈ p.live, g ≠ f := fun g hg he => hf (he ▸ hg)
  have hfile : ∀ g ∈ p.live, Function.update p.file f x g = p.file g :=
    fun g hg => Function.update_of_ne (hne g hg) _ _
  refine ⟨hw.disjoint, ?_, ?_, ?_, hw.hash, hw.nodup⟩
  · intro g hg
    show (Function.update p.file f x g).refCount = 1
    rw [hfile g (Finset.mem_union_right _ hg)]
    exact hw.stackCount g hg
  · refine hw.files.congr (fun _ _ => rfl) fun g hg => ?_
    show (Function.update p.file f x g).refCount = (p.file g).refCount
    rw [hfile g (Finset.mem_union_left _ hg)]
  · refine hw.vnodes.congr (fun g hg => ?_) fun _ _ => rfl
    show (Function.update p.file f x g).vnode = (p.file g).vnode
    rw [hfile g hg]

/-- The last descriptor of a file goes, and with it the last reference to its vnode: with the vnode
out of the hash table the counts are exact. -/
theorem Wf.dropVnode (hw : p.Wf) (hstack : p.stack = ∅) {fd : ℕ} {f : F} {v : V}
    (hlt : fd < p.maxfd) (hf : p.fds fd = some f) (hone : (p.file f).refCount = 1)
    (hv : (p.file f).vnode = some v) (hcount : (p.vnode v).refCount = 1) :
    ∃ head, ({ p with
      fds := Function.update p.fds fd none
      vnode := Function.update p.vnode v { p.vnode v with refCount := (p.vnode v).refCount - 1 }
      vnodes := p.vnodes.erase v
      files := p.files.erase f
      head := head } : Dfs F V).Wf := by
  have hmem := hw.files.mem _ (Finset.mem_range.mpr hlt) f hf
  have hfree := hw.freeVnode (Finset.mem_union_left _ hmem) hv hcount
    (x := { p.vnode v with refCount := (p.vnode v).refCount - 1 }) rfl
  have hself : ((p.setVnode v { p.vnode v with refCount := (p.vnode v).refCount - 1 }).freeVnode f
      v).file f = { p.file f with vnode := none } := Function.update_self ..
  have hdrop := (hfree.dropFile hlt hf (by rw [hself]; exact hone)).1 (by rw [hself])
  have hdead : f ∉ p.files.erase f ∪ p.stack := by
    rw [hstack, Finset.union_empty]
    exact Finset.notMem_erase f p.files
  have hback := hdrop.setDead (f := f) hdead (p.file f)
  change ({ p with
    fds := Function.update p.fds fd none
    vnode := Function.update p.vnode v { p.vnode v with refCount := (p.vnode v).refCount - 1 }
    vnodes := p.vnodes.erase v
    files := p.files.erase f
    head := _
    file := Function.update (Function.update p.file f { p.file f with vnode := none }) f (p.file f)
    } : Dfs F V).Wf at hback
  rw [Function.update_idem, Function.update_eq_self] at hback
  exact ⟨_, hback⟩

namespace Referenced

variable (hr : p.Referenced)
include hr

theorem mem_files {fd : ℤ} {f : F} (h : p.slot fd = some f) : f ∈ p.files := by
  obtain ⟨head, hw⟩ := hr.wf
  exact hw.mem_files h

theorem count {f : F} (hf : f ∈ p.files) :
    (p.file f).refCount = refs (Finset.range p.maxfd) p.fds f := by
  obtain ⟨head, hw⟩ := hr.wf
  exact hw.files.eq f hf

theorem mem_vnodes {f : F} {v : V} (hf : f ∈ p.files) (hv : (p.file f).vnode = some v) :
    v ∈ p.vnodes := by
  obtain ⟨head, hw⟩ := hr.wf
  exact hw.vnodes.mem f (Finset.mem_union_left _ hf) v hv

theorem vnode_pos {v : V} (hv : v ∈ p.vnodes) : 0 < (p.vnode v).refCount := by
  obtain ⟨head, hw⟩ := hr.wf
  exact hw.vnodes.pos v hv

theorem expand {fd : ℕ} {realloc : Bool} (h : p.fdSlotExpand fd realloc = some p') :
    p'.Referenced ∧ Grown p p' ∧ fd < p'.maxfd ∧ (p.maxfd ≤ fd → p'.fds fd = none) := by
  obtain ⟨head, hw⟩ := hr.wf
  have hx := fdSlotExpand_withHead (p := p) head fd realloc
  rw [h] at hx
  obtain ⟨hw', hg, hlt, hnew⟩ := hw.expand hx
  refine ⟨⟨⟨head, hw'⟩, hg.stack.trans hr.stack, ?_⟩,
    ⟨hg.maxfd, hg.fds, hg.files, hg.stack, hg.vnodes⟩, hlt, hnew⟩
  unfold fdSlotExpand at h
  have hbound := hr.bound
  split_ifs at h
  · exact Option.some.inj h ▸ hbound
  · rw [← Option.some.inj h]
    exact Nat.min_le_right _ _

theorem slotAlloc {startfd idx : ℕ} {realloc : Bool}
    (h : p.fdSlotAlloc startfd realloc = some (idx, p')) :
    p'.Referenced ∧ Grown p p' ∧ idx < p'.maxfd ∧ p'.fds idx = none := by
  obtain ⟨head, hw⟩ := hr.wf
  have hx := fdSlotAlloc_withHead (p := p) head startfd realloc
  rw [h] at hx
  obtain ⟨hw', hg, hlt, hnone⟩ := hw.slotAlloc hx
  refine ⟨⟨⟨head, hw'⟩, hg.stack.trans hr.stack, ?_⟩,
    ⟨hg.maxfd, hg.fds, hg.files, hg.stack, hg.vnodes⟩, hlt, hnone⟩
  unfold fdSlotAlloc at h
  split at h
  · cases h
    exact hr.bound
  · obtain ⟨q, hq, he⟩ := Option.map_eq_some_iff.mp h
    cases he
    exact (hr.expand hq).1.bound

theorem fdNew {realloc : Bool} {calloc : Option F} (hc : ∀ f ∈ calloc, f ∉ p.live) :
    (p.fdNew realloc calloc).1.Referenced := by
  obtain ⟨head, hw⟩ := hr.wf
  have hx := fdAlloc_withHead (p := p) head stdioOffset realloc calloc
  obtain ⟨hw', hs, hv⟩ := hw.alloc hc hx
  have hres : (p.fdAlloc stdioOffset realloc calloc).2.Referenced := by
    refine ⟨⟨head, hw'⟩, hs.trans hr.stack, ?_⟩
    unfold fdAlloc
    cases ha : p.fdSlotAlloc stdioOffset realloc with
    | none => exact hr.bound
    | some x => cases calloc <;> exact (hr.slotAlloc ha).1.bound
  unfold Dfs.fdNew
  split <;> rename_i he <;> rw [he] at hres <;> exact hres

theorem share {oldfd newfd : ℕ} (ho : oldfd < p.maxfd) (hs : p.fds oldfd ≠ none)
    (hn : newfd < p.maxfd) (hnone : p.fds newfd = none) :
    ∃ p', p.fdShare oldfd newfd = some p' ∧ p'.Referenced := by
  obtain ⟨head, hw⟩ := hr.wf
  obtain ⟨q, hq, hw', hstack, -⟩ := hw.share ho hs hn hnone
  rw [fdShare_withHead] at hq
  obtain ⟨p', hp', he⟩ := Option.map_eq_some_iff.mp hq
  refine ⟨p', hp', ⟨head, he ▸ hw'⟩, ?_, ?_⟩
  · rw [← he] at hstack
    exact hstack.trans hr.stack
  · unfold fdShare at hp'
    split at hp'
    · cases hp'
    · split_ifs at hp'
      cases hp'
      exact hr.bound

/-- **`fd_release`** follows no bad pointer, and clears its slot. -/
theorem fdRelease (fd : ℤ) :
    ∃ p', p.fdtFdRelease fd = some p' ∧ p'.Referenced ∧ p'.maxfd = p.maxfd ∧
      (∀ i : ℕ, (i : ℤ) ≠ fd → p'.fds i = p.fds i) ∧
      (∀ i < p.maxfd, (i : ℤ) = fd → p'.fds i = none) := by
  obtain ⟨head, hw⟩ := hr.wf
  by_cases hlast : ∃ f v, p.slot fd = some f ∧ (p.file f).refCount = 1 ∧
      (p.file f).vnode = some v ∧ (p.vnode v).refCount = 1
  · obtain ⟨f, v, hs, hone, hv, hcount⟩ := hlast
    obtain ⟨h0, hlt, hf⟩ := slot_eq_some.mp hs
    have hmem := hr.mem_files hs
    have hlive := hr.mem_vnodes hmem hv
    obtain ⟨head', hw'⟩ := hw.dropVnode hr.stack hlt hf hone hv hcount
    unfold Dfs.fdtFdRelease
    simp only [hs, hmem, hone, hv, hlive, hcount, not_true_eq_false, if_false, sub_self, ne_eq,
      if_true]
    refine ⟨_, rfl, ⟨⟨head', ?_⟩, hr.stack, hr.bound⟩, rfl, fun i hi => ?_, fun i _ hi => ?_⟩
    · have hsub : (p.vnode v).refCount - 1 = 0 := by omega
      rw [show (p.withHead head).vnode = p.vnode from rfl, hsub] at hw'
      exact hw'
    · exact Function.update_of_ne (by omega) _ _
    · show Function.update p.fds fd.toNat none i = none
      rw [show fd.toNat = i by omega, Function.update_self]
  · have hok : ∀ f v, (p.withHead head).slot fd = some f → (p.file f).refCount = 1 →
        (p.file f).vnode = some v → 2 ≤ (p.vnode v).refCount := by
      intro f v hs hone hv
      have hpos := hr.vnode_pos (hr.mem_vnodes (hr.mem_files hs) hv)
      have hne : (p.vnode v).refCount ≠ 1 := fun hc => hlast ⟨f, v, hs, hone, hv, hc⟩
      omega
    obtain ⟨q, hq, hw', hmax, hstack, -, hother, hself⟩ := hw.fdtFdRelease hok
    rw [fdtFdRelease_withHead] at hq
    obtain ⟨p', hp', he⟩ := Option.map_eq_some_iff.mp hq
    subst he
    refine ⟨p', hp', ⟨⟨head, hw'⟩, hstack.trans hr.stack, ?_⟩, hmax, hother, hself⟩
    exact (show p'.maxfd = p.maxfd from hmax) ▸ hr.bound

theorem sysDup (oldfd : ℤ) (realloc : Bool) :
    ∃ p' r, p.sysDup oldfd realloc = some (p', r) ∧ p'.Referenced := by
  unfold Dfs.sysDup
  cases hs : p.slot oldfd with
  | none => exact ⟨p, -1, rfl, hr⟩
  | some f =>
    obtain ⟨-, hlt, hf⟩ := slot_eq_some.mp hs
    cases ha : p.fdSlotAlloc stdioOffset realloc with
    | none => exact ⟨p, -1, rfl, hr⟩
    | some x =>
      obtain ⟨newfd, q⟩ := x
      obtain ⟨hr', hg, hnew, hnone⟩ := hr.slotAlloc ha
      have hold : q.fds oldfd.toNat ≠ none := by
        rw [hg.fds _ hlt, hf]
        exact Option.some_ne_none f
      obtain ⟨p', hp', hr''⟩ := hr'.share (lt_of_lt_of_le hlt hg.maxfd) hold hnew hnone
      exact ⟨p', newfd, by simp only [hp', Option.map_some], hr''⟩

/-- The `dfs_file` of a descriptor closes: with its last reference the vnode goes. -/
theorem fileClose {d : F} (hd : d ∈ p.files) (e : DfsAnswer V) :
    ((p.file d).refCount ≠ 1 ∧ p.fileClose d e = some (p, 0)) ∨
    ((p.file d).refCount = 1 ∧ (p.file d).vnode = none ∧ p.fileClose d e = none) ∨
    ∃ v, (p.file d).refCount = 1 ∧ (p.file d).vnode = some v ∧
      (((p.vnode v).refCount ≠ 1 ∧ p.fileClose d e = some (p, e.fopsClose)) ∨
        ((p.vnode v).refCount = 1 ∧ p.fileClose d e = some (p.freeVnode d v, e.fopsClose) ∧
          (p.freeVnode d v).Referenced)) := by
  have hlive : d ∈ p.live := Finset.mem_union_left _ hd
  unfold Dfs.fileClose
  rw [if_neg (not_not.mpr hlive)]
  by_cases hone : (p.file d).refCount = 1
  · refine Or.inr ?_
    rw [if_pos hone]
    unfold Dfs.dfsFileClose
    rw [if_neg (not_not.mpr hlive)]
    cases hv : (p.file d).vnode with
    | none => exact Or.inl ⟨hone, rfl, rfl⟩
    | some v =>
      refine Or.inr ⟨v, hone, rfl, ?_⟩
      have hmem := hr.mem_vnodes hd hv
      have hpos := hr.vnode_pos hmem
      simp only [hmem, not_true_eq_false, if_false, not_le.mpr hpos]
      by_cases hcount : (p.vnode v).refCount = 1
      · obtain ⟨head, hw⟩ := hr.wf
        have hfree := hw.freeVnode hlive hv hcount (x := p.vnode v) rfl
        have hsame : (p.withHead head).setVnode v (p.vnode v) = p.withHead head := by
          unfold setVnode
          rw [show (p.withHead head).vnode = p.vnode from rfl, Function.update_eq_self]
          rfl
        rw [hsame] at hfree
        exact Or.inr ⟨hcount, by rw [if_pos hcount], ⟨_, hfree⟩, hr.stack, hr.bound⟩
      · exact Or.inl ⟨hcount, by rw [if_neg hcount]⟩
  · rw [if_neg hone]
    exact Or.inl ⟨hone, rfl⟩

/-- A close that has a result leaves the counts exact and the table as it was. -/
theorem fileClose_some {d : F} (hd : d ∈ p.files) {e : DfsAnswer V} {r : ℤ}
    (h : p.fileClose d e = some (p', r)) :
    p'.Referenced ∧ p'.maxfd = p.maxfd ∧ p'.fds = p.fds := by
  rcases hr.fileClose hd e with ⟨-, hc⟩ | ⟨-, -, hc⟩ | ⟨v, -, -, ⟨-, hc⟩ | ⟨-, hc, hr'⟩⟩ <;>
    rw [hc] at h <;> cases h
  · exact ⟨hr, rfl, rfl⟩
  · exact ⟨hr, rfl, rfl⟩
  · exact ⟨hr', rfl, rfl⟩

omit hr in
/-- The walk of a bucket does not follow a freed pointer. -/
theorem mem_of_vnodeFind {path : List UInt8} {l : List V} {v : V}
    (h : p.vnodeFind path l = some (some v)) : v ∈ p.vnodes := by
  induction l with
  | nil => exact absurd h (by simp [Dfs.vnodeFind])
  | cons u hh ih =>
    unfold Dfs.vnodeFind at h
    split_ifs at h with hu hp
    · cases h
      exact hu
    · exact ih h

theorem fileOpened {fd : ℤ} {path : List UInt8} {e : DfsAnswer V}
    (he : ∀ v ∈ e.calloc, v ∉ p.vnodes) (h : p.fileOpened fd path e = some p') :
    p'.Referenced := by
  obtain ⟨head, hw⟩ := hr.wf
  unfold Dfs.fileOpened at h
  cases hs : p.slot fd with
  | none =>
    rw [hs] at h
    cases h
  | some d =>
    rw [hs] at h
    have hd : d ∈ p.live := Finset.mem_union_left _ (hr.mem_files hs)
    by_cases hbad : (p.file d).vnode ≠ none ∨ (!e.fopsOpen) = true
    · simp only [hbad, if_true, reduceCtorEq] at h
    rw [not_or, not_not, Bool.not_eq_true, Bool.not_eq_false'] at hbad
    obtain ⟨hn, hfops⟩ := hbad
    simp only [hn, hfops, ne_eq, not_true_eq_false, Bool.not_true, Bool.false_eq_true, or_self,
      if_false] at h
    unfold Dfs.dfsFileOpen at h
    cases hfull : e.fullpath with
    | false => simp [hfull] at h
    | true =>
      cases hfind : p.vnodeFind path (p.head (bkdrHash path)) with
      | none => simp [hfull, hfind] at h
      | some found =>
        simp only [hfull, hfind, hd, hfops, Bool.not_true, Bool.false_eq_true, if_false,
          not_true_eq_false, if_true] at h
        cases found with
        | some v =>
          have hmem := mem_of_vnodeFind hfind
          cases h
          exact ⟨⟨head, hw.acquire hd hn hmem⟩, hr.stack, hr.bound⟩
        | none =>
          cases hlookup : e.lookup with
          | false => simp [hlookup] at h
          | true =>
            cases hcalloc : e.calloc with
            | none => simp [hlookup, hcalloc] at h
            | some v =>
              cases hopen : e.hasOpen with
              | false => simp [hlookup, hcalloc, hopen] at h
              | true =>
                simp only [hlookup, hcalloc, hopen] at h
                cases h
                exact ⟨⟨_, hw.newVnode hd hn (he v hcalloc) path⟩, hr.stack, hr.bound⟩

theorem closeCall {fd : ℤ} {e : DfsAnswer V} (h : p.closeCall fd e = some p') :
    p'.Referenced := by
  unfold Dfs.closeCall at h
  cases hs : p.slot fd with
  | none =>
    rw [hs] at h
    cases h
    exact hr
  | some d =>
    rw [hs] at h
    obtain ⟨⟨q, r⟩, hq, hrel⟩ := Option.bind_eq_some_iff.mp h
    obtain ⟨q', hq', hr', -⟩ := (hr.fileClose_some (hr.mem_files hs) hq).1.fdRelease fd
    exact Option.some.inj (hq'.symm.trans hrel) ▸ hr'

end Referenced

/-! ## `sys_dup2` -/

section

variable {oldfd newfd : ℤ} {realloc : Bool} {e : DfsAnswer V} {f d : F}

/-- A descriptor is as it was: it refers to the same `dfs_file`, which has the same vnode. -/
def Kept (p p' : Dfs F V) (fd : ℤ) : Prop :=
  p'.slot fd = p.slot fd ∧ ∀ f, p.slot fd = some f → f ∈ p'.files ∧ p'.file f = p.file f ∧
    ∀ v, (p.file f).vnode = some v → v ∈ p'.vnodes ∧ p'.vnode v = p.vnode v

/-- **The condition**: the file that is replaced, when it has no other descriptor, is open, and when
its `close` fails its vnode has other files. -/
def dup2Ok (p : Dfs F V) (oldfd newfd : ℤ) (e : DfsAnswer V) : Prop :=
  ∀ f d, p.slot oldfd = some f → p.slot newfd = some d → d ≠ f → (p.file d).refCount = 1 →
    ∃ v, (p.file d).vnode = some v ∧ (e.fopsClose < 0 → (p.vnode v).refCount ≠ 1)

theorem Referenced.kept (hr : p.Referenced) (fd : ℤ) : Kept p p fd :=
  ⟨rfl, fun _ hf => ⟨hr.mem_files hf, rfl, fun _ hv => ⟨hr.mem_vnodes (hr.mem_files hf) hv, rfl⟩⟩⟩

variable (realloc e) in
/-- Nothing to close: `sys_dup2` has a result, and fails without a trace. -/
theorem Referenced.dup2_free (hr : p.Referenced)
    (h : ∀ f d, p.slot oldfd = some f → p.slot newfd = some d → d = f) :
    ∃ p' r, p.sysDup2 oldfd newfd realloc e = some (p', r) ∧ p'.Referenced ∧
      (r = -1 → p' = p) := by
  unfold sysDup2
  cases hs : p.slot oldfd with
  | none => exact ⟨p, -1, rfl, hr, fun _ => rfl⟩
  | some f =>
    dsimp only
    by_cases hneg : newfd < 0
    · rw [if_pos hneg]
      exact ⟨p, -1, rfl, hr, fun _ => rfl⟩
    rw [if_neg hneg]
    obtain ⟨-, hlt, hf⟩ := slot_eq_some.mp hs
    cases hx : p.fdSlotExpand newfd.toNat realloc with
    | none => exact ⟨p, -1, rfl, hr, fun _ => rfl⟩
    | some q =>
      obtain ⟨hr', hg, hnew, hgrown⟩ := hr.expand hx
      have hr1 : newfd ≠ -1 := by omega
      dsimp only
      by_cases hsame : q.fds newfd.toNat = some f
      · rw [if_pos hsame]
        exact ⟨q, newfd, rfl, hr', fun hc => absurd hc hr1⟩
      rw [if_neg hsame]
      have hnone : q.fds newfd.toNat = none := by
        by_cases hin : newfd.toNat < p.maxfd
        · cases hd : q.fds newfd.toNat with
          | none => rfl
          | some d =>
            rw [hg.fds _ hin] at hd
            have hslot := slot_eq_some.mpr ⟨by omega, hin, hd⟩
            rw [hg.fds _ hin, hd, h f d hs hslot] at hsame
            exact absurd rfl hsame
        · exact hgrown (by omega)
      have hold : q.fds oldfd.toNat ≠ none := by
        rw [hg.fds _ hlt, hf]
        exact Option.some_ne_none f
      obtain ⟨p', hp', hr''⟩ := hr'.share (lt_of_lt_of_le hlt hg.maxfd) hold hnew hnone
      rw [hnone]
      exact ⟨p', newfd, by simp only [hp', Option.map_some], hr'', fun hc => absurd hc hr1⟩

/-- Another file is replaced. -/
theorem sysDup2_occupied (hf : p.slot oldfd = some f) (hd : p.slot newfd = some d) (hne : d ≠ f) :
    p.sysDup2 oldfd newfd realloc e =
      match p.fileClose d e with
      | none => none
      | some (p, ret) =>
        if ret < 0 then some (p, -1)
        else (p.fdtFdRelease newfd).bind fun p =>
          (p.fdShare oldfd.toNat newfd.toNat).map fun p => (p, newfd) := by
  obtain ⟨h0, hlt, hdn⟩ := slot_eq_some.mp hd
  unfold sysDup2 fdSlotExpand
  have hdf : ¬ some d = some f := fun he => hne (Option.some.inj he)
  simp only [hf, hlt, if_true, if_neg (not_lt.mpr h0), hdn, hdf, if_false]

/-- The file that is replaced has closed: the slot is cleared and set. -/
theorem Referenced.dup2_replace (hr : p.Referenced) (hf : p.slot oldfd = some f)
    (hd : p.slot newfd = some d) (hne : d ≠ f) :
    ∃ p', ((p.fdtFdRelease newfd).bind fun p =>
      (p.fdShare oldfd.toNat newfd.toNat).map fun p => (p, newfd)) = some (p', newfd) ∧
        p'.Referenced := by
  obtain ⟨hn0, hnlt, hdn⟩ := slot_eq_some.mp hd
  obtain ⟨ho0, holt, hfn⟩ := slot_eq_some.mp hf
  obtain ⟨q, hq, hr', hmax, hother, hself⟩ := hr.fdRelease newfd
  have hslots : (oldfd.toNat : ℤ) ≠ newfd := by
    intro he
    rw [show oldfd.toNat = newfd.toNat by omega, hdn] at hfn
    exact hne (Option.some.inj hfn)
  have hold : q.fds oldfd.toNat ≠ none := by
    rw [hother _ hslots, hfn]
    exact Option.some_ne_none f
  obtain ⟨p', hp', hr''⟩ := hr'.share (hmax ▸ holt) hold (hmax ▸ hnlt)
    (hself _ hnlt (Int.toNat_of_nonneg hn0))
  exact ⟨p', by simp only [hq, hp', Option.bind_some, Option.map_some], hr''⟩

/-- **`sys_dup2`** has a result, and when it is -1 both descriptors are as they were, exactly under the
condition. -/
theorem Referenced.sysDup2_iff (hr : p.Referenced) :
    (∃ p' r, p.sysDup2 oldfd newfd realloc e = some (p', r) ∧
      (r = -1 → Kept p p' oldfd ∧ Kept p p' newfd)) ↔ dup2Ok p oldfd newfd e := by
  by_cases hocc : ∃ f d, p.slot oldfd = some f ∧ p.slot newfd = some d ∧ d ≠ f
  · obtain ⟨f, d, hf, hd, hne⟩ := hocc
    have hn0 : newfd ≠ -1 := by
      have := (slot_eq_some.mp hd).1
      omega
    have hmem := hr.mem_files hd
    rw [sysDup2_occupied hf hd hne]
    rcases hr.fileClose hmem e with ⟨hone, hc⟩ | ⟨hone, hv, hc⟩ | ⟨v, hone, hv, ⟨hcount, hc⟩ |
      ⟨hcount, hc, hr'⟩⟩
    · obtain ⟨p', hp', -⟩ := hr.dup2_replace hf hd hne
      rw [hc]
      refine iff_of_true ⟨p', newfd, ?_, fun h => absurd h hn0⟩ fun f' d' _ hd' _ hone' => ?_
      · exact hp'
      · rw [hd] at hd'
        cases hd'
        exact absurd hone' hone
    · rw [hc]
      refine iff_of_false ?_ fun h => ?_
      · rintro ⟨p', r, hp', -⟩
        cases hp'
      · obtain ⟨v, hv', -⟩ := h f d hf hd hne hone
        rw [hv] at hv'
        cases hv'
    · rw [hc]
      refine iff_of_true ?_ fun f' d' _ hd' _ _ => ?_
      · dsimp only
        by_cases hneg : e.fopsClose < 0
        · rw [if_pos hneg]
          exact ⟨p, -1, rfl, fun _ => ⟨hr.kept oldfd, hr.kept newfd⟩⟩
        · rw [if_neg hneg]
          obtain ⟨p', hp', -⟩ := hr.dup2_replace hf hd hne
          exact ⟨p', newfd, hp', fun h => absurd h hn0⟩
      · rw [hd] at hd'
        cases hd'
        exact ⟨v, hv, fun _ => hcount⟩
    · rw [hc]
      dsimp only
      by_cases hneg : e.fopsClose < 0
      · rw [if_pos hneg]
        refine iff_of_false ?_ fun h => ?_
        · rintro ⟨p', r, hp', hkept⟩
          cases hp'
          have hfile := ((hkept rfl).2.2 d hd).2.1
          have hself : ((p.freeVnode d v).file d).vnode = none := by
            show (Function.update p.file d _ d).vnode = none
            rw [Function.update_self]
          rw [hfile, hv] at hself
          cases hself
        · obtain ⟨u, hu, hcu⟩ := h f d hf hd hne hone
          rw [hv] at hu
          cases hu
          exact hcu hneg hcount
      · rw [if_neg hneg]
        have hslot : (p.freeVnode d v).slot oldfd = some f ∧
            (p.freeVnode d v).slot newfd = some d := ⟨hf, hd⟩
        obtain ⟨p', hp', -⟩ := hr'.dup2_replace hslot.1 hslot.2 hne
        refine iff_of_true ⟨p', newfd, hp', fun h => absurd h hn0⟩ fun f' d' _ hd' _ _ => ?_
        rw [hd] at hd'
        cases hd'
        exact ⟨v, hv, fun h => absurd h hneg⟩
  · have hsame : ∀ f d, p.slot oldfd = some f → p.slot newfd = some d → d = f :=
      fun f d hf hd => by_contra fun hne => hocc ⟨f, d, hf, hd, hne⟩
    obtain ⟨p', r, hp', -, hkeep⟩ := hr.dup2_free realloc e hsame
    refine iff_of_true ⟨p', r, hp', fun h => ?_⟩ fun f d hf hd hne =>
      absurd (hsame f d hf hd) hne
    rw [hkeep h]
    exact ⟨hr.kept oldfd, hr.kept newfd⟩

theorem Referenced.sysDup2 (hr : p.Referenced) {r : ℤ}
    (h : p.sysDup2 oldfd newfd realloc e = some (p', r)) : p'.Referenced := by
  by_cases hocc : ∃ f d, p.slot oldfd = some f ∧ p.slot newfd = some d ∧ d ≠ f
  · obtain ⟨f, d, hf, hd, hne⟩ := hocc
    rw [sysDup2_occupied hf hd hne] at h
    cases hc : p.fileClose d e with
    | none =>
      rw [hc] at h
      cases h
    | some x =>
      obtain ⟨q, ret⟩ := x
      obtain ⟨hr', hmax, hfds⟩ := hr.fileClose_some (hr.mem_files hd) hc
      have hslot : ∀ fd, q.slot fd = p.slot fd := fun fd => by unfold slot; rw [hmax, hfds]
      rw [hc] at h
      dsimp only at h
      split_ifs at h
      · cases h
        exact hr'
      · obtain ⟨q', hq', hr''⟩ := hr'.dup2_replace ((hslot _).trans hf) ((hslot _).trans hd) hne
        rw [hq'] at h
        cases h
        exact hr''
  · obtain ⟨q, r', hq, hr', -⟩ := hr.dup2_free realloc e
      fun f d hf hd => by_contra fun hne => hocc ⟨f, d, hf, hd, hne⟩
    rw [hq] at h
    cases h
    exact hr'

end

/-! ## The table -/

/-- The lowest free slot not below `DFS_STDIO_OFFSET`. -/
def LowestFree (p : Dfs F V) (fd : ℤ) : Prop :=
  ∃ idx : ℕ, fd = idx ∧ stdioOffset ≤ idx ∧ idx < fdMax ∧ p.slot idx = none ∧
    ∀ j : ℕ, stdioOffset ≤ j → j < idx → p.slot j ≠ none

theorem Referenced.slotAlloc_lowest (hr : p.Referenced) {idx : ℕ} {realloc : Bool}
    (h : p.fdSlotAlloc stdioOffset realloc = some (idx, p')) : LowestFree p idx := by
  obtain ⟨hr', hg, hlt, -⟩ := hr.slotAlloc h
  refine ⟨idx, rfl, ?_⟩
  have hmax : idx < fdMax := lt_of_lt_of_le hlt hr'.bound
  unfold fdSlotAlloc at h
  split at h
  · rename_i i hfind
    cases h
    obtain ⟨hnone, hmem, hbefore⟩ := List.find?_range'_eq_some.mp hfind
    have hin := List.mem_range'_1.mp hmem
    refine ⟨hin.1, hmax, ?_, fun j hj hji => ?_⟩
    · rw [slot_natCast (by omega)]
      exact of_decide_eq_true hnone
    · rw [slot_natCast (by omega)]
      have hb := hbefore j hj hji
      rw [Bool.not_eq_true', decide_eq_false_iff_not] at hb
      exact hb
  · rename_i hfind
    obtain ⟨q, hq, he⟩ := Option.map_eq_some_iff.mp h
    rw [List.find?_range'_eq_none] at hfind
    have hidx : idx = if p.maxfd < stdioOffset then stdioOffset else p.maxfd :=
      (congrArg Prod.fst he).symm
    have hfull : ∀ j, stdioOffset ≤ j → j < idx → p.slot j ≠ none := by
      intro j hj hji
      have hjm : j < p.maxfd := by
        rw [hidx] at hji
        split_ifs at hji <;> omega
      rw [slot_natCast hjm]
      have hb := hfind j hj (by omega)
      rw [Bool.not_eq_true', decide_eq_false_iff_not] at hb
      exact hb
    have hge : stdioOffset ≤ idx ∧ p.maxfd ≤ idx := by
      rw [hidx]
      split_ifs <;> omega
    refine ⟨hge.1, hmax, ?_, hfull⟩
    unfold slot
    rw [if_pos (Or.inr (by omega))]

/-- The counts, the size and what refers to what. -/
structure Exact (p : Dfs F V) : Prop where
  live : ∀ fd f, p.slot fd = some f → f ∈ p.files
  count : ∀ f ∈ p.files, (p.file f).refCount = refs (Finset.range p.maxfd) p.fds f
  size : p.maxfd ≤ fdMax

theorem Referenced.exact (hr : p.Referenced) : p.Exact :=
  ⟨fun _ _ hf => hr.mem_files hf, fun _ hf => hr.count hf, hr.bound⟩

theorem Fresh.referenced (h : p.Fresh) : p.Referenced := by
  refine ⟨⟨p.head, ?_, ?_, ?_, ?_, ?_, ?_⟩, h.stack, ?_⟩
  · intro f hf
    rw [withHead, h.stack] at hf
    exact absurd hf (Finset.notMem_empty f)
  · intro f hf
    rw [withHead, h.stack] at hf
    exact absurd hf (Finset.notMem_empty f)
  · show Counted (Finset.range p.maxfd) p.fds p.files _
    rw [h.maxfd, h.files]
    exact Counted.empty
  · show Counted (p.files ∪ p.stack) _ p.vnodes _
    rw [h.files, h.stack, h.vnodes]
    exact Counted.empty
  · intro b v
    show v ∈ p.head b ↔ v ∈ p.vnodes ∧ _
    rw [h.head, h.vnodes]
    exact iff_of_false List.not_mem_nil fun hc => Finset.notMem_empty v hc.1
  · intro b
    show (p.head b).Nodup
    rw [h.head]
    exact List.nodup_nil
  · rw [h.maxfd]
    exact Nat.zero_le _

theorem Referenced.step (hr : p.Referenced) {c : FdCall F V} (h : p.fdStep c = some p') :
    p'.Referenced := by
  cases c with
  | fdNew realloc calloc =>
    simp only [fdStep] at h
    split_ifs at h with hc
    cases h
    refine hr.fdNew fun f hf hlive => hc ?_
    rw [Option.mem_def.mp hf]
    exact decide_eq_true hlive
  | fdRelease fd =>
    obtain ⟨q, hq, hr', -⟩ := hr.fdRelease fd
    rw [fdStep, hq] at h
    cases h
    exact hr'
  | sysDup oldfd realloc =>
    obtain ⟨q, r, hq, hr'⟩ := hr.sysDup oldfd realloc
    rw [fdStep, hq] at h
    cases h
    exact hr'
  | sysDup2 oldfd newfd realloc e =>
    obtain ⟨⟨q, r⟩, hq, he⟩ := Option.map_eq_some_iff.mp h
    cases he
    exact hr.sysDup2 hq
  | opened fd path e =>
    simp only [fdStep] at h
    split_ifs at h with hc
    refine hr.fileOpened (fun v hv hlive => hc ?_) h
    rw [Option.mem_def.mp hv]
    exact decide_eq_true hlive
  | close fd e => exact hr.closeCall h

theorem referenced_of_reach (h : (fdSystem F V).Reach System.anyStep p) : p.Referenced :=
  h.invariant (I := Referenced) (fun _ h => Fresh.referenced h) fun _ _ _ hr _ hst => hr.step hst

/-- **The descriptor table.** In every state of every run the counts are exact and the table is not too
large; the next `fd_new` or `sys_dup` gives the lowest free slot or -1; and the next `sys_dup2` has a
result, and leaves both descriptors as they were when it is -1, exactly under the condition. -/
theorem fd_table (h : (fdSystem F V).Reach System.anyStep p) :
    p.Exact ∧
    (∀ realloc calloc, (p.fdNew realloc calloc).2 = -1 ∨
      LowestFree p (p.fdNew realloc calloc).2) ∧
    (∀ oldfd realloc, ∃ p' r, p.sysDup oldfd realloc = some (p', r) ∧ (r = -1 ∨ LowestFree p r)) ∧
    (∀ fd, ∃ p', p.fdtFdRelease fd = some p') ∧
    (∀ oldfd newfd realloc e, (∃ p' r, p.sysDup2 oldfd newfd realloc e = some (p', r) ∧
      (r = -1 → Kept p p' oldfd ∧ Kept p p' newfd)) ↔ dup2Ok p oldfd newfd e) := by
  have hr := referenced_of_reach h
  refine ⟨hr.exact, fun realloc calloc => ?_, fun oldfd realloc => ?_, fun fd => ?_,
    fun oldfd newfd realloc e => hr.sysDup2_iff⟩
  · unfold fdNew fdAlloc
    cases ha : p.fdSlotAlloc stdioOffset realloc with
    | none => exact Or.inl rfl
    | some x =>
      cases calloc with
      | none => exact Or.inl rfl
      | some f => exact Or.inr (hr.slotAlloc_lowest ha)
  · obtain ⟨q, r, hq, -⟩ := hr.sysDup oldfd realloc
    refine ⟨q, r, hq, ?_⟩
    unfold sysDup at hq
    split at hq
    · cases hq
      exact Or.inl rfl
    split at hq
    · cases hq
      exact Or.inl rfl
    · rename_i ha
      obtain ⟨q', -, he⟩ := Option.map_eq_some_iff.mp hq
      cases he
      exact Or.inr (hr.slotAlloc_lowest ha)
  · obtain ⟨q, hq, -⟩ := hr.fdRelease fd
    exact ⟨q, hq⟩

/-! ## Runs -/

/-- Descriptors, files and vnodes after `dfs_init`. -/
def emptyTable : Dfs (Fin 3) (Fin 3) where
  maxfd := 0
  fds _ := none
  files := ∅
  stack := ∅
  file _ := ⟨0, none⟩
  vnodes := ∅
  vnode _ := ⟨0, []⟩
  head _ := []

theorem emptyTable_fresh : emptyTable.Fresh := ⟨rfl, rfl, rfl, rfl, fun _ => rfl⟩

/-- Two files are open at 3 and 4, and 3 is shared at 5: the next descriptor is 6, and 3 can replace
4 whose `close` succeeds. -/
theorem fd_table_shared : ∃ p : Dfs (Fin 3) (Fin 3),
    (p.slot 3 = some 0 ∧ p.slot 4 = some 1 ∧ p.slot 5 = some 0) ∧ p.Exact ∧
    (∀ realloc calloc, (p.fdNew realloc calloc).2 = -1 ∨
      LowestFree p (p.fdNew realloc calloc).2) ∧
    (∀ oldfd realloc, ∃ p' r, p.sysDup oldfd realloc = some (p', r) ∧ (r = -1 ∨ LowestFree p r)) ∧
    (∀ fd, ∃ p', p.fdtFdRelease fd = some p') ∧
    (∀ oldfd newfd realloc e, (∃ p' r, p.sysDup2 oldfd newfd realloc e = some (p', r) ∧
      (r = -1 → Kept p p' oldfd ∧ Kept p p' newfd)) ↔ dup2Ok p oldfd newfd e) := by
  obtain ⟨p, hp, hs⟩ := System.exists_reach (fdSystem (Fin 3) (Fin 3)) System.anyStep
    (fun p => decide (p.slot 3 = some 0 ∧ p.slot 4 = some 1 ∧ p.slot 5 = some 0)) emptyTable_fresh
    [.fdNew true (some 0), .opened 3 [47, 97] { calloc := some 0 }, .fdNew true (some 1),
      .opened 4 [47, 98] { calloc := some 1 }, .sysDup 3 true] (by decide)
  exact ⟨p, of_decide_eq_true hs, fd_table hp⟩

/-- **A failing `close`** leaves the descriptor with a file that has no vnode. -/
theorem fd_dup2_closed : ¬ ∀ (p p' : Dfs (Fin 3) (Fin 3)) (oldfd newfd : ℤ) (realloc : Bool)
    (e : DfsAnswer (Fin 3)), (fdSystem (Fin 3) (Fin 3)).Reach System.anyStep p →
    p.sysDup2 oldfd newfd realloc e = some (p', -1) → Kept p p' oldfd ∧ Kept p p' newfd := by
  intro h
  obtain ⟨p, hp, hs⟩ := System.exists_reach (fdSystem (Fin 3) (Fin 3)) System.anyStep
    (fun p => decide (p.slot 4 = some 1 ∧ (p.file 1).vnode = some 1) &&
      (p.sysDup2 3 4 true { fopsClose := -5 }).any fun x : Dfs (Fin 3) (Fin 3) × ℤ =>
        decide (x.2 = -1 ∧ (x.1.file 1).vnode = none)) emptyTable_fresh
    [.fdNew true (some 0), .opened 3 [47, 97] { calloc := some 0 }, .fdNew true (some 1),
      .opened 4 [47, 98] { calloc := some 1 }] (by decide)
  rw [Bool.and_eq_true] at hs
  obtain ⟨hslot, hv⟩ := of_decide_eq_true hs.1
  obtain ⟨⟨p', r⟩, hp', hr⟩ := (Option.any_eq_true _ _).mp hs.2
  obtain ⟨hr1, hnone⟩ := of_decide_eq_true hr
  dsimp only at hr1 hnone
  subst hr1
  have hfile := ((h p p' 3 4 true _ hp hp').2.2 1 hslot).2.1
  rw [hfile, hv] at hnone
  cases hnone

end Dfs

end RtThread
