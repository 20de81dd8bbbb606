import RtThread.Dfs.Model
import RtThread.Lib.Refs

/-!
# The references among descriptors, files and vnodes

`Dfs.Wf` counts the references of two levels: the entries of the descriptor table that point to a
`dfs_file`, and the live `dfs_file`s that point to a vnode. The hash table holds the live vnodes.

* `Wf.expand`, `Wf.alloc`, `Wf.share`, `Wf.fdtFdRelease`: the operations on the table keep it;
* `Wf.newVnode`, `Wf.freeVnode`, `Wf.acquire`: the three ways in which a section moves a pointer;
* **`Wf.dfsFileOpen`**, **`Wf.dfsFileClose`**: the sections do not fail and keep it.
-/

set_option linter.unusedSectionVars false

namespace RtThread

namespace Dfs

variable {F V : Type} [DecidableEq F] [DecidableEq V] {p p' : Dfs F V}

/-- **Every count is a number of references, and the hash table holds the live vnodes.** -/
structure Wf (p : Dfs F V) : Prop where
  disjoint : ∀ f ∈ p.stack, f ∉ p.files
  stackCount : ∀ f ∈ p.stack, (p.file f).refCount = 1
  files : Counted (Finset.range p.maxfd) p.fds p.files (DfsFile.refCount ∘ p.file)
  vnodes : Counted p.live (DfsFile.vnode ∘ p.file) p.vnodes (DfsVnode.refCount ∘ p.vnode)
  hash : ∀ b v, v ∈ p.head b ↔ v ∈ p.vnodes ∧ bkdrHash (p.vnode v).fullpath = b
  nodup : ∀ b, (p.head b).Nodup

/-- A section of the vnode table leaves the descriptor table alone. -/
structure SameTable (p p' : Dfs F V) : Prop where
  maxfd : p'.maxfd = p.maxfd
  fds : p'.fds = p.fds
  files : p'.files = p.files
  stack : p'.stack = p.stack

theorem SameTable.refl : SameTable p p := ⟨rfl, rfl, rfl, rfl⟩

/-- The descriptor table has grown. -/
structure Grown (p p' : Dfs F V) : Prop where
  maxfd : p.maxfd ≤ p'.maxfd
  fds : ∀ i < p.maxfd, p'.fds i = p.fds i
  files : p'.files = p.files
  stack : p'.stack = p.stack
  vnodes : p'.vnodes = p.vnodes

theorem Grown.refl : Grown p p := ⟨le_rfl, fun _ _ => rfl, rfl, rfl, rfl⟩

theorem slot_eq_some {fd : ℤ} {f : F} :
    p.slot fd = some f ↔ 0 ≤ fd ∧ fd.toNat < p.maxfd ∧ p.fds fd.toNat = some f := by
  unfold slot
  split_ifs with h
  · constructor
    · intro hf
      cases hf
    · rintro ⟨h0, h1, -⟩
      omega
  · constructor
    · intro hf
      exact ⟨by omega, by omega, hf⟩
    · exact fun hf => hf.2.2

theorem slot_natCast {fd : ℕ} (h : fd < p.maxfd) : p.slot fd = p.fds fd := by
  unfold slot
  rw [if_neg (by omega), Int.toNat_natCast]

namespace Wf

/-! ## The descriptor table -/

theorem mem_files (hw : p.Wf) {fd : ℤ} {f : F} (h : p.slot fd = some f) : f ∈ p.files := by
  obtain ⟨-, hlt, hf⟩ := slot_eq_some.mp h
  exact hw.files.mem _ (Finset.mem_range.mpr hlt) f hf

theorem expand (hw : p.Wf) {fd : ℕ} {realloc : Bool} (h : p.fdSlotExpand fd realloc = some p') :
    p'.Wf ∧ Grown p p' ∧ fd < p'.maxfd ∧ (p.maxfd ≤ fd → p'.fds fd = none) := by
  unfold fdSlotExpand at h
  by_cases hlt : fd < p.maxfd
  · rw [if_pos hlt] at h
    cases h
    exact ⟨hw, .refl, hlt, fun hle => absurd hlt (by omega)⟩
  rw [if_neg hlt] at h
  by_cases hmax : fd ≥ fdMax
  · rw [if_pos hmax] at h
    cases h
  rw [if_neg hmax] at h
  cases realloc with
  | false => cases h
  | true =>
    rw [if_pos rfl] at h
    cases h
    have hnr : fd < min ((fd + 4) / 4 * 4) fdMax := by omega
    have hfds : ∀ i < p.maxfd, (if p.maxfd ≤ i ∧ i < min ((fd + 4) / 4 * 4) fdMax then none
        else p.fds i) = p.fds i := fun i hi => if_neg (by omega)
    refine ⟨⟨hw.disjoint, hw.stackCount, ?_, hw.vnodes, hw.hash, hw.nodup⟩,
      ⟨le_trans (by omega) hnr.le, hfds, rfl, rfl, rfl⟩, hnr, fun hle => if_pos ⟨hle, hnr⟩⟩
    refine (hw.files.congr (fun i hi => hfds i (Finset.mem_range.mp hi)) fun _ _ => rfl).holders ?_
    intro i hi
    by_cases hlo : p.maxfd ≤ i ∧ i < min ((fd + 4) / 4 * 4) fdMax
    · exact absurd (if_pos hlo) hi
    · rw [Finset.mem_range, Finset.mem_range]
      show i < min ((fd + 4) / 4 * 4) fdMax ↔ i < p.maxfd
      omega

theorem slotAlloc (hw : p.Wf) {startfd idx : ℕ} {realloc : Bool}
    (h : p.fdSlotAlloc startfd realloc = some (idx, p')) :
    p'.Wf ∧ Grown p p' ∧ idx < p'.maxfd ∧ p'.fds idx = none := by
  unfold fdSlotAlloc at h
  cases hfind : (List.range' startfd (p.maxfd - startfd)).find? fun i => p.fds i = none with
  | some i =>
    rw [hfind] at h
    cases h
    have hmem := List.mem_range'_1.mp (List.mem_of_find?_eq_some hfind)
    have hnone := List.find?_some hfind
    exact ⟨hw, .refl, by omega, of_decide_eq_true hnone⟩
  | none =>
    rw [hfind] at h
    obtain ⟨q, hq, he⟩ := Option.map_eq_some_iff.mp h
    cases he
    obtain ⟨hw', hg, hlt, hnew⟩ := hw.expand hq
    refine ⟨hw', hg, hlt, hnew ?_⟩
    split_ifs <;> omega

theorem alloc (hw : p.Wf) {startfd : ℕ} {realloc : Bool} {calloc : Option F}
    (hc : ∀ f ∈ calloc, f ∉ p.live) {r : Option ℕ}
    (h : p.fdAlloc startfd realloc calloc = (r, p')) :
    p'.Wf ∧ p'.stack = p.stack ∧ p'.vnodes = p.vnodes := by
  unfold fdAlloc at h
  cases ha : p.fdSlotAlloc startfd realloc with
  | none =>
    rw [ha] at h
    cases h
    exact ⟨hw, rfl, rfl⟩
  | some x =>
    obtain ⟨idx, q⟩ := x
    obtain ⟨hw', hg, hlt, hnone⟩ := hw.slotAlloc ha
    rw [ha] at h
    cases calloc with
    | none =>
      cases h
      exact ⟨hw', hg.stack, hg.vnodes⟩
    | some f =>
      cases h
      have hf : f ∉ q.live := by
        rw [live, hg.files, hg.stack]
        exact hc f rfl
      have hfs : f ∉ q.files ∧ f ∉ q.stack := by
        simpa only [live, Finset.mem_union, not_or] using hf
      have hother : ∀ g ∈ q.live, g ≠ f := fun g hg' he => hf (he ▸ hg')
      refine ⟨⟨?_, ?_, ?_, ?_, hw'.hash, hw'.nodup⟩, hg.stack, hg.vnodes⟩
      · intro g hgs
        exact fun hm => (Finset.mem_insert.mp hm).elim
          (hother g (Finset.mem_union_right _ hgs)) (hw'.disjoint g hgs)
      · intro g hgs
        show (Function.update q.file f _ g).refCount = 1
        rw [Function.update_of_ne (hother g (Finset.mem_union_right _ hgs))]
        exact hw'.stackCount g hgs
      · rw [Function.comp_update]
        exact hw'.files.create (Finset.mem_range.mpr hlt) hnone hfs.1
      · rw [Function.comp_update]
        refine (hw'.vnodes.congr (fun g hg' => Function.update_of_ne (hother g hg') _ _)
          fun _ _ => rfl).holders ?_
        intro g hgn
        have hne : g ≠ f := by
          rintro rfl
          exact hgn (Function.update_self ..)
        show g ∈ insert f q.files ∪ q.stack ↔ g ∈ q.files ∪ q.stack
        rw [Finset.mem_union, Finset.mem_union, Finset.mem_insert, or_iff_right hne]

/-- Only the count of a file changes. -/
theorem setCount_vnodes (hw : p.Wf) (f : F) (n : ℤ) :
    Counted p.live (DfsFile.vnode ∘ Function.update p.file f { p.file f with refCount := n }) p.vnodes
      (DfsVnode.refCount ∘ p.vnode) := by
  rw [Function.comp_update]
  exact (Function.update_eq_self f (DfsFile.vnode ∘ p.file)).symm ▸ hw.vnodes

theorem setCount_stack (hw : p.Wf) {f : F} (hf : f ∈ p.files) (x : DfsFile V) :
    ∀ g ∈ p.stack, (Function.update p.file f x g).refCount = 1 := by
  intro g hg
  have hne : g ≠ f := fun he => hw.disjoint g hg (he ▸ hf)
  rw [Function.update_of_ne hne]
  exact hw.stackCount g hg

theorem share (hw : p.Wf) {oldfd newfd : ℕ} (ho : oldfd < p.maxfd) (hs : p.fds oldfd ≠ none)
    (hn : newfd < p.maxfd) (hnone : p.fds newfd = none) :
    ∃ p', p.fdShare oldfd newfd = some p' ∧ p'.Wf ∧ p'.stack = p.stack ∧ p'.vnodes = p.vnodes := by
  obtain ⟨f, hf⟩ := Option.ne_none_iff_exists'.mp hs
  have hmem := hw.files.mem _ (Finset.mem_range.mpr ho) f hf
  unfold fdShare
  rw [hf]
  refine ⟨_, if_neg (not_not.mpr hmem), ⟨hw.disjoint, hw.setCount_stack hmem _, ?_,
    hw.setCount_vnodes f _, hw.hash, hw.nodup⟩, rfl, rfl⟩
  show Counted _ _ _ (DfsFile.refCount ∘ Function.update p.file f _)
  rw [Function.comp_update]
  exact hw.files.acquire (Finset.mem_range.mpr hn) hnone hmem

/-- A vnode changes, but not its path. -/
theorem setVnode_hash (hw : p.Wf) {v : V} {x : DfsVnode} (hx : x.fullpath = (p.vnode v).fullpath) :
    ∀ b u, u ∈ p.head b ↔
      u ∈ p.vnodes ∧ bkdrHash (Function.update p.vnode v x u).fullpath = b := by
  intro b u
  rw [hw.hash b u]
  by_cases hu : u = v
  · rw [hu, Function.update_self, hx]
  · rw [Function.update_of_ne hu]

/-- The holders left when a file goes. -/
theorem mem_live_erase {f g : F} (hg : g ≠ f) : g ∈ p.files.erase f ∪ p.stack ↔ g ∈ p.live := by
  rw [live, Finset.mem_union, Finset.mem_union, Finset.mem_erase, and_iff_right hg]

theorem ne_of_mem_erase (hw : p.Wf) {f g : F} (hf : f ∈ p.files) (hg : g ∈ p.files.erase f ∪ p.stack) :
    g ≠ f := by
  rintro rfl
  rcases Finset.mem_union.mp hg with he | he
  · exact Finset.notMem_erase g p.files he
  · exact hw.disjoint g he hf

/-- The last descriptor of a file goes, and with it a reference that is not the last one of its
vnode. -/
theorem dropFile (hw : p.Wf) {fd : ℕ} {f : F} (hlt : fd < p.maxfd) (hf : p.fds fd = some f)
    (hone : (p.file f).refCount = 1) :
    ((p.file f).vnode = none →
      { p with fds := Function.update p.fds fd none, files := p.files.erase f }.Wf) ∧
    ∀ v, (p.file f).vnode = some v → 2 ≤ (p.vnode v).refCount →
      { p with
        fds := Function.update p.fds fd none
        vnode := Function.update p.vnode v
          { p.vnode v with refCount := (p.vnode v).refCount - 1 }
        files := p.files.erase f }.Wf := by
  have hmem := hw.files.mem _ (Finset.mem_range.mpr hlt) f hf
  have hdisj : ∀ g ∈ p.stack, g ∉ p.files.erase f :=
    fun g hg hm => hw.disjoint g hg (Finset.mem_of_mem_erase hm)
  have hfiles := hw.files.last (Finset.mem_range.mpr hlt) hf hone
  constructor
  · intro hv
    refine ⟨hdisj, hw.stackCount, hfiles, hw.vnodes.holders fun g hg => mem_live_erase ?_, hw.hash,
      hw.nodup⟩
    rintro rfl
    exact hg hv
  · intro v hv h2
    refine ⟨hdisj, hw.stackCount, hfiles, ?_, hw.setVnode_hash rfl, hw.nodup⟩
    have hrel := hw.vnodes.release (Finset.mem_union_left _ hmem) hv h2
    rw [Function.comp_update]
    refine (hrel.holders fun g hg => mem_live_erase ?_).congr (fun g hg => ?_) fun _ _ => rfl
    · rintro rfl
      exact hg (Function.update_self ..)
    · exact (Function.update_of_ne (hw.ne_of_mem_erase hmem hg) _ _).symm

/-- The releasing of a descriptor is safe: the last one of a file does not find the last reference to
a vnode. -/
theorem fdtFdRelease (hw : p.Wf) {fd : ℤ}
    (hok : ∀ f v, p.slot fd = some f → (p.file f).refCount = 1 → (p.file f).vnode = some v →
      2 ≤ (p.vnode v).refCount) :
    ∃ p', p.fdtFdRelease fd = some p' ∧ p'.Wf ∧ p'.maxfd = p.maxfd ∧ p'.stack = p.stack ∧
      p'.vnodes = p.vnodes ∧ (∀ i : ℕ, (i : ℤ) ≠ fd → p'.fds i = p.fds i) ∧
      (∀ i < p.maxfd, (i : ℤ) = fd → p'.fds i = none) := by
  unfold Dfs.fdtFdRelease
  cases hs : p.slot fd with
  | none =>
    refine ⟨p, rfl, hw, rfl, rfl, rfl, fun _ _ => rfl, fun i hi he => ?_⟩
    rw [← he, slot_natCast hi] at hs
    exact hs
  | some f =>
    obtain ⟨h0, hlt, hf⟩ := slot_eq_some.mp hs
    have hmem := hw.mem_files hs
    have hpos : 0 < (p.file f).refCount := hw.files.pos f hmem
    have hfd : ∀ i : ℕ, (i : ℤ) ≠ fd → Function.update p.fds fd.toNat none i = p.fds i :=
      fun i hi => Function.update_of_ne (by omega) _ _
    have hfd' : ∀ i : ℕ, i < p.maxfd → (i : ℤ) = fd →
        Function.update p.fds fd.toNat none i = none := by
      intro i _ hi
      rw [show fd.toNat = i by omega, Function.update_self]
    simp only [hmem, not_true_eq_false, if_false]
    by_cases hn : (p.file f).refCount - 1 = 0
    · have hone : (p.file f).refCount = 1 := by omega
      have hdrop := hw.dropFile hlt hf hone
      rw [if_neg (not_not.mpr hn)]
      cases hv : (p.file f).vnode with
      | none => exact ⟨_, rfl, hdrop.1 hv, rfl, rfl, rfl, hfd, hfd'⟩
      | some v =>
        have hlive : v ∈ p.vnodes := hw.vnodes.mem f (Finset.mem_union_left _ hmem) v hv
        have h2 := hok f v hs hone hv
        have hm : (p.vnode v).refCount - 1 ≠ 0 := by omega
        simp only [hlive, not_true_eq_false, if_false, hm]
        exact ⟨_, rfl, hdrop.2 v hv h2, rfl, rfl, rfl, hfd, hfd'⟩
    · rw [if_pos hn]
      refine ⟨_, rfl, ⟨hw.disjoint, hw.setCount_stack hmem _, ?_, hw.setCount_vnodes f _, hw.hash,
        hw.nodup⟩, rfl, rfl, rfl, hfd, hfd'⟩
      show Counted _ _ _ (DfsFile.refCount ∘ Function.update p.file f _)
      rw [Function.comp_update]
      have h2 : 2 ≤ (p.file f).refCount := by omega
      exact hw.files.release (Finset.mem_range.mpr hlt) hf h2

/-! ## Pointers to vnodes -/

/-- The count of a file does not change with its vnode. -/
theorem setPtr_files (hw : p.Wf) (d : F) (o : Option V) :
    Counted (Finset.range p.maxfd) p.fds p.files
      (DfsFile.refCount ∘ Function.update p.file d { p.file d with vnode := o }) := by
  rw [Function.comp_update]
  exact (Function.update_eq_self d (DfsFile.refCount ∘ p.file)).symm ▸ hw.files

theorem setPtr_stack (hw : p.Wf) (d : F) (o : Option V) :
    ∀ g ∈ p.stack, (Function.update p.file d { p.file d with vnode := o } g).refCount = 1 := by
  intro g hg
  by_cases hgd : g = d
  · rw [hgd, Function.update_self]
    exact hw.stackCount d (hgd ▸ hg)
  · rw [Function.update_of_ne hgd]
    exact hw.stackCount g hg

/-- A file gets a reference to a vnode that is there. -/
theorem acquire (hw : p.Wf) {d : F} {v : V} (hd : d ∈ p.live) (hn : (p.file d).vnode = none)
    (hv : v ∈ p.vnodes) :
    ((p.setVnode v { p.vnode v with refCount := (p.vnode v).refCount + 1 }).setFile d
      { p.file d with vnode := some v }).Wf := by
  refine ⟨hw.disjoint, hw.setPtr_stack d _, hw.setPtr_files d _, ?_, hw.setVnode_hash rfl, hw.nodup⟩
  show Counted p.live (DfsFile.vnode ∘ Function.update p.file d _) p.vnodes
    (DfsVnode.refCount ∘ Function.update p.vnode v _)
  rw [Function.comp_update, Function.comp_update]
  exact hw.vnodes.acquire hd hn hv

theorem newVnode (hw : p.Wf) {d : F} {v : V} (hd : d ∈ p.live) (hn : (p.file d).vnode = none)
    (hv : v ∉ p.vnodes) (path : List UInt8) : (p.newVnode d path v).Wf := by
  have hhead : ∀ b, v ∉ p.head b := fun b hm => hv ((hw.hash b v).mp hm).1
  refine ⟨hw.disjoint, hw.setPtr_stack d _, hw.setPtr_files d _, ?_, ?_, ?_⟩
  · show Counted p.live (DfsFile.vnode ∘ Function.update p.file d _) (insert v p.vnodes)
      (DfsVnode.refCount ∘ Function.update p.vnode v _)
    rw [Function.comp_update, Function.comp_update]
    exact hw.vnodes.create hd hn hv
  · intro b u
    show u ∈ Function.update p.head (bkdrHash path) (v :: p.head (bkdrHash path)) b ↔
      u ∈ insert v p.vnodes ∧ bkdrHash (Function.update p.vnode v ⟨1, path⟩ u).fullpath = b
    by_cases hu : u = v
    · rw [hu, Function.update_self, and_iff_right (Finset.mem_insert_self v _)]
      by_cases hb : b = bkdrHash path
      · simp [hb]
      · rw [Function.update_of_ne hb]
        exact iff_of_false (hhead b) (Ne.symm hb)
    · rw [Function.update_of_ne hu, Finset.mem_insert, or_iff_right hu, ← hw.hash b u]
      by_cases hb : b = bkdrHash path
      · rw [hb, Function.update_self, List.mem_cons, or_iff_right hu]
      · rw [Function.update_of_ne hb]
  · intro b
    show (Function.update p.head (bkdrHash path) (v :: p.head (bkdrHash path)) b).Nodup
    by_cases hb : b = bkdrHash path
    · rw [hb, Function.update_self]
      exact List.nodup_cons.mpr ⟨hhead _, hw.nodup _⟩
    · rw [Function.update_of_ne hb]
      exact hw.nodup b

/-- The last reference to a vnode goes. What its count says does not matter any more. -/
theorem freeVnode (hw : p.Wf) {d : F} {v : V} (hd : d ∈ p.live) (hv : (p.file d).vnode = some v)
    (hone : (p.vnode v).refCount = 1) {x : DfsVnode} (hx : x.fullpath = (p.vnode v).fullpath) :
    ((p.setVnode v x).freeVnode d v).Wf := by
  have hself : (Function.update p.vnode v x v).fullpath = (p.vnode v).fullpath := by
    rw [Function.update_self, hx]
  refine ⟨hw.disjoint, hw.setPtr_stack d _, hw.setPtr_files d _, ?_, ?_, ?_⟩
  · show Counted p.live (DfsFile.vnode ∘ Function.update p.file d _) (p.vnodes.erase v)
      (DfsVnode.refCount ∘ Function.update p.vnode v x)
    rw [Function.comp_update, Function.comp_update]
    exact (hw.vnodes.last hd hv hone).congr (fun _ _ => rfl)
      fun u hu => Function.update_of_ne (Finset.ne_of_mem_erase hu) _ _
  · intro b u
    show u ∈ Function.update p.head (bkdrHash (Function.update p.vnode v x v).fullpath)
      ((p.head (bkdrHash (Function.update p.vnode v x v).fullpath)).erase v) b ↔
      u ∈ p.vnodes.erase v ∧ bkdrHash (Function.update p.vnode v x u).fullpath = b
    rw [hself, Finset.mem_erase]
    by_cases hb : b = bkdrHash (p.vnode v).fullpath
    · rw [hb, Function.update_self, (hw.nodup _).mem_erase_iff, hw.setVnode_hash hx, and_assoc]
    · rw [Function.update_of_ne hb, hw.setVnode_hash hx b u, and_assoc]
      refine ⟨fun h => ⟨?_, h⟩, And.right⟩
      rintro rfl
      exact hb (hself ▸ h.2.symm)
  · intro b
    show (Function.update p.head (bkdrHash (Function.update p.vnode v x v).fullpath)
      ((p.head (bkdrHash (Function.update p.vnode v x v).fullpath)).erase v) b).Nodup
    by_cases hb : b = bkdrHash (Function.update p.vnode v x v).fullpath
    · rw [hb, Function.update_self]
      exact (hw.nodup _).erase v
    · rw [Function.update_of_ne hb]
      exact hw.nodup b

/-! ## Open and close -/

/-- A failing `open` of the only file of a vnode takes the vnode away. -/
theorem openFailed (hw : p.Wf) {d : F} {v : V} (hd : d ∈ p.live) (hv : (p.file d).vnode = some v)
    (hone : (p.vnode v).refCount = 1) :
    ∃ p', p.openFailed d v = some p' ∧ p'.Wf ∧ SameTable p p' ∧ (p'.file d).vnode = none ∧
      p'.vnodes = p.vnodes.erase v := by
  have hlive := hw.vnodes.mem d hd v hv
  unfold Dfs.openFailed
  rw [if_neg (by simp only [hd, hlive, not_true_eq_false, or_self, not_false_eq_true])]
  refine ⟨_, rfl, ?_⟩
  rw [if_pos (by omega)]
  refine ⟨hw.freeVnode hd hv hone rfl, ⟨rfl, rfl, rfl, rfl⟩, ?_, rfl⟩
  show (Function.update p.file d _ d).vnode = none
  rw [Function.update_self]

/-- A `dfs_mount` puts a `dfs_file` on its stack. -/
theorem enter (hw : p.Wf) {d : F} (hd : d ∉ p.live) :
    { p.setFile d ⟨1, none⟩ with stack := insert d p.stack }.Wf := by
  have hother : ∀ g ∈ p.live, g ≠ d := fun g hg he => hd (he ▸ hg)
  refine ⟨?_, ?_, ?_, ?_, hw.hash, hw.nodup⟩
  · intro g hg hf
    rcases Finset.mem_insert.mp hg with he | he
    · exact hother g (Finset.mem_union_left _ hf) he
    · exact hw.disjoint g he hf
  · intro g hg
    show (Function.update p.file d _ g).refCount = 1
    by_cases hgd : g = d
    · rw [hgd, Function.update_self]
    · rw [Function.update_of_ne hgd]
      exact hw.stackCount g (Finset.mem_of_mem_insert_of_ne hg hgd)
  · refine hw.files.congr (fun _ _ => rfl) fun g hg => ?_
    show (Function.update p.file d _ g).refCount = (p.file g).refCount
    rw [Function.update_of_ne (hother g (Finset.mem_union_left _ hg))]
  · show Counted (p.files ∪ insert d p.stack) (DfsFile.vnode ∘ Function.update p.file d _) _ _
    rw [Function.comp_update]
    refine (hw.vnodes.congr (fun g hg => Function.update_of_ne (hother g hg) _ _)
      fun _ _ => rfl).holders ?_
    intro g hgn
    have hne : g ≠ d := by
      rintro rfl
      exact hgn (Function.update_self ..)
    rw [live, Finset.mem_union, Finset.mem_union, Finset.mem_insert, or_iff_right hne]

/-- The `dfs_file` of a `dfs_mount` goes with a NULL pointer. -/
theorem leave (hw : p.Wf) {d : F} (hn : (p.file d).vnode = none) :
    { p with stack := p.stack.erase d }.Wf := by
  refine ⟨fun f hf => hw.disjoint f (Finset.mem_of_mem_erase hf),
    fun f hf => hw.stackCount f (Finset.mem_of_mem_erase hf), hw.files, ?_, hw.hash, hw.nodup⟩
  refine hw.vnodes.holders fun g hg => ?_
  have hne : g ≠ d := by
    rintro rfl
    exact hg hn
  show g ∈ p.files ∪ p.stack.erase d ↔ g ∈ p.files ∪ p.stack
  rw [Finset.mem_union, Finset.mem_union, Finset.mem_erase, and_iff_right hne]

/-- The `dfs_file` of a `dfs_mount` whose open has failed, on a vnode with other references, goes with
its pointer. -/
theorem leaveFailed (hw : p.Wf) {d : F} {v : V} (hd : d ∈ p.stack) (hv : (p.file d).vnode = some v)
    (h2 : 2 ≤ (p.vnode v).refCount) :
    ∃ p', p.openFailed d v = some p' ∧ SameTable p p' ∧ p'.vnodes = p.vnodes ∧
      { p' with stack := p'.stack.erase d }.Wf := by
  have hmem : d ∈ p.live := Finset.mem_union_right _ hd
  have hlive := hw.vnodes.mem d hmem v hv
  unfold Dfs.openFailed
  rw [if_neg (by simp only [hmem, hlive, not_true_eq_false, or_self, not_false_eq_true])]
  refine ⟨_, rfl, ?_⟩
  rw [if_neg (by omega)]
  have hne : ∀ g ∈ p.files ∪ p.stack.erase d, g ≠ d := by
    rintro g hg rfl
    rcases Finset.mem_union.mp hg with he | he
    · exact hw.disjoint g hd he
    · exact Finset.notMem_erase g p.stack he
  refine ⟨⟨rfl, rfl, rfl, rfl⟩, rfl, fun f hf => hw.disjoint f (Finset.mem_of_mem_erase hf),
    fun f hf => hw.stackCount f (Finset.mem_of_mem_erase hf), hw.files, ?_, hw.setVnode_hash rfl,
    hw.nodup⟩
  show Counted (p.files ∪ p.stack.erase d) _ _ (DfsVnode.refCount ∘ Function.update p.vnode v _)
  rw [Function.comp_update]
  refine ((hw.vnodes.release hmem hv h2).holders fun g hg => ?_).congr
    (fun g hg => (Function.update_of_ne (hne g hg) _ _).symm) fun _ _ => rfl
  have hgd : g ≠ d := by
    rintro rfl
    exact hg (Function.update_self ..)
  rw [live, Finset.mem_union, Finset.mem_union, Finset.mem_erase, and_iff_right hgd]

theorem vnodeFind (path : List UInt8) {l : List V} (hl : ∀ v ∈ l, v ∈ p.vnodes) :
    ∃ r, p.vnodeFind path l = some r ∧ ∀ v ∈ r, v ∈ p.vnodes := by
  induction l with
  | nil => exact ⟨none, rfl, fun v hv => absurd hv (by simp)⟩
  | cons v hh ih =>
    have hv := hl v List.mem_cons_self
    unfold Dfs.vnodeFind
    rw [if_neg (not_not.mpr hv)]
    by_cases hp : path = (p.vnode v).fullpath
    · rw [if_pos hp]
      exact ⟨some v, rfl, fun u hu => Option.some.inj hu ▸ hv⟩
    · rw [if_neg hp]
      exact ih fun u hu => hl u (List.mem_cons_of_mem v hu)

/-- **The section of `dfs_file_open`**, on a file that is live and has no vnode. -/
theorem dfsFileOpen (hw : p.Wf) {d : F} (path : List UInt8) {e : DfsAnswer V} (hd : d ∈ p.live)
    (hn : (p.file d).vnode = none) (he : ∀ v ∈ e.calloc, v ∉ p.vnodes) :
    ∃ p' r, p.dfsFileOpen d path e = some (p', r) ∧ p'.Wf ∧ SameTable p p' ∧ p.vnodes ⊆ p'.vnodes ∧
      (r = .error → (p'.file d).vnode = none) := by
  obtain ⟨r, hr, hrv⟩ := Wf.vnodeFind path (l := p.head (bkdrHash path))
    fun v hv => ((hw.hash _ v).mp hv).1
  unfold Dfs.dfsFileOpen
  by_cases hfull : e.fullpath = true
  · simp only [hfull, hr, hd, Bool.not_true, Bool.false_eq_true, if_false, not_true_eq_false]
    cases r with
    | some v =>
      refine ⟨_, _, rfl, hw.acquire hd hn (hrv v rfl), ⟨rfl, rfl, rfl, rfl⟩, Finset.Subset.refl _, ?_⟩
      intro hc
      cases hc
    | none =>
      cases hlookup : e.lookup with
      | false => exact ⟨_, _, rfl, hw, .refl, Finset.Subset.refl _, fun _ => hn⟩
      | true =>
        cases hcalloc : e.calloc with
        | none => exact ⟨_, _, rfl, hw, .refl, Finset.Subset.refl _, fun _ => hn⟩
        | some v =>
          cases hopen : e.hasOpen with
          | false => exact ⟨_, _, rfl, hw, .refl, Finset.Subset.refl _, fun _ => hn⟩
          | true =>
            have hv := he v hcalloc
            have hnew := hw.newVnode hd hn hv path
            by_cases hfops : e.fopsOpen = true
            · simp only [hfops, if_true]
              refine ⟨_, _, rfl, hnew, ⟨rfl, rfl, rfl, rfl⟩, Finset.subset_insert v _, ?_⟩
              intro hc
              cases hc
            · have hfile : ((p.newVnode d path v).file d).vnode = some v := by
                show (Function.update p.file d _ d).vnode = some v
                rw [Function.update_self]
              have hone : ((p.newVnode d path v).vnode v).refCount = 1 := by
                show (Function.update p.vnode v _ v).refCount = 1
                rw [Function.update_self]
              obtain ⟨p', hp', hw', ht, hn', hvn⟩ := hnew.openFailed hd hfile hone
              have hsub : p.vnodes ⊆ p'.vnodes := by
                rw [hvn]
                exact (Finset.erase_insert hv).symm.subset
              simp only [hfops, Bool.false_eq_true, if_false, hp', Option.map_some]
              exact ⟨_, _, rfl, hw', ⟨ht.maxfd, ht.fds, ht.files, ht.stack⟩, hsub, fun _ => hn'⟩
  · simp only [hfull, Bool.not_false, if_true]
    exact ⟨_, _, rfl, hw, .refl, Finset.Subset.refl _, fun _ => hn⟩

/-- **The section of `dfs_file_close`**, on a file that is live and has a vnode. -/
theorem dfsFileClose (hw : p.Wf) {d : F} {v : V} (e : DfsAnswer V) (hd : d ∈ p.live)
    (hv : (p.file d).vnode = some v) :
    ∃ p' r, p.dfsFileClose d e = some (p', r) ∧ p'.Wf ∧ SameTable p p' ∧
      ((p.vnode v).refCount = 1 → (p'.file d).vnode = none ∧ p'.vnodes = p.vnodes.erase v) ∧
      ((p.vnode v).refCount ≠ 1 → p'.vnodes = p.vnodes) := by
  have hlive := hw.vnodes.mem d hd v hv
  have hpos : 0 < (p.vnode v).refCount := hw.vnodes.pos v hlive
  unfold Dfs.dfsFileClose
  simp only [hd, hv, hlive, not_true_eq_false, if_false, not_le.mpr hpos]
  refine ⟨_, _, rfl, ?_⟩
  by_cases hone : (p.vnode v).refCount = 1
  · rw [if_pos hone]
    have hfree := hw.freeVnode hd hv hone (x := p.vnode v) rfl
    rw [setVnode, Function.update_eq_self] at hfree
    refine ⟨hfree, ⟨rfl, rfl, rfl, rfl⟩, fun _ => ⟨?_, rfl⟩, fun h => absurd hone h⟩
    show (Function.update p.file d _ d).vnode = none
    rw [Function.update_self]
  · rw [if_neg hone]
    exact ⟨hw, .refl, fun h => absurd h hone, fun _ => rfl⟩

end Wf

end Dfs

end RtThread
