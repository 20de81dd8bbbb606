import RtThread.Dfs.Objects

/-!
# The lifetime of files and vnodes

`components/dfs/dfs_v1/src`: the close of a descriptor is a test in `dfs_file_close`, a section of the
vnode table and a section of the descriptor table, and a failing `open` gives a reference back in
`dfs_file_open` and again in `fd_release`.

* `lifetimeOk`: the steps that do not meet a file another call has closed, and give no reference back
  twice or never;
* `DfsInv`: the objects are counted, the `dfs_file`s of the `dfs_mount`s in progress are on the stack,
  and the owner of `fdlock` finds its entries as it left them;
* **`dfs_lifetime`**: the counts and the hash table are exact whenever no call is in progress, and
  nothing is freed that a descriptor refers to, in every run of such steps; `dfs_openFailed`: a run in
  which a failing `open` frees the vnode of another descriptor.
-/

set_option linter.unusedSectionVars false

namespace RtThread

section

variable {T F V : Type} [DecidableEq T] [DecidableEq F] [DecidableEq V]

/-! ## The property -/

/-- The lifetime property of a state: with no call in progress the counts and the hash table are exact,
what a descriptor refers to is live, and no freed pointer was followed or freed again. -/
structure Lifetime (s : DfsState T F V) : Prop where
  count : (∀ t, s.call t = .idle) → ∀ v ∈ s.dfs.vnodes,
    (s.dfs.vnode v).refCount = refs s.dfs.files (DfsFile.vnode ∘ s.dfs.file) v
  hash : (∀ t, s.call t = .idle) → ∀ b v,
    v ∈ s.dfs.head b ↔ v ∈ s.dfs.vnodes ∧ bkdrHash (s.dfs.vnode v).fullpath = b
  nodup : (∀ t, s.call t = .idle) → ∀ b, (s.dfs.head b).Nodup
  file : ∀ fd f, s.dfs.slot fd = some f → f ∈ s.dfs.files
  vnode : ∀ fd f v, s.dfs.slot fd = some f → (s.dfs.file f).vnode = some v → v ∈ s.dfs.vnodes
  fault : s.fault = false

/-- A vnode that is freed had no two descriptors. -/
def FreesUnshared (p p' : Dfs F V) : Prop :=
  ∀ v ∈ p.vnodes, v ∉ p'.vnodes → ∀ i j f g, p.slot i = some f → p.slot j = some g →
    (p.file f).vnode = some v → (p.file g).vnode = some v → i = j

/-! ## The condition -/

/-- `fd_release` does not drop the last reference to a vnode. -/
def releaseOk (p : Dfs F V) (fd : ℤ) : Bool :=
  (p.slot fd).all fun f => (p.file f).refCount ≠ 1 ||
    (p.file f).vnode.all fun v => decide (2 ≤ (p.vnode v).refCount)

/-- The file a section works on is live, and `dfs_file_open` finds it without a vnode, the later ones
with the vnode it got; a failing `open` gives the only reference to the vnode back, and the last
reference to a vnode is given back by the section of `dfs_file_close`, for the only descriptor. -/
def lifetimeOk (s : DfsState T F V) : DfsLabel T F V → Bool
  | .proceed t e =>
    match s.call t with
    | .fileOpen _ d _ => d ∈ s.dfs.live && decide ((s.dfs.file d).vnode = none)
    | .fopsOpen c d v => d ∈ s.dfs.live && decide ((s.dfs.file d).vnode = some v) &&
        (e.fopsOpen || c = .mount ||
          (decide ((s.dfs.vnode v).refCount = 1) && decide ((s.dfs.file d).refCount = 1)))
    | .closeTest _ d => d ∈ s.dfs.live
    | .closeSection c d => d ∈ s.dfs.live && (s.dfs.file d).vnode.any fun v =>
        if (s.dfs.vnode v).refCount = 1 then decide ((s.dfs.file d).refCount = 1)
        else decide (c ≠ .mount)
    | .openRelease fd => releaseOk s.dfs fd
    | .closeRelease fd _ => releaseOk s.dfs fd
    | .dup2Release _ newfd => releaseOk s.dfs newfd
    | _ => true
  | _ => true

theorem releaseOk_spec {p : Dfs F V} {fd : ℤ} (h : releaseOk p fd = true) :
    ∀ f v, p.slot fd = some f → (p.file f).refCount = 1 → (p.file f).vnode = some v →
      2 ≤ (p.vnode v).refCount := by
  intro f v hf hone hv
  simp only [releaseOk, hf, hv, hone, Option.all_some, ne_eq, not_true_eq_false, decide_false,
    Bool.false_or, decide_eq_true_eq] at h
  exact h

/-! ## The invariant -/

/-- The `dfs_file` on the stack of a `dfs_mount`. -/
def DfsCall.stackFile : DfsCall F V → Option F
  | .fileOpen .mount d _ => some d
  | .fopsOpen .mount d _ => some d
  | .closeTest .mount d => some d
  | .closeSection .mount d => some d
  | _ => none

/-- Every `dfs_file` on the stack belongs to one call. -/
structure StackOk (stack : Finset F) (call : T → DfsCall F V) : Prop where
  owner : ∀ f, f ∈ stack ↔ ∃ t, (call t).stackFile = some f
  unique : ∀ t u f, (call t).stackFile = some f → (call u).stackFile = some f → t = u

namespace StackOk

variable {stack : Finset F} {call : T → DfsCall F V} {t : T} {c : DfsCall F V}

theorem same (h : StackOk stack call) (hc : c.stackFile = (call t).stackFile) :
    StackOk stack (Function.update call t c) := by
  have he : ∀ u, (Function.update call t c u).stackFile = (call u).stackFile := by
    intro u
    by_cases hu : u = t
    · rw [hu, Function.update_self, hc]
    · rw [Function.update_of_ne hu]
  refine ⟨fun f => ?_, fun u w f => ?_⟩
  · rw [h.owner f]
    exact exists_congr fun u => by rw [he u]
  · rw [he u, he w]
    exact h.unique u w f

theorem enter (h : StackOk stack call) {f : F} (hf : f ∉ stack) (ht : (call t).stackFile = none)
    (hc : c.stackFile = some f) : StackOk (insert f stack) (Function.update call t c) := by
  have hne : ∀ u, (call u).stackFile = some f → False := fun u hu => hf ((h.owner f).mpr ⟨u, hu⟩)
  have ho : ∀ g, g ≠ f → ∀ u, (Function.update call t c u).stackFile = some g ↔
      (call u).stackFile = some g := by
    intro g hg u
    by_cases hu : u = t
    · rw [hu, Function.update_self, hc, ht]
      exact iff_of_false (fun he => hg (Option.some.inj he).symm) (fun he => by cases he)
    · rw [Function.update_of_ne hu]
  have hs : ∀ u, (Function.update call t c u).stackFile = some f → u = t := by
    intro u hu
    by_contra hut
    rw [Function.update_of_ne hut] at hu
    exact hne u hu
  refine ⟨fun g => ?_, fun u w g hu hw => ?_⟩
  · by_cases hg : g = f
    · rw [hg]
      exact iff_of_true (Finset.mem_insert_self f stack) ⟨t, by rw [Function.update_self, hc]⟩
    · rw [Finset.mem_insert, or_iff_right hg, h.owner g]
      exact exists_congr fun u => (ho g hg u).symm
  · by_cases hg : g = f
    · rw [hg] at hu hw
      rw [hs u hu, hs w hw]
    · exact h.unique u w g ((ho g hg u).mp hu) ((ho g hg w).mp hw)

theorem leave (h : StackOk stack call) {f : F} (ht : (call t).stackFile = some f)
    (hc : c.stackFile = none) : StackOk (stack.erase f) (Function.update call t c) := by
  have ho : ∀ g u, (Function.update call t c u).stackFile = some g ↔
      g ≠ f ∧ (call u).stackFile = some g := by
    intro g u
    by_cases hu : u = t
    · rw [hu, Function.update_self, hc, ht]
      exact iff_of_false (fun he => by cases he) fun he => he.1 (Option.some.inj he.2).symm
    · rw [Function.update_of_ne hu]
      refine ⟨fun hg => ⟨?_, hg⟩, And.right⟩
      rintro rfl
      exact hu (h.unique u t g hg ht)
  refine ⟨fun g => ?_, fun u w g hu hw => h.unique u w g ((ho g u).mp hu).2 ((ho g w).mp hw).2⟩
  rw [Finset.mem_erase, h.owner g]
  constructor
  · rintro ⟨hg, u, hu⟩
    exact ⟨u, (ho g u).mpr ⟨hg, hu⟩⟩
  · rintro ⟨u, hu⟩
    exact ⟨((ho g u).mp hu).1, u, ((ho g u).mp hu).2⟩

end StackOk

/-- The owner of `fdlock` is a `sys_dup2` between its sections, and finds its entries in the table. -/
def DupOk (p : Dfs F V) (fdlock : Option T) (t : T) : DfsCall F V → Prop
  | .closeTest (.dup2 o n) _ | .closeSection (.dup2 o n) _ | .dup2Release o n =>
    fdlock = some t ∧ o ≠ n ∧ o < p.maxfd ∧ n < p.maxfd ∧ p.fds o ≠ none
  | .dup2Share o n =>
    fdlock = some t ∧ o < p.maxfd ∧ n < p.maxfd ∧ p.fds o ≠ none ∧ p.fds n = none
  | _ => fdlock ≠ some t

theorem DupOk.frame {p p' : Dfs F V} {l l' : Option T} {u : T} {c : DfsCall F V} (h : DupOk p l u c)
    (hl : l' = some u ↔ l = some u)
    (ht : l = some u → p'.maxfd = p.maxfd ∧ p'.fds = p.fds) : DupOk p' l' u c := by
  by_cases hlu : l = some u
  · obtain ⟨hm, hf⟩ := ht hlu
    unfold DupOk at h ⊢
    split <;> simp_all
  · unfold DupOk at h ⊢
    split <;> simp_all

/-- The invariant of the runs. -/
structure DfsInv (s : DfsState T F V) : Prop where
  fault : s.fault = false
  wf : s.dfs.Wf
  stack : StackOk s.dfs.stack s.call
  dup : ∀ t, DupOk s.dfs s.fdlock t (s.call t)

theorem FreesUnshared.of_subset {p p' : Dfs F V} (h : p.vnodes ⊆ p'.vnodes) : FreesUnshared p p' :=
  fun _ hv hn => absurd (h hv) hn

/-- The one reference to a vnode is that of a file with at most one descriptor. -/
theorem Dfs.Wf.freesUnshared {p p' : Dfs F V} (hw : p.Wf) {d : F} {v : V} (hd : d ∈ p.live)
    (hv : (p.file d).vnode = some v) (hone : (p.vnode v).refCount = 1)
    (hfile : (p.file d).refCount = 1) (h : p'.vnodes = p.vnodes.erase v) : FreesUnshared p p' := by
  intro u hu hn i j f g hi hj hf hg
  have huv : u = v := by
    by_contra hne
    exact hn (h ▸ Finset.mem_erase.mpr ⟨hne, hu⟩)
  rw [huv] at hf hg
  have hfd := hw.vnodes.eq_of_one hone (Finset.mem_union_left _ (hw.mem_files hi)) hd hf hv
  have hgd := hw.vnodes.eq_of_one hone (Finset.mem_union_left _ (hw.mem_files hj)) hd hg hv
  rw [hfd] at hi
  rw [hgd] at hj
  obtain ⟨hi0, hil, hif⟩ := Dfs.slot_eq_some.mp hi
  obtain ⟨hj0, hjl, hjf⟩ := Dfs.slot_eq_some.mp hj
  have hij := hw.files.eq_of_one hfile (Finset.mem_range.mpr hil) (Finset.mem_range.mpr hjl) hif hjf
  omega

namespace DfsInv

variable {s s' : DfsState T F V} {t : T} {c : DfsCall F V} {p : Dfs F V}

/-- A step of a call. -/
theorem build (h : DfsInv s) (hf : s'.fault = false) (hcall : s'.call = Function.update s.call t c)
    (hw : s'.dfs.Wf) (hs : StackOk s'.dfs.stack s'.call)
    (hl : ∀ u, u ≠ t → (s'.fdlock = some u ↔ s.fdlock = some u) ∧
      (s.fdlock = some u → s'.dfs.maxfd = s.dfs.maxfd ∧ s'.dfs.fds = s.dfs.fds))
    (hd : DupOk s'.dfs s'.fdlock t c) : DfsInv s' := by
  refine ⟨hf, hw, hs, fun u => ?_⟩
  rw [hcall]
  by_cases hu : u = t
  · rw [hu, Function.update_self]
    exact hd
  · rw [Function.update_of_ne hu]
    exact (h.dup u).frame (hl u hu).1 (hl u hu).2

theorem go (h : DfsInv s) (hw : p.Wf) (hs : p.stack = s.dfs.stack)
    (hc : c.stackFile = (s.call t).stackFile)
    (hl : ∀ u, u ≠ t → s.fdlock = some u → p.maxfd = s.dfs.maxfd ∧ p.fds = s.dfs.fds)
    (hd : DupOk p s.fdlock t c) : DfsInv (s.go t p c) :=
  h.build h.fault rfl hw (show StackOk p.stack _ from hs ▸ h.stack.same hc)
    (fun u hu => ⟨Iff.rfl, hl u hu⟩) hd

theorem finish (h : DfsInv s) (hw : p.Wf) (hs : p.stack = s.dfs.stack)
    (hc : (s.call t).stackFile = none)
    (hl : ∀ u, u ≠ t → s.fdlock = some u → p.maxfd = s.dfs.maxfd ∧ p.fds = s.dfs.fds)
    (hd : s.fdlock ≠ some t) (r : ℤ) : DfsInv (s.finish t p r) :=
  h.build (c := .idle) h.fault rfl hw (show StackOk p.stack _ from hs ▸ h.stack.same hc.symm)
    (fun u hu => ⟨Iff.rfl, hl u hu⟩) hd

/-- The `sys_dup2` that owns `fdlock` returns. -/
theorem finishDup (h : DfsInv s) (hw : p.Wf) (hs : p.stack = s.dfs.stack)
    (hc : (s.call t).stackFile = none) (hd : s.fdlock = some t) (r : ℤ) :
    DfsInv { s.finish t p r with fdlock := none } := by
  refine h.build (t := t) (c := .idle) h.fault rfl hw
    (show StackOk p.stack _ from hs ▸ h.stack.same hc.symm) (fun u hu => ⟨?_, ?_⟩) ?_
  · exact iff_of_false (fun he => by cases he) fun he => hu (Option.some.inj (hd.symm.trans he)).symm
  · exact fun he => absurd (Option.some.inj (hd.symm.trans he)).symm hu
  · exact fun he => by cases he

theorem leaveMount (h : DfsInv s) {d : F} (ht : Dfs.SameTable s.dfs p)
    (hw : { p with stack := p.stack.erase d }.Wf) (hc : (s.call t).stackFile = some d)
    (hd : s.fdlock ≠ some t) (r : ℤ) : DfsInv (s.leaveMount t p d r) := by
  refine h.build (t := t) (c := .idle) h.fault rfl hw ?_
    (fun u _ => ⟨Iff.rfl, fun _ => ⟨ht.maxfd, ht.fds⟩⟩) hd
  show StackOk (p.stack.erase d) _
  rw [ht.stack]
  exact h.stack.leave hc rfl

theorem openError (h : DfsInv s) {a : Opener} {d : F} {path : List UInt8} (hw : p.Wf)
    (ht : Dfs.SameTable s.dfs p) (hn : (p.file d).vnode = none)
    (hc : (s.call t).stackFile = (DfsCall.fileOpen (V := V) a d path).stackFile)
    (hd : s.fdlock ≠ some t) : DfsInv (s.openError t p a d) := by
  cases a with
  | «open» fd => exact h.go hw ht.stack hc.symm (fun _ _ _ => ⟨ht.maxfd, ht.fds⟩) hd
  | mount => exact h.leaveMount ht (hw.leave hn) hc hd _

theorem openOk (h : DfsInv s) {a : Opener} {d : F} {path : List UInt8} (hw : p.Wf)
    (ht : Dfs.SameTable s.dfs p)
    (hc : (s.call t).stackFile = (DfsCall.fileOpen (V := V) a d path).stackFile)
    (hd : s.fdlock ≠ some t) : DfsInv (s.openOk t p a d) := by
  cases a with
  | «open» fd => exact h.finish hw ht.stack hc (fun _ _ _ => ⟨ht.maxfd, ht.fds⟩) hd _
  | mount => exact h.go hw ht.stack hc.symm (fun _ _ _ => ⟨ht.maxfd, ht.fds⟩) hd

theorem closed (h : DfsInv s) {a : Closer} {d : F} (hw : p.Wf) (ht : Dfs.SameTable s.dfs p)
    (hn : a = .mount → (p.file d).vnode = none)
    (hc : (s.call t).stackFile = (DfsCall.closeSection (V := V) a d).stackFile)
    (hd : DupOk s.dfs s.fdlock t (.closeSection a d)) (e : DfsAnswer V) (r : ℤ) :
    DfsInv (s.closed t p a d e r) := by
  cases a with
  | close fd => exact h.go hw ht.stack hc.symm (fun _ _ _ => ⟨ht.maxfd, ht.fds⟩) hd
  | mount => exact h.leaveMount ht (hw.leave (hn rfl)) hc hd _
  | dup2 o n =>
    show DfsInv (if r < 0 then { s.finish t p (-1) with fdlock := none }
      else s.go t p (.dup2Release o n))
    by_cases hr : r < 0
    · rw [if_pos hr]
      exact h.finishDup hw ht.stack hc hd.1 _
    · rw [if_neg hr]
      refine h.go hw ht.stack hc.symm (fun _ _ _ => ⟨ht.maxfd, ht.fds⟩) ?_
      exact hd.frame Iff.rfl fun _ => ⟨ht.maxfd, ht.fds⟩

/-- The sections of a call under `fdlock` leave every other call alone when no one owns it. -/
theorem free (h : s.fdlock = none) :
    ∀ u, u ≠ t → s.fdlock = some u → p.maxfd = s.dfs.maxfd ∧ p.fds = s.dfs.fds := by
  intro u _ hu
  rw [h] at hu
  cases hu

theorem releaseStep (h : DfsInv s) {fd : ℤ} (hok : releaseOk s.dfs fd = true)
    (hlock : s.fdlock = none) (hc : (s.call t).stackFile = none) (r : ℤ) :
    ∃ p, s.dfs.fdtFdRelease fd = some p ∧ DfsInv (s.finish t p r) ∧
      FreesUnshared s.dfs (s.finish t p r).dfs := by
  obtain ⟨p, hp, hw, -, hs, hv, -⟩ := h.wf.fdtFdRelease (releaseOk_spec hok)
  have hn : s.fdlock ≠ some t := by
    rw [hlock]
    exact fun he => by cases he
  exact ⟨p, hp, h.finish hw hs hc (free hlock) hn r, .of_subset hv.symm.subset⟩

/-- `dfs_file_open` after the `fops->open` of a vnode that was found. -/
theorem fopsOpenStep (h : DfsInv s) {a : Opener} {d : F} {v : V} {e : DfsAnswer V}
    (hcall : s.call t = .fopsOpen a d v) (hd : d ∈ s.dfs.live)
    (hv : (s.dfs.file d).vnode = some v) (hok : e.fopsOpen = true ∨ a = .mount ∨
      (s.dfs.vnode v).refCount = 1 ∧ (s.dfs.file d).refCount = 1) :
    ∃ s', s.proceed t e = some s' ∧ DfsInv s' ∧ FreesUnshared s.dfs s'.dfs := by
  have hlive := h.wf.vnodes.mem d hd v hv
  have hlock : s.fdlock ≠ some t := by
    have := h.dup t
    rw [hcall] at this
    exact this
  have hc : (s.call t).stackFile = (DfsCall.fileOpen (V := V) a d []).stackFile := by
    rw [hcall]
    cases a <;> rfl
  simp only [DfsState.proceed, hcall, hd, hlive, not_true_eq_false, or_self, if_false]
  by_cases hf : e.fopsOpen = true
  · rw [if_pos hf]
    refine ⟨_, rfl, h.openOk h.wf .refl hc hlock, .of_subset ?_⟩
    cases a <;> exact Finset.Subset.refl _
  rw [if_neg hf]
  by_cases hone : (s.dfs.vnode v).refCount = 1
  · obtain ⟨p, hp, hw, ht, hn, hvn⟩ := h.wf.openFailed hd hv hone
    simp only [hp]
    have hfile : (s.dfs.file d).refCount = 1 := by
      rcases hok with he | he | he
      · exact absurd he hf
      · rw [he] at hc
        exact h.wf.stackCount d ((h.stack.owner d).mpr ⟨t, hc⟩)
      · exact he.2
    refine ⟨_, rfl, h.openError hw ht hn hc hlock, h.wf.freesUnshared hd hv hone hfile ?_⟩
    cases a <;> exact hvn
  · have ha : a = .mount := by
      rcases hok with he | he | he
      · exact absurd he hf
      · exact he
      · exact absurd he.1 hone
    subst ha
    have hstack : d ∈ s.dfs.stack := (h.stack.owner d).mpr ⟨t, hc⟩
    have hpos : 0 < (s.dfs.vnode v).refCount := h.wf.vnodes.pos v hlive
    obtain ⟨p, hp, ht, hvn, hw⟩ := h.wf.leaveFailed hstack hv (by omega)
    simp only [hp]
    exact ⟨_, rfl, h.leaveMount ht hw hc hlock _, .of_subset hvn.symm.subset⟩

/-- The section of `dfs_file_close`. -/
theorem closeStep (h : DfsInv s) {a : Closer} {d : F} {v : V} {e : DfsAnswer V}
    (hcall : s.call t = .closeSection a d) (hd : d ∈ s.dfs.live)
    (hv : (s.dfs.file d).vnode = some v)
    (hok : if (s.dfs.vnode v).refCount = 1 then (s.dfs.file d).refCount = 1 else a ≠ .mount) :
    ∃ s', s.proceed t e = some s' ∧ DfsInv s' ∧ FreesUnshared s.dfs s'.dfs := by
  obtain ⟨p, r, hp, hw, ht, hone, hmany⟩ := h.wf.dfsFileClose e hd hv
  have hdup := h.dup t
  rw [hcall] at hdup
  have hdfs : (s.closed t p a d e r).dfs.vnodes = p.vnodes := by
    cases a with
    | close fd => rfl
    | mount => rfl
    | dup2 o n =>
      show (if r < 0 then _ else _ : DfsState T F V).dfs.vnodes = _
      split_ifs <;> rfl
  simp only [DfsState.proceed, hcall, hp]
  refine ⟨_, rfl, h.closed hw ht ?_ (by rw [hcall]) hdup e r, ?_⟩
  · intro ha
    by_cases h1 : (s.dfs.vnode v).refCount = 1
    · exact (hone h1).1
    · rw [if_neg h1] at hok
      exact absurd ha hok
  · by_cases h1 : (s.dfs.vnode v).refCount = 1
    · rw [if_pos h1] at hok
      exact h.wf.freesUnshared hd hv h1 hok (hdfs.trans (hone h1).2)
    · exact .of_subset (hdfs.trans (hmany h1)).symm.subset

/-- A step of a call that is in progress. -/
theorem proceed (h : DfsInv s) {e : DfsAnswer V} (hok : lifetimeOk s (.proceed t e) = true)
    (he : ∀ v ∈ e.calloc, v ∉ s.dfs.vnodes) (hst : s.proceed t e = some s') :
    DfsInv s' ∧ FreesUnshared s.dfs s'.dfs := by
  have hdup := h.dup t
  cases hcall : s.call t with
  | idle =>
    rw [DfsState.proceed, hcall] at hst
    cases hst
  | fdGet fd path =>
    rw [hcall] at hdup
    simp only [DfsState.proceed, hcall] at hst
    by_cases hlock : s.fdlock = none
    · rw [if_neg (not_not.mpr hlock)] at hst
      cases hs : s.dfs.slot fd with
      | none =>
        rw [hs] at hst
        cases hst
        exact ⟨h.go h.wf rfl (by rw [hcall]; rfl) (free hlock) hdup, .of_subset (Finset.Subset.refl _)⟩
      | some d =>
        rw [hs] at hst
        cases hst
        exact ⟨h.go h.wf rfl (by rw [hcall]; rfl) (free hlock) hdup, .of_subset (Finset.Subset.refl _)⟩
    · rw [if_pos hlock] at hst
      cases hst
  | fileOpen a d path =>
    rw [hcall] at hdup
    simp only [lifetimeOk, hcall, Bool.and_eq_true, decide_eq_true_eq] at hok
    obtain ⟨p, r, hp, hw, ht, hsub, hn⟩ := h.wf.dfsFileOpen path hok.1 hok.2 he
    simp only [DfsState.proceed, hcall, hp] at hst
    have hc : (s.call t).stackFile = (DfsCall.fileOpen (V := V) a d path).stackFile := by rw [hcall]
    cases r with
    | found v =>
      cases hst
      refine ⟨h.go hw ht.stack ?_ (fun _ _ _ => ⟨ht.maxfd, ht.fds⟩) hdup, .of_subset hsub⟩
      rw [hc]
      cases a <;> rfl
    | opened =>
      cases hst
      refine ⟨h.openOk hw ht hc hdup, .of_subset ?_⟩
      cases a <;> exact hsub
    | error =>
      cases hst
      refine ⟨h.openError hw ht (hn rfl) hc hdup, .of_subset ?_⟩
      cases a <;> exact hsub
  | fopsOpen a d v =>
    simp only [lifetimeOk, hcall, Bool.and_eq_true, Bool.or_eq_true, decide_eq_true_eq, or_assoc]
      at hok
    obtain ⟨s₁, hs₁, h₁⟩ := h.fopsOpenStep hcall hok.1.1 hok.1.2 hok.2
    cases hs₁.symm.trans hst
    exact h₁
  | openRelease fd =>
    simp only [lifetimeOk, hcall] at hok
    simp only [DfsState.proceed, hcall] at hst
    by_cases hlock : s.fdlock = none
    · obtain ⟨p, hp, h₁⟩ := h.releaseStep (t := t) hok hlock (by rw [hcall]; rfl) (-1)
      rw [if_neg (not_not.mpr hlock), hp] at hst
      cases hst
      exact h₁
    · rw [if_pos hlock] at hst
      cases hst
  | closeTest a d =>
    rw [hcall] at hdup
    simp only [lifetimeOk, hcall, decide_eq_true_eq] at hok
    simp only [DfsState.proceed, hcall, hok, not_true_eq_false, if_false] at hst
    by_cases h1 : (s.dfs.file d).refCount = 1
    · rw [if_pos h1] at hst
      cases hst
      refine ⟨h.go h.wf rfl ?_ (fun _ _ _ => ⟨rfl, rfl⟩) ?_, .of_subset (Finset.Subset.refl _)⟩
      · rw [hcall]
        cases a <;> rfl
      · cases a <;> exact hdup
    · rw [if_neg h1] at hst
      cases hst
      have hc : (s.call t).stackFile = (DfsCall.closeSection (V := V) a d).stackFile := by
        rw [hcall]
        cases a <;> rfl
      refine ⟨h.closed h.wf .refl ?_ hc (by cases a <;> exact hdup) e 0, .of_subset ?_⟩
      · rintro rfl
        exact absurd (h.wf.stackCount d ((h.stack.owner d).mpr ⟨t, hc⟩)) h1
      · cases a <;> exact Finset.Subset.refl _
  | closeSection a d =>
    simp only [lifetimeOk, hcall, Bool.and_eq_true, Option.any_eq_true, decide_eq_true_eq] at hok
    obtain ⟨hd, v, hv, hcond⟩ := hok
    obtain ⟨s₁, hs₁, h₁⟩ := h.closeStep (e := e) hcall hd hv (by split_ifs at hcond ⊢ <;> simpa using hcond)
    cases hs₁.symm.trans hst
    exact h₁
  | closeRelease fd result =>
    simp only [lifetimeOk, hcall] at hok
    simp only [DfsState.proceed, hcall] at hst
    by_cases hlock : s.fdlock = none
    · obtain ⟨p, hp, h₁⟩ := h.releaseStep (t := t) hok hlock (by rw [hcall]; rfl)
        (if result < 0 then -1 else 0)
      rw [if_neg (not_not.mpr hlock), hp] at hst
      cases hst
      exact h₁
    · rw [if_pos hlock] at hst
      cases hst
  | dup2Release o n =>
    rw [hcall] at hdup
    obtain ⟨hlock, hon, ho, hn, hfo⟩ := hdup
    simp only [lifetimeOk, hcall] at hok
    obtain ⟨p, hp, hw, hm, hs, hv, hfds, hnone⟩ := h.wf.fdtFdRelease (releaseOk_spec hok)
    simp only [DfsState.proceed, hcall, hp] at hst
    cases hst
    refine ⟨h.go hw hs (by rw [hcall]; rfl) ?_ ?_, .of_subset hv.symm.subset⟩
    · exact fun u hu hlu => absurd (Option.some.inj (hlock.symm.trans hlu)).symm hu
    · refine ⟨hlock, by rw [hm]; exact ho, by rw [hm]; exact hn, ?_, hnone n hn rfl⟩
      rw [hfds o (by exact_mod_cast hon)]
      exact hfo
  | dup2Share o n =>
    rw [hcall] at hdup
    obtain ⟨hlock, ho, hn, hfo, hfn⟩ := hdup
    obtain ⟨p, hp, hw, hs, hv⟩ := h.wf.share ho hfo hn hfn
    simp only [DfsState.proceed, hcall, hp] at hst
    cases hst
    exact ⟨h.finishDup hw hs (by rw [hcall]; rfl) hlock _, .of_subset hv.symm.subset⟩

/-- `sys_dup`. -/
theorem sysDup (h : DfsInv s) (hcall : s.call t = .idle) (hlock : s.fdlock = none) (oldfd : ℤ)
    (realloc : Bool) :
    DfsInv (s.sysDup t oldfd realloc) ∧ FreesUnshared s.dfs (s.sysDup t oldfd realloc).dfs := by
  have hc : (s.call t).stackFile = none := by rw [hcall]; rfl
  have hn : s.fdlock ≠ some t := by
    rw [hlock]
    exact fun he => by cases he
  have hstay := h.finish h.wf rfl hc (free hlock) hn (-1)
  unfold DfsState.sysDup
  cases hs : s.dfs.slot oldfd with
  | none => exact ⟨hstay, .of_subset (Finset.Subset.refl _)⟩
  | some f =>
    obtain ⟨h0, hlt, hf⟩ := Dfs.slot_eq_some.mp hs
    cases ha : s.dfs.fdSlotAlloc stdioOffset realloc with
    | none => exact ⟨hstay, .of_subset (Finset.Subset.refl _)⟩
    | some x =>
      obtain ⟨newfd, q⟩ := x
      obtain ⟨hq, hg, hnew, hnone⟩ := h.wf.slotAlloc ha
      have hold : q.fds oldfd.toNat ≠ none := by
        rw [hg.fds _ hlt, hf]
        exact fun he => by cases he
      obtain ⟨p, hp, hw, hs', hv⟩ := hq.share (lt_of_lt_of_le hlt hg.maxfd) hold hnew hnone
      simp only [hp]
      refine ⟨h.finish hw (hs'.trans hg.stack) hc (free hlock) hn _, .of_subset ?_⟩
      exact (hv.trans hg.vnodes).symm.subset

/-- `sys_dup2` up to `dfs_file_close`. -/
theorem sysDup2 (h : DfsInv s) (hcall : s.call t = .idle) (hlock : s.fdlock = none)
    (oldfd newfd : ℤ) (realloc : Bool) :
    DfsInv (s.sysDup2 t oldfd newfd realloc) ∧
      FreesUnshared s.dfs (s.sysDup2 t oldfd newfd realloc).dfs := by
  have hc : (s.call t).stackFile = none := by rw [hcall]; rfl
  have hn : s.fdlock ≠ some t := by
    rw [hlock]
    exact fun he => by cases he
  have hstay := h.finish h.wf rfl hc (free hlock) hn (-1)
  unfold DfsState.sysDup2
  cases hs : s.dfs.slot oldfd with
  | none => exact ⟨hstay, .of_subset (Finset.Subset.refl _)⟩
  | some f =>
    obtain ⟨h0, hlt, hf⟩ := Dfs.slot_eq_some.mp hs
    by_cases hneg : newfd < 0
    · simp only [if_pos hneg]
      exact ⟨hstay, .of_subset (Finset.Subset.refl _)⟩
    simp only [if_neg hneg]
    cases ha : s.dfs.fdSlotExpand newfd.toNat realloc with
    | none => exact ⟨hstay, .of_subset (Finset.Subset.refl _)⟩
    | some q =>
      obtain ⟨hq, hg, hnew, -⟩ := h.wf.expand ha
      have hqf : q.fds oldfd.toNat = some f := by rw [hg.fds _ hlt, hf]
      have hold : q.fds oldfd.toNat ≠ none := by
        rw [hqf]
        exact fun he => by cases he
      have hlt' := lt_of_lt_of_le hlt hg.maxfd
      by_cases hsame : q.fds newfd.toNat = some f
      · simp only [if_pos hsame]
        exact ⟨h.finish hq hg.stack hc (free hlock) hn _, .of_subset hg.vnodes.symm.subset⟩
      simp only [if_neg hsame]
      cases hd : q.fds newfd.toNat with
      | none =>
        obtain ⟨p, hp, hw, hs', hv⟩ := hq.share hlt' hold hnew hd
        simp only [hp]
        refine ⟨h.finish hw (hs'.trans hg.stack) hc (free hlock) hn _, .of_subset ?_⟩
        exact (hv.trans hg.vnodes).symm.subset
      | some d =>
        have hon : oldfd.toNat ≠ newfd.toNat := by
          intro he
          exact hsame (he ▸ hqf)
        refine ⟨?_, .of_subset hg.vnodes.symm.subset⟩
        refine h.build (t := t) (c := .closeTest (.dup2 oldfd.toNat newfd.toNat) d) h.fault rfl hq
          ?_ (fun u hu => ⟨?_, fun he => ?_⟩) ⟨rfl, hon, hlt', hnew, hold⟩
        · show StackOk q.stack _
          rw [hg.stack]
          exact h.stack.same hc.symm
        · rw [hlock]
          exact iff_of_false (fun he => hu (Option.some.inj he).symm) (fun he => by cases he)
        · rw [hlock] at he
          cases he

end DfsInv

/-- **What a step keeps.** -/
theorem dfsStep_inv {s s' : DfsState T F V} (h : DfsInv s) {a : DfsLabel T F V}
    (hok : lifetimeOk s a = true) (hst : dfsStep s a = some s') :
    DfsInv s' ∧ FreesUnshared s.dfs s'.dfs := by
  cases a with
  | «open» t path realloc calloc =>
    simp only [dfsStep] at hst
    by_cases hcond : s.call t ≠ .idle ∨ s.fdlock ≠ none ∨ calloc.any (· ∈ s.dfs.live)
    · rw [if_pos hcond] at hst
      cases hst
    rw [if_neg hcond] at hst
    simp only [not_or, not_not, Bool.not_eq_true, Option.any_eq_false] at hcond
    obtain ⟨hcall, hlock, hfresh⟩ := hcond
    cases ha : s.dfs.fdAlloc stdioOffset realloc calloc with
    | mk r p =>
      obtain ⟨hw, hs, hv⟩ := h.wf.alloc (fun f hf => by simpa using hfresh f hf) ha
      have hc : (s.call t).stackFile = none := by rw [hcall]; rfl
      have hn : s.fdlock ≠ some t := by
        rw [hlock]
        exact fun he => by cases he
      rw [ha] at hst
      cases r with
      | none =>
        cases hst
        exact ⟨h.finish hw hs hc (DfsInv.free hlock) hn _, .of_subset hv.symm.subset⟩
      | some fd =>
        cases hst
        exact ⟨h.go hw hs hc.symm (DfsInv.free hlock) hn, .of_subset hv.symm.subset⟩
  | close t fd =>
    simp only [dfsStep] at hst
    by_cases hcond : s.call t ≠ .idle ∨ s.fdlock ≠ none
    · rw [if_pos hcond] at hst
      cases hst
    rw [if_neg hcond] at hst
    simp only [not_or, not_not] at hcond
    obtain ⟨hcall, hlock⟩ := hcond
    have hc : (s.call t).stackFile = none := by rw [hcall]; rfl
    have hn : s.fdlock ≠ some t := by
      rw [hlock]
      exact fun he => by cases he
    cases hs : s.dfs.slot fd with
    | none =>
      rw [hs] at hst
      cases hst
      exact ⟨h.finish h.wf rfl hc (DfsInv.free hlock) hn _, .of_subset (Finset.Subset.refl _)⟩
    | some d =>
      rw [hs] at hst
      cases hst
      exact ⟨h.go h.wf rfl hc.symm (DfsInv.free hlock) hn, .of_subset (Finset.Subset.refl _)⟩
  | mount t path d =>
    simp only [dfsStep] at hst
    by_cases hcond : s.call t ≠ .idle ∨ d ∈ s.dfs.live
    · rw [if_pos hcond] at hst
      cases hst
    rw [if_neg hcond] at hst
    simp only [not_or, not_not] at hcond
    obtain ⟨hcall, hd⟩ := hcond
    have hc : (s.call t).stackFile = none := by rw [hcall]; rfl
    have hdup := h.dup t
    rw [hcall] at hdup
    cases hst
    refine ⟨h.build (t := t) (c := .fileOpen .mount d path) h.fault rfl (h.wf.enter hd) ?_
      (fun u _ => ⟨Iff.rfl, fun _ => ⟨rfl, rfl⟩⟩) hdup, .of_subset (Finset.Subset.refl _)⟩
    exact h.stack.enter (fun hs => hd (Finset.mem_union_right _ hs)) hc rfl
  | dup t oldfd realloc =>
    simp only [dfsStep] at hst
    by_cases hcond : s.call t ≠ .idle ∨ s.fdlock ≠ none
    · rw [if_pos hcond] at hst
      cases hst
    rw [if_neg hcond] at hst
    simp only [not_or, not_not] at hcond
    cases hst
    exact h.sysDup hcond.1 hcond.2 oldfd realloc
  | dup2 t oldfd newfd realloc =>
    simp only [dfsStep] at hst
    by_cases hcond : s.call t ≠ .idle ∨ s.fdlock ≠ none
    · rw [if_pos hcond] at hst
      cases hst
    rw [if_neg hcond] at hst
    simp only [not_or, not_not] at hcond
    cases hst
    exact h.sysDup2 hcond.1 hcond.2 oldfd newfd realloc
  | proceed t e =>
    simp only [dfsStep] at hst
    by_cases hcond : e.calloc.any (· ∈ s.dfs.vnodes) = true
    · rw [if_pos hcond] at hst
      cases hst
    rw [if_neg hcond] at hst
    simp only [Bool.not_eq_true, Option.any_eq_false] at hcond
    exact h.proceed hok (fun v hv => by simpa using hcond v hv) hst

theorem DfsInit.inv {s : DfsState T F V} (h : DfsInit s) : DfsInv s := by
  have hempty : s.dfs.live = ∅ := by rw [Dfs.live, h.files, h.stack, Finset.empty_union]
  refine ⟨h.fault, ⟨?_, ?_, ?_, ?_, ?_, ?_⟩, ⟨?_, ?_⟩, ?_⟩
  · exact fun f hf => absurd (h.stack ▸ hf) (Finset.notMem_empty f)
  · exact fun f hf => absurd (h.stack ▸ hf) (Finset.notMem_empty f)
  · rw [h.maxfd, h.files]
    exact Counted.empty
  · rw [hempty, h.vnodes]
    exact Counted.empty
  · intro b v
    rw [h.head, h.vnodes]
    exact iff_of_false List.not_mem_nil fun hv => Finset.notMem_empty v hv.1
  · intro b
    rw [h.head]
    exact List.nodup_nil
  · intro f
    rw [h.stack]
    refine iff_of_false (Finset.notMem_empty f) ?_
    rintro ⟨t, ht⟩
    rw [h.call t] at ht
    cases ht
  · intro t u f ht
    rw [h.call t] at ht
    cases ht
  · intro t
    rw [h.call t, h.fdlock]
    exact fun he => by cases he

theorem DfsInv.lifetime {s : DfsState T F V} (h : DfsInv s) : Lifetime s := by
  refine ⟨fun hidle v hv => ?_, fun _ => h.wf.hash, fun _ => h.wf.nodup,
    fun fd f hf => h.wf.mem_files hf, fun fd f v hf hv => ?_, h.fault⟩
  · have hstack : s.dfs.stack = ∅ := by
      refine Finset.eq_empty_of_forall_notMem fun f hf => ?_
      obtain ⟨t, ht⟩ := (h.stack.owner f).mp hf
      rw [hidle t] at ht
      cases ht
    have hc := h.wf.vnodes.eq v hv
    rw [Dfs.live, hstack, Finset.union_empty] at hc
    exact hc
  · exact h.wf.vnodes.mem f (Finset.mem_union_left _ (h.wf.mem_files hf)) v hv

/-- **The lifetime of files and vnodes.** In every run whose steps meet the condition the property
holds in every state, and no step frees a vnode that two descriptors refer to. -/
theorem dfs_lifetime {s : DfsState T F V} (hs : (dfsSystem T F V).Reach lifetimeOk s) :
    Lifetime s ∧ ∀ a s', lifetimeOk s a = true → dfsStep s a = some s' →
      FreesUnshared s.dfs s'.dfs := by
  have hinv : DfsInv s := hs.invariant (I := DfsInv) (fun _ h => DfsInit.inv h)
    fun _ _ _ h hok hst => (dfsStep_inv h hok hst).1
  exact ⟨hinv.lifetime, fun _ _ hok hst => (dfsStep_inv hinv hok hst).2⟩

/-! ## Runs -/

/-- Two threads after `dfs_init`. -/
def dfsStart : DfsState (Fin 2) (Fin 2) (Fin 2) where
  dfs :=
    { maxfd := 0
      fds := fun _ => none
      files := ∅
      stack := ∅
      file := fun _ => ⟨0, none⟩
      vnodes := ∅
      vnode := fun _ => ⟨0, []⟩
      head := fun _ => [] }
  fdlock := none
  fault := false
  call := fun _ => .idle
  ret := fun _ => 0

theorem dfsStart_init : DfsInit dfsStart :=
  ⟨rfl, rfl, rfl, rfl, fun _ => rfl, rfl, rfl, fun _ => rfl⟩

/-- Two threads open `/a`, one of them shares its descriptor over that of the other one, and no call is
left. -/
theorem dfs_lifetime_dup2 : ∃ s : DfsState (Fin 2) (Fin 2) (Fin 2),
    (dfsSystem (Fin 2) (Fin 2) (Fin 2)).Reach lifetimeOk s ∧
      ((∀ t, s.call t = .idle) ∧ s.dfs.slot 3 = some 0 ∧ s.dfs.slot 4 = some 0 ∧
        s.dfs.vnodes = {1}) ∧ Lifetime s := by
  obtain ⟨s, hs, hp⟩ := System.exists_reach (dfsSystem (Fin 2) (Fin 2) (Fin 2)) lifetimeOk
    (fun s => decide ((∀ t, s.call t = .idle) ∧ s.dfs.slot 3 = some 0 ∧ s.dfs.slot 4 = some 0 ∧
      s.dfs.vnodes = {1})) dfsStart_init
    [.open 0 [47, 97] true (some 0), .open 1 [47, 97] true (some 1), .proceed 1 {}, .proceed 0 {},
      .proceed 1 { calloc := some 1 }, .proceed 0 {}, .proceed 0 {}, .dup2 1 3 4 true, .proceed 1 {},
      .proceed 1 {}, .proceed 1 {}, .proceed 1 {}] (by decide)
  exact ⟨s, hs, of_decide_eq_true hp, (dfs_lifetime hs).1⟩

/-- **A failing `open` frees the vnode of another descriptor**: `/a` is open at descriptor 3 when the
file system refuses to open it again. -/
theorem dfs_openFailed : ¬ ∀ s : DfsState (Fin 2) (Fin 2) (Fin 2),
    (dfsSystem (Fin 2) (Fin 2) (Fin 2)).Reach System.anyStep s → Lifetime s := by
  intro h
  obtain ⟨s, hs, hp⟩ := System.exists_reach (dfsSystem (Fin 2) (Fin 2) (Fin 2)) System.anyStep
    (fun s => decide (s.dfs.slot 3 = some 0 ∧ (s.dfs.file 0).vnode = some 0 ∧ 0 ∉ s.dfs.vnodes))
    dfsStart_init
    [.open 0 [47, 97] true (some 0), .proceed 0 {}, .proceed 0 { calloc := some 0 },
      .open 0 [47, 97] true (some 1), .proceed 0 {}, .proceed 0 {}, .proceed 0 { fopsOpen := false },
      .proceed 0 {}] (by decide)
  obtain ⟨hslot, hv, hn⟩ := of_decide_eq_true hp
  exact hn ((h s hs).vnode 3 0 0 hslot hv)

end

end RtThread
