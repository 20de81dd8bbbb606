import RtThread.Dfs.Tmpfs
import RtThread.Lib.RootedTree

/-!
# The tree of tmpfs

* `slashed`, `Tmpfs.walk`: a path as the list of its components, and the node that they lead to;
* **`lookup_separate`**: a path that `_path_separate` takes apart leads where the file name leads from
  the parent;
* `TmpfsTree`: the nodes are a tree, only directories have children, and siblings have distinct names;
* `create_tree`, `unlink_tree`, `rename_tree`: what the operations link and unlink keeps it;
* **`tmpfs_tree`**: in every run in which files are created in directories, leaves other than the root
  are unlinked, and no node is moved below itself, the nodes are a tree.
-/

set_option linter.unusedSectionVars false

namespace RtThread

open Relation

/-! ## Paths and components -/

/-- A component of a path. -/
def IsWord (c : List Char) : Prop := c ≠ [] ∧ '/' ∉ c

/-- The path with the components. -/
def slashed (cs : List (List Char)) : List Char := cs.flatMap fun c => '/' :: c

@[simp] theorem slashed_nil : slashed [] = [] := rfl

@[simp] theorem slashed_cons {c : List Char} {cs : List (List Char)} :
    slashed (c :: cs) = '/' :: (c ++ slashed cs) := rfl

theorem slashed_append {cs cs' : List (List Char)} : slashed (cs ++ cs') = slashed cs ++ slashed cs' :=
  List.flatMap_append

theorem getSubdir_word {c rest : List Char} (hc : IsWord c) (hrest : ∀ a ∈ rest.head?, a = '/') :
    getSubdir (c ++ rest) = c := by
  obtain ⟨a, c, rfl⟩ := List.exists_cons_of_ne_nil hc.1
  have ha : a ≠ '/' := fun he => hc.2 (he ▸ List.mem_cons_self)
  have hall : ∀ b ∈ a :: c, decide (b ≠ '/') = true := by
    intro b hb
    exact decide_eq_true fun he => hc.2 (he ▸ hb)
  unfold getSubdir
  rw [List.cons_append, List.dropWhile_cons_of_neg (by simpa using ha), ← List.cons_append,
    List.takeWhile_append_of_pos hall]
  cases rest with
  | nil => simp
  | cons b rest => simp [hrest b rfl]

/-- **What `_path_separate` takes apart.** -/
theorem separateFrom_spec {parent name rest pp nm : List Char} (hname : '/' ∉ name)
    (h : separateFrom parent name rest = some (some (pp, nm))) :
    ∃ cs, (∀ c ∈ cs, IsWord c) ∧ IsWord nm ∧ nm.length < tmpfsNameMax ∧
      '/' :: (name ++ rest) = slashed (cs ++ [nm]) ∧
      pp = if parent ++ slashed cs = [] then ['/'] else parent ++ slashed cs := by
  induction rest generalizing parent name with
  | nil =>
    rw [separateFrom] at h
    by_cases hnil : name = []
    · rw [if_pos hnil] at h
      cases h
    · rw [if_neg hnil] at h
      by_cases hlen : parent.length < dfsPathMax ∧ name.length < tmpfsNameMax
      · rw [if_pos hlen] at h
        cases h
        refine ⟨[], List.forall_mem_nil _, ⟨hnil, hname⟩, hlen.2, by simp, by simp⟩
      · rw [if_neg hlen] at h
        cases h
  | cons c rest ih =>
    rw [separateFrom] at h
    by_cases hc : c = '/'
    · rw [if_pos hc] at h
      by_cases hnil : name = []
      · rw [if_pos hnil] at h
        cases h
      · rw [if_neg hnil] at h
        obtain ⟨cs, hcs, hnm, hlen, hpath, hpp⟩ := ih (List.not_mem_nil) h
        refine ⟨name :: cs, fun w hw => ?_, hnm, hlen, ?_, ?_⟩
        · cases List.mem_cons.mp hw with
          | inl hw => exact hw ▸ ⟨hnil, hname⟩
          | inr hw => exact hcs w hw
        · rw [List.cons_append, slashed_cons, ← hpath, hc, List.nil_append]
        · rw [hpp, slashed_cons, List.append_assoc, List.cons_append]
    · rw [if_neg hc] at h
      have hword : '/' ∉ name ++ [c] := by simp [hname, Ne.symm hc]
      obtain ⟨cs, hcs, hnm, hlen, hpath, hpp⟩ := ih hword h
      refine ⟨cs, hcs, hnm, hlen, ?_, hpp⟩
      rw [← hpath, List.append_assoc, List.singleton_append]

namespace Tmpfs

variable {α : Type} [DecidableEq α] {s s' : Tmpfs α} {d f p x : α} {c curpath name path pp nm : List Char}
  {cs : List (List Char)}

variable (s) in
/-- The node that the components lead to. -/
def walk (d : α) : List (List Char) → Option (Option α)
  | [] => some (some d)
  | c :: cs =>
    if c.length ≤ tmpfsNameMax then
      match s.child d c with
      | none => some none
      | some f => walk f cs
    else none

theorem lookupFrom_skip {w rest : List Char} (hw : '/' ∉ w) :
    s.lookupFrom d curpath (w ++ rest) = s.lookupFrom d curpath rest := by
  induction w with
  | nil => rfl
  | cons a w ih =>
    rw [List.mem_cons, not_or] at hw
    rw [List.cons_append, lookupFrom, if_neg (Ne.symm hw.1), ih hw.2]

theorem lookupFrom_slashed (hc : IsWord c) (hcs : ∀ c ∈ cs, IsWord c) :
    s.lookupFrom d (c ++ slashed cs) (c ++ slashed cs) = s.walk d (c :: cs) := by
  induction cs generalizing d c with
  | nil =>
    have hget : getSubdir c = c := by
      have hget : getSubdir (c ++ []) = c := getSubdir_word hc fun _ h => nomatch h
      rwa [List.append_nil] at hget
    rw [lookupFrom_skip hc.2, slashed_nil, List.append_nil, lookupFrom, hget, walk]
    cases s.child d c with
    | none => rfl
    | some f => rfl
  | cons c' cs ih =>
    have hget : getSubdir (c ++ '/' :: (c' ++ slashed cs)) = c :=
      getSubdir_word hc fun a ha => (Option.some.inj ha).symm
    rw [lookupFrom_skip hc.2, slashed_cons, lookupFrom, if_pos rfl, hget, walk]
    cases s.child d c with
    | none => rfl
    | some f =>
      dsimp only
      rw [ih (hcs c' List.mem_cons_self) fun w hw => hcs w (List.mem_cons_of_mem _ hw)]

theorem lookup_slashed (hcs : ∀ c ∈ cs, IsWord c) : s.lookup (slashed cs) = s.walk s.root cs := by
  cases cs with
  | nil => rfl
  | cons c cs =>
    have hc : IsWord c := hcs c List.mem_cons_self
    rw [← lookupFrom_slashed hc fun w hw => hcs w (List.mem_cons_of_mem _ hw)]
    obtain ⟨a, c, rfl⟩ := List.exists_cons_of_ne_nil hc.1
    have ha : a ≠ '/' := fun he => hc.2 (he ▸ List.mem_cons_self)
    unfold lookup
    rw [slashed_cons, List.dropWhile_cons_of_pos (by simp), List.cons_append,
      List.dropWhile_cons_of_neg (by simpa using ha)]

theorem walk_concat (hp : s.walk d cs = some (some p)) (hnm : nm.length ≤ tmpfsNameMax) :
    s.walk d (cs ++ [nm]) = some (s.child p nm) := by
  induction cs generalizing d with
  | nil =>
    cases hp
    rw [List.nil_append, walk, if_pos hnm]
    cases s.child p nm with
    | none => rfl
    | some f => rfl
  | cons c cs ih =>
    rw [walk] at hp
    rw [List.cons_append, walk]
    by_cases hc : c.length ≤ tmpfsNameMax
    · rw [if_pos hc] at hp ⊢
      cases hch : s.child d c with
      | none =>
        rw [hch] at hp
        cases hp
      | some f =>
        rw [hch] at hp
        exact ih hp
    · rw [if_neg hc] at hp
      cases hp

/-- **What `_path_separate` takes apart**: a path of components, into its parent and the last one. -/
theorem separate_spec (h : pathSeparate path = some (some (pp, nm))) :
    ∃ cs, (∀ c ∈ cs ++ [nm], IsWord c) ∧ nm.length < tmpfsNameMax ∧ path = slashed (cs ++ [nm]) ∧
      pp = if slashed cs = [] then ['/'] else slashed cs := by
  cases path with
  | nil => cases h
  | cons a rest =>
    rw [pathSeparate] at h
    by_cases ha : a = '/'
    · rw [if_pos ha] at h
      obtain ⟨cs, hcs, hnm, hlen, hpath, hpp⟩ := separateFrom_spec List.not_mem_nil h
      rw [List.nil_append] at hpath hpp
      refine ⟨cs, fun w hw => ?_, hlen, by rw [ha, hpath], hpp⟩
      cases List.mem_append.mp hw with
      | inl hw => exact hcs w hw
      | inr hw => exact List.mem_singleton.mp hw ▸ hnm
    · rw [if_neg ha] at h
      cases h

/-- The parent path leads where the components in front of the last one lead. -/
theorem lookup_parent (hcs : ∀ c ∈ cs, IsWord c)
    (hpp : pp = if slashed cs = [] then ['/'] else slashed cs) :
    s.lookup pp = s.walk s.root cs := by
  rw [← lookup_slashed hcs, hpp]
  by_cases hnil : slashed cs = []
  · rw [if_pos hnil, hnil]
    rfl
  · rw [if_neg hnil]

/-- **A path leads where its file name leads from its parent.** -/
theorem lookup_separate (h : pathSeparate path = some (some (pp, nm)))
    (hp : s.lookup pp = some (some p)) : s.lookup path = some (s.child p nm) := by
  obtain ⟨cs, hall, hlen, hpath, hpp⟩ := separate_spec h
  rw [lookup_parent (fun c hc => hall c (List.mem_append_left _ hc)) hpp] at hp
  rw [hpath, lookup_slashed hall, walk_concat hp hlen.le]

/-! ## The tree -/

variable (s) in
/-- The node is in the list of children. -/
def IsChild (d f : α) : Prop := f ∈ (s.file d).subdirs

theorem child_mem (h : s.child d name = some f) : s.IsChild d f := List.mem_of_find?_eq_some h

theorem child_none (h : s.child d name = none) : ∀ f ∈ (s.file d).subdirs, (s.file f).name ≠ name := by
  intro f hf
  simpa using List.find?_eq_none.mp h f hf

/-- **The tree of a file system.** -/
structure TmpfsTree (s : Tmpfs α) : Prop where
  tree : RootedTree (s.live : Set α) s.root s.IsChild
  dir : ∀ d ∈ s.live, (s.file d).subdirs ≠ [] → (s.file d).type = .dir
  names : ∀ d ∈ s.live, ((s.file d).subdirs.map fun f => (s.file f).name).Nodup

theorem lookupFrom_reach {rest : List Char} (h : s.lookupFrom d curpath rest = some (some p)) :
    ReflTransGen s.IsChild d p := by
  induction rest generalizing d curpath with
  | nil =>
    rw [lookupFrom] at h
    by_cases hlen : (getSubdir curpath).length ≤ tmpfsNameMax
    · rw [if_pos hlen] at h
      exact .single (child_mem (Option.some.inj h))
    · rw [if_neg hlen] at h
      cases h
  | cons c rest ih =>
    rw [lookupFrom] at h
    by_cases hc : c = '/'
    · rw [if_pos hc] at h
      by_cases hlen : (getSubdir curpath).length ≤ tmpfsNameMax
      · rw [if_pos hlen] at h
        cases hch : s.child d (getSubdir curpath) with
        | none =>
          rw [hch] at h
          cases h
        | some f =>
          rw [hch] at h
          exact (ih h).head (child_mem hch)
      · rw [if_neg hlen] at h
        cases h
    · rw [if_neg hc] at h
      exact ih h

theorem lookup_reach (h : s.lookup path = some (some p)) : ReflTransGen s.IsChild s.root p := by
  unfold lookup at h
  cases hw : path.dropWhile (· = '/') with
  | nil =>
    rw [hw] at h
    cases h
    exact .refl
  | cons c rest =>
    rw [hw] at h
    exact lookupFrom_reach h

theorem lookup_live (hs : s.TmpfsTree) (h : s.lookup path = some (some p)) : p ∈ s.live :=
  hs.tree.mem_iff.mpr (lookup_reach h)

theorem start_mem_trailFrom {rest : List Char} : d ∈ s.trailFrom d curpath rest := by
  induction rest generalizing curpath with
  | nil => exact List.mem_cons_self
  | cons c rest ih =>
    rw [trailFrom]
    by_cases hc : c = '/'
    · rw [if_pos hc]
      cases s.child d (getSubdir curpath) with
      | none => exact List.mem_cons_self
      | some f => exact List.mem_cons_self
    · rw [if_neg hc]
      exact ih

theorem trailFrom_avoids {rest : List Char} (h : s.lookupFrom d curpath rest = some (some p))
    (hx : x ∉ s.trailFrom d curpath rest) :
    ReflTransGen (fun d f => s.IsChild d f ∧ f ≠ x) d p := by
  induction rest generalizing d curpath with
  | nil =>
    rw [lookupFrom] at h
    by_cases hlen : (getSubdir curpath).length ≤ tmpfsNameMax
    · rw [if_pos hlen] at h
      have hch := Option.some.inj h
      rw [trailFrom, hch] at hx
      refine .single ⟨child_mem hch, ?_⟩
      rintro rfl
      exact hx (List.mem_cons_of_mem _ (Option.mem_toList.mpr rfl))
    · rw [if_neg hlen] at h
      cases h
  | cons c rest ih =>
    rw [lookupFrom] at h
    rw [trailFrom] at hx
    by_cases hc : c = '/'
    · rw [if_pos hc] at h hx
      by_cases hlen : (getSubdir curpath).length ≤ tmpfsNameMax
      · rw [if_pos hlen] at h
        cases hch : s.child d (getSubdir curpath) with
        | none =>
          rw [hch] at h
          cases h
        | some f =>
          rw [hch] at h hx
          have htrail : x ∉ s.trailFrom f rest rest := fun hmem => hx (List.mem_cons_of_mem _ hmem)
          refine (ih h htrail).head ⟨child_mem hch, ?_⟩
          rintro rfl
          exact htrail start_mem_trailFrom
      · rw [if_neg hlen] at h
        cases h
    · rw [if_neg hc] at h hx
      exact ih h hx

/-- **A node that the lookup does not pass is not above the node it finds.** -/
theorem trail_avoids (h : s.lookup path = some (some p)) (hx : x ∉ s.trail path) :
    x ≠ s.root ∧ ReflTransGen (fun d f => s.IsChild d f ∧ f ≠ x) s.root p := by
  unfold lookup at h
  unfold trail at hx
  cases hw : path.dropWhile (· = '/') with
  | nil =>
    rw [hw] at h hx
    cases h
    exact ⟨fun he => hx (List.mem_singleton.mpr he), .refl⟩
  | cons c rest =>
    rw [hw] at h hx
    refine ⟨?_, trailFrom_avoids h hx⟩
    rintro rfl
    exact hx start_mem_trailFrom

/-! ## What the operations link and unlink -/

/-- A new node keeps the names of the others. -/
theorem create_file_name {directory : Bool} (hd : d ≠ x) :
    ((s.create p x name directory).file d).name = (s.file d).name := by
  unfold create
  dsimp only
  rw [if_neg hd]
  split
  · rename_i hp
    rw [hp]
  · rfl

/-- A new name keeps the names of siblings distinct. -/
theorem create_names (directory : Bool) (hpl : p ∈ s.live) (hx : x ∉ s.live)
    (hlive : ∀ d ∈ s.live, ∀ f ∈ (s.file d).subdirs, f ∈ s.live) (hname : s.child p name = none)
    (hnames : ∀ d ∈ s.live, ((s.file d).subdirs.map fun f => (s.file f).name).Nodup) :
    ∀ d ∈ insert x s.live, (((s.create p x name directory).file d).subdirs.map fun f =>
      ((s.create p x name directory).file f).name).Nodup := by
  intro d hd
  have hpx : p ≠ x := fun he => hx (he ▸ hpl)
  have hself : (s.create p x name directory).file x = ⟨if directory then .dir else .file, name, []⟩ :=
    if_pos rfl
  -- the children of an old node are old, so their names are as before
  have hmap : ∀ {d}, d ∈ s.live → ((s.file d).subdirs.map fun f =>
      ((s.create p x name directory).file f).name) = (s.file d).subdirs.map fun f => (s.file f).name := by
    intro d hd
    refine List.map_congr_left fun f hf => create_file_name fun he => ?_
    exact hx (he ▸ hlive d hd f hf)
  by_cases hdx : d = x
  · rw [hdx, hself]
    exact List.nodup_nil
  · have hdl : d ∈ s.live := (Finset.mem_insert.mp hd).resolve_left hdx
    by_cases hdp : d = p
    · have hfp : (s.create p x name directory).file p =
          { s.file p with subdirs := x :: (s.file p).subdirs } := (if_neg hpx).trans (if_pos rfl)
      rw [hdp, hfp, List.map_cons, hmap hpl, hself, List.nodup_cons]
      refine ⟨?_, hnames p hpl⟩
      intro hmem
      obtain ⟨f, hf, he⟩ := List.mem_map.mp hmem
      exact child_none hname f hf he
    · have hold : (s.create p x name directory).file d = s.file d := (if_neg hdx).trans (if_neg hdp)
      rw [hold, hmap hdl]
      exact hnames d hdl

/-- **A new node in a directory.** -/
theorem create_tree {directory : Bool} (hs : s.TmpfsTree) (hp : p ∈ s.live) (hx : x ∉ s.live)
    (hdir : (s.file p).type = .dir) (hname : s.child p name = none) :
    (s.create p x name directory).TmpfsTree := by
  have hpx : p ≠ x := fun he => hx (he ▸ hp)
  have hself : (s.create p x name directory).file x = ⟨if directory then .dir else .file, name, []⟩ :=
    if_pos rfl
  have hfp : (s.create p x name directory).file p = { s.file p with subdirs := x :: (s.file p).subdirs } :=
    (if_neg hpx).trans (if_pos rfl)
  have hold : ∀ {d}, d ≠ x → d ≠ p → (s.create p x name directory).file d = s.file d := fun hdx hdp =>
    (if_neg hdx).trans (if_neg hdp)
  refine ⟨?_, ?_, create_names _ hp hx (fun d hd f hf => hs.tree.mem hd hf) hname hs.names⟩
  · have hlive : ((s.create p x name directory).live : Set α) = insert x (s.live : Set α) :=
      Finset.coe_insert x s.live
    rw [hlive]
    refine hs.tree.addLeaf hp hx fun {d f} => ?_
    unfold IsChild
    by_cases hdx : d = x
    · rw [hdx, hself]
      simp [Ne.symm hpx]
    · by_cases hdp : d = p
      · rw [hdp, hfp, List.mem_cons]
        simp [hpx, or_comm]
      · rw [hold hdx hdp]
        simp [hdx, hdp]
  · intro d hd hne
    by_cases hdx : d = x
    · rw [hdx, hself] at hne
      exact absurd rfl hne
    · by_cases hdp : d = p
      · rw [hdp, hfp]
        exact hdir
      · rw [hold hdx hdp] at hne ⊢
        exact hs.dir d ((Finset.mem_insert.mp hd).resolve_left hdx) hne

/-- **A leaf taken out.** -/
theorem unlink_tree (hs : s.TmpfsTree) (hroot : x ≠ s.root) (hleaf : (s.file x).subdirs = []) :
    ({ s.detach x with live := s.live.erase x } : Tmpfs α).TmpfsTree := by
  refine ⟨?_, ?_, ?_⟩
  · show RootedTree ((s.live.erase x : Finset α) : Set α) s.root _
    rw [Finset.coe_erase]
    refine hs.tree.removeLeaf hroot (fun f hf => ?_) fun {d f} => ?_
    · unfold IsChild at hf
      rw [hleaf] at hf
      cases hf
    · simp [IsChild, detach]
  · intro d hd hne
    refine hs.dir d (Finset.mem_of_mem_erase hd) fun hnil => hne ?_
    show (s.file d).subdirs.filter _ = []
    rw [hnil, List.filter_nil]
  · intro d hd
    exact (hs.names d (Finset.mem_of_mem_erase hd)).sublist (List.filter_sublist.map _)

/-- Moving a node to a new name keeps the names of siblings distinct. -/
theorem rename_names (hname : s.child p name = none)
    (hnames : ∀ d ∈ s.live, ((s.file d).subdirs.map fun f => (s.file f).name).Nodup) :
    ∀ d ∈ s.live, ((((s.detach x).attach p x name).file d).subdirs.map fun f =>
      (((s.detach x).attach p x name).file f).name).Nodup := by
  have hfilter : ∀ d, ((s.file d).subdirs.filter (· ≠ x)).map
      (fun f => (((s.detach x).attach p x name).file f).name) =
      ((s.file d).subdirs.filter (· ≠ x)).map fun f => (s.file f).name := by
    intro d
    refine List.map_congr_left fun f hf => if_neg ?_
    simpa using (List.mem_filter.mp hf).2
  intro d hd
  have hnd : (((s.file d).subdirs.filter (· ≠ x)).map fun f => (s.file f).name).Nodup :=
    (hnames d hd).sublist (List.filter_sublist.map _)
  by_cases hdp : d = p
  · have hsub : (((s.detach x).attach p x name).file d).subdirs = x :: (s.file d).subdirs.filter (· ≠ x) :=
      if_pos hdp
    have hself : (((s.detach x).attach p x name).file x).name = name := if_pos rfl
    rw [hsub, List.map_cons, hfilter, hself, List.nodup_cons]
    refine ⟨?_, hnd⟩
    intro hmem
    obtain ⟨f, hf, he⟩ := List.mem_map.mp hmem
    rw [hdp] at hf
    exact child_none hname f (List.mem_of_mem_filter hf) he
  · have hsub : (((s.detach x).attach p x name).file d).subdirs = (s.file d).subdirs.filter (· ≠ x) :=
      if_neg hdp
    rw [hsub, hfilter]
    exact hnd

/-- **A node moved into a directory that is not below it.** -/
theorem rename_tree (hs : s.TmpfsTree) (hx : x ∈ s.live) (hroot : x ≠ s.root)
    (hp : ReflTransGen (fun d f => s.IsChild d f ∧ f ≠ x) s.root p)
    (hdir : (s.file p).type = .dir) (hname : s.child p name = none) :
    ((s.detach x).attach p x name).TmpfsTree := by
  refine ⟨hs.tree.move hx hroot hp fun {d f} => ?_, ?_, rename_names hname hs.names⟩
  · unfold IsChild
    by_cases hdp : d = p
    · simp [attach, detach, hdp, or_comm]
    · simp [attach, detach, hdp]
  · intro d hd hne
    by_cases hdp : d = p
    · rw [hdp]
      exact hdir
    · refine hs.dir d hd fun hnil => hne ?_
      simp [attach, detach, hdp, hnil]

/-! ## The operations -/

variable (s) in
/-- The scans of paths stay in their buffers and find a leading slash; a file is created in a directory;
a node that is unlinked is not the root and has no children; and a node is moved into a directory that
exists and is neither the node nor below it. -/
def tmpfsOk : TmpfsCall α → Bool
  | .open refCount _ path creat _ mem =>
    decide (1 < refCount) ||
      match s.lookup path with
      | none => false
      | some (some _) => true
      | some none =>
        !creat ||
          match pathSeparate path with
          | none => false
          | some none => true
          | some (some (parent, _)) =>
            match s.lookup parent with
            | none => false
            | some none => true
            | some (some p) => mem.isNone || decide ((s.file p).type = .dir)
  | .unlink path =>
    match s.lookup path with
    | none => false
    | some none => true
    | some (some x) => decide (x ≠ s.root) && decide ((s.file x).subdirs = [])
  | .rename oldpath newpath =>
    match s.lookup newpath with
    | none => false
    | some (some _) => true
    | some none =>
      match s.lookup oldpath with
      | none => false
      | some none => true
      | some (some x) =>
        match pathSeparate newpath with
        | none => false
        | some none => true
        | some (some (parent, _)) =>
          match s.lookup parent with
          | none => false
          | some none => false
          | some (some p) => decide ((s.file p).type = .dir) && decide (x ∉ s.trail parent)

variable (s) in
/-- An operation has a result that is a tree with the same root, and leaves the file system as it was
if it returns an error. -/
def TreeKept (r : Option (ℤ × Tmpfs α)) : Prop :=
  ∃ ret s', r = some (ret, s') ∧ s'.TmpfsTree ∧ s'.root = s.root ∧ (ret < 0 → s' = s)

theorem TmpfsTree.kept (hs : s.TmpfsTree) (ret : ℤ) : s.TreeKept (some (ret, s)) :=
  ⟨ret, s, rfl, hs, rfl, fun _ => rfl⟩

theorem open_kept {refCount : ℕ} {isDir creat directory : Bool} {mem : Option α} (hs : s.TmpfsTree)
    (hen : s.enabled (.open refCount isDir path creat directory mem) = true)
    (hok : s.tmpfsOk (.open refCount isDir path creat directory mem) = true) :
    s.TreeKept (s.open refCount isDir path creat directory mem) := by
  simp only [enabled, Bool.and_eq_true, decide_eq_true_eq, Option.all_eq_true] at hen
  simp only [tmpfsOk, Bool.or_eq_true, decide_eq_true_eq] at hok
  unfold Tmpfs.open
  rw [if_neg (by omega)]
  by_cases hcount : 1 < refCount
  · rw [if_pos hcount]
    exact hs.kept _
  rw [if_neg hcount]
  replace hok := hok.resolve_left hcount
  cases hd : s.lookup path with
  | none => simp [hd] at hok
  | some d =>
    cases d with
    | some d => exact hs.kept _
    | none =>
      cases creat with
      | false => exact hs.kept _
      | true =>
        cases hsep : pathSeparate path with
        | none => simp [hd, hsep] at hok
        | some sep =>
          cases sep with
          | none => exact hs.kept _
          | some sep =>
            obtain ⟨parent, name⟩ := sep
            cases hp : s.lookup parent with
            | none => simp [hd, hsep, hp] at hok
            | some p =>
              cases p with
              | none => simpa [hp] using hs.kept _
              | some p =>
                cases mem with
                | none => simpa [hp] using hs.kept _
                | some x =>
                  have hdir : (s.file p).type = .dir := by simpa [hd, hsep, hp] using hok
                  have hname : s.child p name = none :=
                    Option.some.inj ((lookup_separate hsep hp).symm.trans hd)
                  have htree : (s.create p x name directory).TmpfsTree :=
                    create_tree hs (lookup_live hs hp) (hen.2 x rfl) hdir hname
                  exact ⟨0, _, by simp [hp], htree, rfl, fun h => absurd h (lt_irrefl 0)⟩

theorem unlink_kept (hs : s.TmpfsTree) (hok : s.tmpfsOk (.unlink path) = true) :
    s.TreeKept (s.unlink path) := by
  rw [tmpfsOk] at hok
  unfold Tmpfs.unlink
  cases hx : s.lookup path with
  | none => simp [hx] at hok
  | some x =>
    cases x with
    | none => exact hs.kept _
    | some x =>
      obtain ⟨hroot, hleaf⟩ : x ≠ s.root ∧ (s.file x).subdirs = [] := by simpa [hx] using hok
      exact ⟨0, _, rfl, unlink_tree hs hroot hleaf, rfl, fun h => absurd h (lt_irrefl 0)⟩

theorem rename_kept {oldpath newpath : List Char} (hs : s.TmpfsTree)
    (hok : s.tmpfsOk (.rename oldpath newpath) = true) : s.TreeKept (s.rename oldpath newpath) := by
  rw [tmpfsOk] at hok
  unfold Tmpfs.rename
  cases hd : s.lookup newpath with
  | none => simp [hd] at hok
  | some d =>
    cases d with
    | some d => exact hs.kept _
    | none =>
      cases hx : s.lookup oldpath with
      | none => simp [hd, hx] at hok
      | some x =>
        cases x with
        | none => exact hs.kept _
        | some x =>
          cases hsep : pathSeparate newpath with
          | none => simp [hd, hx, hsep] at hok
          | some sep =>
            cases sep with
            | none => exact hs.kept _
            | some sep =>
              obtain ⟨parent, name⟩ := sep
              cases hp : s.lookup parent with
              | none => simp [hd, hx, hsep, hp] at hok
              | some p =>
                cases p with
                | none => simp [hd, hx, hsep, hp] at hok
                | some p =>
                  obtain ⟨hdir, htrail⟩ : (s.file p).type = .dir ∧ x ∉ s.trail parent := by
                    simpa [hd, hx, hsep, hp] using hok
                  have hname : s.child p name = none :=
                    Option.some.inj ((lookup_separate hsep hp).symm.trans hd)
                  obtain ⟨hroot, hpath⟩ := trail_avoids hp htrail
                  have htree : ((s.detach x).attach p x name).TmpfsTree :=
                    rename_tree hs (lookup_live hs hx) hroot hpath hdir hname
                  exact ⟨0, _, by simp [hp], htree, rfl, fun h => absurd h (lt_irrefl 0)⟩

/-- **Every operation keeps the tree.** -/
theorem call_kept {call : TmpfsCall α} (hs : s.TmpfsTree) (hen : s.enabled call = true)
    (hok : s.tmpfsOk call = true) : s.TreeKept (s.call call) := by
  cases call with
  | «open» refCount isDir path creat directory mem => exact open_kept hs hen hok
  | unlink path => exact unlink_kept hs hok
  | rename oldpath newpath => exact rename_kept hs hok

theorem mount_tree (h : (tmpfsSystem α).init s) : s.TmpfsTree := by
  obtain ⟨hlive, hroot⟩ := h
  have hmem : ∀ {d}, d ∈ s.live → (s.file d).subdirs = [] := by
    intro d hd
    rw [hlive, Finset.mem_singleton] at hd
    rw [hd, hroot]
  have hno : ∀ {d f}, d ∈ s.live → ¬ s.IsChild d f := by
    intro d f hd hf
    unfold IsChild at hf
    rw [hmem hd] at hf
    cases hf
  refine ⟨⟨?_, fun hd hf => absurd hf (hno hd), fun hd hf => absurd hf (hno hd),
    fun hd _ hf => absurd hf (hno hd), fun hf => ?_⟩, fun d hd h => absurd (hmem hd) h, fun d hd => ?_⟩
  · show s.root ∈ s.live
    rw [hlive]
    exact Finset.mem_singleton_self _
  · replace hf : _ ∈ s.live := hf
    rw [hlive, Finset.mem_singleton] at hf
    exact hf ▸ .refl
  · rw [hmem hd]
    exact List.nodup_nil

/-- **The nodes are a tree below the root.** In every run the nodes that are allocated are those that
the root reaches, none of them below itself, only directories have children, siblings have distinct
names, and every operation has a result, keeps the root, and leaves the file system as it was if it
returns an error. -/
theorem tmpfs_tree (hs : (tmpfsSystem α).Reach tmpfsOk s) :
    s.TmpfsTree ∧ (∀ f, f ∈ s.live ↔ ReflTransGen s.IsChild s.root f) ∧
      (∀ f ∈ s.live, ¬ TransGen s.IsChild f f) ∧
      ∀ call, s.enabled call = true → s.tmpfsOk call = true →
        ∃ ret s', s.call call = some (ret, s') ∧ s'.root = s.root ∧ (ret < 0 → s' = s) := by
  have htree : s.TmpfsTree := by
    refine hs.invariant (I := TmpfsTree) (fun _ h => mount_tree h) fun s call s' h hok hst => ?_
    rw [tmpfsSystem] at hst
    dsimp only at hst
    by_cases hen : s.enabled call = true
    · rw [if_pos hen] at hst
      obtain ⟨ret, s₁, hcall, hkept, -, -⟩ := call_kept h hen hok
      rw [hcall] at hst
      cases hst
      exact hkept
    · rw [if_neg hen] at hst
      cases hst
  refine ⟨htree, fun f => htree.tree.mem_iff, fun f hf => htree.tree.acyclic hf, ?_⟩
  intro call hen hok
  obtain ⟨ret, s', hcall, -, hroot, herr⟩ := call_kept htree hen hok
  exact ⟨ret, s', hcall, hroot, herr⟩

/-- A mounted file system with the root 0. -/
def mounted : Tmpfs ℕ := ⟨0, fun _ => ⟨.dir, ['/'], []⟩, {0}⟩

/-- Directories are made, a file is created, moved and unlinked. -/
theorem tmpfs_tree_run : ∃ s : Tmpfs ℕ, (tmpfsSystem ℕ).Reach tmpfsOk s ∧ s.live = {0, 1, 2} ∧
    s.TmpfsTree := by
  obtain ⟨s, hs, hp⟩ := System.exists_reach (tmpfsSystem ℕ) tmpfsOk
    (fun s => decide (s.live = {0, 1, 2})) (s := mounted) ⟨rfl, rfl⟩
    [.open 1 false ['/', 'a'] true true (some 1), .open 1 false ['/', 'b'] true true (some 2),
      .open 1 false ['/', 'a', '/', 'c'] true false (some 3),
      .rename ['/', 'a', '/', 'c'] ['/', 'b', '/', 'd'], .unlink ['/', 'b', '/', 'd']]
    (by decide)
  exact ⟨s, hs, of_decide_eq_true hp, (tmpfs_tree hs).1⟩

/-- **A file is created below a file**, which is no directory and has a child. -/
theorem tmpfs_child_of_file : ∃ s : Tmpfs ℕ, (tmpfsSystem ℕ).Reach System.anyStep s ∧ ¬ s.TmpfsTree := by
  obtain ⟨s, hs, hp⟩ := System.exists_reach (tmpfsSystem ℕ) System.anyStep
    (fun s => decide (1 ∈ s.live ∧ (s.file 1).type = .file ∧ (s.file 1).subdirs ≠ []))
    (s := mounted) ⟨rfl, rfl⟩
    [.open 1 false ['/', 'a'] true false (some 1), .open 1 false ['/', 'a', '/', 'b'] true false (some 2)]
    (by decide)
  obtain ⟨hlive, hfile, hne⟩ := of_decide_eq_true hp
  refine ⟨s, hs, fun htree => ?_⟩
  have hdir := htree.dir 1 hlive hne
  rw [hfile] at hdir
  cases hdir

end Tmpfs

end RtThread
