import Mathlib.Data.Set.Insert

/-!
# Rooted trees as child relations

A set of nodes with a **child relation** whose edges leave nodes of the set. It is a tree when no node
has two parents, the root has none, and every node is reached from the root.

* `RootedTree`: the tree;
* `RootedTree.mem_iff`, `RootedTree.acyclic`: the nodes are what the root reaches, and none is below
  itself;
* `RootedTree.addLeaf`, `RootedTree.removeLeaf`: a new node below a node, and a node without children
  taken out;
* **`RootedTree.move`**: a node moved, with what is below it, below a node that the root reaches
  without it.
-/

namespace RtThread

open Relation

section

variable {α : Type} {live : Set α} {root d e f p x : α} {R R' : α → α → Prop}

/-- **A tree of nodes below a root.** -/
structure RootedTree (live : Set α) (root : α) (R : α → α → Prop) : Prop where
  root_mem : root ∈ live
  mem : ∀ {d f}, d ∈ live → R d f → f ∈ live
  ne_root : ∀ {d f}, d ∈ live → R d f → f ≠ root
  unique : ∀ {d e f}, d ∈ live → e ∈ live → R d f → R e f → d = e
  reach : ∀ {f}, f ∈ live → ReflTransGen R root f

namespace RootedTree

theorem mem_of_reach (h : RootedTree live root R) (hd : d ∈ live) (hf : ReflTransGen R d f) :
    f ∈ live := by
  induction hf with
  | refl => exact hd
  | tail _ hst ih => exact h.mem ih hst

theorem mem_iff (h : RootedTree live root R) : f ∈ live ↔ ReflTransGen R root f :=
  ⟨h.reach, h.mem_of_reach h.root_mem⟩

/-- **No node is below itself.** -/
theorem acyclic (h : RootedTree live root R) (hf : f ∈ live) : ¬ TransGen R f f := by
  have hreach := h.reach hf
  induction hreach with
  | refl =>
    intro hcyc
    obtain ⟨b, hb, hst⟩ := TransGen.tail'_iff.mp hcyc
    exact h.ne_root (h.mem_of_reach hf hb) hst rfl
  | @tail b c hb hst ih =>
    intro hcyc
    obtain ⟨b', hb', hst'⟩ := TransGen.tail'_iff.mp hcyc
    have hmem := h.mem_iff.mpr hb
    -- the cycle enters the node from its only parent, so the parent is on it too
    have he := h.unique (h.mem_of_reach hf hb') hmem hst' hst
    rw [he] at hb'
    exact ih hmem (TransGen.head' hst hb')

theorem addLeaf (h : RootedTree live root R) (hp : p ∈ live) (hx : x ∉ live)
    (hR : ∀ {d f}, R' d f ↔ R d f ∧ d ≠ x ∨ d = p ∧ f = x) :
    RootedTree (insert x live) root R' := by
  have hne : ∀ {d}, d ∈ live → d ≠ x := fun hd he => hx (he ▸ hd)
  have hold : ∀ {d f}, d ∈ insert x live → R' d f → d ∈ live ∧ R d f ∨ d = p ∧ f = x := by
    intro d f hd hst
    refine (hR.mp hst).imp_left fun hst => ⟨?_, hst.1⟩
    exact (Set.mem_insert_iff.mp hd).resolve_left hst.2
  have hkeep : ∀ {f}, ReflTransGen R root f → ReflTransGen R' root f := by
    intro f hf
    induction hf with
    | refl => exact .refl
    | tail hb hst ih => exact ih.tail (hR.mpr (.inl ⟨hst, hne (h.mem_iff.mpr hb)⟩))
  refine ⟨Set.mem_insert_of_mem _ h.root_mem, ?_, ?_, ?_, ?_⟩
  · intro d f hd hst
    cases hold hd hst with
    | inl hst => exact Set.mem_insert_of_mem _ (h.mem hst.1 hst.2)
    | inr hst => exact hst.2 ▸ Set.mem_insert _ _
  · intro d f hd hst
    cases hold hd hst with
    | inl hst => exact h.ne_root hst.1 hst.2
    | inr hst => exact hst.2 ▸ (hne h.root_mem).symm
  · intro d e f hd he hdf hef
    cases hold hd hdf with
    | inl hdf =>
      cases hold he hef with
      | inl hef => exact h.unique hdf.1 hef.1 hdf.2 hef.2
      | inr hef => exact absurd hef.2 (hne (h.mem hdf.1 hdf.2))
    | inr hdf =>
      cases hold he hef with
      | inl hef => exact absurd hdf.2 (hne (h.mem hef.1 hef.2))
      | inr hef => exact hdf.1.trans hef.1.symm
  · intro f hf
    cases Set.mem_insert_iff.mp hf with
    | inl hf => exact hf ▸ (hkeep (h.reach hp)).tail (hR.mpr (.inr ⟨rfl, rfl⟩))
    | inr hf => exact hkeep (h.reach hf)

theorem removeLeaf (h : RootedTree live root R) (hx : x ≠ root) (hleaf : ∀ f, ¬ R x f)
    (hR : ∀ {d f}, R' d f ↔ R d f ∧ f ≠ x) : RootedTree (live \ {x}) root R' := by
  refine ⟨⟨h.root_mem, Ne.symm hx⟩, ?_, ?_, ?_, ?_⟩
  · intro d f hd hst
    exact ⟨h.mem hd.1 (hR.mp hst).1, (hR.mp hst).2⟩
  · intro d f hd hst
    exact h.ne_root hd.1 (hR.mp hst).1
  · intro d e f hd he hdf hef
    exact h.unique hd.1 he.1 (hR.mp hdf).1 (hR.mp hef).1
  · rintro f ⟨hf, hfx⟩
    have hreach := h.reach hf
    clear hf
    induction hreach with
    | refl => exact .refl
    | tail _ hst ih => exact (ih fun he => hleaf _ (he ▸ hst)).tail (hR.mpr ⟨hst, hfx⟩)

/-- **A node moved below another, with what is below it.** -/
theorem move (h : RootedTree live root R) (hx : x ∈ live) (hxr : x ≠ root)
    (hp : ReflTransGen (fun d f => R d f ∧ f ≠ x) root p)
    (hR : ∀ {d f}, R' d f ↔ R d f ∧ f ≠ x ∨ d = p ∧ f = x) : RootedTree live root R' := by
  have hpmem : p ∈ live := h.mem_iff.mpr (ReflTransGen.mono (fun _ _ hst => hst.1) _ _ hp)
  have hkeep : ∀ {d f}, R d f → f ≠ x → R' d f := fun hst hf => hR.mpr (.inl ⟨hst, hf⟩)
  have hpx : ReflTransGen R' root x :=
    (ReflTransGen.mono (fun _ _ hst => hkeep hst.1 hst.2) _ _ hp).tail (hR.mpr (.inr ⟨rfl, rfl⟩))
  refine ⟨h.root_mem, ?_, ?_, ?_, ?_⟩
  · intro d f hd hst
    cases hR.mp hst with
    | inl hst => exact h.mem hd hst.1
    | inr hst => exact hst.2 ▸ hx
  · intro d f hd hst
    cases hR.mp hst with
    | inl hst => exact h.ne_root hd hst.1
    | inr hst => exact hst.2 ▸ hxr
  · intro d e f hd he hdf hef
    cases hR.mp hdf with
    | inl hdf =>
      cases hR.mp hef with
      | inl hef => exact h.unique hd he hdf.1 hef.1
      | inr hef => exact absurd hef.2 hdf.2
    | inr hdf =>
      cases hR.mp hef with
      | inl hef => exact absurd hdf.2 hef.2
      | inr hef => exact hdf.1.trans hef.1.symm
  · intro f hf
    have hreach := h.reach hf
    clear hf
    induction hreach with
    | refl => exact .refl
    | @tail b c _ hst ih =>
      by_cases hc : c = x
      · exact hc ▸ hpx
      · exact ih.tail (hkeep hst hc)

end RootedTree

end

end RtThread
