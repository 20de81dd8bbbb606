import Mathlib.Data.List.Basic
import Mathlib.Data.List.Induction

/-!
# Paths and their lexical resolution

A path is a list of symbols in which `slash` separates components; a component `dot` stands for
nothing, and `dot dot` for the removal of the component before it.

* `components`, `render`: the components of a path that are not empty, and an absolute path with
  given ones; `components_render`: they are inverse on names;
* `resolve`: the components that are left; **`resolve_names`**: they are names, and
  `resolve_self`: names are left as they are;
* `parentPath`: the text of a directory, with its slash;
* `render_append_iff`: a path whose components come first, in the text of another.
-/

set_option linter.unusedSectionVars false

namespace RtThread

section
variable {α : Type} [DecidableEq α] (slash dot : α)

/-- The components of a path that are not empty. -/
def components (s : List α) : List (List α) := (s.splitOn slash).filter (· ≠ [])

/-- One component after others. -/
def resolveStep (names : List (List α)) (c : List α) : List (List α) :=
  if c = [dot] then names else if c = [dot, dot] then names.dropLast else names ++ [c]

/-- The lexical resolution of components. -/
def resolve (cs : List (List α)) : List (List α) := cs.foldl (resolveStep dot) []

/-- An absolute path. -/
def render (names : List (List α)) : List α :=
  if names = [] then [slash] else names.flatMap fun c => slash :: c

/-- The path of a directory, with a slash behind it. -/
def parentPath (names : List (List α)) : List α := slash :: names.flatMap fun c => c ++ [slash]

/-- A component that is neither empty nor `dot` nor `dot dot`. -/
structure IsName (c : List α) : Prop where
  ne_nil : c ≠ []
  no_slash : slash ∉ c
  ne_dot : c ≠ [dot]
  ne_dots : c ≠ [dot, dot]

variable {slash dot} {names : List (List α)} {s c : List α}

/-! ## Components -/

theorem components_nil : components slash ([] : List α) = [] := by
  rw [components, List.splitOn_nil]
  rfl

/-- **A slash separates the components.** -/
theorem components_append (s s' : List α) :
    components slash (s ++ slash :: s') = components slash s ++ components slash s' := by
  rw [components, List.splitOn_append_cons_self, List.filter_append, components, components]

theorem components_slash (s : List α) : components slash (slash :: s) = components slash s := by
  have happ : components slash ([] ++ slash :: s) = components slash [] ++ components slash s :=
    components_append [] s
  rwa [components_nil, List.nil_append, List.nil_append] at happ

/-- Slashes in front do not matter. -/
theorem components_dropWhile (s : List α) :
    components slash (s.dropWhile (· = slash)) = components slash s := by
  induction s with
  | nil => rfl
  | cons a s ih =>
    rw [List.dropWhile_cons]
    by_cases ha : a = slash
    · rw [if_pos (decide_eq_true ha), ih, ha, components_slash]
    · rw [if_neg (by simpa using ha)]

theorem components_self (hs : slash ∉ c) (hc : c ≠ []) : components slash c = [c] := by
  rw [components, List.splitOn_eq_singleton hs, List.filter_cons_of_pos (by simpa using hc),
    List.filter_nil]

theorem mem_splitOn (h : c ∈ s.splitOn slash) : slash ∉ c ∧ ∀ a ∈ c, a ∈ s := by
  induction s generalizing c with
  | nil =>
    rw [List.splitOn_nil] at h
    rw [List.mem_singleton.mp h]
    exact ⟨List.not_mem_nil, fun a ha => ha⟩
  | cons b s ih =>
    rw [List.splitOn_cons_eq_if_modifyHead] at h
    split_ifs at h with hb
    · rcases List.mem_cons.mp h with rfl | h
      · exact ⟨List.not_mem_nil, fun a ha => absurd ha List.not_mem_nil⟩
      · exact ⟨(ih h).1, fun a ha => List.mem_cons_of_mem _ ((ih h).2 a ha)⟩
    · cases hsplit : s.splitOn slash with
      | nil => exact absurd hsplit (List.splitOn_ne_nil slash s)
      | cons d l =>
        rw [hsplit, List.modifyHead_cons] at h
        rw [hsplit] at ih
        rcases List.mem_cons.mp h with rfl | h
        · obtain ⟨hd, hmem⟩ := ih List.mem_cons_self
          have hne : slash ≠ b := fun e => hb (by simp [e])
          refine ⟨List.not_mem_cons_of_ne_of_not_mem hne hd, fun a ha => ?_⟩
          rcases List.mem_cons.mp ha with rfl | ha
          · exact List.mem_cons_self
          · exact List.mem_cons_of_mem _ (hmem a ha)
        · obtain ⟨hc, hmem⟩ := ih (List.mem_cons_of_mem _ h)
          exact ⟨hc, fun a ha => List.mem_cons_of_mem _ (hmem a ha)⟩

/-- Components are not empty and have no slash, and are made of the symbols of the path. -/
theorem components_mem (h : c ∈ components slash s) :
    (c ≠ [] ∧ slash ∉ c) ∧ ∀ a ∈ c, a ∈ s := by
  obtain ⟨hmem, hne⟩ := List.mem_filter.mp h
  exact ⟨⟨by simpa using hne, (mem_splitOn hmem).1⟩, (mem_splitOn hmem).2⟩

theorem components_flatMap (h : ∀ c ∈ names, c ≠ [] ∧ slash ∉ c) :
    components slash (names.flatMap fun c => slash :: c) = names := by
  induction names using List.reverseRecOn with
  | nil => exact components_nil
  | append_singleton names c ih =>
    have hc := h c (List.mem_append_right _ (List.mem_singleton_self c))
    rw [List.flatMap_append, List.flatMap_cons, List.flatMap_nil, List.append_nil,
      components_append, components_self hc.2 hc.1,
      ih fun c hc => h c (List.mem_append_left _ hc)]

/-- **The components of a path are those it was made of.** -/
theorem components_render (h : ∀ c ∈ names, c ≠ [] ∧ slash ∉ c) :
    components slash (render slash names) = names := by
  rw [render]
  by_cases hnil : names = []
  · rw [if_pos hnil, hnil, components_slash, components_nil]
  · rw [if_neg hnil]
    exact components_flatMap h

/-! ## Resolution -/

/-- **What is left are names.** -/
theorem resolve_names {cs : List (List α)} (h : ∀ c ∈ cs, c ≠ [] ∧ slash ∉ c) :
    ∀ c ∈ resolve dot cs, IsName slash dot c := by
  induction cs using List.reverseRecOn with
  | nil => exact fun c hc => absurd hc List.not_mem_nil
  | append_singleton cs c ih =>
    have hc := h c (List.mem_append_right _ (List.mem_singleton_self c))
    have ih' := ih fun c hc => h c (List.mem_append_left _ hc)
    intro d hd
    rw [resolve, List.foldl_append, List.foldl_cons, List.foldl_nil, ← resolve, resolveStep] at hd
    split_ifs at hd with h1 h2
    · exact ih' d hd
    · exact ih' d (List.dropLast_subset _ hd)
    · rcases List.mem_append.mp hd with hd | hd
      · exact ih' d hd
      · rw [List.mem_singleton.mp hd]
        exact ⟨hc.1, hc.2, h1, h2⟩

/-- Nothing new is left. -/
theorem mem_resolve {cs : List (List α)} (h : c ∈ resolve dot cs) : c ∈ cs := by
  induction cs using List.reverseRecOn with
  | nil => exact h
  | append_singleton cs d ih =>
    rw [resolve, List.foldl_append, List.foldl_cons, List.foldl_nil, ← resolve, resolveStep] at h
    split_ifs at h
    · exact List.mem_append_left _ (ih h)
    · exact List.mem_append_left _ (ih (List.dropLast_subset _ h))
    · rcases List.mem_append.mp h with h | h
      · exact List.mem_append_left _ (ih h)
      · exact List.mem_append_right _ h

/-- Names are left as they are. -/
theorem resolve_self (h : ∀ c ∈ names, IsName slash dot c) : resolve dot names = names := by
  induction names using List.reverseRecOn with
  | nil => rfl
  | append_singleton names c ih =>
    have hc := h c (List.mem_append_right _ (List.mem_singleton_self c))
    rw [resolve, List.foldl_append, List.foldl_cons, List.foldl_nil, ← resolve,
      ih fun c hc => h c (List.mem_append_left _ hc), resolveStep, if_neg hc.ne_dot,
      if_neg hc.ne_dots]

/-- The components behind a path start from where it has led to. -/
theorem resolve_resolve_append {cs ds : List (List α)} (h : ∀ c ∈ cs, c ≠ [] ∧ slash ∉ c) :
    resolve dot (resolve dot cs ++ ds) = resolve dot (cs ++ ds) := by
  have happ : ∀ cs, resolve dot (cs ++ ds) = ds.foldl (resolveStep dot) (resolve dot cs) :=
    fun _ => List.foldl_append
  rw [happ, happ, resolve_self (resolve_names h)]

/-! ## Prefixes -/

theorem render_ne_nil (names : List (List α)) : render slash names ≠ [] := by
  cases names with
  | nil => exact List.cons_ne_nil _ _
  | cons c names =>
    rw [render, if_neg (List.cons_ne_nil _ _), List.flatMap_cons, List.cons_append]
    exact List.cons_ne_nil _ _

theorem render_head? (names : List (List α)) : (render slash names).head? = some slash := by
  cases names with
  | nil => rfl
  | cons c names =>
    rw [render, if_neg (List.cons_ne_nil _ _), List.flatMap_cons, List.cons_append]
    rfl

/-- A path that is not the root is longer. -/
theorem one_lt_render (hnil : names ≠ []) (h : ∀ c ∈ names, c ≠ [] ∧ slash ∉ c) :
    1 < (render slash names).length := by
  cases names with
  | nil => exact absurd rfl hnil
  | cons c names =>
    have hc := List.length_pos_iff.mpr (h c List.mem_cons_self).1
    rw [render, if_neg hnil, List.flatMap_cons, List.length_append, List.length_cons]
    omega

/-- **The components of a path come first** exactly when its text stands in front, and a slash or
nothing follows. -/
theorem render_append_iff {cs ds : List (List α)} (hnil : cs ≠ [])
    (hcs : ∀ c ∈ cs, c ≠ [] ∧ slash ∉ c) (hds : ∀ c ∈ ds, c ≠ [] ∧ slash ∉ c) :
    (∃ t, render slash cs ++ t = render slash ds ∧ (t = [] ∨ t.head? = some slash)) ↔
      cs <+: ds := by
  constructor
  · rintro ⟨t, ht, hend⟩
    have hcomp := congrArg (components slash) ht
    rw [components_render hds] at hcomp
    rcases hend with rfl | hend
    · rw [List.append_nil, components_render hcs] at hcomp
      exact ⟨[], by rw [List.append_nil, hcomp]⟩
    · cases t with
      | nil => cases hend
      | cons a t =>
        rw [Option.some.inj hend, components_append, components_render hcs] at hcomp
        exact ⟨_, hcomp⟩
  · rintro ⟨es, rfl⟩
    have hne : cs ++ es ≠ [] := fun h => hnil (List.append_eq_nil_iff.mp h).1
    refine ⟨es.flatMap fun c => slash :: c, ?_, ?_⟩
    · rw [render, if_neg hnil, render, if_neg hne, List.flatMap_append]
    · cases es with
      | nil => exact .inl rfl
      | cons e es => exact .inr rfl

/-! ## Directories -/

theorem parentPath_append (names : List (List α)) (c : List α) :
    parentPath slash (names ++ [c]) = parentPath slash names ++ (c ++ [slash]) := by
  rw [parentPath, List.flatMap_append, List.flatMap_cons, List.flatMap_nil, List.append_nil,
    ← List.cons_append, ← parentPath]

/-- A name in a directory. -/
theorem parentPath_render (names : List (List α)) (c : List α) :
    parentPath slash names ++ c = render slash (names ++ [c]) := by
  rw [render, if_neg (by simp)]
  induction names using List.reverseRecOn generalizing c with
  | nil => simp [parentPath]
  | append_singleton names d ih =>
    rw [parentPath_append, ← List.append_assoc, ih d, List.append_assoc, List.singleton_append]
    simp only [List.flatMap_append, List.flatMap_cons, List.flatMap_nil, List.append_nil]

/-- The path of a directory ends with a slash. -/
theorem parentPath_getLast (names : List (List α)) :
    (parentPath slash names).getLast? = some slash := by
  induction names using List.reverseRecOn with
  | nil => rfl
  | append_singleton names c ih =>
    rw [parentPath_append, ← List.append_assoc, List.getLast?_append_cons, List.getLast?_singleton]

/-- Without its last slash it is the path. -/
theorem render_parentPath (hnil : names ≠ []) :
    parentPath slash names = render slash names ++ [slash] := by
  rw [render, if_neg hnil]
  clear hnil
  induction names using List.reverseRecOn with
  | nil => rfl
  | append_singleton names c ih =>
    rw [parentPath_append, ih, List.flatMap_append, List.flatMap_cons, List.flatMap_nil,
      List.append_nil, List.append_assoc, List.append_assoc, List.singleton_append,
      List.cons_append]

end

end RtThread
