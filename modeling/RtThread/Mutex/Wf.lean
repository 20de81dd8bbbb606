import RtThread.Mutex.Model
import RtThread.Mutex.Propagate

/-!
# The structural invariant of the mutexes

`Wf` ties together the owner of a mutex, the `taken_object_list` of a thread, the suspend lists, the
`pending_object` of a thread and its place inside `_rt_mutex_take`. Priorities are no part of it.

* `Wf.congr`, `Wf.alike`: steps that touch none of these;
* `Wf.wake`, `Wf.block`, `Wf.reown`, `Wf.drop`, `Wf.retire`: wake-ups, starting to wait, changes of
  the owner, the end of a wait, the end of a mutex.
-/

set_option linter.unusedSectionVars false

namespace RtThread

open Kernel

variable {T O : Type} [DecidableEq T] [DecidableEq O] {k k' : Kernel T O} {taking : T → Option O}
  {t c : T} {m : O}

/-- The structural invariant. -/
structure Wf (k : Kernel T O) (taking : T → Option O) : Prop where
  linked : Linked k
  owned : ∀ t m, m ∈ (k.thread t).takenObjectList ↔
    (k.object m).owner = some t ∧ (k.object m).type = .mutex
  takenNodup : ∀ t, (k.thread t).takenObjectList.Nodup
  prioFlag : ∀ m, (k.object m).type = .mutex → (k.object m).flag = .prio
  waiting : ∀ t m, (k.object m).type = .mutex → t ∈ k.waiters m →
    (k.thread t).pendingObject = some m ∧ taking t = some m
  pending : ∀ t m, (k.thread t).pendingObject = some m →
    taking t = some m ∨ (k.object m).type ≠ .mutex
  suspended : ∀ t m, taking t = some m → (k.thread t).stat.isSuspend = true →
    t ∈ k.waiters m ∧ (k.object m).type = .mutex ∧ (k.thread t).error = .eok
  woken : ∀ t m, taking t = some m → (k.thread t).stat.isSuspend ≠ true →
    ((k.thread t).error = .eok ∧ (k.object m).owner = some t ∧
      (k.thread t).pendingObject = none) ∨
    ((k.thread t).error ≠ .eok ∧ (k.object m).owner ≠ some t ∧
      (k.thread t).pendingObject = some m)
  alive : ∀ t m, taking t = some m → (k.thread t).stat ≠ .close ∧ (k.thread t).stat ≠ .init
  blocked : ∀ t m, (k.object m).type = .mutex → t ∈ k.waiters m →
    ∃ o, (k.object m).owner = some o ∧ o ≠ t

namespace Wf

/-- A waiting thread is in the suspend list of its mutex. -/
theorem pendingLinked (h : Wf k taking) : PendingLinked k := fun t m hs hp hm =>
  (h.suspended t m ((h.pending t m hp).resolve_right (not_not.mpr hm)) hs).1

/-- A mutex without owner has no waiters. -/
theorem waiters_nil (h : Wf k taking) (hm : (k.object m).type = .mutex)
    (ho : (k.object m).owner = none) : k.waiters m = [] := by
  refine List.eq_nil_iff_forall_not_mem.mpr fun t ht => ?_
  obtain ⟨o, hmo, -⟩ := h.blocked t m hm ht
  rw [ho] at hmo
  cases hmo

theorem pending_none (h : Wf k taking) (ht : taking t = none)
    (hm : (k.object m).type = .mutex) : (k.thread t).pendingObject ≠ some m := fun hp => by
  rcases h.pending t m hp with h1 | h1
  · rw [ht] at h1; cases h1
  · exact h1 hm

/-- **Steps that leave the mutexes alone.** The threads inside `_rt_mutex_take` keep their phase and
error, all threads their mutexes, all mutexes their owner and waiters. -/
theorem congr (h : Wf k taking) (k' : Kernel T O) (hl : Linked k')
    (ho : ∀ o, (k'.object o).type = (k.object o).type ∧ (k'.object o).flag = (k.object o).flag ∧
      (k'.object o).owner = (k.object o).owner)
    (ht : ∀ t, (k'.thread t).takenObjectList = (k.thread t).takenObjectList ∧
      (k'.thread t).pendingObject = (k.thread t).pendingObject)
    (hw : ∀ m, (k.object m).type = .mutex → ∀ t, t ∈ k'.waiters m ↔ t ∈ k.waiters m)
    (hs : ∀ t m, taking t = some m → (k'.thread t).stat.phase = (k.thread t).stat.phase ∧
      (k'.thread t).error = (k.thread t).error) : Wf k' taking where
  linked := hl
  owned t m := by rw [(ht t).1, (ho m).1, (ho m).2.2]; exact h.owned t m
  takenNodup t := by rw [(ht t).1]; exact h.takenNodup t
  prioFlag m := by rw [(ho m).1, (ho m).2.1]; exact h.prioFlag m
  waiting t m hm hw' := by
    rw [(ho m).1] at hm
    rw [(ht t).2]; exact h.waiting t m hm ((hw m hm t).mp hw')
  pending t m := by rw [(ht t).2, (ho m).1]; exact h.pending t m
  suspended t m htk hsus := by
    rw [Stat.isSuspend_iff, (hs t m htk).1, ← Stat.isSuspend_iff] at hsus
    obtain ⟨h1, h2, h3⟩ := h.suspended t m htk hsus
    rw [(ho m).1, (hs t m htk).2]
    exact ⟨(hw m h2 t).mpr h1, h2, h3⟩
  woken t m htk hsus := by
    rw [ne_eq, Stat.isSuspend_iff, (hs t m htk).1, ← Stat.isSuspend_iff] at hsus
    rw [(hs t m htk).2, (ho m).2.2, (ht t).2]
    exact h.woken t m htk hsus
  alive t m htk := by
    rw [ne_eq, ne_eq, Stat.close_iff, Stat.init_iff, (hs t m htk).1, ← Stat.close_iff,
      ← Stat.init_iff]
    exact h.alive t m htk
  blocked t m hm hw' := by
    rw [(ho m).1] at hm
    rw [(ho m).2.2]; exact h.blocked t m hm ((hw m hm t).mp hw')

theorem alike (h : Wf k taking) (hl : Linked k') (ha : Alike k k') : Wf k' taking :=
  h.congr k' hl (fun o => ⟨ha.type o, ha.flag o, ha.owner o⟩) (fun t => ⟨ha.taken t, ha.pending t⟩)
    (fun m _ t => ha.waiters m t) fun t _ _ => ⟨ha.phase t, ha.error t⟩

/-- Writes to objects that keep type, flag and owner. -/
theorem setObject (h : Wf k taking) (m : O) (f : IpcObject T → IpcObject T)
    (hf : ∀ x, (f x).type = x.type ∧ (f x).flag = x.flag ∧ (f x).owner = x.owner) : Wf (k.setObject m f) taking := by
  refine h.congr (k.setObject m f) (h.linked.setObject m f) (fun o => ?_) (fun _ => ⟨rfl, rfl⟩)
    (fun _ _ _ => Iff.rfl) fun _ _ _ => ⟨rfl, rfl⟩
  by_cases ho : o = m
  · subst ho; rw [setObject_self]; exact hf _
  · rw [setObject_of_ne _ ho]; exact ⟨rfl, rfl, rfl⟩

/-- **A wake-up.** A thread inside `_rt_mutex_take` learns of it by its error. -/
theorem wake (h : Wf k taking) (hs : (k.thread t).stat.isSuspend = true) (f : Thread O → Thread O)
    (he : taking t = none ∨ (f (k.thread t)).error ≠ .eok)
    (hf : ∀ th, (f th).stat = th.stat ∧ (f th).takenObjectList = th.takenObjectList ∧
      (f th).pendingObject = th.pendingObject) :
    Wf (k.wake t f) taking := by
  have hin := k.insertedStat_ne t
  have hfields : ∀ u, ((k.wake t f).thread u).takenObjectList = (k.thread u).takenObjectList ∧
      ((k.wake t f).thread u).pendingObject = (k.thread u).pendingObject := fun u => by
    by_cases hu : u = t
    · subst hu; rw [wake_self]; exact ⟨(hf _).2.1, (hf _).2.2⟩
    · rw [wake_of_ne hu]; exact ⟨rfl, rfl⟩
  have hmem : ∀ o u, u ∈ (k.wake t f).waiters o ↔ u ≠ t ∧ u ∈ k.waiters o := fun o u => by
    rw [wake_waiters]; exact (h.linked.nodup _).mem_erase_iff
  have hstat : ((k.wake t f).thread t).stat = k.insertedStat t := by rw [wake_self]
  refine ⟨h.linked.wake t f (hf _).1, fun u m => ?_, fun u => ?_, fun m => ?_, fun u m hm hu => ?_,
    fun u m => ?_, fun u m hu hsu => ?_, fun u m hu hsu => ?_, fun u m hu => ?_,
    fun u m hm hu => ?_⟩
  · rw [(hfields u).1, wake_object]; exact h.owned u m
  · rw [(hfields u).1]; exact h.takenNodup u
  · rw [wake_object]; exact h.prioFlag m
  · rw [wake_object] at hm
    rw [(hfields u).2]; exact h.waiting u m hm ((hmem m u).mp hu).2
  · rw [(hfields u).2, wake_object]; exact h.pending u m
  · by_cases hut : u = t
    · subst hut; rw [hstat, hin.1] at hsu; cases hsu
    · rw [wake_of_ne hut] at hsu
      rw [wake_object, wake_of_ne hut, hmem]
      obtain ⟨h1, h2, h3⟩ := h.suspended u m hu hsu
      exact ⟨⟨hut, h1⟩, h2, h3⟩
  · by_cases hut : u = t
    · subst hut
      obtain ⟨h1, h2, -⟩ := h.suspended u m hu hs
      obtain ⟨o, ho, hou⟩ := h.blocked u m h2 h1
      rw [(hfields u).2, wake_object]
      refine .inr ⟨?_, fun e => hou (Option.some.inj (ho.symm.trans e)), (h.waiting u m h2 h1).1⟩
      rw [wake_self]
      exact he.resolve_left fun h0 => by rw [h0] at hu; cases hu
    · rw [wake_of_ne hut] at hsu
      rw [wake_object, wake_of_ne hut]
      exact h.woken u m hu hsu
  · by_cases hut : u = t
    · subst hut; rw [hstat]; exact hin.2
    · rw [wake_of_ne hut]; exact h.alive u m hu
  · rw [wake_object] at hm ⊢
    exact h.blocked u m hm ((hmem m u).mp hu).2

/-- **A thread starts to wait for a mutex.** -/
theorem block (h : Wf k taking) (hc : taking c = none) (hm : (k.object m).type = .mutex) {o : T}
    (ho : (k.object m).owner = some o) (hoc : o ≠ c) (k' : Kernel T O) (hl : Linked k')
    (hobj : k'.object = k.object) (hth : ∀ u ≠ c, k'.thread u = k.thread u)
    (htk : (k'.thread c).takenObjectList = (k.thread c).takenObjectList)
    (hpe : (k'.thread c).pendingObject = some m) (hsu : (k'.thread c).stat.isSuspend = true)
    (her : (k'.thread c).error = .eok)
    (hw : ∀ x u, u ∈ k'.waiters x ↔ (x = m ∧ u = c) ∨ u ∈ k.waiters x) :
    Wf k' (Function.update taking c (some m)) := by
  have htaken : ∀ u, (k'.thread u).takenObjectList = (k.thread u).takenObjectList := fun u => by
    by_cases hu : u = c
    · rw [hu, htk]
    · rw [hth u hu]
  have hold : ∀ x u, (k.object x).type = .mutex → u ∈ k.waiters x → u ≠ c := fun x u hx hu e => by
    have := (h.waiting u x hx hu).2
    rw [e, hc] at this
    cases this
  refine ⟨hl, fun u x => ?_, fun u => ?_, fun x => ?_, fun u x hx hu => ?_, fun u x hu => ?_,
    fun u x hu hsu' => ?_, fun u x hu hsu' => ?_, fun u x hu => ?_, fun u x hx hu => ?_⟩
  · rw [htaken, hobj]; exact h.owned u x
  · rw [htaken]; exact h.takenNodup u
  · rw [hobj]; exact h.prioFlag x
  · rw [hobj] at hx
    rcases (hw x u).mp hu with ⟨rfl, rfl⟩ | hu
    · exact ⟨hpe, Function.update_self ..⟩
    · have hne := hold x u hx hu
      rw [hth u hne, Function.update_of_ne hne]
      exact h.waiting u x hx hu
  · rw [hobj]
    by_cases huc : u = c
    · subst huc
      rw [hpe] at hu
      exact .inl (by rw [Function.update_self]; exact hu)
    · rw [hth u huc] at hu
      rw [Function.update_of_ne huc]; exact h.pending u x hu
  · by_cases huc : u = c
    · subst huc
      rw [Function.update_self] at hu
      obtain rfl := Option.some.inj hu
      exact ⟨(hw _ _).mpr (.inl ⟨rfl, rfl⟩), by rw [hobj]; exact hm, her⟩
    · rw [Function.update_of_ne huc] at hu
      rw [hth u huc] at hsu' ⊢
      obtain ⟨h1, h2, h3⟩ := h.suspended u x hu hsu'
      exact ⟨(hw x u).mpr (.inr h1), by rw [hobj]; exact h2, h3⟩
  · by_cases huc : u = c
    · subst huc; exact absurd hsu hsu'
    · rw [Function.update_of_ne huc] at hu
      rw [hth u huc] at hsu' ⊢
      rw [hobj]; exact h.woken u x hu hsu'
  · by_cases huc : u = c
    · subst huc
      constructor <;> intro e <;> rw [e] at hsu <;> cases hsu
    · rw [Function.update_of_ne huc] at hu
      rw [hth u huc]; exact h.alive u x hu
  · rw [hobj] at hx ⊢
    rcases (hw x u).mp hu with ⟨rfl, rfl⟩ | hu
    · exact ⟨o, ho, hoc⟩
    · exact h.blocked u x hx hu

/-- **A mutex gets the owner `w`.** When it is handed over, the new owner `n` stops waiting. -/
theorem reown (h : Wf k taking) (hm : (k.object m).type = .mutex) {w n : Option T}
    (hself : ∀ u, (k.object m).owner = some u → taking u = none)
    (hw' : ∀ u, w = some u → n = some u ∨ taking u = none)
    (hn : ∀ u, n = some u → w = some u ∧ u ∈ k.waiters m)
    (hb : ∀ u ∈ k.waiters m, n ≠ some u → ∃ o, w = some o ∧ o ≠ u)
    (k' : Kernel T O) (hl : Linked k')
    (hobj : ∀ x, (k'.object x).type = (k.object x).type ∧ (k'.object x).flag = (k.object x).flag ∧
      (k'.object x).owner = if x = m then w else (k.object x).owner)
    (htk : ∀ u x, x ∈ (k'.thread u).takenObjectList ↔
      if x = m then w = some u else x ∈ (k.thread u).takenObjectList)
    (hnd : ∀ u, (k'.thread u).takenObjectList.Nodup)
    (hpe : ∀ u, (k'.thread u).pendingObject =
      if n = some u then none else (k.thread u).pendingObject)
    (hph : ∀ u, (k'.thread u).stat.phase = if n = some u then .awake else (k.thread u).stat.phase)
    (her : ∀ u, n = some u ∨ taking u ≠ none → (k'.thread u).error = (k.thread u).error)
    (hw : ∀ x u, u ∈ k'.waiters x ↔ u ∈ k.waiters x ∧ n ≠ some u) : Wf k' taking := by
  have hne : ∀ u, taking u ≠ none → (k.object m).owner ≠ some u := fun u hu e => hu (hself u e)
  refine ⟨hl, fun u x => ?_, hnd, fun x => ?_, fun u x hx hu => ?_, fun u x hu => ?_,
    fun u x hu hsu => ?_, fun u x hu hsu => ?_, fun u x hu => ?_, fun u x hx hu => ?_⟩
  · rw [htk, (hobj x).1, (hobj x).2.2]
    split_ifs with hx
    · subst hx; simp [hm]
    · exact h.owned u x
  · rw [(hobj x).1, (hobj x).2.1]; exact h.prioFlag x
  · rw [(hobj x).1] at hx
    obtain ⟨hu, hun⟩ := (hw x u).mp hu
    rw [hpe, if_neg hun]; exact h.waiting u x hx hu
  · rw [hpe] at hu
    split_ifs at hu
    rw [(hobj x).1]; exact h.pending u x hu
  · rw [Stat.isSuspend_iff, hph] at hsu
    split_ifs at hsu with hun
    rw [her u (.inr (by rw [hu]; simp)), (hobj x).1]
    obtain ⟨h1, h2, h3⟩ := h.suspended u x hu (Stat.isSuspend_iff.mpr hsu)
    exact ⟨(hw x u).mpr ⟨h1, hun⟩, h2, h3⟩
  · rw [her u (.inr (by rw [hu]; simp)), (hobj x).2.2, hpe]
    by_cases hun : n = some u
    · obtain ⟨hwu, huw⟩ := hn u hun
      obtain ⟨-, hux⟩ := h.waiting u m hm huw
      obtain rfl := Option.some.inj (hux.symm.trans hu)
      have hsus := h.linked.suspend huw
      exact .inl ⟨(h.suspended u m hu hsus).2.2, by rw [if_pos rfl, hwu], by rw [if_pos hun]⟩
    · rw [if_neg hun]
      rw [ne_eq, Stat.isSuspend_iff, hph, if_neg hun, ← Stat.isSuspend_iff] at hsu
      rcases h.woken u x hu hsu with ⟨h1, h2, h3⟩ | h1
      · have hxm : x ≠ m := fun e => hne u (by rw [hu]; simp) (e ▸ h2)
        exact .inl ⟨h1, by rw [if_neg hxm, h2], h3⟩
      · refine .inr ⟨h1.1, ?_, h1.2.2⟩
        split_ifs
        · intro e
          rw [(hw' u e).resolve_left hun] at hu
          cases hu
        · exact h1.2.1
  · rw [ne_eq, ne_eq, Stat.close_iff, Stat.init_iff, hph]
    split_ifs
    · simp
    · rw [← Stat.close_iff, ← Stat.init_iff]; exact h.alive u x hu
  · rw [(hobj x).1] at hx
    obtain ⟨hu, hun⟩ := (hw x u).mp hu
    rw [(hobj x).2.2]
    split_ifs with hxm
    · subst hxm; exact hb u hu hun
    · exact h.blocked u x hx hu

/-- **A thread leaves `_rt_mutex_take`, or is closed.** It is on no suspend list afterwards. -/
theorem drop (h : Wf k taking) (t : T) (k' : Kernel T O) (hl : Linked k')
    (hobj : k'.object = k.object) (hth : ∀ u ≠ t, k'.thread u = k.thread u)
    (htk : (k'.thread t).takenObjectList = (k.thread t).takenObjectList)
    (hp : ∀ m, (k'.thread t).pendingObject = some m → (k.object m).type ≠ .mutex)
    (hw : ∀ x u, u ∈ k'.waiters x ↔ u ∈ k.waiters x ∧ u ≠ t) :
    Wf k' (Function.update taking t none) := by
  have htaken : ∀ u, (k'.thread u).takenObjectList = (k.thread u).takenObjectList := fun u => by
    by_cases hu : u = t
    · rw [hu, htk]
    · rw [hth u hu]
  have hcase : ∀ {u x}, Function.update taking t none u = some x → u ≠ t ∧ taking u = some x := by
    intro u x hu
    by_cases hut : u = t
    · subst hut; rw [Function.update_self] at hu; cases hu
    · exact ⟨hut, by rwa [Function.update_of_ne hut] at hu⟩
  refine ⟨hl, fun u x => ?_, fun u => ?_, fun x => ?_, fun u x hx hu => ?_, fun u x hu => ?_,
    fun u x hu hsu => ?_, fun u x hu hsu => ?_, fun u x hu => ?_, fun u x hx hu => ?_⟩
  · rw [htaken, hobj]; exact h.owned u x
  · rw [htaken]; exact h.takenNodup u
  · rw [hobj]; exact h.prioFlag x
  · obtain ⟨hu, hut⟩ := (hw x u).mp hu
    rw [hobj] at hx
    rw [hth u hut, Function.update_of_ne hut]; exact h.waiting u x hx hu
  · rw [hobj]
    by_cases hut : u = t
    · subst hut; exact .inr (hp x hu)
    · rw [hth u hut] at hu
      rw [Function.update_of_ne hut]; exact h.pending u x hu
  · obtain ⟨hut, hu⟩ := hcase hu
    rw [hth u hut] at hsu ⊢
    rw [hobj, hw]
    obtain ⟨h1, h2, h3⟩ := h.suspended u x hu hsu
    exact ⟨⟨h1, hut⟩, h2, h3⟩
  · obtain ⟨hut, hu⟩ := hcase hu
    rw [hth u hut] at hsu ⊢
    rw [hobj]; exact h.woken u x hu hsu
  · obtain ⟨hut, hu⟩ := hcase hu
    rw [hth u hut]; exact h.alive u x hu
  · rw [hobj] at hx ⊢
    exact h.blocked u x hx ((hw x u).mp hu).1

/-- **A mutex without waiters ceases to be one.** -/
theorem retire (h : Wf k taking) (hm : (k.object m).type = .mutex) (hw : k.waiters m = []) :
    Wf ((k.takenRemove m).setObject m fun x => { x with type := .null }) taking := by
  have hobj : ∀ x, ((k.takenRemove m).setObject m fun x => { x with type := .null }).object x =
      if x = m then { k.object m with type := .null } else k.object x := fun x => by
    split_ifs with hx
    · subst hx; rw [setObject_self]; rfl
    · rw [setObject_of_ne _ hx]; rfl
  have htype : ∀ {x}, (if x = m then { k.object m with type := .null } else k.object x).type =
      .mutex → x ≠ m ∧ (k.object x).type = .mutex := fun {x} hx => by
    by_cases hxm : x = m
    · rw [if_pos hxm] at hx; cases hx
    · rw [if_neg hxm] at hx; exact ⟨hxm, hx⟩
  have hl : Linked ((k.takenRemove m).setObject m fun x => { x with type := .null }) :=
    h.linked.congr _ rfl (fun _ => rfl) rfl
  refine ⟨hl, fun u x => ?_, fun u => (h.takenNodup u).erase m, fun x hx => ?_,
    fun u x hx hu => ?_, fun u x hu => ?_, fun u x hu hsu => ?_, fun u x hu hsu => ?_, h.alive,
    fun u x hx hu => ?_⟩
  · rw [hobj]
    change x ∈ (k.thread u).takenObjectList.erase m ↔ _
    rw [(h.takenNodup u).mem_erase_iff, h.owned]
    by_cases hx : x = m
    · simp [hx]
    · simp [hx]
  · rw [hobj] at hx ⊢
    obtain ⟨hxm, hx⟩ := htype hx
    rw [if_neg hxm]; exact h.prioFlag x hx
  · rw [hobj] at hx
    exact h.waiting u x (htype hx).2 hu
  · rw [hobj]
    by_cases hxm : x = m
    · exact .inr (by simp [hxm])
    · rw [if_neg hxm]; exact h.pending u x hu
  · obtain ⟨h1, h2, h3⟩ := h.suspended u x hu hsu
    have hxm : x ≠ m := fun e => by rw [e, hw] at h1; cases h1
    rw [hobj, if_neg hxm]
    exact ⟨h1, h2, h3⟩
  · have how : ∀ y, (if y = m then { k.object m with type := .null } else k.object y).owner =
        (k.object y).owner := fun y => by
      split_ifs with hy
      · rw [hy]
      · rfl
    rw [hobj, how]; exact h.woken u x hu hsu
  · rw [hobj] at hx ⊢
    obtain ⟨hxm, hx⟩ := htype hx
    rw [if_neg hxm]; exact h.blocked u x hx hu

end Wf

end RtThread
