import Mathlib.Data.List.FinRange
import RtThread.Drivers.CanTx

/-!
# The results of the transmission mailboxes

In normal mode a mailbox has one writer from the freelist and back, and its completion is initialised for every
message. In private mode the writers share the completion of the mailbox, and a result other than
`RT_CAN_SND_RESULT_OK` stays there when the message has failed.

* `MailAt`: one mailbox, by the place of its writer; `SemOk`: the free mailboxes and the semaphore;
* `TxOk`: the invariant; `txOk`: the condition, on private mode only;
* **`can_mail`**: the runs; `can_mail_lost`: a writer that waits for a message that was never sent.
-/

set_option linter.unusedSectionVars false

namespace RtThread

/-- The mailbox of a writer. -/
def TxPc.box {n : ℕ} : TxPc n → Option (Fin n)
  | .picked _ _ b => some b
  | .ready _ _ b => some b
  | .refused _ _ b => some b
  | .posted _ _ b => some b
  | .waiting _ _ _ b => some b
  | .woken _ _ _ b => some b
  | .finished _ _ b => some b
  | _ => none

/-- Between the semaphore and `freelist`. -/
def TxPc.holds {n : ℕ} : TxPc n → Bool
  | .granted _ _ => true
  | .putBack _ _ _ => true
  | _ => false

/-- In `rt_sem_take`. -/
def TxPc.queued {n : ℕ} : TxPc n → Bool
  | .semWait _ _ => true
  | _ => false

/-- What the writer has read of the result of its last message. -/
def TxPc.outcome {n : ℕ} : TxPc n → Option Bool
  | .putBack _ _ o => o
  | .counting _ _ o => o
  | _ => none

/-- The places of `_can_int_tx_priv`. -/
def TxPc.inPriv {n : ℕ} : TxPc n → Bool
  | .semWait _ _ => false
  | .granted _ _ => false
  | .picked _ _ _ => false
  | .refused _ _ _ => false
  | .putBack _ _ _ => false
  | _ => true

variable {W : Type} [DecidableEq W] {n : ℕ}

/-! ## One mailbox -/

namespace CanTx

variable (s s' : CanTx W n)

/-- Nothing is outstanding in the mailbox, and nothing is left of the last message. -/
structure Quiet (b : Fin n) : Prop where
  pending : s.pending b = []
  signalling : s.signalling b = false
  suspended : s.suspended b = []
  flag : s.flag b = false

/-- The result is the one of the last message of the writer. -/
def Told (b : Fin n) (w : W) : Prop := s.verdict w = some (decide (s.result b = .ok))

/-- The message of the writer has been sent; it is outstanding, or the interrupt has written its result and has
not yet raised the completion. -/
def Underway (b : Fin n) (w : W) : Prop :=
  s.pending b = [w] ∧ s.signalling b = false ∨ s.pending b = [] ∧ s.signalling b = true ∧ s.Told b w

/-- What holds of a mailbox whose writer is at `pc`. -/
def Phase (b : Fin n) (w : W) : TxPc n → Prop
  | .picked _ _ _ => s.Quiet b
  | .refused _ _ _ => s.Quiet b
  | .ready _ _ _ => s.Quiet b
  | .posted _ _ _ => s.suspended b = [] ∧
      (s.flag b = false ∧ s.Underway b w ∨
        s.flag b = true ∧ s.pending b = [] ∧ s.signalling b = false ∧ s.Told b w)
  | .waiting look _ _ _ => look = false ∧ s.suspended b = [w] ∧ s.flag b = false ∧ s.Underway b w
  | .woken look _ _ _ => look = false ∧ s.suspended b = [] ∧ s.pending b = [] ∧ s.signalling b = false ∧
      s.Told b w
  | .finished _ _ _ => s.Quiet b ∧ s.Told b w
  | _ => False

/-- **One mailbox**: it has one writer, or it is quiet. -/
inductive MailAt (b : Fin n) : Prop where
  | used (w : W) (inside : s.inside b = [w]) (writer : (s.pc w).box = some b)
      (others : ∀ w', w' ≠ w → (s.pc w').box ≠ some b) (phase : s.Phase b w (s.pc w))
  | free (inside : s.inside b = []) (others : ∀ w, (s.pc w).box ≠ some b) (quiet : s.Quiet b)

/-- Nothing of the mailbox changes. -/
structure SameMail (b : Fin n) : Prop where
  pending : s'.pending b = s.pending b
  signalling : s'.signalling b = s.signalling b
  suspended : s'.suspended b = s.suspended b
  flag : s'.flag b = s.flag b
  result : s'.result b = s.result b
  inside : s'.inside b = s.inside b

variable {s s'} {b : Fin n} {w : W}

theorem Quiet.same (h : s.Quiet b) (hb : s.SameMail s' b) : s'.Quiet b :=
  ⟨hb.pending.trans h.pending, hb.signalling.trans h.signalling, hb.suspended.trans h.suspended,
    hb.flag.trans h.flag⟩

theorem Phase.same {pc : TxPc n} (h : s.Phase b w pc) (hb : s.SameMail s' b)
    (hv : s'.verdict w = s.verdict w) : s'.Phase b w pc := by
  cases pc <;>
    simp only [Phase, Underway, Told, hb.pending, hb.signalling, hb.suspended, hb.flag, hb.result, hv] at h ⊢
  case picked | ready | refused => exact h.same hb
  case finished => exact ⟨h.1.same hb, h.2⟩
  all_goals exact h

/-- The mailboxes of the other writers. -/
theorem MailAt.keep (h : s.MailAt b) (hb : s.SameMail s' b)
    (hpc : ∀ w, s'.pc w = s.pc w ∨ (s.pc w).box ≠ some b ∧ (s'.pc w).box ≠ some b)
    (hv : ∀ w, (s.pc w).box = some b → s'.verdict w = s.verdict w) : s'.MailAt b := by
  have hne : ∀ w, (s.pc w).box ≠ some b → (s'.pc w).box ≠ some b := by
    intro w hw
    rcases hpc w with he | ⟨-, hw'⟩
    · rw [he]
      exact hw
    · exact hw'
  cases h with
  | used w hin hw hothers hphase =>
    have he : s'.pc w = s.pc w := (hpc w).resolve_right fun hc => hc.1 hw
    refine .used w (hb.inside.trans hin) (he ▸ hw) (fun w' hw' => hne w' (hothers w' hw')) ?_
    rw [he]
    exact hphase.same hb (hv w hw)
  | free hin hothers hquiet => exact .free (hb.inside.trans hin) (fun w => hne w (hothers w)) (hquiet.same hb)

/-- The mailbox of a writer. -/
theorem MailAt.writer (h : s.MailAt b) (hw : (s.pc w).box = some b) :
    s.inside b = [w] ∧ (∀ w', w' ≠ w → (s.pc w').box ≠ some b) ∧ s.Phase b w (s.pc w) := by
  cases h with
  | used w₁ hin hw₁ hothers hphase =>
    by_cases he : w = w₁
    · subst he
      exact ⟨hin, hothers, hphase⟩
    · exact absurd hw (hothers w he)
  | free _ hothers _ => exact absurd hw (hothers w)

/-- A mailbox without a writer. -/
theorem MailAt.unused (h : s.MailAt b) (hin : s.inside b = []) :
    (∀ w, (s.pc w).box ≠ some b) ∧ s.Quiet b := by
  cases h with
  | used w hin' => exact absurd (hin.symm.trans hin') (List.cons_ne_nil w []).symm
  | free _ hothers hquiet => exact ⟨hothers, hquiet⟩

/-- **A step of one writer, in one mailbox**, which others do not use. -/
theorem MailAt.step (h : ∀ b, s.MailAt b) (hpc : ∀ w', w' ≠ w → s'.pc w' = s.pc w')
    (hv : ∀ w', w' ≠ w → s'.verdict w' = s.verdict w') (hsame : ∀ b', b' ≠ b → s.SameMail s' b')
    (hothers : ∀ w', w' ≠ w → (s.pc w').box ≠ some b) (hw : ∀ b', (s.pc w).box = some b' → b' = b)
    (hb : (s'.pc w).box = some b ∧ s'.inside b = [w] ∧ s'.Phase b w (s'.pc w) ∨
      (s'.pc w).box = none ∧ s'.inside b = [] ∧ s'.Quiet b) (b' : Fin n) : s'.MailAt b' := by
  by_cases hb' : b' = b
  · subst hb'
    have hoth : ∀ w', w' ≠ w → (s'.pc w').box ≠ some b' := fun w' hw' => by
      rw [hpc w' hw']
      exact hothers w' hw'
    rcases hb with ⟨hbox, hin, hphase⟩ | ⟨hbox, hin, hquiet⟩
    · exact .used w hin hbox hoth hphase
    · refine .free hin (fun w' => ?_) hquiet
      by_cases he : w' = w
      · rw [he, hbox]
        exact Option.some_ne_none b' |>.symm
      · exact hoth w' he
  · refine (h b').keep (hsame b' hb') (fun w' => ?_) fun w' hw' => ?_
    · by_cases he : w' = w
      · subst he
        refine .inr ⟨fun hc => hb' (hw b' hc), ?_⟩
        rcases hb with ⟨hbox, -, -⟩ | ⟨hbox, -, -⟩
        · rw [hbox]
          exact fun hc => hb' (Option.some.inj hc).symm
        · rw [hbox]
          exact Option.some_ne_none b' |>.symm
      · exact .inl (hpc w' he)
    · refine hv w' fun he => hb' (hw b' ?_)
      rw [← he]
      exact hw'

/-! ## The free mailboxes -/

/-- **The semaphore** counts the free mailboxes that nobody is entitled to. -/
structure SemOk (s : CanTx W n) : Prop where
  holdersNodup : s.holders.Nodup
  holders : ∀ w, w ∈ s.holders ↔ (s.pc w).holds = true
  waitersNodup : s.semWaiters.Nodup
  waiters : ∀ w ∈ s.semWaiters, (s.pc w).queued = true
  freeNodup : s.freelist.Nodup
  free : ∀ b, b ∈ s.freelist ↔ s.inside b = []
  count : s.sem + s.holders.length = s.freelist.length

namespace SemOk

variable {p : TxPc n} (h : s.SemOk)
include h

theorem not_holds (hw : (s.pc w).holds = false) : w ∉ s.holders := fun hm => by
  rw [(h.holders w).mp hm] at hw
  cases hw

theorem not_queued (hw : (s.pc w).queued = false) : w ∉ s.semWaiters := fun hm => by
  rw [h.waiters w hm] at hw
  cases hw

/-- The semaphore and the list stay. -/
theorem keep (hfree : s'.freelist = s.freelist) (hsem : s'.sem = s.sem) (hwait : s'.semWaiters = s.semWaiters)
    (hhold : s'.holders = s.holders) (hin : ∀ b, s'.inside b = [] ↔ s.inside b = [])
    (hpc : ∀ w, (s'.pc w).holds = (s.pc w).holds ∧ ((s.pc w).queued = true → (s'.pc w).queued = true)) :
    s'.SemOk := by
  refine ⟨hhold ▸ h.holdersNodup, fun w => ?_, hwait ▸ h.waitersNodup, fun w hw => ?_, hfree ▸ h.freeNodup,
    fun b => ?_, ?_⟩
  · rw [hhold, (hpc w).1]
    exact h.holders w
  · exact (hpc w).2 (h.waiters w (hwait ▸ hw))
  · rw [hfree, hin b]
    exact h.free b
  · rw [hsem, hhold, hfree]
    exact h.count

/-- A writer that goes on outside of the semaphore. -/
theorem goto (hfree : s'.freelist = s.freelist) (hsem : s'.sem = s.sem) (hwait : s'.semWaiters = s.semWaiters)
    (hhold : s'.holders = s.holders) (hin : ∀ b, s'.inside b = [] ↔ s.inside b = [])
    (hpc : s'.pc = Function.update s.pc w p) (ho : p.holds = (s.pc w).holds)
    (hq : (s.pc w).queued = false) : s'.SemOk := by
  refine h.keep hfree hsem hwait hhold hin fun w' => ?_
  rw [hpc]
  by_cases he : w' = w
  · subst he
    rw [Function.update_self]
    exact ⟨ho, fun hc => absurd (hq.symm.trans hc) Bool.false_ne_true⟩
  · rw [Function.update_of_ne he]
    exact ⟨rfl, id⟩

/-- The writers on the way, when one joins them. -/
theorem join (hw : (s.pc w).holds = false) (hpc : p.holds = true) :
    (s.holders ++ [w]).Nodup ∧
      ∀ w', w' ∈ s.holders ++ [w] ↔ (Function.update s.pc w p w').holds = true := by
  refine ⟨List.nodup_append_comm.mp (List.nodup_cons.mpr ⟨h.not_holds hw, h.holdersNodup⟩), fun w' => ?_⟩
  rw [List.mem_append, List.mem_singleton]
  by_cases he : w' = w
  · subst he
    rw [Function.update_self]
    exact ⟨fun _ => hpc, fun _ => .inr rfl⟩
  · rw [Function.update_of_ne he, ← h.holders w']
    exact ⟨fun hm => hm.resolve_right he, .inl⟩

/-- The writers on the way, when one leaves them. -/
theorem part (hpc : p.holds = false) :
    (s.holders.erase w).Nodup ∧
      ∀ w', w' ∈ s.holders.erase w ↔ (Function.update s.pc w p w').holds = true := by
  refine ⟨h.holdersNodup.erase w, fun w' => ?_⟩
  rw [h.holdersNodup.mem_erase_iff]
  by_cases he : w' = w
  · subst he
    rw [Function.update_self, hpc]
    exact ⟨fun hm => absurd rfl hm.1, fun hc => absurd hc Bool.false_ne_true⟩
  · rw [Function.update_of_ne he, ← h.holders w']
    exact ⟨fun hm => hm.2, fun hm => ⟨he, hm⟩⟩

/-- The writers that wait, when another goes on. -/
theorem still_queued (hw : w ∉ s.semWaiters) : ∀ w' ∈ s.semWaiters, (Function.update s.pc w p w').queued = true := by
  intro w' hw'
  have hne : w' ≠ w := fun he => hw (he ▸ hw')
  rw [Function.update_of_ne hne]
  exact h.waiters w' hw'

/-- **`rt_sem_take`** of a value. -/
theorem take {rest : List ℕ} {sent : ℕ} (hw : (s.pc w).holds = false) (hq : (s.pc w).queued = false)
    (hpos : 0 < s.sem) :
    SemOk { s.goto w (.granted rest sent) with sem := s.sem - 1, holders := s.holders ++ [w] } := by
  have hjoin := h.join (p := .granted rest sent) hw rfl
  refine ⟨hjoin.1, hjoin.2, h.waitersNodup, h.still_queued (h.not_queued hq), h.freeNodup, h.free, ?_⟩
  show s.sem - 1 + (s.holders ++ [w]).length = s.freelist.length
  have hcount := h.count
  rw [List.length_append, List.length_singleton]
  omega

/-- **`rt_sem_take`** that waits. -/
theorem queue {rest : List ℕ} {sent : ℕ} (hw : (s.pc w).holds = false) (hq : (s.pc w).queued = false) :
    SemOk { s.goto w (.semWait rest sent) with semWaiters := s.semWaiters ++ [w] } := by
  have hnot := h.not_queued hq
  refine ⟨h.holdersNodup, fun w' => ?_, List.nodup_append_comm.mp (List.nodup_cons.mpr ⟨hnot, h.waitersNodup⟩),
    fun w' hw' => ?_, h.freeNodup, h.free, h.count⟩
  · show w' ∈ s.holders ↔ (Function.update s.pc w _ w').holds = true
    by_cases he : w' = w
    · subst he
      rw [Function.update_self]
      exact ⟨fun hm => absurd hm (h.not_holds hw), fun hc => absurd hc Bool.false_ne_true⟩
    · rw [Function.update_of_ne he]
      exact h.holders w'
  · show (Function.update s.pc w _ w').queued = true
    rcases List.mem_append.mp hw' with hm | hm
    · exact h.still_queued hnot w' hm
    · rw [List.mem_singleton.mp hm, Function.update_self]
      rfl

/-- A mailbox is taken off `freelist`. -/
theorem pick {rest : List ℕ} {sent : ℕ} {b : Fin n} {l : List (Fin n)} (hl : s.freelist = b :: l)
    (hw : (s.pc w).holds = true) (hq : (s.pc w).queued = false) :
    SemOk { (s.enter w b).goto w (.picked rest sent b) with freelist := l, holders := s.holders.erase w } := by
  have hpart := h.part (w := w) (p := .picked rest sent b) rfl
  have hnodup := h.freeNodup
  rw [hl, List.nodup_cons] at hnodup
  refine ⟨hpart.1, hpart.2, h.waitersNodup, h.still_queued (h.not_queued hq), hnodup.2, fun b' => ?_, ?_⟩
  · show b' ∈ l ↔ Function.update s.inside b (s.inside b ++ [w]) b' = []
    by_cases he : b' = b
    · subst he
      rw [Function.update_self]
      exact ⟨fun hm => absurd hm hnodup.1, fun hc => absurd hc (List.append_ne_nil_of_right_ne_nil _
        (List.cons_ne_nil w []))⟩
    · rw [Function.update_of_ne he, ← h.free b', hl, List.mem_cons]
      exact ⟨.inr, fun hm => hm.resolve_left he⟩
  · show s.sem + (s.holders.erase w).length = l.length
    have hmem := (h.holders w).mpr hw
    have hcount := h.count
    have hpos := List.length_pos_of_mem hmem
    rw [hl, List.length_cons] at hcount
    rw [List.length_erase_of_mem hmem]
    omega

/-- A mailbox is put back on `freelist`. -/
theorem giveBack {rest : List ℕ} {sent : ℕ} {outcome : Option Bool} {b : Fin n} (hin : s.inside b = [w])
    (hw : (s.pc w).holds = false) (hq : (s.pc w).queued = false) :
    SemOk ((s.giveBack w b).goto w (.putBack rest sent outcome)) := by
  have hjoin := h.join (p := .putBack rest sent outcome) hw rfl
  have hnot : b ∉ s.freelist := fun hm => by
    rw [(h.free b).mp hm] at hin
    exact absurd hin (List.cons_ne_nil w []).symm
  refine ⟨hjoin.1, hjoin.2, h.waitersNodup, h.still_queued (h.not_queued hq),
    List.nodup_append_comm.mp (List.nodup_cons.mpr ⟨hnot, h.freeNodup⟩), fun b' => ?_, ?_⟩
  · show b' ∈ s.freelist ++ [b] ↔ Function.update s.inside b ((s.inside b).erase w) b' = []
    rw [List.mem_append, List.mem_singleton]
    by_cases he : b' = b
    · subst he
      rw [Function.update_self, hin, List.erase_cons_head]
      exact ⟨fun _ => rfl, fun _ => .inr rfl⟩
    · rw [Function.update_of_ne he, ← h.free b']
      exact ⟨fun hm => hm.resolve_right he, .inl⟩
  · show s.sem + (s.holders ++ [w]).length = (s.freelist ++ [b]).length
    have hcount := h.count
    rw [List.length_append, List.length_append, List.length_singleton, List.length_singleton]
    omega

/-- The value is raised. -/
theorem raise (hw : (s.pc w).holds = true) (hq : (s.pc w).queued = false) (hpc : p.holds = false) :
    SemOk { s.goto w p with sem := s.sem + 1, holders := s.holders.erase w } := by
  have hpart := h.part (w := w) hpc
  refine ⟨hpart.1, hpart.2, h.waitersNodup, h.still_queued (h.not_queued hq), h.freeNodup, h.free, ?_⟩
  show s.sem + 1 + (s.holders.erase w).length = s.freelist.length
  have hmem := (h.holders w).mpr hw
  have hpos := List.length_pos_of_mem hmem
  have hcount := h.count
  rw [List.length_erase_of_mem hmem]
  omega

/-- The first writer that waits gets the value. -/
theorem handOver {ws : List W} {rest : List ℕ} {sent : ℕ} (hl : s.semWaiters = w :: ws) (hpos : 0 < s.sem) :
    SemOk { s.goto w (.granted rest sent) with
      sem := s.sem - 1, semWaiters := ws, holders := s.holders ++ [w] } := by
  have hq : (s.pc w).queued = true := h.waiters w (hl ▸ List.mem_cons_self)
  have hw : (s.pc w).holds = false := by
    cases hpc : s.pc w <;> rw [hpc] at hq
    case semWait => rfl
    all_goals exact absurd hq Bool.false_ne_true
  have hjoin := h.join (p := .granted rest sent) hw rfl
  have hnodup := h.waitersNodup
  rw [hl, List.nodup_cons] at hnodup
  refine ⟨hjoin.1, hjoin.2, hnodup.2, fun w' hw' => ?_, h.freeNodup, h.free, ?_⟩
  · show (Function.update s.pc w _ w').queued = true
    have hne : w' ≠ w := fun he => hnodup.1 (he ▸ hw')
    rw [Function.update_of_ne hne]
    exact h.waiters w' (hl ▸ List.mem_cons_of_mem w hw')
  · show s.sem - 1 + (s.holders ++ [w]).length = s.freelist.length
    have hcount := h.count
    rw [List.length_append, List.length_singleton]
    omega

end SemOk

/-! ## The steps -/

/-- **The mailboxes are in order.** -/
structure TxOk (s : CanTx W n) : Prop where
  mails : ∀ b, s.MailAt b
  inPriv : s.privmode = true → ∀ w, (s.pc w).inPriv = true
  sems : s.privmode = false → s.SemOk
  outcome : ∀ w r, (s.pc w).outcome = some r → s.verdict w = some r
  counts : ∀ e ∈ s.counts, e.1 = some e.2
  sent : s.sndpkg = s.counts.countP (fun e => e.2)

/-- The condition: in private mode a writer looks at a mailbox only when the result is `RT_CAN_SND_RESULT_OK` and
no other writer is between this look and the reading of its result. -/
def txOk (s : CanTx W n) : CanTxLabel W n → Bool
  | .go w _ =>
    match s.pc w with
    | .loop (m :: _) _ =>
      !s.privmode || (if h : m < n then decide (s.result ⟨m, h⟩ = .ok) && (s.inside ⟨m, h⟩).isEmpty else true)
    | _ => true
  | _ => true

theorem semRelease_nil {holders : List W} (hl : s.semWaiters = []) :
    semRelease { s with holders := holders } = { s with sem := s.sem + 1, holders := holders } := by
  unfold semRelease
  dsimp only
  rw [hl]

theorem semRelease_cons {holders ws : List W} {w₁ : W} {rest : List ℕ} {sent : ℕ} (hl : s.semWaiters = w₁ :: ws)
    (hpc : s.pc w₁ = .semWait rest sent) : semRelease { s with holders := holders } =
      { s.goto w₁ (.granted rest sent) with semWaiters := ws, holders := holders ++ [w₁] } := by
  unfold semRelease
  dsimp only
  rw [hl]
  dsimp only
  rw [hpc]
  rfl

namespace TxOk

variable (h : s.TxOk)
include h

/-- **A step of one writer.** -/
theorem of_step (w : W) (hmails : ∀ b, s'.MailAt b) (hmode : s'.privmode = s.privmode)
    (hpc : ∀ w', w' ≠ w → s'.pc w' = s.pc w') (hv : ∀ w', w' ≠ w → s'.verdict w' = s.verdict w')
    (hpriv : s.privmode = true → (s'.pc w).inPriv = true) (hsems : s.privmode = false → s'.SemOk)
    (hout : ∀ r, (s'.pc w).outcome = some r → s'.verdict w = some r) (hcounts : ∀ e ∈ s'.counts, e.1 = some e.2)
    (hsent : s'.sndpkg = s'.counts.countP (fun e => e.2)) : s'.TxOk := by
  refine ⟨hmails, fun hp w' => ?_, fun hp => hsems (hmode ▸ hp), fun w' r hr => ?_, hcounts, hsent⟩
  · by_cases he : w' = w
    · subst he
      exact hpriv (hmode ▸ hp)
    · rw [hpc w' he]
      exact h.inPriv (hmode ▸ hp) w'
  · by_cases he : w' = w
    · subst he
      exact hout r hr
    · rw [hpc w' he] at hr
      rw [hv w' he]
      exact h.outcome w' r hr

/-- The mailboxes, when a writer goes on outside of them. -/
theorem pass (hsame : ∀ b, s.SameMail s' b) (hpc : ∀ w', w' ≠ w → s'.pc w' = s.pc w')
    (hv : s'.verdict = s.verdict) (hbox : (s.pc w).box = none) (hbox' : (s'.pc w).box = none) (b : Fin n) :
    s'.MailAt b := by
  refine (h.mails b).keep (hsame b) (fun w' => ?_) fun w' _ => congrFun hv w'
  by_cases he : w' = w
  · subst he
    rw [hbox, hbox']
    exact .inr ⟨(Option.some_ne_none b).symm, (Option.some_ne_none b).symm⟩
  · exact .inl (hpc w' he)

/-- A writer that goes on outside of the mailboxes. -/
theorem outside {pc : TxPc n} (hpc : s'.pc = Function.update s.pc w pc) (hbox : (s.pc w).box = none)
    (hbox' : pc.box = none) (hsame : ∀ b, s.SameMail s' b) (hv : s'.verdict = s.verdict)
    (hmode : s'.privmode = s.privmode) (hpriv : s.privmode = true → pc.inPriv = true)
    (hout : ∀ r, pc.outcome = some r → s.verdict w = some r) (hsems : s.privmode = false → s'.SemOk)
    (hcounts : ∀ e ∈ s'.counts, e.1 = some e.2) (hsent : s'.sndpkg = s'.counts.countP (fun e => e.2)) :
    s'.TxOk := by
  have hself : s'.pc w = pc := by
    rw [hpc]
    exact Function.update_self ..
  have hne : ∀ w', w' ≠ w → s'.pc w' = s.pc w' := fun w' he => by
    rw [hpc]
    exact Function.update_of_ne he ..
  refine h.of_step w (h.pass hsame hne hv hbox (hself ▸ hbox')) hmode hne (fun w' _ => congrFun hv w') ?_ hsems ?_
    hcounts hsent
  · rw [hself]
    exact hpriv
  · rw [hself, hv]
    exact hout

/-- A writer that goes on with nothing in its hands. -/
theorem goto {pc : TxPc n} (hbox : (s.pc w).box = none) (hbox' : pc.box = none)
    (hpriv : s.privmode = true → pc.inPriv = true) (hout : ∀ r, pc.outcome = some r → s.verdict w = some r)
    (hsem : s.privmode = false → (s.goto w pc).SemOk) : (s.goto w pc).TxOk :=
  h.outside rfl hbox hbox' (fun _ => ⟨rfl, rfl, rfl, rfl, rfl, rfl⟩) rfl rfl hpriv hout hsem h.counts h.sent

/-- A writer that goes on in its mailbox, or into or out of it. -/
theorem inBox {pc : TxPc n} (hpc : s'.pc = Function.update s.pc w pc)
    (hothers : ∀ w', w' ≠ w → (s.pc w').box ≠ some b) (hw : ∀ b', (s.pc w).box = some b' → b' = b)
    (hsame : ∀ b', b' ≠ b → s.SameMail s' b') (hv : ∀ w', w' ≠ w → s'.verdict w' = s.verdict w')
    (hb : pc.box = some b ∧ s'.inside b = [w] ∧ s'.Phase b w pc ∨
      pc.box = none ∧ s'.inside b = [] ∧ s'.Quiet b)
    (hmode : s'.privmode = s.privmode) (hpriv : s.privmode = true → pc.inPriv = true)
    (hout : ∀ r, pc.outcome = some r → s'.verdict w = some r) (hsems : s.privmode = false → s'.SemOk)
    (hcounts : s'.counts = s.counts) (hsent : s'.sndpkg = s.sndpkg) : s'.TxOk := by
  have hself : s'.pc w = pc := by
    rw [hpc]
    exact Function.update_self ..
  have hne : ∀ w', w' ≠ w → s'.pc w' = s.pc w' := fun w' he => by
    rw [hpc]
    exact Function.update_of_ne he ..
  refine h.of_step w (MailAt.step h.mails hne hv hsame hothers hw (by rw [hself]; exact hb)) hmode hne hv ?_ hsems
    ?_ (hcounts ▸ h.counts) ?_
  · rw [hself]
    exact hpriv
  · rw [hself]
    exact hout
  · rw [hsent, hcounts]
    exact h.sent

/-- A writer takes a mailbox that is not used. -/
theorem enter {pc : TxPc n} (hin : s.inside b = []) (hbox : (s.pc w).box = none)
    (hpc : s'.pc = Function.update s.pc w pc) (hinside : s'.inside = Function.update s.inside b (s.inside b ++ [w]))
    (hbox' : pc.box = some b) (hphase : s.Quiet b → s'.Phase b w pc)
    (hsame : ∀ b', b' ≠ b → s'.result b' = s.result b') (hpending : s'.pending = s.pending)
    (hsignal : s'.signalling = s.signalling) (hsus : s'.suspended = s.suspended) (hflag : s'.flag = s.flag)
    (hv : s'.verdict = s.verdict) (hmode : s'.privmode = s.privmode)
    (hpriv : s.privmode = true → pc.inPriv = true) (hout : pc.outcome = none)
    (hsems : s.privmode = false → s'.SemOk) (hcounts : s'.counts = s.counts) (hsent : s'.sndpkg = s.sndpkg) :
    s'.TxOk := by
  obtain ⟨hothers, hquiet⟩ := (h.mails b).unused hin
  refine h.inBox hpc (fun w' _ => hothers w') (fun b' hb' => ?_) (fun b' hb' => ?_)
    (fun w' _ => congrFun hv w') (.inl ⟨hbox', ?_, hphase hquiet⟩) hmode hpriv (fun r hr => ?_) hsems hcounts hsent
  · rw [hbox] at hb'
    cases hb'
  · refine ⟨congrFun hpending b', congrFun hsignal b', congrFun hsus b', congrFun hflag b', hsame b' hb', ?_⟩
    rw [hinside]
    exact Function.update_of_ne hb' ..
  · rw [hinside, Function.update_self, hin, List.nil_append]
  · rw [hout] at hr
    cases hr

/-- **The head of the loop.** -/
theorem look {rest : List ℕ} {sent : ℕ} (hpc : s.pc w = .loop rest sent) {sendOk : Bool}
    (hok : s.txOk (.go w sendOk) = true) (hst : s.writerStep w sendOk = some s') : s'.TxOk := by
  have hbox : (s.pc w).box = none := by rw [hpc]; rfl
  have hhold : (s.pc w).holds = false := by rw [hpc]; rfl
  have hq : (s.pc w).queued = false := by rw [hpc]; rfl
  have hreturn : (s.goto w (.returned sent)).TxOk :=
    h.goto hbox rfl (fun _ => rfl) (fun _ hr => nomatch hr) fun hp =>
      (h.sems hp).goto rfl rfl rfl rfl (fun _ => Iff.rfl) rfl hhold.symm hq
  unfold writerStep at hst
  unfold txOk at hok
  dsimp only at hok
  rw [hpc] at hst
  rw [hpc] at hok
  cases rest with
  | nil =>
    obtain rfl := Option.some.inj hst
    exact hreturn
  | cons m rest =>
    dsimp only at hst hok
    by_cases hp : s.privmode = true
    · rw [if_pos hp] at hst
      rw [hp, Bool.not_true, Bool.false_or] at hok
      by_cases hm : m < n
      · rw [dif_pos hm] at hst
        rw [dif_pos hm, Bool.and_eq_true, List.isEmpty_iff] at hok
        have hres : s.result ⟨m, hm⟩ = .ok := of_decide_eq_true hok.1
        rw [if_neg (not_not.mpr hres)] at hst
        obtain rfl := Option.some.inj hst
        refine h.enter hok.2 hbox rfl rfl rfl (fun hquiet => ?_) (fun b' hb' => Function.update_of_ne hb' ..)
          rfl rfl rfl rfl rfl rfl (fun _ => rfl) rfl (fun hp' => absurd (hp.symm.trans hp') (nomatch ·)) rfl rfl
        exact ⟨hquiet.pending, hquiet.signalling, hquiet.suspended, hquiet.flag⟩
      · rw [dif_neg hm] at hst
        obtain rfl := Option.some.inj hst
        exact hreturn
    · rw [if_neg hp] at hst
      have hp' : s.privmode = false := Bool.not_eq_true _ |>.mp hp
      by_cases hpos : 0 < s.sem
      · rw [if_pos hpos] at hst
        obtain rfl := Option.some.inj hst
        exact h.outside rfl hbox rfl (fun _ => ⟨rfl, rfl, rfl, rfl, rfl, rfl⟩) rfl rfl (fun hc => absurd hc hp)
          (fun _ hr => nomatch hr) (fun _ => (h.sems hp').take hhold hq hpos) h.counts h.sent
      · rw [if_neg hpos] at hst
        obtain rfl := Option.some.inj hst
        exact h.outside rfl hbox rfl (fun _ => ⟨rfl, rfl, rfl, rfl, rfl, rfl⟩) rfl rfl (fun hc => absurd hc hp)
          (fun _ hr => nomatch hr) (fun _ => (h.sems hp').queue hhold hq) h.counts h.sent

/-- Normal mode. -/
theorem normal (hw : (s.pc w).inPriv = false) : s.privmode = false := by
  by_contra hp
  rw [h.inPriv (Bool.not_eq_false _ ▸ hp) w] at hw
  cases hw

/-- A mailbox off `freelist`. -/
theorem pick {rest : List ℕ} {sent : ℕ} (hpc : s.pc w = .granted rest sent) {sendOk : Bool}
    (hst : s.writerStep w sendOk = some s') : s'.TxOk := by
  have hbox : (s.pc w).box = none := by rw [hpc]; rfl
  have hmode := h.normal (w := w) (by rw [hpc]; rfl)
  have hsem := h.sems hmode
  unfold writerStep at hst
  rw [hpc] at hst
  dsimp only at hst
  cases hl : s.freelist with
  | nil =>
    rw [hl] at hst
    cases hst
  | cons b l =>
    rw [hl] at hst
    obtain rfl := Option.some.inj hst
    have hin : s.inside b = [] := (hsem.free b).mp (hl ▸ List.mem_cons_self)
    refine h.enter hin hbox rfl rfl rfl (fun hquiet => ?_) (fun _ _ => rfl) rfl rfl rfl rfl rfl rfl
      (fun hp => absurd (hp.symm.trans hmode) (nomatch ·)) rfl
      (fun _ => hsem.pick hl (by rw [hpc]; rfl) (by rw [hpc]; rfl)) rfl rfl
    exact ⟨hquiet.pending, hquiet.signalling, hquiet.suspended, hquiet.flag⟩

/-- A writer that stays in its mailbox. -/
theorem stay {p : TxPc n} (hbox : (s.pc w).box = some b) (hpc : s'.pc = Function.update s.pc w p)
    (hbox' : p.box = some b) (hphase : s.Phase b w (s.pc w) → s'.Phase b w p)
    (hsame : ∀ b', b' ≠ b → s.SameMail s' b') (hinside : s'.inside = s.inside)
    (hv : ∀ w', w' ≠ w → s'.verdict w' = s.verdict w') (hmode : s'.privmode = s.privmode)
    (hpriv : s.privmode = true → p.inPriv = true) (hfree : s'.freelist = s.freelist) (hsem : s'.sem = s.sem)
    (hwait : s'.semWaiters = s.semWaiters) (hhold : s'.holders = s.holders) (hcounts : s'.counts = s.counts)
    (hsent : s'.sndpkg = s.sndpkg) : s'.TxOk := by
  obtain ⟨hin, hothers, hphase₀⟩ := (h.mails b).writer hbox
  have hplain : ∀ q : TxPc n, q.box = some b → q.holds = false ∧ q.queued = false ∧ q.outcome = none := by
    intro q hq
    cases q
    case picked | ready | refused | posted | waiting | woken | finished => exact ⟨rfl, rfl, rfl⟩
    all_goals cases hq
  obtain ⟨hh, hq, -⟩ := hplain _ hbox
  obtain ⟨hh', -, ho'⟩ := hplain _ hbox'
  refine h.inBox hpc hothers (fun b' hb' => ?_) hsame hv (.inl ⟨hbox', hinside ▸ hin, hphase hphase₀⟩) hmode hpriv
    (fun r hr => ?_) (fun hn => ?_) hcounts hsent
  · exact Option.some.inj (hb'.symm.trans hbox)
  · rw [ho'] at hr
    cases hr
  · exact (h.sems hn).goto hfree hsem hwait hhold (fun _ => by rw [hinside]) hpc (hh'.trans hh.symm) hq

/-- `rt_completion_init`. -/
theorem prepare {rest : List ℕ} {sent : ℕ} (hpc : s.pc w = .picked rest sent b) {sendOk : Bool}
    (hst : s.writerStep w sendOk = some s') : s'.TxOk := by
  unfold writerStep at hst
  rw [hpc] at hst
  obtain rfl := Option.some.inj hst
  have hmode := h.normal (w := w) (by rw [hpc]; rfl)
  refine h.stay (by rw [hpc]; rfl) rfl rfl (fun hphase => ?_) (fun b' hb' => ?_) rfl (fun _ _ => rfl) rfl
    (fun _ => rfl) rfl rfl rfl rfl rfl rfl
  · rw [hpc] at hphase
    exact ⟨hphase.pending, hphase.signalling, Function.update_self .., Function.update_self ..⟩
  · exact ⟨rfl, rfl, Function.update_of_ne hb' .., Function.update_of_ne hb' .., Function.update_of_ne hb' .., rfl⟩

/-- **`ops->sendmsg`** has taken the message. -/
theorem send {rest : List ℕ} {sent : ℕ} (hpc : s.pc w = .ready rest sent b) :
    TxOk { s.goto w (.posted rest sent b) with
      pending := Function.update s.pending b (s.pending b ++ [w])
      verdict := Function.update s.verdict w none } := by
  refine h.stay (by rw [hpc]; rfl) rfl rfl (fun hphase => ?_) (fun b' hb' => ?_) rfl
    (fun w' hw' => Function.update_of_ne hw' ..) rfl (fun _ => rfl) rfl rfl rfl rfl rfl rfl
  · rw [hpc] at hphase
    refine ⟨hphase.suspended, .inl ⟨hphase.flag, .inl ⟨?_, hphase.signalling⟩⟩⟩
    show Function.update s.pending b (s.pending b ++ [w]) b = [w]
    rw [Function.update_self, hphase.pending, List.nil_append]
  · exact ⟨Function.update_of_ne hb' .., rfl, rfl, rfl, rfl, rfl⟩

/-- A writer leaves its mailbox. -/
theorem leave {pc : TxPc n} (hbox : (s.pc w).box = some b) (hpc : s'.pc = Function.update s.pc w pc)
    (hbox' : pc.box = none) (hquiet : s.Phase b w (s.pc w) → s.Quiet b)
    (hinside : s'.inside = Function.update s.inside b ((s.inside b).erase w)) (hpending : s'.pending = s.pending)
    (hsignal : s'.signalling = s.signalling) (hsus : s'.suspended = s.suspended) (hflag : s'.flag = s.flag)
    (hresult : s'.result = s.result) (hv : s'.verdict = s.verdict) (hmode : s'.privmode = s.privmode)
    (hpriv : s.privmode = true → pc.inPriv = true) (hout : ∀ r, pc.outcome = some r → s.verdict w = some r)
    (hsems : s.privmode = false → s'.SemOk) (hcounts : s'.counts = s.counts) (hsent : s'.sndpkg = s.sndpkg) :
    s'.TxOk := by
  obtain ⟨hin, hothers, hp⟩ := (h.mails b).writer hbox
  have hq := hquiet hp
  refine h.inBox hpc hothers (fun b' hb' => ?_) (fun b' hb' => ?_) (fun w' _ => congrFun hv w')
    (.inr ⟨hbox', ?_, ?_⟩) hmode hpriv (hv ▸ hout) hsems hcounts hsent
  · exact Option.some.inj (hb'.symm.trans hbox)
  · refine ⟨congrFun hpending b', congrFun hsignal b', congrFun hsus b', congrFun hflag b', congrFun hresult b', ?_⟩
    rw [hinside]
    exact Function.update_of_ne hb' ..
  · rw [hinside, Function.update_self, hin, List.erase_cons_head]
  · refine ⟨?_, ?_, ?_, ?_⟩
    · rw [hpending]
      exact hq.pending
    · rw [hsignal]
      exact hq.signalling
    · rw [hsus]
      exact hq.suspended
    · rw [hflag]
      exact hq.flag

/-- A mailbox back on `freelist`. -/
theorem giveBack {rest : List ℕ} {sent : ℕ} {outcome : Option Bool} (hbox : (s.pc w).box = some b)
    (hhold : (s.pc w).holds = false) (hq : (s.pc w).queued = false) (hmode : s.privmode = false)
    (hquiet : s.Phase b w (s.pc w) → s.Quiet b) (hout : ∀ r, outcome = some r → s.verdict w = some r) :
    TxOk ((s.giveBack w b).goto w (.putBack rest sent outcome)) :=
  h.leave hbox rfl rfl hquiet rfl rfl rfl rfl rfl rfl rfl rfl (fun hp => absurd (hp.symm.trans hmode) (nomatch ·))
    hout (fun _ => (h.sems hmode).giveBack ((h.mails b).writer hbox).1 hhold hq) rfl rfl

/-- A mailbox is left in private mode. -/
theorem leavePriv {pc : TxPc n} (hbox : (s.pc w).box = some b) (hmode : s.privmode = true)
    (hquiet : s.Phase b w (s.pc w) → s.Quiet b) (hbox' : pc.box = none) (hpriv : pc.inPriv = true)
    (hout : ∀ r, pc.outcome = some r → s.verdict w = some r) : TxOk ((s.leave w b).goto w pc) :=
  h.leave hbox rfl hbox' hquiet rfl rfl rfl rfl rfl rfl rfl rfl (fun _ => hpriv) hout
    (fun hp => absurd (hmode.symm.trans hp) (nomatch ·)) rfl rfl

/-- **`ops->sendmsg`.** -/
theorem sendmsg {rest : List ℕ} {sent : ℕ} (hpc : s.pc w = .ready rest sent b) {sendOk : Bool}
    (hst : s.writerStep w sendOk = some s') : s'.TxOk := by
  unfold writerStep at hst
  rw [hpc] at hst
  dsimp only at hst
  by_cases hs : sendOk = true
  · rw [if_pos hs] at hst
    obtain rfl := Option.some.inj hst
    exact h.send hpc
  · rw [if_neg hs] at hst
    have hbox : (s.pc w).box = some b := by rw [hpc]; rfl
    by_cases hp : s.privmode = true
    · rw [if_pos hp] at hst
      obtain rfl := Option.some.inj hst
      exact h.leavePriv hbox hp (by rw [hpc]; exact id) rfl rfl fun _ hr => nomatch hr
    · rw [if_neg hp] at hst
      obtain rfl := Option.some.inj hst
      refine h.stay hbox rfl rfl (fun hphase => ?_) (fun _ _ => ⟨rfl, rfl, rfl, rfl, rfl, rfl⟩) rfl
        (fun _ _ => rfl) rfl (fun hc => absurd hc hp) rfl rfl rfl rfl rfl rfl
      rw [hpc] at hphase
      exact ⟨hphase.pending, hphase.signalling, hphase.suspended, hphase.flag⟩

/-- `sendmsg` has failed in normal mode. -/
theorem refuse {rest : List ℕ} {sent : ℕ} (hpc : s.pc w = .refused rest sent b) {sendOk : Bool}
    (hst : s.writerStep w sendOk = some s') : s'.TxOk := by
  unfold writerStep at hst
  rw [hpc] at hst
  obtain rfl := Option.some.inj hst
  exact h.giveBack (by rw [hpc]; rfl) (by rw [hpc]; rfl) (by rw [hpc]; rfl) (h.normal (w := w) (by rw [hpc]; rfl))
    (by rw [hpc]; exact id) fun _ hr => nomatch hr

/-- **`rt_completion_wait`** up to its `rt_schedule`. -/
theorem wait {rest : List ℕ} {sent : ℕ} (hpc : s.pc w = .posted rest sent b) {sendOk : Bool}
    (hst : s.writerStep w sendOk = some s') : s'.TxOk := by
  unfold writerStep completionWait at hst
  rw [hpc] at hst
  dsimp only at hst
  have hbox : (s.pc w).box = some b := by rw [hpc]; rfl
  by_cases hf : s.flag b = true
  · rw [if_pos hf] at hst
    obtain rfl := Option.some.inj hst
    refine h.stay hbox rfl rfl (fun hphase => ?_) (fun b' hb' => ?_) rfl (fun _ _ => rfl) rfl (fun _ => rfl) rfl rfl
      rfl rfl rfl rfl
    · rw [hpc] at hphase
      obtain ⟨hsus, ⟨hf', -⟩ | ⟨-, hpen, hsig, htold⟩⟩ := hphase
      · exact absurd (hf.symm.trans hf') (nomatch ·)
      · exact ⟨⟨hpen, hsig, hsus, Function.update_self ..⟩, htold⟩
    · exact ⟨rfl, rfl, rfl, Function.update_of_ne hb' .., rfl, rfl⟩
  · rw [if_neg hf] at hst
    obtain rfl := Option.some.inj hst
    refine h.stay hbox rfl rfl (fun hphase => ?_) (fun b' hb' => ?_) rfl (fun _ _ => rfl) rfl (fun _ => rfl) rfl rfl
      rfl rfl rfl rfl
    · rw [hpc] at hphase
      obtain ⟨hsus, ⟨hf', hway⟩ | ⟨hf', -⟩⟩ := hphase
      · refine ⟨rfl, ?_, hf', hway⟩
        show Function.update s.suspended b (s.suspended b ++ [w]) b = [w]
        rw [Function.update_self, hsus, List.nil_append]
      · exact absurd hf' hf
    · exact ⟨rfl, rfl, Function.update_of_ne hb' .., rfl, rfl, rfl⟩

/-- `rt_completion_wait` behind its `rt_schedule`. -/
theorem wake {look : Bool} {rest : List ℕ} {sent : ℕ} (hpc : s.pc w = .woken look rest sent b) {sendOk : Bool}
    (hst : s.writerStep w sendOk = some s') : s'.TxOk := by
  have hbox : (s.pc w).box = some b := by rw [hpc]; rfl
  obtain ⟨-, -, hphase⟩ := (h.mails b).writer hbox
  rw [hpc] at hphase
  obtain ⟨rfl, hsus, hpen, hsig, htold⟩ := hphase
  unfold writerStep at hst
  rw [hpc] at hst
  obtain rfl := Option.some.inj hst
  refine h.stay hbox rfl rfl (fun _ => ?_) (fun b' hb' => ?_) rfl (fun _ _ => rfl) rfl (fun _ => rfl) rfl rfl
    rfl rfl rfl rfl
  · exact ⟨⟨hpen, hsig, hsus, Function.update_self ..⟩, htold⟩
  · exact ⟨rfl, rfl, rfl, Function.update_of_ne hb' .., rfl, rfl⟩

/-- **A writer reads its result.** -/
theorem read {rest : List ℕ} {sent : ℕ} (hpc : s.pc w = .finished rest sent b) {sendOk : Bool}
    (hst : s.writerStep w sendOk = some s') : s'.TxOk := by
  have hbox : (s.pc w).box = some b := by rw [hpc]; rfl
  obtain ⟨-, -, hphase⟩ := (h.mails b).writer hbox
  rw [hpc] at hphase
  have hout : ∀ r, some (decide (s.result b = .ok)) = some r → s.verdict w = some r := fun r hr =>
    hr ▸ hphase.2
  unfold writerStep at hst
  rw [hpc] at hst
  dsimp only at hst
  by_cases hp : s.privmode = true
  · rw [if_pos hp] at hst
    obtain rfl := Option.some.inj hst
    exact h.leavePriv hbox hp (fun _ => hphase.1) rfl rfl hout
  · rw [if_neg hp] at hst
    obtain rfl := Option.some.inj hst
    exact h.giveBack hbox (by rw [hpc]; rfl) (by rw [hpc]; rfl) (Bool.not_eq_true _ |>.mp hp) (fun _ => hphase.1) hout

/-- **`rt_sem_release`.** -/
theorem release {rest : List ℕ} {sent : ℕ} {outcome : Option Bool} (hpc : s.pc w = .putBack rest sent outcome)
    {sendOk : Bool} (hst : s.writerStep w sendOk = some s') : s'.TxOk := by
  have hbox : (s.pc w).box = none := by rw [hpc]; rfl
  have hmode := h.normal (w := w) (by rw [hpc]; rfl)
  have hsem := h.sems hmode
  have hq : (s.pc w).queued = false := by rw [hpc]; rfl
  -- the value is raised, and handed over to a writer that waits
  have hraised : TxOk { s.goto w (.counting rest sent outcome) with
      sem := s.sem + 1, holders := s.holders.erase w } :=
    h.outside rfl hbox rfl (fun _ => ⟨rfl, rfl, rfl, rfl, rfl, rfl⟩) rfl rfl (fun _ => rfl)
      (fun r hr => h.outcome w r (by rw [hpc]; exact hr)) (fun _ => hsem.raise (by rw [hpc]; rfl) hq rfl)
      h.counts h.sent
  unfold writerStep at hst
  rw [hpc] at hst
  obtain rfl := Option.some.inj hst
  obtain ⟨l, hl⟩ : ∃ l, s.semWaiters = l := ⟨_, rfl⟩
  cases l with
  | nil =>
    rw [semRelease_nil hl]
    exact hraised
  | cons w₁ ws =>
    have hmem : w₁ ∈ s.semWaiters := hl ▸ List.mem_cons_self
    have hne : w₁ ≠ w := fun he => hsem.not_queued hq (he ▸ hmem)
    have hq₁ := hsem.waiters w₁ hmem
    obtain ⟨rest₁, sent₁, hpc₁⟩ : ∃ rest sent, s.pc w₁ = .semWait rest sent := by
      cases hpc₁ : s.pc w₁ <;> rw [hpc₁] at hq₁
      case semWait rest₁ sent₁ => exact ⟨rest₁, sent₁, rfl⟩
      all_goals exact absurd hq₁ Bool.false_ne_true
    have hbox₁ : ((s.goto w (.counting rest sent outcome)).pc w₁).box = none := by
      show (Function.update s.pc w _ w₁).box = none
      rw [Function.update_of_ne hne, hpc₁]
      rfl
    rw [semRelease_cons hl hpc₁]
    have hcomm : Function.update (Function.update s.pc w₁ (.granted rest₁ sent₁)) w (.counting rest sent outcome) =
        Function.update (Function.update s.pc w (.counting rest sent outcome)) w₁ (.granted rest₁ sent₁) :=
      Function.update_comm hne ..
    have hover := @SemOk.handOver _ _ _ _ w₁ (hraised.sems hmode) ws rest₁ sent₁ hl (Nat.succ_pos _)
    refine hraised.outside (w := w₁) hcomm hbox₁ rfl (fun _ => ⟨rfl, rfl, rfl, rfl, rfl, rfl⟩) rfl rfl
      (fun hp => absurd (hp.symm.trans hmode) (nomatch ·)) (fun _ hr => nomatch hr)
      (fun _ => hover.keep rfl rfl rfl rfl (fun _ => Iff.rfl) fun w' => ⟨?_, fun hq' => ?_⟩) h.counts h.sent
    · exact congrArg TxPc.holds (congrFun hcomm w')
    · exact (congrArg TxPc.queued (congrFun hcomm w')).trans hq'

/-- **A message is counted.** -/
theorem count {rest : List ℕ} {sent : ℕ} {outcome : Option Bool} (hpc : s.pc w = .counting rest sent outcome)
    {sendOk : Bool} (hst : s.writerStep w sendOk = some s') : s'.TxOk := by
  have hbox : (s.pc w).box = none := by rw [hpc]; rfl
  have hout : ∀ r, outcome = some r → s.verdict w = some r := fun r hr => h.outcome w r (by rw [hpc]; exact hr)
  have hcounts : ∀ r, s.verdict w = some r → ∀ e ∈ (s.verdict w, r) :: s.counts, e.1 = some e.2 := by
    intro r hv e he
    rcases List.mem_cons.mp he with rfl | he
    · exact hv
    · exact h.counts e he
  have hsem : ∀ pc : TxPc n, pc.holds = false → s.privmode = false → SemOk (s.goto w pc) := fun pc hp hmode =>
    (h.sems hmode).goto rfl rfl rfl rfl (fun _ => Iff.rfl) rfl (by rw [hpc, hp]; rfl) (by rw [hpc]; rfl)
  unfold writerStep at hst
  rw [hpc] at hst
  cases outcome with
  | none =>
    obtain rfl := Option.some.inj hst
    exact h.outside rfl hbox rfl (fun _ => ⟨rfl, rfl, rfl, rfl, rfl, rfl⟩) rfl rfl (fun _ => rfl)
      (fun _ hr => nomatch hr) (fun hm => (hsem (.returned sent) rfl hm).keep rfl rfl rfl rfl (fun _ => Iff.rfl)
        fun _ => ⟨rfl, id⟩) h.counts h.sent
  | some r =>
    have hv := hout r rfl
    cases r with
    | false =>
      obtain rfl := Option.some.inj hst
      refine h.outside rfl hbox rfl (fun _ => ⟨rfl, rfl, rfl, rfl, rfl, rfl⟩) rfl rfl (fun _ => rfl)
        (fun _ hr => nomatch hr) (fun hm => (hsem (.returned sent) rfl hm).keep rfl rfl rfl rfl (fun _ => Iff.rfl)
          fun _ => ⟨rfl, id⟩) (hcounts false hv) ?_
      show s.sndpkg = List.countP _ ((s.verdict w, false) :: s.counts)
      rw [List.countP_cons_of_neg Bool.false_ne_true]
      exact h.sent
    | true =>
      obtain rfl := Option.some.inj hst
      have hnext : ∀ pc : TxPc n, pc = (if rest.tail = [] then .returned (sent + 1) else .loop rest.tail (sent + 1)) →
          pc.box = none ∧ pc.holds = false ∧ pc.inPriv = true ∧ pc.outcome = none := by
        intro pc hpc
        split_ifs at hpc <;> rw [hpc] <;> exact ⟨rfl, rfl, rfl, rfl⟩
      obtain ⟨hb, hh, hp, ho⟩ := hnext _ rfl
      refine h.outside rfl hbox hb (fun _ => ⟨rfl, rfl, rfl, rfl, rfl, rfl⟩) rfl rfl (fun _ => hp)
        (fun _ hr => ?_) (fun hm => (hsem _ hh hm).keep rfl rfl rfl rfl (fun _ => Iff.rfl) fun _ => ⟨rfl, id⟩)
        (hcounts true hv) ?_
      · rw [ho] at hr
        cases hr
      · show s.sndpkg + 1 = List.countP _ ((s.verdict w, true) :: s.counts)
        rw [List.countP_cons_of_pos rfl, h.sent]

/-- **A step of a writer.** -/
theorem writerStep {sendOk : Bool} (hok : s.txOk (.go w sendOk) = true) (hst : s.writerStep w sendOk = some s') :
    s'.TxOk := by
  cases hpc : s.pc w with
  | loop rest sent => exact h.look hpc hok hst
  | granted rest sent => exact h.pick hpc hst
  | picked rest sent b => exact h.prepare hpc hst
  | ready rest sent b => exact h.sendmsg hpc hst
  | refused rest sent b => exact h.refuse hpc hst
  | posted rest sent b => exact h.wait hpc hst
  | woken look rest sent b => exact h.wake hpc hst
  | finished rest sent b => exact h.read hpc hst
  | putBack rest sent outcome => exact h.release hpc hst
  | counting rest sent outcome => exact h.count hpc hst
  | idle | returned | semWait | waiting =>
    unfold CanTx.writerStep at hst
    rw [hpc] at hst
    cases hst

theorem write {msgs : List ℕ} (hst : s.write w msgs = some s') : s'.TxOk := by
  unfold CanTx.write at hst
  cases hpc : s.pc w <;> rw [hpc] at hst
  case idle | returned =>
    obtain rfl := Option.some.inj hst
    exact h.goto (by rw [hpc]; rfl) rfl (fun _ => rfl) (fun _ hr => nomatch hr) fun hm =>
      (h.sems hm).goto rfl rfl rfl rfl (fun _ => Iff.rfl) rfl (by rw [hpc]; rfl) (by rw [hpc]; rfl)
  all_goals cases hst

/-- The mailbox of a message that is outstanding. -/
theorem outstanding (hpen : s.pending b ≠ []) :
    ∃ w, (s.pc w).box = some b ∧ s.pending b = [w] ∧ s.signalling b = false ∧ s.Phase b w (s.pc w) := by
  cases h.mails b with
  | free _ _ hquiet => exact absurd hquiet.pending hpen
  | used w hin hw hothers hphase =>
    refine ⟨w, hw, ?_⟩
    cases hpc : s.pc w <;> rw [hpc] at hphase
    case posted =>
      obtain ⟨-, ⟨-, ⟨hp, hs⟩ | ⟨hp, -⟩⟩ | ⟨-, hp, -⟩⟩ := id hphase
      · exact ⟨hp, hs, hphase⟩
      all_goals exact absurd hp hpen
    case waiting =>
      obtain ⟨-, -, -, ⟨hp, hs⟩ | ⟨hp, -⟩⟩ := id hphase
      · exact ⟨hp, hs, hphase⟩
      · exact absurd hp hpen
    case picked | ready | refused => exact absurd hphase.pending hpen
    case woken => exact absurd hphase.2.2.1 hpen
    case finished => exact absurd hphase.1.pending hpen
    all_goals exact hphase.elim

/-- **The interrupt writes the result.** -/
theorem txEvent {done : Bool} (hst : s.txEvent b done = some s') : s'.TxOk := by
  unfold CanTx.txEvent at hst
  by_cases hpen : s.pending b = []
  · rw [hpen] at hst
    cases hst
  · obtain ⟨w, hbox, hp, hsig, hphase⟩ := h.outstanding hpen
    rw [hp] at hst
    dsimp only at hst
    rw [hsig, if_neg Bool.false_ne_true] at hst
    obtain rfl := Option.some.inj hst
    have htold : some done = some (decide ((if done then SndResult.ok else SndResult.err) = .ok)) := by
      cases done <;> rfl
    refine h.stay (p := s.pc w) hbox (Function.update_eq_self w s.pc).symm hbox (fun _ => ?_) (fun b' hb' => ?_)
      rfl (fun w' hw' => Function.update_of_ne hw' ..) rfl (fun hm => h.inPriv hm w) rfl rfl rfl rfl rfl rfl
    · have hway : Underway { s with
          pending := Function.update s.pending b []
          result := Function.update s.result b (if done then .ok else .err)
          verdict := Function.update s.verdict w (some done)
          signalling := Function.update s.signalling b true } b w := by
        refine .inr ⟨Function.update_self .., Function.update_self .., ?_⟩
        show Function.update s.verdict w (some done) w = some (decide (Function.update s.result b _ b = .ok))
        rw [Function.update_self, Function.update_self]
        exact htold
      cases hpc : s.pc w <;> rw [hpc] at hphase
      case posted =>
        obtain ⟨hsus, ⟨hf, -⟩ | ⟨-, hp', -⟩⟩ := hphase
        · exact ⟨hsus, .inl ⟨hf, hway⟩⟩
        · exact absurd hp' hpen
      case waiting => exact ⟨hphase.1, hphase.2.1, hphase.2.2.1, hway⟩
      case picked | ready | refused => exact absurd hphase.pending hpen
      case woken => exact absurd hphase.2.2.1 hpen
      case finished => exact absurd hphase.1.pending hpen
      all_goals exact hphase.elim
    · exact ⟨Function.update_of_ne hb' .., Function.update_of_ne hb' .., rfl, rfl, Function.update_of_ne hb' .., rfl⟩

/-- The mailbox of a result that has been written. -/
theorem raised (hsig : s.signalling b = true) :
    ∃ w, (s.pc w).box = some b ∧ s.pending b = [] ∧ s.flag b = false ∧ s.Told b w ∧ s.Phase b w (s.pc w) ∧
      ((∃ rest sent, s.pc w = .posted rest sent b) ∧ s.suspended b = [] ∨
        (∃ rest sent, s.pc w = .waiting false rest sent b) ∧ s.suspended b = [w]) := by
  have hno : s.signalling b = false → False := fun hs => absurd (hs.symm.trans hsig) Bool.false_ne_true
  cases h.mails b with
  | free _ _ hquiet => exact (hno hquiet.signalling).elim
  | used w hin hw hothers hphase =>
    refine ⟨w, hw, ?_⟩
    cases hpc : s.pc w <;> rw [hpc] at hphase hw
    case posted rest sent b' =>
      obtain rfl := Option.some.inj hw
      obtain ⟨hsus, ⟨hf, ⟨-, hs⟩ | ⟨hp, -, ht⟩⟩ | ⟨-, -, hs, -⟩⟩ := id hphase
      · exact (hno hs).elim
      · exact ⟨hp, hf, ht, hphase, .inl ⟨⟨rest, sent, rfl⟩, hsus⟩⟩
      · exact (hno hs).elim
    case waiting look rest sent b' =>
      obtain rfl := Option.some.inj hw
      obtain ⟨rfl, hsus, hf, ⟨-, hs⟩ | ⟨hp, -, ht⟩⟩ := id hphase
      · exact (hno hs).elim
      · exact ⟨hp, hf, ht, hphase, .inr ⟨⟨rest, sent, rfl⟩, hsus⟩⟩
    case picked | ready | refused => exact (hno hphase.signalling).elim
    case woken => exact (hno hphase.2.2.2.1).elim
    case finished => exact (hno hphase.1.signalling).elim
    all_goals exact hphase.elim

/-- **`rt_completion_done`.** -/
theorem txDone (hst : s.txDone b = some s') : s'.TxOk := by
  unfold CanTx.txDone at hst
  by_cases hsig : s.signalling b = true
  · rw [if_pos hsig] at hst
    dsimp only at hst
    obtain ⟨w, hbox, hpen, hf, htold, hphase, hplace⟩ := h.raised hsig
    rw [hf, if_neg Bool.false_ne_true] at hst
    rcases hplace with ⟨⟨rest, sent, hpc⟩, hsus⟩ | ⟨⟨rest, sent, hpc⟩, hsus⟩
    · rw [hsus] at hst
      obtain rfl := Option.some.inj hst
      refine h.stay (p := s.pc w) hbox (Function.update_eq_self w s.pc).symm hbox (fun _ => ?_) (fun b' hb' => ?_)
        rfl (fun _ _ => rfl) rfl (fun hm => h.inPriv hm w) rfl rfl rfl rfl rfl rfl
      · rw [hpc]
        exact ⟨hsus, .inr ⟨Function.update_self .., hpen, Function.update_self .., htold⟩⟩
      · exact ⟨rfl, Function.update_of_ne hb' .., rfl, Function.update_of_ne hb' .., rfl, rfl⟩
    · rw [hsus] at hst
      dsimp only at hst
      rw [hpc] at hst
      obtain rfl := Option.some.inj hst
      refine h.stay hbox rfl rfl (fun _ => ?_) (fun b' hb' => ?_)
        rfl (fun _ _ => rfl) rfl (fun _ => rfl) rfl rfl rfl rfl rfl rfl
      · exact ⟨rfl, Function.update_self .., hpen, Function.update_self .., htold⟩
      · exact ⟨rfl, Function.update_of_ne hb' .., Function.update_of_ne hb' .., Function.update_of_ne hb' .., rfl, rfl⟩
  · rw [if_neg hsig] at hst
    cases hst

/-- **One step.** -/
theorem step {a : CanTxLabel W n} (hok : s.txOk a = true) (hst : canTxStep s a = some s') : s'.TxOk := by
  cases a with
  | write w msgs => exact h.write hst
  | go w sendOk => exact h.writerStep hok hst
  | txEvent b done => exact h.txEvent hst
  | txDone b => exact h.txDone hst

end TxOk

end CanTx

theorem CanTxInit.ok {s : CanTx W n} (h : CanTxInit s) : s.TxOk := by
  have hpc : ∀ (w : W), (s.pc w).box = none ∧ (s.pc w).holds = false ∧ (s.pc w).inPriv = true ∧
      (s.pc w).outcome = none := fun w => by
    rw [h.pc]
    exact ⟨rfl, rfl, rfl, rfl⟩
  refine ⟨fun b => .free (h.inside b) (fun w hw => ?_) ⟨h.pending b, h.signalling b, h.suspended b, h.flag b⟩,
    fun _ w => (hpc w).2.2.1, fun _ => ⟨?_, fun w => ?_, ?_, fun w hw => ?_, ?_, fun b => ?_, ?_⟩,
    fun w r hr => ?_, fun e he => ?_, ?_⟩
  · rw [(hpc w).1] at hw
    cases hw
  · rw [h.holders]
    exact List.nodup_nil
  · rw [h.holders, (hpc w).2.1]
    exact ⟨fun hm => absurd hm List.not_mem_nil, fun hc => absurd hc Bool.false_ne_true⟩
  · rw [h.semWaiters]
    exact List.nodup_nil
  · rw [h.semWaiters] at hw
    exact absurd hw List.not_mem_nil
  · rw [h.freelist]
    exact List.nodup_finRange n
  · rw [h.freelist, h.inside]
    exact ⟨fun _ => rfl, fun _ => List.mem_finRange b⟩
  · rw [h.sem, h.holders, h.freelist, List.length_finRange]
    rfl
  · rw [(hpc w).2.2.2] at hr
    cases hr
  · rw [h.counts] at he
    exact absurd he List.not_mem_nil
  · rw [h.counts, h.sndpkg]
    rfl

/-- What is promised of the mailboxes. A mailbox has one writer and one message that is outstanding; what a writer
counts is what was reported of its message; the semaphore is the number of free mailboxes when no writer is
between the two; and for a writer that waits there is a message outstanding or a wake-up on its way. -/
structure TxGood (s : CanTx W n) : Prop where
  alone : ∀ b, (s.inside b).length ≤ 1 ∧ (s.pending b).length ≤ 1
  own : ∀ b, ∀ w ∈ s.pending b, (s.pc w).box = some b
  counted : ∀ e ∈ s.counts, e.1 = some e.2
  sent : s.sndpkg = s.counts.countP (fun e => e.2)
  free : s.privmode = false → s.freelist.Nodup ∧ ∀ b, b ∈ s.freelist ↔ ∀ w, (s.pc w).box ≠ some b
  sem : s.privmode = false → (∀ w, (s.pc w).holds = false) → s.sem = s.freelist.length
  wakes : ∀ w look rest sent b, s.pc w = .waiting look rest sent b → s.pending b ≠ [] ∨ s.signalling b = true

theorem CanTx.TxOk.good {s : CanTx W n} (h : s.TxOk) : TxGood s := by
  refine ⟨fun b => ⟨?_, ?_⟩, fun b w hw => ?_, h.counts, h.sent, fun hm => ⟨(h.sems hm).freeNodup, fun b => ?_⟩,
    fun hm hno => ?_, fun w look rest sent b hpc => ?_⟩
  · cases h.mails b with
    | used w hin =>
      rw [hin]
      exact Nat.le_refl 1
    | free hin =>
      rw [hin]
      exact Nat.zero_le 1
  · by_cases hpen : s.pending b = []
    · rw [hpen]
      exact Nat.zero_le 1
    · obtain ⟨w, -, hp, -⟩ := h.outstanding hpen
      rw [hp]
      exact Nat.le_refl 1
  · obtain ⟨w', hbox, hp, -⟩ := h.outstanding (List.ne_nil_of_mem hw)
    rw [hp, List.mem_singleton] at hw
    rw [hw]
    exact hbox
  · rw [(h.sems hm).free b]
    cases h.mails b with
    | used w hin hw =>
      rw [hin]
      exact ⟨fun hc => absurd hc (List.cons_ne_nil w []), fun hc => absurd hw (hc w)⟩
    | free hin hothers => exact ⟨fun _ => hothers, fun _ => hin⟩
  · have hnil : s.holders = [] := List.eq_nil_iff_forall_not_mem.mpr fun w => (h.sems hm).not_holds (hno w)
    have hcount := (h.sems hm).count
    rw [hnil] at hcount
    exact hcount
  · obtain ⟨-, -, hphase⟩ := (h.mails b).writer (w := w) (by rw [hpc]; rfl)
    rw [hpc] at hphase
    obtain ⟨-, -, -, ⟨hp, -⟩ | ⟨-, hs, -⟩⟩ := hphase
    · rw [hp]
      exact .inl (List.cons_ne_nil w [])
    · exact .inr hs

/-- **The transmission mailboxes are kept in order** in every run whose steps meet the condition. -/
theorem can_mail {s : CanTx W n} (hs : (canTxSystem W n).Reach (fun s => s.txOk) s) : TxGood s :=
  (hs.invariant (fun _ h => CanTxInit.ok h) fun _ _ _ h hok hst => h.step hok hst).good

/-! ## Two runs -/

/-- A device with one mailbox. -/
def oneMail (privmode : Bool) : CanTx ℕ 1 where
  privmode := privmode
  freelist := [0]
  sem := 1
  semWaiters := []
  result _ := .ok
  flag _ := false
  suspended _ := []
  pc _ := .idle
  sndpkg := 0
  dropedsndpkg := 0
  pending _ := []
  signalling _ := false
  verdict _ := none
  inside _ := []
  holders := []
  counts := []

theorem oneMail_init (privmode : Bool) : CanTxInit (oneMail privmode) :=
  ⟨rfl, rfl, rfl, fun _ => rfl, fun _ => rfl, fun _ => rfl, fun _ => rfl, rfl, fun _ => rfl, fun _ => rfl,
    fun _ => rfl, rfl, rfl⟩

/-- Writer 1 waits for the mailbox of writer 0, whose message is sent; its own is not. -/
theorem can_mail_pair : ∃ s : CanTx ℕ 1, TxGood s ∧ s.counts = [(some false, false), (some true, true)] ∧
    s.sndpkg = 1 := by
  obtain ⟨s, hs, hp⟩ := (canTxSystem ℕ 1).exists_reach (fun s => s.txOk)
    (fun s => decide (s.counts = [(some false, false), (some true, true)] ∧ s.sndpkg = 1)) (oneMail_init false)
    ([.write 0 [0], .write 1 [0]] ++ List.replicate 4 (.go 0 true) ++ [.go 1 true, .go 0 true, .txEvent 0 true,
      .txDone 0] ++ List.replicate 4 (.go 0 true) ++ List.replicate 3 (.go 1 true) ++ [.txEvent 0 false, .txDone 0] ++
      List.replicate 4 (.go 1 true)) (by decide)
  exact ⟨s, can_mail hs, of_decide_eq_true hp⟩

/-- In private mode `sendmsg` fails once: the writer finds its own `RT_CAN_SND_RESULT_WAIT` and waits for an
interrupt that nobody will raise. -/
theorem can_mail_lost : ∃ s, (canTxSystem ℕ 1).Reach System.anyStep s ∧
    s.pc 0 = .waiting true [0] 0 0 ∧ s.pending 0 = [] ∧ s.signalling 0 = false := by
  obtain ⟨s, hs, hp⟩ := (canTxSystem ℕ 1).exists_reach System.anyStep
    (fun s => decide (s.pc 0 = .waiting true [0] 0 0 ∧ s.pending 0 = [] ∧ s.signalling 0 = false))
    (oneMail_init true) [.write 0 [0], .go 0 true, .go 0 false, .go 0 true] (by decide)
  exact ⟨s, hs, of_decide_eq_true hp⟩

end RtThread
