import RtThread.Lib.System

/-!
# The transmission mailboxes of a CAN device

`components/drivers/can/can.c`: a writer takes a mailbox (in normal mode off `freelist`, counted by a semaphore;
in private mode the one that its message names), hands its message to the driver and waits on the completion of
the mailbox, which the interrupt raises after it has written the result.

* `TxPc`, `CanTx`: where a writer is, and the mailboxes;
* `CanTx.writerStep`: the sections of `_can_int_tx` and `_can_int_tx_priv`, with those of
  `rt_completion_wait`;
* `CanTx.txEvent`, `CanTx.txDone`: the two actions of `rt_hw_can_isr` on `RT_CAN_EVENT_TX_DONE` and
  `RT_CAN_EVENT_TX_FAIL`;
* `CanTxLabel`, `canTxSystem`: the runs.
-/

namespace RtThread

/-- `RT_CAN_SND_RESULT_OK`, `RT_CAN_SND_RESULT_ERR`, `RT_CAN_SND_RESULT_WAIT`. -/
inductive SndResult where
  | ok
  | err
  | wait
  deriving DecidableEq

/-- Where a writer is, with the `priv` of each message that is left and the number of messages that were sent:
at rest, at the head of the loop; in `rt_sem_take`, or behind it; with a mailbox off the list, ready for
`sendmsg`, behind it, with or without success; suspended in `rt_completion_wait`, woken, or behind it; with the
mailbox back on the list, and the outcome, if `sendmsg` succeeded; behind `rt_sem_release`. A wait with `look`
is the one of a writer that found the mailbox in use. -/
inductive TxPc (n : ℕ) where
  | idle
  | returned (sent : ℕ)
  | loop (rest : List ℕ) (sent : ℕ)
  | semWait (rest : List ℕ) (sent : ℕ)
  | granted (rest : List ℕ) (sent : ℕ)
  | picked (rest : List ℕ) (sent : ℕ) (b : Fin n)
  | ready (rest : List ℕ) (sent : ℕ) (b : Fin n)
  | refused (rest : List ℕ) (sent : ℕ) (b : Fin n)
  | posted (rest : List ℕ) (sent : ℕ) (b : Fin n)
  | waiting (look : Bool) (rest : List ℕ) (sent : ℕ) (b : Fin n)
  | woken (look : Bool) (rest : List ℕ) (sent : ℕ) (b : Fin n)
  | finished (rest : List ℕ) (sent : ℕ) (b : Fin n)
  | putBack (rest : List ℕ) (sent : ℕ) (outcome : Option Bool)
  | counting (rest : List ℕ) (sent : ℕ) (outcome : Option Bool)
  deriving DecidableEq

/-- The mailboxes of a device with `config.sndboxnumber = n`, and the writers. `sem` and `semWaiters` are the
semaphore, `flag` and `suspended` the completions. `pending` are the writers of the messages that the driver has
taken and not reported, `signalling` the interrupts between their two actions. The last four fields only record
what happened: what was reported of the last message of a writer, the writers between the taking of a mailbox
and the reading of its result, those that have taken or not yet released the semaphore, and for each message
what was reported and whether it was counted as sent. -/
structure CanTx (W : Type) (n : ℕ) where
  privmode : Bool
  freelist : List (Fin n)
  sem : ℕ
  semWaiters : List W
  result : Fin n → SndResult
  flag : Fin n → Bool
  suspended : Fin n → List W
  pc : W → TxPc n
  sndpkg : ℕ
  dropedsndpkg : ℕ
  pending : Fin n → List W
  signalling : Fin n → Bool
  verdict : W → Option Bool
  inside : Fin n → List W
  holders : List W
  counts : List (Option Bool × Bool)

namespace CanTx

variable {W : Type} [DecidableEq W] {n : ℕ} (s : CanTx W n)

/-- Go on. -/
def goto (w : W) (pc : TxPc n) : CanTx W n := { s with pc := Function.update s.pc w pc }

/-- A writer takes a mailbox. -/
def enter (w : W) (b : Fin n) : CanTx W n :=
  { s with inside := Function.update s.inside b (s.inside b ++ [w]) }

/-- A writer is done with a mailbox. -/
def leave (w : W) (b : Fin n) : CanTx W n :=
  { s with inside := Function.update s.inside b ((s.inside b).erase w) }

/-- A writer puts its mailbox back on `freelist`. -/
def giveBack (w : W) (b : Fin n) : CanTx W n :=
  { s.leave w b with freelist := s.freelist ++ [b], holders := s.holders ++ [w] }

/-- `rt_completion_wait` up to its `rt_schedule`. -/
def completionWait (w : W) (look : Bool) (rest : List ℕ) (sent : ℕ) (b : Fin n) : CanTx W n :=
  if s.flag b then
    { s.goto w (if look then .loop rest sent else .finished rest sent b) with
      flag := Function.update s.flag b false }
  else
    { s.goto w (.waiting look rest sent b) with
      suspended := Function.update s.suspended b (s.suspended b ++ [w]) }

/-- `rt_sem_release`: the first thread that waits goes on, or the value is raised. -/
def semRelease : CanTx W n :=
  match s.semWaiters with
  | [] => { s with sem := s.sem + 1 }
  | w :: ws =>
    match s.pc w with
    | .semWait rest sent =>
      { s.goto w (.granted rest sent) with semWaiters := ws, holders := s.holders ++ [w] }
    | _ => { s with semWaiters := ws }

/-- The next section of a writer; `sendOk` is whether `ops->sendmsg` succeeds. -/
def writerStep (w : W) (sendOk : Bool) : Option (CanTx W n) :=
  match s.pc w with
  | .loop [] sent => some (s.goto w (.returned sent))
  | .loop (m :: rest) sent =>
    if s.privmode then
      if h : m < n then
        let b : Fin n := ⟨m, h⟩
        if s.result b ≠ .ok then some (s.completionWait w true (m :: rest) sent b)
        else
          some { (s.enter w b).goto w (.ready (m :: rest) sent b) with
            result := Function.update s.result b .wait }
      else some (s.goto w (.returned sent))
    else if 0 < s.sem then
      some { s.goto w (.granted (m :: rest) sent) with sem := s.sem - 1, holders := s.holders ++ [w] }
    else some { s.goto w (.semWait (m :: rest) sent) with semWaiters := s.semWaiters ++ [w] }
  | .granted rest sent =>
    match s.freelist with
    | [] => none
    | b :: l => some { (s.enter w b).goto w (.picked rest sent b) with
        freelist := l, holders := s.holders.erase w }
  | .picked rest sent b =>
    some { s.goto w (.ready rest sent b) with
      result := Function.update s.result b .wait
      flag := Function.update s.flag b false
      suspended := Function.update s.suspended b [] }
  | .ready rest sent b =>
    if sendOk then
      some { s.goto w (.posted rest sent b) with
        pending := Function.update s.pending b (s.pending b ++ [w])
        verdict := Function.update s.verdict w none }
    else if s.privmode then some ((s.leave w b).goto w (.loop rest sent))
    else some (s.goto w (.refused rest sent b))
  | .refused rest sent b => some ((s.giveBack w b).goto w (.putBack rest sent none))
  | .posted rest sent b => some (s.completionWait w false rest sent b)
  | .woken look rest sent b =>
    some { s.goto w (if look then .loop rest sent else .finished rest sent b) with
      flag := Function.update s.flag b false }
  | .finished rest sent b =>
    let outcome := some (decide (s.result b = .ok))
    if s.privmode then some ((s.leave w b).goto w (.counting rest sent outcome))
    else some ((s.giveBack w b).goto w (.putBack rest sent outcome))
  | .putBack rest sent outcome =>
    some (({ s with holders := s.holders.erase w }.semRelease).goto w (.counting rest sent outcome))
  | .counting rest sent outcome =>
    match outcome with
    | some true =>
      some { s.goto w (if rest.tail = [] then .returned (sent + 1) else .loop rest.tail (sent + 1)) with
        sndpkg := s.sndpkg + 1, counts := (s.verdict w, true) :: s.counts }
    | some false =>
      some { s.goto w (.returned sent) with
        dropedsndpkg := s.dropedsndpkg + 1, counts := (s.verdict w, false) :: s.counts }
    | none => some { s.goto w (.returned sent) with dropedsndpkg := s.dropedsndpkg + 1 }
  | _ => none

/-- A call of `_can_int_tx` or `_can_int_tx_priv`, with the `priv` of each message. -/
def write (w : W) (msgs : List ℕ) : Option (CanTx W n) :=
  match s.pc w with
  | .idle => some (s.goto w (.loop msgs 0))
  | .returned _ => some (s.goto w (.loop msgs 0))
  | _ => none

/-- The interrupt writes the result. -/
def txEvent (b : Fin n) (done : Bool) : Option (CanTx W n) :=
  match s.pending b with
  | [] => none
  | w :: l =>
    if s.signalling b then none
    else
      some { s with
        pending := Function.update s.pending b l
        result := Function.update s.result b (if done then .ok else .err)
        verdict := Function.update s.verdict w (some done)
        signalling := Function.update s.signalling b true }

/-- `rt_completion_done`. -/
def txDone (b : Fin n) : Option (CanTx W n) :=
  if s.signalling b then
    let s := { s with signalling := Function.update s.signalling b false }
    if s.flag b then some s
    else
      let s := { s with flag := Function.update s.flag b true }
      match s.suspended b with
      | [] => some s
      | w :: l =>
        let s := { s with suspended := Function.update s.suspended b l }
        match s.pc w with
        | .waiting look rest sent b => some (s.goto w (.woken look rest sent b))
        | _ => some s
  else none

end CanTx

/-- The steps. -/
inductive CanTxLabel (W : Type) (n : ℕ) where
  | write (w : W) (msgs : List ℕ)
  | go (w : W) (sendOk : Bool)
  | txEvent (b : Fin n) (done : Bool)
  | txDone (b : Fin n)
  deriving DecidableEq

/-- One step. -/
def canTxStep {W : Type} [DecidableEq W] {n : ℕ} (s : CanTx W n) : CanTxLabel W n → Option (CanTx W n)
  | .write w msgs => s.write w msgs
  | .go w sendOk => s.writerStep w sendOk
  | .txEvent b done => s.txEvent b done
  | .txDone b => s.txDone b

/-- The device has been opened. -/
structure CanTxInit {W : Type} {n : ℕ} (s : CanTx W n) : Prop where
  freelist : s.freelist = List.finRange n
  sem : s.sem = n
  semWaiters : s.semWaiters = []
  result : ∀ b, s.result b = .ok
  flag : ∀ b, s.flag b = false
  suspended : ∀ b, s.suspended b = []
  pc : ∀ w, s.pc w = .idle
  sndpkg : s.sndpkg = 0
  pending : ∀ b, s.pending b = []
  signalling : ∀ b, s.signalling b = false
  inside : ∀ b, s.inside b = []
  holders : s.holders = []
  counts : s.counts = []

/-- The runs of the writers and the interrupts. -/
def canTxSystem (W : Type) [DecidableEq W] (n : ℕ) : System (CanTx W n) (CanTxLabel W n) where
  init := CanTxInit
  step := canTxStep

end RtThread
