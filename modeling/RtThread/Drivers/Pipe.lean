import Mathlib
import RtThread.Drivers.RingBuffer

/-!
# POSIX pipes

`components/drivers/ipc/pipe.c` and `waitqueue.c`: a FIFO under a lock, with a wait queue for its reader
and one for its writers. A reader that finds the FIFO empty gives the lock up before it waits; a wait
queue has a flag that a wake-up raises and a wait takes down.

* `Wqueue` with `wakeup` and `wait`: `rt_wqueue_wakeup` and `_rt_wqueue_wait`;
* `PipeState`, `PipeLabel`, `pipeStep`: one reader, with a descriptor opened `O_RDONLY`, and any number of
  writers; a step is a part under the lock, or one operation on a wait queue;
* **`pipe_live`**: the reader does not wait for what is there and reads end of file only at the end, in
  every run whose closes and reads meet `pipeOk`; `pipe_endOfFile`: a run in which one of several
  writers closes.
-/

set_option linter.unusedSectionVars false

namespace RtThread

/-- `struct rt_wqueue`: the flag is `RT_WQ_FLAG_WAKEUP`. -/
structure Wqueue (T : Type) where
  flag : Bool
  waiting : List T

namespace Wqueue

variable {T : Type} (q : Wqueue T)

/-- `rt_wqueue_wakeup`, with the thread it resumes. -/
def wakeup : Option T × Wqueue T := (q.waiting.head?, ⟨true, q.waiting.tail⟩)

/-- `_rt_wqueue_wait` up to its `rt_schedule`: either the flag is up and the wait is over, or the thread
is put on the list. -/
def wait (t : T) : Bool × Wqueue T :=
  if q.flag = true then (true, { q with flag := false })
  else (false, { q with waiting := q.waiting ++ [t] })

end Wqueue

/-- `EAGAIN`. -/
def eagain : ℤ := 11

/-- Where the reader is: in `pipe_fops_read` before it takes the lock, with the lock and the bytes it
returns, without them before it wakes a writer, before the wait, in the wait, and resumed. -/
inductive ReadCall where
  | closed
  | idle
  | lock (count : ℕ)
  | wake (bytes : List UInt8)
  | wakeWriter (count : ℕ)
  | wait (count : ℕ)
  | blocked (count : ℕ)
  | resumed (count : ℕ)
  deriving DecidableEq

/-- Where a writer is: in `pipe_fops_write` before it takes the lock, before it wakes the reader and goes
on, before the wait, in the wait, resumed, and before the last wake-up; in `pipe_fops_close` before it
takes the lock, and in its loop. -/
inductive WriteCall where
  | idle
  | lock (buf : List UInt8) (ret : ℕ)
  | wakeReader (buf : List UInt8) (ret : ℕ)
  | wait (buf : List UInt8) (ret : ℕ)
  | blocked (buf : List UInt8) (ret : ℕ)
  | resumed (buf : List UInt8) (ret : ℕ)
  | wake (ret : ℤ)
  | closeLock
  | closeLoop
  deriving DecidableEq

/-- `rt_thread_resume` of the reader. -/
def ReadCall.resume : ReadCall → ReadCall
  | .blocked count => .resumed count
  | c => c

/-- `rt_thread_resume` of a writer. -/
def WriteCall.resume : WriteCall → WriteCall
  | .blocked buf ret => .resumed buf ret
  | c => c

/-- The owner of `pipe->lock` between two steps. -/
inductive PipeLock (T : Type) where
  | free
  | reader
  | writer (t : T)
  deriving DecidableEq

/-- The access mode of a descriptor that is open for writing. -/
inductive WriteMode where
  | wronly
  | rdwr
  deriving DecidableEq

/-- The pipe, its descriptors, the calls and their last results. -/
structure PipeState (T : Type) where
  fifo : RingBuffer
  writer : Bool
  lock : PipeLock T
  readerQueue : Wqueue Unit
  writerQueue : Wqueue T
  opened : Finset T
  mode : T → WriteMode
  readNonblock : Bool
  nonblock : T → Bool
  read : ReadCall
  call : T → WriteCall
  readRet : ℤ × List UInt8
  ret : T → ℤ

/-- A call begins, or goes on with its next part. -/
inductive PipeLabel (T : Type) where
  | read (count : ℕ)
  | closeReader
  | reader
  | write (t : T) (buf : List UInt8)
  | close (t : T)
  | writer (t : T)
  deriving DecidableEq

section

variable {T : Type} [DecidableEq T]

namespace PipeState

variable (s : PipeState T)

/-- `rt_wqueue_wakeup` of the reader queue. -/
def wakeupReader : PipeState T :=
  let x := s.readerQueue.wakeup
  { s with readerQueue := x.2, read := if x.1 = none then s.read else s.read.resume }

/-- `rt_wqueue_wakeup` of the writer queue. -/
def wakeupWriter : PipeState T :=
  let x := s.writerQueue.wakeup
  { s with
    writerQueue := x.2
    call := match x.1 with
      | none => s.call
      | some t => Function.update s.call t (s.call t).resume }

def setCall (t : T) (c : WriteCall) : PipeState T := { s with call := Function.update s.call t c }

/-- A call of a writer returns. -/
def finish (t : T) (r : ℤ) : PipeState T :=
  { s.setCall t .idle with ret := Function.update s.ret t r }

/-- The part of `pipe_fops_read` under the lock, up to the wake-up of a writer. -/
def fopsRead (count : ℕ) : PipeState T :=
  let x := s.fifo.get count
  let s := { s with fifo := x.2.2 }
  if x.1 > 0 ∨ s.writer = false then { s with lock := .reader, read := .wake x.2.1 }
  else if s.readNonblock = true then { s with read := .idle, readRet := (-eagain, []) }
  else { s with read := .wakeWriter count }

/-- The next part of the reader's call. -/
def stepReader : Option (PipeState T) :=
  match s.read with
  | .closed | .idle | .blocked _ => none
  | .lock count => if s.lock = .free then some (s.fopsRead count) else none
  | .wake bytes =>
    some { s.wakeupWriter with lock := .free, read := .idle, readRet := (bytes.length, bytes) }
  | .wakeWriter count => some { s.wakeupWriter with read := .wait count }
  | .wait count =>
    let x := s.readerQueue.wait ()
    some { s with readerQueue := x.2, read := if x.1 = true then .lock count else .blocked count }
  | .resumed count =>
    some { s with readerQueue := { s.readerQueue with flag := false }, read := .lock count }

/-- The part of `pipe_fops_write` under the lock. -/
def fopsWrite (t : T) (buf : List UInt8) (ret : ℕ) : PipeState T :=
  let x := s.fifo.put buf
  let s := { s with fifo := x.2 }
  let ret := ret + x.1
  let buf := buf.drop x.1
  if buf = [] then s.setCall t (.wake ret)
  else if s.nonblock t = true then s.setCall t (.wake (if ret = 0 then -eagain else ret))
  else s.setCall t (.wakeReader buf ret)

/-- `pipe_fops_close` gives the lock up, and the descriptor is gone. -/
def closeDone (t : T) : PipeState T :=
  { s.finish t 0 with lock := .free, opened := s.opened.erase t }

/-- The next part of a writer's call. -/
def stepWriter (t : T) : Option (PipeState T) :=
  match s.call t with
  | .idle | .blocked _ _ => none
  | .lock buf ret => if s.lock = .free then some (s.fopsWrite t buf ret) else none
  | .wakeReader buf ret => some (s.wakeupReader.setCall t (.wait buf ret))
  | .wait buf ret =>
    let x := s.writerQueue.wait t
    some ({ s with writerQueue := x.2 }.setCall t
      (if x.1 = true then .lock buf ret else .blocked buf ret))
  | .resumed buf ret =>
    some ({ s with writerQueue := { s.writerQueue with flag := false } }.setCall t (.lock buf ret))
  | .wake ret => some (s.wakeupReader.finish t ret)
  | .closeLock =>
    if s.lock = .free then
      match s.mode t with
      | .wronly => some { s.setCall t .closeLoop with writer := false, lock := .writer t }
      | .rdwr => some (s.closeDone t)
    else none
  | .closeLoop => if s.readerQueue.waiting ≠ [] then some s.wakeupReader else some (s.closeDone t)

end PipeState

/-- A step of the users of the pipe. -/
def pipeStep (s : PipeState T) : PipeLabel T → Option (PipeState T)
  | .read count => if s.read = .idle then some { s with read := .lock count } else none
  | .closeReader =>
    if s.read = .idle ∧ s.lock = .free then some { s with read := .closed, readRet := (0, []) } else none
  | .reader => s.stepReader
  | .write t buf =>
    if t ∈ s.opened ∧ s.call t = .idle then
      some (if buf = [] then s.finish t 0 else s.setCall t (.lock buf 0))
    else none
  | .close t => if t ∈ s.opened ∧ s.call t = .idle then some (s.setCall t .closeLock) else none
  | .writer t => s.stepWriter t

/-- The descriptors are open and no call is in progress; `pipe->writer` was set by the opens with
`O_WRONLY`. -/
structure PipeInit (s : PipeState T) : Prop where
  writer : s.writer = true ↔ ∃ t ∈ s.opened, s.mode t = .wronly
  lock : s.lock = .free
  readerQueue : s.readerQueue = ⟨false, []⟩
  writerQueue : s.writerQueue = ⟨false, []⟩
  read : s.read = .idle
  call : ∀ t, s.call t = .idle

/-- The runs of the users of a pipe. -/
def pipeSystem (T : Type) [DecidableEq T] : System (PipeState T) (PipeLabel T) where
  init := PipeInit
  step := pipeStep

/-! ## The property -/

/-- A wake-up of the reader queue is still to come. -/
def WriteCall.wakes : WriteCall → Bool
  | .wakeReader _ _ | .wake _ | .closeLoop => true
  | _ => false

/-- The reader does not wait, with no wake-up to come, for bytes that are there or for writers that are
gone, and a read returns no bytes only when the FIFO is empty and every writer has closed. -/
structure PipeLive (s : PipeState T) : Prop where
  blocked : ∀ count, s.read = .blocked count → (∀ t, (s.call t).wakes = false) →
    s.fifo.dataLen = 0 ∧ s.opened ≠ ∅
  endOfFile : s.read = .wake [] → s.fifo.dataLen = 0 ∧ s.opened = ∅

/-! ## The condition -/

/-- The reader has found the FIFO empty and is about to wait. -/
def ReadCall.leaves : ReadCall → Bool
  | .wakeWriter _ | .wait _ => true
  | _ => false

/-- Reads are of at least one byte; no descriptor is open with `O_RDWR` when a read finds `pipe->writer`
down; a descriptor opened with `O_WRONLY` is the last such one to be closed, and its close does not end
while the reader is about to wait, unless the flag of the reader queue is up. -/
def pipeOk (s : PipeState T) : PipeLabel T → Bool
  | .read count => 0 < count
  | .reader =>
    match s.read with
    | .lock _ => s.writer || decide (∀ t ∈ s.opened, s.mode t ≠ .rdwr)
    | _ => true
  | .writer t =>
    match s.call t with
    | .closeLock => s.mode t = .rdwr || decide (∀ u ∈ s.opened, u ≠ t → s.mode u ≠ .wronly)
    | .closeLoop => s.readerQueue.waiting ≠ [] || s.readerQueue.flag || !s.read.leaves
    | _ => true
  | _ => true

/-! ## The invariant -/

/-- A writer has put bytes in and not woken the reader yet. -/
def WriteCall.brings : WriteCall → Bool
  | .wakeReader _ _ | .wake _ => true
  | _ => false

/-- The list of the reader queue. -/
def ReadCall.queued : ReadCall → List Unit
  | .blocked _ => [()]
  | _ => []

/-- What holds at a place of the reader: once it has found the FIFO empty, it is still empty, or a wake-up
has come or will come; and a writer is there, or a wake-up has come, or a close is in its loop. -/
def ReadCall.Of (s : PipeState T) : ReadCall → Prop
  | .closed | .idle => True
  | .lock count | .resumed count => 0 < count
  | .wake bytes => bytes = [] → s.fifo.dataLen = 0 ∧ s.opened = ∅
  | .wakeWriter count | .wait count => 0 < count ∧
      (s.fifo.dataLen = 0 ∨ s.readerQueue.flag = true ∨ ∃ t, (s.call t).brings = true) ∧
      (s.writer = true ∨ s.readerQueue.flag = true ∨ ∃ t, s.call t = .closeLoop)
  | .blocked count => 0 < count ∧ (s.fifo.dataLen = 0 ∨ ∃ t, (s.call t).brings = true) ∧
      (s.writer = true ∨ ∃ t, s.call t = .closeLoop)

/-- The invariant of the runs. -/
structure PipeInv (s : PipeState T) : Prop where
  lockReader : s.lock = .reader ↔ ∃ bytes, s.read = .wake bytes
  lockWriter : ∀ t, s.lock = .writer t ↔ s.call t = .closeLoop
  waiting : s.readerQueue.waiting = s.read.queued
  read : s.read.Of s
  wronly : ∀ t ∈ s.opened, s.mode t = .wronly → s.writer = true ∨ s.call t = .closeLoop
  writer : s.writer = true → ∃ t ∈ s.opened, s.mode t = .wronly
  closing : ∀ t, s.call t = .closeLoop →
    s.writer = false ∧ ∀ u ∈ s.opened, u ≠ t → s.mode u ≠ .wronly

section

variable {s s' : PipeState T} {t : T}

theorem PipeInv.live (h : PipeInv s) : PipeLive s := by
  have hr := h.read
  refine ⟨fun count hb hw => ?_, fun he => ?_⟩
  · rw [hb] at hr
    obtain ⟨-, hdata, hwriter⟩ := hr
    have hno : ∀ u, (s.call u).brings = false ∧ s.call u ≠ .closeLoop := by
      intro u
      have := hw u
      cases hc : s.call u <;> rw [hc] at this <;> simp_all [WriteCall.wakes, WriteCall.brings]
    refine ⟨hdata.resolve_right fun ⟨u, hu⟩ => ?_, ?_⟩
    · rw [(hno u).1] at hu
      cases hu
    · obtain ⟨u, hu, -⟩ := h.writer (hwriter.resolve_right fun ⟨u, hu⟩ => (hno u).2 hu)
      exact fun hempty => Finset.notMem_empty u (hempty ▸ hu)
  · rw [he] at hr
    exact hr rfl

/-- The reader's place is not touched by what leaves the FIFO, the reader queue, the writers and the
wake-ups alone. -/
theorem ReadCall.Of.frame {c : ReadCall} (h : c.Of s) (hf : s'.fifo = s.fifo)
    (hq : s'.readerQueue = s.readerQueue) (hw : s'.writer = s.writer) (ho : s'.opened = s.opened)
    (hb : ∀ u, (s.call u).brings = true → (s'.call u).brings = true)
    (hc : ∀ u, s.call u = .closeLoop → s'.call u = .closeLoop) : c.Of s' := by
  cases c with
  | closed => trivial
  | idle => trivial
  | lock count => exact h
  | resumed count => exact h
  | wake bytes =>
    intro he
    rw [hf, ho]
    exact h he
  | blocked count =>
    obtain ⟨hpos, hdata, hwriter⟩ := h
    refine ⟨hpos, ?_, ?_⟩
    · rw [hf]
      exact hdata.imp id fun ⟨u, hu⟩ => ⟨u, hb u hu⟩
    · rw [hw]
      exact hwriter.imp id fun ⟨u, hu⟩ => ⟨u, hc u hu⟩
  | wakeWriter count =>
    obtain ⟨hpos, hdata, hwriter⟩ := h
    refine ⟨hpos, ?_, ?_⟩
    · rw [hf, hq]
      exact hdata.imp id (Or.imp id fun ⟨u, hu⟩ => ⟨u, hb u hu⟩)
    · rw [hw, hq]
      exact hwriter.imp id (Or.imp id fun ⟨u, hu⟩ => ⟨u, hc u hu⟩)
  | wait count =>
    obtain ⟨hpos, hdata, hwriter⟩ := h
    refine ⟨hpos, ?_, ?_⟩
    · rw [hf, hq]
      exact hdata.imp id (Or.imp id fun ⟨u, hu⟩ => ⟨u, hb u hu⟩)
    · rw [hw, hq]
      exact hwriter.imp id (Or.imp id fun ⟨u, hu⟩ => ⟨u, hc u hu⟩)

/-! ## Wake-ups -/

theorem PipeState.wakeupReader_read : s.wakeupReader.read =
    if s.readerQueue.waiting.head? = none then s.read else s.read.resume := rfl

theorem PipeState.wakeupReader_readerQueue :
    s.wakeupReader.readerQueue = ⟨true, s.readerQueue.waiting.tail⟩ := rfl

theorem PipeState.wakeupWriter_call : s.wakeupWriter.call =
    match s.writerQueue.waiting.head? with
    | none => s.call
    | some t => Function.update s.call t (s.call t).resume := rfl

/-- A wake-up of the reader queue reaches a reader that waits and leaves the flag up for one that is
about to. -/
theorem PipeState.wakeupReader_of (s' : PipeState T) (hq : s.readerQueue.waiting = s.read.queued) (h : s.read.Of s)
    (hf : s'.fifo = s.fifo) (hr : s'.readerQueue = s.wakeupReader.readerQueue)
    (ho : s'.opened = s.opened) :
    s.wakeupReader.read.Of s' ∧
      s.wakeupReader.readerQueue.waiting = s.wakeupReader.read.queued := by
  have hflag : s'.readerQueue.flag = true := by rw [hr]; rfl
  rw [PipeState.wakeupReader_read, PipeState.wakeupReader_readerQueue, hq]
  cases hc : s.read with
  | closed => exact ⟨trivial, rfl⟩
  | idle => exact ⟨trivial, rfl⟩
  | lock count =>
    rw [hc] at h
    exact ⟨h, rfl⟩
  | resumed count =>
    rw [hc] at h
    exact ⟨h, rfl⟩
  | wake bytes =>
    rw [hc] at h
    refine ⟨fun he => ?_, rfl⟩
    rw [hf, ho]
    exact h he
  | wakeWriter count =>
    rw [hc] at h
    exact ⟨⟨h.1, .inr (.inl hflag), .inr (.inl hflag)⟩, rfl⟩
  | wait count =>
    rw [hc] at h
    exact ⟨⟨h.1, .inr (.inl hflag), .inr (.inl hflag)⟩, rfl⟩
  | blocked count =>
    rw [hc] at h
    exact ⟨h.1, rfl⟩

theorem PipeState.wakeupReader_wake (bytes : List UInt8) :
    s.wakeupReader.read = .wake bytes ↔ s.read = .wake bytes := by
  rw [PipeState.wakeupReader_read]
  split_ifs
  · rfl
  · cases s.read <;> simp [ReadCall.resume]

/-- A wake-up of the writer queue makes no call begin or end. -/
theorem PipeState.wakeupWriter_brings (u : T) :
    (s.wakeupWriter.call u).brings = (s.call u).brings ∧
      (s.wakeupWriter.call u = .closeLoop ↔ s.call u = .closeLoop) := by
  have hres : ∀ c : WriteCall, c.resume.brings = c.brings ∧ (c.resume = .closeLoop ↔ c = .closeLoop) := by
    intro c
    cases c <;> simp [WriteCall.resume, WriteCall.brings]
  rw [PipeState.wakeupWriter_call]
  cases s.writerQueue.waiting.head? with
  | none => exact ⟨rfl, Iff.rfl⟩
  | some t =>
    dsimp only
    by_cases hu : u = t
    · rw [hu, Function.update_self]
      exact hres (s.call t)
    · rw [Function.update_of_ne hu]
      exact ⟨rfl, Iff.rfl⟩

/-! ## The steps -/

theorem PipeInv.no_closeLoop (h : PipeInv s) (hf : s.lock = .free) (u : T) :
    s.call u ≠ .closeLoop := by
  intro hu
  rw [(h.lockWriter u).mpr hu] at hf
  cases hf

theorem PipeInv.no_wake (h : PipeInv s) (hf : s.lock ≠ .reader) (bytes : List UInt8) :
    s.read ≠ .wake bytes :=
  fun hb => hf (h.lockReader.mpr ⟨bytes, hb⟩)

/-- The part of a read under the lock. -/
theorem PipeInv.fopsRead (h : PipeInv s) {count : ℕ} (hc : s.read = .lock count)
    (hf : s.lock = .free) (hok : s.writer = true ∨ ∀ t ∈ s.opened, s.mode t ≠ .rdwr) :
    PipeInv (s.fopsRead count) := by
  have hpos : 0 < count := by
    have := h.read
    rw [hc] at this
    exact this
  have hwait : s.readerQueue.waiting = [] := by rw [h.waiting, hc]; rfl
  have hno := h.no_closeLoop hf
  unfold PipeState.fopsRead
  dsimp only
  by_cases hbreak : (s.fifo.get count).1 > 0 ∨ s.writer = false
  · rw [if_pos hbreak]
    refine ⟨⟨fun _ => ⟨_, rfl⟩, fun _ => rfl⟩, fun u => ?_, hwait, fun he => ?_, h.wronly, h.writer,
      h.closing⟩
    · exact iff_of_false (fun hl => (nomatch hl)) (hno u)
    · have hzero : (s.fifo.get count).1 = 0 := by
        rw [← RingBuffer.get_length, he]
        rfl
      have hwr : s.writer = false := hbreak.resolve_left (by omega)
      obtain ⟨hlen, hsame⟩ := RingBuffer.get_zero hpos hzero
      refine ⟨by rw [hsame]; exact hlen, ?_⟩
      show s.opened = ∅
      refine Finset.eq_empty_of_forall_notMem fun u hu => ?_
      cases hm : s.mode u with
      | wronly =>
        rcases h.wronly u hu hm with h1 | h1
        · rw [hwr] at h1
          cases h1
        · exact hno u h1
      | rdwr =>
        rcases hok with h1 | h1
        · rw [hwr] at h1
          cases h1
        · exact h1 u hu hm
  · rw [if_neg hbreak]
    obtain ⟨hzero, hwr⟩ := not_or.mp hbreak
    have hzero' : (s.fifo.get count).1 = 0 := by omega
    obtain ⟨hlen, hsame⟩ := RingBuffer.get_zero hpos hzero'
    have hwr' : s.writer = true := by simpa using hwr
    have hlock : ∀ c : ReadCall, (∀ bytes, c ≠ .wake bytes) →
        (s.lock = .reader ↔ ∃ bytes, c = .wake bytes) := by
      intro c hn
      rw [hf]
      exact iff_of_false (fun hl => (nomatch hl)) fun ⟨bytes, hb⟩ => hn bytes hb
    by_cases hnb : s.readNonblock = true
    · rw [if_pos hnb]
      exact ⟨hlock .idle fun _ hb => (nomatch hb), h.lockWriter, hwait, trivial, h.wronly, h.writer,
        h.closing⟩
    · rw [if_neg hnb]
      refine ⟨hlock (.wakeWriter count) fun _ hb => (nomatch hb), h.lockWriter, hwait,
        ⟨hpos, .inl ?_, .inl hwr'⟩, h.wronly, h.writer, h.closing⟩
      show (s.fifo.get count).2.2.dataLen = 0
      rw [hsame]
      exact hlen

/-- A wake-up of the writer queue by the reader. -/
theorem PipeInv.wakeupWriter (h : PipeInv s) {c : ReadCall} {l : PipeLock T}
    (ret : ℤ × List UInt8) (hc : c.Of s) (hq : s.read.queued = c.queued)
    (hl : l = .reader ↔ ∃ bytes, c = .wake bytes) (hw : ∀ t, l = .writer t ↔ s.lock = .writer t) :
    PipeInv { s.wakeupWriter with lock := l, read := c, readRet := ret } := by
  have hcall := PipeState.wakeupWriter_brings (s := s)
  refine ⟨hl, fun u => ?_, h.waiting.trans hq, ?_, fun u hu hm => ?_, h.writer, fun u hu => ?_⟩
  · exact (hw u).trans ((h.lockWriter u).trans (hcall u).2.symm)
  · exact hc.frame rfl rfl rfl rfl (fun u hu => (hcall u).1.trans hu) fun u hu => (hcall u).2.mpr hu
  · exact (h.wronly u hu hm).imp id (hcall u).2.mpr
  · exact h.closing u ((hcall u).2.mp hu)

/-- A step of the reader that touches nothing but its place and its queue. -/
theorem PipeInv.setRead (h : PipeInv s) {c : ReadCall} {q : Wqueue Unit}
    (hc : c.Of { s with readerQueue := q, read := c }) (hq : q.waiting = c.queued)
    (hn : ∀ bytes, c ≠ .wake bytes) (hs : ∀ bytes, s.read ≠ .wake bytes) :
    PipeInv { s with readerQueue := q, read := c } := by
  refine ⟨?_, h.lockWriter, hq, hc, h.wronly, h.writer, h.closing⟩
  refine iff_of_false (fun hl => ?_) fun ⟨bytes, hb⟩ => hn bytes hb
  obtain ⟨bytes, hb⟩ := h.lockReader.mp hl
  exact hs bytes hb

/-- The steps of the reader. -/
theorem PipeInv.stepReader (h : PipeInv s) (hok : pipeOk s .reader = true)
    (hst : s.stepReader = some s') : PipeInv s' := by
  have hr := h.read
  unfold PipeState.stepReader at hst
  cases hc : s.read with
  | closed =>
    rw [hc] at hst
    cases hst
  | idle =>
    rw [hc] at hst
    cases hst
  | blocked count =>
    rw [hc] at hst
    cases hst
  | lock count =>
    simp only [hc] at hst
    by_cases hf : s.lock = .free
    · rw [if_pos hf] at hst
      cases hst
      simp only [pipeOk, hc, Bool.or_eq_true, decide_eq_true_eq] at hok
      exact h.fopsRead hc hf hok
    · rw [if_neg hf] at hst
      cases hst
  | wake bytes =>
    simp only [hc] at hst
    cases hst
    have hl : s.lock = .reader := h.lockReader.mpr ⟨bytes, hc⟩
    refine h.wakeupWriter (c := .idle) _ trivial (by rw [hc]; rfl) ?_ fun u => ?_
    · exact iff_of_false (fun hl => (nomatch hl)) fun ⟨_, hb⟩ => (nomatch hb)
    · rw [hl]
      exact iff_of_false (fun hl => (nomatch hl)) fun hl => (nomatch hl)
  | wakeWriter count =>
    simp only [hc] at hst
    cases hst
    rw [hc] at hr
    refine h.wakeupWriter (c := .wait count) (l := s.lock) s.readRet hr (by rw [hc]; rfl) ?_
      fun u => Iff.rfl
    rw [h.lockReader, hc]
    exact iff_of_false (fun ⟨_, hb⟩ => (nomatch hb)) fun ⟨_, hb⟩ => (nomatch hb)
  | wait count =>
    simp only [hc] at hst
    cases hst
    have hs : ∀ bytes, s.read ≠ .wake bytes := fun _ hb => (nomatch hc.symm.trans hb)
    have hwait : s.readerQueue.waiting = [] := by rw [h.waiting, hc]; rfl
    rw [hc] at hr
    obtain ⟨hpos, hdata, hwriter⟩ := hr
    unfold Wqueue.wait
    by_cases hflag : s.readerQueue.flag = true
    · rw [if_pos hflag]
      exact h.setRead (c := .lock count) hpos hwait (fun _ hb => (nomatch hb)) hs
    · rw [if_neg hflag]
      refine h.setRead (c := .blocked count) ⟨hpos, ?_, ?_⟩ ?_ (fun _ hb => (nomatch hb)) hs
      · exact hdata.imp id fun hd => hd.resolve_left hflag
      · exact hwriter.imp id fun hd => hd.resolve_left hflag
      · show s.readerQueue.waiting ++ [()] = [()]
        rw [hwait]
        rfl
  | resumed count =>
    simp only [hc] at hst
    cases hst
    rw [hc] at hr
    have hs : ∀ bytes, s.read ≠ .wake bytes := fun _ hb => (nomatch hc.symm.trans hb)
    refine h.setRead (c := .lock count) hr ?_ (fun _ hb => (nomatch hb)) hs
    show s.readerQueue.waiting = []
    rw [h.waiting, hc]
    rfl

/-- A step of a writer outside its close. -/
theorem PipeInv.setCall (h : PipeInv s) {c : WriteCall} (hcall : s'.call = Function.update s.call t c)
    (hl : s'.lock = s.lock) (hw : s'.writer = s.writer) (ho : s'.opened = s.opened)
    (hm : s'.mode = s.mode) (hct : s.call t ≠ .closeLoop) (hc : c ≠ .closeLoop)
    (hwake : ∀ bytes, s'.read = .wake bytes ↔ s.read = .wake bytes)
    (hq : s'.readerQueue.waiting = s'.read.queued) (hr : s'.read.Of s') : PipeInv s' := by
  have hloop : ∀ u, s'.call u = .closeLoop ↔ s.call u = .closeLoop := by
    intro u
    rw [hcall]
    by_cases hu : u = t
    · rw [hu, Function.update_self]
      exact iff_of_false hc hct
    · rw [Function.update_of_ne hu]
  refine ⟨?_, fun u => ?_, hq, hr, fun u hu hmu => ?_, fun hwr => ?_, fun u hu => ?_⟩
  · rw [hl, h.lockReader]
    exact exists_congr fun bytes => (hwake bytes).symm
  · rw [hl, h.lockWriter u, hloop u]
  · rw [hw, hloop u]
    rw [ho] at hu
    rw [hm] at hmu
    exact h.wronly u hu hmu
  · rw [ho, hm]
    exact h.writer (hw ▸ hwr)
  · rw [hw, ho, hm]
    exact h.closing u ((hloop u).mp hu)

/-- A step of a writer that leaves the FIFO and the reader queue alone, and owes no wake-up. -/
theorem PipeInv.quietCall (h : PipeInv s) {c : WriteCall}
    (hcall : s'.call = Function.update s.call t c) (hf : s'.fifo = s.fifo)
    (hq : s'.readerQueue = s.readerQueue) (hrd : s'.read = s.read)
    (hl : s'.lock = s.lock) (hw : s'.writer = s.writer) (ho : s'.opened = s.opened)
    (hm : s'.mode = s.mode) (hct : s.call t ≠ .closeLoop) (hc : c ≠ .closeLoop)
    (hb : (s.call t).brings = false) : PipeInv s' := by
  have hne : ∀ u, u ≠ t → s'.call u = s.call u := by
    intro u hu
    rw [hcall, Function.update_of_ne hu]
  refine h.setCall hcall hl hw ho hm hct hc (fun bytes => by rw [hrd]) (by rw [hq, hrd, h.waiting]) ?_
  rw [hrd]
  refine h.read.frame hf hq hw ho (fun u hu => ?_) fun u hu => ?_
  · by_cases hut : u = t
    · rw [hut, hb] at hu
      cases hu
    · rw [hne u hut]
      exact hu
  · by_cases hut : u = t
    · exact absurd (hut ▸ hu) hct
    · rw [hne u hut]
      exact hu

/-- The part of a write under the lock. -/
theorem PipeInv.fopsWrite (h : PipeInv s) {buf : List UInt8} {ret : ℕ}
    (hcall : s.call t = .lock buf ret) (hf : s.lock = .free) : PipeInv (s.fopsWrite t buf ret) := by
  have hct : s.call t ≠ .closeLoop := by
    rw [hcall]
    exact fun he => (nomatch he)
  -- the bytes put in are announced by the place of the writer
  have hput : ∀ c : WriteCall, c.brings = true → c ≠ .closeLoop →
      PipeInv ({ s with fifo := (s.fifo.put buf).2 }.setCall t c) := by
    intro c hb hc
    refine h.setCall rfl rfl rfl rfl rfl hct hc (fun _ => Iff.rfl) h.waiting ?_
    have hex : ∃ u, (({ s with fifo := (s.fifo.put buf).2 }.setCall t c).call u).brings = true := by
      refine ⟨t, ?_⟩
      show (Function.update s.call t c t).brings = true
      rw [Function.update_self]
      exact hb
    have hloop : ∀ u, s.call u = .closeLoop → Function.update s.call t c u = .closeLoop :=
      fun u hu => absurd hu (h.no_closeLoop hf u)
    have hr := h.read
    show s.read.Of _
    cases hrd : s.read with
    | closed => trivial
    | idle => trivial
    | lock count =>
      rw [hrd] at hr
      exact hr
    | resumed count =>
      rw [hrd] at hr
      exact hr
    | wake bytes => exact absurd hrd (h.no_wake (by rw [hf]; exact fun he => (nomatch he)) bytes)
    | wakeWriter count =>
      rw [hrd] at hr
      exact ⟨hr.1, .inr (.inr hex), hr.2.2.imp id (Or.imp id fun ⟨u, hu⟩ => ⟨u, hloop u hu⟩)⟩
    | wait count =>
      rw [hrd] at hr
      exact ⟨hr.1, .inr (.inr hex), hr.2.2.imp id (Or.imp id fun ⟨u, hu⟩ => ⟨u, hloop u hu⟩)⟩
    | blocked count =>
      rw [hrd] at hr
      exact ⟨hr.1, .inr hex, hr.2.2.imp id fun ⟨u, hu⟩ => ⟨u, hloop u hu⟩⟩
  unfold PipeState.fopsWrite
  dsimp only
  by_cases hnil : buf.drop (s.fifo.put buf).1 = []
  · rw [if_pos hnil]
    exact hput _ rfl fun he => (nomatch he)
  rw [if_neg hnil]
  by_cases hnb : s.nonblock t = true
  · rw [if_pos hnb]
    exact hput _ rfl fun he => (nomatch he)
  · rw [if_neg hnb]
    exact hput _ rfl fun he => (nomatch he)

/-- A writer wakes the reader. -/
theorem PipeInv.wakeupReader (h : PipeInv s) {c : WriteCall} {ret : T → ℤ}
    (hct : s.call t ≠ .closeLoop) (hc : c ≠ .closeLoop) :
    PipeInv { s.wakeupReader.setCall t c with ret := ret } := by
  obtain ⟨hr, hq⟩ := PipeState.wakeupReader_of { s.wakeupReader.setCall t c with ret := ret }
    h.waiting h.read rfl rfl rfl
  exact h.setCall rfl rfl rfl rfl rfl hct hc PipeState.wakeupReader_wake hq hr

/-- A close wakes the reader in its loop. -/
theorem PipeInv.closeWake (h : PipeInv s) : PipeInv s.wakeupReader := by
  obtain ⟨hr, hq⟩ := PipeState.wakeupReader_of s.wakeupReader h.waiting h.read rfl rfl rfl
  refine ⟨?_, h.lockWriter, hq, hr, h.wronly, h.writer, h.closing⟩
  exact h.lockReader.trans (exists_congr fun bytes => (PipeState.wakeupReader_wake bytes).symm)

/-- The part of a close under the lock, for a descriptor opened with `O_WRONLY`. -/
theorem PipeInv.closeLock (h : PipeInv s) (hcall : s.call t = .closeLock) (hf : s.lock = .free)
    (hok : ∀ u ∈ s.opened, u ≠ t → s.mode u ≠ .wronly) :
    PipeInv { s.setCall t .closeLoop with writer := false, lock := .writer t } := by
  have hno := h.no_closeLoop hf
  have hnw := h.no_wake (by rw [hf]; exact fun he => (nomatch he))
  have hself : Function.update s.call t .closeLoop t = .closeLoop := Function.update_self ..
  have hb : ∀ u, (s.call u).brings = true → (Function.update s.call t .closeLoop u).brings = true := by
    intro u hu
    have hut : u ≠ t := by
      rintro rfl
      rw [hcall] at hu
      cases hu
    rw [Function.update_of_ne hut]
    exact hu
  have honly : ∀ u, Function.update s.call t .closeLoop u = .closeLoop → u = t := by
    intro u hu
    by_contra hut
    rw [Function.update_of_ne hut] at hu
    exact hno u hu
  have hr := h.read
  refine ⟨?_, fun u => ?_, h.waiting, ?_, fun u hu hm => ?_, fun hw => (nomatch hw), fun u hu => ?_⟩
  · exact iff_of_false (fun hl => (nomatch hl)) fun ⟨bytes, hb⟩ => hnw bytes hb
  · show PipeLock.writer t = .writer u ↔ Function.update s.call t .closeLoop u = .closeLoop
    constructor
    · intro he
      cases he
      exact hself
    · intro hu
      rw [honly u hu]
  · show s.read.Of _
    cases hrd : s.read with
    | closed => trivial
    | idle => trivial
    | lock count =>
      rw [hrd] at hr
      exact hr
    | resumed count =>
      rw [hrd] at hr
      exact hr
    | wake bytes => exact absurd hrd (hnw bytes)
    | wakeWriter count =>
      rw [hrd] at hr
      exact ⟨hr.1, hr.2.1.imp id (Or.imp id fun ⟨u, hu⟩ => ⟨u, hb u hu⟩), .inr (.inr ⟨t, hself⟩)⟩
    | wait count =>
      rw [hrd] at hr
      exact ⟨hr.1, hr.2.1.imp id (Or.imp id fun ⟨u, hu⟩ => ⟨u, hb u hu⟩), .inr (.inr ⟨t, hself⟩)⟩
    | blocked count =>
      rw [hrd] at hr
      exact ⟨hr.1, hr.2.1.imp id fun ⟨u, hu⟩ => ⟨u, hb u hu⟩, .inr ⟨t, hself⟩⟩
  · by_cases hut : u = t
    · exact .inr (hut ▸ hself)
    · exact absurd hm (hok u hu hut)
  · rw [honly u hu]
    exact ⟨rfl, hok⟩

/-- The end of a close. -/
theorem PipeInv.closeDone (h : PipeInv s) (hl : s.lock = .free ∨ s.lock = .writer t)
    (hb : (s.call t).brings = false) (hw : s.writer = true → s.mode t = .rdwr)
    (hwait : s.read.leaves = true → s.writer = true ∨ s.readerQueue.flag = true)
    (hblocked : s.read.queued ≠ [] → s.writer = true) : PipeInv (s.closeDone t) := by
  have hnw := h.no_wake (by rcases hl with hl | hl <;> rw [hl] <;> exact fun he => (nomatch he))
  have hne : ∀ u, u ≠ t → Function.update s.call t .idle u = s.call u :=
    fun u hu => Function.update_of_ne hu _ _
  have hself : Function.update s.call t .idle t = .idle := Function.update_self ..
  have hno : ∀ u, Function.update s.call t .idle u ≠ .closeLoop := by
    intro u hu
    by_cases hut : u = t
    · rw [hut, hself] at hu
      cases hu
    · rw [hne u hut, ← h.lockWriter u] at hu
      rcases hl with hl | hl
      · exact nomatch hl.symm.trans hu
      · exact hut (PipeLock.writer.inj (hl.symm.trans hu)).symm
  have hbr : ∀ u, (s.call u).brings = true → (Function.update s.call t .idle u).brings = true := by
    intro u hu
    have hut : u ≠ t := by
      rintro rfl
      rw [hb] at hu
      cases hu
    rw [hne u hut]
    exact hu
  have hr := h.read
  refine ⟨?_, fun u => ?_, h.waiting, ?_, fun u hu hm => ?_, fun hwr => ?_,
    fun u hu => absurd hu (hno u)⟩
  · exact iff_of_false (fun hl => (nomatch hl)) fun ⟨bytes, hb⟩ => hnw bytes hb
  · exact iff_of_false (fun hl => (nomatch hl)) (hno u)
  · show s.read.Of _
    cases hrd : s.read with
    | closed => trivial
    | idle => trivial
    | lock count =>
      rw [hrd] at hr
      exact hr
    | resumed count =>
      rw [hrd] at hr
      exact hr
    | wake bytes => exact absurd hrd (hnw bytes)
    | wakeWriter count =>
      rw [hrd] at hr hwait
      exact ⟨hr.1, hr.2.1.imp id (Or.imp id fun ⟨u, hu⟩ => ⟨u, hbr u hu⟩), (hwait rfl).imp id .inl⟩
    | wait count =>
      rw [hrd] at hr hwait
      exact ⟨hr.1, hr.2.1.imp id (Or.imp id fun ⟨u, hu⟩ => ⟨u, hbr u hu⟩), (hwait rfl).imp id .inl⟩
    | blocked count =>
      rw [hrd] at hr hblocked
      exact ⟨hr.1, hr.2.1.imp id fun ⟨u, hu⟩ => ⟨u, hbr u hu⟩,
        .inl (hblocked fun he => (nomatch he))⟩
  · obtain ⟨hut, hu⟩ := Finset.mem_erase.mp hu
    refine (h.wronly u hu hm).imp id fun hc => ?_
    show Function.update s.call t .idle u = .closeLoop
    rw [hne u hut]
    exact hc
  · obtain ⟨u, hu, hm⟩ := h.writer hwr
    refine ⟨u, Finset.mem_erase.mpr ⟨?_, hu⟩, hm⟩
    rintro rfl
    exact nomatch hm.symm.trans (hw hwr)

/-- The steps of a writer. -/
theorem PipeInv.stepWriter (h : PipeInv s) (hok : pipeOk s (.writer t) = true)
    (hst : s.stepWriter t = some s') : PipeInv s' := by
  unfold PipeState.stepWriter at hst
  cases hcall : s.call t with
  | idle =>
    rw [hcall] at hst
    cases hst
  | blocked buf ret =>
    rw [hcall] at hst
    cases hst
  | lock buf ret =>
    simp only [hcall] at hst
    by_cases hf : s.lock = .free
    · rw [if_pos hf] at hst
      cases hst
      exact h.fopsWrite hcall hf
    · rw [if_neg hf] at hst
      cases hst
  | wakeReader buf ret =>
    simp only [hcall] at hst
    cases hst
    exact h.wakeupReader (by rw [hcall]; exact fun he => (nomatch he)) fun he => (nomatch he)
  | wait buf ret =>
    simp only [hcall] at hst
    cases hst
    refine h.quietCall rfl rfl rfl rfl rfl rfl rfl rfl (by rw [hcall]; exact fun he => (nomatch he))
      ?_ (by rw [hcall]; rfl)
    split_ifs <;> exact fun he => (nomatch he)
  | resumed buf ret =>
    simp only [hcall] at hst
    cases hst
    exact h.quietCall rfl rfl rfl rfl rfl rfl rfl rfl (by rw [hcall]; exact fun he => (nomatch he))
      (fun he => (nomatch he)) (by rw [hcall]; rfl)
  | wake ret =>
    simp only [hcall] at hst
    cases hst
    exact h.wakeupReader (by rw [hcall]; exact fun he => (nomatch he)) fun he => (nomatch he)
  | closeLock =>
    simp only [hcall] at hst
    by_cases hf : s.lock = .free
    · rw [if_pos hf] at hst
      cases hm : s.mode t with
      | wronly =>
        simp only [pipeOk, hcall, hm, Bool.or_eq_true, decide_eq_true_eq, reduceCtorEq,
          false_or] at hok
        simp only [hm] at hst
        cases hst
        exact h.closeLock hcall hf hok
      | rdwr =>
        simp only [hm] at hst
        cases hst
        have hno := h.no_closeLoop hf
        have hr := h.read
        refine h.closeDone (.inl hf) (by rw [hcall]; rfl) (fun _ => hm) (fun hlv => ?_) fun hq => ?_
        · cases hrd : s.read <;> rw [hrd] at hlv hr <;> try cases hlv
          · exact hr.2.2.imp id fun hx => hx.resolve_right fun ⟨u, hu⟩ => hno u hu
          · exact hr.2.2.imp id fun hx => hx.resolve_right fun ⟨u, hu⟩ => hno u hu
        · cases hrd : s.read <;> rw [hrd] at hq hr <;> try exact absurd rfl hq
          exact hr.2.2.resolve_right fun ⟨u, hu⟩ => hno u hu
    · rw [if_neg hf] at hst
      cases hst
  | closeLoop =>
    simp only [hcall] at hst
    by_cases hw : s.readerQueue.waiting ≠ []
    · rw [if_pos hw] at hst
      cases hst
      exact h.closeWake
    · rw [if_neg hw] at hst
      cases hst
      simp only [pipeOk, hcall, hw, Bool.or_eq_true, decide_eq_true_eq, false_or,
        Bool.not_eq_true'] at hok
      have hwr := (h.closing t hcall).1
      refine h.closeDone (.inr ((h.lockWriter t).mpr hcall)) (by rw [hcall]; rfl) (fun ht => ?_)
        (fun hlv => ?_) fun hq => ?_
      · rw [hwr] at ht
        cases ht
      · refine .inr (hok.resolve_right fun hn => ?_)
        rw [hn] at hlv
        cases hlv
      · rw [← h.waiting] at hq
        exact absurd hq hw

theorem pipeStep_inv (h : PipeInv s) {a : PipeLabel T} (hok : pipeOk s a = true)
    (hst : pipeStep s a = some s') : PipeInv s' := by
  cases a with
  | read count =>
    simp only [pipeStep] at hst
    by_cases hidle : s.read = .idle
    · rw [if_pos hidle] at hst
      cases hst
      have hpos : 0 < count := of_decide_eq_true hok
      refine h.setRead (c := .lock count) (q := s.readerQueue) hpos ?_
        (fun _ he => (nomatch he)) fun _ he => (nomatch hidle.symm.trans he)
      rw [h.waiting, hidle]
      rfl
    · rw [if_neg hidle] at hst
      cases hst
  | closeReader =>
    simp only [pipeStep] at hst
    by_cases hidle : s.read = .idle ∧ s.lock = .free
    · rw [if_pos hidle] at hst
      cases hst
      have hset : PipeInv { s with readerQueue := s.readerQueue, read := .closed } := by
        refine h.setRead (c := .closed) trivial ?_ (fun _ he => (nomatch he))
          fun _ he => (nomatch hidle.1.symm.trans he)
        rw [h.waiting, hidle.1]
        rfl
      exact ⟨hset.lockReader, hset.lockWriter, hset.waiting, trivial, hset.wronly, hset.writer,
        hset.closing⟩
    · rw [if_neg hidle] at hst
      cases hst
  | reader => exact h.stepReader hok hst
  | write t buf =>
    simp only [pipeStep] at hst
    by_cases hcond : t ∈ s.opened ∧ s.call t = .idle
    · rw [if_pos hcond] at hst
      have hct : s.call t ≠ .closeLoop := by
        rw [hcond.2]
        exact fun he => (nomatch he)
      cases hst
      by_cases hnil : buf = []
      · rw [if_pos hnil]
        exact h.quietCall rfl rfl rfl rfl rfl rfl rfl rfl hct (fun he => (nomatch he))
          (by rw [hcond.2]; rfl)
      · rw [if_neg hnil]
        exact h.quietCall rfl rfl rfl rfl rfl rfl rfl rfl hct (fun he => (nomatch he))
          (by rw [hcond.2]; rfl)
    · rw [if_neg hcond] at hst
      cases hst
  | close t =>
    simp only [pipeStep] at hst
    by_cases hcond : t ∈ s.opened ∧ s.call t = .idle
    · rw [if_pos hcond] at hst
      have hct : s.call t ≠ .closeLoop := by
        rw [hcond.2]
        exact fun he => (nomatch he)
      cases hst
      exact h.quietCall rfl rfl rfl rfl rfl rfl rfl rfl hct (fun he => (nomatch he))
        (by rw [hcond.2]; rfl)
    · rw [if_neg hcond] at hst
      cases hst
  | writer t => exact h.stepWriter hok hst

theorem PipeInit.inv (h : PipeInit s) : PipeInv s := by
  refine ⟨?_, fun t => ?_, ?_, ?_, fun t ht hm => .inl (h.writer.mpr ⟨t, ht, hm⟩), h.writer.mp,
    fun t ht => ?_⟩
  · rw [h.lock, h.read]
    exact iff_of_false (fun he => (nomatch he)) fun ⟨_, he⟩ => (nomatch he)
  · rw [h.lock, h.call t]
    exact iff_of_false (fun he => (nomatch he)) fun he => (nomatch he)
  · rw [h.readerQueue, h.read]
    rfl
  · rw [h.read]
    trivial
  · exact nomatch (h.call t).symm.trans ht

/-- **Pipes do not strand their reader.** In every run whose steps meet the condition, the reader does not
wait for bytes that are there or for writers that are gone, and end of file is the end. -/
theorem pipe_live (hs : (pipeSystem T).Reach pipeOk s) : PipeLive s := by
  have hinv : PipeInv s := hs.invariant (I := PipeInv) (fun _ h => PipeInit.inv h)
    fun _ _ _ h hok hst => pipeStep_inv h hok hst
  exact hinv.live

end

end

/-! ## Runs -/

/-- Two descriptors opened with `O_WRONLY`, and an empty FIFO of 8 bytes. -/
def pipeStart (opened : Finset (Fin 2)) : PipeState (Fin 2) where
  fifo := RingBuffer.init (fun _ => 0) 8
  writer := decide (opened ≠ ∅)
  lock := .free
  readerQueue := ⟨false, []⟩
  writerQueue := ⟨false, []⟩
  opened := opened
  mode := fun _ => .wronly
  readNonblock := false
  nonblock := fun _ => false
  read := .idle
  call := fun _ => .idle
  readRet := (0, [])
  ret := fun _ => 0

theorem pipeStart_init (opened : Finset (Fin 2)) : PipeInit (pipeStart opened) := by
  refine ⟨?_, rfl, rfl, rfl, rfl, fun _ => rfl⟩
  show decide (opened ≠ ∅) = true ↔ ∃ t ∈ opened, WriteMode.wronly = .wronly
  rw [decide_eq_true_eq, ← Finset.nonempty_iff_ne_empty]
  exact ⟨fun ⟨t, ht⟩ => ⟨t, ht, rfl⟩, fun ⟨t, ht, _⟩ => ⟨t, ht⟩⟩

/-- The reader waits, a writer wakes it, it reads the bytes and then end of file after the last close. -/
theorem pipe_live_end : ∃ s, (pipeSystem (Fin 2)).Reach pipeOk s ∧
    (s.read = .wake [] ∧ s.readRet = (2, [7, 8])) ∧ PipeLive s := by
  obtain ⟨s, hs, hp⟩ := System.exists_reach (pipeSystem (Fin 2)) pipeOk
    (fun s => decide (s.read = .wake [] ∧ s.readRet = (2, [7, 8])))
    (pipeStart_init {0})
    [.read 4, .reader, .reader, .reader, .write 0 [7, 8], .writer 0, .writer 0, .reader, .reader,
      .reader, .read 4, .close 0, .writer 0, .writer 0, .reader] (by decide)
  exact ⟨s, hs, of_decide_eq_true hp, pipe_live hs⟩

/-- **End of file with a writer left**: one of two writers closes. -/
theorem pipe_endOfFile : ¬ ∀ s, (pipeSystem (Fin 2)).Reach System.anyStep s → PipeLive s := by
  intro h
  obtain ⟨s, hs, hp⟩ := System.exists_reach (pipeSystem (Fin 2)) System.anyStep
    (fun s => decide (s.read = .wake [] ∧ s.opened = {1})) (pipeStart_init {0, 1})
    [.close 0, .writer 0, .writer 0, .read 4, .reader] (by decide)
  obtain ⟨hread, hopen⟩ := of_decide_eq_true hp
  have hempty := ((h s hs).endOfFile hread).2
  rw [hopen] at hempty
  exact absurd hempty (by decide)

end RtThread
