import SecureExec.Lib.Lts
import Mathlib.Data.List.Basic

/-!
# Streams — ReadStream — a file that is read as a stream

`ReadStream` of the guest's `fs`: a descriptor that is opened, read and closed by callbacks, or a
`FileHandle` of the program; flags that gate the read loop, and events whose listeners may call the
stream again.

* `normalizeStreamStartEnd`: the options; a `Range` is one that was not refused.
* `step`: the calls of a program, at any time and from within a listener; the microtasks, in order;
  the callbacks of `open`, `read` and `close`, each at any later time; and what else is done to the
  handle.
* `Note`: the events, the descriptors that were opened and closed, and the call of `destroy`.
-/

namespace Streams
open Lts

abbrev Bytes := List UInt8

/-! ### Options -/

structure Options where
  start : Option Int
  «end» : Option Int
  highWaterMark : Option Int
  bufferSize : Option Int
  autoClose : Option Bool
  deriving DecidableEq

/-- `ERR_OUT_OF_RANGE` for the option `name`. -/
structure OutOfRange where
  name : String
  range : String
  received : Int
  deriving DecidableEq

/-- Options that are in range. -/
structure Range where
  start : Option ℕ
  «end» : Option ℕ
  highWaterMark : ℕ
  autoClose : Bool
  le : ∀ a ∈ start, ∀ b ∈ «end», a ≤ b
  pos : 0 < highWaterMark
  deriving DecidableEq

/-- A position that an option gives, if it is one. -/
def position? (name : String) : Option Int → Except OutOfRange (Option ℕ)
  | none => .ok none
  | some n => if n < 0 then .error ⟨name, ">= 0", n⟩ else .ok (some n.toNat)

def normalizeStreamStartEnd (options : Options) : Except OutOfRange Range :=
  match position? "start" options.start with
  | .error e => .error e
  | .ok start =>
    match position? "end" options.end with
    | .error e => .error e
    | .ok «end» =>
      if le : ∀ a ∈ start, ∀ b ∈ «end», a ≤ b then
        let candidate := (options.highWaterMark.or options.bufferSize).getD 0
        .ok {
          start, «end», le
          highWaterMark := if candidate > 0 then candidate.toNat else 65536
          autoClose := options.autoClose ≠ some false
          pos := by split <;> omega }
      else .error ⟨"start", "<= \"end\" (here: " ++ toString («end».getD 0) ++ ")", (start.getD 0 : ℕ)⟩

theorem position?_ok {name : String} {n : Option Int} {p : Option ℕ}
    (h : position? name n = .ok p) : n = p.map Nat.cast := by
  cases n with
  | none => cases h; rfl
  | some n =>
    rw [position?] at h
    split at h
    · cases h
    · cases h
      exact congrArg some (by omega)

theorem position?_error {name : String} {n : Option Int} {e : OutOfRange}
    (h : position? name n = .error e) : e.name = name ∧ n = some e.received ∧ e.received < 0 := by
  cases n with
  | none => cases h
  | some n =>
    rw [position?] at h
    split at h <;> cases h
    exact ⟨rfl, rfl, ‹_›⟩

/-- Options are a range, or the error names the one that is negative, or the start behind the
end. -/
theorem normalizeStreamStartEnd_spec (o : Options) :
    match normalizeStreamStartEnd o with
    | .ok r => o.start = r.start.map Nat.cast ∧ o.end = r.end.map Nat.cast
    | .error e =>
      e.name = "start" ∧ o.start = some e.received ∧
          (e.received < 0 ∨ ∃ b ∈ o.end, b < e.received) ∨
        e.name = "end" ∧ o.end = some e.received ∧ e.received < 0 := by
  rw [normalizeStreamStartEnd]
  cases hstart : position? "start" o.start with
  | error e =>
    obtain ⟨hname, hvalue, hneg⟩ := position?_error hstart
    exact .inl ⟨hname, hvalue, .inl hneg⟩
  | ok start =>
    have hs := position?_ok hstart
    cases hend : position? "end" o.end with
    | error e => exact .inr (position?_error hend)
    | ok stop =>
      have he := position?_ok hend
      by_cases hle : ∀ a ∈ start, ∀ b ∈ stop, a ≤ b
      · simp only [dif_pos hle]
        exact ⟨hs, he⟩
      · simp only [dif_neg hle]
        push Not at hle
        obtain ⟨a, rfl, b, rfl, hlt⟩ := hle
        exact .inl ⟨trivial, hs, .inr ⟨b, he, Int.ofNat_lt.mpr (show b < a by omega)⟩⟩

namespace Range

variable (o : Range)

/-- The number of bytes that the range has at most. -/
def length : Option ℕ := o.end.map fun e => e - o.start.getD 0 + 1

/-- The bytes of the range, from `start` to `min(end, size - 1)`. -/
def of (content : Bytes) : Bytes :=
  match o.length with
  | none => content.drop (o.start.getD 0)
  | some n => (content.drop (o.start.getD 0)).take n

end Range

/-! ### The stream -/

/-- A `FileHandle`; `lost` is one whose descriptor was closed by its number. -/
inductive Handle where
  | open
  | lost
  | closed
  deriving DecidableEq

/-- `fd`: `null`, a descriptor, or `-1` when it is closed; or that of `_fileHandle`. -/
inductive Fd where
  | null
  | open (n : ℕ)
  | closed
  | handle (h : Handle)
  deriving DecidableEq

def Fd.isHandle : Fd → Bool
  | .handle _ => true
  | _ => false

inductive Source where
  | path
  | fd (n : ℕ)
  | handle (h : Handle)
  deriving DecidableEq

def Source.start : Source → Fd
  | .path => .null
  | .fd n => .open n
  | .handle h => .handle h

inductive Task where
  | openIfNeeded
  | readNextChunk
  | closeUnderlying
  /-- What follows when the descriptor is closed, or there is none to close. -/
  | closed
  | abort
  deriving DecidableEq

/-- What a method still does when the listeners of the event that it emits have returned. -/
inductive Frame where
  | emitOpen
  | onRead
  | finishReadable
  | handleStreamError
  | destroy
  | abort
  | none
  deriving DecidableEq

structure ReadStream where
  fd : Fd
  readable : Bool
  readableFlowing : Option Bool
  readableEnded : Bool
  destroyed : Bool
  closed : Bool
  started : Bool
  reading : Bool
  readScheduled : Bool
  opening : Bool
  remaining : Option ℕ
  position : Option ℕ
  bytesRead : ℕ
  signalAborted : Bool
  /-- The length of the buffer that is read into. -/
  nextLength : ℕ
  /-- The callback of `close` is to come. -/
  closing : Bool
  microtasks : List Task
  frames : List Frame
  deriving DecidableEq

inductive Note where
  | open (fd : ℕ)
  | data (chunk : Bytes)
  | «end»
  | error
  | close
  /-- `destroy` was called for the first time. -/
  | destroyed
  /-- `fs.close` was called. -/
  | closedFd (fd : ℕ)
  deriving DecidableEq

inductive Event where
  /-- `on("data", …)`. -/
  | onData
  | pause
  | resume
  | destroy (error : Bool)
  | close
  /-- The signal is aborted. -/
  | abort
  /-- The listeners of the last event return. -/
  | listenersReturn
  | microtask
  /-- The callback of `open`: a descriptor, or an error. -/
  | opened (fd : Option ℕ)
  /-- The callback of `read`: what was read, or an error. -/
  | readDone (data : Option Bytes)
  | closeDone
  /-- The program closes the handle. -/
  | handleClose
  /-- The number of the handle's descriptor is closed, or given to another one. -/
  | handleFd (isOpen : Bool)
  deriving DecidableEq

namespace ReadStream

/-- A stream of a path, a descriptor or a handle; its signal may have been aborted before. -/
def init (o : Range) (source : Source) (aborted : Bool) : ReadStream where
  fd := source.start
  readable := true
  readableFlowing := none
  readableEnded := false
  destroyed := false
  closed := false
  started := false
  reading := false
  readScheduled := false
  opening := false
  remaining := o.length
  position := o.start
  bytesRead := 0
  signalAborted := aborted
  nextLength := 0
  closing := false
  microtasks := (if aborted then [.abort] else []) ++ 
    (if source = .path then [.openIfNeeded] else [])
  frames := []

variable (s : ReadStream)

def queueMicrotask (t : Task) : ReadStream := { s with microtasks := s.microtasks ++ [t] }

/-- The listeners of an event run, and then `f`. -/
@[simps]
def emit (f : Frame) : ReadStream := { s with frames := f :: s.frames }

def scheduleRead : ReadStream :=
  if s.readScheduled ∨ s.reading ∨ s.readableFlowing = some false ∨ s.destroyed ∨ s.closed then s
  else queueMicrotask { s with readScheduled := true } .readNextChunk

def openIfNeeded : ReadStream :=
  if s.fd ≠ .null ∨ s.opening ∨ s.destroyed ∨ s.closed then s else { s with opening := true }

def finishReadable : ReadStream × List Note :=
  if s.readableEnded then (s, [])
  else (emit { s with readable := false, readableEnded := true } .finishReadable, [.end])

def destroy (error : Bool) : ReadStream × List Note :=
  if s.destroyed then (s, [])
  else
    let t := { s with destroyed := true, readable := false }
    if error then (t.emit .destroy, [.destroyed, .error])
    else (t.queueMicrotask .closeUnderlying, [.destroyed])

def handleStreamError : ReadStream × List Note :=
  if s.closed then (s, []) else (s.emit .handleStreamError, [.error])

def abort : ReadStream × List Note :=
  if s.closed ∨ s.destroyed then (s, []) else (s.emit .abort, [.error])

/-- The handle is closed, and `_handleCloseListener` is called. -/
def handleClosed : ReadStream × List Note :=
  let t := { s with fd := .handle .closed }
  if s.closed then (t.emit .none, [])
  else (emit { t with closed := true, destroyed := true, readable := false } .none, [.close])

def closeUnderlying : ReadStream × List Note :=
  match s.fd with
  | .open n => ({ s with closing := true }, [.closedFd n])
  -- what follows finds `closed` set
  | .handle .open => s.handleClosed
  -- `close` of the handle rejects, and nothing follows
  | .handle .lost => (s, [])
  | _ => (s.queueMicrotask .closed, [])

/-- `closed` is set and `close` is emitted. -/
def emitClose : ReadStream × List Note :=
  if s.closed then (s, []) else (emit { s with closed := true } .none, [.close])

/-- `throwIfAborted` makes the promise of the read reject, which nobody looks at. -/
def readNextChunk (o : Range) : ReadStream × List Note :=
  if s.reading ∨ s.destroyed ∨ s.closed ∨ s.readableFlowing = some false then (s, [])
  else if s.signalAborted then (s, [])
  else if s.fd = .null then (s.openIfNeeded, [])
  else if s.remaining = some 0 then s.finishReadable
  else
    let nextLength := match s.remaining with
      | none => o.highWaterMark
      | some n => min o.highWaterMark n
    ({ s with reading := true, nextLength := nextLength }, [])

def onRead (data : Option Bytes) : ReadStream × List Note :=
  let s := { s with reading := false }
  match data with
  | none => s.handleStreamError
  | some [] => s.finishReadable
  | some data =>
    (emit { s with
        bytesRead := s.bytesRead + data.length
        position := s.position.map (· + data.length)
        remaining := s.remaining.map (· - data.length) } .onRead,
      [.data data])

/-- The rest of a method, after the listeners. -/
def afterListeners (o : Range) : Frame → ReadStream × List Note
  | .emitOpen => (if s.started ∨ s.readableFlowing = some true then s.scheduleRead else s, [])
  | .onRead => if s.remaining = some 0 then s.finishReadable else (s.scheduleRead, [])
  | .finishReadable => if o.autoClose then s.destroy false else (s, [])
  | .handleStreamError =>
    if o.autoClose then s.destroy false else ({ s with readable := false }, [])
  | .destroy => (s.queueMicrotask .closeUnderlying, [])
  | .abort =>
    if s.fd.isHandle then
      (emit { s with destroyed := true, readable := false, closed := true } .none, [.close])
    else if o.autoClose then s.destroy false
    else (emit { s with closed := true } .none, [.close])
  | .none => (s, [])

def run (o : Range) : Task → ReadStream × List Note
  | .openIfNeeded => (s.openIfNeeded, [])
  | .readNextChunk => readNextChunk { s with readScheduled := false } o
  | .closeUnderlying => s.closeUnderlying
  | .closed => s.emitClose
  | .abort => s.abort

def flow : ReadStream := scheduleRead { s with started := true, readableFlowing := some true }

def step (o : Range) : Event → Option (ReadStream × List Note)
  | .onData | .resume => some (s.flow, [])
  | .pause => some ({ s with readableFlowing := some false }, [])
  | .destroy error => some (s.destroy error)
  | .close => some (s.destroy false)
  | .abort => if s.signalAborted then none else some (abort { s with signalAborted := true })
  | .listenersReturn =>
    match s.frames with
    | [] => none
    | f :: rest => some (afterListeners { s with frames := rest } o f)
  | .microtask =>
    match s.frames, s.microtasks with
    | [], t :: rest => some (run { s with microtasks := rest } o t)
    | _, _ => none
  | .opened fd =>
    if s.opening then
      let t := { s with opening := false }
      match fd with
      | none => some t.handleStreamError
      | some n => some (emit { t with fd := .open n } .emitOpen, [.open n])
    else none
  | .readDone data => if s.reading then some (s.onRead data) else none
  | .closeDone =>
    if s.closing then
      some (queueMicrotask { s with fd := .closed, closing := false } .closed, [])
    else none
  | .handleClose => if s.fd = .handle .open then some s.handleClosed else none
  | .handleFd isOpen =>
    if s.fd = .handle .open ∨ s.fd = .handle .lost then
      some ({ s with fd := .handle (if isOpen then .open else .lost) }, [])
    else none

/-! ### The steps -/

variable {s} {o : Range}

/-- What a step can do. -/
inductive Step (s : ReadStream) (o : Range) : Event → ReadStream × List Note → Prop where
  | onData : Step s o .onData (s.flow, [])
  | resume : Step s o .resume (s.flow, [])
  | pause : Step s o .pause ({ s with readableFlowing := some false }, [])
  | destroy (error : Bool) : Step s o (.destroy error) (s.destroy error)
  | close : Step s o .close (s.destroy false)
  | abort (h : s.signalAborted = false) : Step s o .abort (abort { s with signalAborted := true })
  | listenersReturn (f : Frame) (rest : List Frame) (h : s.frames = f :: rest) :
      Step s o .listenersReturn (afterListeners { s with frames := rest } o f)
  | microtask (t : Task) (rest : List Task) (hf : s.frames = []) (h : s.microtasks = t :: rest) :
      Step s o .microtask (run { s with microtasks := rest } o t)
  | notOpened (h : s.opening = true) :
      Step s o (.opened none) (handleStreamError { s with opening := false })
  | opened (n : ℕ) (h : s.opening = true) : Step s o (.opened (some n))
      (emit { s with opening := false, fd := .open n } .emitOpen, [.open n])
  | readDone (data : Option Bytes) (h : s.reading = true) : Step s o (.readDone data) (s.onRead data)
  | closeDone (h : s.closing = true) : Step s o .closeDone
      (queueMicrotask { s with fd := .closed, closing := false } .closed, [])
  | handleClose (h : s.fd = .handle .open) : Step s o .handleClose s.handleClosed
  | handleFd (isOpen : Bool) (h : s.fd.isHandle = true) : Step s o (.handleFd isOpen)
      ({ s with fd := .handle (if isOpen then .open else .lost) }, [])

theorem step_inv {a : Event} {r : ReadStream × List Note} (hs : s.step o a = some r) :
    Step s o a r := by
  unfold step at hs
  split at hs
  · cases hs; exact .onData
  · cases hs; exact .resume
  · cases hs; exact .pause
  · cases hs; exact .destroy _
  · cases hs; exact .close
  · split at hs
    · cases hs
    · cases hs; exact .abort (eq_false_of_ne_true ‹_›)
  · split at hs
    · cases hs
    · cases hs; exact .listenersReturn _ _ ‹_›
  · split at hs
    · cases hs; exact .microtask _ _ ‹_› ‹_›
    · cases hs
  · split at hs
    · dsimp only at hs
      split at hs
      · cases hs; exact .notOpened ‹_›
      · cases hs; exact .opened _ ‹_›
    · cases hs
  · split at hs
    · cases hs; exact .readDone _ ‹_›
    · cases hs
  · split at hs
    · cases hs; exact .closeDone ‹_›
    · cases hs
  · split at hs
    · cases hs; exact .handleClose ‹_›
    · cases hs
  · split at hs
    · rename_i hf
      cases hs
      exact .handleFd _ (by rcases hf with hf | hf <;> rw [hf] <;> rfl)
    · cases hs

end ReadStream
end Streams
