import SecureExec.Node.FdLayers

/-!
# Streams — WriteStream — a file that is written as a stream

`WriteStream` of the guest's `fs`.  `write` keeps the chunk and says that it is written; `end` stores
what was kept, through a `FileHandle`, through the descriptor, or as a whole file; `close` and
`destroy` store nothing.

* `construct`: a stream of a path, of a descriptor, or of a `FileHandle`.
* `step`: the calls of a program, at any time and from within a listener; the microtasks, in order;
  and the callbacks of `fs.close`.
* `Note`: the chunks whose callback reports no error, as they were, and the events.
-/

namespace Streams.Writing
open FdLayers SecureExec SecureExec.Kernel

def MAX_WRITE_STREAM_BYTES : ℕ := 16 * 1024 * 1024

/-- A chunk: the bytes of a string, or a view of a buffer of the program. -/
inductive Chunk where
  | bytes (data : ByteArray8)
  | view (buffer : ℕ)
  deriving DecidableEq

/-- What the program's buffers hold. -/
abbrev Memory : Type := ℕ → ByteArray8

def Chunk.data (memory : Memory) : Chunk → ByteArray8
  | .bytes data => data
  | .view buffer => memory buffer

/-- What follows `_closeUnderlying`: the end of `close` and `destroy`, or that of `end`. -/
inductive Then where
  | close
  | finish
  deriving DecidableEq

inductive Task where
  | flush
  /-- The loop over the chunks goes on, after an `await`. -/
  | flushChunk
  | closeUnderlying
  | afterClose (k : Then)
  deriving DecidableEq

/-- What a method still does when the listeners have returned. -/
inductive Frame where
  | finish
  | destroy
  | none
  deriving DecidableEq

structure WriteStream where
  layer : FdLayer
  memory : Memory
  path : Option String
  /-- `fd`, when it is not `-1`. -/
  fd : Option ℕ
  /-- `_fileHandle`, and its descriptor while it is not closed. -/
  fileHandle : Option (Option ℕ)
  autoClose : Bool
  writableEnded : Bool
  destroyed : Bool
  closed : Bool
  writableLength : ℕ
  chunks : List Chunk
  /-- How many chunks the loop of `end` has stored. -/
  stored : ℕ
  /-- What follows the callbacks of `fs.close` that are to come. -/
  closings : List Then
  microtasks : List Task
  frames : List Frame

inductive Note where
  /-- A chunk whose callback reports no error. -/
  | wrote (data : ByteArray8)
  /-- A chunk whose callback reports an error. -/
  | refused
  | finish
  | error
  | close
  deriving DecidableEq

inductive Event where
  | write (chunk : Chunk)
  | «end» (chunk : Option Chunk)
  | close
  | destroy (error : Bool)
  /-- The program changes a buffer. -/
  | mutate (buffer : ℕ) (data : ByteArray8)
  | listenersReturn
  | microtask
  | closeDone
  deriving DecidableEq

inductive Source where
  | path (path : String) (flags : Flags)
  | fd (path : Option String) (fd : ℕ)
  | handle (path : Option String) (fd : ℕ)
  deriving DecidableEq

namespace WriteStream

def new (layer : FdLayer) (memory : Memory) (path : Option String) (fd : Option ℕ)
    (fileHandle : Option (Option ℕ)) (autoClose : Bool) : WriteStream where
  layer := layer
  memory := memory
  path := path
  fd := fd
  fileHandle := fileHandle
  autoClose := autoClose
  writableEnded := false
  destroyed := false
  closed := false
  writableLength := 0
  chunks := []
  stored := 0
  closings := []
  microtasks := []
  frames := []

/-- The constructor; `start` has been validated, and is not used. -/
def construct (layer : FdLayer) (memory : Memory) (source : Source) (autoClose : Bool) :
    Except Thrown WriteStream :=
  match source with
  | .handle path n => .ok (new layer memory path (some n) (some (some n)) autoClose)
  | .fd path n => .ok (new layer memory path (some n) none autoClose)
  | .path path flags =>
    match Guest.fdOpen layer path flags with
    | (.ok (.fd n), layer) => .ok (new layer memory (some path) (some n) none autoClose)
    | (.ok _, _) => .error ⟨.EBADF, "EBADF: bad file descriptor, open"⟩
    | (.error e, _) => .error e

variable (s : WriteStream)

def queueMicrotask (t : Task) : WriteStream := { s with microtasks := s.microtasks ++ [t] }

/-- The listeners of an event run, and then `f`. -/
def emit (f : Frame) : WriteStream := { s with frames := f :: s.frames }

def write (chunk : Chunk) : WriteStream × List Note :=
  let data := chunk.data s.memory
  if s.writableEnded ∨ s.destroyed then (s, [.refused])
  else if s.writableLength + data.length > MAX_WRITE_STREAM_BYTES then
    ({ s with destroyed := true }, [.refused])
  else
    ({ s with
        chunks := s.chunks ++ [chunk]
        writableLength := s.writableLength + data.length },
      [.wrote data])

/-- The write of the last chunk, if there is one. -/
def writeLast : Option Chunk → WriteStream × List Note
  | none => (s, [])
  | some chunk => s.write chunk

def «end» (chunk : Option Chunk) : WriteStream × List Note :=
  if s.writableEnded then (s, [])
  else
    let r := s.writeLast chunk
    (queueMicrotask { r.1 with writableEnded := true, writableLength := 0 } .flush, r.2)

def close : WriteStream := s.queueMicrotask .closeUnderlying

def destroy (error : Bool) : WriteStream × List Note :=
  if s.destroyed then (s, [])
  else
    let t := { s with destroyed := true }
    if error then (t.emit .destroy, [.error]) else (t.queueMicrotask .closeUnderlying, [])

/-- `end` has failed. -/
def fail : WriteStream × List Note := (s.emit .none, [.error])

/-- `end` is done. -/
def finish : WriteStream × List Note := (s.emit .finish, [.finish])

/-- `_closeUnderlying`, with what follows it. -/
def closeUnderlying (k : Then) : WriteStream × List Note :=
  match s.fileHandle with
  | some none => (s.queueMicrotask (.afterClose k), [])
  | some (some n) =>
    match Guest.fdClose s.layer n with
    | (.ok _, layer) =>
      (queueMicrotask { s with layer := layer, fileHandle := some none } (.afterClose k), [])
    | (.error _, _) =>
      match k with
      | .close => (s, [])
      | .finish => s.fail
  | none =>
    match s.fd with
    | some n =>
      ({ s with layer := (Guest.fdClose s.layer n).2, closings := s.closings ++ [k] }, [])
    | none => (s.queueMicrotask (.afterClose k), [])

/-- `fs.writeSync` for each chunk, up to one that fails. -/
def writeChunks (n : ℕ) : FdLayer → List ByteArray8 → FdLayer × ℕ
  | layer, [] => (layer, 0)
  | layer, data :: rest =>
    match Guest.fdWrite layer n data none with
    | (.error _, _) => (layer, 0)
    | (.ok _, layer) => ((writeChunks n layer rest).1, (writeChunks n layer rest).2 + 1)

/-- The loop over the chunks, for a `FileHandle`. -/
def flushChunk : WriteStream × List Note :=
  match s.chunks[s.stored]? with
  | none => if s.autoClose ∧ s.fileHandle ≠ some none then s.closeUnderlying .finish else s.finish
  | some chunk =>
    match s.fileHandle.join with
    | none => s.fail
    | some n =>
      match Guest.fdWrite s.layer n (chunk.data s.memory) none with
      | (.error _, _) => s.fail
      | (.ok _, layer) =>
        (queueMicrotask { s with layer := layer, stored := s.stored + 1 } .flushChunk, [])

/-- The microtask of `end`. -/
def flush : WriteStream × List Note :=
  if s.fileHandle ≠ none then s.flushChunk
  else
    match s.fd with
    | some n =>
      let r := writeChunks n s.layer (s.chunks.map (Chunk.data s.memory))
      let t := { s with layer := r.1, stored := r.2 }
      if r.2 < s.chunks.length then t.fail
      else if s.autoClose then t.closeUnderlying .finish
      else t.finish
    | none =>
      match s.path with
      | none => s.fail
      | some path =>
        finish { s with
          layer := s.layer.writeFile path (s.chunks.flatMap (Chunk.data s.memory))
          stored := s.chunks.length }

/-- `closed` is set and `close` is emitted. -/
def emitClose : WriteStream × List Note :=
  if s.closed then (s, []) else (emit { s with closed := true } .none, [.close])

def afterListeners : Frame → WriteStream × List Note
  | .finish => if s.autoClose then s.emitClose else (s, [])
  | .destroy => (s.queueMicrotask .closeUnderlying, [])
  | .none => (s, [])

def run : Task → WriteStream × List Note
  | .flush => s.flush
  | .flushChunk => s.flushChunk
  | .closeUnderlying => s.closeUnderlying .close
  | .afterClose .close => s.emitClose
  | .afterClose .finish => s.finish

def step : Event → Option (WriteStream × List Note)
  | .write chunk => some (s.write chunk)
  | .end chunk => some (s.end chunk)
  | .close => some (s.close, [])
  | .destroy error => some (s.destroy error)
  | .mutate buffer data =>
    some ({ s with memory := Function.update s.memory buffer data }, [])
  | .listenersReturn =>
    match s.frames with
    | [] => none
    | f :: rest => some (afterListeners { s with frames := rest } f)
  | .microtask =>
    match s.frames, s.microtasks with
    | [], t :: rest => some (run { s with microtasks := rest } t)
    | _, _ => none
  | .closeDone =>
    match s.closings with
    | [] => none
    | k :: rest => some (queueMicrotask { s with fd := none, closings := rest } (.afterClose k), [])

end WriteStream
end Streams.Writing
