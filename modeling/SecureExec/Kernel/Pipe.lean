import SecureExec.Lib.Lts
import SecureExec.Kernel.Types
import SecureExec.Kernel.Wait

/-!
# Kernel — Pipe — the pipe manager

`packages/core/src/kernel/pipe-manager.ts`.  A `PipeState` is an object that a blocked writer keeps
a reference to after the manager has dropped the pipe; since pipe ids are not reused, the objects
are kept by pipe id and the map `pipes` says which ids the manager still knows.

`write` runs without interruption up to its first `await`; a blocked write is kept under its wait
handle, and once the handle is settled `writeMore` runs the next turn of the loop of
`writeBlocking`.  A waiting read is its place in `readWaiters`.

A `PipeRun` is one pipe with its blocked writes and a record beside the code of what was accepted
from which write and what was handed to reads; `PipeSys` is the manager with all its pipes.
-/

namespace SecureExec.Kernel
open SecureExec WaitQueue Function

/-- Maximum buffered bytes per pipe before writers block. -/
def MAX_PIPE_BUFFER_BYTES : Nat := 65536

inductive PipeEnd where
  | read | write
  deriving DecidableEq

structure PipeState where
  buffer : List ByteArray8
  closedRead : Bool
  closedWrite : Bool
  /-- The reads that wait, by call. -/
  readWaiters : List Nat
  waits : WaitHandles
  writeWaiters : WaitQueue
  pollWaits : WaitHandles
  pollWaiters : WaitQueue

namespace PipeState

def new : PipeState where
  buffer := []
  closedRead := false
  closedWrite := false
  readWaiters := []
  waits := .empty
  writeWaiters := []
  pollWaits := .empty
  pollWaiters := []

def bufferSize (st : PipeState) : Nat := (st.buffer.map List.length).sum

/-- `pollWaiters.wakeAll()`. -/
def pollWake (st : PipeState) : PipeState :=
  { st with
    pollWaits := (wakeAll st.pollWaits st.pollWaiters).1
    pollWaiters := (wakeAll st.pollWaits st.pollWaiters).2 }

/-- The loop of `drainBuffer`: the chunks taken and the chunks left. -/
def drainChunks : List ByteArray8 → Nat → List ByteArray8 × List ByteArray8
  | [], _ => ([], [])
  | chunk :: rest, remaining =>
    if remaining = 0 then ([], chunk :: rest)
    else if chunk.length ≤ remaining then
      let r := drainChunks rest (remaining - chunk.length)
      (chunk :: r.1, r.2)
    else ([chunk.take remaining], chunk.drop remaining :: rest)

def drainBuffer (st : PipeState) (length : Nat) : ByteArray8 × PipeState :=
  let r := drainChunks st.buffer length
  (r.1.flatten, { st with buffer := r.2 })

/-- `assertWriteOpen`; the signal `onBrokenPipe` sends is not the pipe's. -/
def assertWriteOpen (st : PipeState) : Except Failure Unit :=
  if st.closedWrite then .error (.kernelError .EPIPE "write end closed")
  else if st.closedRead then .error (.kernelError .EPIPE "read end closed")
  else .ok ()

/-- What `writeAvailable` took: how many bytes, what a waiting read was handed, the state after. -/
structure Taken where
  count : Nat
  handed : Option (Nat × ByteArray8)
  st : PipeState

def writeAvailable (st : PipeState) (data : ByteArray8) : Except Failure Taken :=
  match st.assertWriteOpen with
  | .error e => .error e
  | .ok _ =>
    if data.length = 0 then .ok ⟨0, none, st⟩
    else
      match st.readWaiters, st.buffer with
      | waiter :: rest, [] =>
        -- a waiting read is handed the data directly
        .ok ⟨data.length, some (waiter, data), { st with readWaiters := rest }.pollWake⟩
      | _, _ =>
        let capacity := MAX_PIPE_BUFFER_BYTES - st.bufferSize
        if capacity = 0 then .ok ⟨0, none, st⟩
        else
          let bytesToWrite := min capacity data.length
          .ok ⟨bytesToWrite, none,
            { st with buffer := st.buffer ++ [data.take bytesToWrite] }.pollWake⟩

/-- How a turn of a write ends. -/
inductive WriteOutcome where
  | returned (n : Nat)
  | thrown (e : Failure)
  /-- The write waits under this handle, with this many bytes accepted. -/
  | blocked (handle offset : Nat)

/-- A turn of a write: how it ends, what was taken from its data, what a read was handed. -/
structure WriteTurn where
  outcome : WriteOutcome
  accepted : ByteArray8
  handed : Option (Nat × ByteArray8)
  st : PipeState

/-- The head of the loop of `writeBlocking`, up to its `await`. -/
def enqueueWriter (t : Taken) (accepted : ByteArray8) (offset : Nat) : WriteTurn :=
  let (h, w, q) := enqueue t.st.waits t.st.writeWaiters
  ⟨.blocked h offset, accepted, t.handed, { t.st with waits := w, writeWaiters := q }⟩

/-- `write` up to its first `await`, at the flags of the write description. -/
def write (st : PipeState) (flags : Flags) (data : ByteArray8) : WriteTurn :=
  match st.writeAvailable data with
  | .error e => ⟨.thrown e, [], none, st⟩
  | .ok t =>
    if t.count = data.length then ⟨.returned data.length, data.take t.count, t.handed, t.st⟩
    else if flags.has O_NONBLOCK then
      if t.count = 0 then
        ⟨.thrown (.kernelError .EAGAIN "pipe buffer full"), [], t.handed, t.st⟩
      else ⟨.returned t.count, data.take t.count, t.handed, t.st⟩
    else enqueueWriter t (data.take t.count) t.count

/-- The turn of a write that waited under the handle `h` with `offset` bytes accepted. -/
def writeMore (st : PipeState) (h : Nat) (data : ByteArray8) (offset : Nat) : WriteTurn :=
  let st := { st with writeWaiters := remove st.writeWaiters h }
  match st.writeAvailable (data.drop offset) with
  | .error e => ⟨.thrown e, [], none, st⟩
  | .ok t =>
    if offset + t.count < data.length then
      enqueueWriter t ((data.drop offset).take t.count) (offset + t.count)
    else ⟨.returned data.length, (data.drop offset).take t.count, t.handed, t.st⟩

/-- How a read ends. -/
inductive ReadOutcome where
  | data (b : ByteArray8)
  | eof
  | waits
  deriving DecidableEq

/-- `read`, by the call `reader`. -/
def read (st : PipeState) (reader length : Nat) : ReadOutcome × PipeState :=
  if st.buffer ≠ [] then
    let (data, st) := st.drainBuffer length
    let (w, q) := wakeOne st.waits st.writeWaiters
    (.data data, { st with waits := w, writeWaiters := q }.pollWake)
  else if st.closedWrite then (.eof, st)
  else (.waits, { st with readWaiters := st.readWaiters ++ [reader] })

/-- `close` of one end; the reads that wait get an end of file when it is the write end. -/
def close (st : PipeState) (side : PipeEnd) : PipeState :=
  let (w, q) := wakeAll st.waits st.writeWaiters
  match side with
  | .read => { st with closedRead := true, waits := w, writeWaiters := q }.pollWake
  | .write =>
    { st with closedWrite := true, readWaiters := [], waits := w, writeWaiters := q }.pollWake

/-- `waitForPoll` up to its `await`. -/
def waitForPoll (st : PipeState) : PipeState :=
  let (_, w, q) := enqueue st.pollWaits st.pollWaiters
  { st with pollWaits := w, pollWaiters := q }

end PipeState

/-! ### The manager -/

structure PipeRef where
  pipeId : Nat
  side : PipeEnd
  deriving DecidableEq

/-- `PipeManager`. -/
structure PipeManager where
  states : Nat → PipeState
  pipes : Nat → Bool
  descToPipe : Nat → Option PipeRef
  nextPipeId : Nat
  nextDescId : Nat

namespace PipeManager

def new : PipeManager where
  states := fun _ => .new
  pipes := fun _ => false
  descToPipe := fun _ => none
  nextPipeId := 1
  nextDescId := 100000

/-- `createPipe`: the read and the write description, and the manager with the pipe. -/
def createPipe (m : PipeManager) : FileDescription × FileDescription × PipeManager :=
  let id := m.nextPipeId
  let readDesc : FileDescription :=
    ⟨m.nextDescId, "pipe:" ++ toString id ++ ":read", 0, O_RDONLY, 0, none⟩
  let writeDesc : FileDescription :=
    ⟨m.nextDescId + 1, "pipe:" ++ toString id ++ ":write", 0, O_WRONLY, 0, none⟩
  (readDesc, writeDesc, { m with
    states := update m.states id .new
    pipes := update m.pipes id true
    descToPipe := update (update m.descToPipe readDesc.id (some ⟨id, .read⟩))
      writeDesc.id (some ⟨id, .write⟩)
    nextPipeId := id + 1
    nextDescId := m.nextDescId + 2 })

/-- The pipe a description is the given end of. -/
def route (m : PipeManager) (descriptionId : Nat) (side : PipeEnd) (msg : String) :
    Except Failure Nat :=
  match m.descToPipe descriptionId with
  | none => .error (.kernelError .EBADF msg)
  | some ref =>
    if ref.side ≠ side then .error (.kernelError .EBADF msg)
    else if m.pipes ref.pipeId then .ok ref.pipeId
    else .error (.kernelError .EBADF "pipe not found")

def close (m : PipeManager) (descriptionId : Nat) : PipeManager :=
  match m.descToPipe descriptionId with
  | none => m
  | some ref =>
    if m.pipes ref.pipeId then
      let st := (m.states ref.pipeId).close ref.side
      { m with
        states := update m.states ref.pipeId st
        descToPipe := update m.descToPipe descriptionId none
        pipes :=
          if st.closedRead && st.closedWrite then update m.pipes ref.pipeId false
          else m.pipes }
    else m

def isPipe (m : PipeManager) (descriptionId : Nat) : Bool := (m.descToPipe descriptionId).isSome

/-- `pipeIdFor`. -/
def pipeIdFor (m : PipeManager) (descriptionId : Nat) : Option Nat :=
  (m.descToPipe descriptionId).map (·.pipeId)

end PipeManager

end SecureExec.Kernel
