import SecureExec.Lib.Bytes
import SecureExec.Kernel.Syscalls

/-!
# Kernel — FileIo — reads and writes of regular files

`fdRead` and `fdWrite` of `packages/core/src/kernel/kernel.ts` on descriptors of regular files, with
`vfsWrite`.  Each is cut at its `await`s: between two of them any other call may run.  `fdRead`
waits for a positional read and moves the cursor when the bytes are there; `vfsWrite` waits for the
whole file, then for the file to be written back, then, for a file it has made, for the `chmod`.

The file system is a map from paths to contents; a read or a write of a file takes effect at one
moment and may fail.  Descriptors of pipes and terminals are served by their managers and are not
part of this system.
-/

namespace SecureExec.Kernel
open SecureExec

/-! ### Calls -/

inductive FileReadPhase where
  /-- In `preadDescription`. -/
  | waiting
  | returned (slice : ByteArray8)
  | rejected
  deriving DecidableEq

/-- A call of `fdRead`, with the cursor it has sampled. -/
structure FileRead where
  desc : Nat
  cursor : Nat
  length : Nat
  phase : FileReadPhase
  deriving DecidableEq

inductive FileWritePhase where
  /-- In `readDescriptionFile`. -/
  | reading
  /-- In `writeDescriptionFile`. -/
  | writing (content newContent : ByteArray8) (endPos : Nat)
  /-- In `chmod`. -/
  | chmodding (endPos : Nat)
  | returned
  | rejected
  deriving DecidableEq

/-- A call of `vfsWrite`. -/
structure FileWrite where
  desc : Nat
  data : ByteArray8
  phase : FileWritePhase
  deriving DecidableEq

/-- The kernel, the files and the calls, in the order they were made. -/
structure FileIo where
  kernel : KernelImpl
  files : String → Option ByteArray8
  reads : List FileRead
  writes : List FileWrite

inductive FileIoAction where
  | fdRead (driver : String) (pid fd length : Nat)
  | fdWrite (driver : String) (pid fd : Nat) (data : ByteArray8)
  /-- The positional read of a call is done, or has failed. -/
  | preadDone (i : Nat) (ok : Bool)
  | readFileDone (i : Nat) (ok : Bool)
  | writeFileDone (i : Nat) (ok : Bool)
  | chmodDone (i : Nat) (ok : Bool)

namespace FileIo

def desc (s : FileIo) (r : Nat) : FileDescription := s.kernel.desc r

/-- The content of a path; a file that is not there has none. -/
def content (s : FileIo) (path : String) : ByteArray8 := (s.files path).getD []

def modifyDesc (s : FileIo) (r : Nat) (f : FileDescription → FileDescription) : FileIo :=
  { s with kernel := { s.kernel with
    fds := { s.kernel.fds with descs := s.kernel.fds.descs.modify r f } } }

/-- The entry of a descriptor, for its owner. -/
def fileEntry (driver : String) (pid fd : Nat) : Sys FDEntry := do
  KernelImpl.assertOwns driver pid
  KernelImpl.getEntry pid fd

/-- Reads and writes go to the pipe or the PTY manager. -/
def isManaged (s : FileIo) (r : Nat) : Bool :=
  s.kernel.pipes.isPipe (s.desc r).id || s.kernel.ptys.isPty (s.desc r).id

/-- `fdRead` up to its `await`. -/
def fdRead (s : FileIo) (driver : String) (pid fd length : Nat) : Option FileIo :=
  match ((fileEntry driver pid fd).exec s.kernel).1 with
  | .error _ => some s
  | .ok e =>
    if s.isManaged e.description then none
    else
      some { s with reads :=
        s.reads ++ [⟨e.description, (s.desc e.description).cursor, length, .waiting⟩] }

/-- The rest of `fdRead`. -/
def preadDone (s : FileIo) (i : Nat) (ok : Bool) : Option FileIo :=
  match s.reads[i]? with
  | some ⟨r, cursor, length, .waiting⟩ =>
    match if ok then s.files (s.desc r).path else none with
    | none => some { s with reads := s.reads.set i ⟨r, cursor, length, .rejected⟩ }
    | some b =>
      let slice := Bytes.window b cursor length
      some { s.modifyDesc r fun d => { d with cursor := d.cursor + slice.length } with
        reads := s.reads.set i ⟨r, cursor, length, .returned slice⟩ }
  | _ => none

/-- `fdWrite` and `vfsWrite` up to the first `await`. -/
def fdWrite (s : FileIo) (driver : String) (pid fd : Nat) (data : ByteArray8) : Option FileIo :=
  match ((fileEntry driver pid fd).exec s.kernel).1 with
  | .error _ => some s
  | .ok e =>
    if s.isManaged e.description then none
    else some { s with writes := s.writes ++ [⟨e.description, data, .reading⟩] }

def setWrite (s : FileIo) (i : Nat) (c : FileWrite) (phase : FileWritePhase) : FileIo :=
  { s with writes := s.writes.set i { c with phase := phase } }

/-- `vfsWrite` from the content of the file to `writeDescriptionFile`. -/
def readFileDone (s : FileIo) (i : Nat) (ok : Bool) : Option FileIo :=
  match s.writes[i]? with
  | some ⟨r, data, .reading⟩ =>
    let content := if ok then s.content (s.desc r).path else []
    -- O_APPEND: every write seeks to end of file first (POSIX)
    let cursor := if (s.desc r).flags.has O_APPEND then content.length else (s.desc r).cursor
    let endPos := cursor + data.length
    some (s.setWrite i ⟨r, data, .reading⟩
      (.writing content (Bytes.overlay content cursor data) endPos))
  | _ => none

/-- The end of `vfsWrite`. -/
def finishWrite (s : FileIo) (i : Nat) (c : FileWrite) (endPos : Nat) : FileIo :=
  (s.modifyDesc c.desc fun d => { d with cursor := endPos }).setWrite i c .returned

def writeFileDone (s : FileIo) (i : Nat) (ok : Bool) : Option FileIo :=
  match s.writes[i]? with
  | some ⟨r, data, .writing content newContent endPos⟩ =>
    let c : FileWrite := ⟨r, data, .writing content newContent endPos⟩
    if ok then
      let s := { s with files := Function.update s.files (s.desc r).path (some newContent) }
      if (s.desc r).creationMode.isSome then some (s.setWrite i c (.chmodding endPos))
      else some (s.finishWrite i c endPos)
    else some (s.setWrite i c .rejected)
  | _ => none

def chmodDone (s : FileIo) (i : Nat) (ok : Bool) : Option FileIo :=
  match s.writes[i]? with
  | some ⟨r, data, .chmodding endPos⟩ =>
    let c : FileWrite := ⟨r, data, .chmodding endPos⟩
    if ok then
      some ((s.modifyDesc r fun d => { d with creationMode := none }).finishWrite i c endPos)
    else some (s.setWrite i c .rejected)
  | _ => none

def step (s : FileIo) : FileIoAction → Option FileIo
  | .fdRead driver pid fd length => s.fdRead driver pid fd length
  | .fdWrite driver pid fd data => s.fdWrite driver pid fd data
  | .preadDone i ok => s.preadDone i ok
  | .readFileDone i ok => s.readFileDone i ok
  | .writeFileDone i ok => s.writeFileDone i ok
  | .chmodDone i ok => s.chmodDone i ok

/-- A kernel and its files, before any call. -/
def start (kernel : KernelImpl) (files : String → Option ByteArray8) : FileIo :=
  ⟨kernel, files, [], []⟩

/-! ### Descriptions -/

section Desc

variable {s : FileIo} {f : FileDescription → FileDescription}

theorem desc_modifyDesc (s : FileIo) (r x : Nat) (f : FileDescription → FileDescription) :
    (s.modifyDesc r f).desc x = if x = r then f (s.desc r) else s.desc x :=
  Function.update_apply ..

/-- What is not part of the description's cursor and mode stays. -/
theorem field_modifyDesc {α : Type} (s : FileIo) (r x : Nat) (g : FileDescription → α)
    (hf : ∀ d, g (f d) = g d) : g ((s.modifyDesc r f).desc x) = g (s.desc x) := by
  rw [desc_modifyDesc]
  split
  · rename_i hx
    rw [hf, hx]
  · rfl

end Desc

end FileIo

end SecureExec.Kernel
