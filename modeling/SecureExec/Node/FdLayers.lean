import SecureExec.Lib.Bytes
import SecureExec.Kernel.Syscalls

/-!
# Node — FdLayers — the two layers of file descriptors

Regular files through descriptors, as the guest's bridge handlers do it (`bridge-handlers.ts`) and
as the kernel does it (`kernel.ts`), over the in-memory file system.  Both have a table of
descriptors and go back to the path of a description on every access.

* `Guest`: `fdOpen`, `fdRead`, `fdWrite` and `fdClose` of the bridge handlers.
* `KernelInterface`: `fdOpen`, `fdRead`, `fdWrite`, `fdPread`, `fdPwrite` and `fdClose` of the
  kernel, with `prepareOpenSync` of the file system.

Paths are normalised, and name regular files; the mode of a file that is made is left out.
-/

namespace FdLayers
open SecureExec SecureExec.Kernel

/-- The process whose table it is. -/
def pid : Nat := 1

/-- An error that is thrown: its code, which the text of the handlers starts with. -/
structure Thrown where
  code : KernelErrorCode
  message : String
  deriving DecidableEq

inductive Reply where
  | fd (n : Nat)
  | data (b : ByteArray8)
  | count (n : Nat)
  | done
  deriving DecidableEq

/-- A table of descriptors, and the files by their paths. -/
structure FdLayer where
  fds : FDTableManager
  files : String → Option ByteArray8

abbrev Result : Type := Except Thrown Reply × FdLayer

namespace FdLayer

def init (files : String → Option ByteArray8) : FdLayer := ⟨FDTableManager.new.create pid, files⟩

variable (s : FdLayer)

def entry (fd : Nat) : Option FDEntry := (s.fds.get pid).bind fun t => t.get fd

def desc (r : Nat) : FileDescription := s.fds.descs.objs r

def modifyDesc (r : Nat) (f : FileDescription → FileDescription) : FdLayer :=
  { s with fds := { s.fds with descs := s.fds.descs.modify r f } }

/-- `vfs.writeFile`. -/
def writeFile (path : String) (content : ByteArray8) : FdLayer :=
  { s with files := Function.update s.files path (some content) }

def enoent (path : String) : Thrown :=
  ⟨.ENOENT, "no such file or directory: '" ++ path ++ "'"⟩

def lastComponent (path : String) : String :=
  String.ofList (path.toList.reverse.takeWhile (· ≠ '/')).reverse

/-- `vfs.pread`; its error names the component that is not found. -/
def pread (path : String) (offset length : Nat) : Except Thrown ByteArray8 :=
  match s.files path with
  | none => .error (enoent (lastComponent path))
  | some b => .ok (Bytes.window b offset length)

/-- `table.open`. -/
def «open» (path : String) (flags : Flags) : Result :=
  match s.fds.get pid with
  | none => (.error ⟨.ESRCH, "no FD table for PID 1"⟩, s)
  | some t =>
    match s.fds.openIn pid t path flags FILETYPE_REGULAR_FILE with
    | .error _ => (.error ⟨.EMFILE, "too many open files"⟩, s)
    | .ok (fd, _, m) => (.ok (.fd fd), { s with fds := m })

/-- `table.close` of an entry. -/
def close (fd : Nat) : FdLayer :=
  match s.fds.get pid with
  | none => s
  | some t => { s with fds := s.fds.setTable pid (t.close s.fds.descs fd) }

/-- A call of `vfs.rename` by a program. -/
def rename (old new : String) : Result :=
  if old = new then (.ok .done, s)
  else
    match s.files old with
    | none => (.error (enoent old), s)
    | some b =>
      (.ok .done,
        { s with files := Function.update (Function.update s.files new (some b)) old none })

/-- A call of `vfs.removeFile`. -/
def unlink (path : String) : Result :=
  match s.files path with
  | none => (.error (enoent path), s)
  | some _ => (.ok .done, { s with files := Function.update s.files path none })

end FdLayer

/-! ### The bridge handlers -/

/-- `flags & O_ACCMODE`. -/
def accessMode (flags : Flags) : Flags := flags &&& 3

def canRead (flags : Flags) : Bool := accessMode flags == O_RDONLY || accessMode flags == O_RDWR

def canWrite (flags : Flags) : Bool := accessMode flags == O_WRONLY || accessMode flags == O_RDWR

namespace Guest

variable (s : FdLayer)

def fdOpen (path : String) (flags : Flags) : Result :=
  match s.files path with
  | none =>
    -- O_CREAT: create if doesn't exist
    if flags.has O_CREAT then (s.writeFile path []).open path flags
    else (.error ⟨.ENOENT, "ENOENT: no such file or directory, open '" ++ path ++ "'"⟩, s)
  | some _ =>
    -- O_TRUNC: truncate existing file
    if flags.has O_TRUNC then (s.writeFile path []).open path flags else s.open path flags

def fdClose (fd : Nat) : Result :=
  match s.entry fd with
  | none => (.error ⟨.EBADF, "EBADF: bad file descriptor, close"⟩, s)
  | some _ => (.ok .done, s.close fd)

def fdRead (fd length : Nat) (position : Option Nat) : Result :=
  match s.entry fd with
  | none => (.error ⟨.EBADF, "EBADF: bad file descriptor, read"⟩, s)
  | some e =>
    let d := s.desc e.description
    if canRead d.flags = false then (.error ⟨.EBADF, "EBADF: bad file descriptor, read"⟩, s)
    else
      match s.pread d.path (position.getD d.cursor) length with
      | .error e => (.error e, s)
      | .ok data =>
        (.ok (.data data),
          -- Update cursor only when no explicit position
          if position.isSome then s
          else s.modifyDesc e.description fun d => { d with cursor := d.cursor + data.length })

def fdWrite (fd : Nat) (data : ByteArray8) (position : Option Nat) : Result :=
  match s.entry fd with
  | none => (.error ⟨.EBADF, "EBADF: bad file descriptor, write"⟩, s)
  | some e =>
    let d := s.desc e.description
    if canWrite d.flags = false then (.error ⟨.EBADF, "EBADF: bad file descriptor, write"⟩, s)
    else
      let content := (s.files d.path).getD []
      let writePos := if d.flags.has O_APPEND then content.length else position.getD d.cursor
      let t := s.writeFile d.path (Bytes.overlay content writePos data)
      (.ok (.count data.length),
        if position.isSome then t
        else t.modifyDesc e.description fun d => { d with cursor := writePos + data.length })

end Guest

/-! ### The kernel -/

namespace KernelInterface

variable (s : FdLayer)

/-- `prepareOpenSync` of the in-memory file system. -/
def prepareOpenSync (path : String) (flags : Flags) : Except Thrown FdLayer :=
  match s.files path with
  | some _ =>
    if flags.has O_CREAT && flags.has O_EXCL then
      .error ⟨.EEXIST, "file already exists, open '" ++ path ++ "'"⟩
    else if flags.has O_TRUNC then .ok (s.writeFile path [])
    else .ok s
  | none => if flags.has O_CREAT then .ok (s.writeFile path []) else .ok s

def fdOpen (path : String) (flags : Flags) : Result :=
  if flags.has (O_CREAT ||| O_EXCL ||| O_TRUNC) then
    match prepareOpenSync s path flags with
    | .error e => (.error e, s)
    | .ok s => s.open path flags
  else s.open path flags

def ebadf (fd : Nat) : Thrown := ⟨.EBADF, "bad file descriptor " ++ toString fd⟩

def fdRead (fd length : Nat) : Result :=
  match s.entry fd with
  | none => (.error (ebadf fd), s)
  | some e =>
    let d := s.desc e.description
    match s.pread d.path d.cursor length with
    | .error e => (.error e, s)
    | .ok slice =>
      (.ok (.data slice),
        s.modifyDesc e.description fun d => { d with cursor := d.cursor + slice.length })

/-- `fdWrite`, with `vfsWrite`. -/
def fdWrite (fd : Nat) (data : ByteArray8) : Result :=
  match s.entry fd with
  | none => (.error (ebadf fd), s)
  | some e =>
    let d := s.desc e.description
    let content := (s.files d.path).getD []
    -- O_APPEND: every write seeks to end of file first (POSIX)
    let cursor := if d.flags.has O_APPEND then content.length else d.cursor
    (.ok (.count data.length),
      (s.writeFile d.path (Bytes.overlay content cursor data)).modifyDesc e.description fun d =>
        { d with cursor := cursor + data.length })

/-- Read at given offset without moving cursor. -/
def fdPread (fd length offset : Nat) : Result :=
  match s.entry fd with
  | none => (.error (ebadf fd), s)
  | some e =>
    match s.pread (s.desc e.description).path offset length with
    | .error e => (.error e, s)
    | .ok slice => (.ok (.data slice), s)

/-- `fdPwrite`, with `vfs.pwrite`. -/
def fdPwrite (fd : Nat) (data : ByteArray8) (offset : Nat) : Result :=
  match s.entry fd with
  | none => (.error (ebadf fd), s)
  | some e =>
    let path := (s.desc e.description).path
    match s.files path with
    | none => (.error (FdLayer.enoent path), s)
    | some content =>
      (.ok (.count data.length),
        if data.length = 0 then s else s.writeFile path (Bytes.overlay content offset data))

def fdClose (fd : Nat) : Result :=
  match s.entry fd with
  | none => (.ok .done, s)
  | some _ => (.ok .done, s.close fd)

end KernelInterface

/-! ### Calls -/

inductive Call where
  | «open» (path : String) (flags : Flags)
  /-- At the cursor, or at a position. -/
  | read (fd length : Nat) (position : Option Nat)
  | write (fd : Nat) (data : ByteArray8) (position : Option Nat)
  | close (fd : Nat)
  | rename (old new : String)
  | unlink (path : String)
  deriving DecidableEq

def Guest.call (s : FdLayer) : Call → Result
  | .open path flags => Guest.fdOpen s path flags
  | .read fd length position => Guest.fdRead s fd length position
  | .write fd data position => Guest.fdWrite s fd data position
  | .close fd => Guest.fdClose s fd
  | .rename old new => s.rename old new
  | .unlink path => s.unlink path

def KernelInterface.call (s : FdLayer) : Call → Result
  | .open path flags => KernelInterface.fdOpen s path flags
  | .read fd length none => KernelInterface.fdRead s fd length
  | .read fd length (some offset) => KernelInterface.fdPread s fd length offset
  | .write fd data none => KernelInterface.fdWrite s fd data
  | .write fd data (some offset) => KernelInterface.fdPwrite s fd data offset
  | .close fd => KernelInterface.fdClose s fd
  | .rename old new => s.rename old new
  | .unlink path => s.unlink path

end FdLayers
