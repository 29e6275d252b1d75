import SecureExec.Lib.OMap
import SecureExec.Kernel.Types

/-!
# Kernel — FdTable — the file descriptor tables

`packages/core/src/kernel/fd-table.ts`.  A `FileDescription` is an object that entries of several
tables share, so the descriptions live in a heap (`Descs`) and an entry holds a reference.  The
methods of `ProcessFDTable` change one table and the heap.

`refs` counts the entries that hold a reference; the lemmas say what each operation does to it and
to the counts the descriptions carry.
-/

namespace SecureExec.Kernel
open SecureExec

/-- Maximum open FDs per process before allocations are rejected (EMFILE). -/
def MAX_FDS_PER_PROCESS : Nat := 256

/-! ### The descriptions -/

/-- The description objects, by reference. -/
structure Descs where
  objs : Nat → FileDescription
  next : Nat

namespace Descs

def empty : Descs := ⟨fun _ => ⟨0, "", 0, 0, 0, none⟩, 0⟩

/-- A new object and its reference. -/
def alloc (h : Descs) (d : FileDescription) : Nat × Descs :=
  (h.next, ⟨Function.update h.objs h.next d, h.next + 1⟩)

def modify (h : Descs) (r : Nat) (f : FileDescription → FileDescription) : Descs :=
  { h with objs := Function.update h.objs r (f (h.objs r)) }

/-- `description.refCount += n`. -/
def addRef (h : Descs) (r : Nat) (n : Int) : Descs :=
  h.modify r fun d => { d with refCount := d.refCount + n }

end Descs

/-! ### One table -/

/-- `FDEntry`; `fd` is the key it is kept under, `rights` is `0n` throughout. -/
structure FDEntry where
  description : Nat
  filetype : Nat
  cloexec : Bool

structure ProcessFDTable where
  entries : OMap Nat FDEntry
  nextFd : Nat

namespace ProcessFDTable

/-- `new ProcessFDTable(allocDesc)`; 0, 1, 2 reserved. -/
def new : ProcessFDTable := ⟨.empty, 3⟩

def get (t : ProcessFDTable) (fd : Nat) : Option FDEntry := t.entries.get fd

/-- No key is as large. -/
def bound (m : OMap Nat FDEntry) : Nat := m.keys.foldr (fun k b => max (k + 1) b) 0

/-- `while (entries.has(n)) n++`, for at most `fuel` turns. -/
def firstFree (m : OMap Nat FDEntry) : Nat → Nat → Nat
  | 0, n => n
  | fuel + 1, n => if m.has n then firstFree m fuel (n + 1) else n

/-- The first number from `n` on that has no entry. -/
def freeFrom (m : OMap Nat FDEntry) (n : Nat) : Nat := firstFree m (bound m) n

def emfile : Failure := .kernelError .EMFILE "too many open files"

def ebadf (fd : Nat) : Failure := .kernelError .EBADF ("bad file descriptor " ++ toString fd)

def allocateFd (t : ProcessFDTable) : Except Failure (Nat × ProcessFDTable) :=
  if MAX_FDS_PER_PROCESS ≤ t.entries.size then .error emfile
  else
    let fd := freeFrom t.entries t.nextFd
    .ok (fd, { t with nextFd := fd + 1 })

def setEntry (t : ProcessFDTable) (fd : Nat) (e : FDEntry) : ProcessFDTable :=
  { t with entries := t.entries.set fd e }

/-- `initStdio`. -/
def initStdio (t : ProcessFDTable) (stdin stdout stderr : Nat) : ProcessFDTable :=
  ((t.setEntry 0 ⟨stdin, FILETYPE_CHARACTER_DEVICE, false⟩).setEntry 1
    ⟨stdout, FILETYPE_CHARACTER_DEVICE, false⟩).setEntry 2
    ⟨stderr, FILETYPE_CHARACTER_DEVICE, false⟩

/-- `openWith` at a number: the description gets one more entry. -/
def openWithAt (h : Descs) (t : ProcessFDTable) (description filetype fd : Nat) :
    Descs × ProcessFDTable :=
  (h.addRef description 1, t.setEntry fd ⟨description, filetype, false⟩)

/-- `openWith` without a target. -/
def openWith (h : Descs) (t : ProcessFDTable) (description filetype : Nat) :
    Except Failure (Nat × Descs × ProcessFDTable) := do
  let (fd, t) ← t.allocateFd
  return (fd, openWithAt h t description filetype fd)

def close (h : Descs) (t : ProcessFDTable) (fd : Nat) : Descs × ProcessFDTable :=
  match t.get fd with
  | none => (h, t)
  | some e => (h.addRef e.description (-1), { t with entries := t.entries.delete fd })

def dup (h : Descs) (t : ProcessFDTable) (fd : Nat) :
    Except Failure (Nat × Descs × ProcessFDTable) :=
  match t.get fd with
  | none => .error (ebadf fd)
  | some e => do
    let (newFd, t) ← t.allocateFd
    return (newFd, openWithAt h t e.description e.filetype newFd)

def dupMinFd (h : Descs) (t : ProcessFDTable) (fd minFd : Nat) :
    Except Failure (Nat × Descs × ProcessFDTable) :=
  match t.get fd with
  | none => .error (ebadf fd)
  | some e =>
    if MAX_FDS_PER_PROCESS ≤ t.entries.size then .error emfile
    else
      let newFd := freeFrom t.entries minFd
      .ok (newFd, openWithAt h t e.description e.filetype newFd)

def dup2 (h : Descs) (t : ProcessFDTable) (oldFd newFd : Nat) :
    Except Failure (Descs × ProcessFDTable) :=
  match t.get oldFd with
  | none => .error (ebadf oldFd)
  | some e =>
    if oldFd = newFd then .ok (h, t)
    else
      let (h, t) := close h t newFd
      .ok (openWithAt h t e.description e.filetype newFd)

/-- `fork`: the entries without close-on-exec, each with one more reference. -/
def fork (h : Descs) (t : ProcessFDTable) : Descs × ProcessFDTable :=
  let kept := t.entries.filter fun _ e => !e.cloexec
  (kept.values.foldl (fun h e => h.addRef e.description 1) h, ⟨kept, t.nextFd⟩)

/-- `closeAll`. -/
def closeAll (h : Descs) (t : ProcessFDTable) : Descs :=
  t.entries.values.foldl (fun h e => h.addRef e.description (-1)) h

/-- `entry.cloexec = value`. -/
def setCloexec (t : ProcessFDTable) (fd : Nat) (value : Bool) : ProcessFDTable :=
  match t.get fd with
  | none => t
  | some e => t.setEntry fd { e with cloexec := value }

end ProcessFDTable

/-! ### All tables -/

/-- `FDTableManager`, with the description objects. -/
structure FDTableManager where
  descs : Descs
  tables : OMap Nat ProcessFDTable
  nextDescriptionId : Nat

namespace FDTableManager

def new : FDTableManager := ⟨.empty, .empty, 1⟩

/-- `allocDesc`. -/
def allocDesc (m : FDTableManager) (path : String) (flags : Flags) : Nat × FDTableManager :=
  let (r, h) := m.descs.alloc ⟨m.nextDescriptionId, path, 0, flags, 1, none⟩
  (r, { m with descs := h, nextDescriptionId := m.nextDescriptionId + 1 })

def get (m : FDTableManager) (pid : Nat) : Option ProcessFDTable := m.tables.get pid

/-- The heap and the table of one process after an operation on it. -/
def setTable (m : FDTableManager) (pid : Nat) (s : Descs × ProcessFDTable) : FDTableManager :=
  { m with descs := s.1, tables := m.tables.set pid s.2 }

/-- `create`: a table with standard FDs. -/
def create (m : FDTableManager) (pid : Nat) : FDTableManager :=
  let (stdin, m) := m.allocDesc "/dev/stdin" O_RDONLY
  let (stdout, m) := m.allocDesc "/dev/stdout" O_WRONLY
  let (stderr, m) := m.allocDesc "/dev/stderr" O_WRONLY
  m.setTable pid (m.descs, ProcessFDTable.new.initStdio stdin stdout stderr)

/-- `ProcessFDTable.open` on the table `t` of a process. -/
def openIn (m : FDTableManager) (pid : Nat) (t : ProcessFDTable) (path : String) (flags : Flags)
    (filetype : Nat) : Except Failure (Nat × Nat × FDTableManager) := do
  let (fd, t) ← t.allocateFd
  let (r, m) := m.allocDesc path (flags &&& ~~~O_CLOEXEC)
  return (fd, r, m.setTable pid (m.descs, t.setEntry fd ⟨r, filetype, flags.has O_CLOEXEC⟩))

/-- `fork`, for a parent with the table `t`. -/
def fork (m : FDTableManager) (t : ProcessFDTable) (childPid : Nat) : FDTableManager :=
  m.setTable childPid (t.fork m.descs)

/-- `remove`. -/
def remove (m : FDTableManager) (pid : Nat) : FDTableManager :=
  match m.get pid with
  | none => m
  | some t => { m with descs := t.closeAll m.descs, tables := m.tables.delete pid }

end FDTableManager

end SecureExec.Kernel
