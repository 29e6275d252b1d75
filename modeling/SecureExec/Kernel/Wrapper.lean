import SecureExec.Kernel.Permissions

/-!
# Kernel — Wrapper — a file system behind the permission layer

`VirtualFileSystem` of `packages/core/src/kernel/vfs.ts`, over any state: each member is a program,
the optional members may be missing, and a caller who probes for a missing one with `?.` goes on
with `undefined`.  `wrapFileSystem` puts every member to the permission callback first; the optional
`fsync`, `copy` and `readDirStat` it leaves out, and the shared one `prepareOpenSync` too.

`transparent_of_forwarded`: with a callback that allows everything, every run through the wrapper is
the run without it, in results and effects, as long as each call that probes for a member left out
would have done nothing (`Forwarded`); and a call does the same exactly then.
-/

namespace SecureExec
open Prog

/-! ### The interface -/

structure VirtualDirEntry where
  name : String
  isDirectory : Bool
  isSymbolicLink : Option Bool
  ino : Option Nat

structure VirtualDirStatEntry extends VirtualDirEntry where
  stat : Vfs.VirtualStat

/-- `string | Uint8Array`. -/
inductive FileContent where
  | text (s : String)
  | bytes (b : ByteArray8)

/-- `VirtualFileSystem`, with the members that may be missing. -/
structure VirtualFileSystem (ε σ : Type) where
  readFile (path : String) : Prog ε σ ByteArray8
  readTextFile (path : String) : Prog ε σ String
  readDir (path : String) : Prog ε σ (List String)
  readDirWithTypes (path : String) : Prog ε σ (List VirtualDirEntry)
  writeFile (path : String) (content : FileContent) : Prog ε σ PUnit
  createDir (path : String) : Prog ε σ PUnit
  mkdir (path : String) (recursive : Option Bool) : Prog ε σ PUnit
  fileExists (path : String) : Prog ε σ Bool
  stat (path : String) : Prog ε σ Vfs.VirtualStat
  removeFile (path : String) : Prog ε σ PUnit
  removeDir (path : String) : Prog ε σ PUnit
  rename (oldPath newPath : String) : Prog ε σ PUnit
  realpath (path : String) : Prog ε σ String
  symlink (target linkPath : String) : Prog ε σ PUnit
  readlink (path : String) : Prog ε σ String
  lstat (path : String) : Prog ε σ Vfs.VirtualStat
  link (oldPath newPath : String) : Prog ε σ PUnit
  chmod (path : String) (mode : Nat) : Prog ε σ PUnit
  chown (path : String) (uid gid : Nat) : Prog ε σ PUnit
  utimes (path : String) (atime mtime : Nat) : Prog ε σ PUnit
  truncate (path : String) (length : Nat) : Prog ε σ PUnit
  pread (path : String) (offset length : Nat) : Prog ε σ ByteArray8
  pwrite (path : String) (offset : Nat) (data : ByteArray8) : Prog ε σ PUnit
  fsync : Option (String → Prog ε σ PUnit)
  copy : Option (String → String → Prog ε σ PUnit)
  readDirStat : Option (String → Prog ε σ (List VirtualDirStatEntry))
  prepareOpenSync : Option (String → Flags → Prog ε σ Bool)

/-! ### The wrappers -/

section Wrap
variable {ε σ : Type}

/-- What both wrappers do with the members that they have in common. -/
def wrapMembers (check : FsOp → String → Prog ε σ PUnit) (fs : VirtualFileSystem ε σ) :
    VirtualFileSystem ε σ where
  readFile path := do check .read path; fs.readFile path
  readTextFile path := do check .read path; fs.readTextFile path
  readDir path := do check .readdir path; fs.readDir path
  readDirWithTypes path := do check .readdir path; fs.readDirWithTypes path
  writeFile path content := do check .write path; fs.writeFile path content
  createDir path := do check .createDir path; fs.createDir path
  mkdir path recursive := do check .mkdir path; fs.mkdir path recursive
  fileExists path := do check .exists path; fs.fileExists path
  stat path := do check .stat path; fs.stat path
  removeFile path := do check .rm path; fs.removeFile path
  removeDir path := do check .rm path; fs.removeDir path
  rename oldPath newPath := do
    check .rename oldPath
    check .rename newPath
    fs.rename oldPath newPath
  realpath path := do check .read path; fs.realpath path
  symlink target linkPath := do check .symlink linkPath; fs.symlink target linkPath
  readlink path := do check .readlink path; fs.readlink path
  lstat path := do check .stat path; fs.lstat path
  link oldPath newPath := do check .link newPath; fs.link oldPath newPath
  chmod path mode := do check .chmod path; fs.chmod path mode
  chown path uid gid := do check .chown path; fs.chown path uid gid
  utimes path atime mtime := do check .utimes path; fs.utimes path atime mtime
  truncate path length := do check .truncate path; fs.truncate path length
  pread path offset length := do check .read path; fs.pread path offset length
  pwrite path offset data := do check .write path; fs.pwrite path offset data
  fsync := none
  copy := none
  readDirStat := none
  prepareOpenSync := none

namespace Kernel

/-- `check`; the error is whatever the file system's errors are. -/
def check (toError : Failure → ε) (permissions : FsPolicy) (op : FsOp) (path : String) :
    Prog ε σ PUnit :=
  checkPermission permissions (fsRequest op path) fun req reason =>
    toError (fsError (opName op) req.path reason)

/-- `wrapFileSystem` of `kernel/permissions.ts`. -/
def wrapFileSystem (toError : Failure → ε) (fs : VirtualFileSystem ε σ) (permissions : FsPolicy) :
    VirtualFileSystem ε σ :=
  { wrapMembers (check toError permissions) fs with
    prepareOpenSync := some fun path flags => do
      if flags.has O_CREAT ∨ flags.has O_TRUNC then check toError permissions .write path
      match fs.prepareOpenSync with
      | some prepareOpenSync => prepareOpenSync path flags
      | none => pure false }

end Kernel

namespace Shared

/-- `checkFs`. -/
def checkFs (toError : SystemError → ε) (permissions : FsPolicy) (op : FsOp) (path : String) :
    Prog ε σ PUnit :=
  checkPermission permissions (fsRequest op path) fun req reason =>
    toError (createEaccesError (fsOpToSyscall req.op) (some req.path) reason)

/-- `wrapFileSystem` of `shared/permissions.ts`. -/
def wrapFileSystem (toError : SystemError → ε) (fs : VirtualFileSystem ε σ)
    (permissions : FsPolicy) : VirtualFileSystem ε σ :=
  wrapMembers (checkFs toError permissions) fs

end Shared

end Wrap

/-! ### Calls -/

/-- A call of a member; the optional members are probed for. -/
inductive FsCall where
  | readFile (path : String)
  | readTextFile (path : String)
  | readDir (path : String)
  | readDirWithTypes (path : String)
  | writeFile (path : String) (content : FileContent)
  | createDir (path : String)
  | mkdir (path : String) (recursive : Option Bool)
  | fileExists (path : String)
  | stat (path : String)
  | removeFile (path : String)
  | removeDir (path : String)
  | rename (oldPath newPath : String)
  | realpath (path : String)
  | symlink (target linkPath : String)
  | readlink (path : String)
  | lstat (path : String)
  | link (oldPath newPath : String)
  | chmod (path : String) (mode : Nat)
  | chown (path : String) (uid gid : Nat)
  | utimes (path : String) (atime mtime : Nat)
  | truncate (path : String) (length : Nat)
  | pread (path : String) (offset length : Nat)
  | pwrite (path : String) (offset : Nat) (data : ByteArray8)
  | fsync (path : String)
  | copy (srcPath dstPath : String)
  | readDirStat (path : String)
  | prepareOpenSync (path : String) (flags : Flags)
  /-- `releaseDescriptionInode` of the kernel, at the last close of a file. -/
  | lastClose (path : String)

/-- What a call gives. -/
inductive FsReply where
  | undefined
  | bytes (b : ByteArray8)
  | text (s : String)
  | names (l : List String)
  | entries (l : List VirtualDirEntry)
  | statEntries (l : List VirtualDirStatEntry)
  | bool (b : Bool)
  | info (st : Vfs.VirtualStat)

namespace VirtualFileSystem

variable {ε σ : Type} (fs : VirtualFileSystem ε σ)

/-- A call of a member that returns nothing. -/
def done (p : Prog ε σ PUnit) : Prog ε σ FsReply := (fun _ => .undefined) <$> p

def call : FsCall → Prog ε σ FsReply
  | .readFile path => .bytes <$> fs.readFile path
  | .readTextFile path => .text <$> fs.readTextFile path
  | .readDir path => .names <$> fs.readDir path
  | .readDirWithTypes path => .entries <$> fs.readDirWithTypes path
  | .writeFile path content => done (fs.writeFile path content)
  | .createDir path => done (fs.createDir path)
  | .mkdir path recursive => done (fs.mkdir path recursive)
  | .fileExists path => .bool <$> fs.fileExists path
  | .stat path => .info <$> fs.stat path
  | .removeFile path => done (fs.removeFile path)
  | .removeDir path => done (fs.removeDir path)
  | .rename oldPath newPath => done (fs.rename oldPath newPath)
  | .realpath path => .text <$> fs.realpath path
  | .symlink target linkPath => done (fs.symlink target linkPath)
  | .readlink path => .text <$> fs.readlink path
  | .lstat path => .info <$> fs.lstat path
  | .link oldPath newPath => done (fs.link oldPath newPath)
  | .chmod path mode => done (fs.chmod path mode)
  | .chown path uid gid => done (fs.chown path uid gid)
  | .utimes path atime mtime => done (fs.utimes path atime mtime)
  | .truncate path length => done (fs.truncate path length)
  | .pread path offset length => .bytes <$> fs.pread path offset length
  | .pwrite path offset data => done (fs.pwrite path offset data)
  | .fsync path =>
    match fs.fsync with
    | some fsync => done (fsync path)
    | none => pure .undefined
  | .copy srcPath dstPath =>
    match fs.copy with
    | some copy => done (copy srcPath dstPath)
    | none => pure .undefined
  | .readDirStat path =>
    match fs.readDirStat with
    | some readDirStat => .statEntries <$> readDirStat path
    | none => pure .undefined
  | .prepareOpenSync path flags =>
    match fs.prepareOpenSync with
    | some prepareOpenSync => .bool <$> prepareOpenSync path flags
    | none => pure (.bool false)
  | .lastClose path =>
    match fs.fsync with
    -- the promise is dropped, and with it what it rejects with
    | some fsync => fun s => (.ok .undefined, ((fsync path).exec s).2)
    | none => pure .undefined

/-- The results of a run of calls, and the state after it. -/
def runCalls : List FsCall → σ → List (Except ε FsReply) × σ
  | [], s => ([], s)
  | c :: cs, s =>
    let r := (fs.call c).exec s
    let rest := runCalls cs r.2
    (r.1 :: rest.1, rest.2)

end VirtualFileSystem

/-! ### Members that are left out -/

/-- What a caller gets who probes for a member that is missing. -/
def FsCall.missing : FsCall → FsReply
  | .prepareOpenSync _ _ => .bool false
  | _ => .undefined

/-- The call probes for a member that the wrapper leaves out; only the kernel's has a
`prepareOpenSync`. -/
def FsCall.leftOut (keepsOpen : Bool) : FsCall → Bool
  | .fsync _ | .copy _ _ | .readDirStat _ | .lastClose _ => true
  | .prepareOpenSync _ _ => !keepsOpen
  | _ => false

namespace VirtualFileSystem

variable {ε σ : Type} {fs w : VirtualFileSystem ε σ} {s : σ} {c : FsCall} {keepsOpen : Bool}

/-- The call gets through, or would have done nothing. -/
def Forwarded (keepsOpen : Bool) (fs : VirtualFileSystem ε σ) (c : FsCall) (s : σ) : Prop :=
  c.leftOut keepsOpen = true → (fs.call c).exec s = (.ok c.missing, s)

/-- Each call of the run gets through, or would have done nothing. -/
def AllForwarded (keepsOpen : Bool) (fs : VirtualFileSystem ε σ) : List FsCall → σ → Prop
  | [], _ => True
  | c :: cs, s =>
    fs.Forwarded keepsOpen c s ∧ AllForwarded keepsOpen fs cs ((fs.call c).exec s).2

/-- `w` does what `fs` does, but for the members that are left out. -/
structure Mirrors (keepsOpen : Bool) (w fs : VirtualFileSystem ε σ) : Prop where
  kept : ∀ c, c.leftOut keepsOpen = false → w.call c = fs.call c
  left : ∀ c, c.leftOut keepsOpen = true → w.call c = pure c.missing

theorem Mirrors.call_iff (h : Mirrors keepsOpen w fs) :
    (w.call c).exec s = (fs.call c).exec s ↔ fs.Forwarded keepsOpen c s := by
  rw [Forwarded]
  cases hc : c.leftOut keepsOpen with
  | false => simp [h.kept c hc]
  | true =>
      rw [h.left c hc]
      exact ⟨fun he _ => he.symm, fun he => (he rfl).symm⟩

theorem Mirrors.runCalls (h : Mirrors keepsOpen w fs) (cs : List FsCall) :
    ∀ s, AllForwarded keepsOpen fs cs s → w.runCalls cs s = fs.runCalls cs s := by
  induction cs with
  | nil => exact fun _ _ => rfl
  | cons c cs ih =>
      rintro s ⟨hc, hcs⟩
      rw [VirtualFileSystem.runCalls, VirtualFileSystem.runCalls, h.call_iff.mpr hc]
      simp only [ih _ hcs]

/-- A check that lets everything pass. -/
theorem mirrors_wrapMembers {check : FsOp → String → Prog ε σ PUnit}
    (hall : ∀ op path, check op path = pure ⟨⟩) (fs : VirtualFileSystem ε σ) :
    Mirrors false (wrapMembers check fs) fs where
  kept c hc := by
    cases c with
    | fsync | copy | readDirStat | prepareOpenSync | lastClose => nomatch hc
    | _ => simp only [call, wrapMembers, hall, pure_bind]
  left c hc := by
    cases c with
    | fsync | copy | readDirStat | prepareOpenSync | lastClose => rfl
    | _ => nomatch hc

end VirtualFileSystem

open VirtualFileSystem

variable {ε σ : Type} {allow : FsAccessRequest → PermissionDecision}

theorem checkPermission_allow (hall : ∀ r, (allow r).allow = true) (request : FsAccessRequest)
    (errorFactory : FsAccessRequest → Option String → ε) :
    (checkPermission (some allow) request errorFactory : Prog ε σ PUnit) = pure ⟨⟩ := by
  rw [checkPermission]
  exact if_pos (hall request)

namespace Shared

theorem mirrors_wrapFileSystem (hall : ∀ r, (allow r).allow = true) (toError : SystemError → ε)
    (fs : VirtualFileSystem ε σ) : Mirrors false (wrapFileSystem toError fs (some allow)) fs :=
  mirrors_wrapMembers (fun _ _ => checkPermission_allow hall _ _) fs

end Shared

namespace Kernel

/-- `prepareOpenSync` is there, with the answer of a missing one where the file system has none. -/
theorem mirrors_wrapFileSystem (hall : ∀ r, (allow r).allow = true) (toError : Failure → ε)
    (fs : VirtualFileSystem ε σ) : Mirrors true (wrapFileSystem toError fs (some allow)) fs := by
  have hcheck : ∀ op path, (check toError (some allow) op path : Prog ε σ PUnit) = pure ⟨⟩ :=
    fun _ _ => checkPermission_allow hall _ _
  refine ⟨fun c hc => ?_, fun c hc => ?_⟩
  · cases c with
    | prepareOpenSync path flags =>
        simp only [call, wrapFileSystem, hcheck, ite_self, pure_bind]
        cases fs.prepareOpenSync <;> rfl
    | fsync | copy | readDirStat | lastClose => nomatch hc
    | _ => simp only [call, wrapFileSystem, wrapMembers, hcheck, pure_bind]
  · cases c with
    | fsync | copy | readDirStat | lastClose => rfl
    | _ => nomatch hc

/-- **An allow-all policy is transparent** for every run whose calls all get through, behind
either wrapper; and a call does the same with the wrapper as without exactly when it gets
through. -/
theorem transparent_of_forwarded (hall : ∀ r, (allow r).allow = true) (toError : Failure → ε)
    (toSystemError : Shared.SystemError → ε) (fs : VirtualFileSystem ε σ) :
    (∀ cs s, AllForwarded true fs cs s →
        (wrapFileSystem toError fs (some allow)).runCalls cs s = fs.runCalls cs s) ∧
      (∀ cs s, AllForwarded false fs cs s →
        (Shared.wrapFileSystem toSystemError fs (some allow)).runCalls cs s = fs.runCalls cs s) ∧
      (∀ c s, ((wrapFileSystem toError fs (some allow)).call c).exec s = (fs.call c).exec s ↔
        fs.Forwarded true c s) ∧
      ∀ c s, ((Shared.wrapFileSystem toSystemError fs (some allow)).call c).exec s =
        (fs.call c).exec s ↔ fs.Forwarded false c s :=
  ⟨(mirrors_wrapFileSystem hall toError fs).runCalls,
    (Shared.mirrors_wrapFileSystem hall toSystemError fs).runCalls,
    fun _ _ => (mirrors_wrapFileSystem hall toError fs).call_iff,
    fun _ _ => (Shared.mirrors_wrapFileSystem hall toSystemError fs).call_iff⟩

/-! ### A backend that holds writes back -/

/-- What has reached the disk, and what has not yet. -/
structure WriteBehind where
  stored : List (String × FileContent)
  buffered : List (String × FileContent)

namespace WriteBehind

def unsupported {α : Type} : Prog String WriteBehind α := throw "ENOSYS"

/-- One that keeps what is written in memory until `fsync`. -/
def vfs : VirtualFileSystem String WriteBehind where
  readFile _ := unsupported
  readTextFile _ := unsupported
  readDir _ := unsupported
  readDirWithTypes _ := unsupported
  writeFile path content := update fun b => { b with buffered := b.buffered ++ [(path, content)] }
  createDir _ := unsupported
  mkdir _ _ := unsupported
  fileExists path := read fun b => b.buffered.any (·.1 = path) || b.stored.any (·.1 = path)
  stat _ := unsupported
  removeFile _ := unsupported
  removeDir _ := unsupported
  rename _ _ := unsupported
  realpath _ := unsupported
  symlink _ _ := unsupported
  readlink _ := unsupported
  lstat _ := unsupported
  link _ _ := unsupported
  chmod _ _ := unsupported
  chown _ _ _ := unsupported
  utimes _ _ _ := unsupported
  truncate _ _ := unsupported
  pread _ _ _ := unsupported
  pwrite path _ data :=
    update fun b => { b with buffered := b.buffered ++ [(path, .bytes data)] }
  fsync := some fun _ => update fun b => { b with stored := b.stored ++ b.buffered, buffered := [] }
  copy := none
  readDirStat := none
  prepareOpenSync := none

/-- Everything is allowed. -/
def allowAll : FsAccessRequest → PermissionDecision := fun _ => ⟨true, none⟩

/-- A file is written and closed: without a wrapper it is on the disk, behind either one it is
not. -/
theorem lastClose_not_flushed :
    (vfs.runCalls [.writeFile "/f" (.text "x"), .lastClose "/f"] ⟨[], []⟩).2 =
        ⟨[("/f", .text "x")], []⟩ ∧
      ((wrapFileSystem (fun _ => "EACCES") vfs (some allowAll)).runCalls
        [.writeFile "/f" (.text "x"), .lastClose "/f"] ⟨[], []⟩).2 =
          ⟨[], [("/f", .text "x")]⟩ ∧
      ((Shared.wrapFileSystem (fun _ => "EACCES") vfs (some allowAll)).runCalls
        [.writeFile "/f" (.text "x"), .lastClose "/f"] ⟨[], []⟩).2 =
          ⟨[], [("/f", .text "x")]⟩ :=
  ⟨rfl, rfl, rfl⟩

/-- A run with no probe for a member left out. -/
theorem transparent_write_exists :
    (wrapFileSystem (fun _ => "EACCES") vfs (some allowAll)).runCalls
        [.writeFile "/f" (.text "x"), .fileExists "/f"] ⟨[], []⟩ =
      vfs.runCalls [.writeFile "/f" (.text "x"), .fileExists "/f"] ⟨[], []⟩ :=
  (transparent_of_forwarded (show ∀ r, (allowAll r).allow = true from fun _ => rfl)
    (fun _ => "EACCES") (fun _ => "EACCES") vfs).1 _ _ ⟨nofun, nofun, trivial⟩

end WriteBehind

end Kernel

end SecureExec
