import SecureExec.Kernel.Wrapper

/-!
# Kernel — MountFs — the file system that a mount table makes

`MountTable` of `mount-table.ts` is itself a `VirtualFileSystem`: each member resolves its path and
calls the member of the file system mounted there.  `backend` says what each mounted file system
does.

* `fileSystem`: the members, for a table.
* `perform`: one operation on a table: a call of a member, a `mount` or an `unmount`.
-/

namespace SecureExec.Kernel
open SecureExec Prog

namespace MountTable

variable {φ ε σ : Type}

/-! ### Paths -/

/-- `parentPath`. -/
def parentPath (p : String) : String :=
  if p = "/" then "/"
  else
    match (p.toList.reverse.dropWhile (· ≠ '/')).drop 1 with
    | [] => "/"
    | cs => String.ofList cs.reverse

/-- `basename`. -/
def basename (p : String) : String :=
  String.ofList (p.toList.reverse.takeWhile (· ≠ '/')).reverse

/-! ### Members -/

section Members

variable (backend : φ → VirtualFileSystem ε σ) (toError : Failure → ε) (t : MountTable φ)

/-- `resolve`, as the members call it. -/
def route (path : String) : Prog ε σ (ResolvedPath φ) := lift ((t.resolve path).mapError toError)

def assertWritable (mount : InternalMount φ) (path : String) : Prog ε σ PUnit :=
  if mount.readOnly then throw (toError (.kernelError .EROFS ("read-only filesystem: " ++ path)))
  else pure ⟨⟩

/-- The names of the mounts right below a directory. -/
def getChildMountBasenames (dirPath : String) : List String :=
  (t.mounts.filter fun m => m.path ≠ "/" ∧ parentPath m.path = dirPath).map fun m => basename m.path

/-- A path in a directory, by a template string. -/
def entryPath (directory name : String) : String :=
  if directory = "/" then "/" ++ name else directory ++ "/" ++ name

/-- What crosses from one mount to another. -/
def crossMount (operation oldPath newPath : String) : Failure :=
  .kernelError .EXDEV (operation ++ " across mounts: " ++ oldPath ++ " -> " ++ newPath)

/-- `MountTable implements VirtualFileSystem`. -/
def fileSystem : VirtualFileSystem ε σ where
  readFile path := do
    let r ← route toError t path
    (backend r.mount.fs).readFile r.relativePath
  readTextFile path := do
    let r ← route toError t path
    (backend r.mount.fs).readTextFile r.relativePath
  readDir path := do
    let r ← route toError t path
    let entries ← (backend r.mount.fs).readDir r.relativePath
    let names := t.getChildMountBasenames (normalizePath path)
    if names = [] then pure entries
    else pure (entries ++ names).eraseDups
  readDirWithTypes path := do
    let r ← route toError t path
    let entries ← (backend r.mount.fs).readDirWithTypes r.relativePath
    let names := t.getChildMountBasenames (normalizePath path)
    pure (entries ++ (names.filter fun name => name ∉ entries.map (·.name)).map fun name =>
      ⟨name, true, some false, none⟩)
  writeFile path content := do
    let r ← route toError t path
    assertWritable toError r.mount path
    (backend r.mount.fs).writeFile r.relativePath content
  createDir path := do
    let r ← route toError t path
    assertWritable toError r.mount path
    (backend r.mount.fs).createDir r.relativePath
  mkdir path recursive := do
    let r ← route toError t path
    assertWritable toError r.mount path
    (backend r.mount.fs).mkdir r.relativePath recursive
  fileExists path := do
    let r ← route toError t path
    (backend r.mount.fs).fileExists r.relativePath
  stat path := do
    let r ← route toError t path
    (backend r.mount.fs).stat r.relativePath
  removeFile path := do
    let r ← route toError t path
    assertWritable toError r.mount path
    (backend r.mount.fs).removeFile r.relativePath
  removeDir path := do
    let r ← route toError t path
    assertWritable toError r.mount path
    (backend r.mount.fs).removeDir r.relativePath
  rename oldPath newPath := do
    let old ← route toError t oldPath
    let new ← route toError t newPath
    if old.mount.path ≠ new.mount.path then throw (toError (crossMount "rename" oldPath newPath))
    assertWritable toError old.mount oldPath
    (backend old.mount.fs).rename old.relativePath new.relativePath
  realpath path := do
    let r ← route toError t path
    let resolved ← (backend r.mount.fs).realpath r.relativePath
    if r.mount.path = "/" then pure resolved else pure (r.mount.path ++ "/" ++ resolved)
  symlink target linkPath := do
    let r ← route toError t linkPath
    assertWritable toError r.mount linkPath
    (backend r.mount.fs).symlink target r.relativePath
  readlink path := do
    let r ← route toError t path
    (backend r.mount.fs).readlink r.relativePath
  lstat path := do
    let r ← route toError t path
    (backend r.mount.fs).lstat r.relativePath
  link oldPath newPath := do
    let old ← route toError t oldPath
    let new ← route toError t newPath
    if old.mount.path ≠ new.mount.path then throw (toError (crossMount "link" oldPath newPath))
    assertWritable toError old.mount oldPath
    (backend old.mount.fs).link old.relativePath new.relativePath
  chmod path mode := do
    let r ← route toError t path
    assertWritable toError r.mount path
    (backend r.mount.fs).chmod r.relativePath mode
  chown path uid gid := do
    let r ← route toError t path
    assertWritable toError r.mount path
    (backend r.mount.fs).chown r.relativePath uid gid
  utimes path atime mtime := do
    let r ← route toError t path
    assertWritable toError r.mount path
    (backend r.mount.fs).utimes r.relativePath atime mtime
  truncate path length := do
    let r ← route toError t path
    assertWritable toError r.mount path
    (backend r.mount.fs).truncate r.relativePath length
  pread path offset length := do
    let r ← route toError t path
    (backend r.mount.fs).pread r.relativePath offset length
  pwrite path offset data := do
    let r ← route toError t path
    assertWritable toError r.mount path
    (backend r.mount.fs).pwrite r.relativePath offset data
  fsync := some fun path => do
    let r ← route toError t path
    match (backend r.mount.fs).fsync with
    | some fsync => fsync r.relativePath
    | none => pure ⟨⟩
  copy := some fun srcPath dstPath => do
    let src ← route toError t srcPath
    let dst ← route toError t dstPath
    if src.mount.path ≠ dst.mount.path then throw (toError (crossMount "copy" srcPath dstPath))
    assertWritable toError src.mount dstPath
    match (backend src.mount.fs).copy with
    | some copy => copy src.relativePath dst.relativePath
    | none => do
      let content ← (backend src.mount.fs).readFile src.relativePath
      (backend src.mount.fs).writeFile dst.relativePath (.bytes content)
  readDirStat := some fun path => do
    let r ← route toError t path
    match (backend r.mount.fs).readDirStat with
    | some readDirStat => readDirStat r.relativePath
    | none => do
      let entries ← (backend r.mount.fs).readDirWithTypes r.relativePath
      entries.mapM fun entry => do
        let stat ← (backend r.mount.fs).stat (entryPath (normalizePath path) entry.name)
        pure ⟨entry, stat⟩
  prepareOpenSync := some fun path flags => do
    let r ← route toError t path
    if flags &&& ~~~0 ≠ 0 ∧ r.mount.readOnly then
      if flags.has O_CREAT ∨ flags.has O_TRUNC then assertWritable toError r.mount path
    match (backend r.mount.fs).prepareOpenSync with
    | some prepareOpenSync => prepareOpenSync r.relativePath flags
    | none => pure false

end Members

end MountTable

/-! ### Operations -/

/-- An operation on a mount table. -/
inductive TableOp (φ : Type) where
  | call (c : FsCall)
  | mount (path : String) (fs : φ) (readOnly : Bool)
  | unmount (path : String)

/-- The table and the state of the file systems after an operation. -/
def TableOp.perform {φ ε σ : Type} (backend : φ → VirtualFileSystem ε σ) (toError : Failure → ε)
    (t : MountTable φ) (s : σ) : TableOp φ → MountTable φ × σ
  | .call c => (t, (((t.fileSystem backend toError).call c).exec s).2)
  | .mount path fs readOnly =>
    match t.mount path fs readOnly with
    -- what the promise of `mkdir` rejects with is dropped
    | .ok (t', parent, directory) =>
      (t', (((backend parent).mkdir directory (some true)).exec s).2)
    | .error _ => (t, s)
  | .unmount path =>
    match t.unmount path with
    | .ok t' => (t', s)
    | .error _ => (t, s)

end SecureExec.Kernel
