import SecureExec.Vfs.Async

/-!
# Vfs — Namespace — the operations on names

The rest of `packages/core/src/vfs/chunked-vfs.ts`: directories, links, `rename`, `copy`,
`realpath`, with their awaits; and `prepareOpenSync` of
`packages/core/src/shared/in-memory-fs.ts`, which awaits nothing.

`VfsOp` is a call of the file system, `VfsOp.run` the call with nobody else around.  Not modelled:
`readDir` and its relatives, `exists` and the versioning calls.
-/

namespace SecureExec.Vfs
open SecureExec Bytes Prog

namespace Async
open Coro (await yield withLock)

/-! ### Directory entries -/

def resolveParentPath (path : String) : VfsProg (Nat × String) := do
  lift ((← read (·.metadata)).resolveParentPath (normalizePath path))

def lookup (parentIno : Nat) (name : String) : VfsProg (Option Nat) :=
  read (·.metadata.lookup parentIno name)

def readSymlink (ino : Nat) : VfsProg String := do
  lift ((← read (·.metadata)).readSymlink ino)

/-- `nlink: meta.nlink + n` or `- n`, for an inode that is there. -/
def changeNlink (ino : Nat) (f : Nat → Nat) : VfsTask PUnit := do
  match ← await (read (·.metadata.getInode ino)) with
  | some i => await (updateInode ino fun j => { j with nlink := f i.nlink })
  | none => pure ⟨⟩

/-- An empty directory goes: its entry, its inode, and its parent's link. -/
def dropDirectory (parentIno : Nat) (name : String) (ino : Nat) : VfsTask PUnit := do
  await (updateMetadata (·.removeDentry parentIno name))
  await (updateMetadata (·.deleteInode ino))
  changeNlink parentIno (· - 1)

/-- One entry of a file or symlink goes, and with the last one the inode `i`.  `removeFile` drops
the write buffer too, `rename` over a file does not. -/
def dropLink (o : ChunkedVfsOptions) (parentIno : Nat) (name : String) (ino : Nat) (i : InodeMeta)
    (dropsBuffer : Bool) : VfsTask PUnit := do
  await (updateMetadata (·.removeDentry parentIno name))
  let newNlink := i.nlink - 1
  if newNlink ≤ 0 then
    if i.storageMode = .chunked then dropAllChunks o ino
    if dropsBuffer then dropBuffer ino
    await (updateMetadata (·.deleteInode ino))
  else
    let now ← dateNow o
    await (updateInode ino fun j => { j with nlink := newNlink, ctimeMs := now })

/-! ### Directory operations -/

def createDir (o : ChunkedVfsOptions) (path : String) : VfsTask PUnit := do
  let (parentIno, name) ← await (resolveParentPath path)
  match ← await (lookup parentIno name) with
  | some _ => throw (.kernelError .EEXIST ("directory already exists: '" ++ path ++ "'"))
  | none =>
    let _ ← makeDirectory o parentIno name
    pure ⟨⟩

/-- The parent loop of `mkdir` without `recursive`. -/
def mkdirParent (path : String) : Nat → List String → VfsTask Nat
  | parentIno, [] => pure parentIno
  | parentIno, part :: rest => do
    match ← await (lookup parentIno part) with
    | none => throw (.kernelError .ENOENT ("no such file or directory: '" ++ path ++ "'"))
    | some childIno => mkdirParent path childIno rest

/-- The loop of `mkdir` with `recursive`. -/
def mkdirAll (o : ChunkedVfsOptions) : Nat → List String → VfsTask PUnit
  | _, [] => pure ⟨⟩
  | currentIno, part :: rest => do
    match ← await (lookup currentIno part) with
    | some childIno => mkdirAll o childIno rest
    | none =>
      let dirIno ← makeDirectory o currentIno part
      mkdirAll o dirIno rest

def mkdir (o : ChunkedVfsOptions) (path : String) (recursive : Bool) : VfsTask PUnit :=
  let parts := splitPath (normalizePath path)
  if recursive then mkdirAll o 1 parts
  else
    match parts.getLast? with
    | none => throw (.kernelError .EEXIST ("directory already exists: '" ++ path ++ "'"))
    | some targetName => do
      let parentIno ← mkdirParent path 1 parts.dropLast
      match ← await (lookup parentIno targetName) with
      | some _ => throw (.kernelError .EEXIST ("directory already exists: '" ++ path ++ "'"))
      | none =>
        let _ ← makeDirectory o parentIno targetName
        pure ⟨⟩

def removeDir (path : String) : VfsTask PUnit :=
  if normalizePath path = "/" then
    throw (.kernelError .EPERM "operation not permitted, rmdir '/'")
  else do
    let (parentIno, name) ← await (resolveParentPath path)
    match ← await (lookup parentIno name) with
    | none => throw (.kernelError .ENOENT ("no such directory: '" ++ path ++ "'"))
    | some childIno =>
      let i ← await (requireInode childIno)
      if i.type ≠ .directory then
        throw (.kernelError .ENOTDIR ("not a directory: '" ++ path ++ "'"))
      else
        let entries ← await (read (·.metadata.listDir childIno))
        if entries.length > 0 then
          throw (.kernelError .ENOTEMPTY ("directory not empty: '" ++ path ++ "'"))
        else dropDirectory parentIno name childIno

/-! ### Path operations -/

/-- The entry that `rename` replaces goes. -/
def renameOver (o : ChunkedVfsOptions) (newPath : String) (parentIno : Nat) (name : String)
    (dstIno : Nat) : VfsTask PUnit := do
  let i ← await (requireInode dstIno)
  if i.type = .directory then
    let entries ← await (read (·.metadata.listDir dstIno))
    if entries.length > 0 then
      throw (.kernelError .ENOTEMPTY ("directory not empty: '" ++ newPath ++ "'"))
    else dropDirectory parentIno name dstIno
  else dropLink o parentIno name dstIno i false

/-- What `rename` does under the lock of the inode it moves. -/
def renameLocked (o : ChunkedVfsOptions) (newPath : String) (src dst : Nat × String)
    (srcMeta : InodeMeta) : VfsTask PUnit := do
  match ← await (lookup dst.1 dst.2) with
  | some dstIno => renameOver o newPath dst.1 dst.2 dstIno
  | none => pure ⟨⟩
  await (updateMetadata (·.renameDentry src.1 src.2 dst.1 dst.2))
  if srcMeta.type = .directory ∧ src.1 ≠ dst.1 then
    changeNlink src.1 (· - 1)
    changeNlink dst.1 (· + 1)

def rename (o : ChunkedVfsOptions) (oldPath newPath : String) : VfsTask PUnit :=
  if normalizePath oldPath = normalizePath newPath then pure ⟨⟩
  else do
    let src ← await (resolveParentPath oldPath)
    let dst ← await (resolveParentPath newPath)
    match ← await (lookup src.1 src.2) with
    | none => throw (.kernelError .ENOENT ("no such file or directory: '" ++ oldPath ++ "'"))
    | some srcIno =>
      let srcMeta ← await (requireInode srcIno)
      withLock srcIno (renameLocked o newPath src dst srcMeta)

def removeFile (o : ChunkedVfsOptions) (path : String) : VfsTask PUnit := do
  let (parentIno, name) ← await (resolveParentPath path)
  match ← await (lookup parentIno name) with
  | none => throw (.kernelError .ENOENT ("no such file or directory: '" ++ path ++ "'"))
  | some childIno =>
    let i ← await (requireInode childIno)
    if i.type = .directory then
      throw (.kernelError .EISDIR ("illegal operation on a directory: '" ++ path ++ "'"))
    else withLock childIno (dropLink o parentIno name childIno i true)

end Async

/-- One stretch of the loop of `realpathWalk` over its parts, up to the next symlink; `follow` goes
on with the parts a symlink is replaced by, and is `none` after `SYMLOOP_MAX` of them.  `resolved`
and `inoStack` have their last element in front, and `inoStack` is without the root. -/
def realpathParts (m : InMemoryMetadataStore) (path : String)
    (follow : Option (List String → List String → List Nat → Except Failure (List String))) :
    List String → List String → List Nat → Except Failure (List String)
  | [], resolved, _ => .ok resolved
  | name :: rest, resolved, inoStack =>
    if name = "." ∨ name = "" then realpathParts m path follow rest resolved inoStack
    else if name = ".." then realpathParts m path follow rest resolved.tail inoStack.tail
    else
      match m.lookup (inoStack.headD 1) name with
      | none =>
        .error (.kernelError .ENOENT ("no such file or directory, realpath '" ++ path ++ "'"))
      | some childIno =>
        match m.getInode childIno with
        | none =>
          .error (.kernelError .ENOENT ("no such file or directory, realpath '" ++ path ++ "'"))
        | some child =>
          if child.type = .symlink then
            match follow with
            | none => .error (.kernelError .ELOOP "too many levels of symbolic links")
            | some follow =>
              match m.readSymlink childIno with
              | .error e => .error e
              | .ok target =>
                if target.toList.head? = some '/' then follow (splitPath target ++ rest) [] []
                else follow (splitPath target ++ rest) resolved inoStack
          else realpathParts m path follow rest (name :: resolved) (childIno :: inoStack)

/-- The loop of `realpathWalk` with `n = SYMLOOP_MAX - symlinkCount` symlinks left to follow. -/
def realpathFrom (m : InMemoryMetadataStore) (path : String) :
    Nat → List String → List String → List Nat → Except Failure (List String)
  | 0 => realpathParts m path none
  | n + 1 => realpathParts m path (some (realpathFrom m path n))

/-- `realpathWalk`; `"/" + resolved.join("/")` is `"/"` for no components. -/
def realpathWalk (m : InMemoryMetadataStore) (path : String) : Except Failure String :=
  match realpathFrom m path InMemoryMetadataStore.SYMLOOP_MAX (splitPath (normalizePath path)) [] []
  with
  | .error e => .error e
  | .ok resolved => .ok ("/" ++ "/".intercalate resolved.reverse)

def realpath (path : String) : VfsProg String := do
  lift (realpathWalk (← read (·.metadata)) path)

/-! ### Symlinks and links -/

namespace Async
open Coro (await yield withLock)

def symlink (o : ChunkedVfsOptions) (target linkPath : String) : VfsTask PUnit := do
  let (parentIno, name) ← await (resolveParentPath linkPath)
  match ← await (lookup parentIno name) with
  | some _ => throw (.kernelError .EEXIST ("file already exists: '" ++ linkPath ++ "'"))
  | none =>
    let symlinkIno ← await (createInode o ⟨.symlink, 0o777, 0, 0, some target⟩)
    await (createDentry parentIno name symlinkIno .symlink)
    await (updateInode symlinkIno fun i => { i with nlink := 1, size := target.utf8ByteSize })

def readlink (path : String) : VfsTask String := do
  let (parentIno, name) ← await (resolveParentPath path)
  match ← await (lookup parentIno name) with
  | none => throw (.kernelError .ENOENT ("no such file or directory: '" ++ path ++ "'"))
  | some childIno =>
    let i ← await (requireInode childIno)
    if i.type ≠ .symlink then throw (.kernelError .EINVAL ("not a symlink: '" ++ path ++ "'"))
    else await (readSymlink childIno)

def lstat (path : String) : VfsTask VirtualStat := do
  let (parentIno, name) ← await (resolveParentPath path)
  match ← await (lookup parentIno name) with
  | none => throw (.kernelError .ENOENT ("no such file or directory: '" ++ path ++ "'"))
  | some childIno =>
    let i ← await (requireInode childIno)
    pure (inodeMetaToStat i)

def link (oldPath newPath : String) : VfsTask PUnit := do
  let srcIno ← await (resolveIno oldPath)
  let i ← await (requireInode srcIno)
  if i.type = .directory then
    throw (.kernelError .EPERM ("operation not permitted, link directory: '" ++ oldPath ++ "'"))
  else
    let (parentIno, name) ← await (resolveParentPath newPath)
    match ← await (lookup parentIno name) with
    | some _ => throw (.kernelError .EEXIST ("file already exists: '" ++ newPath ++ "'"))
    | none =>
      await (createDentry parentIno name srcIno i.type)
      await (updateInode srcIno fun j => { j with nlink := i.nlink + 1 })

/-! ### Copying -/

/-- `blocks.copy`. -/
def copyBlock (srcKey dstKey : BlockKey) : VfsProg PUnit := do
  let blocks ← lift ((← read (·.blocks)).copy srcKey dstKey)
  update fun v => { v with blocks := blocks }

/-- The chunk loop of `copy`. -/
def copyChunks (o : ChunkedVfsOptions) (dstIno : Nat) : List (Nat × BlockKey) → VfsTask PUnit
  | [] => pure ⟨⟩
  | (ci, key) :: l => do
    let newKey ← makeBlockKey o dstIno ci
    await (copyBlock key newKey)
    await (updateMetadata (·.setChunkKey dstIno ci newKey))
    copyChunks o dstIno l

/-- `copy` from the new inode on. -/
def copyInto (o : ChunkedVfsOptions) (srcIno : Nat) (i : InodeMeta) (parentIno : Nat)
    (name : String) : VfsTask PUnit := do
  let dstIno ← await (createInode o ⟨.file, i.mode, i.uid, i.gid, none⟩)
  await (createDentry parentIno name dstIno .file)
  match i.storageMode with
  | .inline =>
    await (updateInode dstIno fun j => { j with
      nlink := 1, size := i.size, storageMode := .inline
      inlineContent := some (i.inlineContent.getD []) })
  | .chunked =>
    let chunkEntries ← await (read (·.metadata.getAllChunkKeys srcIno))
    copyChunks o dstIno chunkEntries
    await (updateInode dstIno fun j => { j with
      nlink := 1, size := i.size, storageMode := .chunked, inlineContent := none })

def copy (o : ChunkedVfsOptions) (srcPath dstPath : String) : VfsTask PUnit := do
  let srcIno ← await (resolveIno srcPath)
  let i ← await (requireInode srcIno)
  if i.type = .directory then
    throw (.kernelError .EISDIR ("illegal operation on a directory: '" ++ srcPath ++ "'"))
  else
    let (parentIno, name) ← ensureParents o dstPath
    match ← await (lookup parentIno name) with
    | some _ => throw (.kernelError .EEXIST ("file already exists: '" ++ dstPath ++ "'"))
    | none => copyInto o srcIno i parentIno name

/-! ### Permissions -/

def chmod (o : ChunkedVfsOptions) (path : String) (mode : Nat) : VfsTask PUnit := do
  let ino ← await (resolveIno path)
  let i ← await (requireInode ino)
  let newMode := if mode &&& 0o170000 ≠ 0 then mode else (i.mode &&& 0o170000) ||| (mode &&& 0o7777)
  let now ← dateNow o
  await (updateInode ino fun j => { j with mode := newMode, ctimeMs := now })

def chown (o : ChunkedVfsOptions) (path : String) (uid gid : Nat) : VfsTask PUnit := do
  let ino ← await (resolveIno path)
  let now ← dateNow o
  await (updateInode ino fun j => { j with uid := uid, gid := gid, ctimeMs := now })

/-- `utimes`; the times are given in milliseconds. -/
def utimes (o : ChunkedVfsOptions) (path : String) (atimeMs mtimeMs : Nat) : VfsTask PUnit := do
  let ino ← await (resolveIno path)
  let now ← dateNow o
  await (updateInode ino fun j => { j with atimeMs := atimeMs, mtimeMs := mtimeMs, ctimeMs := now })

end Async

/-! ### `prepareOpenSync` -/

section Open
open Prog

/-- `path.replace(/\/+/g, "/").replace(/\/$/, "").split("/").filter(Boolean)`. -/
def openParts (path : String) : List String :=
  let p := collapseSlashes path.toList
  let p := if p.getLast? = some '/' then p.dropLast else p
  ((p.splitOn '/').filter (· ≠ [])).map String.ofList

/-- The parent loop. -/
def openParents (o : ChunkedVfsOptions) : Nat → List String → VfsProg Nat
  | parentIno, [] => pure parentIno
  | parentIno, part :: rest => do
    match ← read (·.metadata.lookup parentIno part) with
    | some childIno => openParents o childIno rest
    | none =>
      let newIno ← Async.createInode o ⟨.directory, 0o755, 0, 0, none⟩
      updateInode newIno fun i => { i with nlink := 2 }
      Async.createDentry parentIno part newIno .directory
      match ← read (·.metadata.getInode parentIno) with
      | some parent => updateInode parentIno fun i => { i with nlink := parent.nlink + 1 }
      | none => pure ⟨⟩
      openParents o newIno rest

/-- The file of an `open` with `O_CREAT` at a path that does not resolve; `true` when it was
made.  An entry that is there after all is let be, and the new inode has none. -/
def openCreate (o : ChunkedVfsOptions) (path : String) : VfsProg Bool := do
  let parentIno ← openParents o 1 (openParts path).dropLast
  match (openParts path).getLast? with
  | none => pure false
  | some fileName =>
    let fileIno ← Async.createInode o ⟨.file, 0o644, 0, 0, none⟩
    updateInode fileIno fun i => { i with
      nlink := 1, size := 0, storageMode := .inline, inlineContent := some [] }
    match ← read (·.metadata.createDentry parentIno fileName fileIno .file) with
    | .ok m =>
      updateMetadata fun _ => m
      pure true
    | .error _ => pure false

/-- `O_TRUNC` at a path that resolves. -/
def openTruncate (path : String) (ino : Nat) : VfsProg PUnit := do
  let i ← read (·.metadata.getInode ino)
  if i.map (·.type) = some .directory then
    throw (.kernelError .EISDIR ("illegal operation on a directory, open '" ++ path ++ "'"))
  else
    updateInode ino fun i => { i with size := 0, storageMode := .inline, inlineContent := some [] }
    let keys ← read fun v => (v.metadata.deleteAllChunks ino).1
    updateMetadata fun m => (m.deleteAllChunks ino).2
    deleteBlocks keys

def prepareOpenSync (o : ChunkedVfsOptions) (path : String) (flags : Flags) : VfsProg Bool := do
  let resolved ← read fun v => (v.metadata.resolvePath path).toOption
  if flags.has O_CREAT ∧ flags.has O_EXCL ∧ resolved.isSome then
    throw (.kernelError .EEXIST ("file already exists, open '" ++ path ++ "'"))
  else
    match resolved with
    | none => if flags.has O_CREAT then openCreate o path else pure false
    | some ino =>
      if flags.has O_TRUNC then openTruncate path ino
      pure false

end Open

/-! ### Calls -/

/-- A call of the file system. -/
inductive VfsOp where
  | readFile (path : String)
  | writeFile (path : String) (data : ByteArray8)
  | stat (path : String)
  | lstat (path : String)
  | pread (path : String) (offset length : Nat)
  | pwrite (path : String) (offset : Nat) (data : ByteArray8)
  | truncate (path : String) (length : Nat)
  | fsync (path : String)
  /-- A run of the auto-flush timer. -/
  | flushAll
  | createDir (path : String)
  | mkdir (path : String) (recursive : Bool)
  | removeDir (path : String)
  | rename (oldPath newPath : String)
  | removeFile (path : String)
  | realpath (path : String)
  | symlink (target linkPath : String)
  | readlink (path : String)
  | link (oldPath newPath : String)
  | copy (srcPath dstPath : String)
  | chmod (path : String) (mode : Nat)
  | chown (path : String) (uid gid : Nat)
  | utimes (path : String) (atimeMs mtimeMs : Nat)
  /-- What an `open` of the kernel does to the file system. -/
  | openSync (path : String) (flags : Flags)

/-- What a call returns. -/
inductive VfsReply where
  | done
  | bytes (b : ByteArray8)
  | text (s : String)
  | info (st : VirtualStat)
  | made (created : Bool)

/-- A call with nobody else around.  Only the in-memory file system, which has neither write
buffers nor versions, has a `prepareOpenSync`; to the others the kernel's `open` does nothing. -/
def VfsOp.run (o : ChunkedVfsOptions) : VfsOp → VfsProg VfsReply
  | .readFile path => .bytes <$> Vfs.readFile o path
  | .writeFile path data => (fun _ => .done) <$> Vfs.writeFile o path data
  | .stat path => .info <$> Vfs.stat path
  | .lstat path => .info <$> (Async.lstat path).run
  | .pread path offset length => .bytes <$> Vfs.pread o path offset length
  | .pwrite path offset data => (fun _ => .done) <$> Vfs.pwrite o path offset data
  | .truncate path length => (fun _ => .done) <$> Vfs.truncate o path length
  | .fsync path => (fun _ => .done) <$> (Async.fsync o path).run
  | .flushAll => (fun _ => .done) <$> (Async.flushAll o).run
  | .createDir path => (fun _ => .done) <$> (Async.createDir o path).run
  | .mkdir path recursive => (fun _ => .done) <$> (Async.mkdir o path recursive).run
  | .removeDir path => (fun _ => .done) <$> (Async.removeDir path).run
  | .rename oldPath newPath => (fun _ => .done) <$> (Async.rename o oldPath newPath).run
  | .removeFile path => (fun _ => .done) <$> (Async.removeFile o path).run
  | .realpath path => .text <$> Vfs.realpath path
  | .symlink target linkPath => (fun _ => .done) <$> (Async.symlink o target linkPath).run
  | .readlink path => .text <$> (Async.readlink path).run
  | .link oldPath newPath => (fun _ => .done) <$> (Async.link oldPath newPath).run
  | .copy srcPath dstPath => (fun _ => .done) <$> (Async.copy o srcPath dstPath).run
  | .chmod path mode => (fun _ => .done) <$> (Async.chmod o path mode).run
  | .chown path uid gid => (fun _ => .done) <$> (Async.chown o path uid gid).run
  | .utimes path atimeMs mtimeMs => (fun _ => .done) <$> (Async.utimes o path atimeMs mtimeMs).run
  | .openSync path flags =>
    if o.writeBuffering ∨ o.versioning then pure (.made false)
    else .made <$> prepareOpenSync o path flags

/-- One call after another; what a call returned is not part of the state. -/
def VfsOp.step (o : ChunkedVfsOptions) (v : ChunkedVfs) (op : VfsOp) : Option ChunkedVfs :=
  some ((op.run o).exec v).2

end SecureExec.Vfs
