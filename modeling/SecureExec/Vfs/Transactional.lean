import SecureExec.Lib.Coro
import SecureExec.Vfs.Chunked
import SecureExec.Vfs.Sqlite

/-!
# Vfs — Transactional — the operations that run a transaction

The five operations of `packages/core/src/vfs/chunked-vfs.ts` that call `metadata.transaction`, with
their awaits, over any metadata store.  Each is what it does before that call, which ends with the
`Transaction` it runs: the locks that are held around it, and the callback.  After the transaction
it only gives back its locks.
-/

namespace SecureExec.Vfs
open SecureExec Bytes FsMetadataStore Prog

/-- The stores and the write buffers, over a metadata store of another kind. -/
structure VfsOver (M : Type) where
  metadata : M
  blocks : InMemoryBlockStore
  writeBuffers : OMap Nat InodeWriteBuffer
  randomCalls : Nat
  clockCalls : Nat

abbrev OverTask (M α : Type) : Type := Coro Failure (VfsOver M) Nat α

/-- `metadata.transaction(fn)`, under locks. -/
structure Transaction (M : Type) where
  locks : List Nat
  fn : OverTask M PUnit

namespace Transactional
open Coro (await)

variable {M : Type} [FsMetadataStore M] {α : Type}

/-! ### Access to the stores -/

/-- A call of the metadata store. -/
def store (p : Prog Failure M α) : Prog Failure (VfsOver M) α :=
  p.zoom VfsOver.metadata fun m v => { v with metadata := m }

/-- A query of the metadata store. -/
def query (f : M → α) : Prog Failure (VfsOver M) α := read fun v => f v.metadata

/-- `Date.now()`. -/
def dateNow (o : ChunkedVfsOptions) : Prog Failure (VfsOver M) Nat := do
  let n ← read (·.clockCalls)
  update fun v => { v with clockCalls := n + 1 }
  pure (o.dateNow n)

def makeBlockKey (o : ChunkedVfsOptions) (ino chunkIndex : Nat) :
    Prog Failure (VfsOver M) BlockKey := do
  if o.versioning then
    let n ← read (·.randomCalls)
    update fun v => { v with randomCalls := n + 1 }
    pure ⟨ino, chunkIndex, some (o.randomId n)⟩
  else
    pure ⟨ino, chunkIndex, none⟩

def writeBlock (key : BlockKey) (data : ByteArray8) : Prog Failure (VfsOver M) PUnit :=
  update fun v => { v with blocks := v.blocks.write key data }

def deleteBlocks (keys : List BlockKey) : Prog Failure (VfsOver M) PUnit :=
  update fun v => { v with blocks := v.blocks.deleteMany keys }

/-- `blocks.copy`. -/
def copyBlock (srcKey dstKey : BlockKey) : Prog Failure (VfsOver M) PUnit := do
  let blocks ← lift ((← read (·.blocks)).copy srcKey dstKey)
  update fun v => { v with blocks := blocks }

/-- `writeBuffers.delete(ino)`. -/
def dropBuffer (ino : Nat) : Prog Failure (VfsOver M) PUnit :=
  update fun v => { v with writeBuffers := v.writeBuffers.delete ino }

def createInode (o : ChunkedVfsOptions) (attrs : CreateInodeAttrs) :
    Prog Failure (VfsOver M) Nat := do
  let now ← dateNow o
  store (FsMetadataStore.createInode attrs now)

def updateInode (ino : Nat) (updates : InodeMeta → InodeMeta) : Prog Failure (VfsOver M) PUnit :=
  store (FsMetadataStore.updateInode ino updates)

def requireInode (ino : Nat) : Prog Failure (VfsOver M) InodeMeta := do
  match ← query (getInode · ino) with
  | some i => pure i
  | none => throw (.kernelError .ENOENT ("inode " ++ toString ino ++ " not found"))

def resolveIno (path : String) : Prog Failure (VfsOver M) Nat := do
  lift (← query (resolvePath · (normalizePath path)))

def resolveParentPath (path : String) : Prog Failure (VfsOver M) (Nat × String) := do
  lift (← query (FsMetadataStore.resolveParentPath · (normalizePath path)))

def lookup (parentIno : Nat) (name : String) : Prog Failure (VfsOver M) (Option Nat) :=
  query (FsMetadataStore.lookup · parentIno name)

/-- `nlink: meta.nlink + n` or `- n`, for an inode that is there. -/
def changeNlink (ino : Nat) (f : Nat → Nat) : OverTask M PUnit := do
  match ← await (query (getInode · ino)) with
  | some i => await (updateInode ino fun j => { j with nlink := f i.nlink })
  | none => pure ⟨⟩

/-! ### Parent directories -/

/-- The loop of `ensureParents`, over the components before the last. -/
def ensureParentsLoop (o : ChunkedVfsOptions) : Nat → List String → OverTask M Nat
  | currentIno, [] => .pause (.pure currentIno)
  | currentIno, component :: rest => do
    match ← await (lookup currentIno component) with
    | some childIno => ensureParentsLoop o childIno rest
    | none =>
      let dirIno ← await (createInode o ⟨.directory, 0o755, 0, 0, none⟩)
      await (store (createDentry currentIno component dirIno .directory))
      await (updateInode dirIno fun i => { i with nlink := 2, size := 4096 })
      changeNlink currentIno (· + 1)
      ensureParentsLoop o dirIno rest

def ensureParents (o : ChunkedVfsOptions) (path : String) : OverTask M (Nat × String) :=
  let parts := splitPath (normalizePath path)
  match parts.getLast? with
  | none => throw (.kernelError .ENOENT "cannot resolve parent of root")
  | some name => do
    let parentIno ← ensureParentsLoop o 1 parts.dropLast
    pure (parentIno, name)

/-! ### File content -/

/-- `deleteAllChunks`, and the blocks it names when versioning is off. -/
def dropAllChunks (o : ChunkedVfsOptions) (ino : Nat) : OverTask M PUnit := do
  let keys ← await (store (deleteAllChunks ino))
  if !o.versioning && keys.length > 0 then await (deleteBlocks keys)

/-- The loop that cuts a content into chunks. -/
def writeChunks (o : ChunkedVfsOptions) (ino : Nat) (content : ByteArray8) :
    Nat → Nat → OverTask M PUnit
  | 0, _ => pure ⟨⟩
  | n + 1, i => do
    let start := i * o.chunkSize
    let stop := min (start + o.chunkSize) content.length
    let key ← makeBlockKey (M := M) o ino i
    await (writeBlock key (slice content start stop))
    await (store (setChunkKey ino i key))
    writeChunks o ino content n (i + 1)

def writeInodeContent (o : ChunkedVfsOptions) (ino : Nat) (content : ByteArray8)
    (i : InodeMeta) : OverTask M PUnit := do
  let now ← dateNow (M := M) o
  if i.storageMode = .chunked then dropAllChunks o ino
  if content.length ≤ o.inlineThreshold then
    await (updateInode ino fun i => { i with
      storageMode := .inline, inlineContent := some content, size := content.length,
      mtimeMs := now, ctimeMs := now })
  else
    writeChunks o ino content (numChunks content.length o.chunkSize) 0
    await (updateInode ino fun i => { i with
      storageMode := .chunked, inlineContent := none, size := content.length,
      mtimeMs := now, ctimeMs := now })

/-! ### The operations -/

/-- The transaction of `writeFile` on an entry that is there. -/
def writeExisting (o : ChunkedVfsOptions) (existingIno : Nat) (data : ByteArray8) :
    OverTask M PUnit := do
  let i ← await (requireInode existingIno)
  dropBuffer (M := M) existingIno
  writeInodeContent o existingIno data i
  await (updateInode existingIno fun j => { j with nlink := max i.nlink 1 })

/-- The transaction of `writeFile` on an entry that is not there. -/
def writeNew (o : ChunkedVfsOptions) (parentIno : Nat) (name : String) (data : ByteArray8) :
    OverTask M PUnit := do
  let newIno ← await (createInode o ⟨.file, 0o644, 0, 0, none⟩)
  await (store (createDentry parentIno name newIno .file))
  await (updateInode newIno fun i => { i with nlink := 1 })
  let newMeta ← await (requireInode newIno)
  writeInodeContent o newIno data newMeta

/-- `const release = await mutex.acquire(ino)`. -/
def acquire (ino : Nat) : OverTask M PUnit := .acquire ino (.pause (.pure ⟨⟩))

def writeFile (o : ChunkedVfsOptions) (path : String) (data : ByteArray8) :
    OverTask M (Transaction M) := do
  let (parentIno, name) ← ensureParents o path
  match ← await (lookup parentIno name) with
  | some existingIno =>
    acquire existingIno
    pure ⟨[existingIno], writeExisting o existingIno data⟩
  | none => pure ⟨[], writeNew o parentIno name data⟩

/-- An empty directory goes: its entry, its inode, and its parent's link. -/
def dropDirectory (parentIno : Nat) (name : String) (ino : Nat) : OverTask M PUnit := do
  await (store (removeDentry parentIno name))
  await (store (deleteInode ino))
  changeNlink parentIno (· - 1)

def removeDir (path : String) : OverTask M (Transaction M) :=
  if normalizePath path = "/" then
    throw (.kernelError .EPERM "operation not permitted, rmdir '/'")
  else do
    let (parentIno, name) ← await (resolveParentPath path)
    match ← await (lookup parentIno name) with
    | none => throw (.kernelError .ENOENT ("no such directory: '" ++ path ++ "'"))
    | some childIno =>
      let i ← await (requireInode childIno)
      if i.type ≠ .directory then
        throw (.kernelError .ENOTDIR ("not a directory: '" ++ path ++ "'"))
      else
        let entries ← await (query (listDir · childIno))
        if entries.length > 0 then
          throw (.kernelError .ENOTEMPTY ("directory not empty: '" ++ path ++ "'"))
        else pure ⟨[], dropDirectory parentIno name childIno⟩

/-- One entry of a file or symlink goes, and with the last one the inode `i`.  `removeFile` drops
the write buffer too, `rename` over a file does not. -/
def dropLink (o : ChunkedVfsOptions) (parentIno : Nat) (name : String) (ino : Nat) (i : InodeMeta)
    (dropsBuffer : Bool) : OverTask M PUnit := do
  await (store (removeDentry parentIno name))
  let newNlink := i.nlink - 1
  if newNlink ≤ 0 then
    if i.storageMode = .chunked then dropAllChunks o ino
    if dropsBuffer then dropBuffer (M := M) ino
    await (store (deleteInode ino))
  else
    let now ← dateNow (M := M) o
    await (updateInode ino fun j => { j with nlink := newNlink, ctimeMs := now })

/-- The entry that `rename` replaces goes. -/
def renameOver (o : ChunkedVfsOptions) (newPath : String) (parentIno : Nat) (name : String)
    (dstIno : Nat) : OverTask M PUnit := do
  let i ← await (requireInode dstIno)
  if i.type = .directory then
    let entries ← await (query (listDir · dstIno))
    if entries.length > 0 then
      throw (.kernelError .ENOTEMPTY ("directory not empty: '" ++ newPath ++ "'"))
    else dropDirectory parentIno name dstIno
  else dropLink o parentIno name dstIno i false

/-- The transaction of `rename`. -/
def renameEntry (o : ChunkedVfsOptions) (newPath : String) (src dst : Nat × String)
    (srcMeta : InodeMeta) (existingDstIno : Option Nat) : OverTask M PUnit := do
  match existingDstIno with
  | some dstIno => renameOver o newPath dst.1 dst.2 dstIno
  | none => pure ⟨⟩
  await (store (renameDentry src.1 src.2 dst.1 dst.2))
  if srcMeta.type = .directory ∧ src.1 ≠ dst.1 then
    changeNlink src.1 (· - 1)
    changeNlink dst.1 (· + 1)

/-- `rename` of two paths that are not the same. -/
def renamePath (o : ChunkedVfsOptions) (oldPath newPath : String) :
    OverTask M (Transaction M) := do
  let src ← await (resolveParentPath oldPath)
  let dst ← await (resolveParentPath newPath)
  match ← await (lookup src.1 src.2) with
  | none => throw (.kernelError .ENOENT ("no such file or directory: '" ++ oldPath ++ "'"))
  | some srcIno =>
    let srcMeta ← await (requireInode srcIno)
    acquire srcIno
    let existingDstIno ← await (lookup dst.1 dst.2)
    pure ⟨[srcIno], renameEntry o newPath src dst srcMeta existingDstIno⟩

/-- `rename`; nothing is done, and no transaction run, when the paths are the same. -/
def rename (o : ChunkedVfsOptions) (oldPath newPath : String) :
    OverTask M (Option (Transaction M)) :=
  if normalizePath oldPath = normalizePath newPath then pure none
  else some <$> renamePath o oldPath newPath

def removeFile (o : ChunkedVfsOptions) (path : String) : OverTask M (Transaction M) := do
  let (parentIno, name) ← await (resolveParentPath path)
  match ← await (lookup parentIno name) with
  | none => throw (.kernelError .ENOENT ("no such file or directory: '" ++ path ++ "'"))
  | some childIno =>
    let i ← await (requireInode childIno)
    if i.type = .directory then
      throw (.kernelError .EISDIR ("illegal operation on a directory: '" ++ path ++ "'"))
    else
      acquire childIno
      pure ⟨[childIno], dropLink o parentIno name childIno i true⟩

/-- The chunk loop of `copy`. -/
def copyChunks (o : ChunkedVfsOptions) (dstIno : Nat) : List (Nat × BlockKey) → OverTask M PUnit
  | [] => pure ⟨⟩
  | (ci, key) :: l => do
    let newKey ← makeBlockKey (M := M) o dstIno ci
    await (copyBlock key newKey)
    await (store (setChunkKey dstIno ci newKey))
    copyChunks o dstIno l

/-- The transaction of `copy`. -/
def copyInto (o : ChunkedVfsOptions) (srcIno : Nat) (i : InodeMeta) (parentIno : Nat)
    (name : String) : OverTask M PUnit := do
  let dstIno ← await (createInode o ⟨.file, i.mode, i.uid, i.gid, none⟩)
  await (store (createDentry parentIno name dstIno .file))
  match i.storageMode with
  | .inline =>
    await (updateInode dstIno fun j => { j with
      nlink := 1, size := i.size, storageMode := .inline
      inlineContent := some (i.inlineContent.getD []) })
  | .chunked =>
    let chunkEntries ← await (query (getAllChunkKeys · srcIno))
    copyChunks o dstIno chunkEntries
    await (updateInode dstIno fun j => { j with
      nlink := 1, size := i.size, storageMode := .chunked, inlineContent := none })

def copy (o : ChunkedVfsOptions) (srcPath dstPath : String) : OverTask M (Transaction M) := do
  let srcIno ← await (resolveIno srcPath)
  let i ← await (requireInode srcIno)
  if i.type = .directory then
    throw (.kernelError .EISDIR ("illegal operation on a directory: '" ++ srcPath ++ "'"))
  else
    let (parentIno, name) ← ensureParents o dstPath
    match ← await (lookup parentIno name) with
    | some _ => throw (.kernelError .EEXIST ("file already exists: '" ++ dstPath ++ "'"))
    | none => pure ⟨[], copyInto o srcIno i parentIno name⟩

end Transactional

/-- A call of an operation that runs a transaction. -/
inductive TransactionalOp where
  | writeFile (path : String) (data : ByteArray8)
  | removeDir (path : String)
  | rename (oldPath newPath : String)
  | removeFile (path : String)
  | copy (srcPath dstPath : String)

/-- What the operation does before `metadata.transaction`, with the transaction it runs. -/
def TransactionalOp.task {M : Type} [FsMetadataStore M] (o : ChunkedVfsOptions) :
    TransactionalOp → OverTask M (Option (Transaction M))
  | .writeFile path data => some <$> Transactional.writeFile o path data
  | .removeDir path => some <$> Transactional.removeDir path
  | .rename oldPath newPath => Transactional.rename o oldPath newPath
  | .removeFile path => some <$> Transactional.removeFile o path
  | .copy srcPath dstPath => some <$> Transactional.copy o srcPath dstPath

end SecureExec.Vfs
