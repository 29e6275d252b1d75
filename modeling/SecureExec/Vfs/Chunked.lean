import SecureExec.Lib.Bytes
import SecureExec.Lib.Prog
import SecureExec.Vfs.Stores

/-!
# Vfs — Chunked — the ChunkedVFS

`packages/core/src/vfs/chunked-vfs.ts`: tiered storage over the two stores.  A file of at most
`inlineThreshold` bytes lives in its inode; a larger one is cut into chunks of `chunkSize` bytes in
the block store, where a chunk that was never written is a hole and reads as zeros.

An operation is a program over the whole state, run without interruption: this is what a caller
sees who awaits each operation before the next, so the per-inode mutex never waits.  What an
operation did before it threw stays done.

The clock and the random block ids are streams given with the options; the state counts how many
of each have been drawn.
-/

namespace SecureExec.Vfs
open SecureExec Bytes

/-- `ChunkedVfsOptions`, with the stores' contents in `ChunkedVfs`. -/
structure ChunkedVfsOptions where
  chunkSize : Nat
  inlineThreshold : Nat
  writeBuffering : Bool
  versioning : Bool
  /-- The `n`-th value of `randomId()`. -/
  randomId : Nat → String
  /-- The `n`-th value of `Date.now()`. -/
  dateNow : Nat → Nat

/-- The dirty chunks of an inode.  The block store hands out its own arrays, so a dirty chunk that
was read from it and never expanded is the array of the block `shared` names: a write to one is a
write to both. -/
structure InodeWriteBuffer where
  dirtyChunks : OMap Nat ByteArray8
  shared : OMap Nat BlockKey
  bufferedSize : Nat

/-- The stores and the write buffers. -/
structure ChunkedVfs where
  metadata : InMemoryMetadataStore
  blocks : InMemoryBlockStore
  writeBuffers : OMap Nat InodeWriteBuffer
  randomCalls : Nat
  clockCalls : Nat

/-- `createChunkedVfs` over two empty stores. -/
def createChunkedVfs (now : Nat) : ChunkedVfs where
  metadata := .new now
  blocks := .new
  writeBuffers := .empty
  randomCalls := 0
  clockCalls := 0

abbrev VfsProg (α : Type) : Type := Prog Failure ChunkedVfs α

structure VirtualStat where
  mode : Nat
  size : Nat
  isDirectory : Bool
  isSymbolicLink : Bool
  atimeMs : Nat
  mtimeMs : Nat
  ctimeMs : Nat
  birthtimeMs : Nat
  ino : Nat
  nlink : Nat
  uid : Nat
  gid : Nat

def inodeMetaToStat (i : InodeMeta) : VirtualStat where
  mode := i.mode
  size := if i.type = .directory then 4096 else i.size
  isDirectory := i.type = .directory
  isSymbolicLink := i.type = .symlink
  atimeMs := i.atimeMs
  mtimeMs := i.mtimeMs
  ctimeMs := i.ctimeMs
  birthtimeMs := i.birthtimeMs
  ino := i.ino
  nlink := i.nlink
  uid := i.uid
  gid := i.gid

/-! ### Access to the stores -/

section Access
open Prog

def updateMetadata (f : InMemoryMetadataStore → InMemoryMetadataStore) : VfsProg PUnit :=
  update fun v => { v with metadata := f v.metadata }

def updateInode (ino : Nat) (f : InodeMeta → InodeMeta) : VfsProg PUnit :=
  updateMetadata (·.updateInode ino f)

def writeBlock (key : BlockKey) (data : ByteArray8) : VfsProg PUnit :=
  update fun v => { v with blocks := v.blocks.write key data }

def deleteBlocks (keys : List BlockKey) : VfsProg PUnit :=
  update fun v => { v with blocks := v.blocks.deleteMany keys }

def readBlock (key : BlockKey) : VfsProg ByteArray8 := do
  lift ((← read (·.blocks)).read key)

/-- `Date.now()`. -/
def dateNow (o : ChunkedVfsOptions) : VfsProg Nat := do
  let n ← read (·.clockCalls)
  update fun v => { v with clockCalls := n + 1 }
  pure (o.dateNow n)

def makeBlockKey (o : ChunkedVfsOptions) (ino chunkIndex : Nat) : VfsProg BlockKey := do
  if o.versioning then
    let n ← read (·.randomCalls)
    update fun v => { v with randomCalls := n + 1 }
    pure ⟨ino, chunkIndex, some (o.randomId n)⟩
  else
    pure ⟨ino, chunkIndex, none⟩

/-- `base.set(data, off)`. -/
def setBytes (base data : ByteArray8) (off : Nat) : VfsProg ByteArray8 :=
  match setAt base data off with
  | some r => pure r
  | none => throw .rangeError

/-- `base.set(chunk, ci * chunkSize)` for each dirty chunk. -/
def setChunks (chunkSize : Nat) : List (Nat × ByteArray8) → ByteArray8 → VfsProg ByteArray8
  | [], base => pure base
  | (ci, chunk) :: l, base => do
    let base ← setBytes base chunk (ci * chunkSize)
    setChunks chunkSize l base

/-- `deleteAllChunks`, and the blocks it names when versioning is off. -/
def dropAllChunks (o : ChunkedVfsOptions) (ino : Nat) : VfsProg PUnit := do
  let keys ← read fun v => (v.metadata.deleteAllChunks ino).1
  updateMetadata fun m => (m.deleteAllChunks ino).2
  if !o.versioning then deleteBlocks keys

end Access

section Operations
open Prog

/-! ### Write buffers -/

/-- The write buffer of `ino`, of an inode that has one. -/
def ChunkedVfs.buffer (v : ChunkedVfs) (ino : Nat) : InodeWriteBuffer :=
  (v.writeBuffers.get ino).getD ⟨.empty, .empty, 0⟩

/-- A change of the write buffer of `ino`, which the inode has. -/
def updateBuffer (ino : Nat) (f : InodeWriteBuffer → InodeWriteBuffer) : VfsProg PUnit :=
  update fun v => { v with writeBuffers := v.writeBuffers.set ino (f (v.buffer ino)) }

/-- `getOrCreateBuffer`; the buffer is used through `buffer` and `updateBuffer`. -/
def getOrCreateBuffer (ino currentSize : Nat) : VfsProg PUnit := do
  match ← read (·.writeBuffers.get ino) with
  | some _ => pure ⟨⟩
  | none =>
    update fun v =>
      { v with writeBuffers := v.writeBuffers.set ino ⟨.empty, .empty, currentSize⟩ }

/-- The loop of `flushInode`. -/
def flushChunks (o : ChunkedVfsOptions) (ino : Nat) : List (Nat × ByteArray8) → VfsProg PUnit
  | [] => pure ⟨⟩
  | (ci, chunk) :: l => do
    let key ← makeBlockKey o ino ci
    writeBlock key chunk
    updateMetadata (·.setChunkKey ino ci key)
    flushChunks o ino l

def flushInode (o : ChunkedVfsOptions) (ino : Nat) : VfsProg PUnit := do
  match ← read (·.writeBuffers.get ino) with
  | none => pure ⟨⟩
  | some buf =>
    if buf.dirtyChunks.size = 0 then pure ⟨⟩
    else
      flushChunks o ino buf.dirtyChunks.entries
      updateBuffer ino fun wb => { wb with dirtyChunks := .empty, shared := .empty }

/-! ### Inodes -/

def resolveIno (path : String) : VfsProg Nat := do
  lift ((← read (·.metadata)).resolvePath (normalizePath path))

def requireInode (ino : Nat) : VfsProg InodeMeta := do
  match ← read (·.metadata.getInode ino) with
  | some i => pure i
  | none => throw (.kernelError .ENOENT ("inode " ++ toString ino ++ " not found"))

def requireFileIno (path : String) : VfsProg (Nat × InodeMeta) := do
  let ino ← resolveIno path
  let i ← requireInode ino
  if i.type = .directory then
    throw (.kernelError .EISDIR ("illegal operation on a directory: '" ++ path ++ "'"))
  pure (ino, i)

/-- The loop of `ensureParents`, over the components before the last. -/
def ensureParentsLoop (o : ChunkedVfsOptions) : Nat → List String → VfsProg Nat
  | currentIno, [] => pure currentIno
  | currentIno, component :: rest => do
    match ← read (·.metadata.lookup currentIno component) with
    | some childIno => ensureParentsLoop o childIno rest
    | none =>
      let now ← dateNow o
      let attrs : CreateInodeAttrs := ⟨.directory, 0o755, 0, 0, none⟩
      let dirIno ← read fun v => (v.metadata.createInode attrs now).1
      updateMetadata fun m => (m.createInode attrs now).2
      let m ← lift ((← read (·.metadata)).createDentry currentIno component dirIno .directory)
      updateMetadata fun _ => m
      updateInode dirIno fun i => { i with nlink := 2, size := 4096 }
      match ← read (·.metadata.getInode currentIno) with
      | some parent => updateInode currentIno fun i => { i with nlink := parent.nlink + 1 }
      | none => pure ⟨⟩
      ensureParentsLoop o dirIno rest

/-- `ensureParents`: the parent's inode and the last component. -/
def ensureParents (o : ChunkedVfsOptions) (path : String) : VfsProg (Nat × String) := do
  let parts := splitPath (normalizePath path)
  match parts.getLast? with
  | none => throw (.kernelError .ENOENT "cannot resolve parent of root")
  | some name =>
    let parentIno ← ensureParentsLoop o 1 parts.dropLast
    pure (parentIno, name)

/-! ### File content -/

/-- `result.set(block, ci * chunkSize)` for each entry of a chunk map, but for the chunks a buffer
has in memory. -/
def setEntries (chunkSize : Nat) (buf : Option InodeWriteBuffer) :
    List (Nat × BlockKey) → ByteArray8 → VfsProg ByteArray8
  | [], result => pure result
  | (ci, key) :: l, result => do
    if (buf.bind (·.dirtyChunks.get ci)).isSome then setEntries chunkSize buf l result
    else
      let data ← readBlock key
      let result ← setBytes result data (ci * chunkSize)
      setEntries chunkSize buf l result

def readInodeContent (o : ChunkedVfsOptions) (ino : Nat) (i : InodeMeta) :
    VfsProg ByteArray8 := do
  let buf ← read (·.writeBuffers.get ino)
  let effectiveSize := (buf.map (·.bufferedSize)).getD i.size
  if effectiveSize = 0 then pure []
  else
    match i.storageMode, buf with
    | .inline, none => pure (i.inlineContent.getD [])
    | .inline, some buf =>
      let result ← setBytes (zeros effectiveSize) (i.inlineContent.getD []) 0
      setChunks o.chunkSize buf.dirtyChunks.entries result
    | .chunked, buf =>
      let chunkEntries ← read (·.metadata.getAllChunkKeys ino)
      let result ← setEntries o.chunkSize buf chunkEntries (zeros effectiveSize)
      setChunks o.chunkSize ((buf.map (·.dirtyChunks.entries)).getD []) result

/-- `Math.ceil(length / chunkSize)`. -/
def numChunks (length chunkSize : Nat) : Nat := (length + chunkSize - 1) / chunkSize

/-- The loop that cuts a content into chunks, in `writeInodeContent` and in `promoteToChunked`:
`n` chunks from the `i`-th on. -/
def writeChunks (o : ChunkedVfsOptions) (ino : Nat) (content : ByteArray8) :
    Nat → Nat → VfsProg PUnit
  | 0, _ => pure ⟨⟩
  | n + 1, i => do
    let start := i * o.chunkSize
    let stop := min (start + o.chunkSize) content.length
    let key ← makeBlockKey o ino i
    writeBlock key (slice content start stop)
    updateMetadata (·.setChunkKey ino i key)
    writeChunks o ino content n (i + 1)

def writeInodeContent (o : ChunkedVfsOptions) (ino : Nat) (content : ByteArray8)
    (i : InodeMeta) : VfsProg PUnit := do
  let now ← dateNow o
  if i.storageMode = .chunked then dropAllChunks o ino
  if content.length ≤ o.inlineThreshold then
    updateInode ino fun i => { i with
      storageMode := .inline, inlineContent := some content, size := content.length,
      mtimeMs := now, ctimeMs := now }
  else
    writeChunks o ino content (numChunks content.length o.chunkSize) 0
    updateInode ino fun i => { i with
      storageMode := .chunked, inlineContent := none, size := content.length,
      mtimeMs := now, ctimeMs := now }

def promoteToChunked (o : ChunkedVfsOptions) (ino : Nat) (i : InodeMeta) : VfsProg PUnit := do
  let data := i.inlineContent.getD []
  if data.length > 0 then
    writeChunks o ino data (numChunks data.length o.chunkSize) 0
  updateInode ino fun i => { i with storageMode := .chunked, inlineContent := none }

def demoteToInline (o : ChunkedVfsOptions) (ino : Nat) (content : ByteArray8) :
    VfsProg PUnit := do
  dropAllChunks o ino
  updateInode ino fun i => { i with storageMode := .inline, inlineContent := some content }

/-! ### Core operations -/

def readFile (o : ChunkedVfsOptions) (path : String) : VfsProg ByteArray8 := do
  let (ino, i) ← requireFileIno path
  let now ← dateNow o
  updateInode ino fun i => { i with atimeMs := now }
  readInodeContent o ino i

/-- `writeFile` on an entry that is there. -/
def writeExisting (o : ChunkedVfsOptions) (existingIno : Nat) (data : ByteArray8) :
    VfsProg PUnit := do
  let i ← requireInode existingIno
  update fun v => { v with writeBuffers := v.writeBuffers.delete existingIno }
  writeInodeContent o existingIno data i
  updateInode existingIno fun j => { j with nlink := max i.nlink 1 }

/-- `writeFile` on an entry that is not there. -/
def writeNew (o : ChunkedVfsOptions) (parentIno : Nat) (name : String) (data : ByteArray8) :
    VfsProg PUnit := do
  let now ← dateNow o
  let attrs : CreateInodeAttrs := ⟨.file, 0o644, 0, 0, none⟩
  let newIno ← read fun v => (v.metadata.createInode attrs now).1
  updateMetadata fun m => (m.createInode attrs now).2
  let m ← lift ((← read (·.metadata)).createDentry parentIno name newIno .file)
  updateMetadata fun _ => m
  updateInode newIno fun i => { i with nlink := 1 }
  let newMeta ← requireInode newIno
  writeInodeContent o newIno data newMeta

def writeFile (o : ChunkedVfsOptions) (path : String) (data : ByteArray8) : VfsProg PUnit := do
  let (parentIno, name) ← ensureParents o path
  match ← read (·.metadata.lookup parentIno name) with
  | some existingIno => writeExisting o existingIno data
  | none => writeNew o parentIno name data

def stat (path : String) : VfsProg VirtualStat := do
  let ino ← resolveIno path
  let i ← requireInode ino
  let st := inodeMetaToStat i
  match ← read (·.writeBuffers.get ino) with
  | some buf => if i.type ≠ .directory then pure { st with size := buf.bufferedSize } else pure st
  | none => pure st

/-! ### Positional operations -/

/-- The chunk loop of `pread`: `n` chunks from the `ci`-th on, with `written` bytes of the result
filled in. -/
def preadChunks (o : ChunkedVfsOptions) (ino offset clampedLen : Nat)
    (buf : Option InodeWriteBuffer) : Nat → Nat → ByteArray8 → Nat → VfsProg ByteArray8
  | 0, _, result, _ => pure result
  | n + 1, ci, result, written => do
    let chunkStart := ci * o.chunkSize
    let readStart := max offset chunkStart - chunkStart
    let readEnd := min (offset + clampedLen) (chunkStart + o.chunkSize) - chunkStart
    let readLen := readEnd - readStart
    match buf.bind (·.dirtyChunks.get ci) with
    | some dirtyChunk =>
      let result ← setBytes result (slice dirtyChunk readStart (readStart + readLen)) written
      preadChunks o ino offset clampedLen buf n (ci + 1) result (written + readLen)
    | none =>
      match ← read (·.metadata.getChunkKey ino ci) with
      | none => preadChunks o ino offset clampedLen buf n (ci + 1) result (written + readLen)
      | some key =>
        let data ← lift ((← read (·.blocks)).readRange key readStart readLen)
        let result ← setBytes result data written
        preadChunks o ino offset clampedLen buf n (ci + 1) result (written + readLen)

def pread (o : ChunkedVfsOptions) (path : String) (offset length : Nat) :
    VfsProg ByteArray8 := do
  let (ino, i) ← requireFileIno path
  let buf ← read (·.writeBuffers.get ino)
  let effectiveSize := (buf.map (·.bufferedSize)).getD i.size
  if offset ≥ effectiveSize ∨ length = 0 then pure []
  else
    let clampedLen := min length (effectiveSize - offset)
    match i.storageMode, buf with
    | .inline, none => pure (slice (i.inlineContent.getD []) offset (offset + clampedLen))
    | .inline, some buf =>
      let full ← setBytes (zeros effectiveSize) (i.inlineContent.getD []) 0
      let full ← setChunks o.chunkSize buf.dirtyChunks.entries full
      pure (slice full offset (offset + clampedLen))
    | .chunked, buf =>
      let startChunk := offset / o.chunkSize
      let endChunk := (offset + clampedLen - 1) / o.chunkSize
      preadChunks o ino offset clampedLen buf (endChunk + 1 - startChunk) startChunk
        (zeros clampedLen) 0

/-- A chunk as `pwrite` modifies it: the existing bytes, expanded to `writeEnd`. -/
def expandChunk (chunk : ByteArray8) (writeEnd : Nat) : VfsProg ByteArray8 :=
  if chunk.length < writeEnd then setBytes (zeros writeEnd) chunk 0 else pure chunk

/-- The unbuffered chunk loop of `pwrite`: `n` chunks from the `ci`-th on. -/
def pwriteChunks (o : ChunkedVfsOptions) (ino offset : Nat) (data : ByteArray8) :
    Nat → Nat → VfsProg PUnit
  | 0, _ => pure ⟨⟩
  | n + 1, ci => do
    let chunkStart := ci * o.chunkSize
    let writeStart := max offset chunkStart - chunkStart
    let dataStart := chunkStart - offset
    let writeEnd := min (offset + data.length) (chunkStart + o.chunkSize) - chunkStart
    let piece := slice data dataStart (dataStart + (writeEnd - writeStart))
    let key ← makeBlockKey o ino ci
    match ← read (·.metadata.getChunkKey ino ci) with
    | some existingKey =>
      let existing ← readBlock existingKey
      let chunk ← expandChunk existing writeEnd
      let chunk ← setBytes chunk piece writeStart
      -- a chunk that was not expanded is the stored array itself, modified in place
      if ¬ existing.length < writeEnd then writeBlock existingKey chunk
      writeBlock key chunk
    | none =>
      let chunk ← setBytes (zeros writeEnd) piece writeStart
      writeBlock key chunk
    updateMetadata (·.setChunkKey ino ci key)
    pwriteChunks o ino offset data n (ci + 1)

/-- `wb.dirtyChunks.set(ci, chunk)` after a buffered write to the chunk that was `existing`, and the
array of the block `key`: unless it was expanded it is that array still, modified in place. -/
def setDirty (ino ci : Nat) (key : Option BlockKey) (existing chunk : ByteArray8)
    (writeEnd : Nat) : VfsProg PUnit := do
  match key with
  | none => updateBuffer ino fun wb => { wb with dirtyChunks := wb.dirtyChunks.set ci chunk }
  | some key =>
    if existing.length < writeEnd then
      updateBuffer ino fun wb =>
        { wb with dirtyChunks := wb.dirtyChunks.set ci chunk, shared := wb.shared.delete ci }
    else
      writeBlock key chunk
      updateBuffer ino fun wb =>
        { wb with dirtyChunks := wb.dirtyChunks.set ci chunk, shared := wb.shared.set ci key }

/-- The buffered chunk loop of `pwrite`. -/
def pwriteDirty (o : ChunkedVfsOptions) (ino offset : Nat) (data : ByteArray8) :
    Nat → Nat → VfsProg PUnit
  | 0, _ => pure ⟨⟩
  | n + 1, ci => do
    let chunkStart := ci * o.chunkSize
    let writeStart := max offset chunkStart - chunkStart
    let dataStart := chunkStart - offset
    let writeEnd := min (offset + data.length) (chunkStart + o.chunkSize) - chunkStart
    let piece := slice data dataStart (dataStart + (writeEnd - writeStart))
    let wb ← read (·.buffer ino)
    match wb.dirtyChunks.get ci with
    | some existing =>
      let chunk ← expandChunk existing writeEnd
      let chunk ← setBytes chunk piece writeStart
      setDirty ino ci (wb.shared.get ci) existing chunk writeEnd
    | none =>
      match ← read (·.metadata.getChunkKey ino ci) with
      | some existingKey =>
        let existing ← readBlock existingKey
        let chunk ← expandChunk existing writeEnd
        let chunk ← setBytes chunk piece writeStart
        setDirty ino ci (some existingKey) existing chunk writeEnd
      | none =>
        let chunk ← setBytes (zeros writeEnd) piece writeStart
        setDirty ino ci none [] chunk writeEnd
    pwriteDirty o ino offset data n (ci + 1)

/-- The dirty chunks an inline content becomes when a buffered write promotes it. -/
def dirtyOfInline (o : ChunkedVfsOptions) (content : ByteArray8) :
    Nat → Nat → OMap Nat ByteArray8 → OMap Nat ByteArray8
  | 0, _, dirty => dirty
  | n + 1, i, dirty =>
    let start := i * o.chunkSize
    let stop := min (start + o.chunkSize) content.length
    dirtyOfInline o content n (i + 1) (dirty.set i (slice content start stop))

/-- `pwrite` of at least one byte, from the chunk loop on. -/
def pwriteChunked (o : ChunkedVfsOptions) (ino offset : Nat) (data : ByteArray8)
    (currentSize newSize now : Nat) : VfsProg PUnit := do
  let startChunk := offset / o.chunkSize
  let endChunk := (offset + data.length - 1) / o.chunkSize
  if o.writeBuffering then
    getOrCreateBuffer ino currentSize
    pwriteDirty o ino offset data (endChunk + 1 - startChunk) startChunk
    updateBuffer ino fun wb => { wb with bufferedSize := newSize }
  else
    pwriteChunks o ino offset data (endChunk + 1 - startChunk) startChunk
  updateInode ino fun i => { i with size := newSize, mtimeMs := now, ctimeMs := now }

/-- The promotion inside `pwrite`. -/
def pwritePromote (o : ChunkedVfsOptions) (ino : Nat) (i : InodeMeta) (currentSize : Nat) :
    VfsProg PUnit := do
  if o.writeBuffering then
    let inlineData := i.inlineContent.getD []
    getOrCreateBuffer ino currentSize
    updateBuffer ino fun wb => { wb with
      dirtyChunks :=
        dirtyOfInline o inlineData (numChunks inlineData.length o.chunkSize) 0 wb.dirtyChunks }
    updateInode ino fun i => { i with storageMode := .chunked, inlineContent := none }
  else
    promoteToChunked o ino i

def pwrite (o : ChunkedVfsOptions) (path : String) (offset : Nat) (data : ByteArray8) :
    VfsProg PUnit := do
  let ino ← resolveIno path
  if data.length = 0 then pure ⟨⟩
  else
    let i ← requireInode ino
    if i.type = .directory then
      throw (.kernelError .EISDIR ("illegal operation on a directory: '" ++ path ++ "'"))
    let buf ← read (·.writeBuffers.get ino)
    let currentSize := (buf.map (·.bufferedSize)).getD i.size
    let newSize := max currentSize (offset + data.length)
    let now ← dateNow o
    match i.storageMode with
    | .inline =>
      -- the buffered and the unbuffered branch do the same here
      if newSize ≤ o.inlineThreshold then
        let content ← setBytes (zeros newSize) (i.inlineContent.getD []) 0
        let content ← setBytes content data offset
        updateInode ino fun i => { i with
          inlineContent := some content, size := newSize, mtimeMs := now, ctimeMs := now }
      else
        pwritePromote o ino i currentSize
        pwriteChunked o ino offset data currentSize newSize now
    | .chunked => pwriteChunked o ino offset data currentSize newSize now

/-- The start of the shrinking half of `truncate`: the chunks from `startIndex` on go, with their
blocks when versioning is off. -/
def dropChunksFrom (o : ChunkedVfsOptions) (ino startIndex : Nat) : VfsProg PUnit := do
  let deletedKeys ← read fun v => (v.metadata.deleteChunksFrom ino startIndex).1
  updateMetadata fun m => (m.deleteChunksFrom ino startIndex).2
  if !o.versioning then deleteBlocks deletedKeys

/-- The chunk the new end falls into is cut to its first `lastChunkOffset` bytes. -/
def truncateLastChunk (o : ChunkedVfsOptions) (ino lastChunkIndex lastChunkOffset : Nat) :
    VfsProg PUnit := do
  match ← read (·.metadata.getChunkKey ino lastChunkIndex) with
  | none => pure ⟨⟩
  | some existingKey =>
    let existing ← readBlock existingKey
    if existing.length > lastChunkOffset then
      let newKey ← makeBlockKey o ino lastChunkIndex
      writeBlock newKey (slice existing 0 lastChunkOffset)
      updateMetadata (·.setChunkKey ino lastChunkIndex newKey)
    else pure ⟨⟩

/-- The shrinking half of `truncate` for a chunked file, at a positive length. -/
def truncateChunked (o : ChunkedVfsOptions) (ino length now : Nat) : VfsProg PUnit := do
  let lastChunkIndex := (length - 1) / o.chunkSize
  dropChunksFrom o ino (lastChunkIndex + 1)
  let lastChunkOffset := length % o.chunkSize
  if lastChunkOffset > 0 then truncateLastChunk o ino lastChunkIndex lastChunkOffset
  if length ≤ o.inlineThreshold then
    let chunkEntries ← read (·.metadata.getAllChunkKeys ino)
    let content ← setEntries o.chunkSize none chunkEntries (zeros length)
    demoteToInline o ino content
  updateInode ino fun i => { i with size := length, mtimeMs := now, ctimeMs := now }

def truncate (o : ChunkedVfsOptions) (path : String) (length : Nat) : VfsProg PUnit := do
  let ino ← resolveIno path
  let i ← requireInode ino
  if i.type = .directory then
    throw (.kernelError .EISDIR ("illegal operation on a directory: '" ++ path ++ "'"))
  let buf ← read (·.writeBuffers.get ino)
  let currentSize := (buf.map (·.bufferedSize)).getD i.size
  if length = currentSize then pure ⟨⟩
  else
    let now ← dateNow o
    -- buffered writes are flushed first, so that the rest works on the stored data
    if ((buf.map (·.dirtyChunks.size)).getD 0) > 0 then flushInode o ino
    update fun v => { v with writeBuffers := v.writeBuffers.delete ino }
    if length < currentSize then
      match i.storageMode with
      | .inline =>
        updateInode ino fun j => { j with
          inlineContent := some (if length = 0 then [] else slice (i.inlineContent.getD []) 0 length)
          size := length, mtimeMs := now, ctimeMs := now }
      | .chunked =>
        if length = 0 then
          dropAllChunks o ino
          updateInode ino fun i => { i with
            storageMode := .inline, inlineContent := some [], size := 0,
            mtimeMs := now, ctimeMs := now }
        else truncateChunked o ino length now
    else
      match i.storageMode with
      | .inline =>
        if length ≤ o.inlineThreshold then
          let content ← setBytes (zeros length) (i.inlineContent.getD []) 0
          updateInode ino fun i => { i with
            inlineContent := some content, size := length, mtimeMs := now, ctimeMs := now }
        else
          promoteToChunked o ino i
          updateInode ino fun i => { i with size := length, mtimeMs := now, ctimeMs := now }
      | .chunked =>
        -- the new range is a hole
        updateInode ino fun i => { i with size := length, mtimeMs := now, ctimeMs := now }

end Operations

end SecureExec.Vfs
