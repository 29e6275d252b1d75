import SecureExec.Lib.Coro
import SecureExec.Vfs.Chunked

/-!
# Vfs — Async — the writes of the ChunkedVFS with their awaits

The writes of `Vfs.Chunked` as they run beside others: a call of a store is made at once and
its outcome is seen after a pause (`await`), a statement that awaits nothing belongs to the turn it
stands in, and `mutex.acquire(ino)` takes the lock `ino`.  Two pauses with nothing in between are
one.

`run_writeFile`: a write that runs alone is the one of `Vfs.Chunked`.
-/

namespace SecureExec.Vfs
open SecureExec Bytes Prog

/-- A program of the ChunkedVFS that pauses; its locks are inode numbers. -/
abbrev VfsTask (α : Type) : Type := Coro Failure ChunkedVfs Nat α

namespace Async
open Coro (await yield withLock)

/-- A look at the state within a turn. -/
def look {α : Type} (f : ChunkedVfs → α) : VfsTask α := Coro.ofProg (read f)

/-! ### Write buffers -/

/-- `writeBuffers.delete(ino)`. -/
def dropBuffer (ino : Nat) : VfsProg PUnit :=
  update fun v => { v with writeBuffers := v.writeBuffers.delete ino }

/-- The loop of `flushInode`. -/
def flushChunks (o : ChunkedVfsOptions) (ino : Nat) : List (Nat × ByteArray8) → VfsTask PUnit
  | [] => pure ⟨⟩
  | (ci, chunk) :: l => do
    let key ← makeBlockKey o ino ci
    await (writeBlock key chunk)
    await (updateMetadata (·.setChunkKey ino ci key))
    flushChunks o ino l

def flushInode (o : ChunkedVfsOptions) (ino : Nat) : VfsTask PUnit := do
  match ← look (·.writeBuffers.get ino) with
  | none => yield
  | some buf =>
    if buf.dirtyChunks.size = 0 then yield
    else
      flushChunks o ino buf.dirtyChunks.entries
      updateBuffer ino fun wb => { wb with dirtyChunks := .empty, shared := .empty }
      yield

/-- The loop of `flushAll`. -/
def flushEach (o : ChunkedVfsOptions) : List Nat → VfsTask PUnit
  | [] => pure ⟨⟩
  | ino :: inos => do
    withLock ino (flushInode o ino)
    flushEach o inos

/-- `flushAll`, which the auto-flush timer starts. -/
def flushAll (o : ChunkedVfsOptions) : VfsTask PUnit := do
  let inos ← look (·.writeBuffers.keys)
  flushEach o inos

def fsync (o : ChunkedVfsOptions) (path : String) : VfsTask PUnit :=
  if o.writeBuffering then do
    -- a file that is not there any more is no error
    match ← await (read fun v => v.metadata.resolvePath (normalizePath path)) with
    | .error _ => pure ⟨⟩
    | .ok ino => withLock ino (flushInode o ino)
  else pure ⟨⟩

/-! ### Inodes -/

/-- `metadata.createInode`. -/
def createInode (o : ChunkedVfsOptions) (attrs : CreateInodeAttrs) : VfsProg Nat := do
  let now ← dateNow o
  let ino ← read fun v => (v.metadata.createInode attrs now).1
  updateMetadata fun m => (m.createInode attrs now).2
  pure ino

/-- `metadata.createDentry`. -/
def createDentry (parentIno : Nat) (name : String) (childIno : Nat) (type : InodeType) :
    VfsProg PUnit := do
  let m ← lift ((← read (·.metadata)).createDentry parentIno name childIno type)
  updateMetadata fun _ => m

/-- A directory is made: the inode, its entry, its link count and its parent's. -/
def makeDirectory (o : ChunkedVfsOptions) (parentIno : Nat) (name : String) : VfsTask Nat := do
  let dirIno ← await (createInode o ⟨.directory, 0o755, 0, 0, none⟩)
  await (createDentry parentIno name dirIno .directory)
  await (updateInode dirIno fun i => { i with nlink := 2, size := 4096 })
  match ← await (read (·.metadata.getInode parentIno)) with
  | some parent =>
    await (updateInode parentIno fun i => { i with nlink := parent.nlink + 1 })
    pure dirIno
  | none => pure dirIno

/-- The loop of `ensureParents`, over the components before the last. -/
def ensureParentsLoop (o : ChunkedVfsOptions) : Nat → List String → VfsTask Nat
  | currentIno, [] => do
    yield
    pure currentIno
  | currentIno, component :: rest => do
    match ← await (read (·.metadata.lookup currentIno component)) with
    | some childIno => ensureParentsLoop o childIno rest
    | none =>
      let dirIno ← makeDirectory o currentIno component
      ensureParentsLoop o dirIno rest

def ensureParents (o : ChunkedVfsOptions) (path : String) : VfsTask (Nat × String) :=
  let parts := splitPath (normalizePath path)
  match parts.getLast? with
  | none => throw (.kernelError .ENOENT "cannot resolve parent of root")
  | some name => do
    let parentIno ← ensureParentsLoop o 1 parts.dropLast
    pure (parentIno, name)

/-! ### File content -/

/-- `deleteAllChunks`, and the blocks it names when versioning is off. -/
def dropAllChunks (o : ChunkedVfsOptions) (ino : Nat) : VfsTask PUnit := do
  let keys ← await do
    let keys ← read fun v => (v.metadata.deleteAllChunks ino).1
    updateMetadata fun m => (m.deleteAllChunks ino).2
    pure keys
  if !o.versioning then await (deleteBlocks keys)

/-- The loop that cuts a content into chunks. -/
def writeChunks (o : ChunkedVfsOptions) (ino : Nat) (content : ByteArray8) :
    Nat → Nat → VfsTask PUnit
  | 0, _ => pure ⟨⟩
  | n + 1, i => do
    let start := i * o.chunkSize
    let stop := min (start + o.chunkSize) content.length
    let key ← makeBlockKey o ino i
    await (writeBlock key (slice content start stop))
    await (updateMetadata (·.setChunkKey ino i key))
    writeChunks o ino content n (i + 1)

def writeInodeContent (o : ChunkedVfsOptions) (ino : Nat) (content : ByteArray8)
    (i : InodeMeta) : VfsTask PUnit := do
  let now ← dateNow o
  if i.storageMode = .chunked then dropAllChunks o ino
  if content.length ≤ o.inlineThreshold then
    await (updateInode ino fun i => { i with
      storageMode := .inline, inlineContent := some content, size := content.length,
      mtimeMs := now, ctimeMs := now })
  else
    writeChunks o ino content (numChunks content.length o.chunkSize) 0
    await (updateInode ino fun i => { i with
      storageMode := .chunked, inlineContent := none, size := content.length,
      mtimeMs := now, ctimeMs := now })

/-! ### Core operations -/

/-- What `writeFile` does to an entry that is there, under the inode's lock. -/
def writeExisting (o : ChunkedVfsOptions) (existingIno : Nat) (data : ByteArray8) :
    VfsTask PUnit := do
  let i ← await (requireInode existingIno)
  dropBuffer existingIno
  writeInodeContent o existingIno data i
  await (updateInode existingIno fun j => { j with nlink := max i.nlink 1 })

/-- `writeFile` on an entry that is not there. -/
def writeNew (o : ChunkedVfsOptions) (parentIno : Nat) (name : String) (data : ByteArray8) :
    VfsTask PUnit := do
  let newIno ← await (createInode o ⟨.file, 0o644, 0, 0, none⟩)
  await (createDentry parentIno name newIno .file)
  await (updateInode newIno fun i => { i with nlink := 1 })
  let newMeta ← await (requireInode newIno)
  writeInodeContent o newIno data newMeta

def writeFile (o : ChunkedVfsOptions) (path : String) (data : ByteArray8) : VfsTask PUnit := do
  let (parentIno, name) ← ensureParents o path
  match ← await (read (·.metadata.lookup parentIno name)) with
  | some existingIno => withLock existingIno (writeExisting o existingIno data)
  | none => writeNew o parentIno name data

/-! ### Running alone -/

variable {o : ChunkedVfsOptions}

@[simp] theorem run_look {α : Type} (f : ChunkedVfs → α) : (look f).run = read f :=
  Coro.run_ofProg _

variable (ino : Nat)

@[simp] theorem run_flushChunks (l : List (Nat × ByteArray8)) :
    (flushChunks o ino l).run = Vfs.flushChunks o ino l := by
  induction l with
  | nil => rfl
  | cons e l ih => simp [flushChunks, Vfs.flushChunks, ih]

@[simp] theorem run_flushInode : (flushInode o ino).run = Vfs.flushInode o ino := by
  unfold flushInode Vfs.flushInode
  simp only [Coro.run_bind, run_look]
  refine bind_congr fun buf => ?_
  cases buf with
  | none => rfl
  | some buf => simp

@[simp] theorem run_ensureParentsLoop (l : List String) :
    ∀ cur, (ensureParentsLoop o cur l).run = Vfs.ensureParentsLoop o cur l := by
  induction l with
  | nil => exact fun _ => rfl
  | cons component rest ih =>
      intro cur
      unfold ensureParentsLoop Vfs.ensureParentsLoop
      simp only [Coro.run_bind, Coro.run_await]
      refine bind_congr fun child => ?_
      cases child with
      | some child => exact ih child
      | none =>
          simp only [makeDirectory, createInode, createDentry, Coro.run_bind, Coro.run_await,
            bind_assoc, pure_bind, ih]
          refine bind_congr fun now => bind_congr fun dirIno => bind_congr fun _ =>
            bind_congr fun _ => bind_congr fun _ => bind_congr fun _ => bind_congr fun _ =>
            bind_congr fun parent => ?_
          cases parent <;> simp

@[simp] theorem run_ensureParents (path : String) :
    (ensureParents o path).run = Vfs.ensureParents o path := by
  unfold ensureParents Vfs.ensureParents
  cases h : (splitPath (normalizePath path)).getLast? <;> simp [h]

theorem within_setBytes (base data : ByteArray8) (off : Nat) :
    Within Eq (setBytes base data off) := by
  unfold setBytes
  split
  · exact .pure _
  · exact .throw _

theorem within_readBlock (key : BlockKey) : Within Eq (readBlock key) :=
  Within.bind (.read _) fun _ => .lift _

/-- The chunk loops that read change nothing. -/
theorem within_setEntries (chunkSize : Nat) (buf : Option InodeWriteBuffer)
    (l : List (Nat × BlockKey)) : ∀ r, Within Eq (Vfs.setEntries chunkSize buf l r) := by
  induction l with
  | nil => exact fun r => .pure r
  | cons e l ih =>
      intro r
      refine .ite (ih r) (.bind (within_readBlock _) fun data => ?_)
      exact .bind (within_setBytes _ _ _) ih

@[simp] theorem run_dropAllChunks :
    (dropAllChunks o ino).run = Vfs.dropAllChunks o ino := by
  simp [dropAllChunks, Vfs.dropAllChunks]

variable (content : ByteArray8)

@[simp] theorem run_writeChunks (n : Nat) :
    ∀ i, (writeChunks o ino content n i).run = Vfs.writeChunks o ino content n i := by
  induction n with
  | zero => exact fun _ => rfl
  | succ n ih =>
      intro i
      simp [writeChunks, Vfs.writeChunks, ih]

@[simp] theorem run_writeInodeContent (i : InodeMeta) :
    (writeInodeContent o ino content i).run = Vfs.writeInodeContent o ino content i := by
  simp [writeInodeContent, Vfs.writeInodeContent]

@[simp] theorem run_writeExisting (data : ByteArray8) :
    (writeExisting o ino data).run = Vfs.writeExisting o ino data := by
  simp [writeExisting, Vfs.writeExisting, dropBuffer]

@[simp] theorem run_writeNew (parentIno : Nat) (name : String) (data : ByteArray8) :
    (writeNew o parentIno name data).run = Vfs.writeNew o parentIno name data := by
  simp [writeNew, Vfs.writeNew, createInode, createDentry]

@[simp] theorem run_writeFile (path : String) (data : ByteArray8) :
    (writeFile o path data).run = Vfs.writeFile o path data := by
  unfold writeFile Vfs.writeFile
  simp only [Coro.run_bind, run_ensureParents, Coro.run_await]
  refine bind_congr fun r => bind_congr fun ino => ?_
  cases ino <;> simp

end Async

end SecureExec.Vfs
