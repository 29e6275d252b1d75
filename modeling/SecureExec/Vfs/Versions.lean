import SecureExec.Vfs.Refinement

/-!
# Vfs — Versions — the versioning API

`packages/core/src/vfs/memory-metadata.ts` keeps, for each inode, the records of its versions: its
size, where it stores its content, and the keys of its blocks.  `createVersion`, `listVersions`,
`restoreVersion` and `pruneVersions` of `packages/core/src/vfs/chunked-vfs.ts` are the API that a
ChunkedVFS has over them when versioning is on.

The records stand beside the rest of the state (`VersionedVfs`); the operations on files do not look
at them (`onVfs`).
-/

namespace SecureExec.Vfs
open SecureExec Prog

/-- A version of an inode. -/
structure VersionRecord where
  version : Nat
  size : Nat
  createdAt : Nat
  storageMode : StorageMode
  inlineContent : Option ByteArray8
  chunkMap : List (Nat × BlockKey)

/-- The part of a record that `listVersions` of the store gives. -/
structure VersionMeta where
  version : Nat
  size : Nat
  createdAt : Nat
  storageMode : StorageMode
  inlineContent : Option ByteArray8

structure VersionInfo where
  version : Nat
  size : Nat
  createdAt : Nat
  deriving DecidableEq

inductive RetentionPolicy where
  | count (keep : Int)
  | age (maxAgeMs : Int)
  | deferred

/-- A ChunkedVFS over a metadata store that keeps versions. -/
structure VersionedVfs where
  vfs : ChunkedVfs
  versioningEnabled : Bool
  versions : Nat → Option (List VersionRecord)

namespace VersionedVfs

/-- A new one, over a store made with `{ versioning: true }`. -/
def new (now : Nat) : VersionedVfs where
  vfs := createChunkedVfs now
  versioningEnabled := true
  versions := fun _ => none

/-- `versions.get(ino) ?? []`. -/
def records (w : VersionedVfs) (ino : Nat) : List VersionRecord := (w.versions ino).getD []

end VersionedVfs

abbrev VersionedProg (α : Type) : Type := Prog Failure VersionedVfs α

variable {α : Type}

/-- A program that does not look at the versions. -/
def onVfs (p : VfsProg α) : VersionedProg α :=
  p.zoom VersionedVfs.vfs fun v w => { w with vfs := v }

/-! ### The store -/

namespace InMemoryMetadataStore

/-- The keys of the current chunk map. -/
def currentKeys (m : InMemoryMetadataStore) (ino : Nat) : List BlockKey :=
  ((m.chunks ino).map (·.values)).getD []

/-- The chunk map that `restoreVersion` leaves. -/
def restoreChunks (m : InMemoryMetadataStore) (ino : Nat) (chunkMap : List (Nat × BlockKey)) :
    InMemoryMetadataStore :=
  { m with
    chunks := Function.update m.chunks ino <|
      if chunkMap.length > 0 then
        some (chunkMap.foldl (fun map e => map.set e.1 e.2) OMap.empty)
      else none }

end InMemoryMetadataStore

namespace Store

def requireVersioning : VersionedProg PUnit := do
  if !(← read (·.versioningEnabled)) then throw (.error "versioning is not enabled")

def createVersion (o : ChunkedVfsOptions) (ino : Nat) : VersionedProg Nat := do
  requireVersioning
  match ← read (·.vfs.metadata.getInode ino) with
  | none => throw (.kernelError .ENOENT ("inode " ++ toString ino ++ " not found"))
  | some i =>
    let records ← read (·.records ino)
    let version := match records.getLast? with
      | some record => record.version + 1
      | none => 1
    let chunkMap ← read (·.vfs.metadata.getAllChunkKeys ino)
    let createdAt ← onVfs (dateNow o)
    let record : VersionRecord :=
      ⟨version, i.size, createdAt, i.storageMode, i.inlineContent, chunkMap⟩
    update fun w =>
      { w with versions := Function.update w.versions ino (some (records ++ [record])) }
    pure version

def listVersions (ino : Nat) : VersionedProg (List VersionMeta) := do
  requireVersioning
  let records ← read (·.records ino)
  pure (records.map fun r => ⟨r.version, r.size, r.createdAt, r.storageMode, r.inlineContent⟩).reverse

/-- The keys of the records that go, without those a record that stays or the chunk map names. -/
def orphanedKeys (deleted remaining : List VersionRecord) (current : List BlockKey) :
    List BlockKey :=
  let deletedBlockKeys := (deleted.flatMap fun r => r.chunkMap.map Prod.snd).eraseDups
  let referencedKeys := (remaining.flatMap fun r => r.chunkMap.map Prod.snd) ++ current
  deletedBlockKeys.filter (· ∉ referencedKeys)

def deleteVersions (ino : Nat) (versions : List Nat) : VersionedProg (List BlockKey) := do
  requireVersioning
  if versions.length = 0 then pure []
  else
    match ← read (·.versions ino) with
    | none => pure []
    | some records =>
      let deleted := records.filter (·.version ∈ versions)
      let remaining := records.filter (·.version ∉ versions)
      update fun w => { w with versions := Function.update w.versions ino (some remaining) }
      pure (orphanedKeys deleted remaining (← read (·.vfs.metadata.currentKeys ino)))

def restoreVersion (o : ChunkedVfsOptions) (ino version : Nat) : VersionedProg PUnit := do
  requireVersioning
  match (← read (·.records ino)).find? (·.version = version) with
  | none =>
    throw (.kernelError .ENOENT
      ("version " ++ toString version ++ " not found for inode " ++ toString ino))
  | some record =>
    onVfs (updateMetadata (·.restoreChunks ino record.chunkMap))
    match ← read (·.vfs.metadata.getInode ino) with
    | none => pure ⟨⟩
    | some _ =>
      let mtime ← onVfs (dateNow o)
      let ctime ← onVfs (dateNow o)
      onVfs <| updateInode ino fun i => { i with
        size := record.size, storageMode := record.storageMode
        inlineContent := record.inlineContent, mtimeMs := mtime, ctimeMs := ctime }

end Store

/-! ### The API -/

namespace Versioning

def createVersion (o : ChunkedVfsOptions) (path : String) : VersionedProg Nat := do
  let ino ← onVfs (resolveIno path)
  if o.writeBuffering then onVfs (flushInode o ino)
  Store.createVersion o ino

def listVersions (path : String) : VersionedProg (List VersionInfo) := do
  let ino ← onVfs (resolveIno path)
  let versions ← Store.listVersions ino
  pure (versions.map fun r => ⟨r.version, r.size, r.createdAt⟩)

def restoreVersion (o : ChunkedVfsOptions) (path : String) (version : Nat) :
    VersionedProg PUnit := do
  let ino ← onVfs (resolveIno path)
  onVfs (Async.dropBuffer ino)
  Store.restoreVersion o ino version

/-- `array.slice(start)`, which counts a negative start from the end. -/
def sliceFrom (l : List α) (start : Int) : List α :=
  if start < 0 then l.drop (l.length - start.natAbs) else l.drop start.toNat

/-- What `pruneVersions` prunes, newest version first. -/
def toPrune (o : ChunkedVfsOptions) (allVersions : List VersionMeta) :
    RetentionPolicy → VersionedProg (List Nat)
  | .count keep =>
    if allVersions.length ≤ keep then pure []
    else pure ((sliceFrom allVersions keep).map (·.version))
  | .age maxAgeMs => do
    let cutoff := (← onVfs (dateNow o)) - maxAgeMs
    pure ((allVersions.filter fun v => v.createdAt < cutoff).map (·.version))
  | .deferred => pure (allVersions.map (·.version))

def pruneVersions (o : ChunkedVfsOptions) (path : String) (policy : RetentionPolicy) :
    VersionedProg Nat := do
  let ino ← onVfs (resolveIno path)
  let allVersions ← Store.listVersions ino
  if allVersions.length = 0 then pure 0
  else
    let pruned ← toPrune o allVersions policy
    if pruned.length = 0 then pure 0
    else
      let orphanedKeys ← Store.deleteVersions ino pruned
      -- a deferred prune leaves the blocks to the block store
      match policy with
      | .deferred => pure ⟨⟩
      | _ => onVfs (deleteBlocks orphanedKeys)
      pure pruned.length

end Versioning

/-! ### Calls -/

/-- A call on one path: an operation on the file, a flush, or a call of the versioning API. -/
inductive VersionCall where
  | file (op : FileOp)
  | fsync
  | flushAll
  | createVersion
  | listVersions
  | restoreVersion (version : Nat)
  | pruneVersions (policy : RetentionPolicy)

/-- The call, without its answer. -/
def VersionCall.run (o : ChunkedVfsOptions) (path : String) : VersionCall → VersionedProg PUnit
  | .file op => do let _ ← onVfs (op.run o path)
  | .fsync => onVfs (Async.fsync o path).run
  | .flushAll => onVfs (Async.flushAll o).run
  | .createVersion => do let _ ← Versioning.createVersion o path
  | .listVersions => do let _ ← Versioning.listVersions path
  | .restoreVersion version => Versioning.restoreVersion o path version
  | .pruneVersions policy => do let _ ← Versioning.pruneVersions o path policy

/-- One call, awaited; it may fail. -/
def versionStep (o : ChunkedVfsOptions) (w : VersionedVfs) (call : String × VersionCall) :
    Option VersionedVfs :=
  some ((call.2.run o call.1).exec w).2

end SecureExec.Vfs
