import SecureExec.Lib.Prog
import SecureExec.Vfs.Stores

/-!
# Vfs — Sqlite — the metadata store over SQLite

`packages/core/src/vfs/sqlite-metadata.ts`: the tables of `initSchema`, each the list of its rows
in the order they were inserted, and the methods of the store as the statements they execute.  A
statement that would leave a row whose foreign key names no inode fails
(`foreignKeyFailed`), and the statements before it stay done.

A table without rows stands for one that `initSchema` did not create (`versions`, for a store
without versioning).  A block key is kept as its parts, and the `chunk_map` of a version as the
list it is the JSON of.

`FsMetadataStore` is the interface that this store and the one in memory implement.
-/

namespace SecureExec.Vfs
open SecureExec Prog

deriving instance DecidableEq for InodeMeta

/-- A row of `dentries`. -/
structure DentryRow where
  parentIno : Nat
  name : String
  childIno : Nat
  childType : InodeType
  deriving DecidableEq

/-- A row of `symlinks`. -/
structure SymlinkRow where
  ino : Nat
  target : String
  deriving DecidableEq

/-- A row of `chunks`. -/
structure ChunkRow where
  ino : Nat
  chunkIndex : Nat
  blockKey : BlockKey
  deriving DecidableEq

/-- A row of `versions`. -/
structure VersionRow where
  ino : Nat
  version : Nat
  size : Nat
  createdAt : Nat
  storageMode : StorageMode
  inlineContent : Option ByteArray8
  chunkMap : Option (List (Nat × BlockKey))
  deriving DecidableEq

/-- The tables. -/
structure SqliteTables where
  /-- The largest number `AUTOINCREMENT` has given to an inode. -/
  sequence : Nat
  inodes : List InodeMeta
  dentries : List DentryRow
  symlinks : List SymlinkRow
  chunks : List ChunkRow
  versions : List VersionRow
  deriving DecidableEq

/-- A `SqliteError`. -/
def foreignKeyFailed : Failure := .error "FOREIGN KEY constraint failed"

abbrev SqliteProg (α : Type) : Type := Prog Failure SqliteTables α

namespace SqliteTables

/-- The tables of a new database: the root directory, inode 1. -/
def new (now : Nat) : SqliteTables where
  sequence := 1
  inodes := [{
    ino := 1, type := .directory, mode := S_IFDIR ||| 0o755, uid := 0, gid := 0, size := 0,
    nlink := 2, atimeMs := now, mtimeMs := now, ctimeMs := now, birthtimeMs := now,
    storageMode := .inline, inlineContent := none }]
  dentries := []
  symlinks := []
  chunks := []
  versions := []

/-- `ino` is a key that a row may refer to. -/
def hasInode (t : SqliteTables) (ino : Nat) : Bool := t.inodes.any (·.ino = ino)

/-- A statement that is refused unless the foreign key is there. -/
def referring (ino : Nat) (f : SqliteTables → SqliteTables) : SqliteProg PUnit := do
  if ← read (·.hasInode ino) then update f else throw foreignKeyFailed

/-! ### Inodes -/

def createInode (attrs : CreateInodeAttrs) (now : Nat) : SqliteProg Nat := do
  let mode := match attrs.type with
    | .file => attrs.mode ||| S_IFREG
    | .directory => attrs.mode ||| S_IFDIR
    | .symlink => attrs.mode ||| S_IFLNK
  let ino ← read (·.sequence + 1)
  update fun t => { t with
    sequence := ino
    inodes := t.inodes ++ [{
      ino := ino, type := attrs.type, mode := mode, uid := attrs.uid, gid := attrs.gid, size := 0,
      nlink := 0, atimeMs := now, mtimeMs := now, ctimeMs := now, birthtimeMs := now,
      storageMode := .inline, inlineContent := none }] }
  match attrs.type, attrs.symlinkTarget with
  | .symlink, some target =>
    referring ino fun t => { t with symlinks := t.symlinks ++ [⟨ino, target⟩] }
    pure ino
  | _, _ => pure ino

def getInode (t : SqliteTables) (ino : Nat) : Option InodeMeta := t.inodes.find? (·.ino = ino)

/-- `updateInode`; the partial record is the update it makes. -/
def updateInode (ino : Nat) (updates : InodeMeta → InodeMeta) : SqliteProg PUnit :=
  update fun t =>
    { t with inodes := t.inodes.map fun i => if i.ino = ino then updates i else i }

/-- A row other than those of `deleteInode`'s first statements refers to the inode. -/
def referenced (t : SqliteTables) (ino : Nat) : Bool :=
  t.dentries.any (·.childIno = ino) || t.versions.any (·.ino = ino)

def deleteInode (ino : Nat) : SqliteProg PUnit := do
  update fun t => { t with chunks := t.chunks.filter (·.ino ≠ ino) }
  update fun t => { t with symlinks := t.symlinks.filter (·.ino ≠ ino) }
  update fun t => { t with dentries := t.dentries.filter (·.parentIno ≠ ino) }
  if ← read (·.referenced ino) then throw foreignKeyFailed
  else update fun t => { t with inodes := t.inodes.filter (·.ino ≠ ino) }

/-! ### Directory entries -/

/-- The row of an entry. -/
def dentry (t : SqliteTables) (parentIno : Nat) (name : String) : Option DentryRow :=
  t.dentries.find? fun d => d.parentIno = parentIno ∧ d.name = name

def lookup (t : SqliteTables) (parentIno : Nat) (name : String) : Option Nat :=
  (t.dentry parentIno name).map (·.childIno)

def createDentry (parentIno : Nat) (name : String) (childIno : Nat) (type : InodeType) :
    SqliteProg PUnit := do
  match ← read (·.lookup parentIno name) with
  | some _ => throw (.kernelError .EEXIST ("'" ++ name ++ "' already exists in directory"))
  | none =>
    if ← read (·.hasInode childIno) then
      referring parentIno fun t =>
        { t with dentries := t.dentries ++ [⟨parentIno, name, childIno, type⟩] }
    else throw foreignKeyFailed

def removeDentry (parentIno : Nat) (name : String) : SqliteProg PUnit :=
  update fun t =>
    { t with dentries := t.dentries.filter fun d => ¬(d.parentIno = parentIno ∧ d.name = name) }

def listDir (t : SqliteTables) (parentIno : Nat) : List (String × DentryEntry) :=
  (t.dentries.filter (·.parentIno = parentIno)).map fun d => (d.name, ⟨d.childIno, d.childType⟩)

/-- `renameDentry`: the destination's row goes, and the source's becomes it. -/
def renameDentry (srcParentIno : Nat) (srcName : String) (dstParentIno : Nat) (dstName : String) :
    SqliteProg PUnit := do
  removeDentry dstParentIno dstName
  match ← read (·.lookup srcParentIno srcName) with
  | none => pure ⟨⟩
  | some _ =>
    referring dstParentIno fun t => { t with
      dentries := t.dentries.map fun d =>
        if d.parentIno = srcParentIno ∧ d.name = srcName then
          { d with parentIno := dstParentIno, name := dstName }
        else d }

/-! ### Path resolution -/

def getSymlink (t : SqliteTables) (ino : Nat) : Option String :=
  (t.symlinks.find? (·.ino = ino)).map (·.target)

/-- One walk of `resolveComponents` from `currentIno` over its components, of which `done` have
been resolved; `follow` resolves the components a symlink expands to, and is `none` at
`symlinkDepth = SYMLOOP_MAX`. -/
def walkComponents (t : SqliteTables) (follow : Option (List String → Except Failure Nat)) :
    Nat → List String → List String → Except Failure Nat
  | currentIno, _, [] => .ok currentIno
  | currentIno, done, name :: rest =>
    match t.getInode currentIno with
    | none => .error (.kernelError .ENOENT ("no such file or directory: component '" ++ name ++ "'"))
    | some i =>
      if i.type ≠ .directory then
        .error (.kernelError .ENOENT ("no such file or directory: component '" ++ name ++ "'"))
      else
        match t.lookup currentIno name with
        | none => .error (.kernelError .ENOENT ("no such file or directory: '" ++ name ++ "'"))
        | some childIno =>
          match t.getInode childIno with
          | some child =>
            if child.type = .symlink then
              match follow with
              | none => .error (.kernelError .ELOOP "too many levels of symbolic links")
              | some follow =>
                match t.getSymlink childIno with
                | none => .error (.kernelError .ENOENT "dangling symlink")
                | some target =>
                  if target.toList.head? = some '/' then follow (splitPath target ++ rest)
                  else follow (done ++ splitPath target ++ rest)
            else walkComponents t follow childIno (done ++ [name]) rest
          | none => walkComponents t follow childIno (done ++ [name]) rest

/-- `resolveComponents` with `n = SYMLOOP_MAX - symlinkDepth` symlinks left to follow. -/
def resolveComponents (t : SqliteTables) : Nat → List String → Except Failure Nat
  | 0, components => t.walkComponents none 1 [] components
  | n + 1, components => t.walkComponents (some (t.resolveComponents n)) 1 [] components

def resolvePath (t : SqliteTables) (path : String) : Except Failure Nat :=
  t.resolveComponents InMemoryMetadataStore.SYMLOOP_MAX (splitPath path)

def resolveParentPath (t : SqliteTables) (path : String) : Except Failure (Nat × String) :=
  match (splitPath path).getLast? with
  | none => .error (.kernelError .ENOENT "cannot resolve parent of root")
  | some name =>
    match t.resolveComponents InMemoryMetadataStore.SYMLOOP_MAX (splitPath path).dropLast with
    | .error e => .error e
    | .ok parentIno => .ok (parentIno, name)

def readSymlink (t : SqliteTables) (ino : Nat) : Except Failure String :=
  match t.getSymlink ino with
  | none => .error (.kernelError .EINVAL ("inode " ++ toString ino ++ " is not a symlink"))
  | some target => .ok target

/-! ### The chunk map -/

def getChunkKey (t : SqliteTables) (ino chunkIndex : Nat) : Option BlockKey :=
  (t.chunks.find? fun c => c.ino = ino ∧ c.chunkIndex = chunkIndex).map (·.blockKey)

def setChunkKey (ino chunkIndex : Nat) (key : BlockKey) : SqliteProg PUnit :=
  referring ino fun t => { t with
    chunks := t.chunks.filter (fun c => ¬(c.ino = ino ∧ c.chunkIndex = chunkIndex)) ++
      [⟨ino, chunkIndex, key⟩] }

/-- `getAllChunkKeys`: by ascending chunk index. -/
def getAllChunkKeys (t : SqliteTables) (ino : Nat) : List (Nat × BlockKey) :=
  ((t.chunks.filter (·.ino = ino)).map fun c => (c.chunkIndex, c.blockKey)).insertionSort
    (fun a b => a.1 ≤ b.1)

def deleteAllChunks (ino : Nat) : SqliteProg (List BlockKey) := do
  let keys ← read fun t => (t.chunks.filter (·.ino = ino)).map (·.blockKey)
  update fun t => { t with chunks := t.chunks.filter (·.ino ≠ ino) }
  pure keys

def deleteChunksFrom (ino startIndex : Nat) : SqliteProg (List BlockKey) := do
  let keys ← read fun t =>
    (t.chunks.filter fun c => c.ino = ino ∧ c.chunkIndex ≥ startIndex).map (·.blockKey)
  update fun t =>
    { t with chunks := t.chunks.filter fun c => ¬(c.ino = ino ∧ c.chunkIndex ≥ startIndex) }
  pure keys

end SqliteTables

/-! ### The interface -/

/-- `FsMetadataStore` of `types.ts`. -/
class FsMetadataStore (M : Type) where
  createInode (attrs : CreateInodeAttrs) (now : Nat) : Prog Failure M Nat
  getInode (m : M) (ino : Nat) : Option InodeMeta
  updateInode (ino : Nat) (updates : InodeMeta → InodeMeta) : Prog Failure M PUnit
  deleteInode (ino : Nat) : Prog Failure M PUnit
  lookup (m : M) (parentIno : Nat) (name : String) : Option Nat
  createDentry (parentIno : Nat) (name : String) (childIno : Nat) (type : InodeType) :
    Prog Failure M PUnit
  removeDentry (parentIno : Nat) (name : String) : Prog Failure M PUnit
  listDir (m : M) (parentIno : Nat) : List (String × DentryEntry)
  renameDentry (srcParentIno : Nat) (srcName : String) (dstParentIno : Nat) (dstName : String) :
    Prog Failure M PUnit
  resolvePath (m : M) (path : String) : Except Failure Nat
  resolveParentPath (m : M) (path : String) : Except Failure (Nat × String)
  readSymlink (m : M) (ino : Nat) : Except Failure String
  getChunkKey (m : M) (ino chunkIndex : Nat) : Option BlockKey
  setChunkKey (ino chunkIndex : Nat) (key : BlockKey) : Prog Failure M PUnit
  getAllChunkKeys (m : M) (ino : Nat) : List (Nat × BlockKey)
  deleteAllChunks (ino : Nat) : Prog Failure M (List BlockKey)
  deleteChunksFrom (ino startIndex : Nat) : Prog Failure M (List BlockKey)

instance : FsMetadataStore SqliteTables where
  createInode := SqliteTables.createInode
  getInode := SqliteTables.getInode
  updateInode := SqliteTables.updateInode
  deleteInode := SqliteTables.deleteInode
  lookup := SqliteTables.lookup
  createDentry := SqliteTables.createDentry
  removeDentry := SqliteTables.removeDentry
  listDir := SqliteTables.listDir
  renameDentry := SqliteTables.renameDentry
  resolvePath := SqliteTables.resolvePath
  resolveParentPath := SqliteTables.resolveParentPath
  readSymlink := SqliteTables.readSymlink
  getChunkKey := SqliteTables.getChunkKey
  setChunkKey := SqliteTables.setChunkKey
  getAllChunkKeys := SqliteTables.getAllChunkKeys
  deleteAllChunks := SqliteTables.deleteAllChunks
  deleteChunksFrom := SqliteTables.deleteChunksFrom

end SecureExec.Vfs
