import SecureExec.Kernel.Types
import SecureExec.Lib.OMap

/-!
# Vfs — Stores — the metadata store and the block store

The two stores a ChunkedVFS is composed of: `packages/core/src/vfs/memory-metadata.ts` (inodes,
directory entries, symlink targets, the chunk map) and `packages/core/src/vfs/memory-block-store.ts`
(blocks by key).  A JavaScript `Map` nobody iterates over is a function to `Option`; the maps that
are iterated (a directory's entries, a file's chunks) are `OMap`s.

A block key `{ino}/{chunkIndex}` or `{ino}/{chunkIndex}/{randomId}` is kept as its parts.

Version snapshots (`versions`) are not modelled here.
-/

namespace SecureExec.Vfs
open SecureExec Function

/-! ### Paths -/

/-- `replace(/\/+/g, "/")`. -/
def collapseSlashes : List Char → List Char
  | [] => []
  | c :: t =>
    if c = '/' ∧ t.head? = some '/' then collapseSlashes t else c :: collapseSlashes t

/-- `normalizePath` of `chunked-vfs.ts`. -/
def normalizePath (path : String) : String :=
  if path = "" then "/"
  else
    let p := if path.toList.head? = some '/' then path.toList else '/' :: path.toList
    let p := collapseSlashes p
    if p.length > 1 ∧ p.getLast? = some '/' then String.ofList p.dropLast else String.ofList p

/-- `splitPath` of `chunked-vfs.ts`, and `splitPathComponents` of `memory-metadata.ts`. -/
def splitPath (path : String) : List String :=
  if path = "" ∨ path = "/" then []
  else
    let normalized := if path.toList.head? = some '/' then path.toList.tail else path.toList
    ((normalized.splitOn '/').filter (· ≠ [])).map String.ofList

/-! ### Inodes -/

inductive InodeType where
  | file | directory | symlink
  deriving DecidableEq

inductive StorageMode where
  | inline | chunked
  deriving DecidableEq

/-- `InodeMeta`. -/
structure InodeMeta where
  ino : Nat
  type : InodeType
  mode : Nat
  uid : Nat
  gid : Nat
  size : Nat
  nlink : Nat
  atimeMs : Nat
  mtimeMs : Nat
  ctimeMs : Nat
  birthtimeMs : Nat
  storageMode : StorageMode
  inlineContent : Option ByteArray8

/-- `CreateInodeAttrs`. -/
structure CreateInodeAttrs where
  type : InodeType
  mode : Nat
  uid : Nat
  gid : Nat
  symlinkTarget : Option String

def S_IFREG : Nat := 0o100000
def S_IFDIR : Nat := 0o040000
def S_IFLNK : Nat := 0o120000

structure DentryEntry where
  childIno : Nat
  type : InodeType

/-- A block key. -/
structure BlockKey where
  ino : Nat
  chunkIndex : Nat
  randomId : Option String
  deriving DecidableEq

/-! ### The metadata store -/

/-- `InMemoryMetadataStore`. -/
structure InMemoryMetadataStore where
  nextIno : Nat
  inodes : Nat → Option InodeMeta
  dentries : Nat → Option (OMap String DentryEntry)
  symlinkTargets : Nat → Option String
  chunks : Nat → Option (OMap Nat BlockKey)

namespace InMemoryMetadataStore

/-- The constructor: the root directory, inode 1. -/
def new (now : Nat) : InMemoryMetadataStore where
  nextIno := 2
  inodes := update (fun _ => none) 1 (some {
    ino := 1, type := .directory, mode := S_IFDIR ||| 0o755, uid := 0, gid := 0, size := 0,
    nlink := 2, atimeMs := now, mtimeMs := now, ctimeMs := now, birthtimeMs := now,
    storageMode := .inline, inlineContent := none })
  dentries := update (fun _ => none) 1 (some OMap.empty)
  symlinkTargets := fun _ => none
  chunks := fun _ => none

def createInode (m : InMemoryMetadataStore) (attrs : CreateInodeAttrs) (now : Nat) :
    Nat × InMemoryMetadataStore :=
  let ino := m.nextIno
  let mode := match attrs.type with
    | .file => attrs.mode ||| S_IFREG
    | .directory => attrs.mode ||| S_IFDIR
    | .symlink => attrs.mode ||| S_IFLNK
  (ino, { m with
    nextIno := ino + 1
    inodes := update m.inodes ino (some {
      ino := ino, type := attrs.type, mode := mode, uid := attrs.uid, gid := attrs.gid, size := 0,
      nlink := 0, atimeMs := now, mtimeMs := now, ctimeMs := now, birthtimeMs := now,
      storageMode := .inline, inlineContent := none })
    dentries :=
      if attrs.type = .directory then update m.dentries ino (some OMap.empty)
      else m.dentries
    symlinkTargets :=
      if attrs.type = .symlink ∧ attrs.symlinkTarget.isSome then
        update m.symlinkTargets ino attrs.symlinkTarget
      else m.symlinkTargets })

def getInode (m : InMemoryMetadataStore) (ino : Nat) : Option InodeMeta := m.inodes ino

/-- `updateInode`; the partial record is the update it makes. -/
def updateInode (m : InMemoryMetadataStore) (ino : Nat) (updates : InodeMeta → InodeMeta) :
    InMemoryMetadataStore :=
  match m.inodes ino with
  | none => m
  | some i => { m with inodes := update m.inodes ino (some (updates i)) }

def deleteInode (m : InMemoryMetadataStore) (ino : Nat) : InMemoryMetadataStore :=
  { m with
    inodes := update m.inodes ino none
    dentries := update m.dentries ino none
    symlinkTargets := update m.symlinkTargets ino none
    chunks := update m.chunks ino none }

/-! ### Directory entries -/

def lookup (m : InMemoryMetadataStore) (parentIno : Nat) (name : String) : Option Nat :=
  match m.dentries parentIno with
  | none => none
  | some dir => (dir.get name).map (·.childIno)

def createDentry (m : InMemoryMetadataStore) (parentIno : Nat) (name : String) (childIno : Nat)
    (type : InodeType) : Except Failure InMemoryMetadataStore :=
  let dir := (m.dentries parentIno).getD OMap.empty
  if dir.has name then
    .error (.kernelError .EEXIST ("'" ++ name ++ "' already exists in directory"))
  else
    .ok { m with
      dentries := update m.dentries parentIno (some (dir.set name ⟨childIno, type⟩)) }

def removeDentry (m : InMemoryMetadataStore) (parentIno : Nat) (name : String) :
    InMemoryMetadataStore :=
  match m.dentries parentIno with
  | none => m
  | some dir => { m with dentries := update m.dentries parentIno (some (dir.delete name)) }

def listDir (m : InMemoryMetadataStore) (parentIno : Nat) : List (String × DentryEntry) :=
  match m.dentries parentIno with
  | none => []
  | some dir => dir.entries

/-- `renameDentry`; the destination's map is read after the source's entry is gone from it. -/
def renameDentry (m : InMemoryMetadataStore) (srcParentIno : Nat) (srcName : String)
    (dstParentIno : Nat) (dstName : String) : InMemoryMetadataStore :=
  match m.dentries srcParentIno with
  | none => m
  | some srcDir =>
    match srcDir.get srcName with
    | none => m
    | some entry =>
      let dentries := update m.dentries srcParentIno (some (srcDir.delete srcName))
      { m with
        dentries := update dentries dstParentIno
          (some (((dentries dstParentIno).getD OMap.empty).set dstName entry)) }

/-! ### Path resolution -/

def SYMLOOP_MAX : Nat := 40

/-- One walk of `resolveComponentsCore` from `currentIno` over its components, of which `done` have
been resolved; `follow` resolves the components a symlink expands to, and is `none` at
`symlinkDepth = SYMLOOP_MAX`. -/
def walkComponents (m : InMemoryMetadataStore)
    (follow : Option (List String → Except Failure Nat)) :
    Nat → List String → List String → Except Failure Nat
  | currentIno, _, [] => .ok currentIno
  | currentIno, done, name :: rest =>
    match m.inodes currentIno with
    | none => .error (.kernelError .ENOENT ("no such file or directory: component '" ++ name ++ "'"))
    | some i =>
      if i.type ≠ .directory then
        .error (.kernelError .ENOENT ("no such file or directory: component '" ++ name ++ "'"))
      else
        match m.dentries currentIno with
        | none =>
          .error (.kernelError .ENOENT ("no such file or directory: component '" ++ name ++ "'"))
        | some dir =>
          match dir.get name with
          | none => .error (.kernelError .ENOENT ("no such file or directory: '" ++ name ++ "'"))
          | some entry =>
            match m.inodes entry.childIno with
            | some child =>
              if child.type = .symlink then
                match follow with
                | none => .error (.kernelError .ELOOP "too many levels of symbolic links")
                | some follow =>
                  match m.symlinkTargets entry.childIno with
                  | none => .error (.kernelError .ENOENT "dangling symlink")
                  | some target =>
                    if target = "" then .error (.kernelError .ENOENT "dangling symlink")
                    else if target.toList.head? = some '/' then follow (splitPath target ++ rest)
                    else follow (done ++ splitPath target ++ rest)
              else walkComponents m follow entry.childIno (done ++ [name]) rest
            | none => walkComponents m follow entry.childIno (done ++ [name]) rest

/-- `resolveComponentsCore` with `n = SYMLOOP_MAX - symlinkDepth` symlinks left to follow. -/
def resolveComponentsCore (m : InMemoryMetadataStore) : Nat → List String → Except Failure Nat
  | 0, components => m.walkComponents none 1 [] components
  | n + 1, components => m.walkComponents (some (m.resolveComponentsCore n)) 1 [] components

def resolvePath (m : InMemoryMetadataStore) (path : String) : Except Failure Nat :=
  m.resolveComponentsCore SYMLOOP_MAX (splitPath path)

def resolveParentPath (m : InMemoryMetadataStore) (path : String) :
    Except Failure (Nat × String) :=
  match (splitPath path).getLast? with
  | none => .error (.kernelError .ENOENT "cannot resolve parent of root")
  | some name =>
    match m.resolveComponentsCore SYMLOOP_MAX (splitPath path).dropLast with
    | .error e => .error e
    | .ok parentIno => .ok (parentIno, name)

def readSymlink (m : InMemoryMetadataStore) (ino : Nat) : Except Failure String :=
  match m.symlinkTargets ino with
  | none => .error (.kernelError .EINVAL ("inode " ++ toString ino ++ " is not a symlink"))
  | some target => .ok target

/-! ### The chunk map -/

def getChunkKey (m : InMemoryMetadataStore) (ino chunkIndex : Nat) : Option BlockKey :=
  (m.chunks ino).bind (·.get chunkIndex)

def setChunkKey (m : InMemoryMetadataStore) (ino chunkIndex : Nat) (key : BlockKey) :
    InMemoryMetadataStore :=
  { m with
    chunks := update m.chunks ino
      (some (((m.chunks ino).getD OMap.empty).set chunkIndex key)) }

/-- `getAllChunkKeys`: by ascending chunk index. -/
def getAllChunkKeys (m : InMemoryMetadataStore) (ino : Nat) : List (Nat × BlockKey) :=
  match m.chunks ino with
  | none => []
  | some map => map.entries.insertionSort (fun a b => a.1 ≤ b.1)

def deleteAllChunks (m : InMemoryMetadataStore) (ino : Nat) :
    List BlockKey × InMemoryMetadataStore :=
  match m.chunks ino with
  | none => ([], m)
  | some map => (map.values, { m with chunks := update m.chunks ino none })

def deleteChunksFrom (m : InMemoryMetadataStore) (ino startIndex : Nat) :
    List BlockKey × InMemoryMetadataStore :=
  match m.chunks ino with
  | none => ([], m)
  | some map =>
    ((map.filter (fun i _ => decide (startIndex ≤ i))).values,
      { m with
        chunks := update m.chunks ino
          (some (map.filter (fun i _ => !decide (startIndex ≤ i)))) })

end InMemoryMetadataStore

/-! ### The block store -/

/-- `InMemoryBlockStore`. -/
structure InMemoryBlockStore where
  blocks : BlockKey → Option ByteArray8

namespace InMemoryBlockStore

def new : InMemoryBlockStore := ⟨fun _ => none⟩

def keyString (key : BlockKey) : String :=
  toString key.ino ++ "/" ++ toString key.chunkIndex ++
    (match key.randomId with | none => "" | some r => "/" ++ r)

def read (b : InMemoryBlockStore) (key : BlockKey) : Except Failure ByteArray8 :=
  match b.blocks key with
  | none => .error (.kernelError .ENOENT ("block not found: " ++ keyString key))
  | some data => .ok data

def readRange (b : InMemoryBlockStore) (key : BlockKey) (offset length : Nat) :
    Except Failure ByteArray8 :=
  match b.blocks key with
  | none => .error (.kernelError .ENOENT ("block not found: " ++ keyString key))
  | some data =>
    -- a range beyond the block gives the bytes there are
    .ok ((data.take (min (offset + length) data.length)).drop offset)

def write (b : InMemoryBlockStore) (key : BlockKey) (data : ByteArray8) : InMemoryBlockStore :=
  ⟨update b.blocks key (some data)⟩

def delete (b : InMemoryBlockStore) (key : BlockKey) : InMemoryBlockStore :=
  ⟨update b.blocks key none⟩

def deleteMany (b : InMemoryBlockStore) (keys : List BlockKey) : InMemoryBlockStore :=
  keys.foldl delete b

def copy (b : InMemoryBlockStore) (srcKey dstKey : BlockKey) :
    Except Failure InMemoryBlockStore :=
  match b.blocks srcKey with
  | none => .error (.kernelError .ENOENT ("block not found: " ++ keyString srcKey))
  | some data => .ok (b.write dstKey data)

end InMemoryBlockStore

end SecureExec.Vfs
