import SecureExec.Kernel.Wrapper
import SecureExec.Node.Paths

/-!
# Node — ModuleAccess — host packages laid over a file system

`ModuleAccessFileSystem` of `module-access.ts`.  Sandbox paths under `/root/node_modules`, and paths
that are below an allowed root of the host, are served from the host; every other path from the base
file system.  Each member decides for itself.

What Node's `fs` offers is `HostFs`, over any state of the host; what of it is asked to open, list or
look at a file is kept in `World.asked`.
-/

namespace ModuleAccess
open SecureExec Shared Prog NodePath Kernel
open Vfs (VirtualStat)

/-! ### The host -/

structure Dirent where
  name : String
  isDirectory : Bool
  isSymbolicLink : Bool
  deriving DecidableEq

/-- `node:fs`, `process.cwd()`, `Date.now()` and `localeCompare`. -/
structure HostFs (σ : Type) where
  cwd : String
  localeLe : String → String → Bool
  now : σ → Nat
  existsSync : σ → String → Bool
  realpath : σ → String → Except SystemError String
  readdir : σ → String → Except SystemError (List Dirent)
  readFile : σ → String → Except SystemError ByteArray8
  readTextFile : σ → String → Except SystemError String
  stat : σ → String → Except SystemError VirtualStat
  lstat : σ → String → Except SystemError VirtualStat
  /-- Open for reading, read, close. -/
  read (h : σ) (path : String) (offset length : Nat) : Except SystemError ByteArray8
  /-- Open with `r+`, write, close. -/
  write (path : String) (offset : Nat) (data : ByteArray8) : Prog SystemError σ PUnit

inductive HostAccess where
  | readFile (path : String)
  | readdir (path : String)
  | stat (path : String)
  | lstat (path : String)
  | read (path : String)
  | write (path : String)
  deriving DecidableEq

structure World (σ β : Type) where
  host : σ
  asked : List HostAccess
  base : β

/-! ### Errors -/

def createEnoentError (syscall targetPath : String) : SystemError where
  code := "ENOENT"
  message := "ENOENT: no such file or directory, " ++ syscall ++ " '" ++ targetPath ++ "'"
  path := some targetPath
  syscall := some syscall

def createModuleAccessError (code message : String) : SystemError :=
  ⟨code, code ++ ": " ++ message, none, none⟩

def MODULE_ACCESS_OUT_OF_SCOPE : String := "ERR_MODULE_ACCESS_OUT_OF_SCOPE"
def MODULE_ACCESS_NATIVE_ADDON : String := "ERR_MODULE_ACCESS_NATIVE_ADDON"

def nativeAddon (virtualPath : String) : SystemError :=
  createModuleAccessError MODULE_ACCESS_NATIVE_ADDON
    ("native addon '" ++ virtualPath ++ "' is not supported for module overlay")

def outOfScope (virtualPath : String) : SystemError :=
  createModuleAccessError MODULE_ACCESS_OUT_OF_SCOPE
    ("resolved path for '" ++ virtualPath ++ "' escapes allowed overlay roots")

/-! ### Sandbox paths -/

def SANDBOX_APP_ROOT : String := "/root"
def SANDBOX_NODE_MODULES_ROOT : String := SANDBOX_APP_ROOT ++ "/node_modules"

def VIRTUAL_DIR_MODE : Nat := 0o040755

def toVirtualPath (value : String) : String :=
  if value = "" ∨ value = "." then "/"
  else
    let normalized := normalize (if startsWith value "/" then value else "/" ++ value)
    if normalized.length > 1 ∧ normalized.toList.getLast? = some '/' then
      String.ofList normalized.toList.dropLast
    else normalized

def normalizeOverlayPath (pathValue : String) : String := toVirtualPath pathValue

def startsWithPath (value pre : String) : Bool :=
  value = pre ∨ startsWith value (pre ++ "/")

def isNativeAddonPath (pathValue : String) : Bool :=
  ".node".toList.isSuffixOf pathValue.toList

def shouldMergeBase (pathValue : String) : Bool :=
  pathValue = "/" ∨ pathValue = SANDBOX_APP_ROOT ∨
    ¬ startsWithPath pathValue SANDBOX_NODE_MODULES_ROOT

def createVirtualDirStat (now : Nat) : VirtualStat where
  mode := VIRTUAL_DIR_MODE
  size := 4096
  isDirectory := true
  isSymbolicLink := false
  atimeMs := now
  mtimeMs := now
  ctimeMs := now
  birthtimeMs := now
  ino := 0
  nlink := 2
  uid := 0
  gid := 0

/-! ### The configuration -/

structure PackageRootMapping where
  hostPath : String
  vmPath : String
  deriving DecidableEq

/-- The fields of the object; nothing changes them after the constructor. -/
structure ModuleAccessFileSystem (σ β : Type) where
  fs : HostFs σ
  baseFileSystem : Option (VirtualFileSystem SystemError β)
  configuredNodeModulesRoot : String
  hostNodeModulesRoot : Option String
  overlayAllowedRoots : List String
  packageRoots : List PackageRootMapping

/-! ### The constructor -/

def MODULE_ACCESS_INVALID_CONFIG : String := "ERR_MODULE_ACCESS_INVALID_CONFIG"

structure ModuleAccessOptions where
  cwd : Option String
  packageRoots : List PackageRootMapping

/-- A set, or an array that is pushed to when it does not addRoot the value. -/
def addRoot (roots : List String) (root : String) : List String :=
  if root ∈ roots then roots else roots ++ [root]

/-- `findNearestNodeModulesAncestor`, over the components of the path, the last one first. -/
def nearestNodeModules : List (List Char) → Option String
  | [] => none
  | name :: above =>
    if name = "node_modules".toList then some (ofSteps (name :: above).reverse)
    else nearestNodeModules above

/-- The two sets that a scan adds to. -/
structure Scan where
  roots : List String
  scannedSymlinkDirs : List String

section Collect
variable {σ : Type} (fs : HostFs σ) (host : σ)

/-- `scan` scans a directory. -/
def addSymlinkTarget (scan : String → Scan → Scan) (entryPath : String) (s : Scan) : Scan :=
  match fs.realpath host entryPath with
  | .error _ => s
  | .ok target =>
    let s := { s with roots := addRoot s.roots target }
    match nearestNodeModules (resolved (absolute fs.cwd target)).reverse with
    | some root => scan root { s with roots := addRoot s.roots root }
    | none => s

/-- The links of a scope. -/
def scanScope (scan : String → Scan → Scan) (scope : String) (s : Scan) : Scan :=
  match fs.readdir host scope with
  | .error _ => s
  | .ok scopedEntries => scopedEntries.foldl (fun s entry =>
      if entry.isSymbolicLink then addSymlinkTarget fs host scan (join [scope, entry.name]) s
      else s) s

/-- Scans that are `depth` deep at most; each directory is scanned once. -/
def scanDirForSymlinks : Nat → String → Scan → Scan
  | 0, _, s => s
  | depth + 1, scanRoot, s =>
    if scanRoot ∈ s.scannedSymlinkDirs then s
    else
      let s := { s with scannedSymlinkDirs := s.scannedSymlinkDirs ++ [scanRoot] }
      match fs.readdir host scanRoot with
      | .error _ => s
      | .ok entries => entries.foldl (fun s entry =>
          if entry.isSymbolicLink then
            addSymlinkTarget fs host (scanDirForSymlinks depth) (join [scanRoot, entry.name]) s
          else if entry.isDirectory ∧ startsWith entry.name "@" then
            scanScope fs host (scanDirForSymlinks depth) (join [scanRoot, entry.name]) s
          else s) s

def collectOverlayAllowedRoots (depth : Nat) (hostNodeModulesRoot : String) : List String :=
  ([hostNodeModulesRoot, join [hostNodeModulesRoot, ".pnpm", "node_modules"]].foldl
    (fun s scanRoot => scanDirForSymlinks fs host depth scanRoot s) ⟨[hostNodeModulesRoot], []⟩).roots

/-- `.pnpm` and what is before it. -/
def pnpmStoreRoot (canonical : String) : Option String :=
  let canonicalParts := canonical.toList.splitOn '/'
  if ".pnpm".toList ∈ canonicalParts then
    some (String.ofList (['/'].intercalate
      (canonicalParts.take (canonicalParts.idxOf ".pnpm".toList + 1))))
  else none

/-- The allowed roots that a package root adds. -/
def allowRoot (depth : Nat) (overlayAllowedRoots : List String) (root : PackageRootMapping) :
    List String :=
  match fs.realpath host root.hostPath with
  | .error _ => overlayAllowedRoots
  | .ok canonical =>
    let roots := addRoot overlayAllowedRoots canonical
    let pkgNodeModules := join [canonical, "node_modules"]
    let roots := if fs.existsSync host pkgNodeModules then
        (collectOverlayAllowedRoots fs host depth pkgNodeModules).foldl addRoot roots
      else roots
    let roots := (pnpmStoreRoot canonical).elim roots (addRoot roots)
    match fs.realpath host (dirname root.hostPath) with
    | .ok canonicalParent => addRoot roots canonicalParent
    | .error _ => roots

end Collect

/-- The constructor. -/
def ModuleAccessFileSystem.new {σ β : Type} (fs : HostFs σ) (host : σ) (depth : Nat)
    (baseFileSystem : Option (VirtualFileSystem SystemError β)) (options : ModuleAccessOptions) :
    Except SystemError (ModuleAccessFileSystem σ β) :=
  match options.cwd.filter (¬ isAbsolute ·) with
  | some cwd => .error (createModuleAccessError MODULE_ACCESS_INVALID_CONFIG
      ("moduleAccess.cwd must be an absolute path, got '" ++ cwd ++ "'"))
  | none =>
    let cwd := resolve fs.cwd (options.cwd.getD fs.cwd)
    let nodeModulesPath := join [cwd, "node_modules"]
    let hostNodeModulesRoot := (fs.realpath host nodeModulesPath).toOption
    let packageRoots :=
      options.packageRoots.mergeSort fun a b => jsLength b.vmPath ≤ jsLength a.vmPath
    .ok {
      fs := fs
      baseFileSystem := baseFileSystem
      configuredNodeModulesRoot := nodeModulesPath
      hostNodeModulesRoot := hostNodeModulesRoot
      overlayAllowedRoots := packageRoots.foldl (allowRoot fs host depth)
        (hostNodeModulesRoot.elim [] (collectOverlayAllowedRoots fs host depth))
      packageRoots := packageRoots }

namespace ModuleAccessFileSystem

variable {σ β α : Type} (m : ModuleAccessFileSystem σ β)

/-! ### Which paths are whose -/

def isWithinAllowedOverlayRoots (canonicalPath : String) : Bool :=
  m.overlayAllowedRoots.any (isWithinPath m.fs.cwd canonicalPath ·)

/-- `this.hostNodeModulesRoot !== null || this.packageRoots.length > 0` -/
def hasNodeModules : Bool := m.hostNodeModulesRoot.isSome ∨ m.packageRoots ≠ []

def isSyntheticPath (virtualPath : String) : Bool :=
  if virtualPath = "/" ∨ virtualPath = SANDBOX_APP_ROOT then true
  else if virtualPath = SANDBOX_NODE_MODULES_ROOT then m.hasNodeModules
  else false

def syntheticChildren (pathValue : String) : OMap String Bool :=
  let entries := OMap.empty
  let entries := if pathValue = "/" then entries.set "app" true else entries
  if pathValue = SANDBOX_APP_ROOT ∧ m.hasNodeModules then entries.set "node_modules" true
  else entries

def isProjectedHostPath (pathValue : String) : Bool :=
  isAbsolute pathValue ∧
    let resolved := resolve m.fs.cwd pathValue
    (isWithinPath m.fs.cwd resolved m.configuredNodeModulesRoot ∨
      m.hostNodeModulesRoot.any (isWithinPath m.fs.cwd resolved ·) ∨
      m.overlayAllowedRoots.any (isWithinPath m.fs.cwd resolved ·))

def isReadOnlyProjectionPath (virtualPath : String) : Bool :=
  startsWithPath virtualPath SANDBOX_NODE_MODULES_ROOT ∨ m.isProjectedHostPath virtualPath

/-! ### From sandbox paths to host paths -/

/-- `path.posix.relative(…).replace(/^\/+/, "")` -/
def below (root virtualPath : String) : String :=
  String.ofList ((relative m.fs.cwd root virtualPath).toList.dropWhile (· = '/'))

/-- A package root whose `vmPath` the path is under. -/
def packageRootPath (virtualPath : String) (root : PackageRootMapping) : String :=
  let relative := m.below root.vmPath virtualPath
  if virtualPath = root.vmPath ∨ relative = "" then root.hostPath
  else join (root.hostPath :: split relative)

/-- The fallback to `node_modules` of the working directory. -/
def nodeModulesPath (host : σ) (virtualPath hostNodeModulesRoot : String) : Option String :=
  let relative := m.below SANDBOX_NODE_MODULES_ROOT virtualPath
  if virtualPath = SANDBOX_NODE_MODULES_ROOT ∨ relative = "" then some hostNodeModulesRoot
  else
    let candidate := join (hostNodeModulesRoot :: split relative)
    if m.fs.existsSync host candidate then some candidate else none

/-- A package in a directory, when it is there. -/
def siblingIn (host : σ) (pkgName subPath directory : String) : Option String :=
  if m.fs.existsSync host (join [directory, pkgName]) then
    match m.fs.realpath host (join [directory, pkgName]) with
    | .ok realPkg => some (if subPath ≠ "" then join (realPkg :: split subPath) else realPkg)
    | .error _ => none
  else none

/-- The fallback to the packages beside the package roots. -/
def siblingPath (host : σ) (virtualPath : String) : Option String :=
  let nmRelative := m.below SANDBOX_NODE_MODULES_ROOT virtualPath
  if nmRelative = "" then none
  else
    let relParts := nmRelative.toList.splitOn '/'
    let named := if (relParts.headD []).head? = some '@' then 2 else 1
    let part (parts : List (List Char)) := String.ofList (['/'].intercalate parts)
    let pkgName := part (relParts.take named)
    let subPath := part (relParts.drop named)
    m.packageRoots.findSome? fun root =>
      let parent := dirname root.hostPath
      (m.siblingIn host pkgName subPath parent).or
        (if dirname parent ≠ parent then m.siblingIn host pkgName subPath (dirname parent)
          else none)

def overlayHostPathFor (host : σ) (virtualPath : String) : Option String :=
  if ¬ startsWithPath virtualPath SANDBOX_NODE_MODULES_ROOT then none
  else
    match m.packageRoots.find? (fun root => startsWithPath virtualPath root.vmPath) with
    | some root => some (m.packageRootPath virtualPath root)
    | none => (m.hostNodeModulesRoot.bind (m.nodeModulesPath host virtualPath)).or
      (m.siblingPath host virtualPath)

def getOverlayHostPathCandidate (host : σ) (pathValue : String) : Option String :=
  match truthy (m.overlayHostPathFor host pathValue) with
  | some overlayPath => some overlayPath
  | none =>
    if m.isProjectedHostPath pathValue then some (resolve m.fs.cwd pathValue) else none

def resolveOverlayHostPath (host : σ) (virtualPath syscall : String) :
    Except SystemError (Option String) :=
  if isNativeAddonPath virtualPath then .error (nativeAddon virtualPath)
  else
    match truthy (m.getOverlayHostPathCandidate host virtualPath) with
    | none => .ok none
    | some hostPath =>
      match m.fs.realpath host hostPath with
      | .ok canonical =>
        if m.hostNodeModulesRoot.isNone ∨ ¬ m.isWithinAllowedOverlayRoots canonical then
          .error (outOfScope virtualPath)
        else if isNativeAddonPath canonical then .error (nativeAddon virtualPath)
        else .ok (some canonical)
      | .error err =>
        if err.code = "ENOENT" then .ok none
        else if err.code = "EACCES" then .error (createEaccesError syscall (some virtualPath) none)
        else .error err

/-! ### Programs -/

/-- The host is asked; it does not change. -/
def ask (access : HostAccess) (answer : σ → Except SystemError α) :
    Prog SystemError (World σ β) α := do
  update fun w => { w with asked := w.asked ++ [access] }
  let answer ← read fun w => answer w.host
  lift answer

/-- The file is opened for writing. -/
def writeHost (path : String) (offset : Nat) (data : ByteArray8) :
    Prog SystemError (World σ β) PUnit := do
  update fun w => { w with asked := w.asked ++ [.write path] }
  zoom World.host (fun h w => { w with host := h }) (m.fs.write path offset data)

def onBase (p : Prog SystemError β α) : Prog SystemError (World σ β) α :=
  zoom World.base (fun b w => { w with base := b }) p

def resolved (virtualPath syscall : String) : Prog SystemError (World σ β) (Option String) := do
  let r ← read fun w => m.resolveOverlayHostPath w.host virtualPath syscall
  lift r

/-- The base file system, or `ENOENT`. -/
def fallback (syscall virtualPath : String)
    (member : VirtualFileSystem SystemError β → Prog SystemError β α) :
    Prog SystemError (World σ β) α :=
  match m.baseFileSystem with
  | none => throw (createEnoentError syscall virtualPath)
  | some base => onBase (member base)

/-- Overlay first, and below `node_modules` nothing else. -/
def layered (syscall access virtualPath : String) (onHost : String → Prog SystemError (World σ β) α)
    (member : VirtualFileSystem SystemError β → Prog SystemError β α) :
    Prog SystemError (World σ β) α := do
  let hostPath ← m.resolved virtualPath access
  match hostPath with
  | some hostPath => onHost hostPath
  | none =>
    if startsWithPath virtualPath SANDBOX_NODE_MODULES_ROOT then
      throw (createEnoentError syscall virtualPath)
    else m.fallback syscall virtualPath member

/-- Not in the projection, else `EACCES`. -/
def guarded (syscall virtualPath : String)
    (member : VirtualFileSystem SystemError β → Prog SystemError β α) :
    Prog SystemError (World σ β) α :=
  if m.isReadOnlyProjectionPath virtualPath then
    throw (createEaccesError syscall (some virtualPath) none)
  else m.fallback syscall virtualPath member

/-- What a directory of the host adds. -/
def addHostEntries (entries : OMap String Bool) (hostEntries : List Dirent) : OMap String Bool :=
  hostEntries.foldl (fun entries entry => entries.set entry.name entry.isDirectory) entries

/-- What the base file system adds. -/
def addBaseEntries (entries : OMap String Bool) (baseEntries : List VirtualDirEntry) :
    OMap String Bool :=
  baseEntries.foldl (fun entries entry =>
    if entries.has entry.name then entries else entries.set entry.name entry.isDirectory) entries

/-- The entries of the overlay, over those that are made up. -/
def mergeOverlay (pathValue : String) : Option String → Prog SystemError (World σ β) (OMap String Bool)
  | some overlayHostPath => do
    let hostEntries ← ask (.readdir overlayHostPath) (m.fs.readdir · overlayHostPath)
    pure (addHostEntries (m.syntheticChildren pathValue) hostEntries)
  | none => pure (m.syntheticChildren pathValue)

/-- The entries of the base file system, under the others; what it throws is ignored. -/
def mergeBase (pathValue : String) (entries : OMap String Bool) :
    Prog SystemError (World σ β) (OMap String Bool) :=
  match m.baseFileSystem with
  | some base =>
    if shouldMergeBase pathValue then
      tryCatch (addBaseEntries entries <$> onBase (base.readDirWithTypes pathValue)) fun _ =>
        pure entries
    else pure entries
  | none => pure entries

def readMergedDir (pathValue : String) : Prog SystemError (World σ β) (OMap String Bool) := do
  let overlayHostPath ← m.resolved pathValue "scandir"
  let entries ← m.mergeOverlay pathValue overlayHostPath
  let entries ← m.mergeBase pathValue entries
  if entries.size = 0 ∧ ¬ m.isSyntheticPath pathValue then
    throw (createEnoentError "scandir" pathValue)
  else pure entries

/-- `stat` of a file of the host. -/
def statHost (hostPath : String) : Prog SystemError (World σ β) VirtualStat := do
  let info ← ask (.stat hostPath) (m.fs.stat · hostPath)
  pure { info with isSymbolicLink := false }

/-- A listing is merged here; elsewhere it is that of the base file system. -/
def isMerged (virtualPath : String) : Bool :=
  m.isSyntheticPath virtualPath ∨ startsWithPath virtualPath SANDBOX_NODE_MODULES_ROOT

/-! ### The members -/

/-- `ModuleAccessFileSystem implements VirtualFileSystem`. -/
def fileSystem : VirtualFileSystem SystemError (World σ β) where
  readFile pathValue :=
    m.layered "open" "open" (normalizeOverlayPath pathValue)
      (fun hostPath => ask (.readFile hostPath) (m.fs.readFile · hostPath))
      (·.readFile (normalizeOverlayPath pathValue))
  readTextFile pathValue :=
    m.layered "open" "open" (normalizeOverlayPath pathValue)
      (fun hostPath => ask (.readFile hostPath) (m.fs.readTextFile · hostPath))
      (·.readTextFile (normalizeOverlayPath pathValue))
  readDir pathValue :=
    let virtualPath := normalizeOverlayPath pathValue
    if m.isMerged virtualPath then do
      let entries ← m.readMergedDir virtualPath
      pure (entries.keys.mergeSort m.fs.localeLe)
    else m.fallback "scandir" virtualPath (·.readDir virtualPath)
  readDirWithTypes pathValue :=
    let virtualPath := normalizeOverlayPath pathValue
    if m.isMerged virtualPath then do
      let entries ← m.readMergedDir virtualPath
      pure ((entries.entries.map fun entry => ⟨entry.1, entry.2, none, none⟩).mergeSort fun a b =>
        m.fs.localeLe a.name b.name)
    else m.fallback "scandir" virtualPath (·.readDirWithTypes virtualPath)
  writeFile pathValue content :=
    m.guarded "write" (normalizeOverlayPath pathValue)
      (·.writeFile (normalizeOverlayPath pathValue) content)
  createDir pathValue :=
    m.guarded "mkdir" (normalizeOverlayPath pathValue)
      (·.createDir (normalizeOverlayPath pathValue))
  -- the options are dropped
  mkdir pathValue _ :=
    m.guarded "mkdir" (normalizeOverlayPath pathValue)
      (·.mkdir (normalizeOverlayPath pathValue) none)
  fileExists pathValue :=
    let virtualPath := normalizeOverlayPath pathValue
    if m.isSyntheticPath virtualPath then pure true
    else do
      let hostPath ← m.resolved virtualPath "access"
      match hostPath with
      | some _ => pure true
      | none =>
        if startsWithPath virtualPath SANDBOX_NODE_MODULES_ROOT then pure false
        else
          match m.baseFileSystem with
          | none => pure false
          | some base => onBase (base.fileExists virtualPath)
  stat pathValue :=
    let virtualPath := normalizeOverlayPath pathValue
    let found := m.layered "stat" "stat" virtualPath m.statHost (·.stat virtualPath)
    if m.isSyntheticPath virtualPath then do
      let hostPath ← m.resolved virtualPath "stat"
      if hostPath.isNone then read fun w => createVirtualDirStat (m.fs.now w.host)
      else found
    else found
  removeFile pathValue :=
    m.guarded "unlink" (normalizeOverlayPath pathValue)
      (·.removeFile (normalizeOverlayPath pathValue))
  removeDir pathValue :=
    m.guarded "rmdir" (normalizeOverlayPath pathValue)
      (·.removeDir (normalizeOverlayPath pathValue))
  rename oldPath newPath :=
    let oldVirtualPath := normalizeOverlayPath oldPath
    let newVirtualPath := normalizeOverlayPath newPath
    if m.isReadOnlyProjectionPath oldVirtualPath ∨ m.isReadOnlyProjectionPath newVirtualPath then
      throw (createEaccesError "rename" (some (oldVirtualPath ++ " -> " ++ newVirtualPath)) none)
    else
      m.fallback "rename" (oldVirtualPath ++ " -> " ++ newVirtualPath)
        (·.rename oldVirtualPath newVirtualPath)
  realpath pathValue :=
    let virtualPath := normalizeOverlayPath pathValue
    if m.isSyntheticPath virtualPath then pure virtualPath
    else
      m.layered "realpath" "realpath" virtualPath (fun _ => pure virtualPath)
        (·.realpath virtualPath)
  symlink target linkPath :=
    m.guarded "symlink" (normalizeOverlayPath linkPath)
      (·.symlink target (normalizeOverlayPath linkPath))
  readlink path :=
    m.fallback "readlink" (normalizeOverlayPath path) (·.readlink (normalizeOverlayPath path))
  lstat path :=
    let virtualPath := normalizeOverlayPath path
    if m.isSyntheticPath virtualPath then read fun w => createVirtualDirStat (m.fs.now w.host)
    else
      m.layered "lstat" "lstat" virtualPath
        (fun hostPath => ask (.lstat hostPath) (m.fs.lstat · hostPath)) (·.lstat virtualPath)
  -- only the new path is looked at, and the old one is in the error
  link oldPath newPath :=
    let oldVirtualPath := normalizeOverlayPath oldPath
    let newVirtualPath := normalizeOverlayPath newPath
    if m.isReadOnlyProjectionPath newVirtualPath then
      throw (createEaccesError "link" (some newVirtualPath) none)
    else m.fallback "link" oldVirtualPath (·.link oldVirtualPath newVirtualPath)
  chmod path mode :=
    m.guarded "chmod" (normalizeOverlayPath path) (·.chmod (normalizeOverlayPath path) mode)
  chown path uid gid :=
    m.guarded "chown" (normalizeOverlayPath path) (·.chown (normalizeOverlayPath path) uid gid)
  utimes path atime mtime :=
    m.guarded "utimes" (normalizeOverlayPath path)
      (·.utimes (normalizeOverlayPath path) atime mtime)
  truncate path length :=
    m.guarded "truncate" (normalizeOverlayPath path)
      (·.truncate (normalizeOverlayPath path) length)
  pread pathValue offset length :=
    m.layered "open" "open" (normalizeOverlayPath pathValue)
      (fun hostPath => ask (.read hostPath) (m.fs.read · hostPath offset length))
      (·.pread (normalizeOverlayPath pathValue) offset length)
  -- the path is resolved as for reading
  pwrite pathValue offset data :=
    m.layered "open" "write" (normalizeOverlayPath pathValue)
      (fun hostPath => m.writeHost hostPath offset data)
      (·.pwrite (normalizeOverlayPath pathValue) offset data)
  fsync := none
  copy := none
  readDirStat := none
  prepareOpenSync := some fun pathValue flags =>
    let virtualPath := normalizeOverlayPath pathValue
    if m.isReadOnlyProjectionPath virtualPath then
      throw (createEaccesError (if flags.has O_TRUNC then "truncate" else "write")
        (some virtualPath) none)
    else
      match m.baseFileSystem.bind (·.prepareOpenSync) with
      | some prepareOpenSync => onBase (prepareOpenSync virtualPath flags)
      | none => pure false

end ModuleAccessFileSystem

end ModuleAccess
