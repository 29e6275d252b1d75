import SecureExec.Lib.OMap
import SecureExec.Lib.Prog

/-!
# Node — Resolve — how a module request is resolved to a path

`package-bundler.ts`, but for the loading of files.  A request is resolved by probes of the file
system: does a path exist, is it a directory, what does a `package.json` say.  Every probe goes
through one of three maps of the `ResolutionCache`, and the answer of the whole resolution through a
fourth; without a cache, nothing is kept.

The file system is one that does not change: a probe is a function of its path.  `JSON.parse` is the
parameter `parse`.  `resolvePath` follows `main` fields from directory to directory, maybe for ever,
so it counts its calls down and is `running` when the count is over.
-/

namespace Bundler

/-! ### Strings -/

/-- `s.startsWith(t)` -/
def startsWith (s t : String) : Bool := t.toList.isPrefixOf s.toList

/-- `s.endsWith(t)` -/
def endsWith (s t : String) : Bool := t.toList.isSuffixOf s.toList

/-- The part after the last slash is dropped, then the slash. -/
def dirname (p : String) : String :=
  match p.toList.reverse.dropWhile (· ≠ '/') with
  | [] => "."
  | [_] => "/"
  | _ :: rest => String.ofList rest.reverse

/-- The segments after one more part; the last one stands first. -/
def joinSegments (segments : List (List Char)) : List (List Char) → List (List Char)
  | [] => segments
  | seg :: segs =>
    if seg = ['.', '.'] then joinSegments segments.tail segs
    else if seg = [] ∨ seg = ['.'] then joinSegments segments segs
    else joinSegments (seg :: segments) segs

def joinParts (segments : List (List Char)) : List String → List (List Char)
  | [] => segments
  | part :: parts =>
    joinParts (joinSegments (if startsWith part "/" then [] else segments)
      (part.toList.splitOn '/')) parts

def join (parts : List String) : String :=
  String.ofList ('/' :: ['/'].intercalate (joinParts [] parts).reverse)

/-- `value.replace(/^\.\//, "").replace(/\/$/, "")` -/
def normalizePackagePath (value : String) : String :=
  let value := if startsWith value "./" then value.toList.drop 2 else value.toList
  String.ofList (if value.getLast? = some '/' then value.dropLast else value)

/-- The template that `replaceAll` takes as the replacement of `*`, which has `before` and `after`
around it.  `$$`, `$&`, a dollar and a backtick, a dollar and an apostrophe are special. -/
def expand (before after : List Char) : List Char → List Char
  | '$' :: c :: rest =>
    if c = '$' then '$' :: expand before after rest
    else if c = '&' then '*' :: expand before after rest
    else if c = Char.ofNat 0x60 then before ++ expand before after rest
    else if c = Char.ofNat 0x27 then after ++ expand before after rest
    else '$' :: expand before after (c :: rest)
  | c :: rest => c :: expand before after rest
  | [] => []

/-- `resolved.replaceAll("*", wildcard)`, from a place on. -/
def replaceFrom (wildcard before : List Char) : List Char → List Char
  | [] => []
  | c :: rest =>
    (if c = '*' then expand before rest wildcard else [c]) ++
      replaceFrom wildcard (before ++ [c]) rest

def replaceAll (resolved wildcard : String) : String :=
  String.ofList (replaceFrom wildcard.toList [] resolved.toList)

/-- A string that is not empty. -/
def truthy (s : Option String) : Option String := s.filter (· ≠ "")

/-! ### JSON values -/

/-- What `JSON.parse` returns; of a number, whether it is not zero. -/
inductive Json where
  | null
  | bool (value : Bool)
  | number (nonzero : Bool)
  | str (value : String)
  | arr (items : List Json)
  | obj (fields : List (String × Json))

namespace Json

def truthy : Json → Bool
  | .null => false
  | .bool value => value
  | .number nonzero => nonzero
  | .str value => value ≠ ""
  | .arr _ | .obj _ => true

/-- A property; `undefined` is none. -/
def field (j : Json) (key : String) : Option Json :=
  match j with
  | .obj fields => fields.lookup key
  | _ => none

end Json

inductive ResolveMode where
  | require
  | import
  deriving DecidableEq

/-! ### Package entries -/

def getPackageEntryField (pkgJson : Json) : String :=
  if pkgJson.truthy then
    match pkgJson.field "main" with
    | some (.str main) => main
    | _ => "index.js"
  else "index.js"

/-- The targets of an object of exports, each as a function of the subpath. -/
abbrev Targets : Type := List (String × (String → Option String))

/-- The key `prefix*suffix` of a pattern, when it matches, gives what stands for the star. -/
def wildcard (key subpath : String) : Option String :=
  match key.toList.splitOn '*' with
  | before :: after :: _ =>
    if before.isPrefixOf subpath.toList ∧ after.isSuffixOf subpath.toList then
      some (String.ofList ((subpath.toList.take (subpath.length - after.length)).drop before.length))
    else none
  | _ => none

/-- The loop over pattern keys. -/
def resolvePattern (subpath : String) : Targets → Option String
  | [] => none
  | (key, target) :: record =>
    match wildcard key subpath, truthy (target ".") with
    | some w, some resolved => some (replaceAll resolved w)
    | _, _ => resolvePattern subpath record

def conditions : ResolveMode → List String
  | .import => ["import", "node", "module", "default", "require"]
  | .require => ["require", "node", "default", "import", "module"]

def resolveConditionalTarget (record : Targets) (mode : ResolveMode) : Option String :=
  ((conditions mode).findSome? fun key => (record.lookup key).bind fun target =>
    truthy (target ".")).or
    (record.findSome? fun entry => truthy (entry.2 "."))

/-- `resolveExportsTarget` for an object. -/
def resolveRecord (record : Targets) (subpath : String) (mode : ResolveMode) : Option String :=
  if subpath = "." ∧ ¬ record.any (fun entry => startsWith entry.1 "./") then
    resolveConditionalTarget record mode
  else
    -- the test for a `.` key that the source makes last has found it here already
    match record.lookup subpath with
    | some target => target "."
    | none => resolvePattern subpath record

mutual

/-- `resolveExportsTarget` -/
def resolveExportsTarget (mode : ResolveMode) : Json → String → Option String
  | .str value, subpath => if subpath = "." then some value else none
  | .arr items, subpath => resolveItems mode items subpath
  | .obj fields, subpath => resolveRecord (resolveFields mode fields) subpath mode
  | .null, _ | .bool _, _ | .number _, _ => none

/-- The first item that resolves. -/
def resolveItems (mode : ResolveMode) : List Json → String → Option String
  | [], _ => none
  | item :: items, subpath =>
    (truthy (resolveExportsTarget mode item subpath)).or (resolveItems mode items subpath)

def resolveFields (mode : ResolveMode) : List (String × Json) → Targets
  | [] => []
  | (key, value) :: fields => (key, resolveExportsTarget mode value) :: resolveFields mode fields

end

mutual

/-- `resolveImportsTarget` -/
def resolveImportsTarget (mode : ResolveMode) : Json → String → Option String
  | .str value, _ => some value
  | .arr items, specifier => resolveImportsItems mode items specifier
  | .obj fields, specifier =>
    match (resolveFields mode fields).lookup specifier with
    | some target => target "."
    | none => resolvePattern specifier (resolveFields mode fields)
  | .null, _ | .bool _, _ | .number _, _ => none

def resolveImportsItems (mode : ResolveMode) : List Json → String → Option String
  | [], _ => none
  | item :: items, specifier =>
    (truthy (resolveImportsTarget mode item specifier)).or (resolveImportsItems mode items specifier)

end

/-! ### The cache -/

/-- The caches for module resolution. -/
structure ResolutionCache where
  resolveResults : OMap String (Option String)
  packageJsonResults : OMap String Json
  existsResults : OMap String Bool
  /-- Whether a path is a directory; none is `ENOENT`. -/
  statResults : OMap String (Option Bool)

def createResolutionCache : ResolutionCache := ⟨.empty, .empty, .empty, .empty⟩

/-- What ends a program: an error, or the count of calls. -/
inductive Stop (ε : Type) where
  | thrown (e : ε)
  | running
  deriving DecidableEq

/-- A program with an optional cache. -/
abbrev Resolve (ε : Type) : Type → Type := Prog (Stop ε) (Option ResolutionCache)

/-- A value is looked up in one map of the cache, or computed and kept. -/
def cached {ε α : Type} (results : ResolutionCache → OMap String α)
    (update : OMap String α → ResolutionCache → ResolutionCache) (key : String)
    (compute : Resolve ε α) : Resolve ε α := do
  match ← Prog.read fun cache => cache.bind fun c => (results c).get key with
  | some result => pure result
  | none =>
    let result ← compute
    Prog.update fun cache => cache.map fun c => update ((results c).set key result) c
    pure result

/-! ### Probes -/

/-- A file system that does not change. -/
structure FileSystem (ε : Type) where
  pathExists : String → Except ε Bool
  isDirectory : String → Except ε Bool
  readTextFile : String → Except ε String
  /-- The `code` of an error. -/
  code : ε → Option String

section

variable {ε : Type} (fs : FileSystem ε) (parse : String → Option Json)

/-- `EACCES` and `EPERM` say that a path is not available. -/
def isPermissionProbeError (e : ε) : Bool :=
  fs.code e = some "EACCES" ∨ fs.code e = some "EPERM"

def safeExists (path : String) : Resolve ε Bool :=
  match fs.pathExists path with
  | .ok result => pure result
  | .error e => if isPermissionProbeError fs e then pure false else throw (.thrown e)

def cachedSafeExists (path : String) : Resolve ε Bool :=
  cached (·.existsResults) (fun m c => { c with existsResults := m }) path (safeExists fs path)

def cachedStat (path : String) : Resolve ε (Option Bool) :=
  cached (·.statResults) (fun m c => { c with statResults := m }) path <|
    match fs.isDirectory path with
    | .ok result => pure (some result)
    | .error e =>
      if (truthy (fs.code e)).isSome ∧ fs.code e ≠ some "ENOENT" then throw (.thrown e)
      else pure none

def readPackageJson (pkgJsonPath : String) : Resolve ε Json :=
  cached (·.packageJsonResults) (fun m c => { c with packageJsonResults := m }) pkgJsonPath do
    if ← cachedSafeExists fs pkgJsonPath then
      match fs.readTextFile pkgJsonPath with
      | .ok text => pure ((parse text).getD .null)
      | .error _ => pure .null
    else pure .null

/-- The first path that exists. -/
def firstExisting : List String → Resolve ε (Option String)
  | [] => pure none
  | path :: paths => do
    if ← cachedSafeExists fs path then pure (some path) else firstExisting paths

/-! ### Resolution -/

def fileExtensions : List String := [".js", ".json", ".mjs", ".cjs"]

/-- The `main` of a directory, then its index files. -/
def resolveDirectory (resolvePath : String → Resolve ε (Option String)) (basePath : String) :
    Resolve ε (Option String) := do
  let pkgJson ← readPackageJson fs parse (join [basePath, "package.json"])
  let entryField := getPackageEntryField pkgJson
  let entryPath := join [basePath, normalizePackagePath entryField]
  -- a `main` such as `.` does not lead back here
  let entry ← (if entryField ≠ "" ∧ entryPath ≠ basePath then resolvePath entryPath else pure none)
  match truthy entry with
  | some entry => pure (some entry)
  | none => firstExisting fs (fileExtensions.map fun ext => join [basePath, "index" ++ ext])

/-- `resolvePath`, for at most `n` calls. -/
def resolvePath : Nat → String → Resolve ε (Option String)
  | 0, _ => throw .running
  | n + 1, basePath => do
    match ← cachedStat fs basePath with
    | some false => pure (some basePath)
    | stat =>
      match ← firstExisting fs (fileExtensions.map (basePath ++ ·)) with
      | some withExt => pure (some withExt)
      | none =>
        if stat = some true then resolveDirectory fs parse (resolvePath n) basePath
        else pure none

def resolvePackageEntryFromDir (resolvePath : String → Resolve ε (Option String))
    (packageDir subpath : String) (mode : ResolveMode) : Resolve ε (Option String) := do
  let pkgJson ← readPackageJson fs parse (join [packageDir, "package.json"])
  let found ← (if pkgJson.truthy then pure true else cachedSafeExists fs packageDir)
  if !found then pure none
  else
    match pkgJson.field "exports" with
    | some exports =>
      match truthy (resolveExportsTarget mode exports
          (if subpath = "" then "." else "./" ++ subpath)) with
      | some target => do
        let targetPath := join [packageDir, normalizePackagePath target]
        let resolved ← resolvePath targetPath
        pure (some (resolved.getD targetPath))
      | none => pure none
    | none =>
      if subpath ≠ "" then resolvePath (join [packageDir, subpath])
      else do
        let entryField := getPackageEntryField pkgJson
        let entryPath := join [packageDir, normalizePackagePath entryField]
        let resolved ← (if entryField ≠ "" then resolvePath entryPath else pure none)
        match truthy resolved with
        | some resolved => pure (some resolved)
        | none =>
          if entryField ≠ "" ∧ pkgJson.truthy then pure (some entryPath)
          else resolvePath (join [packageDir, "index"])

/-- A directory that may not be read is passed over. -/
def resolveInDirs (resolvePath : String → Resolve ε (Option String)) (subpath : String)
    (mode : ResolveMode) : List String → Resolve ε (Option String)
  | [] => pure none
  | packageDir :: packageDirs => do
    let entry ← tryCatch
      (resolvePackageEntryFromDir fs parse resolvePath packageDir subpath mode) fun
      | .thrown e => if isPermissionProbeError fs e then pure none else throw (.thrown e)
      | .running => throw .running
    match truthy entry with
    | some entry => pure (some entry)
    | none => resolveInDirs resolvePath subpath mode packageDirs

end

/-- A path that does not end a walk up is shorter one step up. -/
theorem length_dirname {p : String} (h : p ≠ "/") :
    dirname p = "." ∨ (dirname p).length < p.length := by
  have hsplit := List.takeWhile_append_dropWhile (p := fun c => decide (c ≠ '/')) (l := p.toList.reverse)
  have hlen : (p.toList.reverse.takeWhile (· ≠ '/')).length +
      (p.toList.reverse.dropWhile (· ≠ '/')).length = p.length := by
    rw [← List.length_append, hsplit, List.length_reverse, String.length_toList]
  have hhead := List.head?_dropWhile_not (fun c => decide (c ≠ '/')) p.toList.reverse
  rw [dirname]
  split
  · exact .inl rfl
  · rename_i c hc
    right
    rw [hc] at hlen hsplit hhead
    by_contra hle
    have hnil : p.toList.reverse.takeWhile (· ≠ '/') = [] := by
      rw [← List.length_eq_zero_iff]
      have hone : "/".length = 1 := rfl
      rw [hone] at hle
      rw [List.length_singleton] at hlen
      omega
    rw [hnil, List.nil_append] at hsplit
    have hslash : c = '/' := by simpa using hhead
    refine h (String.toList_inj.mp ?_)
    rw [← List.reverse_reverse p.toList, ← hsplit, hslash]
    rfl
  · rename_i c rest hne hrest
    right
    rw [hrest, List.length_cons] at hlen
    rw [String.length_ofList, List.length_reverse]
    omega

/-- The directories that a walk up from `dir` visits. -/
def ancestors (dir : String) : List String :=
  if dir = "" ∨ dir = "." then []
  else if dir = "/" then [dir]
  else dir :: ancestors (dirname dir)
  termination_by if dir = "." then 0 else dir.length + 1
  decreasing_by
    rename_i hstop hdir
    have hdot : dir ≠ "." := fun h => hstop (.inr h)
    rw [if_neg hdot]
    rcases length_dirname hdir with h | h
    · rw [if_pos h]
      exact Nat.succ_pos _
    · split
      · exact Nat.succ_pos _
      · exact Nat.succ_lt_succ h

def getNodeModulesCandidatePackageDirs (dir packageName : String) : List String :=
  let parent :=
    if endsWith dir "/node_modules" then [join [dir, packageName]] else []
  let segment := "/node_modules/"
  -- the virtual store of the innermost `node_modules` directory above
  let store :=
    match (List.range (dir.length + 1)).reverse.find? fun n =>
      startsWith (String.ofList (dir.toList.drop n)) segment with
    | some n =>
      [join [String.ofList (dir.toList.take (n + segment.length - 1)), ".pnpm", "node_modules",
        packageName]]
    | none => []
  ([join [dir, "node_modules", packageName],
    join [dir, "node_modules", ".pnpm", "node_modules", packageName]] ++ parent ++ store).foldl
      (fun dirs d => if d ∈ dirs then dirs else dirs ++ [d]) []

/-- The name of the package and the subpath of a bare request. -/
def splitRequest (request : String) : Option (String × String) :=
  let parts := request.toList.splitOn '/'
  let rest := fun n => String.ofList (['/'].intercalate (parts.drop n))
  match startsWith request "@", parts with
  | true, scope :: name :: _ => some (String.ofList (scope ++ '/' :: name), rest 2)
  | false, name :: _ => some (String.ofList name, rest 1)
  | _, _ => none

section

variable {ε : Type} (fs : FileSystem ε) (parse : String → Option Json)

def resolveNodeModules (resolvePath : String → Resolve ε (Option String)) (request fromDir : String)
    (mode : ResolveMode) : Resolve ε (Option String) :=
  match splitRequest request with
  | none => pure none
  | some (packageName, subpath) =>
    resolveInDirs fs parse resolvePath subpath mode
      ((ancestors fromDir).flatMap (getNodeModulesCandidatePackageDirs · packageName) ++
        [join ["/node_modules", packageName]])

/-- The loop of `resolvePackageImports`. -/
def resolveImportsFrom (resolvePath : String → Resolve ε (Option String)) (request : String)
    (mode : ResolveMode) : List String → Resolve ε (Option String)
  | [] => pure none
  | dir :: dirs => do
    let pkgJson ← readPackageJson fs parse (join [dir, "package.json"])
    match pkgJson.field "imports" with
    | some imports =>
      match truthy (resolveImportsTarget mode imports request) with
      | none => pure none
      | some target =>
        let targetPath :=
          if startsWith target "/" then target else join [dir, normalizePackagePath target]
        if startsWith target "#" then pure none else resolvePath targetPath
    | none => resolveImportsFrom resolvePath request mode dirs

/-- The body of `resolveModule`. -/
def resolveRequest (n : Nat) (request fromDir : String) (mode : ResolveMode) :
    Resolve ε (Option String) :=
  if startsWith request "/" then resolvePath fs parse n request
  else if startsWith request "./" ∨ startsWith request "../" ∨ request = "." ∨ request = ".." then
    resolvePath fs parse n (join [fromDir, request])
  else if startsWith request "#" then
    resolveImportsFrom fs parse (resolvePath fs parse n) request mode (ancestors fromDir)
  else resolveNodeModules fs parse (resolvePath fs parse n) request fromDir mode

def ResolveMode.name : ResolveMode → String
  | .require => "require"
  | .import => "import"

def cacheKey (request fromDir : String) (mode : ResolveMode) : String :=
  request ++ "\x00" ++ fromDir ++ "\x00" ++ mode.name

def resolveModule (n : Nat) (request fromDir : String) (mode : ResolveMode) :
    Resolve ε (Option String) :=
  cached (·.resolveResults) (fun m c => { c with resolveResults := m })
    (cacheKey request fromDir mode) (resolveRequest fs parse n request fromDir mode)

end

end Bundler
