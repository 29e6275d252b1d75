import Mathlib.Data.Char
import Mathlib.Data.List.Lex
import SecureExec.Lib.FileTree
import SecureExec.Node.ModuleAccess

/-!
# Node — HostTree — a host whose files are a tree

`treeHost`: `node:fs` over a directory tree with symbolic links.  A path that is not absolute starts
at `cwd`; forty links may be followed.
-/

namespace ModuleAccess
open SecureExec Shared NodePath Kernel FileTree
open Vfs (VirtualStat)

/-- The tree of a host, with names that a path can spell. -/
structure HostTree where
  tree : Tree (List Char) ByteArray8
  named : ∀ e ∈ tree.entries, ∀ s ∈ e.1, s ≠ [] ∧ s ≠ ['.'] ∧ s ≠ ['.', '.'] ∧ '/' ∉ s

namespace HostTree

def segments (p : String) : List (Seg (List Char)) :=
  (components p).filterMap fun seg =>
    if seg = ['.'] then none else if seg = ['.', '.'] then some .up else some (.name seg)

def hostError (syscall path : String) : Fault → SystemError
  | .notFound => createEnoentError syscall path
  | .notDirectory =>
    ⟨"ENOTDIR", "ENOTDIR: not a directory, " ++ syscall ++ " '" ++ path ++ "'", path, syscall⟩
  | .loop =>
    ⟨"ELOOP", "ELOOP: too many symbolic links encountered, " ++ syscall ++ " '" ++ path ++ "'",
      path, syscall⟩

def isDirectoryError (syscall : String) : SystemError :=
  ⟨"EISDIR", "EISDIR: illegal operation on a directory, " ++ syscall, none, some syscall⟩

/-- The canonical components of a path. -/
def canonical (cwd : String) (t : HostTree) (syscall path : String) :
    Except SystemError (List (List Char)) :=
  (t.tree.realpath 40 (segments (absolute cwd path))).mapError (hostError syscall path)

def info (node : Node (List Char) ByteArray8) : VirtualStat where
  mode := match node with | .file _ => 0o100644 | .directory => 0o040755 | .link _ _ => 0o120777
  size := match node with | .file content => content.length | _ => 4096
  isDirectory := match node with | .directory => true | _ => false
  isSymbolicLink := match node with | .link _ _ => true | _ => false
  atimeMs := 0
  mtimeMs := 0
  ctimeMs := 0
  birthtimeMs := 0
  ino := 1
  nlink := 1
  uid := 0
  gid := 0

/-- What is at a place; canonical paths have something there. -/
def infoAt (t : HostTree) (syscall path : String) (p : List (List Char)) :
    Except SystemError VirtualStat :=
  match t.tree.node p with
  | some node => .ok (info node)
  | none => .error (createEnoentError syscall path)

/-- The last name of a path is not followed. -/
def lstat (cwd : String) (t : HostTree) (path : String) : Except SystemError VirtualStat :=
  let segs := segments (absolute cwd path)
  match segs.getLast? with
  | some (.name n) => do
    let dir ← (t.tree.realpath 40 segs.dropLast).mapError (hostError "lstat" path)
    infoAt t "lstat" path (dir ++ [n])
  | _ => do
    let p ← canonical cwd t "lstat" path
    infoAt t "lstat" path p

/-- The entry of a directory that has this path. -/
def dirent (dir : List (List Char)) (e : List (List Char) × Node (List Char) ByteArray8) :
    Option Dirent :=
  match e.1.getLast? with
  | some name =>
    if e.1.dropLast = dir then
      some ⟨String.ofList name, (info e.2).isDirectory, (info e.2).isSymbolicLink⟩
    else none
  | none => none

def readdir (cwd : String) (t : HostTree) (path : String) : Except SystemError (List Dirent) := do
  let dir ← canonical cwd t "scandir" path
  match t.tree.node dir with
  | some .directory => .ok (t.tree.entries.filterMap (dirent dir))
  | _ => .error (hostError "scandir" path .notDirectory)

def content (cwd : String) (t : HostTree) (path : String) : Except SystemError ByteArray8 := do
  let p ← canonical cwd t "open" path
  match t.tree.node p with
  | some (.file content) => .ok content
  | _ => .error (isDirectoryError "read")

/-- The file at a place has a new content. -/
def setContent (p : List (List Char)) (content : ByteArray8) (t : HostTree) : HostTree where
  tree := ⟨t.tree.entries.map fun e => (e.1, if e.1 = p then .file content else e.2)⟩
  named := by
    intro e he
    obtain ⟨e', he', rfl⟩ := List.mem_map.mp he
    exact t.named e' he'

def write (cwd path : String) (offset : Nat) (data : ByteArray8) : Prog SystemError HostTree PUnit :=
  do
    let found ← Prog.read fun t => do
      let p ← canonical cwd t "open" path
      let old ← content cwd t path
      .ok (p, old)
    let (p, old) ← Prog.lift found
    Prog.update (setContent p (Bytes.overlay old offset data))

end HostTree

open HostTree in
/-- `node:fs` over a tree; `utf8` is the decoder. -/
def treeHost (cwd : String) (utf8 : ByteArray8 → String) : HostFs HostTree where
  cwd := cwd
  localeLe a b := a.toList ≤ b.toList
  now _ := 0
  existsSync t path := (canonical cwd t "access" path).isOk
  realpath t path := (canonical cwd t "realpath" path).map ofSteps
  readdir := HostTree.readdir cwd
  readFile := content cwd
  readTextFile t path := (content cwd t path).map utf8
  stat t path := do
    let p ← canonical cwd t "stat" path
    infoAt t "stat" path p
  lstat := HostTree.lstat cwd
  read t path offset length := (content cwd t path).map (Bytes.window · offset length)
  write := HostTree.write cwd

/-! ### What `realpath` returns -/

namespace HostTree

variable {t : HostTree}

variable {p : List (List Char)}

theorem segments_of_spells {path : String} (h : Spells path p) :
    segments path = p.map .name := by
  rw [segments, h.components, ← List.filterMap_eq_map]
  refine List.filterMap_congr fun s hs => ?_
  rw [if_neg (h.1 s hs).here, if_neg (h.1 s hs).up]
  rfl

/-- The names of a path that is there. -/
theorem component_of_node (h : (t.tree.node p).isSome) :
    ∀ s ∈ p, IsComponent s := by
  intro s hs
  obtain ⟨node, hn⟩ := Option.isSome_iff_exists.mp h
  obtain ⟨hne, hhere, hup, hsep⟩ :=
    t.named (p, node) (Tree.mem_of_node (List.ne_nil_of_mem hs) hn) s hs
  exact ⟨hne, hhere, hup, hsep⟩

theorem component_of_canonical (h : t.tree.Canonical p) :
    ∀ s ∈ p, IsComponent s := by
  refine component_of_node (t := t) ?_
  rcases h.2 with hn | ⟨content, hn⟩
  · rw [hn]
    rfl
  · rw [hn]
    rfl

theorem ofSteps_spells (h : ∀ s ∈ p, IsComponent s) : Spells (ofSteps p) p :=
  ⟨h, String.toList_ofList⟩

theorem absolute_ofSteps (cwd : String) (p : List (List Char)) :
    absolute cwd (ofSteps p) = ofSteps p := by
  have hlist : (ofSteps p).toList = Segments.join '/' p := String.toList_ofList
  rw [absolute, isAbsolute, hlist]
  rfl

/-- The components of a canonical path lead to it. -/
theorem canonical_ofSteps (h : t.tree.Canonical p) (cwd syscall : String) :
    canonical cwd t syscall (ofSteps p) = .ok p := by
  rw [canonical, absolute_ofSteps, segments_of_spells (ofSteps_spells (component_of_canonical h)),
    Tree.realpath_of_canonical h]
  rfl

theorem canonical_ok {cwd syscall path : String}
    (h : canonical cwd t syscall path = .ok p) : t.tree.Canonical p := by
  rw [canonical] at h
  cases hr : t.tree.realpath 40 (segments (absolute cwd path)) with
  | error e =>
      rw [hr] at h
      cases h
  | ok q =>
      rw [hr] at h
      cases h
      exact Tree.realpath_canonical hr

end HostTree

/-- What `realpath` returns is its own `realpath`. -/
structure HostFs.Lawful {σ : Type} (fs : HostFs σ) : Prop where
  realpath_idem {host : σ} {path canonical : String} :
    fs.realpath host path = .ok canonical → fs.realpath host canonical = .ok canonical

theorem treeHost_realpath (cwd path : String) (utf8 : ByteArray8 → String) (t : HostTree) :
    (treeHost cwd utf8).realpath t path = (HostTree.canonical cwd t "realpath" path).map ofSteps :=
  rfl

open HostTree in
theorem treeHost_lawful (cwd : String) (utf8 : ByteArray8 → String) : (treeHost cwd utf8).Lawful where
  realpath_idem {host path canonical} h := by
    rw [treeHost_realpath] at h ⊢
    cases hp : HostTree.canonical cwd host "realpath" path with
    | error e =>
        rw [hp] at h
        cases h
    | ok p =>
        rw [hp] at h
        cases h
        rw [canonical_ofSteps (canonical_ok hp)]
        rfl

end ModuleAccess
