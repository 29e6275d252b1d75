import SecureExec.Kernel.MountTable
import SecureExec.Vfs.Chunked

/-!
# Kernel — Permissions — the permission layer around a file system

`wrapFileSystem` of `packages/core/src/kernel/permissions.ts` and of
`packages/core/src/shared/permissions.ts`: every operation is put to the permission callback before
it is forwarded.

The path is normalised before the callback sees it, and the mount table normalises it again.
`checked_is_accessed`: of an absolute path both layers show the callback what the mount table
resolves; of a relative one the kernel's layer shows what is left of it, still relative.
-/

namespace SecureExec

/-! ### The callback -/

inductive FsOp where
  | read | write | mkdir | createDir | readdir | stat | rm | rename | exists | symlink | readlink
  | link | chmod | chown | utimes | truncate
  deriving DecidableEq

structure FsAccessRequest where
  op : FsOp
  path : String
  deriving DecidableEq

structure PermissionDecision where
  allow : Bool
  reason : Option String

/-- `permissions?.fs`. -/
abbrev FsPolicy : Type := Option (FsAccessRequest → PermissionDecision)

/-- `checkPermission` of both layers. -/
def checkPermission {ε σ : Type} (check : FsPolicy) (request : FsAccessRequest)
    (errorFactory : FsAccessRequest → Option String → ε) : Prog ε σ PUnit :=
  match check with
  | none => throw (errorFactory request none)
  | some check =>
    let decision := check request
    if decision.allow then pure ⟨⟩ else throw (errorFactory request decision.reason)

/-- A text that is there and not empty. -/
def truthy (s : Option String) : Option String := s.filter (· ≠ "")

/-- `if (p.length > 1 && p.endsWith("/")) p = p.slice(0, -1)`. -/
def stripSlash (p : List Char) : List Char :=
  if p.length > 1 ∧ p.getLast? = some '/' then p.dropLast else p

namespace Kernel
open Segments

/-! ### The kernel's layer -/

def fsError (op : String) (path : String) (reason : Option String) : Failure :=
  .kernelError .EACCES <| match truthy reason with
    | some reason => "permission denied, " ++ op ++ " '" ++ path ++ "': " ++ reason
    | none => "permission denied, " ++ op ++ " '" ++ path ++ "'"

/-- `normalizeFsPath` of `kernel/permissions.ts`. -/
def normalizeFsPath (p : String) : String :=
  let cleaned := stripSlash (squeeze '/' p.toList)
  let isAbsolute := cleaned.head? = some '/'
  let resolved := walk ['.'] ['.', '.'] true 0 [] (cleaned.splitOn '/')
  let result := (if isAbsolute then ['/'] else []) ++ ['/'].intercalate resolved
  if result ≠ [] then String.ofList result else if isAbsolute then "/" else "."

/-- What the callback is shown. -/
def fsRequest (op : FsOp) (path : String) : FsAccessRequest := ⟨op, normalizeFsPath path⟩

def opName : FsOp → String
  | .read => "read" | .write => "write" | .mkdir => "mkdir" | .createDir => "createDir"
  | .readdir => "readdir" | .stat => "stat" | .rm => "rm" | .rename => "rename"
  | .exists => "exists" | .symlink => "symlink" | .readlink => "readlink" | .link => "link"
  | .chmod => "chmod" | .chown => "chown" | .utimes => "utimes" | .truncate => "truncate"

end Kernel

namespace Shared
open Segments

/-! ### The shared layer -/

/-- `SystemError`. -/
structure SystemError where
  code : String
  message : String
  path : Option String
  syscall : Option String
  deriving DecidableEq

/-- `createEaccesError`; `createSystemError` leaves out an empty path and an empty syscall. -/
def createEaccesError (op : String) (path reason : Option String) : SystemError :=
  let suffix := match truthy path with | some path => " '" ++ path ++ "'" | none => ""
  let reasonSuffix := match truthy reason with | some reason => ": " ++ reason | none => ""
  ⟨"EACCES", "EACCES: permission denied, " ++ op ++ suffix ++ reasonSuffix, truthy path,
    truthy (some op)⟩

/-- `normalizeFsPath` of `shared/permissions.ts`. -/
def normalizeFsPath (path : String) : String :=
  let p := squeeze '/' path.toList
  let resolved := walk ['.'] ['.', '.'] false 1 [] (p.splitOn '/')
  let p := ['/'].intercalate resolved
  let p := if p = [] then ['/'] else p
  String.ofList (stripSlash p)

/-- What the callback is shown. -/
def fsRequest (op : FsOp) (path : String) : FsAccessRequest := ⟨op, normalizeFsPath path⟩

def fsOpToSyscall : FsOp → String
  | .read => "open" | .write => "write" | .mkdir => "mkdir" | .createDir => "mkdir"
  | .readdir => "scandir" | .stat => "stat" | .rm => "unlink" | .rename => "rename"
  | .exists => "access" | .chmod => "chmod" | .chown => "chown" | .link => "link"
  | .symlink => "symlink" | .readlink => "readlink" | .truncate => "open" | .utimes => "utimes"

end Shared

namespace Kernel
open Segments

/-! ### The three normalisers -/

/-- The components a path is normalised to. -/
def resolved (p : String) : List (List Char) :=
  walk ['.'] ['.', '.'] true 0 [] (p.toList.splitOn '/')

variable (p : String)

theorem resolved_component : ∀ s ∈ resolved p, IsComponent s :=
  walk_steps _ _ (mem_of_mem_splitOn _) fun _ h => (nomatch h)

theorem normalizePath_toList : (normalizePath p).toList = join '/' (resolved p) :=
  (normalizePath_spells p).2

/-- Walks over words with the same parts end alike. -/
theorem walk_congr {w w' : List Char} (h : parts '/' w = parts '/' w') :
    walk ['.'] ['.', '.'] true 0 [] (w.splitOn '/') =
      walk ['.'] ['.', '.'] true 0 [] (w'.splitOn '/') := by
  rw [← walk_nonempty, ← walk_nonempty (w'.splitOn '/')]
  exact congrArg _ h

variable (w : List Char)

theorem parts_squeeze : parts '/' (squeeze '/' w) = parts '/' w := by
  obtain ⟨a, l, hal⟩ := exists_splitOn '/' w
  rw [parts, parts, splitOn_squeeze '/' w a l hal, hal, List.filter_cons, List.filter_cons,
    filter_squeezed]

/-- A separator at the end is no part. -/
theorem parts_dropLast {w : List Char} (h : w.getLast? = some '/') :
    parts '/' w.dropLast = parts '/' w := by
  have hw := List.dropLast_append_getLast? '/' h
  conv => rhs; rw [← hw]
  rw [parts, parts, splitOn_append_sep, List.filter_append]
  simp

theorem head_squeeze : (squeeze '/' w).head? = w.head? := by
  induction w with
  | nil => rfl
  | cons c t ih =>
      rw [squeeze]
      split
      · rename_i h
        rw [ih, h.2, h.1]
        rfl
      · rfl

theorem parts_stripSlash : parts '/' (stripSlash w) = parts '/' w := by
  rw [stripSlash]
  split
  · rename_i h
    exact parts_dropLast h.2
  · rfl

theorem head_stripSlash : (stripSlash w).head? = w.head? := by
  rw [stripSlash]
  split
  · rename_i h
    obtain ⟨a, b, t, rfl⟩ : ∃ a b t, w = a :: b :: t := by
      match w, h.1 with
      | a :: b :: t, _ => exact ⟨a, b, t, rfl⟩
    rfl
  · rfl

/-- What the kernel's normaliser computes. -/
theorem normalizeFsPath_eq : normalizeFsPath p =
    if p.toList.head? = some '/' then normalizePath p
    else if resolved p = [] then "." else String.ofList (['/'].intercalate (resolved p)) := by
  have hwalk : walk ['.'] ['.', '.'] true 0 []
      ((stripSlash (squeeze '/' p.toList)).splitOn '/') = resolved p :=
    walk_congr ((parts_stripSlash _).trans (parts_squeeze _))
  have hhead : (stripSlash (squeeze '/' p.toList)).head? = p.toList.head? :=
    (head_stripSlash _).trans (head_squeeze _)
  simp only [normalizeFsPath, hwalk, hhead]
  split
  · rw [if_pos (by simp)]
    refine String.toList_inj.mp ?_
    rw [String.toList_ofList, normalizePath_toList]
    rfl
  · rw [List.nil_append]
    by_cases hr : resolved p = []
    · simp [hr]
    · rw [if_neg hr, if_pos]
      obtain ⟨a, l, hal⟩ := List.exists_cons_of_ne_nil hr
      have ha := resolved_component p a (hal ▸ List.mem_cons_self)
      rw [hal]
      cases l with
      | nil =>
          rw [List.intercalate_singleton]
          exact ha.nonempty
      | cons b m =>
          rw [List.intercalate_cons_cons]
          simp

end Kernel

namespace Shared
open Segments Kernel

/-- The last segment of a squeezed path may be empty, and no other. -/
theorem squeezed_split {segs : List (List Char)} (h : segs ≠ []) :
    ∃ ns z, squeezed segs = ns ++ [z] ∧ ∀ s ∈ ns, s ≠ [] := by
  obtain ⟨l, z, rfl⟩ := (List.eq_nil_or_concat segs).resolve_left h
  refine ⟨l.filter (· ≠ []), z, by simp [squeezed], fun s hs => ?_⟩
  simpa using (List.mem_filter.mp hs).2

/-- What is left of an absolute path: the empty word for the root, the components, and the empty
word again where the path ended with a slash. -/
theorem walk_absolute {t : List Char} :
    ∃ z : List (List Char), (z = [] ∨ z = [[]]) ∧
      walk ['.'] ['.', '.'] false 1 [] ((squeeze '/' ('/' :: t)).splitOn '/') =
        [] :: walk ['.'] ['.', '.'] true 0 [] (('/' :: t).splitOn '/') ++ z := by
  obtain ⟨ns, z, hsq, hns⟩ := squeezed_split (List.splitOn_ne_nil '/' t)
  have hstart : walk ['.'] ['.', '.'] false 1 [] ((squeeze '/' ('/' :: t)).splitOn '/') =
      walk ['.'] ['.', '.'] false 1 [[]] (ns ++ [z]) := by
    rw [splitOn_squeeze '/' _ [] _ (splitOn_cons_sep t), hsq]
    rfl
  have hsteps : walk ['.'] ['.', '.'] true 0 [] (('/' :: t).splitOn '/') =
      walk ['.'] ['.', '.'] true 0 [] (ns ++ [z]) := by
    rw [← walk_nonempty, splitOn_cons_sep, List.filter_cons_of_neg (by simp), ← filter_squeezed, hsq,
      walk_nonempty]
  rw [hstart, hsteps]
  by_cases hz : z = []
  · refine ⟨[[]], .inr rfl, ?_⟩
    rw [walk_append, walk_append, walk_rooted ns [] hns, hz]
    rfl
  · refine ⟨[], .inl rfl, ?_⟩
    rw [List.append_nil]
    refine walk_rooted _ [] fun s hs => ?_
    rcases List.mem_append.mp hs with hs | hs
    · exact hns s hs
    · rw [List.mem_singleton.mp hs]
      exact hz

/-- What the shared normaliser makes of what is left. -/
theorem stripSlash_rooted {r z : List (List Char)} (h : ∀ s ∈ r, IsComponent s)
    (hz : z = [] ∨ z = [[]]) {w : List Char} (hw : w = ['/'].intercalate ([] :: r ++ z)) :
    stripSlash (if w = [] then ['/'] else w) = join '/' r := by
  have hroot : r ≠ [] → ['/'].intercalate ([] :: r) = join '/' r := fun hr => by
    rw [List.intercalate_cons_of_ne_nil hr]
    rfl
  rcases hz with rfl | rfl
  · rw [List.append_nil] at hw
    by_cases hr : r = []
    · subst hr hw
      rfl
    · rw [hw, hroot hr, if_neg (by simp [join]), stripSlash, if_neg fun hh => getLast_join h hr hh.2]
  · rw [intercalate_append [] r [[]] (by simp), List.intercalate_singleton] at hw
    rw [hw, if_neg (by simp), stripSlash]
    by_cases hr : r = []
    · subst hr
      rfl
    · rw [hroot hr, if_pos ⟨by simp [join], by simp⟩, List.dropLast_concat]

/-- On an absolute path the shared normaliser is the mount table's. -/
theorem normalizeFsPath_absolute {p : String} (h : p.toList.head? = some '/') :
    normalizeFsPath p = normalizePath p := by
  obtain ⟨t, ht⟩ : ∃ t, p.toList = '/' :: t := by
    cases hp : p.toList with
    | nil => rw [hp] at h; cases h
    | cons c t =>
        rw [hp] at h
        exact ⟨t, by rw [Option.some.inj h]⟩
  obtain ⟨z, hz, hwalk⟩ := walk_absolute (t := t)
  rw [← ht] at hwalk
  refine String.toList_inj.mp ?_
  rw [normalizePath_toList]
  simp only [normalizeFsPath, String.toList_ofList]
  exact stripSlash_rooted (resolved_component p) hz (congrArg _ hwalk)

end Shared

namespace Kernel
open Segments

/-- **What is checked is what is accessed**: both layers show the callback the path that the mount
table resolves, which is normalised: it spells components, and is its own normal form. -/
structure ChecksAccessed (path : String) : Prop where
  kernel : ∀ op, (fsRequest op path).path = normalizePath path
  shared : ∀ op, (Shared.fsRequest op path).path = normalizePath path
  idem : normalizePath (normalizePath path) = normalizePath path
  spelled : ∃ steps, Spells (normalizePath path) steps

/-- The path `p` says what the kernel's layer makes of a relative path: its components alone, and
`.` where none is left. -/
def StaysRelative (path p : String) : Prop :=
  p = if resolved path = [] then "." else String.ofList (['/'].intercalate (resolved path))

theorem startsWith_slash (path : String) :
    startsWith path "/" = true ↔ path.toList.head? = some '/' := by
  rw [startsWith, List.isPrefixOf_iff_prefix]
  change ['/'] <+: path.toList ↔ _
  cases path.toList with
  | nil => simp
  | cons c t => simp [eq_comm]

theorem checksAccessed_absolute {path : String} (h : path.toList.head? = some '/') :
    ChecksAccessed path := by
  refine ⟨fun op => ?_, fun op => Shared.normalizeFsPath_absolute h, normalizePath_idem path,
    ⟨_, normalizePath_spells path⟩⟩
  change normalizeFsPath path = normalizePath path
  rw [normalizeFsPath_eq, if_pos h]

/-- Components alone are resolved to themselves. -/
theorem resolved_intercalate {steps : List (List Char)} (h : ∀ s ∈ steps, IsComponent s)
    (hn : steps ≠ []) : resolved (String.ofList (['/'].intercalate steps)) = steps := by
  rw [resolved, String.toList_ofList, List.splitOn_intercalate '/' (fun s hs => (h s hs).whole) hn]
  exact (walk_of_steps _ _ h).trans (List.nil_append _)

theorem normalizeFsPath_idem (path : String) :
    normalizeFsPath (normalizeFsPath path) = normalizeFsPath path := by
  rw [normalizeFsPath_eq path]
  split
  · rw [normalizeFsPath_eq, if_pos (by rw [normalizePath_toList]; rfl), normalizePath_idem]
  · split
    · decide
    · rename_i hn
      have hr := resolved_intercalate (resolved_component path) hn
      rw [normalizeFsPath_eq, if_neg, hr, if_neg hn]
      rw [String.toList_ofList]
      exact head_intercalate (resolved_component path)

/-- **What is checked is what is accessed**, of every absolute path; and of a relative one the
kernel's layer shows the callback the components that the mount table resolves, without the root. -/
theorem checked_is_accessed (path : String) :
    (startsWith path "/" = true → ChecksAccessed path) ∧
      (startsWith path "/" = false → ∀ op, StaysRelative path (fsRequest op path).path) ∧
      normalizeFsPath (normalizeFsPath path) = normalizeFsPath path ∧
      normalizePath (normalizePath path) = normalizePath path ∧
      Spells (normalizePath path) (resolved path) := by
  refine ⟨fun h => checksAccessed_absolute ((startsWith_slash path).mp h), fun h op => ?_,
    normalizeFsPath_idem path, normalizePath_idem path, normalizePath_spells path⟩
  have hrel : path.toList.head? ≠ some '/' := fun hh => by
    rw [(startsWith_slash path).mpr hh] at h
    cases h
  exact (normalizeFsPath_eq path).trans (if_neg hrel)

theorem absolute_checked : ChecksAccessed "/home//user/./../file.txt/" :=
  (checked_is_accessed "/home//user/./../file.txt/").1 rfl

/-- The kernel's layer shows the callback `escape.txt`, the mount table resolves `/escape.txt`. -/
theorem relative_shown_relative :
    (fsRequest .write "../escape.txt").path = "escape.txt" ∧
      normalizePath "../escape.txt" = "/escape.txt" ∧ ¬ ChecksAccessed "../escape.txt" := by
  refine ⟨by decide, by decide, fun h => ?_⟩
  have hkernel := h.kernel .write
  revert hkernel
  decide

end Kernel

end SecureExec
