import SecureExec.Kernel.Permissions

/-!
# Node — Paths — the functions of `path.posix`

`normalize`, `join`, `resolve`, `relative`, `dirname` and `basename` of Node.  A path is a string; an
absolute one is read as the components that are left when `.` and `..` are followed
(`Kernel.resolved`).  `process.cwd()` is the parameter `cwd`.

`prefix_of_isWithinPath`: the test of `module-access.ts` for a path below another, in components.
-/

namespace NodePath
open SecureExec Segments Kernel

/-! ### The functions -/

def isAbsolute (p : String) : Bool := p.toList.head? = some '/'

/-- The absolute path of these components. -/
def ofSteps (steps : List (List Char)) : String := String.ofList (Segments.join '/' steps)

/-- The segments of a relative path; it keeps the `..` that lead out of where it starts. -/
def above : List (List Char) → List (List Char) → List (List Char)
  | steps, [] => steps
  | steps, seg :: segs =>
    if seg = ['.'] ∨ seg = [] then above steps segs
    else if seg = ['.', '.'] then
      above (if steps = [] ∨ steps.getLast? = some ['.', '.'] then steps ++ [seg]
        else steps.dropLast) segs
    else above (steps ++ [seg]) segs

def normalize (p : String) : String :=
  let trailing := p.toList.getLast? = some '/'
  if p = "" then "."
  else if isAbsolute p then
    let steps := resolved p
    if steps ≠ [] ∧ trailing then ofSteps steps ++ "/" else ofSteps steps
  else
    let steps := above [] (p.toList.splitOn '/')
    let body := if steps = [] then "." else String.ofList (['/'].intercalate steps)
    if trailing then body ++ "/" else body

def join (parts : List String) : String :=
  match parts.filter (· ≠ "") with
  | [] => "."
  | parts => normalize (String.ofList (['/'].intercalate (parts.map String.toList)))

/-- What `path.resolve` normalises. -/
def absolute (cwd p : String) : String := if isAbsolute p then p else cwd ++ "/" ++ p

def resolve (cwd p : String) : String := ofSteps (resolved (absolute cwd p))

/-- The way from one list of components to another. -/
def way : List (List Char) → List (List Char) → List (List Char)
  | a :: source, b :: target =>
    if a = b then way source target
    else List.replicate (source.length + 1) ['.', '.'] ++ b :: target
  | source, target => List.replicate source.length ['.', '.'] ++ target

def relative (cwd source target : String) : String :=
  if source = target then ""
  else String.ofList
    (['/'].intercalate (way (resolved (absolute cwd source)) (resolved (absolute cwd target))))

/-- Slashes at the end are no part of the last name. -/
def dirname (p : String) : String :=
  match p.toList with
  | [] => "."
  | c :: rest =>
    match (rest.reverse.dropWhile (· = '/')).dropWhile (· ≠ '/') with
    | [] => if c = '/' then "/" else "."
    | _ :: front => if c = '/' ∧ front = [] then "//" else String.ofList (c :: front.reverse)

def basename (p : String) : String :=
  String.ofList ((p.toList.reverse.dropWhile (· = '/')).takeWhile (· ≠ '/')).reverse

/-- `s.split("/")` -/
def split (s : String) : List String := (s.toList.splitOn '/').map String.ofList

/-- `isWithinPath` of `module-access.ts`. -/
def isWithinPath (cwd candidate parent : String) : Bool :=
  let relative := relative cwd parent candidate
  relative = "" ∨ (¬ startsWith relative ".." ∧ ¬ isAbsolute relative)

/-! ### Paths below a path -/

/-- The way out of a path that is no prefix begins with `..`. -/
theorem way_outside : ∀ {source target : List (List Char)}, ¬ source <+: target →
    ∃ rest, way source target = ['.', '.'] :: rest := by
  intro source
  induction source with
  | nil => exact fun h => (h List.nil_prefix).elim
  | cons a source ih =>
      intro target h
      cases target with
      | nil => exact ⟨_, rfl⟩
      | cons b target =>
          rw [way]
          split
          · rename_i hab
            refine ih fun hp => h ?_
            rw [hab]
            exact List.cons_prefix_cons.mpr ⟨rfl, hp⟩
          · exact ⟨_, rfl⟩

/-- A name is the start of what begins with it. -/
theorem prefix_intercalate (a : List Char) (l : List (List Char)) :
    a <+: ['/'].intercalate (a :: l) := by
  cases l with
  | nil =>
      have h : ['/'].intercalate [a] = a := List.intercalate_singleton ..
      exact h.symm ▸ List.prefix_refl a
  | cons b l =>
      rw [List.intercalate_cons_cons, List.append_assoc]
      exact List.prefix_append ..

/-- **What is within a path has its components first.** -/
theorem prefix_of_isWithinPath {cwd candidate parent : String}
    (h : isWithinPath cwd candidate parent = true) :
    resolved (absolute cwd parent) <+: resolved (absolute cwd candidate) := by
  by_contra hp
  obtain ⟨rest, hway⟩ := way_outside hp
  have hne : parent ≠ candidate := by
    rintro rfl
    exact hp (List.prefix_refl _)
  have hrel : relative cwd parent candidate =
      String.ofList (['/'].intercalate (['.', '.'] :: rest)) := by
    rw [relative, if_neg hne, hway]
  have hstart : startsWith (relative cwd parent candidate) ".." = true := by
    have hlist : (relative cwd parent candidate).toList = _ := hrel ▸ String.toList_ofList
    rw [startsWith, List.isPrefixOf_iff_prefix, hlist]
    exact prefix_intercalate ['.', '.'] rest
  have hempty : relative cwd parent candidate ≠ "" := by
    intro he
    rw [he] at hstart
    cases hstart
  simp only [isWithinPath, decide_eq_true_eq] at h
  rcases h with h | h
  · exact hempty h
  · exact h.1 hstart

end NodePath
