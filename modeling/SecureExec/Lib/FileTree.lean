import Mathlib.Data.List.Basic

/-!
# Lib — FileTree — directory trees with symbolic links

A tree says of each path, a list of names, what is there: a file with its content, a directory, or a
link.  `realpath` walks a path from the root, follows every link on its way and fails where nothing
is there, where a file is in the way, or after too many links.

A path is `Canonical` when the walk to it meets no link.  What `realpath` returns is canonical
(`realpath_canonical`), and a canonical path is its own `realpath` (`realpath_of_canonical`).
-/

namespace FileTree

variable {ν κ : Type}

/-- A step of a walk. -/
inductive Seg (ν : Type) where
  | up
  | name (n : ν)
  deriving DecidableEq

inductive Node (ν κ : Type) where
  | file (content : κ)
  | directory
  /-- A link, from the root or from the directory it is in. -/
  | link (rooted : Bool) (target : List (Seg ν))
  deriving DecidableEq

inductive Fault where
  | notFound | notDirectory | loop
  deriving DecidableEq

structure Tree (ν κ : Type) where
  entries : List (List ν × Node ν κ)

namespace Tree

variable [DecidableEq ν]

/-- What is at a path; the root is a directory. -/
def node (t : Tree ν κ) (p : List ν) : Option (Node ν κ) :=
  if p = [] then some .directory else t.entries.lookup p

/-! ### Walks -/

/-- Where a walk stops. -/
inductive Stop (ν : Type) where
  | arrived (p : List ν)
  /-- At a link in the directory `dir`, with the rest of the way. -/
  | follow (dir : List ν) (rooted : Bool) (target rest : List (Seg ν))

/-- The way to the next link. -/
def descend (t : Tree ν κ) (p : List ν) : List (Seg ν) → Except Fault (Stop ν)
  | [] => .ok (.arrived p)
  | .up :: segs => descend t p.dropLast segs
  | .name n :: segs =>
    match t.node (p ++ [n]) with
    | none => .error .notFound
    | some (.file _) => if segs = [] then .ok (.arrived (p ++ [n])) else .error .notDirectory
    | some .directory => descend t (p ++ [n]) segs
    | some (.link rooted target) => .ok (.follow p rooted target segs)

/-- The walk, over as many links as are `left`. -/
def walk (t : Tree ν κ) : Nat → List ν → List (Seg ν) → Except Fault (List ν)
  | left, p, segs =>
    match t.descend p segs with
    | .error e => .error e
    | .ok (.arrived q) => .ok q
    | .ok (.follow dir rooted target rest) =>
      match left with
      | 0 => .error .loop
      | left + 1 => walk t left (if rooted then [] else dir) (target ++ rest)

def realpath (t : Tree ν κ) (links : Nat) (segs : List (Seg ν)) : Except Fault (List ν) :=
  t.walk links [] segs

/-! ### Canonical paths -/

/-- A directory, and so is everything above it. -/
def Directories (t : Tree ν κ) (p : List ν) : Prop :=
  ∀ q, q <+: p → t.node q = some .directory

/-- What is there is no link, below directories. -/
def Canonical (t : Tree ν κ) (p : List ν) : Prop :=
  t.Directories p.dropLast ∧ (t.node p = some .directory ∨ ∃ content, t.node p = some (.file content))

variable {t : Tree ν κ} {p q : List ν} {n : ν} {segs : List (Seg ν)}

theorem mem_of_node {node : Node ν κ} (hp : p ≠ []) (h : t.node p = some node) :
    (p, node) ∈ t.entries := by
  rw [Tree.node, if_neg hp] at h
  obtain ⟨l₁, l₂, hl, -⟩ := List.lookup_eq_some_iff.mp h
  rw [hl]
  exact List.mem_append_right l₁ List.mem_cons_self

theorem directories_nil : t.Directories [] := by
  intro q hq
  rw [List.prefix_nil.mp hq]
  exact if_pos rfl

theorem Directories.dropLast (h : t.Directories p) : t.Directories p.dropLast :=
  fun q hq => h q (hq.trans (List.dropLast_prefix p))

theorem Directories.concat (h : t.Directories p) (hn : t.node (p ++ [n]) = some .directory) :
    t.Directories (p ++ [n]) := by
  intro q hq
  rcases List.prefix_concat_iff.mp hq with rfl | hq
  · exact hn
  · exact h q hq

theorem Directories.canonical (h : t.Directories p) : t.Canonical p :=
  ⟨h.dropLast, .inl (h p (List.prefix_refl p))⟩

/-- Where a walk from a directory stops. -/
theorem descend_canonical : ∀ (segs : List (Seg ν)) (p : List ν), t.Directories p →
    ∀ stop, t.descend p segs = .ok stop →
      (∀ q, stop = .arrived q → t.Canonical q) ∧
      ∀ dir rooted target rest, stop = .follow dir rooted target rest → t.Directories dir := by
  intro segs
  induction segs with
  | nil =>
      intro p h stop hs
      cases hs
      refine ⟨?_, fun _ _ _ _ hf => (nomatch hf)⟩
      rintro q ⟨⟩
      exact h.canonical
  | cons seg segs ih =>
      intro p h stop hs
      cases seg with
      | up => exact ih _ h.dropLast stop hs
      | name n =>
          rw [descend] at hs
          split at hs
          · cases hs
          · rename_i content hn
            split at hs
            · cases hs
              refine ⟨?_, fun _ _ _ _ hf => (nomatch hf)⟩
              rintro q ⟨⟩
              refine ⟨?_, .inr ⟨content, hn⟩⟩
              rw [List.dropLast_concat]
              exact h
            · cases hs
          · rename_i hn
            exact ih _ (h.concat hn) stop hs
          · cases hs
            refine ⟨fun q hf => (nomatch hf), ?_⟩
            rintro dir rooted target rest ⟨⟩
            exact h

theorem walk_canonical : ∀ (left : Nat) (p : List ν) (segs : List (Seg ν)), t.Directories p →
    ∀ q, t.walk left p segs = .ok q → t.Canonical q := by
  intro left
  induction left with
  | zero =>
      intro p segs h q hq
      rw [walk] at hq
      split at hq
      · cases hq
      · rename_i hd
        cases hq
        exact (descend_canonical segs p h _ hd).1 q rfl
      · cases hq
  | succ left ih =>
      intro p segs h q hq
      rw [walk] at hq
      split at hq
      · cases hq
      · rename_i hd
        cases hq
        exact (descend_canonical segs p h _ hd).1 q rfl
      · rename_i dir rooted target rest hd
        refine ih _ _ ?_ q hq
        cases rooted with
        | true => exact directories_nil
        | false => exact (descend_canonical segs p h _ hd).2 _ _ _ _ rfl

/-- **What `realpath` returns is canonical.** -/
theorem realpath_canonical {links : Nat} (h : t.realpath links segs = .ok q) : t.Canonical q :=
  walk_canonical links [] segs directories_nil q h

/-! ### Walks over directories -/

/-- The walk over names of directories goes straight on. -/
theorem descend_append : ∀ (names p : List ν) (segs : List (Seg ν)), t.Directories (p ++ names) →
    t.descend p (names.map .name ++ segs) = t.descend (p ++ names) segs := by
  intro names
  induction names with
  | nil =>
      intro p segs _
      rw [List.append_nil]
      rfl
  | cons n names ih =>
      intro p segs h
      have hn : t.node (p ++ [n]) = some .directory := h _ ⟨names, by simp⟩
      rw [List.map_cons, List.cons_append, descend, hn]
      refine (ih (p ++ [n]) segs ?_).trans ?_
      · simpa using h
      · rw [List.append_assoc]
        rfl

/-- **A canonical path is where it leads.** -/
theorem realpath_of_canonical (h : t.Canonical p) (links : Nat) :
    t.realpath links (p.map .name) = .ok p := by
  have hd : t.descend [] (p.map .name) = .ok (.arrived p) := by
    rcases List.eq_nil_or_concat p with rfl | ⟨front, n, rfl⟩
    · rfl
    · rw [List.concat_eq_append] at h ⊢
      have hfront : t.Directories front := by
        have hd := h.1
        rwa [List.dropLast_concat] at hd
      rw [List.map_append, List.map_cons, List.map_nil, descend_append front [] _ hfront,
        List.nil_append, descend]
      rcases h.2 with hn | ⟨content, hn⟩
      · rw [hn]
        rfl
      · rw [hn]
        rfl
  rw [realpath, walk, hd]

end Tree

end FileTree
