import SecureExec.Lib.Graph
import SecureExec.Vfs.Stores

/-!
# Vfs — Tree — what can happen to the names

The namespace of a metadata store, without sizes, times and contents: the entries, the inodes with
their type and link count, the symlink targets (`Ns`).  `NsStep` lists everything that can happen
to it: an inode is made under a name, gets another name, loses a name, a directory goes, an entry
moves.

* `NsOk` holds whatever paths the operations were called with: an entry's child and parent are
  there, a directory has one entry and counts its subdirectories, and a file or symlink counts at
  least its entries, so that it is never freed while it has one.
* `Tidy` holds as long as entries are made in directories only and no directory moves below itself
  (`NsStep` with `tidy`): it is the whole of what a directory tree is.
-/

namespace SecureExec.Vfs
open SecureExec Graph InMemoryMetadataStore Function PartialMap OMap

structure Node where
  type : InodeType
  nlink : Nat

/-- The namespace of a metadata store. -/
@[ext] structure Ns where
  entry : Nat × String → Option Nat
  node : Nat → Option Node
  target : Nat → Option String
  next : Nat

/-- The namespace. -/
def InMemoryMetadataStore.ns (m : InMemoryMetadataStore) : Ns where
  entry e := m.lookup e.1 e.2
  node ino := (m.inodes ino).map fun i => ⟨i.type, i.nlink⟩
  target := m.symlinkTargets
  next := m.nextIno

namespace Ns

def IsDir (s : Ns) (c : Nat) : Prop := ∃ n, s.node c = some n ∧ n.type = .directory

instance (s : Ns) (c : Nat) : Decidable (s.IsDir c) :=
  decidable_of_iff ((s.node c).map (·.type) = some .directory) Option.map_eq_some_iff

/-- The number of entries that refer to `c`. -/
noncomputable def refs (s : Ns) (c : Nat) : Nat := count s.entry fun _ x => x = c

/-- The number of subdirectories of `p`. -/
noncomputable def subdirs (s : Ns) (p : Nat) : Nat := count s.entry fun e x => e.1 = p ∧ s.IsDir x

/-! ### Changes -/

/-- The name `e` refers to `x`, or to nothing. -/
def setEntry (s : Ns) (e : Nat × String) (x : Option Nat) : Ns :=
  { s with entry := update s.entry e x }

/-- The link count of `c` changes. -/
def relink (s : Ns) (c : Nat) (f : Nat → Nat) : Ns :=
  { s with
    node := update s.node c ((s.node c).map fun n => { n with nlink := f n.nlink }) }

/-- A new inode, which nothing names. -/
def addNode (s : Ns) (n : Node) (target : Option String) : Ns :=
  { s with
    node := update s.node s.next (some n)
    target := if target.isSome then update s.target s.next target else s.target
    next := s.next + 1 }

/-- An inode goes, with what is named under it. -/
def dropNode (s : Ns) (c : Nat) : Ns :=
  { s with
    entry := fun x => if x.1 = c then none else s.entry x
    node := update s.node c none
    target := update s.target c none }

/-- An inode of type `t` is made under the name `e`. -/
def make (s : Ns) (e : Nat × String) (t : InodeType) (target : Option String) : Ns :=
  if t = .directory then
    ((s.addNode ⟨t, 2⟩ target).setEntry e (some s.next)).relink e.1 (· + 1)
  else (s.addNode ⟨t, 1⟩ target).setEntry e (some s.next)

/-- `c` gets the name `e`. -/
def link (s : Ns) (e : Nat × String) (c : Nat) : Ns :=
  (s.setEntry e (some c)).relink c (· + 1)

/-- The file or symlink `c` loses the name `e`, and goes when it counts no other. -/
def unlink (s : Ns) (e : Nat × String) (c : Nat) (n : Node) : Ns :=
  if n.nlink - 1 ≤ 0 then (s.setEntry e none).dropNode c
  else (s.setEntry e none).relink c (· - 1)

/-- The directory `c`, which has the name `e`, goes. -/
def rmdir (s : Ns) (e : Nat × String) (c : Nat) : Ns :=
  ((s.setEntry e none).dropNode c).relink e.1 (· - 1)

/-- `c` moves from the name `e` to the name `e'`. -/
def move (s : Ns) (e e' : Nat × String) (c : Nat) (n : Node) : Ns :=
  if n.type = .directory ∧ e.1 ≠ e'.1 then
    (((s.setEntry e none).setEntry e' (some c)).relink e.1 (· - 1)).relink e'.1 (· + 1)
  else (s.setEntry e none).setEntry e' (some c)

end Ns

/-- What an operation can do to the namespace, step by step.  When `tidy`, entries are made in
directories only, no directory moves below itself, and every inode has a name. -/
inductive NsStep (tidy : Prop) (s : Ns) : Ns → Prop where
  | make {e : Nat × String} (t : InodeType) (target : Option String)
      (ht : t = .symlink → target.isSome) (he : s.entry e = none)
      (hp : ∃ n, s.node e.1 = some n) (htidy : tidy → s.IsDir e.1) :
      NsStep tidy s (s.make e t target)
  | link {e : Nat × String} {c : Nat} {n : Node} (he : s.entry e = none)
      (hp : ∃ n, s.node e.1 = some n) (hn : s.node c = some n) (ht : n.type ≠ .directory)
      (htidy : tidy → s.IsDir e.1) : NsStep tidy s (s.link e c)
  | touch {e : Nat × String} {c : Nat} (he : s.entry e = some c) :
      NsStep tidy s (s.relink c fun n => max n 1)
  | unlink {e : Nat × String} {c : Nat} {n : Node} (he : s.entry e = some c)
      (hn : s.node c = some n) (ht : n.type ≠ .directory) : NsStep tidy s (s.unlink e c n)
  | rmdir {e : Nat × String} {c : Nat} (he : s.entry e = some c) (hc : s.IsDir c)
      (hempty : ∀ name, s.entry (c, name) = none) : NsStep tidy s (s.rmdir e c)
  | move {e e' : Nat × String} {c : Nat} {n : Node} (he : s.entry e = some c)
      (he' : s.entry e' = none) (hp : ∃ n, s.node e'.1 = some n) (hn : s.node c = some n)
      (htidy : tidy → s.IsDir e'.1 ∧ (n.type = .directory → ¬ Reaches s.entry c e'.1)) :
      NsStep tidy s (s.move e e' c n)
  | orphan (htidy : ¬ tidy) : NsStep tidy s (s.addNode ⟨.file, 1⟩ none)

/-- Names are added and none goes; what is added is no symlink. -/
structure Ns.Grows (s s' : Ns) : Prop where
  entries : ∀ e c, s.entry e = some c → s'.entry e = some c
  types : ∀ c n, s.node c = some n → ∃ n', s'.node c = some n' ∧ n'.type = n.type
  links : ∀ c n', s'.node c = some n' → n'.type = .symlink →
    ∃ n, s.node c = some n ∧ n.type = .symlink

/-- What holds of every namespace, but for the link counts. -/
structure NsShape (s : Ns) : Prop where
  finite : (dom s.entry).Finite
  root : s.IsDir 1
  child : ∀ e c, s.entry e = some c → ∃ n, s.node c = some n
  parent : ∀ e c, s.entry e = some c → ∃ n, s.node e.1 = some n
  fresh : ∀ c, s.next ≤ c → s.node c = none
  top : ∀ e, s.entry e ≠ some 1
  single : ∀ e e' c, s.entry e = some c → s.entry e' = some c → s.IsDir c → e = e'
  targets : ∀ c n, s.node c = some n → n.type = .symlink → (s.target c).isSome

/-- What holds of every namespace. -/
structure NsOk (s : Ns) : Prop extends NsShape s where
  dirs : ∀ c n, s.node c = some n → n.type = .directory → n.nlink = 2 + s.subdirs c
  files : ∀ c n, s.node c = some n → n.type ≠ .directory → s.refs c + s.subdirs c ≤ n.nlink

/-- What holds of a namespace that is a directory tree. -/
structure Tidy (s : Ns) : Prop where
  parents : ∀ e c, s.entry e = some c → s.IsDir e.1
  exact : ∀ c n, s.node c = some n → n.type ≠ .directory → n.nlink = s.refs c
  reached : ∀ c n, s.node c = some n → Reaches s.entry 1 c
  acyclic : Acyclic s.entry

variable {s s' : Ns} {e e' : Nat × String} {c p : Nat} {n : Node} {tidy : Prop}
  {target : Option String}

/-! ### The parts of a change -/

namespace Ns

theorem node_relink (s : Ns) (c : Nat) (f : Nat → Nat) (x : Nat) :
    (s.relink c f).node x =
      if x = c then (s.node x).map fun n => { n with nlink := f n.nlink } else s.node x := by
  by_cases hx : x = c
  · rw [if_pos hx, hx]
    exact update_self ..
  · rw [if_neg hx]
    exact update_of_ne hx _ _

variable {f : Nat → Nat} {x : Nat}

/-- Where an inode with a changed link count comes from. -/
theorem node_relink_some (hn : (s.relink c f).node x = some n) :
    ∃ n₀, s.node x = some n₀ ∧ n.type = n₀.type ∧
      n.nlink = if x = c then f n₀.nlink else n₀.nlink := by
  rw [node_relink] at hn
  split at hn
  · rename_i hx
    obtain ⟨n₀, hn₀, rfl⟩ := Option.map_eq_some_iff.mp hn
    exact ⟨n₀, hn₀, rfl, by rw [if_pos hx]⟩
  · rename_i hx
    exact ⟨n, hn, rfl, by rw [if_neg hx]⟩

theorem relink_some (hn : s.node x = some n) :
    ∃ n', (s.relink c f).node x = some n' ∧ n'.type = n.type := by
  rw [node_relink, hn]
  split
  · exact ⟨_, rfl, rfl⟩
  · exact ⟨n, rfl, rfl⟩

/-- The new link count was computed before. -/
theorem relink_const (hn : s.node c = some n) (f : Nat → Nat) :
    s.relink c (fun _ => f n.nlink) = s.relink c f := by
  rw [relink, relink, hn]
  rfl

theorem isDir_relink : (s.relink c f).IsDir x ↔ s.IsDir x := by
  constructor
  · rintro ⟨n, hn, hd⟩
    obtain ⟨n₀, hn₀, hty, -⟩ := node_relink_some hn
    exact ⟨n₀, hn₀, hty ▸ hd⟩
  · rintro ⟨n, hn, hd⟩
    obtain ⟨n', hn', hty⟩ := relink_some hn
    exact ⟨n', hn', hty.trans hd⟩

theorem subdirs_relink (s : Ns) (c : Nat) (f : Nat → Nat) (p : Nat) :
    (s.relink c f).subdirs p = s.subdirs p :=
  count_congr fun _ _ _ => and_congr_right fun _ => isDir_relink

theorem node_addNode (s : Ns) (n : Node) (target : Option String) (x : Nat) :
    (s.addNode n target).node x = if x = s.next then some n else s.node x :=
  update_apply ..

theorem entry_make (s : Ns) (e : Nat × String) (t : InodeType) (target : Option String) :
    (s.make e t target).entry = update s.entry e (some s.next) := by
  rw [make]
  split <;> rfl

variable {t : InodeType}

/-- Where an inode comes from once one was made. -/
theorem node_make (hp : e.1 ≠ s.next)
    (hn : (s.make e t target).node x = some n) :
    (x = s.next ∧ n = ⟨t, if t = .directory then 2 else 1⟩) ∨
      ∃ n₀, x ≠ s.next ∧ s.node x = some n₀ ∧ n.type = n₀.type ∧
        n.nlink = n₀.nlink + if t = .directory ∧ e.1 = x then 1 else 0 := by
  rw [make] at hn
  split at hn
  · rename_i hd
    obtain ⟨n₀, hn₀, hty, hl⟩ := node_relink_some hn
    change (s.addNode ⟨t, 2⟩ target).node x = some n₀ at hn₀
    rw [node_addNode] at hn₀
    split at hn₀
    · rename_i hx
      cases hn₀
      rw [if_neg (hx ▸ hp.symm)] at hl
      refine .inl ⟨hx, ?_⟩
      rw [if_pos hd]
      cases n
      cases hty
      cases hl
      rfl
    · rename_i hx
      refine .inr ⟨n₀, hx, hn₀, hty, ?_⟩
      rw [hl, if_congr (and_iff_right hd) rfl rfl]
      by_cases hxe : x = e.1
      · rw [if_pos hxe, if_pos hxe.symm]
      · rw [if_neg hxe, if_neg (Ne.symm hxe), Nat.add_zero]
  · rename_i hd
    change (s.addNode ⟨t, 1⟩ target).node x = some n at hn
    rw [node_addNode] at hn
    split at hn
    · rename_i hx
      cases hn
      exact .inl ⟨hx, by rw [if_neg hd]⟩
    · rename_i hx
      exact .inr ⟨n, hx, hn, rfl, by rw [if_neg fun h => hd h.1, Nat.add_zero]⟩

/-- An inode that was there when one was made. -/
theorem node_make_other (hx : x ≠ s.next) (hn : s.node x = some n) :
    ∃ n', (s.make e t target).node x = some n' ∧ n'.type = n.type := by
  have hadd : ∀ k, ((s.addNode ⟨t, k⟩ target).setEntry e (some s.next)).node x = some n := by
    intro k
    change (s.addNode ⟨t, k⟩ target).node x = some n
    rw [node_addNode, if_neg hx, hn]
  rw [make]
  split
  · exact relink_some (hadd 2)
  · exact ⟨n, hadd 1, rfl⟩

theorem isDir_make :
    (s.make e t target).IsDir x ↔ (x = s.next ∧ t = .directory) ∨ (x ≠ s.next ∧ s.IsDir x) := by
  have hadd : ∀ k, ((s.addNode ⟨t, k⟩ target).setEntry e (some s.next)).IsDir x ↔
      (x = s.next ∧ t = .directory) ∨ (x ≠ s.next ∧ s.IsDir x) := by
    intro k
    change (∃ n, (s.addNode ⟨t, k⟩ target).node x = some n ∧ _) ↔ _
    rw [node_addNode]
    by_cases hx : x = s.next
    · simp [hx]
    · simp [hx, IsDir]
  rw [make]
  split
  · exact isDir_relink.trans (hadd 2)
  · exact hadd 1

theorem node_dropNode_some :
    (s.dropNode c).node x = some n ↔ x ≠ c ∧ s.node x = some n :=
  erase_eq_some

theorem entry_dropNode_some {x : Nat × String} {y : Nat} :
    (s.dropNode c).entry x = some y ↔ x.1 ≠ c ∧ s.entry x = some y := by
  change (if x.1 = c then none else s.entry x) = some y ↔ _
  by_cases hx : x.1 = c
  · simp [hx]
  · simp [hx]

theorem isDir_dropNode : (s.dropNode c).IsDir x ↔ x ≠ c ∧ s.IsDir x := by
  simp only [IsDir, node_dropNode_some, and_assoc, exists_and_left]

namespace Grows

theorem refl (s : Ns) : s.Grows s :=
  ⟨fun _ _ he => he, fun _ n hn => ⟨n, hn, rfl⟩, fun _ n hn ht => ⟨n, hn, ht⟩⟩

theorem trans {s₁ : Ns} (h : s.Grows s₁) (h' : s₁.Grows s') : s.Grows s' := by
  refine ⟨fun e c he => h'.entries e c (h.entries e c he), fun c n hn => ?_, fun c n' hn' ht => ?_⟩
  · obtain ⟨n₁, hn₁, hty₁⟩ := h.types c n hn
    obtain ⟨n', hn', hty⟩ := h'.types c n₁ hn₁
    exact ⟨n', hn', hty.trans hty₁⟩
  · obtain ⟨n₁, hn₁, ht₁⟩ := h'.links c n' hn' ht
    exact h.links c n₁ hn₁ ht₁

end Grows

end Ns

namespace NsShape

section

variable (h : NsShape s)
include h

theorem ne_next (hn : s.node c = some n) : c ≠ s.next := by
  rintro rfl
  rw [h.fresh _ (Nat.le_refl _)] at hn
  cases hn

theorem entry_ne_next (he : s.entry e = some c) : c ≠ s.next := by
  obtain ⟨n, hn⟩ := h.child e c he
  exact h.ne_next hn

theorem parent_ne_next (he : s.entry e = some c) : e.1 ≠ s.next := by
  obtain ⟨n, hn⟩ := h.parent e c he
  exact h.ne_next hn

/-- A name that is made where there was none. -/
theorem grows_make {t : InodeType}
    (he : s.entry e = none) (hp : ∃ n, s.node e.1 = some n) (ht : t ≠ .symlink) :
    s.Grows (s.make e t target) := by
  have hpne : e.1 ≠ s.next := hp.elim fun _ hn => h.ne_next hn
  refine ⟨fun x y hxy => ?_, fun x n hn => Ns.node_make_other (h.ne_next hn) hn,
    fun x n' hn' hsym => ?_⟩
  · rw [Ns.entry_make, update_of_ne]
    · exact hxy
    · rintro rfl
      rw [he] at hxy
      cases hxy
  · rcases Ns.node_make hpne hn' with ⟨-, rfl⟩ | ⟨n, -, hn, hty, -⟩
    · exact absurd hsym ht
    · exact ⟨n, hn, hty ▸ hsym⟩

theorem refs_next : s.refs s.next = 0 :=
  (count_eq_zero h.finite).mpr fun _ _ he hx => h.entry_ne_next he hx

theorem subdirs_next : s.subdirs s.next = 0 :=
  (count_eq_zero h.finite).mpr fun _ _ he hx => h.parent_ne_next he hx.1

/-- An entry counts for the inode it refers to. -/
theorem refs_pos (he : s.entry e = some c) : 0 < s.refs c :=
  (count_pos h.finite).mpr ⟨e, c, he, rfl⟩

theorem relink (c : Nat) (f : Nat → Nat) : NsShape (s.relink c f) where
  finite := h.finite
  root := Ns.isDir_relink.mpr h.root
  child := fun x y hxy => (h.child x y hxy).elim fun _ hn => (Ns.relink_some hn).imp fun _ => And.left
  parent := fun x y hxy =>
    (h.parent x y hxy).elim fun _ hn => (Ns.relink_some hn).imp fun _ => And.left
  fresh := fun x hx => by rw [Ns.node_relink, h.fresh x hx]; simp
  top := h.top
  single := fun x x' y hx hx' hd => h.single x x' y hx hx' (Ns.isDir_relink.mp hd)
  targets := fun x n hn hs => by
    obtain ⟨n₀, hn₀, hty, -⟩ := Ns.node_relink_some hn
    exact h.targets x n₀ hn₀ (hty ▸ hs)

/-- A name that refers to nothing any more. -/
theorem erase (e : Nat × String) : NsShape (s.setEntry e none) := by
  have hold : ∀ {x y}, (s.setEntry e none).entry x = some y → s.entry x = some y := fun hx =>
    (erase_eq_some.mp hx).2
  exact ⟨finite_update h.finite e none, h.root, fun x y hx => h.child x y (hold hx),
    fun x y hx => h.parent x y (hold hx), h.fresh, fun x hx => h.top x (hold hx),
    fun x x' y hx hx' hd => h.single x x' y (hold hx) (hold hx') hd, h.targets⟩

/-- A new name, for a file or symlink, or for a directory that has none. -/
theorem set (hp : ∃ n, s.node e.1 = some n)
    (hn : s.node c = some n) (h1 : c ≠ 1)
    (hd : n.type = .directory → ∀ x, s.entry x ≠ some c) : NsShape (s.setEntry e (some c)) := by
  have hold : ∀ {x y}, (s.setEntry e (some c)).entry x = some y →
      (x = e ∧ y = c) ∨ (x ≠ e ∧ s.entry x = some y) := fun hx => set_eq_some.mp hx
  have hnone : ∀ {x}, s.IsDir c → s.entry x ≠ some c := by
    rintro x ⟨n', hn', hd'⟩
    rw [hn] at hn'
    cases hn'
    exact hd hd' x
  refine ⟨finite_update h.finite e _, h.root, fun x y hx => ?_, fun x y hx => ?_, h.fresh,
    fun x hx => ?_, fun x x' y hx hx' hdir => ?_, h.targets⟩
  · rcases hold hx with ⟨-, rfl⟩ | ⟨-, hx⟩
    · exact ⟨n, hn⟩
    · exact h.child x y hx
  · rcases hold hx with ⟨rfl, -⟩ | ⟨-, hx⟩
    · exact hp
    · exact h.parent x y hx
  · rcases hold hx with ⟨-, hc⟩ | ⟨-, hx⟩
    · exact h1 hc.symm
    · exact h.top x hx
  · rcases hold hx with ⟨rfl, rfl⟩ | ⟨-, hxy⟩
    · rcases hold hx' with ⟨rfl, -⟩ | ⟨-, hxy'⟩
      · rfl
      · exact absurd hxy' (hnone hdir)
    · rcases hold hx' with ⟨-, rfl⟩ | ⟨-, hxy'⟩
      · exact absurd hxy (hnone hdir)
      · exact h.single x x' y hxy hxy' hdir

theorem addNode (n : Node) (ht : n.type = .symlink → target.isSome) :
    NsShape (s.addNode n target) := by
  have hkeep : ∀ {x m}, s.node x = some m → (s.addNode n target).node x = some m := fun hm => by
    rw [Ns.node_addNode, if_neg (h.ne_next hm), hm]
  have hsome : ∀ {x}, (∃ m, s.node x = some m) → ∃ m, (s.addNode n target).node x = some m :=
    fun ⟨m, hm⟩ => ⟨m, hkeep hm⟩
  refine ⟨h.finite, ?_, fun x y hx => hsome (h.child x y hx), fun x y hx => hsome (h.parent x y hx),
    fun x hx => ?_, h.top, fun x x' y hx hx' hd => ?_, fun x m hm hs => ?_⟩
  · obtain ⟨m, hm, hd⟩ := h.root
    exact ⟨m, hkeep hm, hd⟩
  · rw [Ns.node_addNode, if_neg (Nat.ne_of_gt hx), h.fresh x (Nat.le_of_succ_le hx)]
  · obtain ⟨m, hm, hd⟩ := hd
    rw [Ns.node_addNode, if_neg (h.entry_ne_next hx)] at hm
    exact h.single x x' y hx hx' ⟨m, hm, hd⟩
  · rw [Ns.node_addNode] at hm
    change ((if target.isSome then update s.target s.next target else s.target) x).isSome
    split at hm
    · rename_i hx
      cases hm
      rw [if_pos (ht hs), hx, update_self]
      exact ht hs
    · rename_i hx
      split
      · rw [update_of_ne hx]
        exact h.targets x m hm hs
      · exact h.targets x m hm hs

/-- An inode goes that no entry refers to. -/
theorem dropNode (h1 : c ≠ 1) (hc : ∀ x, s.entry x ≠ some c) :
    NsShape (s.dropNode c) := by
  have hold : ∀ {x y}, (s.dropNode c).entry x = some y → x.1 ≠ c ∧ s.entry x = some y := fun hx =>
    Ns.entry_dropNode_some.mp hx
  have hkeep : ∀ {x}, x ≠ c → (∃ m, s.node x = some m) → ∃ m, (s.dropNode c).node x = some m :=
    fun hx ⟨m, hm⟩ => ⟨m, Ns.node_dropNode_some.mpr ⟨hx, hm⟩⟩
  refine ⟨h.finite.subset fun x ⟨y, hx⟩ => ⟨y, (hold hx).2⟩, Ns.isDir_dropNode.mpr ⟨h1.symm, h.root⟩,
    fun x y hx => hkeep ?_ (h.child x y (hold hx).2),
    fun x y hx => hkeep (hold hx).1 (h.parent x y (hold hx).2), fun x hx => ?_,
    fun x hx => h.top x (hold hx).2,
    fun x x' y hx hx' hd => h.single x x' y (hold hx).2 (hold hx').2 (Ns.isDir_dropNode.mp hd).2,
    fun x m hm hs => ?_⟩
  · rintro rfl
    exact hc x (hold hx).2
  · change update s.node c none x = none
    rw [update_apply, h.fresh x hx, ite_self]
  · obtain ⟨hx, hm⟩ := Ns.node_dropNode_some.mp hm
    change (update s.target c none x).isSome
    rw [update_of_ne hx]
    exact h.targets x m hm hs

/-! ### Counts -/

theorem refs_erase (he : s.entry e = some c) (x : Nat) :
    (s.setEntry e none).refs x + (if c = x then 1 else 0) = s.refs x :=
  count_erase h.finite he fun _ y => y = x

theorem refs_set (he : s.entry e = none) (c x : Nat) :
    (s.setEntry e (some c)).refs x = s.refs x + if c = x then 1 else 0 :=
  count_set h.finite he c fun _ y => y = x

theorem subdirs_erase (he : s.entry e = some c) (x : Nat) :
    (s.setEntry e none).subdirs x + (if e.1 = x ∧ s.IsDir c then 1 else 0) = s.subdirs x :=
  count_erase h.finite he fun e' y => e'.1 = x ∧ s.IsDir y

theorem subdirs_set (he : s.entry e = none) (c x : Nat) :
    (s.setEntry e (some c)).subdirs x = s.subdirs x + if e.1 = x ∧ s.IsDir c then 1 else 0 :=
  count_set h.finite he c fun e' y => e'.1 = x ∧ s.IsDir y

theorem subdirs_addNode (n : Node) (x : Nat) :
    (s.addNode n target).subdirs x = s.subdirs x := by
  refine count_congr fun e' y he' => and_congr_right fun _ => ?_
  rw [Ns.IsDir, Ns.node_addNode, if_neg (h.entry_ne_next he')]
  rfl

end

/-- An inode goes that no entry refers to. -/
theorem subdirs_dropNode (hc : ∀ e, s.entry e ≠ some c) {x : Nat} (hx : x ≠ c) :
    (s.dropNode c).subdirs x = s.subdirs x := by
  refine congrArg Set.ncard (Set.ext fun e' => exists_congr fun y => ?_)
  dsimp only
  rw [Ns.entry_dropNode_some, Ns.isDir_dropNode]
  constructor
  · rintro ⟨⟨-, he'⟩, hp, -, hd⟩
    exact ⟨he', hp, hd⟩
  · rintro ⟨he', hp, hd⟩
    exact ⟨⟨hp ▸ hx, he'⟩, hp, fun h => hc e' (h ▸ he'), hd⟩

variable (h : NsShape s)
include h

theorem make {t : InodeType} (ht : t = .symlink → target.isSome)
    (hp : ∃ n, s.node e.1 = some n) : NsShape (s.make e t target) := by
  have h1 : s.next ≠ 1 := fun h1 => by
    obtain ⟨n, hn, -⟩ := h.root
    exact h.ne_next hn h1.symm
  have hset : ∀ k, NsShape ((s.addNode ⟨t, k⟩ target).setEntry e (some s.next)) := by
    intro k
    have hnode : (s.addNode ⟨t, k⟩ target).node s.next = some ⟨t, k⟩ := by
      rw [Ns.node_addNode, if_pos rfl]
    refine (h.addNode ⟨t, k⟩ ht).set ?_ hnode h1 fun _ x hx => h.entry_ne_next hx rfl
    obtain ⟨n, hn⟩ := hp
    exact ⟨n, by rw [Ns.node_addNode, if_neg (h.ne_next hn), hn]⟩
  rw [Ns.make]
  split
  · exact (hset 2).relink _ _
  · exact hset 1

theorem refs_make (t : InodeType) (he : s.entry e = none) (x : Nat) :
    (s.make e t target).refs x = s.refs x + if s.next = x then 1 else 0 := by
  rw [Ns.refs, Ns.entry_make]
  exact h.refs_set he s.next x

theorem subdirs_make (t : InodeType) (he : s.entry e = none) (x : Nat) :
    (s.make e t target).subdirs x =
      s.subdirs x + if t = .directory ∧ e.1 = x then 1 else 0 := by
  have hset : ∀ k, ((s.addNode ⟨t, k⟩ target).setEntry e (some s.next)).subdirs x =
      s.subdirs x + if t = .directory ∧ e.1 = x then 1 else 0 := by
    intro k
    have hdir : (s.addNode ⟨t, k⟩ target).IsDir s.next ↔ t = .directory := by
      simp only [Ns.IsDir, Ns.node_addNode, if_pos, Option.some.injEq, exists_eq_left']
    -- the entries are those of `s`, but the types are those after the inode was made
    have hcount : ((s.addNode ⟨t, k⟩ target).setEntry e (some s.next)).subdirs x =
        (s.addNode ⟨t, k⟩ target).subdirs x +
          if e.1 = x ∧ (s.addNode ⟨t, k⟩ target).IsDir s.next then 1 else 0 :=
      count_set h.finite he s.next fun e' y => e'.1 = x ∧ (s.addNode ⟨t, k⟩ target).IsDir y
    rw [hcount, h.subdirs_addNode, if_congr ((and_congr_right fun _ => hdir).trans and_comm) rfl rfl]
  rw [Ns.make]
  split
  · rename_i hd
    subst hd
    rw [Ns.subdirs_relink, hset 2]
  · exact hset 1

theorem refs_dropNode_le (c x : Nat) : (s.dropNode c).refs x ≤ s.refs x :=
  count_le_of_sub h.finite fun _ _ he hx => ⟨(Ns.entry_dropNode_some.mp he).2, hx⟩

end NsShape

/-! ### Link counts -/

namespace NsOk

section

variable (h : NsOk s)
include h

/-- An inode that has a name is counted. -/
theorem nlink_pos (he : s.entry e = some c) (hn : s.node c = some n) :
    0 < n.nlink := by
  by_cases hd : n.type = .directory
  · rw [h.dirs c n hn hd]
    exact Nat.add_pos_left Nat.two_pos _
  · exact (h.refs_pos he).trans_le ((Nat.le_add_right _ _).trans (h.files c n hn hd))

/-- To count a name that is counted changes nothing. -/
theorem touch_eq (he : s.entry e = some c) : s.relink c (fun n => max n 1) = s := by
  have hnode : (s.node c).map (fun n => { n with nlink := max n.nlink 1 }) = s.node c := by
    obtain ⟨n, hn⟩ := h.child e c he
    rw [hn, Option.map_some, Nat.max_eq_left (h.nlink_pos he hn)]
  rw [Ns.relink, hnode, update_eq_self]

/-- An inode is made under a name. -/
theorem make {t : InodeType} (ht : t = .symlink → target.isSome)
    (he : s.entry e = none) (hp : ∃ n, s.node e.1 = some n) : NsOk (s.make e t target) := by
  have hp1 : e.1 ≠ s.next := hp.elim fun _ hn => h.ne_next hn
  refine ⟨h.toNsShape.make ht hp, fun x n hn hd => ?_, fun x n hn hd => ?_⟩
  · rw [h.subdirs_make t he]
    rcases Ns.node_make hp1 hn with ⟨rfl, rfl⟩ | ⟨n₀, -, hn₀, hty, hl⟩
    · rw [h.subdirs_next, if_neg (c := _ ∧ _) fun hx => hp1 hx.2]
      exact if_pos hd
    · rw [hl, h.dirs x n₀ hn₀ (hty ▸ hd), Nat.add_assoc]
  · rw [h.subdirs_make t he, h.refs_make t he]
    rcases Ns.node_make hp1 hn with ⟨rfl, rfl⟩ | ⟨n₀, hx, hn₀, hty, hl⟩
    · rw [h.refs_next, h.subdirs_next, if_pos rfl, if_neg (c := _ ∧ _) fun hx => hp1 hx.2]
      exact (if_neg hd).ge
    · rw [hl, if_neg (Ne.symm hx)]
      have hf := h.files x n₀ hn₀ (hty ▸ hd)
      omega

/-- An inode that nothing names yet. -/
theorem orphan : NsOk (s.addNode ⟨.file, 1⟩ none) := by
  refine ⟨h.addNode _ (by simp), fun x n hn hd => ?_, fun x n hn hd => ?_⟩
  · rw [h.subdirs_addNode]
    rw [Ns.node_addNode] at hn
    split at hn
    · cases hn
      cases hd
    · exact h.dirs x n hn hd
  · rw [h.subdirs_addNode]
    change s.refs x + s.subdirs x ≤ n.nlink
    rw [Ns.node_addNode] at hn
    split at hn
    · rename_i hx
      cases hn
      rw [hx, h.refs_next, h.subdirs_next]
      exact Nat.zero_le _
    · exact h.files x n hn hd

/-- A file or symlink gets another name. -/
theorem link (he : s.entry e = none) (hp : ∃ n, s.node e.1 = some n)
    (hn : s.node c = some n) (ht : n.type ≠ .directory) : NsOk (s.link e c) := by
  have hdir : ¬ s.IsDir c := by
    rintro ⟨n', hn', hd⟩
    rw [hn] at hn'
    cases hn'
    exact ht hd
  have hsub : ∀ x, (s.link e c).subdirs x = s.subdirs x := fun x => by
    rw [Ns.link, Ns.subdirs_relink, h.subdirs_set he, if_neg fun hx => hdir hx.2]
    rfl
  have href : ∀ x, (s.link e c).refs x = s.refs x + if c = x then 1 else 0 := h.refs_set he c
  refine ⟨(h.set hp hn (fun h1 => hdir (h1 ▸ h.root)) fun hd => absurd hd ht).relink _ _,
    fun x m hm hd => ?_, fun x m hm hd => ?_⟩
  · obtain ⟨m₀, hm₀, hty, hl⟩ := Ns.node_relink_some hm
    have hx : x ≠ c := fun hx => hdir ⟨m₀, hx ▸ hm₀, hty ▸ hd⟩
    rw [hsub, hl, if_neg hx]
    exact h.dirs x m₀ hm₀ (hty ▸ hd)
  · obtain ⟨m₀, hm₀, hty, hl⟩ := Ns.node_relink_some hm
    have hf := h.files x m₀ hm₀ (hty ▸ hd)
    rw [hsub, href, hl]
    by_cases hx : x = c
    · rw [if_pos hx, if_pos hx.symm]
      omega
    · rw [if_neg hx, if_neg (Ne.symm hx)]
      exact hf

end

/-- No entry refers to an inode whose only name is gone. -/
theorem unnamed (hs : ∀ e', s.entry e' = some c → e = e') (x : Nat × String) :
    (s.setEntry e none).entry x ≠ some c := by
  intro hx
  obtain ⟨hne, hx⟩ := erase_eq_some.mp hx
  exact hne (hs x hx).symm

variable (h : NsOk s)
include h

variable (he : s.entry e = some c)
include he

/-- A file or symlink loses a name that is not its last. -/
theorem unlinkOne (hn : s.node c = some n)
    (ht : n.type ≠ .directory) : NsOk ((s.setEntry e none).relink c (· - 1)) := by
  have hdir : ¬ s.IsDir c := by
    rintro ⟨n', hn', hd⟩
    rw [hn] at hn'
    cases hn'
    exact ht hd
  have hsub : ∀ x, ((s.setEntry e none).relink c (· - 1)).subdirs x = s.subdirs x := fun x => by
    rw [Ns.subdirs_relink, ← h.subdirs_erase he x, if_neg fun hx => hdir hx.2]
    rfl
  have href : ∀ x, ((s.setEntry e none).relink c (· - 1)).refs x + (if c = x then 1 else 0) =
      s.refs x := h.refs_erase he
  refine ⟨(h.erase e).relink _ _, fun x m hm hd => ?_, fun x m hm hd => ?_⟩
  · obtain ⟨m₀, hm₀, hty, hl⟩ := Ns.node_relink_some hm
    have hx : x ≠ c := fun hx => hdir ⟨m₀, hx ▸ hm₀, hty ▸ hd⟩
    rw [hsub, hl, if_neg hx]
    exact h.dirs x m₀ hm₀ (hty ▸ hd)
  · obtain ⟨m₀, hm₀, hty, hl⟩ := Ns.node_relink_some hm
    have hf := h.files x m₀ hm₀ (hty ▸ hd)
    have hr := href x
    rw [hsub, hl]
    by_cases hx : x = c
    · rw [if_pos hx]
      rw [if_pos hx.symm] at hr
      omega
    · rw [if_neg hx]
      rw [if_neg (Ne.symm hx)] at hr
      omega

/-- The last name of a file or symlink goes, and the inode with it. -/
theorem unlinkLast (hn : s.node c = some n)
    (ht : n.type ≠ .directory) (hl : n.nlink ≤ 1) : NsOk ((s.setEntry e none).dropNode c) := by
  have hdir : ¬ s.IsDir c := by
    rintro ⟨n', hn', hd⟩
    rw [hn] at hn'
    cases hn'
    exact ht hd
  have hone : s.refs c ≤ 1 := (Nat.le_add_right _ _).trans ((h.files c n hn ht).trans hl)
  have hlast := unnamed fun e' he' => eq_of_count_le_one h.finite hone he rfl he' rfl
  have hsub : ∀ x, x ≠ c → ((s.setEntry e none).dropNode c).subdirs x = s.subdirs x := by
    intro x hx
    rw [NsShape.subdirs_dropNode hlast hx, ← h.subdirs_erase he x, if_neg fun hx => hdir hx.2]
    rfl
  refine ⟨(h.erase e).dropNode (fun h1 => hdir (h1 ▸ h.root)) hlast, fun x m hm hd => ?_,
    fun x m hm hd => ?_⟩
  · obtain ⟨hx, hm⟩ := Ns.node_dropNode_some.mp hm
    rw [hsub x hx]
    exact h.dirs x m hm hd
  · obtain ⟨hx, hm⟩ := Ns.node_dropNode_some.mp hm
    have hr := h.refs_erase he x
    have hle := (h.erase e).refs_dropNode_le c x
    have hf := h.files x m hm hd
    rw [if_neg (Ne.symm hx)] at hr
    rw [hsub x hx]
    omega

/-- An empty directory goes. -/
theorem rmdir (hc : s.IsDir c)
    (hempty : ∀ name, s.entry (c, name) = none) : NsOk (s.rmdir e c) := by
  have h1 : c ≠ 1 := fun h1 => h.top e (h1 ▸ he)
  have hlast := unnamed fun e' he' => h.single e e' c he he' hc
  have hpc : e.1 ≠ c := by
    rintro rfl
    rw [hempty e.2] at he
    cases he
  have hsub : ∀ x, x ≠ c → (s.rmdir e c).subdirs x + (if e.1 = x then 1 else 0) = s.subdirs x := by
    intro x hx
    have hs := h.subdirs_erase he x
    simp only [hc, and_true] at hs
    rw [Ns.rmdir, Ns.subdirs_relink, NsShape.subdirs_dropNode hlast hx]
    exact hs
  refine ⟨((h.erase e).dropNode h1 hlast).relink _ _, fun x m hm hd => ?_, fun x m hm hd => ?_⟩
  · obtain ⟨m₀, hm₀, hty, hl⟩ := Ns.node_relink_some hm
    obtain ⟨hx, hm₀⟩ := Ns.node_dropNode_some.mp hm₀
    have hs := hsub x hx
    have hdirs := h.dirs x m₀ hm₀ (hty ▸ hd)
    rw [hl]
    by_cases hxe : x = e.1
    · rw [if_pos hxe]
      rw [if_pos hxe.symm] at hs
      omega
    · rw [if_neg hxe]
      rw [if_neg (Ne.symm hxe)] at hs
      omega
  · obtain ⟨m₀, hm₀, hty, hl⟩ := Ns.node_relink_some hm
    obtain ⟨hx, hm₀⟩ := Ns.node_dropNode_some.mp hm₀
    have hs := hsub x hx
    have hf := h.files x m₀ hm₀ (hty ▸ hd)
    have hr : (s.setEntry e none).refs x + (if c = x then 1 else 0) = s.refs x := h.refs_erase he x
    have hle : (s.rmdir e c).refs x ≤ (s.setEntry e none).refs x := (h.erase e).refs_dropNode_le c x
    rw [if_neg (Ne.symm hx)] at hr
    rw [hl]
    by_cases hxe : x = e.1
    · rw [if_pos hxe]
      rw [if_pos hxe.symm] at hs
      omega
    · rw [if_neg hxe]
      rw [if_neg (Ne.symm hxe)] at hs
      omega

/-- An entry moves. -/
theorem move (he' : s.entry e' = none)
    (hp : ∃ n, s.node e'.1 = some n) (hn : s.node c = some n) : NsOk (s.move e e' c n) := by
  have h1 : c ≠ 1 := fun h1 => h.top e (h1 ▸ he)
  have hdir : s.IsDir c ↔ n.type = .directory := by
    simp only [Ns.IsDir, hn, Option.some.injEq, exists_eq_left']
  have hdir' : (s.setEntry e none).IsDir c ↔ n.type = .directory := hdir
  have hnone : (s.setEntry e none).entry e' = none := by
    change update s.entry e none e' = none
    rw [update_apply, he', ite_self]
  have hshape : NsShape ((s.setEntry e none).setEntry e' (some c)) := by
    refine (h.erase e).set hp hn h1 fun hd => ?_
    exact unnamed fun e₂ he₂ => h.single e e₂ c he he₂ (hdir.mpr hd)
  have href : ∀ x, ((s.setEntry e none).setEntry e' (some c)).refs x = s.refs x := fun x => by
    rw [(h.erase e).refs_set hnone, h.refs_erase he]
  have hsub : ∀ x, ((s.setEntry e none).setEntry e' (some c)).subdirs x +
      (if e.1 = x ∧ n.type = .directory then 1 else 0) =
        s.subdirs x + if e'.1 = x ∧ n.type = .directory then 1 else 0 := fun x => by
    have hs := h.subdirs_erase he x
    have hs' := (h.erase e).subdirs_set hnone c x
    rw [if_congr (and_congr_right fun _ => hdir) rfl rfl] at hs
    rw [if_congr (and_congr_right fun _ => hdir') rfl rfl] at hs'
    omega
  by_cases hd : n.type = .directory ∧ e.1 ≠ e'.1
  · rw [Ns.move, if_pos hd]
    simp only [hd.1, and_true] at hsub
    refine ⟨(hshape.relink _ _).relink _ _, fun x m hm hdx => ?_, fun x m hm hdx => ?_⟩
    all_goals
      obtain ⟨m₁, hm₁, hty₁, hl₁⟩ := Ns.node_relink_some hm
      obtain ⟨m₀, hm₀, hty, hl⟩ := Ns.node_relink_some hm₁
      have hs := hsub x
      rw [Ns.subdirs_relink, Ns.subdirs_relink, hl₁, hl]
      simp only [eq_comm (a := x)]
    · have hdirs := h.dirs x m₀ hm₀ (hty ▸ hty₁ ▸ hdx)
      split at hs <;> split at hs <;> simp_all <;> omega
    · have hf := h.files x m₀ hm₀ (hty ▸ hty₁ ▸ hdx)
      have hr := href x
      change ((s.setEntry e none).setEntry e' (some c)).refs x + _ ≤ _
      split at hs <;> split at hs <;> simp_all <;> omega
  · rw [Ns.move, if_neg hd]
    have hsame : ∀ x, (e.1 = x ∧ n.type = .directory) ↔ (e'.1 = x ∧ n.type = .directory) := by
      intro x
      refine and_congr_left fun hty => ?_
      rw [not_not.mp fun hne => hd ⟨hty, hne⟩]
    have hsub' : ∀ x, ((s.setEntry e none).setEntry e' (some c)).subdirs x = s.subdirs x := by
      intro x
      have hs := hsub x
      rw [if_congr (hsame x) rfl rfl] at hs
      omega
    refine ⟨hshape, fun x m hm hdx => ?_, fun x m hm hdx => ?_⟩
    · rw [hsub']
      exact h.dirs x m hm hdx
    · rw [hsub', href]
      exact h.files x m hm hdx

end NsOk

/-- **What one change does to the counts.** -/
theorem NsStep.ok (h : NsOk s) (hs : NsStep tidy s s') : NsOk s' := by
  cases hs with
  | make t target ht he hp htidy => exact h.make ht he hp
  | link he hp hn ht htidy => exact h.link he hp hn ht
  | touch he => exact (h.touch_eq he).symm ▸ h
  | unlink he hn ht =>
      rw [Ns.unlink]
      split
      · rename_i hl
        exact h.unlinkLast he hn ht (by omega)
      · exact h.unlinkOne he hn ht
  | rmdir he hc hempty => exact h.rmdir he hc hempty
  | move he he' hp hn htidy => exact h.move he he' hp hn
  | orphan htidy => exact h.orphan

/-! ### Directory trees -/

namespace Tidy

/-- Nothing is named under a file or symlink. -/
theorem leaf (hd : Tidy s) (hn : s.node c = some n) (ht : n.type ≠ .directory) (k : String) :
    s.entry (c, k) = none := by
  rcases hk : s.entry (c, k) with _ | x
  · rfl
  · obtain ⟨n', hn', hd'⟩ := hd.parents _ x hk
    rw [hn] at hn'
    cases hn'
    exact absurd hd' ht

/-- A file or symlink leads nowhere. -/
theorem not_reaches (hd : Tidy s) (hn : s.node c = some n) (ht : n.type ≠ .directory)
    (hp : s.IsDir p) : ¬ Reaches s.entry c p := by
  refine not_reaches_of_leaf (hd.leaf hn ht) ?_
  rintro rfl
  obtain ⟨n', hn', hd'⟩ := hp
  rw [hn] at hn'
  cases hn'
  exact ht hd'

variable (h : NsOk s)
include h

theorem make (hd : Tidy s) (t : InodeType) (he : s.entry e = none)
    (hp : s.IsDir e.1) : Tidy (s.make e t target) := by
  obtain ⟨np, hnp, hdp⟩ := hp
  have hp1 : e.1 ≠ s.next := h.ne_next hnp
  have hkeep : ∀ a b, Edge s.entry a b → Edge (s.make e t target).entry a b := fun a b hab => by
    rw [Ns.entry_make]
    exact edge_set_of he hab
  refine ⟨fun x y hx => Ns.isDir_make.mpr ?_, fun x n hn ht => ?_, fun x n hn => ?_, ?_⟩
  · rw [Ns.entry_make] at hx
    rcases set_eq_some.mp hx with ⟨rfl, -⟩ | ⟨-, hx⟩
    · exact .inr ⟨hp1, np, hnp, hdp⟩
    · exact .inr ⟨h.parent_ne_next hx, hd.parents x y hx⟩
  · rw [h.refs_make t he]
    rcases Ns.node_make hp1 hn with ⟨rfl, rfl⟩ | ⟨n₀, hx, hn₀, hty, hl⟩
    · rw [h.refs_next, if_pos rfl]
      exact if_neg ht
    · have hxe : e.1 ≠ x := by
        rintro rfl
        rw [hnp] at hn₀
        cases hn₀
        exact ht (hty.trans hdp)
      rw [if_neg (Ne.symm hx), hl, if_neg fun hx => hxe hx.2]
      exact hd.exact x n₀ hn₀ (hty ▸ ht)
  · rcases Ns.node_make hp1 hn with ⟨rfl, rfl⟩ | ⟨n₀, -, hn₀, -, -⟩
    · refine ((hd.reached e.1 np hnp).mono hkeep).tail ⟨e.2, ?_⟩
      rw [Ns.entry_make]
      exact update_self ..
    · exact (hd.reached x n₀ hn₀).mono hkeep
  · rw [Ns.entry_make]
    refine acyclic_add hd.acyclic (fun _ _ => edge_set)
      (not_reaches_of_leaf (fun k => ?_) hp1.symm)
    rcases hk : s.entry (s.next, k) with _ | y
    · rfl
    · exact absurd rfl (h.parent_ne_next hk)

theorem link (hd : Tidy s) (he : s.entry e = none) (hp : s.IsDir e.1)
    (hn : s.node c = some n) (ht : n.type ≠ .directory) : Tidy (s.link e c) := by
  have href : ∀ x, (s.link e c).refs x = s.refs x + if c = x then 1 else 0 := h.refs_set he c
  refine ⟨fun x y hx => Ns.isDir_relink.mpr ?_, fun x m hm htx => ?_, fun x m hm => ?_, ?_⟩
  · rcases set_eq_some.mp hx with ⟨rfl, -⟩ | ⟨-, hx⟩
    · exact hp
    · exact hd.parents x y hx
  · obtain ⟨m₀, hm₀, hty, hl⟩ := Ns.node_relink_some hm
    rw [href, hl, ← hd.exact x m₀ hm₀ (hty ▸ htx)]
    by_cases hx : x = c
    · rw [if_pos hx, if_pos hx.symm]
    · rw [if_neg hx, if_neg (Ne.symm hx), Nat.add_zero]
  · obtain ⟨m₀, hm₀, -, -⟩ := Ns.node_relink_some hm
    exact (hd.reached x m₀ hm₀).mono fun _ _ => edge_set_of he
  · exact acyclic_add hd.acyclic (fun _ _ => edge_set) (hd.not_reaches hn ht hp)

/-- A file or symlink loses a name that is not its last. -/
theorem unlinkOne (hd : Tidy s) (he : s.entry e = some c) (hn : s.node c = some n)
    (ht : n.type ≠ .directory) (hl : 1 < n.nlink) :
    Tidy ((s.setEntry e none).relink c (· - 1)) := by
  have href : ∀ x, ((s.setEntry e none).relink c (· - 1)).refs x + (if c = x then 1 else 0) =
      s.refs x := h.refs_erase he
  have hreach : ∀ x m, x ≠ c → s.node x = some m →
      Reaches (update s.entry e none) 1 x := fun x m hx hm =>
    reaches_erase he (hd.leaf hn ht) (hd.reached x m hm) hx
  refine ⟨fun x y hx => Ns.isDir_relink.mpr ?_, fun x m hm htx => ?_, fun x m hm => ?_, ?_⟩
  · exact hd.parents x y (erase_eq_some.mp hx).2
  · obtain ⟨m₀, hm₀, hty, hl₀⟩ := Ns.node_relink_some hm
    have hex := hd.exact x m₀ hm₀ (hty ▸ htx)
    have hr := href x
    by_cases hx : x = c
    · rw [if_pos hx] at hl₀
      rw [if_pos hx.symm] at hr
      omega
    · rw [if_neg hx] at hl₀
      rw [if_neg (Ne.symm hx)] at hr
      omega
  · obtain ⟨m₀, hm₀, -, -⟩ := Ns.node_relink_some hm
    by_cases hx : x = c
    · -- another name of `c`, whose directory is reached
      subst hx
      have hr := h.refs_erase he x
      rw [if_pos rfl, ← hd.exact x n hn ht] at hr
      have hpos : 0 < (s.setEntry e none).refs x := by omega
      obtain ⟨e₂, _, he₂, rfl⟩ := (count_pos (finite_update h.finite e none)).mp hpos
      have he₂s := (erase_eq_some.mp he₂).2
      obtain ⟨m₂, hm₂, hd₂⟩ := hd.parents e₂ _ he₂s
      refine (hreach e₂.1 m₂ ?_ hm₂).tail ⟨e₂.2, he₂⟩
      rintro rfl
      rw [hn] at hm₂
      cases hm₂
      exact ht hd₂
    · exact hreach x m₀ hx hm₀
  · exact hd.acyclic.mono fun _ _ => edge_erase

/-- The last name of an inode goes, and the inode with it, under which nothing is named. -/
theorem drop (hd : Tidy s) (he : s.entry e = some c)
    (hempty : ∀ name, s.entry (c, name) = none) : Tidy ((s.setEntry e none).dropNode c) := by
  have hent : ((s.setEntry e none).dropNode c).entry = update s.entry e none := by
    funext x
    change (if x.1 = c then none else update s.entry e none x) = _
    split
    · obtain ⟨p, k⟩ := x
      rename_i hx
      cases hx
      rw [update_apply, hempty k, ite_self]
    · rfl
  have href : ∀ x, x ≠ c → ((s.setEntry e none).dropNode c).refs x = s.refs x := fun x hx => by
    have hr := h.refs_erase he x
    rw [if_neg (Ne.symm hx)] at hr
    rw [Ns.refs, hent]
    exact hr
  refine ⟨fun x y hx => Ns.isDir_dropNode.mpr ?_, fun x m hm ht => ?_, fun x m hm => ?_, ?_⟩
  · obtain ⟨hxc, hx⟩ := Ns.entry_dropNode_some.mp hx
    exact ⟨hxc, hd.parents x y (erase_eq_some.mp hx).2⟩
  · obtain ⟨hx, hm⟩ := Ns.node_dropNode_some.mp hm
    rw [href x hx]
    exact hd.exact x m hm ht
  · obtain ⟨hx, hm⟩ := Ns.node_dropNode_some.mp hm
    rw [hent]
    exact reaches_erase he hempty (hd.reached x m hm) hx
  · rw [hent]
    exact hd.acyclic.mono fun _ _ => edge_erase

omit h in
/-- The link count of a directory changes. -/
theorem relink (hd : Tidy s) (hp : s.IsDir p) (f : Nat → Nat) : Tidy (s.relink p f) := by
  refine ⟨fun x y hx => Ns.isDir_relink.mpr (hd.parents x y hx), fun x m hm ht => ?_,
    fun x m hm => ?_, hd.acyclic⟩
  · obtain ⟨m₀, hm₀, hty, hl⟩ := Ns.node_relink_some hm
    have hx : x ≠ p := by
      rintro rfl
      obtain ⟨m', hm', hd'⟩ := hp
      rw [show s.node x = some m₀ from hm₀] at hm'
      cases hm'
      exact ht (hty.trans hd')
    rw [hl, if_neg hx]
    exact hd.exact x m₀ hm₀ (hty ▸ ht)
  · obtain ⟨m₀, hm₀, -, -⟩ := Ns.node_relink_some hm
    exact hd.reached x m₀ hm₀

theorem move (hd : Tidy s) (he : s.entry e = some c) (he' : s.entry e' = none)
    (hp : s.IsDir e'.1) (hn : s.node c = some n)
    (hc : n.type = .directory → ¬ Reaches s.entry c e'.1) : Tidy (s.move e e' c n) := by
  have hc' : ¬ Reaches s.entry c e'.1 := by
    by_cases ht : n.type = .directory
    · exact hc ht
    · exact hd.not_reaches hn ht hp
  have hnone : (s.setEntry e none).entry e' = none := by
    change update s.entry e none e' = none
    rw [update_apply, he', ite_self]
  have hset : Tidy ((s.setEntry e none).setEntry e' (some c)) := by
    refine ⟨fun x y hx => ?_, fun x m hm ht => ?_, fun x m hm => ?_, ?_⟩
    · rcases set_eq_some.mp hx with ⟨rfl, -⟩ | ⟨-, hx⟩
      · exact hp
      · exact hd.parents x y (erase_eq_some.mp hx).2
    · rw [(h.erase e).refs_set hnone, h.refs_erase he]
      exact hd.exact x m hm ht
    · obtain ⟨m', hm', -⟩ := hp
      exact reaches_move he he' (hd.reached e'.1 m' hm') hc' (hd.reached x m hm)
    · have herase : Acyclic (update s.entry e none) :=
        hd.acyclic.mono fun _ _ => edge_erase
      refine acyclic_add herase (fun _ _ => edge_set) fun hr => hc' ?_
      exact hr.mono fun _ _ => edge_erase
  rw [Ns.move]
  split
  · exact (hset.relink (hd.parents e c he) _).relink (Ns.isDir_relink.mpr hp) _
  · exact hset

end Tidy

/-- **What one change does to a directory tree.** -/
theorem NsStep.keepsTidy (h : NsOk s) (hd : Tidy s) (htidy : tidy) (hs : NsStep tidy s s') :
    Tidy s' := by
  cases hs with
  | make t target ht he hp hdir => exact hd.make h t he (hdir htidy)
  | link he hp hn ht hdir => exact hd.link h he (hdir htidy) hn ht
  | touch he => exact (h.touch_eq he).symm ▸ hd
  | unlink he hn ht =>
      rw [Ns.unlink]
      split
      · exact hd.drop h he (hd.leaf hn ht)
      · exact hd.unlinkOne h he hn ht (by omega)
  | rmdir he hc hempty =>
      have hdrop := hd.drop h he hempty
      refine hdrop.relink (Ns.isDir_dropNode.mpr ⟨?_, hd.parents _ _ he⟩) _
      rintro rfl
      rw [hempty] at he
      cases he
  | move he he' hp hn hdir => exact hd.move h he he' (hdir htidy).1 hn (hdir htidy).2
  | orphan hnot => exact absurd htidy hnot

/-! ### Runs of changes -/

/-- A run of changes. -/
def NsRun (tidy : Prop) : Ns → Ns → Prop := Relation.ReflTransGen (NsStep tidy)

theorem NsRun.ok (h : NsOk s) (hs : NsRun tidy s s') : NsOk s' := by
  induction hs with
  | refl => exact h
  | tail _ hstep ih => exact hstep.ok ih

theorem NsRun.keepsTidy (h : NsOk s) (hd : Tidy s) (htidy : tidy) (hs : NsRun tidy s s') :
    Tidy s' := by
  induction hs with
  | refl => exact hd
  | tail hr hstep ih => exact hstep.keepsTidy (NsRun.ok h hr) ih htidy

/-! ### The operations of the store -/

section Store
variable {m m' : InMemoryMetadataStore} {ino child : Nat} {name : String} {i : InodeMeta}

theorem node_ns (hi : m.inodes ino = some i) : m.ns.node ino = some ⟨i.type, i.nlink⟩ := by
  change (m.inodes ino).map _ = _
  rw [hi, Option.map_some]

theorem node_ns_some (hn : m.ns.node ino = some n) :
    ∃ i, m.inodes ino = some i ∧ n = ⟨i.type, i.nlink⟩ := by
  obtain ⟨i, hi, rfl⟩ := Option.map_eq_some_iff.mp hn
  exact ⟨i, hi, rfl⟩

variable {g : InodeMeta → InodeMeta}

/-- An update of an inode that may change its link count. -/
theorem ns_updateInode {f : Nat → Nat}
    (hg : ∀ i, m.inodes ino = some i → (g i).type = i.type ∧ (g i).nlink = f i.nlink) :
    (m.updateInode ino g).ns = m.ns.relink ino f := by
  cases hi : m.inodes ino with
  | none =>
      rw [InMemoryMetadataStore.updateInode, hi]
      dsimp only
      refine Ns.ext rfl (funext fun x => ?_) rfl rfl
      rw [Ns.node_relink]
      split
      · rename_i hx
        rw [hx]
        change (m.inodes ino).map _ = ((m.inodes ino).map _).map _
        rw [hi]
        rfl
      · rfl
  | some i =>
      obtain ⟨hty, hl⟩ := hg i hi
      rw [InMemoryMetadataStore.updateInode, hi]
      refine Ns.ext rfl (funext fun x => ?_) rfl rfl
      rw [Ns.node_relink]
      change (update m.inodes ino (some (g i)) x).map _ =
        if x = ino then ((m.inodes x).map _).map _ else (m.inodes x).map _
      by_cases hx : x = ino
      · rw [if_pos hx, hx, update_self, hi]
        simp only [Option.map_some, hty, hl]
      · rw [if_neg hx, update_of_ne hx]

/-- An update of an inode that leaves its link count. -/
theorem ns_updateInode_same
    (hg : ∀ i, m.inodes ino = some i → (g i).type = i.type ∧ (g i).nlink = i.nlink) :
    (m.updateInode ino g).ns = m.ns := by
  refine (ns_updateInode (f := id) hg).trans (Ns.ext rfl (funext fun x => ?_) rfl rfl)
  rw [Ns.node_relink]
  split
  · exact Option.map_id'.symm ▸ rfl
  · rfl

theorem ns_removeDentry (m : InMemoryMetadataStore) (p : Nat) (name : String) :
    (m.removeDentry p name).ns = m.ns.setEntry (p, name) none := by
  have hent : ∀ e : Nat × String, (m.removeDentry p name).lookup e.1 e.2 =
      update m.ns.entry (p, name) none e := by
    rintro ⟨q, k⟩
    rw [update_apply]
    unfold removeDentry
    cases hd : m.dentries p with
    | none =>
        by_cases he : (q, k) = (p, name)
        · cases he
          rw [if_pos rfl, lookup, hd]
        · rw [if_neg he]
          rfl
    | some dir =>
        change lookup { m with dentries := _ } q k =
          if (q, k) = (p, name) then none else m.lookup q k
        simp only [lookup, Prod.mk.injEq]
        by_cases hq : q = p
        · subst hq
          rw [update_self, hd]
          simp only [get_delete, true_and]
          split
          · rfl
          · rfl
        · rw [update_of_ne hq, if_neg fun h => hq h.1]
  refine Ns.ext (funext hent) ?_ ?_ ?_
  all_goals
    unfold removeDentry
    cases m.dentries p <;> rfl

theorem ns_createDentry {t : InodeType} (h : m.createDentry ino name child t = .ok m') :
    m'.ns = m.ns.setEntry (ino, name) (some child) := by
  simp only [createDentry] at h
  split at h
  · cases h
  · cases h
    refine Ns.ext (funext fun e => ?_) rfl rfl rfl
    obtain ⟨q, k⟩ := e
    change lookup { m with dentries := _ } q k =
      update m.ns.entry (ino, name) (some child) (q, k)
    rw [update_apply]
    simp only [lookup, Prod.mk.injEq]
    by_cases hq : q = ino
    · subst hq
      simp only [update_self, get_set, true_and]
      split
      · rfl
      · change _ = m.lookup q k
        rw [lookup]
        cases m.dentries q <;> rfl
    · rw [update_of_ne hq, if_neg fun h => hq h.1]
      rfl

/-- A name that is not there can be given. -/
theorem createDentry_ok (h : m.lookup ino name = none) (child : Nat) (t : InodeType) :
    ∃ m', m.createDentry ino name child t = .ok m' := by
  unfold createDentry
  have hhas : ((m.dentries ino).getD empty).has name = false := by
    rw [lookup] at h
    cases hd : m.dentries ino with
    | none => rfl
    | some dir =>
        rw [hd] at h
        rw [Option.getD_some, has, Option.map_eq_none_iff.mp h]
        rfl
  simp only [hhas, Bool.false_eq_true, if_false]
  exact ⟨_, rfl⟩

theorem ns_createInode (h : NsShape m.ns) (attrs : CreateInodeAttrs) (now : Nat) :
    (m.createInode attrs now).2.ns =
      m.ns.addNode ⟨attrs.type, 0⟩ (if attrs.type = .symlink then attrs.symlinkTarget else none) := by
  refine Ns.ext (funext fun e => ?_) (funext fun x => ?_) ?_ rfl
  · obtain ⟨q, k⟩ := e
    change (m.createInode attrs now).2.lookup q k = m.lookup q k
    simp only [lookup, createInode]
    by_cases hd : attrs.type = .directory
    · rw [if_pos hd]
      by_cases hq : q = m.nextIno
      · -- nothing was named under a number that was not given yet
        have hnone : m.lookup q k = none := by
          rcases hl : m.lookup q k with _ | x
          · rfl
          · exact absurd hq (h.parent_ne_next (e := (q, k)) hl)
        rw [lookup] at hnone
        rw [hnone, hq, update_self]
        rfl
      · rw [update_of_ne hq]
    · rw [if_neg hd]
  · rw [Ns.node_addNode]
    change (update m.inodes m.nextIno _ x).map _ =
      if x = m.nextIno then _ else (m.inodes x).map _
    by_cases hx : x = m.nextIno
    · rw [if_pos hx, hx, update_self]
      rfl
    · rw [if_neg hx, update_of_ne hx]
  · change (if _ then _ else _) = if Option.isSome (if _ then _ else _) then _ else _
    by_cases hs : attrs.type = .symlink
    · simp only [hs, true_and, if_true]
      rfl
    · simp only [hs, false_and, if_false]
      rfl

theorem ns_deleteInode (m : InMemoryMetadataStore) (ino : Nat) :
    (m.deleteInode ino).ns = m.ns.dropNode ino := by
  refine Ns.ext (funext fun e => ?_) (funext fun x => ?_) rfl rfl
  · obtain ⟨q, k⟩ := e
    have hd : (m.deleteInode ino).dentries = update m.dentries ino none := rfl
    change (m.deleteInode ino).lookup q k = if q = ino then none else m.lookup q k
    rw [lookup, lookup, hd]
    by_cases hq : q = ino
    · rw [if_pos hq, hq, update_self]
    · rw [if_neg hq, update_of_ne hq]
  · change (update m.inodes ino none x).map _ =
      update m.ns.node ino none x
    by_cases hx : x = ino
    · rw [hx, update_self, update_self]
      rfl
    · rw [update_of_ne hx, update_of_ne hx]
      rfl

theorem ns_renameDentry {q : Nat} {k l : String} (h : m.lookup p k = some child) :
    (m.renameDentry p k q l).ns =
      (m.ns.setEntry (p, k) none).setEntry (q, l) (some child) := by
  rw [lookup] at h
  cases hd : m.dentries p with
  | none =>
      rw [hd] at h
      cases h
  | some dir =>
      rw [hd] at h
      obtain ⟨entry, he, rfl⟩ := Option.map_eq_some_iff.mp h
      unfold renameDentry
      simp only [hd, he]
      refine Ns.ext (funext fun e => ?_) rfl rfl rfl
      obtain ⟨a, b⟩ := e
      change lookup { m with dentries := _ } a b =
        update (update m.ns.entry (p, k) none) (q, l) (some entry.childIno) (a, b)
      simp only [lookup, update_apply, Prod.mk.injEq]
      -- the destination's map is read after the source's name is gone
      by_cases haq : a = q
      · subst haq
        simp only [if_true, true_and]
        by_cases hap : a = p
        · subst hap
          simp only [if_true, true_and, Option.getD_some, get_set, get_delete]
          by_cases hbl : b = l
          · simp [hbl]
          · by_cases hbk : b = k
            · simp [hbk]
            · simp only [hbl, hbk, if_false]
              change _ = m.lookup a b
              rw [lookup, hd]
        · simp only [hap, if_false, false_and, get_set]
          by_cases hbl : b = l
          · simp [hbl]
          · simp only [hbl, if_false]
            change _ = m.lookup a b
            rw [lookup]
            cases m.dentries a <;> rfl
      · simp only [haq, if_false, false_and]
        by_cases hap : a = p
        · subst hap
          simp only [if_true, true_and, get_delete]
          split
          · rfl
          · change _ = m.lookup a b
            rw [lookup, hd]
        · simp only [hap, if_false, false_and]
          rfl

end Store

/-! ### The start -/

/-- The namespace of an empty store: the root. -/
def Ns.new : Ns where
  entry _ := none
  node := update (fun _ => none) 1 (some ⟨.directory, 2⟩)
  target _ := none
  next := 2

theorem Ns.node_new {x : Nat} : Ns.new.node x = some n ↔ x = 1 ∧ n = ⟨.directory, 2⟩ := by
  rw [Ns.new, set_eq_some]
  simp

theorem InMemoryMetadataStore.ns_new (now : Nat) : (new now).ns = Ns.new := by
  refine Ns.mk.injEq .. |>.mpr ⟨funext fun e => ?_, funext fun ino => ?_, rfl, rfl⟩
  · by_cases he : e.1 = 1
    · simp [lookup, new, he, OMap.empty, OMap.get]
    · simp [lookup, new, he]
  · by_cases hi : ino = 1
    · simp [new, hi]
    · simp [new, hi]

theorem Ns.ok_new : NsOk Ns.new where
  finite := Set.finite_empty.subset fun _ ⟨_, h⟩ => nomatch h
  root := ⟨_, node_new.mpr ⟨rfl, rfl⟩, rfl⟩
  child := fun _ _ h => nomatch h
  parent := fun _ _ h => nomatch h
  fresh := fun c hc => by
    rcases hn : Ns.new.node c with _ | n
    · rfl
    · exact absurd (node_new.mp hn).1 (Nat.ne_of_gt hc)
  top := fun _ h => nomatch h
  single := fun _ _ _ h => nomatch h
  targets := fun c n hn hs => by
    obtain ⟨-, rfl⟩ := node_new.mp hn
    cases hs
  dirs := fun c n hn _ => by
    obtain ⟨-, rfl⟩ := node_new.mp hn
    have hfin : (dom Ns.new.entry).Finite := Set.finite_empty.subset fun _ ⟨_, h⟩ => nomatch h
    rw [subdirs, (count_eq_zero hfin).mpr fun _ _ h => nomatch h]
  files := fun c n hn hd => by
    obtain ⟨-, rfl⟩ := node_new.mp hn
    exact absurd rfl hd

theorem Ns.tidy_new : Tidy Ns.new where
  parents := fun _ _ h => nomatch h
  exact := fun c n hn hd => by
    obtain ⟨-, rfl⟩ := node_new.mp hn
    exact absurd rfl hd
  reached := fun c n hn => by
    obtain ⟨rfl, -⟩ := node_new.mp hn
    exact .refl
  acyclic := fun a hc => by
    obtain ⟨b, ⟨k, hk⟩, -⟩ := Relation.TransGen.head'_iff.mp hc
    cases hk

end SecureExec.Vfs
