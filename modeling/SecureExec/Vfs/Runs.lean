import SecureExec.Vfs.Opening
import SecureExec.Vfs.Refinement

/-!
# Vfs — Runs — runs of calls, one after another

Every call keeps what holds of every state (`vfsOk_reach`), whatever it is called with.  A call is
`Orderly` when what it makes or moves goes into a directory and no directory moves below itself;
only the walks of `writeFile`, `copy`, `mkdir` and `open` and the checks of `rename` let one through
that is not.

`namespace_wellFormed`: in runs of orderly calls the namespace is a directory tree.
`entry_under_file`: two `writeFile`s, after which a file has an entry.
`links_counted`: in such runs every link count is the number of names, and an inode is there just
as long as it has a name.
-/

namespace SecureExec.Vfs
open SecureExec Bytes Graph Prog Lts VfsOp

variable {o : ChunkedVfsOptions} {v v' : ChunkedVfs} {tidy : Prop}

/-! ### One call -/

/-- The last component of the path, if it is missing, is missing in a directory. -/
def MissingInDir (m : InMemoryMetadataStore) (path : String) : Prop :=
  ∀ p name, m.resolveParentPath (normalizePath path) = .ok (p, name) →
    m.lookup p name = none → m.ns.IsDir p

/-- What the call makes or moves goes into a directory, and no directory moves below itself. -/
def Orderly (v : ChunkedVfs) : VfsOp → Prop
  | .writeFile path _ => v.metadata.ns.MakesInDir 1 (splitPath (normalizePath path))
  | .copy _ dstPath => v.metadata.ns.MakesInDir 1 (splitPath (normalizePath dstPath))
  | .mkdir path recursive => v.metadata.ns.MkdirInDir (splitPath (normalizePath path)) recursive
  | .createDir path => MissingInDir v.metadata path
  | .symlink _ linkPath => MissingInDir v.metadata linkPath
  | .link _ newPath => MissingInDir v.metadata newPath
  | .rename oldPath newPath => MovesInDir v.metadata oldPath newPath
  | .openSync path flags =>
    flags.has O_CREAT = true → (v.metadata.resolvePath path).toOption = none →
      v.metadata.ns.MakesInDir 1 (openParts path) ∧ v.metadata.ns.follow 1 (openParts path) = none
  | _ => True

theorem AlwaysDoes.map {α β : Type} {p : VfsProg α} {f : α → β} (h : AlwaysDoes o tidy p v) :
    AlwaysDoes o tidy (f <$> p) v := wp_map.mpr h

section

variable (hcs : 0 < o.chunkSize)
include hcs

theorem writeFile_always (h : VfsOk o v) (path : String)
    (data : ByteArray8) (hm : tidy → v.metadata.ns.MakesInDir 1 (splitPath (normalizePath path))) :
    AlwaysDoes o tidy (writeFile o path data) v :=
  wp_mono (writeFile_does hcs h path data hm) (fun _ _ h' => h'.1) fun _ _ he => he.1.symm ▸ .refl h

/-- **Every call.** -/
theorem op_does (h : VfsOk o v) (op : VfsOp) (hm : tidy → Orderly v op) :
    AlwaysDoes o tidy (op.run o) v := by
  cases op with
  | readFile path => exact (readFile_does h path).map
  | writeFile path data => exact (writeFile_always hcs h path data hm).map
  | stat path => exact (unchanged_does h (within_stat path)).map
  | lstat path => exact (unchanged_does h (within_lstat path)).map
  | pread path offset length => exact (unchanged_does h (within_pread path offset length)).map
  | pwrite path offset data => exact (pwrite_does hcs h path offset data).map
  | truncate path length => exact (truncate_does hcs h path length).map
  | fsync path => exact (fsync_does h path).map
  | flushAll => exact (flushAll_does h).map
  | createDir path => exact AlwaysDoes.map (createDir_does h path hm)
  | mkdir path recursive => exact AlwaysDoes.map (mkdir_does h path recursive hm)
  | removeDir path => exact (removeDir_does h path).map
  | rename oldPath newPath => exact (rename_does h oldPath newPath hm).map
  | removeFile path => exact (removeFile_does h path).map
  | realpath path => exact (unchanged_does h (within_realpath path)).map
  | symlink target linkPath => exact (symlink_does h target linkPath hm).map
  | readlink path => exact (unchanged_does h (within_readlink path)).map
  | link oldPath newPath => exact (link_does h oldPath newPath hm).map
  | copy srcPath dstPath => exact (copy_does h srcPath dstPath hm).map
  | chmod path mode => exact (chmod_does h path mode).map
  | chown path uid gid => exact (chown_does h path uid gid).map
  | utimes path atimeMs mtimeMs => exact (utimes_does h path atimeMs mtimeMs).map
  | openSync path flags =>
      change AlwaysDoes o tidy (if o.writeBuffering ∨ o.versioning then pure (VfsReply.made false)
        else VfsReply.made <$> prepareOpenSync o path flags) v
      split
      · exact Does.refl h
      · rename_i hplain
        obtain ⟨hwb, hver⟩ := not_or.mp hplain
        exact AlwaysDoes.map (prepareOpenSync_does h (Bool.eq_false_iff.mpr hwb)
          (Bool.eq_false_iff.mpr hver) path flags hm)

theorem step_does (h : VfsOk o v) {op : VfsOp}
    (hm : tidy → Orderly v op) (hs : step o v op = some v') : Does o tidy v v' :=
  Option.some.inj hs ▸ state_of_wp (op_does hcs h op hm)

/-! ### Every run -/

/-- **Every run keeps what holds of every state.** -/
theorem vfsOk_reach {now : Nat}
    (r : Reach (step o) Any (createChunkedVfs now) v) : VfsOk o v :=
  r.invariant (vfsOk_new o now) fun _ _ _ h _ hs => (step_does hcs h (False.elim : False → _) hs).ok

/-- A run of orderly calls keeps the tree. -/
theorem tidy_reach {now : Nat}
    (r : Reach (step o) Orderly (createChunkedVfs now) v) :
    VfsOk o v ∧ Tidy v.metadata.ns := by
  refine r.invariant (I := fun v => VfsOk o v ∧ Tidy v.metadata.ns) ⟨vfsOk_new o now, ?_⟩
    fun v op v' h hm hs => ?_
  · exact (InMemoryMetadataStore.ns_new now).symm ▸ Ns.tidy_new
  · have hd := step_does hcs h.1 (fun _ : True => hm) hs
    exact ⟨hd.ok, NsRun.keepsTidy h.1.ns h.2 trivial hd.run⟩

end

/-- The namespace is a directory tree: only directories have entries, every entry's inode is there,
every inode is reached from the root, and no inode is below itself. -/
structure Ns.WellFormed (s : Ns) : Prop where
  parents : ∀ e c, s.entry e = some c → s.IsDir e.1
  children : ∀ e c, s.entry e = some c → (s.node c).isSome
  reached : ∀ c, (s.node c).isSome → Reaches s.entry 1 c
  acyclic : ∀ p name c, s.entry (p, name) = some c → ¬ Reaches s.entry c p

theorem Tidy.wellFormed {s : Ns} (h : NsOk s) (ht : Tidy s) : s.WellFormed where
  parents := ht.parents
  children := fun e c he => Option.isSome_iff_exists.mpr (h.child e c he)
  reached := fun c hc => (Option.isSome_iff_exists.mp hc).elim fun n hn => ht.reached c n hn
  acyclic := fun p name _ he hr => ht.acyclic p (.head' ⟨name, he⟩ hr)

/-- **The namespace is a directory tree** in every run of orderly calls. -/
theorem namespace_wellFormed (hcs : 0 < o.chunkSize) {now : Nat}
    (r : Reach (step o) Orderly (createChunkedVfs now) v) : v.metadata.ns.WellFormed :=
  (tidy_reach hcs r).2.wellFormed (tidy_reach hcs r).1.ns

/-- The state after a run of calls. -/
def afterCalls (calls : List VfsOp) : ChunkedVfs :=
  calls.foldl (fun v op => ((op.run smallOptions).exec v).2) (createChunkedVfs 0)

/-- A file in a directory that is not there yet, and a directory. -/
def orderlyCalls : List VfsOp := [.writeFile "/d/f" [1], .mkdir "/e" false]

theorem orderlyCalls_reach :
    Reach (step smallOptions) Orderly (createChunkedVfs 0) (afterCalls orderlyCalls) := by
  refine .next (.next .start (a := .writeFile "/d/f" [1]) ?_ rfl) (a := .mkdir "/e" false) ?_ rfl
  · exact (by decide +kernel : (createChunkedVfs 0).metadata.ns.IsDir 1)
  · change Ns.MkdirInDir (afterCalls [.writeFile "/d/f" [1]]).metadata.ns _ false
    rw [show splitPath (normalizePath "/e") = ["e"] by decide +kernel]
    intro p name hp hn
    obtain rfl : 1 = p := Option.some.inj hp
    obtain rfl : "e" = name := Option.some.inj hn
    rw [Ns.MakesInDir, show (afterCalls [.writeFile "/d/f" [1]]).metadata.ns.entry (1, "e") = none by
      decide +kernel]
    exact (by decide +kernel : (afterCalls [.writeFile "/d/f" [1]]).metadata.ns.IsDir 1)

theorem namespace_wellFormed_made :
    (afterCalls orderlyCalls).metadata.ns.WellFormed ∧
      (afterCalls orderlyCalls).metadata.ns.entry (2, "f") = some 3 :=
  ⟨namespace_wellFormed (by decide) orderlyCalls_reach, by decide +kernel⟩

/-- A file, and a file below it. -/
def crossingCalls : List VfsOp := [.writeFile "/a" [1], .writeFile "/a/b" [2]]

/-- A file has an entry. -/
theorem entry_under_file :
    ∃ v, Reach (step smallOptions) Any (createChunkedVfs 0) v ∧
      v.metadata.ns.entry (2, "b") = some 3 ∧ ¬ v.metadata.ns.IsDir 2 :=
  ⟨afterCalls crossingCalls, .of_exec (rfl : exec (step smallOptions) _ crossingCalls = some _), by decide +kernel,
    by decide +kernel⟩

/-! ### Link counts -/

/-- Every link count is the number of names, and an inode other than the root is there just as long
as it has a name. -/
structure Ns.Counted (s : Ns) : Prop where
  files : ∀ c n, s.node c = some n → n.type ≠ .directory → n.nlink = s.refs c
  dirs : ∀ c n, s.node c = some n → n.type = .directory → n.nlink = 2 + s.subdirs c
  alive : ∀ c, (s.node c).isSome ↔ c = 1 ∨ 0 < s.refs c

theorem Tidy.counted {s : Ns} (h : NsOk s) (ht : Tidy s) : s.Counted where
  files := ht.exact
  dirs := h.dirs
  alive := fun c => by
    constructor
    · intro hc
      obtain ⟨n, hn⟩ := Option.isSome_iff_exists.mp hc
      by_cases h1 : c = 1
      · exact .inl h1
      · obtain ⟨x, k, -, hk⟩ := (ht.reached c n hn).edge_into (Ne.symm h1)
        exact .inr (h.refs_pos hk)
    · rintro (rfl | hpos)
      · obtain ⟨n, hn, -⟩ := h.root
        rw [hn]
        rfl
      · obtain ⟨e, x, he, rfl⟩ := (count_pos h.finite).mp hpos
        obtain ⟨n, hn⟩ := h.child e x he
        rw [hn]
        rfl

/-- **Link counts** are the numbers of names in every run of orderly calls. -/
theorem links_counted (hcs : 0 < o.chunkSize) {now : Nat}
    (r : Reach (step o) Orderly (createChunkedVfs now) v) : v.metadata.ns.Counted :=
  (tidy_reach hcs r).2.counted (tidy_reach hcs r).1.ns

theorem links_counted_made :
    (afterCalls orderlyCalls).metadata.ns.Counted ∧
      ((afterCalls orderlyCalls).metadata.ns.node 1).map (·.nlink) = some 4 :=
  ⟨links_counted (by decide) orderlyCalls_reach, by decide +kernel⟩

end SecureExec.Vfs
