import SecureExec.Lib.Lts
import SecureExec.Vfs.Files

/-!
# Vfs — Refinement — a file of the ChunkedVFS is a flat byte array

The abstract file is a byte array: `FileOp.flat` says what each operation makes of it and what it
answers.  `FileOp.run` is the operation of the ChunkedVFS at a path.

* `fileOp_extends`: every operation at every path, also one that throws, keeps what holds of every
  state and makes no symlink.  So a path leads where it led (`resolvePath_grows`).
* `FileAt.step`: one operation on a file answers as the flat file does and leaves the flat file's
  content; `FileAt.runOps_eq` is the run.
* `chunkedVfs_refines_flat`: every regular file of a state that operations lead to is one that
  `FileAt` speaks about.
-/

namespace SecureExec.Vfs
open SecureExec Bytes Prog InMemoryMetadataStore

/-! ### The operations, and the flat file -/

/-- The operations on one file. -/
inductive FileOp where
  | writeFile (data : ByteArray8)
  | pwrite (offset : Nat) (data : ByteArray8)
  | truncate (length : Nat)
  | pread (offset length : Nat)
  | readFile
  | stat

/-- What an operation answers: nothing, bytes, or `stat.size`. -/
inductive Reply where
  | done
  | bytes (b : ByteArray8)
  | size (n : Nat)
  deriving DecidableEq

def FileOp.run (o : ChunkedVfsOptions) (path : String) : FileOp → VfsProg Reply
  | .writeFile data => do Vfs.writeFile o path data; pure .done
  | .pwrite offset data => do Vfs.pwrite o path offset data; pure .done
  | .truncate length => do Vfs.truncate o path length; pure .done
  | .pread offset length => do pure (.bytes (← Vfs.pread o path offset length))
  | .readFile => do pure (.bytes (← Vfs.readFile o path))
  | .stat => do pure (.size (← Vfs.stat path).size)

/-- The flat file: the answer, and the content after the operation. -/
def FileOp.flat : FileOp → ByteArray8 → Reply × ByteArray8
  | .writeFile data, _ => (.done, data)
  | .pwrite offset data, c => (.done, flatWrite c offset data)
  | .truncate length, c => (.done, resize c length)
  | .pread offset length, c => (.bytes (window c offset length), c)
  | .readFile, c => (.bytes c, c)
  | .stat, c => (.size c.length, c)

/-- The answers of a sequence of operations, each awaited before the next. -/
def runOps (o : ChunkedVfsOptions) (path : String) :
    List FileOp → ChunkedVfs → List (Except Failure Reply)
  | [], _ => []
  | op :: ops, v => ((op.run o path).exec v).1 :: runOps o path ops ((op.run o path).exec v).2

/-- The answers of the flat file. -/
def flatOps : List FileOp → ByteArray8 → List Reply
  | [], _ => []
  | op :: ops, c => (op.flat c).1 :: flatOps ops (op.flat c).2

variable {o : ChunkedVfsOptions} {v v' : ChunkedVfs} {ino : Nat} {i : InodeMeta}
  {path : String} {c c' data : ByteArray8} {m m' : InMemoryMetadataStore}

/-! ### Paths -/

/-- No inode is a symbolic link. -/
def NoLinks (m : InMemoryMetadataStore) : Prop :=
  ∀ ino i, m.inodes ino = some i → i.type ≠ .symlink

theorem noLinks_new (now : Nat) : NoLinks (createChunkedVfs now).metadata := by
  intro ino i hi hs
  rw [(inodes_new hi).2] at hs
  cases hs

theorem inodes_of_grows (hg : v.metadata.ns.Grows v'.metadata.ns) (hi : v.metadata.inodes ino = some i) :
    ∃ i', v'.metadata.inodes ino = some i' ∧ i'.type = i.type := by
  obtain ⟨n', hn', hty⟩ := hg.types ino _ (node_ns hi)
  obtain ⟨i', hi', rfl⟩ := node_ns_some hn'
  exact ⟨i', hi', hty⟩

theorem noLinks_of_grows (h : NoLinks v.metadata) (hg : v.metadata.ns.Grows v'.metadata.ns) :
    NoLinks v'.metadata := by
  intro ino i hi hs
  obtain ⟨n, hn, hty⟩ := hg.links ino _ (node_ns hi) hs
  obtain ⟨j, hj, rfl⟩ := node_ns_some hn
  exact h ino j hj hty

/-- Without symlinks a path leads where its names lead, through directories. -/
theorem follow_of_walk (hl : NoLinks m) (F : Option (List String → Except Failure Nat))
    (l : List String) :
    ∀ cur done, m.walkComponents F cur done l = .ok ino → m.ns.follow cur l = some ino ∧
      ∀ p d, p <+: l → p ≠ l → m.ns.follow cur p = some d → m.ns.IsDir d := by
  induction l with
  | nil =>
      intro cur done h
      cases h
      exact ⟨rfl, fun p d hp hne => absurd (List.prefix_nil.mp hp) hne⟩
  | cons name rest ih =>
      intro cur done h
      unfold walkComponents at h
      split at h
      · cases h
      rename_i i hi
      split at h
      · cases h
      rename_i hty
      split at h
      · cases h
      rename_i dir hdir
      split at h
      · cases h
      rename_i entry hentry
      have hlook : m.ns.entry (cur, name) = some entry.childIno := by
        change m.lookup cur name = _
        rw [lookup, hdir]
        simp only [hentry, Option.map_some]
      have hrest : m.walkComponents F entry.childIno (done ++ [name]) rest = .ok ino := by
        split at h
        · rename_i child hchild
          rw [if_neg (hl _ _ hchild)] at h
          exact h
        · exact h
      obtain ⟨hf, hdirs⟩ := ih _ _ hrest
      refine ⟨(Ns.follow_cons hlook rest).trans hf, fun p d hp hne hd => ?_⟩
      cases p with
      | nil =>
          cases hd
          exact ⟨_, node_ns hi, not_not.mp hty⟩
      | cons k p =>
          obtain ⟨rfl, hp'⟩ := List.cons_prefix_cons.mp hp
          rw [Ns.follow_cons hlook] at hd
          exact hdirs p d hp' (fun he => hne (he ▸ rfl)) hd

/-- A way through directories leads where it leads by the entries. -/
theorem walk_follow (F : Option (List String → Except Failure Nat))
    {f : Nat} (hf : ∀ i, m.inodes f = some i → i.type ≠ .symlink) (l : List String) :
    ∀ cur done, (∀ p d, p <+: l → p ≠ l → m.ns.follow cur p = some d → m.ns.IsDir d) →
      m.ns.follow cur l = some f → m.walkComponents F cur done l = .ok f := by
  induction l with
  | nil =>
      intro cur done _ h
      cases h
      rfl
  | cons name l ih =>
      intro cur done hdir h
      obtain ⟨n, hn, hd⟩ := hdir [] cur List.nil_prefix (List.cons_ne_nil name l).symm rfl
      obtain ⟨i, hi, rfl⟩ := node_ns_some hn
      have hty : i.type = .directory := hd
      cases hc : m.lookup cur name with
      | none =>
          rw [Ns.follow, show m.ns.entry (cur, name) = none from hc] at h
          cases h
      | some child =>
          have he : m.ns.entry (cur, name) = some child := hc
          rw [Ns.follow_cons he] at h
          -- the child is the file, or a directory on the way
          have hplain : ∀ j, m.inodes child = some j → j.type ≠ .symlink := by
            intro j hj
            by_cases hl : l = []
            · subst hl
              cases h
              exact hf j hj
            · obtain ⟨n, hn, ht⟩ := hdir [name] child
                (List.cons_prefix_cons.mpr ⟨rfl, List.nil_prefix⟩) (by simpa using Ne.symm hl)
                (Ns.follow_cons he [])
              cases (node_ns hj).symm.trans hn
              rw [show j.type = .directory from ht]
              decide
          have hrest : m.walkComponents F child (done ++ [name]) l = .ok f := by
            refine ih child _ (fun p d hp hne hd => ?_) h
            refine hdir (name :: p) d (List.cons_prefix_cons.mpr ⟨rfl, hp⟩) ?_ ?_
            · exact fun heq => hne (List.tail_eq_of_cons_eq heq)
            · rw [Ns.follow_cons he]
              exact hd
          rw [lookup] at hc
          split at hc
          · cases hc
          rename_i dir hdent
          obtain ⟨entry, hentry, rfl⟩ := Option.map_eq_some_iff.mp hc
          rw [walkComponents, hi]
          dsimp only
          rw [if_neg (not_not.mpr hty), hdent]
          dsimp only
          rw [hentry]
          dsimp only
          split
          · rename_i j hj
            rw [if_neg (hplain j hj)]
            exact hrest
          · exact hrest

/-- Without symlinks a path leads where it led. -/
theorem resolvePath_grows (hl : NoLinks m) (hl' : NoLinks m') (hg : m.ns.Grows m'.ns)
    (hr : m.resolvePath path = .ok ino) : m'.resolvePath path = .ok ino := by
  obtain ⟨hf, hdirs⟩ := follow_of_walk hl _ _ 1 [] hr
  refine walk_follow _ (hl' ino) _ 1 [] (fun p d hp hne hd => ?_) (hg.follow _ 1 hf)
  -- what leads there, led there
  obtain ⟨r, hr⟩ := hp
  rw [← hr, Ns.follow_append, Option.bind_eq_some_iff] at hf
  obtain ⟨d', hd', -⟩ := hf
  obtain rfl : d' = d := Option.some.inj ((hg.follow p 1 hd').symm.trans hd)
  exact hg.isDir (hdirs p d' ⟨r, hr⟩ hne hd')

/-! ### Every operation at every path -/

/-- The state stays in order, and names are added at most. -/
structure Extends (o : ChunkedVfsOptions) (v v' : ChunkedVfs) : Prop where
  ok : VfsOk o v'
  grows : v.metadata.ns.Grows v'.metadata.ns

/-- The program does that, whether it returns or throws. -/
abbrev AlwaysExtends (o : ChunkedVfsOptions) {α : Type} (p : VfsProg α) (v : ChunkedVfs) : Prop :=
  p.wp v (fun _ v' => Extends o v v') fun _ v' => Extends o v v'

theorem extends_of_does {α : Type} {p : VfsProg α} (hd : AlwaysDoes o False p v)
    (hn : LeavesNs p) : AlwaysExtends o p v :=
  wp_mono (wp_and hd (hn.state v)) (fun _ _ h => ⟨h.1.ok, h.2 ▸ .refl _⟩)
    fun _ _ h => ⟨h.1.ok, h.2 ▸ .refl _⟩

section

variable (hcs : 0 < o.chunkSize)
include hcs

theorem fileOp_extends (h : VfsOk o v) (op : FileOp) : AlwaysExtends o (op.run o path) v := by
  cases op with
  | writeFile data =>
      refine wp_bind.mpr (wp_mono (writeFile_does hcs h path data False.elim) ?_ ?_)
      · exact fun _ _ h' => ⟨h'.1.ok, h'.2.1⟩
      · rintro _ _ ⟨rfl, -⟩
        exact ⟨h, .refl _⟩
  | pwrite offset data =>
      exact wp_bind.mpr (extends_of_does (pwrite_does hcs h path offset data)
        (LeavesNs.pwrite path offset data))
  | truncate length =>
      exact wp_bind.mpr (extends_of_does (truncate_does hcs h path length)
        (LeavesNs.storing.truncate path length))
  | pread offset length =>
      exact wp_bind.mpr (extends_of_does (unchanged_does h (within_pread path offset length))
        (.within (within_pread path offset length)))
  | readFile =>
      exact wp_bind.mpr (extends_of_does (readFile_does h path) (LeavesNs.storing.readFile path))
  | stat =>
      exact wp_bind.mpr (extends_of_does (unchanged_does h (within_stat path))
        (.within (within_stat path)))

end

/-! ### One file -/

/-- The path leads to the regular file `ino`, whose content is `c`. -/
structure FileAt (o : ChunkedVfsOptions) (v : ChunkedVfs) (path : String) (ino : Nat)
    (c : ByteArray8) : Prop where
  ok : VfsOk o v
  noLinks : NoLinks v.metadata
  resolves : v.metadata.resolvePath (normalizePath path) = .ok ino
  shown : Shown o v ino .file c

/-- What `writeFile` has written is at the end of its path. -/
theorem shown_of_written (hl : NoLinks v.metadata)
    (hr : v.metadata.resolvePath (normalizePath path) = .ok ino)
    (hi : v.metadata.inodes ino = some i) (hf : i.type = .file)
    (hw : ∃ ino t, v.metadata.ns.follow 1 (splitPath (normalizePath path)) = some ino ∧
      Shown o v ino t data) : Shown o v ino .file data := by
  obtain ⟨ino', t, hto, i', hi', -, hs⟩ := hw
  obtain rfl : ino = ino' :=
    Option.some.inj ((follow_of_walk hl _ _ 1 [] hr).1.symm.trans hto)
  obtain rfl : i = i' := Option.some.inj (hi.symm.trans hi')
  exact ⟨i, hi, hf, hs⟩

namespace FileAt

variable (hcs : 0 < o.chunkSize)
include hcs

theorem readFile_eq (h : FileAt o v path ino c) : ((readFile o path).exec v).1 = .ok c := by
  obtain ⟨i, hi, hf, hs⟩ := h.shown
  exact Vfs.readFile_eq hcs h.resolves hi hf hs

/-- One operation answers as the flat file does, and its file shows what the flat file is. -/
theorem run_returns (h : FileAt o v path ino c) (op : FileOp) :
    (op.run o path).Returns v fun r v' => r = (op.flat c).1 ∧ Shown o v' ino .file (op.flat c).2 := by
  have hshown := h.shown
  obtain ⟨i, hi, hf, hs⟩ := hshown
  have hdir : i.type ≠ .directory := by
    rw [hf]
    nofun
  have hr := resolveIno_returns h.resolves
  cases op with
  | writeFile data =>
      refine wp_bind.mpr (wp_mono (writeFile_does hcs h.ok path data False.elim) ?_ ?_)
      · rintro _ v' ⟨-, hg, hw⟩
        have hl := noLinks_of_grows h.noLinks hg
        obtain ⟨i', hi', hty⟩ := inodes_of_grows hg hi
        exact ⟨rfl, shown_of_written hl (resolvePath_grows h.noLinks hl hg h.resolves) hi'
          (hty.trans hf) hw⟩
      · rintro _ _ ⟨-, hroot⟩
        -- the path of a file is not the root's
        have hto := (follow_of_walk h.noLinks _ _ 1 [] h.resolves).1
        rw [hroot] at hto
        cases hto
        obtain ⟨n, hn, ht⟩ := h.ok.ns.root
        cases (node_ns hi).symm.trans hn
        exact hdir ht
  | pwrite off data =>
      exact (pwrite_shows hcs (fun hwb => h.ok.content.plain hwb ino) hr hi hdir hs off data).bind
        fun _ v' h' => ⟨rfl, hf ▸ h'.2.2⟩
  | truncate length =>
      exact (truncate_shows hcs hr hi hdir hs length).bind fun _ v' h' => ⟨rfl, hf ▸ h'.2⟩
  | pread off len =>
      refine (pread_shows hcs hs off len (requireFileIno_returns h.resolves hi hdir)).bind
        fun r v' h' => ?_
      obtain ⟨rfl, rfl⟩ := h'
      exact ⟨rfl, h.shown⟩
  | readFile =>
      refine (readFile_shows hcs h.resolves hi hf hs).bind fun r v' h' => ?_
      exact ⟨congrArg Reply.bytes h'.1, h'.2⟩
  | stat =>
      refine Returns.bind (R := fun r v' => r.size = c.length ∧ v' = v) ?_ fun r v' h' => ?_
      · refine hr.bind fun r v' hr => ?_
        obtain ⟨rfl, rfl⟩ := hr
        refine (requireInode_returns hi).bind fun j v' hj => ?_
        obtain ⟨rfl, rfl⟩ := hj
        simp only [Returns, wp_bind, wp_read]
        cases hb : v'.writeBuffers.get r with
        | none =>
            refine ⟨?_, rfl⟩
            rw [inodeMetaToStat, if_neg hdir, hs.size]
        | some buf =>
            simp only [if_pos hdir]
            exact ⟨(hs.sized buf hb).trans hs.size, rfl⟩
      · obtain ⟨hsz, rfl⟩ := h'
        exact ⟨congrArg Reply.size hsz, h.shown⟩

/-- **One operation on the file.** -/
theorem step (h : FileAt o v path ino c) (op : FileOp) : (op.run o path).Returns v fun r v' =>
    r = (op.flat c).1 ∧ FileAt o v' path ino (op.flat c).2 := by
  refine wp_mono (wp_and (h.run_returns hcs op) (fileOp_extends hcs h.ok op)) ?_
    fun _ _ => And.left
  rintro r v' ⟨⟨hr, hs⟩, he⟩
  have hl := noLinks_of_grows h.noLinks he.grows
  exact ⟨hr, he.ok, hl, resolvePath_grows h.noLinks hl he.grows h.resolves, hs⟩

/-- **A run of operations on the file.** -/
theorem runOps_eq (_ : o.writeBuffering = false) (ops : List FileOp) :
    ∀ {v c}, FileAt o v path ino c → runOps o path ops v = (flatOps ops c).map .ok := by
  induction ops with
  | nil => exact fun _ => rfl
  | cons op ops ih =>
      intro v c h
      obtain ⟨r, v', he, rfl, h'⟩ := returns_iff.mp (h.step hcs op)
      simp only [runOps, flatOps, he, List.map_cons, ih h']

end FileAt

/-! ### Runs -/

/-- One operation at a path; what it answers is not part of the state. -/
def vfsStep (o : ChunkedVfsOptions) (v : ChunkedVfs) (call : String × FileOp) :
    Option ChunkedVfs :=
  some ((call.2.run o call.1).exec v).2

/-- **Every state reached by any operations** is in order and has no symlink. -/
theorem vfsStep_reach (hcs : 0 < o.chunkSize) {now : Nat}
    (h : Lts.Reach (vfsStep o) Lts.Any (createChunkedVfs now) v) :
    VfsOk o v ∧ NoLinks v.metadata := by
  refine h.invariant (I := fun v => VfsOk o v ∧ NoLinks v.metadata)
    ⟨vfsOk_new o now, noLinks_new now⟩ ?_
  rintro v ⟨path, op⟩ v' hv - hs
  cases hs
  have hop : AlwaysExtends o (op.run o path) v := fileOp_extends hcs hv.1 op
  have he := state_of_wp hop
  exact ⟨he.ok, noLinks_of_grows hv.2 he.grows⟩

/-- **A regular file is a flat byte array.**  In every state a ChunkedVFS without write buffering
gets into by any operations at any paths, for every regular file: there is a content `c`, the data
of the `writeFile` when one has led to this state, such that every sequence of operations on the
file is answered as by a plain byte array that starts as `c`. -/
theorem chunkedVfs_refines_flat (o : ChunkedVfsOptions) (hcs : 1 ≤ o.chunkSize)
    (hwb : o.writeBuffering = false) (now : Nat) {v : ChunkedVfs}
    (hv : Lts.Reach (vfsStep o) Lts.Any (createChunkedVfs now) v) {path : String} {ino : Nat}
    {i : InodeMeta} (hp : v.metadata.resolvePath (normalizePath path) = .ok ino)
    (hi : v.metadata.inodes ino = some i) (hf : i.type = .file) :
    ∃ c, ((readFile o path).exec v).1 = .ok c ∧
      (∀ v₀ data, Lts.Reach (vfsStep o) Lts.Any (createChunkedVfs now) v₀ →
        (writeFile o path data).exec v₀ = (.ok ⟨⟩, v) → c = data) ∧
      ∀ ops, runOps o path ops v = (flatOps ops c).map .ok := by
  obtain ⟨hok, hl⟩ := vfsStep_reach hcs hv
  obtain ⟨c, hs⟩ := hok.content.files ino i hi hf
  have hat : FileAt o v path ino c := ⟨hok, hl, hp, i, hi, hf, hs⟩
  refine ⟨c, hat.readFile_eq hcs, fun v₀ data h₀ hw => ?_, fun ops => hat.runOps_eq hcs hwb ops⟩
  have hw := of_wp_ok (writeFile_does hcs (vfsStep_reach hcs h₀).1 path data False.elim) hw
  have hdata : FileAt o v path ino data := ⟨hok, hl, hp, shown_of_written hl hp hi hf hw.2.2⟩
  exact Except.ok.inj ((hat.readFile_eq hcs).symm.trans (hdata.readFile_eq hcs))

/-- Chunks of two bytes, and files of at most two bytes kept inline. -/
def smallOptions : ChunkedVfsOptions where
  chunkSize := 2
  inlineThreshold := 2
  writeBuffering := false
  versioning := false
  randomId := fun _ => "r"
  dateNow := id

theorem chunkedVfs_refines_flat_written :
    runOps smallOptions "/f" [.pwrite 4 [7], .truncate 2, .readFile, .stat]
        ((FileOp.writeFile [1, 2, 3]).run smallOptions "/f" |>.exec (createChunkedVfs 0)).2 =
      [.ok .done, .ok .done, .ok (.bytes [1, 2]), .ok (.size 2)] := by
  obtain ⟨c, -, hc, hops⟩ := @chunkedVfs_refines_flat smallOptions (by decide) rfl 0 _
    (.one (a := ("/f", .writeFile [1, 2, 3])) trivial rfl) "/f" 2 _ (by decide +kernel) rfl rfl
  obtain rfl : c = [1, 2, 3] := hc (createChunkedVfs 0) [1, 2, 3] .start rfl
  exact hops _

end SecureExec.Vfs
