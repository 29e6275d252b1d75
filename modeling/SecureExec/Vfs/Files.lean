import SecureExec.Vfs.Effects
import SecureExec.Vfs.Frames

/-!
# Vfs — Files — what the calls on files do to the names

`writeFile`, `copy`, `symlink` and `link` make at most one entry; reading, writing and cutting a
file and the changes of its attributes make none.
-/

namespace SecureExec.Vfs
open SecureExec Bytes Graph Prog Async Coro

variable {o : ChunkedVfsOptions} {v v' v₁ : ChunkedVfs} {ino p : Nat} {i : InodeMeta}
  {m : InMemoryMetadataStore} {tidy : Prop} {name : String} {t : InodeType}
  {target : Option String} {α : Type}

/-- Whether it returns or throws, the program does what an operation may do. -/
abbrev AlwaysDoes (o : ChunkedVfsOptions) (tidy : Prop) (p : VfsProg α) (v : ChunkedVfs) : Prop :=
  p.wp v (fun _ v' => Does o tidy v v') fun _ v' => Does o tidy v v'

/-- An inode that is there was given its number. -/
theorem VfsOk.lt (h : VfsOk o v) (hi : v.metadata.inodes ino = some i) :
    ino < v.metadata.nextIno := by
  refine Nat.lt_of_not_le fun hle => ?_
  have hf := h.ns.fresh ino hle
  rw [node_ns hi] at hf
  cases hf

/-! ### What a path resolves to -/

theorem walk_type {follow : Option (List String → Except Failure Nat)}
    (hf : ∀ f l c i, follow = some f → f l = .ok c → m.inodes c = some i → i.type ≠ .symlink)
    (l : List String) :
    ∀ cur done, (∀ i, m.inodes cur = some i → i.type ≠ .symlink) →
      m.walkComponents follow cur done l = .ok ino → m.inodes ino = some i →
      i.type ≠ .symlink := by
  induction l with
  | nil =>
      intro cur done hcur h hi
      cases h
      exact hcur i hi
  | cons name rest ih =>
      intro cur done hcur h hi
      unfold InMemoryMetadataStore.walkComponents at h
      split at h
      · cases h
      split at h
      · cases h
      split at h
      · cases h
      split at h
      · cases h
      split at h
      · rename_i child hchild
        split at h
        · split at h
          · cases h
          split at h
          · cases h
          split at h
          · cases h
          split at h
          · exact hf _ _ _ _ rfl h hi
          · exact hf _ _ _ _ rfl h hi
        · rename_i hty
          refine ih _ _ (fun j hj => ?_) h hi
          rw [hchild] at hj
          cases hj
          exact hty
      · rename_i hnone
        refine ih _ _ (fun j hj => ?_) h hi
        rw [hnone] at hj
        cases hj

/-- No path resolves to a symlink. -/
theorem resolve_type (h : NsShape m.ns) (n : Nat) :
    ∀ (l : List String), m.resolveComponentsCore n l = .ok ino → m.inodes ino = some i →
      i.type ≠ .symlink := by
  have hroot : ∀ i, m.inodes 1 = some i → i.type ≠ .symlink := fun i hi hs => by
    obtain ⟨n, hn, hd⟩ := h.root
    rw [node_ns hi] at hn
    cases hn
    rw [hs] at hd
    cases hd
  induction n generalizing ino i with
  | zero => exact fun l hl hi => walk_type (fun f l c i hf => by cases hf) l 1 [] hroot hl hi
  | succ n ih =>
      intro l hl hi
      refine walk_type (fun f l c i hf hc hi => ?_) l 1 [] hroot hl hi
      cases hf
      exact ih l hc hi

/-! ### Attributes -/

/-- An update that leaves the type and the link count leaves the names. -/
theorem Updates.ns_same {g : InodeMeta → InodeMeta} (hu : Updates v v' ino g)
    (hg : ∀ i, (g i).type = i.type ∧ (g i).nlink = i.nlink) : v'.metadata.ns = v.metadata.ns := by
  rw [hu.ns id fun i _ => hg i]
  refine Ns.ext rfl (funext fun x => ?_) rfl rfl
  rw [Ns.node_relink]
  split
  · exact Option.map_id'.symm ▸ rfl
  · rfl

section

variable (h : VfsOk o v)
include h

/-- The attributes of an inode change. -/
theorem Updates.does {g : InodeMeta → InodeMeta} (hu : Updates v v' ino g)
    (hg : ∀ i, SameStorage i (g i) ∧ (g i).nlink = i.nlink) : Does o tidy v v' :=
  .same h (hu.ns_same fun i => ⟨(hg i).1.type, (hg i).2⟩)
    (hu.content h.content fun i _ => (hg i).1)

/-- The time is read and an inode's attributes change. -/
theorem stamped_does {g : Nat → InodeMeta → InodeMeta}
    (hg : ∀ now i, SameStorage i (g now i) ∧ (g now i).nlink = i.nlink) :
    (dateNow o >>= fun now => updateInode ino (g now)).Returns v fun _ v' => Does o tidy v v' := by
  refine (dateNow_returns o v).bind fun now v₁ h₁ => ?_
  obtain ⟨n, rfl⟩ := h₁
  have hd : Does o tidy v { v with clockCalls := n } := .counters h v.randomCalls n
  exact (updateInode_updates _ ino (g now)).mono fun _ v' hu => hd.trans (hu.does hd.ok (hg now))

variable (path : String)

theorem chmod_does (mode : Nat) :
    AlwaysDoes o tidy (chmod o path mode).run v := by
  simp only [AlwaysDoes, chmod, run_bind, run_await, run_lift]
  rw [wp_bind]
  refine wp_resolveIno (fun ino _ => ?_) fun _ => .refl h
  rw [wp_bind]
  refine wp_requireInode (fun i _ => ?_) fun _ => .refl h
  exact wp_mono (stamped_does h fun _ _ => ⟨⟨rfl, rfl, rfl, rfl⟩, rfl⟩) (fun _ _ => id)
    fun _ _ => False.elim

theorem chown_does (uid gid : Nat) :
    AlwaysDoes o tidy (chown o path uid gid).run v := by
  simp only [AlwaysDoes, chown, run_bind, run_await, run_lift]
  rw [wp_bind]
  refine wp_resolveIno (fun ino _ => ?_) fun _ => .refl h
  exact wp_mono (stamped_does h fun _ _ => ⟨⟨rfl, rfl, rfl, rfl⟩, rfl⟩) (fun _ _ => id)
    fun _ _ => False.elim

theorem utimes_does (atimeMs mtimeMs : Nat) :
    AlwaysDoes o tidy (utimes o path atimeMs mtimeMs).run v := by
  simp only [AlwaysDoes, utimes, run_bind, run_await, run_lift]
  rw [wp_bind]
  refine wp_resolveIno (fun ino _ => ?_) fun _ => .refl h
  exact wp_mono (stamped_does h fun _ _ => ⟨⟨rfl, rfl, rfl, rfl⟩, rfl⟩) (fun _ _ => id)
    fun _ _ => False.elim

/-! ### Reading -/

theorem unchanged_does {p : VfsProg α} (hp : Within Eq p) :
    AlwaysDoes o tidy p v := by
  have hs := hp.state_eq v
  refine wp_of_exec (fun a v' he => ?_) fun e v' he => ?_
  all_goals
    rw [he] at hs
    obtain rfl : v' = v := hs
    exact .refl h

end

theorem within_preadChunks (ino off len : Nat) (buf : Option InodeWriteBuffer) (n : Nat) :
    ∀ ci r w, Within Eq (preadChunks o ino off len buf n ci r w) := by
  induction n with
  | zero => exact fun _ _ _ => .pure _
  | succ n ih =>
      intro ci r w
      unfold preadChunks
      dsimp only
      cases buf.bind (·.dirtyChunks.get ci) with
      | some _ => exact .bind (within_setBytes _ _ _) fun _ => ih _ _ _
      | none =>
          refine .bind (.read _) fun key => ?_
          cases key with
          | none => exact ih _ _ _
          | some key =>
              exact .bind (.read _) fun _ => .bind (.lift _) fun _ =>
                .bind (within_setBytes _ _ _) fun _ => ih _ _ _

theorem within_pread (path : String) (off len : Nat) : Within Eq (pread o path off len) := by
  refine .bind (within_requireFileIno path) fun r => .bind (.read _) fun buf => .ite (.pure _) ?_
  obtain ⟨ino, i⟩ := r
  dsimp only
  cases i.storageMode with
  | inline =>
      cases buf with
      | none => exact .pure _
      | some buf =>
          exact .bind (within_setBytes _ _ _) fun _ => .bind (within_setChunks _ _ _) fun _ =>
            .pure _
  | chunked => exact within_preadChunks _ _ _ _ _ _ _ _

theorem within_stat (path : String) : Within Eq (stat path) := by
  refine .bind (within_resolveIno path) fun _ => .bind (within_requireInode _) fun i =>
    .bind (.read _) fun buf => ?_
  cases buf with
  | none => exact .pure _
  | some buf => exact .ite (.pure _) (.pure _)

theorem within_resolveParentPath (path : String) : Within Eq (resolveParentPath path) :=
  .bind (.read _) fun _ => .lift _

theorem within_lstat (path : String) : Within Eq (lstat path).run := by
  simp only [lstat, run_bind, run_await]
  refine .bind (within_resolveParentPath path) fun r => .bind (.read _) fun child => ?_
  cases child with
  | none => exact .throw _
  | some child =>
      simp only [run_bind, run_await]
      exact .bind (within_requireInode _) fun _ => .pure _

theorem within_readlink (path : String) : Within Eq (readlink path).run := by
  simp only [readlink, run_bind, run_await]
  refine .bind (within_resolveParentPath path) fun r => .bind (.read _) fun child => ?_
  cases child with
  | none => exact .throw _
  | some child =>
      simp only [run_bind, run_await, run_ite]
      exact .bind (within_requireInode _) fun _ => .ite (.throw _)
        (.bind (.read _) fun _ => .lift _)

theorem within_realpath (path : String) : Within Eq (realpath path) :=
  .bind (.read _) fun _ => .lift _

theorem readFile_does (h : VfsOk o v) (path : String) : AlwaysDoes o tidy (readFile o path) v := by
  have hfile : AlwaysDoes o tidy (requireFileIno path) v :=
    unchanged_does h (within_requireFileIno path)
  unfold readFile
  rw [AlwaysDoes, wp_bind]
  refine wp_mono hfile (fun r v₁ h₁ => ?_) fun _ _ => id
  obtain ⟨ino, i⟩ := r
  have hstamp : (dateNow o >>= fun now => updateInode ino fun i => { i with
      atimeMs := now }).Returns v₁ fun _ v' => Does o tidy v₁ v' :=
    stamped_does h₁.ok fun _ _ => ⟨⟨rfl, rfl, rfl, rfl⟩, rfl⟩
  rw [Returns, wp_bind] at hstamp
  rw [wp_bind]
  refine wp_mono hstamp (fun now v₂ h₂ => ?_) fun _ _ => False.elim
  rw [wp_bind]
  refine wp_mono h₂ (fun _ v₃ h₃ => ?_) fun _ _ => False.elim
  have hd := h₁.trans h₃
  have hread : AlwaysDoes o tidy (readInodeContent o ino i) v₃ :=
    unchanged_does hd.ok (within_readInodeContent ino i)
  exact wp_mono hread (fun _ _ h₄ => hd.trans h₄) fun _ _ h₄ => hd.trans h₄

/-! ### Writing and cutting -/

variable {c : ByteArray8}

/-- The content of an inode becomes another. -/
theorem content_does {p : VfsProg PUnit} (h : VfsOk o v)
    (hi : v.metadata.inodes ino = some i) (hns : LeavesNs p)
    (hp : p.Returns v fun _ v' => Elsewhere ino v v' ∧
      (o.writeBuffering = false → v'.writeBuffers.get ino = none) ∧ Shown o v' ino i.type c) :
    p.Returns v fun _ v' => Does o tidy v v' ∧ Elsewhere ino v v' ∧ Shown o v' ino i.type c := by
  refine wp_mono (wp_and hp (hns.state v)) ?_ fun _ _ => And.left
  rintro _ v' ⟨⟨he, hplain, hs⟩, hn⟩
  exact ⟨.same h hn (h.content.shown he (h.lt hi) hplain hs), he, hs⟩

section

variable {path : String} (hcs : 0 < o.chunkSize)
  (hr : v.metadata.resolvePath (normalizePath path) = .ok ino)
  (hi : v.metadata.inodes ino = some i) (hf : i.type = .file) (hs : Shows o v ino i c)
include hr

theorem resolveIno_returns : (resolveIno path).Returns v fun r v' => r = ino ∧ v' = v := by
  unfold resolveIno Returns
  rw [wp_bind, wp_read, hr]
  exact ⟨rfl, rfl⟩

include hi

theorem requireFileIno_returns (hdir : i.type ≠ .directory) :
    (requireFileIno path).Returns v fun r v' => r = (ino, i) ∧ v' = v := by
  refine (resolveIno_returns hr).bind fun r v' h => ?_
  obtain ⟨rfl, rfl⟩ := h
  refine (requireInode_returns hi).bind fun j v' h => ?_
  obtain ⟨rfl, rfl⟩ := h
  rw [if_neg hdir]
  exact ⟨rfl, rfl⟩

include hcs hf hs

/-- A regular file is read as a reader sees it, and stays so. -/
theorem readFile_shows :
    (readFile o path).Returns v fun r v' => r = c ∧ Shown o v' ino .file c := by
  have hdir : i.type ≠ .directory := by
    rw [hf]
    nofun
  unfold readFile
  refine (requireFileIno_returns hr hi hdir).bind fun r v₁ h => ?_
  obtain ⟨rfl, rfl⟩ := h
  refine (dateNow_returns o v₁).bind fun now v₂ h => ?_
  obtain ⟨k, rfl⟩ := h
  refine (updateInode_returns (v := { v₁ with clockCalls := k }) hi _).bind fun _ v₃ h => ?_
  have hs₃ : Shows o v₃ ino i c := by
    subst h
    exact ⟨⟨hs.keys, hs.shared, hs.inline, hs.sized⟩, hs.size, hs.inlined, hs.chunked, hs.fits⟩
  have hshown : Shown o v₃ ino .file c := by
    subst h
    exact ⟨_, Function.update_self .., hf, ⟨hs.keys, hs.shared, hs.inline, hs.sized⟩, hs.size,
      hs.inlined, hs.chunked, hs.fits⟩
  exact (readInodeContent_shows hcs hs₃).mono fun r v' h => ⟨h.1, h.2 ▸ hshown⟩

theorem readFile_eq : ((readFile o path).exec v).1 = .ok c := by
  obtain ⟨r, v', he, rfl, -⟩ := returns_iff.mp (readFile_shows hcs hr hi hf hs)
  rw [he]

end

/-- A path leads to a regular file, or to nothing an operation on a content goes on with. -/
theorem file_or_not (h : VfsOk o v) (path : String) :
    (∃ ino i c, v.metadata.resolvePath (normalizePath path) = .ok ino ∧
      v.metadata.inodes ino = some i ∧ i.type = .file ∧ Shows o v ino i c) ∨
    ∀ ino i, v.metadata.resolvePath (normalizePath path) = .ok ino →
      v.metadata.inodes ino = some i → i.type = .directory := by
  by_cases hf : ∃ ino i, v.metadata.resolvePath (normalizePath path) = .ok ino ∧
      v.metadata.inodes ino = some i ∧ i.type = .file
  · obtain ⟨ino, i, hr, hi, hty⟩ := hf
    obtain ⟨c, hc⟩ := h.content.files ino i hi hty
    exact .inl ⟨ino, i, c, hr, hi, hty, hc⟩
  · refine .inr fun ino i hr hi => ?_
    have hsym := resolve_type h.ns.toNsShape _ _ hr hi
    cases hty : i.type with
    | directory => rfl
    | file => exact absurd ⟨ino, i, hr, hi, hty⟩ hf
    | symlink => exact absurd hty hsym

theorem pwrite_does (hcs : 0 < o.chunkSize) (h : VfsOk o v) (path : String) (off : Nat)
    (data : ByteArray8) : AlwaysDoes o tidy (pwrite o path off data) v := by
  rcases file_or_not h path with ⟨ino, i, c, hr, hi, hty, hs⟩ | hno
  · have hdir : i.type ≠ .directory := fun hd => by rw [hty] at hd; cases hd
    exact wp_mono (content_does h hi (LeavesNs.pwrite path off data)
      (pwrite_shows hcs (fun hwb => h.content.plain hwb ino) (resolveIno_returns hr) hi hdir hs off
        data))
      (fun _ _ h' => h'.1) fun _ _ => False.elim
  · unfold pwrite
    rw [AlwaysDoes, wp_bind]
    refine wp_resolveIno (fun ino hr => ?_) fun _ => .refl h
    split
    · exact .refl h
    · rw [wp_bind]
      refine wp_requireInode (fun i hi => ?_) fun _ => .refl h
      rw [if_pos (hno ino i hr hi)]
      exact .refl h

theorem truncate_does (hcs : 0 < o.chunkSize) (h : VfsOk o v) (path : String) (length : Nat) :
    AlwaysDoes o tidy (truncate o path length) v := by
  rcases file_or_not h path with ⟨ino, i, c, hr, hi, hty, hs⟩ | hno
  · have hdir : i.type ≠ .directory := fun hd => by rw [hty] at hd; cases hd
    exact wp_mono (content_does h hi (LeavesNs.storing.truncate path length)
      ((truncate_shows hcs (resolveIno_returns hr) hi hdir hs length).mono fun _ _ ht =>
        ⟨ht.1.toElsewhere, fun hwb => ht.1.own (h.content.plain hwb ino), ht.2⟩))
      (fun _ _ h' => h'.1) fun _ _ => False.elim
  · unfold truncate
    rw [AlwaysDoes, wp_bind]
    refine wp_resolveIno (fun ino hr => ?_) fun _ => .refl h
    rw [wp_bind]
    refine wp_requireInode (fun i hi => ?_) fun _ => .refl h
    rw [if_pos (hno ino i hr hi)]
    exact .refl h

/-! ### Flushing -/

/-- A flush, also of an inode that is not there any more. -/
theorem flushInode_does (h : VfsOk o v) (ino : Nat) :
    (flushInode o ino).Returns v fun _ v' => Does o tidy v v' := by
  cases hb : v.writeBuffers.get ino with
  | none =>
      unfold flushInode Returns
      rw [wp_bind, wp_read, hb]
      exact .refl h
  | some buf =>
      refine wp_mono (wp_and
        (flushInode_returns o (h.content.keys ino) (h.content.shared ino))
        (LeavesNs.storing.flushInode.state v)) ?_ fun _ _ => And.left
      rintro _ v' ⟨hf, hn⟩
      refine .same h hn (h.content.apart hf.elsewhere.apart ?_ hf.keys hf.shared ?_ fun i hi => ?_)
      · refine Nat.lt_of_not_le fun hle => ?_
        rw [(h.content.fresh ino hle).2] at hb
        cases hb
      · intro hplain
        rw [h.content.plain hplain ino] at hb
        cases hb
      · rw [hf.inodes] at hi
        refine ⟨hf.kept (h.content.kept ino i hi), fun hty => ?_⟩
        obtain ⟨c, hc⟩ := h.content.files ino i hi hty
        exact ⟨c, hf.shows hc⟩

theorem flushEach_does (l : List Nat) :
    ∀ v, VfsOk o v → (flushEach o l).run.Returns v fun _ v' => Does o tidy v v' := by
  induction l with
  | nil => exact fun v h => .refl h
  | cons ino l ih =>
      intro v h
      simp only [flushEach, run_bind, run_withLock, run_flushInode]
      exact (flushInode_does h ino).bind fun _ v₁ h₁ =>
        (ih v₁ h₁.ok).mono fun _ v₂ h₂ => h₁.trans h₂

theorem flushAll_does (h : VfsOk o v) : AlwaysDoes o tidy (flushAll o).run v := by
  simp only [AlwaysDoes, flushAll, run_bind, run_look, wp_bind, wp_read]
  exact wp_mono (flushEach_does _ v h) (fun _ _ => id) fun _ _ => False.elim

theorem fsync_does (h : VfsOk o v) (path : String) : AlwaysDoes o tidy (fsync o path).run v := by
  unfold fsync
  split
  · simp only [AlwaysDoes, run_bind, run_await, wp_bind, wp_read]
    cases v.metadata.resolvePath (normalizePath path) with
    | error e => exact .refl h
    | ok ino =>
        simp only [run_withLock, run_flushInode]
        exact wp_mono (flushInode_does h ino) (fun _ _ => id) fun _ _ => False.elim
  · exact .refl h

/-! ### Making files and symlinks -/

/-- The contents are in order while the new inode is not linked yet. -/
theorem Makes.made (hm : Makes v v₁ t target p name) (h : ContentOk o v) : ContentOk o v₁ := by
  refine hm.content rfl rfl rfl rfl h (fun i hi => ?_) fun j i hj hi => ⟨i, hi, .refl i⟩
  obtain ⟨i₀, hi₀, -, -, hmode, hnone, hsize⟩ := hm.inode
  obtain rfl : i₀ = i := Option.some.inj (hi₀.symm.trans hi)
  refine ⟨hmode, fun _ => ?_⟩
  rw [hsize, hnone]
  rfl

/-- The new inode gets its link. -/
theorem linked_does (h : VfsOk o v) (hl : v.metadata.lookup p name = none)
    (hp : ∃ n, v.metadata.ns.node p = some n) (hdir : tidy → v.metadata.ns.IsDir p)
    (ht : t ≠ .directory) (hsym : t = .symlink → target.isSome) (hm : Makes v v₁ t target p name)
    (hns : v'.metadata.ns = v₁.metadata.ns.relink v.metadata.nextIno fun _ => 1)
    (hc : ContentOk o v') :
    Does o tidy v v' ∧ v'.metadata.ns = v.metadata.ns.make (p, name) t target := by
  have hmake : v'.metadata.ns = v.metadata.ns.make (p, name) t target := by
    rw [hns, hm.ns, Ns.make, if_neg ht]
    exact relink_addNode v.metadata.ns _ _ _ _ 1
  exact ⟨.step h (hmake ▸ .make t target hsym hl hp hdir) hc, hmake⟩

theorem writeNew_does (hcs : 0 < o.chunkSize) (h : VfsOk o v)
    (hl : v.metadata.lookup p name = none) (hp : ∃ n, v.metadata.ns.node p = some n)
    (hdir : tidy → v.metadata.ns.IsDir p) (data : ByteArray8) :
    (Async.writeNew o p name data).run.Returns v fun _ v' => Does o tidy v v' ∧
      v'.metadata.ns = v.metadata.ns.make (p, name) .file none ∧
      Shown o v' v.metadata.nextIno .file data := by
  simp only [Async.writeNew, run_bind, run_await, Async.run_writeInodeContent]
  refine makes_returns h.ns o _ hl fun v₁ (h₁ : Makes v v₁ .file none p name) => ?_
  rw [wp_bind]
  refine wp_mono (updateInode_updates v₁ _ _) ?_ fun _ _ => id
  intro _ v₂ h₂
  have hns₂ := h₂.ns (fun _ => 1) fun _ _ => ⟨rfl, rfl⟩
  have hc₂ : ContentOk o v₂ := h₂.content (h₁.made h.content) fun _ _ => ⟨rfl, rfl, rfl, rfl⟩
  obtain ⟨hd₂, hmake⟩ :=
    linked_does (t := .file) h hl hp hdir (by decide) (fun h => by cases h) h₁ hns₂ hc₂
  -- the inode that the content is written to
  obtain ⟨i₀, hi₀, hty, -, hmode, -⟩ := h₁.inode
  have hi₂ : v₂.metadata.inodes v.metadata.nextIno = some { i₀ with nlink := 1 } := by
    rw [h₂.inodes, if_pos rfl, hi₀]
    rfl
  have hkept := hc₂.kept _ _ hi₂
  refine (requireInode_returns hi₂).bind fun i v₃ h₃ => ?_
  obtain ⟨rfl, rfl⟩ := h₃
  have hwrite := writeInodeContent_returns hcs hi₂ ⟨hkept.keys, fun hm => (hkept.inline hm).1⟩ data
  have hb := (hkept.inline hmode).2
  have hcontent : (writeInodeContent o v.metadata.nextIno data { i₀ with nlink := 1 }).Returns v₃
      fun _ v' => Elsewhere v.metadata.nextIno v₃ v' ∧
        (o.writeBuffering = false → v'.writeBuffers.get v.metadata.nextIno = none) ∧
        Shown o v' v.metadata.nextIno i₀.type data :=
    hwrite.mono fun _ v' h' => ⟨h'.1.toElsewhere, fun _ => h'.1.own hb, h'.2.shown (h'.1.own hb)⟩
  refine wp_mono (wp_and hcontent ((LeavesNs.storing.writeInodeContent data _).state v₃)) ?_ fun _ _ => And.left
  rintro _ v' ⟨⟨he, hplain, hs⟩, hn⟩
  exact ⟨hd₂.trans (.same hd₂.ok hn (hc₂.shown he (hd₂.ok.lt hi₂) hplain hs)), hn.trans hmake,
    hty ▸ hs⟩

/-- The content of what is there is replaced, and no link count changes. -/
theorem writeExisting_does (hcs : 0 < o.chunkSize) (h : VfsOk o v) {e : Nat × String}
    (he : v.metadata.ns.entry e = some ino) (hi : v.metadata.inodes ino = some i)
    (data : ByteArray8) :
    (Async.writeExisting o ino data).run.Returns v fun _ v' => Does o tidy v v' ∧
      v'.metadata.ns = v.metadata.ns ∧ Elsewhere ino v v' ∧ Shown o v' ino i.type data := by
  rw [Async.run_writeExisting]
  have hlink : v.metadata.ns.relink ino (fun _ => max i.nlink 1) = v.metadata.ns :=
    (Ns.relink_const (node_ns hi) (max · 1)).trans (h.ns.touch_eq he)
  have hns : (writeExisting o ino data).wp v (fun _ v' => v'.metadata.ns = v.metadata.ns)
      fun _ _ => True := by
    unfold writeExisting
    rw [wp_bind]
    refine wp_mono (requireInode_returns hi) ?_ fun _ _ _ => trivial
    rintro j v₁ ⟨rfl, rfl⟩
    rw [wp_bind, wp_update, wp_bind]
    refine wp_mono ((LeavesNs.storing.writeInodeContent data j).state _) (fun _ v₂ h₂ => ?_)
      fun _ _ _ => trivial
    refine wp_mono (updateInode_updates v₂ ino _) (fun _ v₃ h₃ => ?_) fun _ _ _ => trivial
    rw [h₃.ns (fun _ => max j.nlink 1) fun _ _ => ⟨rfl, rfl⟩, h₂]
    exact hlink
  have hkept := h.content.kept ino i hi
  refine wp_mono (wp_and (writeExisting_returns hcs hi
    ⟨hkept.keys, fun hm => (hkept.inline hm).1⟩ data) hns) ?_ fun _ _ => And.left
  rintro _ v' ⟨⟨ht, hb, hs⟩, hn⟩
  have hs := hs.shown hb
  exact ⟨.same h hn (h.content.shown ht.toElsewhere (h.lt hi) (fun _ => hb) hs), hn, ht.toElsewhere,
    hs⟩

/-- The path's file is there with the data, and no name is gone; it fails at the root only. -/
theorem writeFile_does (hcs : 0 < o.chunkSize) (h : VfsOk o v) (path : String) (data : ByteArray8)
    (hm : tidy → v.metadata.ns.MakesInDir 1 (splitPath (normalizePath path))) :
    (writeFile o path data).wp v
      (fun _ v' => Does o tidy v v' ∧ v.metadata.ns.Grows v'.metadata.ns ∧
        ∃ ino t, v'.metadata.ns.follow 1 (splitPath (normalizePath path)) = some ino ∧
          Shown o v' ino t data)
      fun _ v' => v' = v ∧ splitPath (normalizePath path) = [] := by
  rw [← Async.run_writeFile]
  simp only [Async.writeFile, run_bind, run_await, wp_bind]
  refine wp_mono (ensureParents_does h path hm) ?_ fun _ _ => id
  rintro ⟨p, name⟩ v₁ ⟨hd, hp, hm₁, hold, l, hsplit, hf⟩
  rw [wp_read]
  dsimp only at hsplit ⊢
  rw [hsplit]
  cases hl : v₁.metadata.lookup p name with
  | some existing =>
      obtain ⟨n, hn⟩ := hd.ok.ns.child (p, name) existing hl
      obtain ⟨i, hi, -⟩ := node_ns_some hn
      simp only [run_withLock]
      have hw : (Async.writeExisting o existing data).run.Returns v₁ fun _ v' => Does o tidy v₁ v' ∧ _ :=
        writeExisting_does hcs hd.ok (e := (p, name)) hl hi data
      refine wp_mono hw ?_ fun _ _ => False.elim
      rintro _ v' ⟨hd', hns, -, hs⟩
      refine ⟨hd.trans hd', hns ▸ hold.grows, existing, i.type, ?_, hs⟩
      rw [hns]
      exact Ns.follow_snoc.mpr ⟨p, hf, hl⟩
  | none =>
      have hmake : v₁.metadata.ns.Grows (v₁.metadata.ns.make (p, name) .file none) :=
        hd.ok.ns.grows_make hl hp (fun h => by cases h)
      refine wp_mono (writeNew_does hcs hd.ok hl hp (fun ht => Ns.MakesInDir.dir (hm₁ ht) hl) data)
        ?_ fun _ _ => False.elim
      rintro _ v' ⟨hd', hns, hs⟩
      have hgrows : v₁.metadata.ns.Grows v'.metadata.ns := hns ▸ hmake
      refine ⟨hd.trans hd', hold.grows.trans hgrows, _, .file, ?_, hs⟩
      refine Ns.follow_snoc.mpr ⟨p, hgrows.follow l 1 hf, ?_⟩
      rw [hns, Ns.entry_make, Function.update_self]
      rfl

theorem symlink_does (h : VfsOk o v) (target linkPath : String)
    (hm : tidy → ∀ p name, v.metadata.resolveParentPath (normalizePath linkPath) = .ok (p, name) →
      v.metadata.lookup p name = none → v.metadata.ns.IsDir p) :
    AlwaysDoes o tidy (symlink o target linkPath).run v := by
  simp only [AlwaysDoes, symlink, run_bind, run_await, wp_bind]
  refine wp_resolveParentPath (fun p name hp => ?_) fun _ => .refl h
  rw [wp_lookup]
  cases hl : v.metadata.lookup p name with
  | some _ => exact .refl h
  | none =>
      simp only [run_bind, run_await]
      refine makes_returns h.ns o _ hl fun v₁ (h₁ : Makes v v₁ .symlink (some target) p name) => ?_
      refine wp_mono (updateInode_updates v₁ _ _) (fun _ v₂ h₂ => ?_) fun _ _ => False.elim
      refine (linked_does (t := .symlink) h hl (h.ns.reached (resolveParentPath_reaches hp))
        (fun ht => hm ht p name hp hl) (by decide) (fun _ => rfl) h₁
        (h₂.ns (fun _ => 1) fun _ _ => ⟨rfl, rfl⟩) ?_).1
      refine h₁.content h₂.chunks h₂.blocks h₂.buffers h₂.nextIno h.content (fun i hi => ?_)
        fun j i hj hi => ?_
      · rw [h₂.inodes, if_pos rfl] at hi
        obtain ⟨i₁, hi₁, rfl⟩ := Option.map_eq_some_iff.mp hi
        obtain ⟨i₀, hi₀, hty, -, hmode, -⟩ := h₁.inode
        obtain rfl : i₀ = i₁ := Option.some.inj (hi₀.symm.trans hi₁)
        refine ⟨hmode, fun hf => ?_⟩
        rw [show i₀.type = .file from hf] at hty
        cases hty
      · rw [h₂.inodes, if_neg hj] at hi
        exact ⟨i, hi, .refl i⟩

theorem link_does (h : VfsOk o v) (oldPath newPath : String)
    (hm : tidy → ∀ p name, v.metadata.resolveParentPath (normalizePath newPath) = .ok (p, name) →
      v.metadata.lookup p name = none → v.metadata.ns.IsDir p) :
    AlwaysDoes o tidy (link oldPath newPath).run v := by
  simp only [AlwaysDoes, link, run_bind, run_await, wp_bind]
  refine wp_resolveIno (fun ino hr => ?_) fun _ => .refl h
  refine wp_requireInode (fun i hi => ?_) fun _ => .refl h
  split
  · exact .refl h
  rename_i hty
  simp only [run_bind, run_await, wp_bind]
  refine wp_resolveParentPath (fun p name hp => ?_) fun _ => .refl h
  rw [wp_lookup]
  cases hl : v.metadata.lookup p name with
  | some _ => exact .refl h
  | none =>
      obtain ⟨m', hm'⟩ := createDentry_ok hl ino i.type
      have hsame : m'.inodes = v.metadata.inodes ∧ m'.chunks = v.metadata.chunks ∧
          m'.nextIno = v.metadata.nextIno := by
        simp only [InMemoryMetadataStore.createDentry] at hm'
        split at hm'
        · cases hm'
        · cases hm'
          exact ⟨rfl, rfl, rfl⟩
      simp only [run_bind, run_await, wp_bind, createDentry, wp_read, hm',
        wp_lift_ok, updateMetadata, wp_update]
      refine wp_mono (updateInode_updates _ ino _) (fun _ v₂ h₂ => ?_) fun _ _ => False.elim
      have hns : v₂.metadata.ns = v.metadata.ns.link (p, name) ino := by
        refine (h₂.ns (· + 1) fun j hj => ⟨rfl, ?_⟩).trans ?_
        · obtain rfl : i = j :=
            Option.some.inj (hi.symm.trans ((congrFun hsame.1 ino).symm.trans hj))
          rfl
        · rw [ns_createDentry hm']
          rfl
      refine .step h ?_ ?_
      · rw [hns]
        exact .link hl (h.ns.reached (resolveParentPath_reaches hp)) (node_ns hi) hty
          fun ht => hm ht p name hp hl
      · have hc : ContentOk o { v with metadata := m' } :=
          h.content.metadata hsame.2.1 rfl rfl hsame.2.2.ge fun j i' hi' =>
            .inl ⟨i', (congrFun hsame.1 j).symm.trans hi', .refl i'⟩
        exact h₂.content hc fun _ _ => ⟨rfl, rfl, rfl, rfl⟩

end SecureExec.Vfs
