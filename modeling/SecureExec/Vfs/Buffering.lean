import SecureExec.Vfs.Runs

/-!
# Vfs — Buffering — write buffering is invisible

With write buffering `pwrite` leaves its chunks in a buffer, where the reads look first; `fsync` and
the auto-flush timer store them.

* `Flushes`: a flush changes no name and nothing that a reader sees, of this file or another.
* `buffered_refines_flat`: a regular file is a flat byte array, whenever it is flushed.
* `storage_fits`: what is stored of a file, in every state.
-/

namespace SecureExec.Vfs
open SecureExec Prog Coro

/-- The operations on a file, and those that store what is buffered. -/
inductive BufferedOp where
  | file (op : FileOp)
  | fsync
  | flushAll

def BufferedOp.run (o : ChunkedVfsOptions) (path : String) : BufferedOp → VfsProg Reply
  | .file op => op.run o path
  | .fsync => do (Async.fsync o path).run; pure .done
  | .flushAll => do (Async.flushAll o).run; pure .done

def BufferedOp.flat : BufferedOp → ByteArray8 → Reply × ByteArray8
  | .file op, c => op.flat c
  | _, c => (.done, c)

/-- The answers of a sequence of operations, each awaited before the next. -/
def runBuffered (o : ChunkedVfsOptions) (path : String) :
    List BufferedOp → ChunkedVfs → List (Except Failure Reply)
  | [], _ => []
  | op :: ops, v => ((op.run o path).exec v).1 :: runBuffered o path ops ((op.run o path).exec v).2

def flatBuffered : List BufferedOp → ByteArray8 → List Reply
  | [], _ => []
  | op :: ops, c => (op.flat c).1 :: flatBuffered ops (op.flat c).2

variable {o : ChunkedVfsOptions} {v v' v₁ : ChunkedVfs} {ino : Nat} {i : InodeMeta} {path : String}
  {c : ByteArray8}

/-! ### Flushing -/

structure Flushes (o : ChunkedVfsOptions) (v v' : ChunkedVfs) : Prop where
  ok : VfsOk o v'
  ns : v'.metadata.ns = v.metadata.ns
  shown : ∀ ino t c, Shown o v ino t c → Shown o v' ino t c

theorem Flushes.refl (h : VfsOk o v) : Flushes o v v := ⟨h, rfl, fun _ _ _ => id⟩

theorem Flushes.trans (h : Flushes o v v₁) (h' : Flushes o v₁ v') : Flushes o v v' :=
  ⟨h'.ok, h'.ns.trans h.ns, fun ino t c hs => h'.shown ino t c (h.shown ino t c hs)⟩

theorem flushInode_flushes (h : VfsOk o v) (j : Nat) :
    (flushInode o j).Returns v fun _ v' => Flushes o v v' := by
  have hdoes : (flushInode o j).Returns v fun _ v' => Does o False v v' := flushInode_does h j
  have hret := flushInode_returns o (h.content.keys j) (h.content.shared j)
  refine wp_mono (wp_and (wp_and hdoes hret) (LeavesNs.storing.flushInode.state v)) ?_
    fun _ _ hf => hf.1.1
  rintro _ v' ⟨⟨hd, hf⟩, hn⟩
  refine ⟨hd.ok, hn, fun ino t c => ?_⟩
  rintro ⟨i, hi, ht, hs⟩
  refine ⟨i, hf.inodes ▸ hi, ht, ?_⟩
  by_cases hj : ino = j
  · subst hj
    exact hf.shows hs
  · have he := hf.elsewhere
    exact hs.look (he.chunks ino hj) (fun k hk => he.blocks k (hk ▸ hj)) (he.others ino hj) (.refl i)

theorem flushEach_flushes (l : List Nat) :
    ∀ v, VfsOk o v → (Async.flushEach o l).run.Returns v fun _ v' => Flushes o v v' := by
  induction l with
  | nil => exact fun v h => .refl h
  | cons j l ih =>
      intro v h
      simp only [Async.flushEach, run_bind, run_withLock, Async.run_flushInode]
      exact (flushInode_flushes h j).bind fun _ v₁ h₁ =>
        (ih v₁ h₁.ok).mono fun _ v₂ h₂ => h₁.trans h₂

theorem fsync_flushes (h : VfsOk o v) :
    (Async.fsync o path).run.Returns v fun _ v' => Flushes o v v' := by
  unfold Async.fsync
  split
  · simp only [Returns, run_bind, run_await, wp_bind, wp_read]
    cases v.metadata.resolvePath (normalizePath path) with
    | error e => exact .refl h
    | ok j =>
        simp only [run_withLock, Async.run_flushInode]
        exact flushInode_flushes h j
  · exact .refl h

theorem flushAll_flushes (h : VfsOk o v) :
    (Async.flushAll o).run.Returns v fun _ v' => Flushes o v v' := by
  simp only [Async.flushAll, Returns, run_bind, Async.run_look, wp_bind, wp_read]
  exact flushEach_flushes _ v h

/-! ### Runs -/

namespace FileAt

theorem flushed (h : FileAt o v path ino c) (hf : Flushes o v v') : FileAt o v' path ino c := by
  have hg : v.metadata.ns.Grows v'.metadata.ns := hf.ns ▸ .refl _
  have hl := noLinks_of_grows h.noLinks hg
  exact ⟨hf.ok, hl, resolvePath_grows h.noLinks hl hg h.resolves, hf.shown ino _ c h.shown⟩

variable (hcs : 0 < o.chunkSize)
include hcs

theorem buffered (h : FileAt o v path ino c) (op : BufferedOp) :
    (op.run o path).Returns v fun r v' => r = (op.flat c).1 ∧ FileAt o v' path ino (op.flat c).2 := by
  cases op with
  | file f => exact h.step hcs f
  | fsync => exact (fsync_flushes h.ok).bind fun _ _ hf => ⟨rfl, h.flushed hf⟩
  | flushAll => exact (flushAll_flushes h.ok).bind fun _ _ hf => ⟨rfl, h.flushed hf⟩

theorem runBuffered_eq (ops : List BufferedOp) :
    ∀ {v c}, FileAt o v path ino c → runBuffered o path ops v = (flatBuffered ops c).map .ok := by
  induction ops with
  | nil => exact fun _ => rfl
  | cons op ops ih =>
      intro v c h
      obtain ⟨r, v', he, rfl, h'⟩ := returns_iff.mp (h.buffered hcs op)
      simp only [runBuffered, flatBuffered, he, List.map_cons, ih h']

end FileAt

/-- **Write buffering is invisible**: in every state without symlinks that calls and flushes lead to,
a regular file answers operations and flushes as a plain byte array does. -/
theorem buffered_refines_flat (o : ChunkedVfsOptions) (hcs : 1 ≤ o.chunkSize) (now : Nat)
    (hv : Lts.Reach (VfsOp.step o) Lts.Any (createChunkedVfs now) v) (hl : NoLinks v.metadata)
    (hp : v.metadata.resolvePath (normalizePath path) = .ok ino)
    (hi : v.metadata.inodes ino = some i) (hf : i.type = .file) :
    ∃ c, (∀ v₀ data, Lts.Reach (VfsOp.step o) Lts.Any (createChunkedVfs now) v₀ →
        (writeFile o path data).exec v₀ = (.ok ⟨⟩, v) → c = data) ∧
      ∀ ops, runBuffered o path ops v = (flatBuffered ops c).map .ok := by
  have hok := vfsOk_reach hcs hv
  obtain ⟨c, hs⟩ := hok.content.files ino i hi hf
  have hat : FileAt o v path ino c := ⟨hok, hl, hp, i, hi, hf, hs⟩
  refine ⟨c, fun v₀ data h₀ hw => ?_, fun ops => hat.runBuffered_eq hcs ops⟩
  have hw := of_wp_ok (writeFile_does hcs (vfsOk_reach hcs h₀) path data False.elim) hw
  have hdata : FileAt o v path ino data := ⟨hok, hl, hp, shown_of_written hl hp hi hf hw.2.2⟩
  exact Except.ok.inj ((hat.readFile_eq hcs).symm.trans (hdata.readFile_eq hcs))

def buffering : ChunkedVfsOptions := { smallOptions with writeBuffering := true }

/-- A file whose end is in the buffer only, read before and after it is stored. -/
theorem buffered_refines_flat_appended :
    runBuffered buffering "/f"
        [.file (.pwrite 4 [7]), .file (.pread 3 9), .fsync, .file (.truncate 5), .flushAll,
          .file .readFile]
        ((writeFile buffering "/f" [1, 2, 3]).exec (createChunkedVfs 0)).2 =
      [.ok .done, .ok (.bytes [0, 7]), .ok .done, .ok .done, .ok .done,
        .ok (.bytes [1, 2, 3, 0, 7])] := by
  have hl := (@vfsStep_reach buffering _ (by decide) 0
    (.one (a := ("/f", .writeFile [1, 2, 3])) trivial rfl)).2
  obtain ⟨c, hc, hops⟩ := @buffered_refines_flat _ 2 _ "/f" buffering (by decide) 0
    (.one (a := .writeFile "/f" [1, 2, 3]) trivial rfl) hl (by decide +kernel) rfl rfl
  obtain rfl : c = [1, 2, 3] := hc (createChunkedVfs 0) [1, 2, 3] .start rfl
  exact hops _

/-- **What is stored fits** in every state that calls and flushes lead to: content in the inode goes
without chunks and buffer, and each chunk is a block of the file's own that ends inside it. -/
theorem storage_fits (hcs : 0 < o.chunkSize) {now : Nat}
    (hv : Lts.Reach (VfsOp.step o) Lts.Any (createChunkedVfs now) v)
    (hi : v.metadata.inodes ino = some i) (hf : i.type = .file) :
    (i.storageMode = .inline → i.size = (i.inlineContent.getD []).length ∧
      (∀ ci, v.metadata.getChunkKey ino ci = none) ∧ v.writeBuffers.get ino = none) ∧
    ∀ ci k, v.metadata.getChunkKey ino ci = some k → k.ino = ino ∧ k.chunkIndex = ci ∧
      ∃ b, v.blocks.blocks k = some b ∧ b.length ≤ o.chunkSize ∧
        ci * o.chunkSize + b.length ≤ i.size := by
  obtain ⟨c, hs⟩ := (vfsOk_reach hcs hv).content.files ino i hi hf
  have hchunk : ∀ ci k, v.metadata.getChunkKey ino ci = some k →
      v.chunkFn ino ci = v.blocks.blocks k := fun ci k hk => by rw [ChunkedVfs.chunkFn, hk]; rfl
  refine ⟨fun hm => ⟨?_, fun ci => ?_, (hs.inline hm).2⟩, fun ci k hk => ?_⟩
  · rw [hs.inlined hm, hs.size]
  · by_contra hk
    obtain ⟨k, hk⟩ := Option.ne_none_iff_exists'.mp hk
    obtain ⟨-, -, b, hb⟩ := hs.keys ci k hk
    cases ((hs.inline hm).1 ci).symm.trans ((hchunk ci k hk).trans hb)
  · obtain ⟨hino, hidx, b, hb⟩ := hs.keys ci k hk
    exact ⟨hino, hidx, b, hb, hs.size ▸ hs.fits ci b ((hchunk ci k hk).trans hb)⟩

/-- The last byte of a file of two chunks. -/
theorem storage_fits_written : ∃ k b, k.ino = 2 ∧
    (afterCalls [.writeFile "/f" [1, 2, 3]]).blocks.blocks k = some b ∧ 1 * 2 + b.length ≤ 3 := by
  have h := @storage_fits smallOptions _ 2 _ (by decide) 0
    (.one (a := .writeFile "/f" [1, 2, 3]) trivial rfl) rfl rfl
  obtain ⟨hino, -, b, hb, -, hle⟩ := h.2 1 _ rfl
  exact ⟨_, b, hino, hb, hle⟩

end SecureExec.Vfs
