import SecureExec.Vfs.Files

/-!
# Vfs — Copying — what `copy` does

`copy` makes a file with the chunks the source has in its chunk map.  It never fails halfway: the
blocks it copies are there.
-/

namespace SecureExec.Vfs
open SecureExec Bytes Graph Prog Coro

variable {o : ChunkedVfsOptions} {v v' v₁ : ChunkedVfs} {ino dst p : Nat} {i : InodeMeta}
  {tidy : Prop} {name : String}

theorem copyChunks_returns (o : ChunkedVfsOptions) (hne : ino ≠ dst) (l : List (Nat × BlockKey)) :
    ∀ v : ChunkedVfs, KeysOk v dst → (∀ e ∈ l, e.2.ino = ino ∧ ∃ b, v.blocks.blocks e.2 = some b) →
      (l.map Prod.fst).Nodup →
      (Async.copyChunks o dst l).run.Returns v fun _ v' => ChunkEffect dst v v' fun ci =>
        ((l.lookup ci).bind v.blocks.blocks).or (v.chunkFn dst ci) := by
  induction l with
  | nil => exact fun v hk _ _ => ⟨.refl dst v, rfl, rfl, hk, rfl⟩
  | cons e l ih =>
      obtain ⟨ci, key⟩ := e
      intro v hk hsrc hnd
      obtain ⟨hnot, hnd⟩ := List.nodup_cons.mp hnd
      obtain ⟨hino, b, hb⟩ := hsrc (ci, key) (List.mem_cons_self ..)
      simp only [Async.copyChunks, run_bind, run_await, run_lift]
      refine (makeBlockKey_returns o dst ci v).bind fun newKey v₁ h₁ => ?_
      obtain ⟨⟨r, rfl⟩, hi, hc⟩ := h₁
      have hcopy : v.blocks.copy key newKey = .ok (v.blocks.write newKey b) := by
        simp only [InMemoryBlockStore.copy, hb]
      simp only [Returns, wp_bind, Async.copyBlock, wp_read, hcopy, wp_lift_ok, wp_update,
        updateMetadata]
      have hs := writeChunk_effect (b := b) hk hi hc r
      -- the blocks of the source are not those of the copy
      have hkeep : ∀ k : BlockKey, k.ino = ino → (v.blocks.write newKey b).blocks k =
          v.blocks.blocks k := fun k hkino => hs.touches.blocks k (hkino ▸ hne)
      have hrest : ∀ e ∈ l, e.2.ino = ino ∧ ∃ b', (v.blocks.write newKey b).blocks e.2 = some b' :=
        fun e he => by
          obtain ⟨h₁, b', h₂⟩ := hsrc e (List.mem_cons_of_mem _ he)
          exact ⟨h₁, b', (hkeep _ h₁).trans h₂⟩
      refine wp_mono (ih _ hs.keys hrest hnd) ?_ fun _ _ => id
      intro _ v' h
      refine h.after hs (Eq.trans (funext fun cj => congrArg (Option.or · _) ?_)
        (lookup_turn hs.chunks hnot hb))
      cases hl : l.lookup cj with
      | none => rfl
      | some k =>
          exact hkeep k (hsrc (cj, k) (List.mem_cons_of_mem _ (OMap.mem_of_lookup_eq_some _ hl))).1

/-- The new file has the chunks that are stored for the source, or its inline content. -/
theorem copyInto_does (h : VfsOk o v) (hl : v.metadata.lookup p name = none)
    (hp : ∃ n, v.metadata.ns.node p = some n) (hdir : tidy → v.metadata.ns.IsDir p)
    {c : ByteArray8} (hs : Shows o v ino i c) (hino : ino ≠ v.metadata.nextIno) :
    (Async.copyInto o ino i p name).run.Returns v fun _ v' => Does o tidy v v' ∧
      v'.metadata.ns = v.metadata.ns.make (p, name) .file none ∧
      ∃ c', Shown o v' v.metadata.nextIno .file c' ∧ c'.length = c.length ∧
        (i.storageMode = .inline → c' = c) ∧
        (i.storageMode = .chunked → Chunks o.chunkSize (v.chunkFn ino) c') := by
  simp only [Async.copyInto, run_bind, run_await]
  refine makes_returns h.ns o _ hl fun v₁ (h₁ : Makes v v₁ .file none p name) => ?_
  have hc₁ : ContentOk o v₁ := h₁.made h.content
  obtain ⟨i₀, hi₀, hty, -, hmode₀, -⟩ := h₁.inode
  have hlt : v.metadata.nextIno < v₁.metadata.nextIno := by
    rw [h₁.nextIno]
    exact Nat.lt_succ_self _
  have hkept := hc₁.kept _ _ hi₀
  have hnone := (hkept.inline hmode₀).2
  -- the source is as it was
  have hchunk : v₁.metadata.chunks ino = v.metadata.chunks ino := by rw [h₁.chunks]
  have hsrc : ∀ k : BlockKey, k.ino = ino → v₁.blocks.blocks k = v.blocks.blocks k := fun k _ => by
    rw [h₁.blocks]
  -- the copy, once its inode is updated
  have hend : ∀ v₂ v' (c' : ByteArray8) (g : InodeMeta → InodeMeta), Elsewhere v.metadata.nextIno v₁ v₂ →
      v₂.metadata.inodes = v₁.metadata.inodes → v₂.writeBuffers = v₁.writeBuffers →
      Updates v₂ v' v.metadata.nextIno g → (∀ j, (g j).type = j.type ∧ (g j).nlink = 1) →
      Shows o v₂ v.metadata.nextIno (g i₀) c' → Does o tidy v v' ∧
        v'.metadata.ns = v.metadata.ns.make (p, name) .file none ∧
        Shown o v' v.metadata.nextIno .file c' := by
    intro v₂ v' c' g he hin hbuf hu hg hsh
    have hns₂ : v₂.metadata.ns = v₁.metadata.ns := by
      refine Ns.ext (funext fun e => ?_) (funext fun x => ?_) he.symlinkTargets he.nextIno
      · change v₂.metadata.lookup _ _ = v₁.metadata.lookup _ _
        rw [InMemoryMetadataStore.lookup, InMemoryMetadataStore.lookup, he.dentries]
      · change (v₂.metadata.inodes x).map _ = (v₁.metadata.inodes x).map _
        rw [hin]
    have hns : v'.metadata.ns = v₁.metadata.ns.relink v.metadata.nextIno fun _ => 1 := by
      rw [hu.ns (fun _ => 1) fun j _ => hg j, hns₂]
    have hi' : v'.metadata.inodes v.metadata.nextIno = some (g i₀) := by
      rw [hu.inodes, if_pos rfl, hin, hi₀]
      rfl
    have hsh' : Shows o v' v.metadata.nextIno (g i₀) c' :=
      hsh.look (congrFun hu.chunks _) (fun k _ => by rw [hu.blocks]) (by rw [hu.buffers])
        (.refl _)
    have hcontent : ContentOk o v' := by
      refine hc₁.apart (he.apart.trans hu.apart) hlt hsh'.keys hsh'.shared
        (fun _ => by rw [hu.buffers, hbuf, hnone]) fun j hj => ?_
      obtain rfl : g i₀ = j := Option.some.inj (hi'.symm.trans hj)
      exact ⟨hsh'.toKept, fun _ => ⟨c', hsh'⟩⟩
    obtain ⟨hd, hmake⟩ :=
      linked_does (t := .file) h hl hp hdir (by decide) (fun h => by cases h) h₁ hns hcontent
    exact ⟨hd, hmake, g i₀, hi', (hg i₀).1.trans hty, hsh'⟩
  cases hm : i.storageMode with
  | inline =>
      refine wp_mono (updateInode_updates v₁ _ _) (fun _ v' hu => ?_) fun _ _ => id
      have hst : Stores o v₁ v.metadata.nextIno { i₀ with
          nlink := 1, size := i.size, storageMode := .inline
          inlineContent := some (i.inlineContent.getD []) } c :=
        .of_inline hkept.keys (hkept.inline hmode₀).1 rfl (hs.inlined hm) hs.size
      obtain ⟨hd, hmake, hshown⟩ := hend v₁ v' c _ (.refl _ _) rfl rfl hu (fun _ => ⟨rfl, rfl⟩)
        (hst.shows hnone)
      exact ⟨hd, hmake, c, hshown, rfl, fun _ => rfl, fun h => by cases h⟩
  | chunked =>
      simp only [run_bind, run_await, wp_bind, wp_read]
      obtain ⟨hnd, hmem⟩ := getAllChunkKeys_spec v₁.metadata ino
      have hkeys := hc₁.keys ino
      refine wp_mono (copyChunks_returns o hino _ v₁ hkept.keys (fun e he => ?_) hnd)
        (fun _ v₂ he₂ => ?_) fun _ _ => id
      · obtain ⟨h₁, -, h₂⟩ := hkeys e.1 e.2 ((hmem e).mp he)
        exact ⟨h₁, h₂⟩
      -- the copy has the chunks of the source
      have hchunks : v₂.chunkFn v.metadata.nextIno = v.chunkFn ino := by
        refine he₂.chunks.trans (funext fun ci => ?_)
        rw [(hkept.inline hmode₀).1, Option.or_none, ← chunkFn_look hchunk hsrc (h.content.keys ino),
          ChunkedVfs.chunkFn]
        refine congrArg (Option.bind · _) ?_
        cases hk : v₁.metadata.getChunkKey ino ci with
        | none =>
            refine List.lookup_eq_none_iff.mpr fun e he => bne_iff_ne.mpr fun hci => ?_
            rw [hci, (hmem e).mp he] at hk
            cases hk
        | some key => exact OMap.lookup_eq_some_of_mem _ hnd ((hmem (ci, key)).mpr hk)
      obtain ⟨c', hlen, hc'⟩ := hs.fits.chunks
      refine wp_mono (updateInode_updates v₂ _ _) (fun _ v' hu => ?_) fun _ _ => id
      have hst : Stores o v₂ v.metadata.nextIno { i₀ with
          nlink := 1, size := i.size, storageMode := .chunked, inlineContent := none } c' :=
        .of_chunked he₂.keys (hchunks ▸ hc') rfl (hs.size.trans hlen.symm)
      have hnone₂ : v₂.writeBuffers.get v.metadata.nextIno = none := by rw [he₂.buffers, hnone]
      obtain ⟨hd, hmake, hshown⟩ := hend v₂ v' c' _ he₂.touches.toElsewhere he₂.inodes he₂.buffers hu
        (fun _ => ⟨rfl, rfl⟩) (hst.shows hnone₂)
      exact ⟨hd, hmake, c', hshown, hlen, fun h => (by cases h), fun _ => hc'⟩

theorem copy_does (h : VfsOk o v) (srcPath dstPath : String)
    (hm : tidy → v.metadata.ns.MakesInDir 1 (splitPath (normalizePath dstPath))) :
    AlwaysDoes o tidy (Async.copy o srcPath dstPath).run v := by
  simp only [AlwaysDoes, Async.copy, run_bind, run_await, wp_bind]
  refine wp_resolveIno (fun ino hr => ?_) fun _ => .refl h
  refine wp_requireInode (fun i hi => ?_) fun _ => .refl h
  split
  · exact .refl h
  rename_i hdir
  have hfile : i.type = .file := by
    have hsym := resolve_type h.ns.toNsShape _ _ hr hi
    cases hty : i.type with
    | file => rfl
    | directory => exact absurd hty hdir
    | symlink => exact absurd hty hsym
  obtain ⟨c, hs⟩ := h.content.files ino i hi hfile
  simp only [run_bind, run_await, wp_bind]
  refine wp_mono (ensureParents_does h dstPath hm) ?_ fun _ _ he => he.1.symm ▸ .refl h
  rintro ⟨p, name⟩ v₁ ⟨hd, hp, hm₁, hold, -⟩
  rw [wp_lookup]
  cases hl : v₁.metadata.lookup p name with
  | some _ => exact hd
  | none =>
      -- the parents that were made are not the source
      have hlt := h.lt hi
      have hs₁ : Shows o v₁ ino i c := (hold.old ino hlt).shows hs (.refl i)
      exact wp_mono (copyInto_does hd.ok hl hp (fun ht => Ns.MakesInDir.dir (hm₁ ht) hl) hs₁
        (Nat.lt_of_lt_of_le hlt hold.nextIno).ne) (fun _ _ h' => hd.trans h'.1)
        fun _ _ => False.elim

end SecureExec.Vfs
