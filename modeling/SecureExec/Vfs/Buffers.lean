import SecureExec.Vfs.FileOps

/-!
# Vfs — Buffers — the content of an inode, part of it in the write buffer

With write buffering the dirty chunks of an inode stand in front of the stored ones: a reader sees
`viewFn`.  `Shows o v ino i c`: a reader of the inode `i` sees the content `c`, whether or not it
has a write buffer.  An inode that stores its content in itself has neither chunks nor a buffer,
the buffered size is the inode's, and the array a dirty chunk shares is a block of its own.

Each operation on the content is followed as in `Vfs.FileOps`, where there is no buffer; a flush
changes what is stored and nothing a reader sees.
-/

namespace SecureExec.Vfs
open SecureExec Bytes Prog ChunkedVfs Function OMap

variable {o : ChunkedVfsOptions} {v v' v₁ : ChunkedVfs} {ino : Nat} {i : InodeMeta}
  {t : InodeType} {c : ByteArray8}

/-! ### What a reader sees -/

/-- The chunks of an inode as its readers see them. -/
def ChunkedVfs.viewFn (v : ChunkedVfs) (ino : Nat) : Nat → Option ByteArray8 :=
  fun ci => ((v.buffer ino).dirtyChunks.get ci).or (v.chunkFn ino ci)

/-- A dirty chunk shares its array with a block of its own. -/
def SharedOk (v : ChunkedVfs) (ino : Nat) : Prop :=
  ∀ ci k, (v.buffer ino).shared.get ci = some k → k.ino = ino ∧ k.chunkIndex = ci

/-- What holds of every inode `i` that is there. -/
structure Kept (v : ChunkedVfs) (ino : Nat) (i : InodeMeta) : Prop where
  keys : KeysOk v ino
  shared : SharedOk v ino
  inline : i.storageMode = .inline →
    (∀ ci, v.chunkFn ino ci = none) ∧ v.writeBuffers.get ino = none
  sized : ∀ buf, v.writeBuffers.get ino = some buf → buf.bufferedSize = i.size

/-- A reader of the inode `i` of `ino` sees the content `c`. -/
structure Shows (o : ChunkedVfsOptions) (v : ChunkedVfs) (ino : Nat) (i : InodeMeta)
    (c : ByteArray8) : Prop extends Kept v ino i where
  size : i.size = c.length
  inlined : i.storageMode = .inline → i.inlineContent.getD [] = c
  chunked : i.storageMode = .chunked → Chunks o.chunkSize (v.viewFn ino) c
  fits : FitsIn o.chunkSize c.length (v.chunkFn ino)

/-- The inode `ino` has the type `t` and a reader of it sees the content `c`. -/
def Shown (o : ChunkedVfsOptions) (v : ChunkedVfs) (ino : Nat) (t : InodeType)
    (c : ByteArray8) : Prop :=
  ∃ i, v.metadata.inodes ino = some i ∧ i.type = t ∧ Shows o v ino i c

variable {buf : InodeWriteBuffer}

theorem buffer_some (hb : v.writeBuffers.get ino = some buf) :
    v.buffer ino = buf := by
  rw [buffer, hb]
  rfl

section

variable (hb : v.writeBuffers.get ino = none)
include hb

theorem buffer_none : v.buffer ino = ⟨.empty, .empty, 0⟩ := by
  rw [buffer, hb]
  rfl

theorem viewFn_none : v.viewFn ino = v.chunkFn ino := by
  funext ci
  rw [viewFn, buffer_none hb]
  rfl

theorem sharedOk_none : SharedOk v ino := by
  intro ci k hk
  rw [buffer_none hb] at hk
  cases hk

/-- Without a write buffer a reader sees what is stored. -/
theorem Shows.stores (h : Shows o v ino i c) : Stores o v ino i c :=
  ⟨⟨h.keys, fun hm => (h.inline hm).1⟩, h.size, h.inlined, fun hm => viewFn_none hb ▸ h.chunked hm⟩

theorem Stores.shows (h : Stores o v ino i c) : Shows o v ino i c := by
  refine ⟨⟨h.keys, sharedOk_none hb, fun hm => ⟨h.inline hm, hb⟩, fun buf hbuf => ?_⟩, h.size,
    h.inlined, fun hm => (viewFn_none hb).symm ▸ h.chunked hm, fun ci b hf => ?_⟩
  · rw [hb] at hbuf
    cases hbuf
  · cases hm : i.storageMode with
    | inline =>
        rw [h.inline hm] at hf
        cases hf
    | chunked => exact (h.chunked hm).fits ci b hf

theorem Holds.shown (h : Holds o v ino t c) : Shown o v ino t c := by
  obtain ⟨i, hi, ht, hs⟩ := h
  exact ⟨i, hi, ht, hs.shows hb⟩

end

/-- The size an operation goes by. -/
theorem Kept.effectiveSize (h : Kept v ino i) :
    ((v.writeBuffers.get ino).map (·.bufferedSize)).getD i.size = i.size := by
  cases hb : v.writeBuffers.get ino with
  | none => rfl
  | some buf => exact h.sized buf hb

/-! ### Reading -/

variable {cs n : Nat}

theorem setChunks_returns (hcs : 0 < cs) (l : List (Nat × ByteArray8)) :
    ∀ (r : ByteArray8) (v : ChunkedVfs),
      (∀ e ∈ l, e.2.length ≤ cs ∧ e.1 * cs + e.2.length ≤ n) →
      (l.map Prod.fst).Nodup → r.length = n → (∀ i, i / cs ∈ l.map Prod.fst → byte r i = 0) →
      (setChunks cs l r).Returns v fun r' v' => v' = v ∧ r'.length = n ∧
        ∀ i, byte r' i = (l.lookup (i / cs)).elim (byte r i) fun b => byte b (i % cs) := by
  induction l with
  | nil => exact fun r v _ _ hr _ => ⟨rfl, hr, fun i => rfl⟩
  | cons e l ih =>
      obtain ⟨ci, b⟩ := e
      intro r v hfit hnd hr hz
      obtain ⟨hnot, hnd⟩ := List.nodup_cons.mp hnd
      obtain ⟨hb, hend⟩ : b.length ≤ cs ∧ ci * cs + b.length ≤ n := hfit _ List.mem_cons_self
      have hz' : ∀ j, j / cs = ci → byte r j = 0 := fun j hj => hz j (by simp [hj])
      have hset := byte_overlay_chunk hcs hb hz'
      refine (setBytes_returns (by omega) v).bind fun r₁ v₁ h₁ => ?_
      obtain ⟨rfl, rfl⟩ := h₁
      refine (ih _ v₁ (fun e he => hfit e (List.mem_cons_of_mem _ he)) hnd ?_ fun j hj => ?_).mono
        fun r' v' h => ⟨h.1, h.2.1, fun j => ?_⟩
      · rw [length_overlay]
        omega
      · rw [hset, if_neg fun h : j / cs = ci => hnot (h ▸ hj), hz j (List.mem_cons_of_mem _ hj)]
      · rw [h.2.2 j, List.lookup_cons, hset]
        by_cases hj : j / cs = ci
        · have hnone : l.lookup (j / cs) = none := by
            refine List.lookup_eq_none_iff.mpr fun e he => bne_iff_ne.mpr fun hje => hnot ?_
            exact (hj.symm.trans hje) ▸ List.mem_map.mpr ⟨e, he, rfl⟩
          rw [hnone, hj, beq_self_eq_true, if_pos rfl]
          rfl
        · rw [if_neg hj, beq_false_of_ne hj]

/-- The stored chunks that are not dirty and the dirty ones, copied into zeros. -/
theorem readChunks_returns (hcs : 0 < o.chunkSize) (h : Shows o v ino i c)
    (hm : i.storageMode = .chunked) :
    (setEntries o.chunkSize (v.writeBuffers.get ino) (v.metadata.getAllChunkKeys ino)
      (zeros c.length) >>= setChunks o.chunkSize
        (((v.writeBuffers.get ino).map (·.dirtyChunks.entries)).getD [])).Returns v
      fun r v' => r = c ∧ v' = v := by
  obtain ⟨hnd, hmem⟩ := getAllChunkKeys_spec v.metadata ino
  have hc := h.chunked hm
  have hdirty : (((v.writeBuffers.get ino).map (·.dirtyChunks.entries)).getD []) =
      (v.buffer ino).dirtyChunks.entries := by
    rw [buffer]
    cases v.writeBuffers.get ino <;> rfl
  have hbind : ∀ ci, (v.writeBuffers.get ino).bind (·.dirtyChunks.get ci) =
      (v.buffer ino).dirtyChunks.get ci := fun ci => by
    rw [buffer]
    cases v.writeBuffers.get ino <;> rfl
  have hview : ∀ ci b, (v.buffer ino).dirtyChunks.get ci = some b → v.viewFn ino ci = some b :=
    fun ci b hb => by rw [viewFn, hb, Option.some_or]
  rw [hdirty]
  refine (setEntries_returns hcs h.keys h.fits _ _ (fun e he => (hmem e).mp he) hnd
    (length_zeros _) fun j _ => byte_zeros _ j).bind fun r v₁ h₁ => ?_
  obtain ⟨rfl, hr, hbytes⟩ := h₁
  refine (setChunks_returns hcs _ r v₁ (fun e he => ?_) (v₁.buffer ino).dirtyChunks.nodup hr
    fun j hj => ?_).mono fun r' v' h' => ⟨ext_byte h'.2.1 fun j _ => ?_, h'.1⟩
  · exact hc.fits e.1 e.2 (hview e.1 e.2 ((get_eq_some_iff ..).mpr he))
  · -- a dirty chunk was passed over
    rw [hbytes j, if_neg, byte_zeros]
    rw [hbind]
    exact fun hn => (get_eq_none_iff ..).mp hn.2 hj
  · rw [h'.2.2 j, hbytes j, hc.bytes j, hbind]
    change ((v₁.buffer ino).dirtyChunks.get (j / o.chunkSize)).elim _ _ =
      byte ((((v₁.buffer ino).dirtyChunks.get (j / o.chunkSize)).or
        (v₁.chunkFn ino (j / o.chunkSize))).getD []) (j % o.chunkSize)
    cases hd : (v₁.buffer ino).dirtyChunks.get (j / o.chunkSize) with
    | some b => rfl
    | none =>
        rw [Option.none_or, Option.elim_none]
        split
        · rfl
        · rename_i hn
          replace hn : j / o.chunkSize ∉ (v₁.metadata.getAllChunkKeys ino).map Prod.fst :=
            fun hk => hn ⟨hk, rfl⟩
          rw [byte_zeros]
          cases hf : v₁.chunkFn ino (j / o.chunkSize) with
          | none => rfl
          | some b =>
              obtain ⟨k, hk, -⟩ := Option.bind_eq_some_iff.mp hf
              exact absurd (List.mem_map.mpr ⟨(j / o.chunkSize, k), (hmem _).mpr hk, rfl⟩) hn

theorem readInodeContent_shows (hcs : 0 < o.chunkSize) (h : Shows o v ino i c) :
    (readInodeContent o ino i).Returns v fun r v' => r = c ∧ v' = v := by
  have heff := h.effectiveSize
  rw [h.size] at heff
  unfold readInodeContent Returns
  simp only [wp_bind, wp_read, h.size, heff]
  split
  · rename_i h0
    exact ⟨(List.eq_nil_of_length_eq_zero h0).symm, rfl⟩
  · cases hm : i.storageMode with
    | inline =>
        rw [(h.inline hm).2]
        exact ⟨h.inlined hm, rfl⟩
    | chunked =>
        simp only [wp_bind, wp_read]
        exact wp_bind.mp (readChunks_returns hcs h hm)

/-- `pread` looks into the buffer first. -/
theorem pread_shows (hcs : 0 < o.chunkSize) (hs : Shows o v ino i c) (off len : Nat) {path : String}
    (hp : (requireFileIno path).Returns v fun r v' => r = (ino, i) ∧ v' = v) :
    (pread o path off len).Returns v fun r v' => r = window c off len ∧ v' = v := by
  have heff := hs.effectiveSize
  rw [hs.size] at heff
  unfold pread
  refine hp.bind fun r v' h => ?_
  obtain ⟨rfl, rfl⟩ := h
  simp only [Returns, wp_bind, wp_read, hs.size, heff]
  split
  · rename_i h
    refine ⟨(List.eq_nil_of_length_eq_zero ?_).symm, rfl⟩
    rw [length_window]
    omega
  · rename_i h
    have hw : window c off (min len (c.length - off)) = window c off len := by
      rw [window, window, ← List.take_take, ← List.length_drop, List.take_length]
    cases hm : i.storageMode with
    | inline =>
        rw [(hs.inline hm).2]
        refine ⟨?_, rfl⟩
        change slice _ _ _ = _
        rw [hs.inlined hm, ← hw, slice, window, List.drop_take]
        congr 1
        omega
    | chunked =>
        refine wp_mono (preadChunks_all hcs hs.keys (by omega) (hs.chunked hm) (fun ci => ?_)
          (by omega)) ?_ fun _ _ => id
        · rw [viewFn, buffer]
          cases v'.writeBuffers.get ino <;> rfl
        · rintro r v' ⟨rfl, rfl⟩
          exact ⟨hw, rfl⟩

/-! ### Writing into the buffer -/

/-- A run of the buffered chunk loop, which writes to the buffer and to blocks it shares. -/
structure DirtyEffect (cs ino n : Nat) (v v' : ChunkedVfs) (f : Nat → Option ByteArray8) :
    Prop where
  elsewhere : Elsewhere ino v v'
  metadata : v'.metadata = v.metadata
  keys : KeysOk v' ino
  shared : SharedOk v' ino
  view : v'.viewFn ino = f
  fits : FitsIn cs n (v'.chunkFn ino)

variable (v)

theorem elsewhere_buffer (ino : Nat) (wb : InodeWriteBuffer) :
    Elsewhere ino v { v with writeBuffers := v.writeBuffers.set ino wb } :=
  ⟨rfl, rfl, rfl, fun _ _ => rfl, fun _ _ => rfl, fun _ _ => rfl,
    fun _ hj => get_set_other _ hj _⟩

theorem elsewhere_block {k : BlockKey} (hk : k.ino = ino) (b : ByteArray8) :
    Elsewhere ino v { v with blocks := v.blocks.write k b } := by
  refine ⟨rfl, rfl, rfl, fun _ _ => rfl, fun _ _ => rfl, fun k' hk' => ?_, fun _ _ => rfl⟩
  refine update_of_ne ?_ _ _
  rintro rfl
  exact hk' hk

theorem buffer_set (ino : Nat) (wb : InodeWriteBuffer) :
    ({ v with writeBuffers := v.writeBuffers.set ino wb } : ChunkedVfs).buffer ino = wb :=
  buffer_some (get_set_self ..)

variable {v}

variable {ci : Nat}

/-- A block of chunk `ci` is written. -/
theorem chunkFn_write (hk : KeysOk v ino) {k : BlockKey}
    (hkey : k.ino = ino ∧ k.chunkIndex = ci) (b : ByteArray8) :
    KeysOk { v with blocks := v.blocks.write k b } ino ∧
      (∀ cj, cj ≠ ci → ({ v with blocks := v.blocks.write k b } : ChunkedVfs).chunkFn ino cj =
        v.chunkFn ino cj) ∧
      ∀ b', ({ v with blocks := v.blocks.write k b } : ChunkedVfs).chunkFn ino ci = some b' →
        b' = b ∨ v.chunkFn ino ci = some b' := by
  have hblock : ∀ k', (v.blocks.write k b).blocks k' = if k' = k then some b else v.blocks.blocks k' :=
    fun k' => update_apply ..
  refine ⟨fun cj k' hk' => ?_, fun cj hcj => ?_, fun b' hb' => ?_⟩
  · obtain ⟨h₁, h₂, b', h₃⟩ := hk cj k' hk'
    refine ⟨h₁, h₂, ?_⟩
    rw [hblock]
    split
    · exact ⟨b, rfl⟩
    · exact ⟨b', h₃⟩
  · change (v.metadata.getChunkKey ino cj).bind (v.blocks.write k b).blocks = _
    rw [chunkFn]
    cases hg : v.metadata.getChunkKey ino cj with
    | none => rfl
    | some k' =>
        obtain ⟨-, h₂, -⟩ := hk cj k' hg
        rw [Option.bind_some, Option.bind_some, hblock, if_neg]
        rintro rfl
        exact hcj (h₂.symm.trans hkey.2)
  · change (v.metadata.getChunkKey ino ci).bind (v.blocks.write k b).blocks = some b' at hb'
    rw [chunkFn]
    obtain ⟨k', hg, hb'⟩ := Option.bind_eq_some_iff.mp hb'
    rw [hg, Option.bind_some]
    rw [hblock] at hb'
    split at hb'
    · exact .inl (Option.some.inj hb').symm
    · exact .inr hb'

/-- The dirty chunk `ci` is set. -/
theorem setDirtyChunk_effect (hk : KeysOk v ino)
    (hfit : FitsIn cs n (v.chunkFn ino)) {chunk : ByteArray8} {wb : InodeWriteBuffer}
    (hd : wb.dirtyChunks = (v.buffer ino).dirtyChunks.set ci chunk)
    (hs : ∀ cj k, wb.shared.get cj = some k → k.ino = ino ∧ k.chunkIndex = cj) :
    DirtyEffect cs ino n v { v with writeBuffers := v.writeBuffers.set ino wb }
      (update (v.viewFn ino) ci (some chunk)) := by
  refine ⟨elsewhere_buffer v ino wb, rfl, hk, fun cj k hcj => ?_, funext fun cj => ?_, hfit⟩
  · rw [buffer_set] at hcj
    exact hs cj k hcj
  · rw [viewFn, buffer_set, hd, get_set]
    by_cases hcj : cj = ci
    · rw [if_pos hcj, hcj, update_self, Option.some_or]
    · rw [if_neg hcj, update_of_ne hcj]
      rfl

theorem setDirty_returns (hk : KeysOk v ino) (hs : SharedOk v ino)
    (hfit : FitsIn cs n (v.chunkFn ino)) {key : Option BlockKey}
    (hkey : ∀ k, key = some k → k.ino = ino ∧ k.chunkIndex = ci) {chunk : ByteArray8}
    (hlen : chunk.length ≤ cs ∧ ci * cs + chunk.length ≤ n) (existing : ByteArray8)
    (writeEnd : Nat) :
    (setDirty ino ci key existing chunk writeEnd).Returns v fun _ v' =>
      DirtyEffect cs ino n v v' (update (v.viewFn ino) ci (some chunk)) := by
  cases key with
  | none => exact setDirtyChunk_effect hk hfit rfl hs
  | some key =>
      unfold setDirty
      dsimp only
      split
      · refine setDirtyChunk_effect hk hfit rfl fun cj k hcj => ?_
        rw [get_delete] at hcj
        split at hcj
        · cases hcj
        · exact hs cj k hcj
      · obtain ⟨hk', hother, hself⟩ := chunkFn_write hk (hkey key rfl) chunk
        have hfit' : FitsIn cs n (({ v with blocks := v.blocks.write key chunk } :
            ChunkedVfs).chunkFn ino) := fun cj b hb => by
          by_cases hcj : cj = ci
          · subst hcj
            rcases hself b hb with rfl | hb
            · exact hlen
            · exact hfit cj b hb
          · rw [hother cj hcj] at hb
            exact hfit cj b hb
        have hset : DirtyEffect cs ino n { v with blocks := v.blocks.write key chunk } { v with
            blocks := v.blocks.write key chunk
            writeBuffers := v.writeBuffers.set ino { v.buffer ino with
              dirtyChunks := (v.buffer ino).dirtyChunks.set ci chunk
              shared := (v.buffer ino).shared.set ci key } }
            (update (({ v with blocks := v.blocks.write key chunk } :
              ChunkedVfs).viewFn ino) ci (some chunk)) := by
          refine setDirtyChunk_effect hk' hfit' rfl fun cj k hcj => ?_
          rw [get_set] at hcj
          split at hcj
          · rename_i he
            cases hcj
            exact ⟨(hkey key rfl).1, he ▸ (hkey key rfl).2⟩
          · exact hs cj k hcj
        refine ⟨(elsewhere_block v (hkey key rfl).1 chunk).trans hset.elsewhere, rfl, hset.keys,
          hset.shared, hset.view.trans (funext fun cj => ?_), hset.fits⟩
        by_cases hcj : cj = ci
        · rw [hcj, update_self, update_self]
        · rw [update_of_ne hcj, update_of_ne hcj, viewFn,
            hother cj hcj]
          rfl

variable {off : Nat} {data : ByteArray8}

/-- One turn of the buffered chunk loop of `pwrite`. -/
theorem pwriteDirty_turn (hk : KeysOk v ino)
    (hs : SharedOk v ino) (hfit : FitsIn o.chunkSize n (v.chunkFn ino))
    (hview : FitsIn o.chunkSize n (v.viewFn ino)) (hd : 0 < data.length)
    (hn : off + data.length ≤ n) (hlo : off < ci * o.chunkSize + o.chunkSize)
    (hhi : ci * o.chunkSize < off + data.length) {m : Nat} {Q : PUnit → ChunkedVfs → Prop}
    (hrest : ∀ v', DirtyEffect o.chunkSize ino n v v' (update (v.viewFn ino) ci
      (some (chunkAfter o.chunkSize off data ((v.viewFn ino ci).getD []) ci))) →
      (pwriteDirty o ino off data m (ci + 1)).Returns v' Q) :
    (pwriteDirty o ino off data (m + 1) ci).Returns v Q := by
  have hpl : (chunkPiece o.chunkSize off data ci).length = _ := length_chunkPiece
  -- where the piece ends is where the chunk is expanded to
  have hwe : min (off + data.length) (ci * o.chunkSize + o.chunkSize) - ci * o.chunkSize =
      max off (ci * o.chunkSize) - ci * o.chunkSize +
        (chunkPiece o.chunkSize off data ci).length := by omega
  have hlen := hview.chunkAfter hlo hhi hd
  rw [max_eq_left hn] at hlen
  -- a chunk that is there is expanded, overlaid and set
  have hexisting : ∀ (key : Option BlockKey) (old : ByteArray8) (R : PUnit → ChunkedVfs → Prop),
      (∀ k, key = some k → k.ino = ino ∧ k.chunkIndex = ci) → v.viewFn ino ci = some old →
      (∀ v', DirtyEffect o.chunkSize ino n v v' (update (v.viewFn ino) ci
        (some (chunkAfter o.chunkSize off data old ci))) → R ⟨⟩ v') →
      (expandChunk old
        (min (off + data.length) (ci * o.chunkSize + o.chunkSize) - ci * o.chunkSize) >>= fun chunk =>
          setBytes chunk (chunkPiece o.chunkSize off data ci)
            (max off (ci * o.chunkSize) - ci * o.chunkSize) >>= fun chunk =>
          setDirty ino ci key old chunk (min (off + data.length) (ci * o.chunkSize + o.chunkSize) -
            ci * o.chunkSize)).Returns v R := by
    intro key old R hkey hold hR
    refine (expandChunk_returns old _ v).bind fun e v₁ h₁ => ?_
    obtain ⟨rfl, rfl⟩ := h₁
    refine (setBytes_returns ?_ v₁).bind fun chunk v₂ h₂ => ?_
    · split
      · rw [length_resize]; omega
      · omega
    obtain ⟨hch, rfl⟩ := h₂
    have hchunk : chunk = chunkAfter o.chunkSize off data old ci := by
      rw [hch]
      split
      · exact overlay_resize hwe (by omega)
      · rfl
    subst hchunk
    rw [hold, Option.getD_some] at hlen
    exact (setDirty_returns hk hs hfit hkey hlen _ _).mono fun _ v' h' => hR v' h'
  unfold pwriteDirty
  simp only [Returns, wp_bind, wp_read]
  cases hdirty : (v.buffer ino).dirtyChunks.get ci with
  | some old =>
      have hold : v.viewFn ino ci = some old := by rw [viewFn, hdirty, Option.some_or]
      rw [hold, Option.getD_some] at hrest
      have hex := hexisting _ old (fun _ v' => (pwriteDirty o ino off data m (ci + 1)).Returns v' Q)
        (fun k hkk => hs ci k hkk) hold hrest
      simp only [Returns, wp_bind] at hex ⊢
      exact hex
  | none =>
      have hstored : v.viewFn ino ci = v.chunkFn ino ci := by
        rw [viewFn, hdirty, Option.none_or]
      simp only [wp_bind, wp_read]
      cases hg : v.metadata.getChunkKey ino ci with
      | some key =>
          obtain ⟨old, hb, hf⟩ := hk.chunkFn_eq hg
          obtain ⟨hi', hc', -⟩ := hk ci key hg
          have hold : v.viewFn ino ci = some old := hstored.trans hf
          rw [hold, Option.getD_some] at hrest
          simp only [wp_bind]
          refine wp_mono (readBlock_returns hb) ?_ fun _ _ => id
          rintro b' v₁ ⟨rfl, rfl⟩
          have hex := hexisting (some key) b'
            (fun _ v' => (pwriteDirty o ino off data m (ci + 1)).Returns v' Q) ?_ hold hrest
          · simp only [Returns, wp_bind] at hex ⊢
            exact hex
          · rintro k ⟨⟩
            exact ⟨hi', hc'⟩
      | none =>
          have hnone : v.viewFn ino ci = none := by rw [hstored, chunkFn, hg]; rfl
          rw [hnone, Option.getD_none] at hrest hlen
          simp only [wp_bind]
          refine wp_mono (setBytes_returns (by rw [length_zeros]; exact hwe.ge) v) ?_ fun _ _ => id
          rintro chunk _ ⟨hch, rfl⟩
          have hchunk : chunk = chunkAfter o.chunkSize off data [] ci := by
            rw [hch]
            change overlay (zeros (min (off + data.length) (ci * o.chunkSize + o.chunkSize) -
              ci * o.chunkSize)) _ (chunkPiece o.chunkSize off data ci) = _
            rw [chunkAfter, ← overlay_resize (b := []) hwe (Nat.zero_le _), resize, List.take_nil,
              List.nil_append, List.length_nil, Nat.sub_zero]
          subst hchunk
          refine wp_mono (setDirty_returns hk hs hfit ?_ hlen _ _)
            (fun _ v' h' => hrest v' h') fun _ _ => id
          exact fun k hk => by cases hk

/-- The buffered chunk loop of `pwrite`. -/
theorem pwriteDirty_returns (hcs : 0 < o.chunkSize)
    (hd : 0 < data.length) (hn : off + data.length ≤ n) (m : Nat) :
    ∀ (ci : Nat) (v : ChunkedVfs), KeysOk v ino → SharedOk v ino →
      FitsIn o.chunkSize n (v.chunkFn ino) → FitsIn o.chunkSize n (v.viewFn ino) →
      off / o.chunkSize ≤ ci → ci + m = (off + data.length - 1) / o.chunkSize + 1 →
      (pwriteDirty o ino off data m ci).Returns v fun _ v' =>
        DirtyEffect o.chunkSize ino n v v' fun cj =>
          if ci ≤ cj ∧ cj < ci + m then
            some (chunkAfter o.chunkSize off data ((v.viewFn ino cj).getD []) cj)
          else v.viewFn ino cj := by
  induction m with
  | zero =>
      intro ci v hk hs hfit _ _ _
      refine ⟨.refl ino v, rfl, hk, hs, funext fun cj => ?_, hfit⟩
      rw [if_neg (by omega)]
  | succ m ih =>
      intro ci v hk hs hfit hview hci hm
      obtain ⟨hlo, hhi⟩ := chunk_window hcs hd hci (by omega)
      refine pwriteDirty_turn hk hs hfit hview hd hn hlo hhi fun v₁ h₁ => ?_
      have hview₁ : FitsIn o.chunkSize n (v₁.viewFn ino) := by
        rw [h₁.view]
        exact hview.update (max_eq_left hn ▸ hview.chunkAfter hlo hhi hd)
      refine (ih (ci + 1) v₁ h₁.keys h₁.shared h₁.fits hview₁ (by omega) (by omega)).mono
        fun _ v' h => ?_
      refine ⟨h₁.elsewhere.trans h.elsewhere, h.metadata.trans h₁.metadata, h.keys, h.shared,
        h.view.trans (window_turn h₁.view fun cj hcj => ?_), h.fits⟩
      rw [h₁.view, update_of_ne hcj]

variable (v)

/-- The inode is told the new size, and so is its buffer. -/
theorem elsewhere_inode (ino : Nat) (j : Option InodeMeta) :
    Elsewhere ino v { v with
      metadata := { v.metadata with inodes := update v.metadata.inodes ino j } } :=
  (touches_inode v ino j).toElsewhere

theorem elsewhere_clock (ino n : Nat) : Elsewhere ino v { v with clockCalls := n } :=
  (touches_clock v ino n).toElsewhere

theorem elsewhere_drop (ino : Nat) :
    Elsewhere ino v { v with writeBuffers := v.writeBuffers.delete ino } :=
  (touches_buffer v ino).toElsewhere

variable {v}

theorem getOrCreateBuffer_returns (ino cur : Nat) (v : ChunkedVfs) :
    (getOrCreateBuffer ino cur).Returns v fun _ v' =>
      ∃ wb, v' = { v with writeBuffers := v'.writeBuffers } ∧ Elsewhere ino v v' ∧
        v'.writeBuffers.get ino = some wb ∧ wb.dirtyChunks = (v.buffer ino).dirtyChunks ∧
        wb.shared = (v.buffer ino).shared := by
  unfold getOrCreateBuffer Returns
  rw [wp_bind, wp_read]
  cases hb : v.writeBuffers.get ino with
  | some wb =>
      refine ⟨wb, rfl, .refl ino v, hb, ?_, ?_⟩
      · rw [buffer_some hb]
      · rw [buffer_some hb]
  | none =>
      refine ⟨⟨.empty, .empty, cur⟩, rfl, elsewhere_buffer v ino _, get_set_self .., ?_, ?_⟩
      · rw [buffer_none hb]
      · rw [buffer_none hb]

/-- `pwrite` from the chunk loop on, with write buffering. -/
theorem pwriteChunked_shows (hcs : 0 < o.chunkSize) (hwb : o.writeBuffering = true)
    {v₀ : ChunkedVfs} (ht : Elsewhere ino v₀ v) (hi : v.metadata.inodes ino = some i)
    (hm : i.storageMode = .chunked) (hk : KeysOk v ino) (hs : SharedOk v ino)
    (hc : Chunks o.chunkSize (v.viewFn ino) c) (hfit : FitsIn o.chunkSize c.length (v.chunkFn ino))
    (hd : 0 < data.length) (cur now : Nat) :
    (pwriteChunked o ino off data cur (max c.length (off + data.length)) now).Returns v
      fun _ v' => Elsewhere ino v₀ v' ∧ Shown o v' ino i.type (overlay c off data) := by
  have hmono : ∀ {f : Nat → Option ByteArray8}, FitsIn o.chunkSize c.length f →
      FitsIn o.chunkSize (max c.length (off + data.length)) f := fun hf ci b hb => by
    have := hf ci b hb
    omega
  have hle : off / o.chunkSize ≤ (off + data.length - 1) / o.chunkSize :=
    Nat.div_le_div_right (by omega)
  unfold pwriteChunked
  simp only [hwb, if_true]
  refine (getOrCreateBuffer_returns ino cur v).bind fun _ v₁ h₁ => ?_
  obtain ⟨wb, hv₁, he₁, hb₁, hdirty, hshared⟩ := h₁
  have hbuf₁ : v₁.buffer ino = wb := buffer_some hb₁
  have hstore₁ : v₁.chunkFn ino = v.chunkFn ino := by rw [hv₁]; rfl
  have hview₁ : v₁.viewFn ino = v.viewFn ino := by
    funext ci
    rw [viewFn, viewFn, hbuf₁, hdirty, hstore₁]
  have hk₁ : KeysOk v₁ ino := by rw [hv₁]; exact hk
  have hs₁ : SharedOk v₁ ino := by
    intro ci k hck
    rw [hbuf₁, hshared] at hck
    exact hs ci k hck
  refine (pwriteDirty_returns hcs hd (Nat.le_max_right c.length _) _ _ v₁ hk₁ hs₁
    (hstore₁ ▸ hmono hfit) (hview₁ ▸ hmono hc.fits) (Nat.le_refl _) (by omega)).bind
      fun _ v₂ h₂ => ?_
  have hview₂ : Chunks o.chunkSize (v₂.viewFn ino) (overlay c off data) := by
    rw [h₂.view, hview₁]
    refine hc.overlay hcs hd (fun ci h₁ h₂ => ?_) fun ci hci => ?_
    · rw [if_pos (by omega)]
    · rw [if_neg (by omega)]
  have hi₂ : v₂.metadata.inodes ino = some i := by
    rw [h₂.metadata, hv₁]
    exact hi
  simp only [Returns, wp_bind, updateBuffer, wp_update]
  refine wp_mono (updateInode_returns (v := { v₂ with
    writeBuffers := v₂.writeBuffers.set ino ({ v₂.buffer ino with
      bufferedSize := max c.length (off + data.length) }) }) hi₂ _) ?_ fun _ _ => id
  rintro _ v₃ rfl
  refine ⟨((ht.trans he₁).trans h₂.elsewhere).trans ((elsewhere_buffer v₂ ino _).trans
    (elsewhere_inode _ ino _)), _, update_self .., rfl, ⟨h₂.keys, fun ci k hck => ?_,
      fun hm' => ?_, fun buf hbuf => ?_⟩, (length_overlay ..).symm, fun hm' => ?_, fun _ => ?_, ?_⟩
  · change (({ v₂ with writeBuffers := _ } : ChunkedVfs).buffer ino).shared.get ci = some k at hck
    rw [buffer_set] at hck
    exact h₂.shared ci k hck
  · exact absurd (hm.symm.trans hm') (by decide)
  · have := (get_set_self v₂.writeBuffers ino _).symm.trans hbuf
    cases this
    rfl
  · exact absurd (hm.symm.trans hm') (by decide)
  · have hview₃ : viewFn { v₂ with
        writeBuffers := v₂.writeBuffers.set ino ({ v₂.buffer ino with
          bufferedSize := max c.length (off + data.length) }) } ino = v₂.viewFn ino := by
      funext ci
      rw [viewFn, buffer_set]
      rfl
    exact hview₃.symm ▸ hview₂
  · rw [length_overlay]
    exact h₂.fits

theorem get_dirtyOfInline (o : ChunkedVfsOptions) (content : ByteArray8) (n : Nat) :
    ∀ (j : Nat) (d : OMap Nat ByteArray8) (ci : Nat), (dirtyOfInline o content n j d).get ci =
      if j ≤ ci ∧ ci < j + n then some (piece o.chunkSize content ci) else d.get ci := by
  induction n with
  | zero =>
      intro j d ci
      rw [if_neg (by omega)]
      rfl
  | succ n ih =>
      intro j d ci
      rw [dirtyOfInline, ih, get_set]
      by_cases hci : ci = j
      · rw [if_neg (by omega), if_pos hci, if_pos (by omega), hci]
        rfl
      · rw [if_neg hci]
        refine if_congr ?_ rfl rfl
        omega

/-- The promotion inside a buffered `pwrite`. -/
theorem pwritePromote_shows (hcs : 0 < o.chunkSize) (hwb : o.writeBuffering = true)
    (hi : v.metadata.inodes ino = some i) (hs : Shows o v ino i c) (hm : i.storageMode = .inline)
    (cur : Nat) :
    (pwritePromote o ino i cur).Returns v fun _ v' => Elsewhere ino v v' ∧ KeysOk v' ino ∧
      (∀ ci, (v'.buffer ino).shared.get ci = none) ∧
      v'.metadata.inodes ino = some { i with storageMode := .chunked, inlineContent := none } ∧
      Chunks o.chunkSize (v'.viewFn ino) c ∧ ∀ ci, v'.chunkFn ino ci = none := by
  obtain ⟨h0, hb⟩ := hs.inline hm
  unfold pwritePromote
  simp only [hwb, if_true]
  refine (getOrCreateBuffer_returns ino cur v).bind fun _ v₁ h₁ => ?_
  obtain ⟨wb, hv₁, he₁, hb₁, hdirty, hshared⟩ := h₁
  rw [buffer_none hb] at hdirty hshared
  have hbuf₁ : v₁.buffer ino = wb := buffer_some hb₁
  have hmeta : v₁.metadata = v.metadata := by rw [hv₁]
  have hstore₁ : v₁.chunkFn ino = v.chunkFn ino := by rw [hv₁]; rfl
  simp only [Returns, wp_bind, updateBuffer, wp_update]
  refine wp_mono (updateInode_returns (i := i) (by exact hmeta ▸ hi) _) ?_ fun _ _ => id
  rintro _ v₂ rfl
  refine ⟨(he₁.trans (elsewhere_buffer v₁ ino _)).trans (elsewhere_inode _ ino _), ?_,
    fun ci => ?_, update_self .., ?_, ?_⟩
  · intro ci k hk
    have hkeys : KeysOk v₁ ino := by rw [hv₁]; exact hs.keys
    exact hkeys ci k hk
  · change (({ v₁ with writeBuffers := _ } : ChunkedVfs).buffer ino).shared.get ci = none
    rw [buffer_set, hbuf₁, hshared]
    rfl
  · refine Chunks.split hcs fun ci => ?_
    change ((({ v₁ with writeBuffers := _ } : ChunkedVfs).buffer ino).dirtyChunks.get ci).or
      (v₁.chunkFn ino ci) = _
    rw [buffer_set, hstore₁, h0, Option.or_none, get_dirtyOfInline, hbuf₁, hdirty, hs.inlined hm]
    have hn := lt_numChunks_iff hcs c.length ci
    by_cases hci : ci * o.chunkSize < c.length
    · rw [if_pos hci, if_pos ⟨Nat.zero_le ci, by rw [Nat.zero_add]; exact hn.mpr hci⟩]
    · rw [if_neg hci, if_neg fun h => hci (hn.mp (by simpa [numChunks] using h.2))]
      rfl
  · exact fun ci => (congrFun hstore₁ ci).trans (h0 ci)

theorem pwrite_shows (hcs : 0 < o.chunkSize)
    (hplain : o.writeBuffering = false → v.writeBuffers.get ino = none) {path : String}
    (hp : (resolveIno path).Returns v fun r v' => r = ino ∧ v' = v)
    (hi : v.metadata.inodes ino = some i) (hty : i.type ≠ .directory) (hs : Shows o v ino i c)
    (off : Nat) (data : ByteArray8) :
    (pwrite o path off data).Returns v fun _ v' =>
      Elsewhere ino v v' ∧ (o.writeBuffering = false → v'.writeBuffers.get ino = none) ∧
        Shown o v' ino i.type (flatWrite c off data) := by
  cases hwb : o.writeBuffering with
  | false =>
      have hb := hplain hwb
      refine (pwrite_returns hcs hwb hp hi hty (hs.stores hb) hb off data).mono fun _ v' h => ?_
      exact ⟨h.1.toElsewhere, fun _ => h.1.own hb, h.2.shown (h.1.own hb)⟩
  | true =>
      suffices hs : (pwrite o path off data).Returns v fun _ v' =>
          Elsewhere ino v v' ∧ Shown o v' ino i.type (flatWrite c off data) from
        hs.mono fun _ v' h => ⟨h.1, nofun, h.2⟩
      unfold pwrite flatWrite
      refine hp.bind fun r v' h => ?_
      obtain ⟨rfl, rfl⟩ := h
      split
      · exact ⟨.refl _ _, i, hi, rfl, hs⟩
      rename_i hd
      refine (requireInode_returns hi).bind fun j v' h => ?_
      obtain ⟨rfl, rfl⟩ := h
      have heff := hs.effectiveSize
      rw [hs.size] at heff
      simp only [if_neg hty]
      simp only [Returns, wp_bind, wp_read, hs.size, heff]
      refine wp_mono (dateNow_returns o v') ?_ fun _ _ => id
      rintro now v₁ ⟨n, rfl⟩
      have ht := touches_clock v' r n
      cases hm : j.storageMode with
      | chunked =>
          exact pwriteChunked_shows hcs hwb ht.toElsewhere hi hm hs.keys hs.shared (hs.chunked hm)
            hs.fits (by omega) _ now
      | inline =>
          obtain ⟨h0, hb⟩ := hs.inline hm
          by_cases hle : max c.length (off + data.length) ≤ o.inlineThreshold
          · simp only [if_pos hle]
            refine Returns.mono (writeInline_returns (o := o) ht hi hm hs.keys h0 (hs.inlined hm) off
              data now) fun _ v₂ h₂ => ?_
            exact ⟨h₂.1.toElsewhere, h₂.2.shown (h₂.1.own hb)⟩
          · simp only [if_neg hle, wp_bind]
            have hs₁ : Shows o { v' with clockCalls := n } r j c :=
              ⟨⟨hs.keys, hs.shared, hs.inline, hs.sized⟩, hs.size, hs.inlined, hs.chunked, hs.fits⟩
            refine wp_mono (pwritePromote_shows hcs hwb (v := { v' with clockCalls := n }) hi hs₁ hm
              _) ?_ fun _ _ => id
            rintro _ v₂ ⟨he₂, hk₂, hsh₂, hi₂, hc₂, h0₂⟩
            exact pwriteChunked_shows hcs hwb (ht.toElsewhere.trans he₂) hi₂ rfl hk₂
              (fun ci k hk => nomatch (hsh₂ ci).symm.trans hk) hc₂ (fun ci b hb => nomatch (h0₂ ci).symm.trans hb) (by omega) _ now

/-! ### Flushing -/

/-- The chunks of a list, one by one. -/
theorem lookup_turn {α : Type} {f f₁ : Nat → Option ByteArray8} {b : ByteArray8} {x : α}
    {l : List (Nat × α)} {g : α → Option ByteArray8} (hf : f₁ = update f ci (some b))
    (hnot : ci ∉ l.map Prod.fst) (hg : g x = some b) :
    (fun cj => ((l.lookup cj).bind g).or (f₁ cj)) =
      fun cj => ((((ci, x) :: l).lookup cj).bind g).or (f cj) := by
  funext cj
  rw [hf, List.lookup_cons]
  by_cases hcj : cj = ci
  · have hnone : l.lookup cj = none := by
      refine List.lookup_eq_none_iff.mpr fun e he => bne_iff_ne.mpr fun hje => hnot ?_
      exact (hcj.symm.trans hje) ▸ List.mem_map.mpr ⟨e, he, rfl⟩
    rw [hnone, hcj, update_self, beq_self_eq_true, Option.bind_some, hg]
    rfl
  · rw [update_of_ne hcj, beq_false_of_ne hcj]

variable (o)

theorem flushChunks_returns (ino : Nat) (l : List (Nat × ByteArray8)) :
    ∀ v : ChunkedVfs, KeysOk v ino → (l.map Prod.fst).Nodup →
      (flushChunks o ino l).Returns v fun _ v' =>
        ChunkEffect ino v v' fun ci => (l.lookup ci).or (v.chunkFn ino ci) := by
  induction l with
  | nil => exact fun v hk _ => ⟨.refl ino v, rfl, rfl, hk, rfl⟩
  | cons e l ih =>
      obtain ⟨ci, chunk⟩ := e
      intro v hk hnd
      obtain ⟨hnot, hnd⟩ := List.nodup_cons.mp hnd
      refine writeChunk_returns (b := chunk) hk fun v₁ hs => ?_
      refine (ih v₁ hs.keys hnd).mono fun _ v' h => h.after hs ?_
      simpa only [Option.bind_fun_some] using lookup_turn (g := some) hs.chunks hnot rfl

/-- What a flush leaves: nothing dirty, and what a reader sees. -/
structure Flushed (ino : Nat) (v v' : ChunkedVfs) : Prop where
  elsewhere : Elsewhere ino v v'
  inodes : v'.metadata.inodes = v.metadata.inodes
  keys : KeysOk v' ino
  shared : SharedOk v' ino
  buffer : (v'.writeBuffers.get ino).map (·.bufferedSize) =
    (v.writeBuffers.get ino).map (·.bufferedSize)
  clean : ∀ ci, (v'.buffer ino).dirtyChunks.get ci = none
  stored : v'.chunkFn ino = v.viewFn ino

theorem Flushed.view (h : Flushed ino v v') : v'.viewFn ino = v.viewFn ino := by
  funext ci
  rw [viewFn, h.clean, Option.none_or, h.stored]

theorem flushInode_returns (hk : KeysOk v ino) (hs : SharedOk v ino) :
    (flushInode o ino).Returns v fun _ v' => Flushed ino v v' := by
  have hclean : (∀ ci, (v.buffer ino).dirtyChunks.get ci = none) → Flushed ino v v := fun h =>
    ⟨.refl ino v, rfl, hk, hs, rfl, h, funext fun ci => by rw [viewFn, h, Option.none_or]⟩
  unfold flushInode Returns
  rw [wp_bind, wp_read]
  cases hb : v.writeBuffers.get ino with
  | none =>
      refine hclean fun ci => ?_
      rw [buffer_none hb]
      rfl
  | some buf =>
      have hbuf := buffer_some hb
      dsimp only
      split
      · rename_i h0
        refine hclean fun ci => ?_
        rw [hbuf, OMap.get, List.eq_nil_of_length_eq_zero h0]
        rfl
      · rw [wp_bind]
        refine wp_mono (flushChunks_returns o ino _ v hk buf.dirtyChunks.nodup) ?_ fun _ _ => id
        intro _ v₁ h₁
        rw [updateBuffer, wp_update]
        have hset : ∀ wb, ({ v₁ with writeBuffers := v₁.writeBuffers.set ino wb } :
            ChunkedVfs).buffer ino = wb := fun wb => buffer_set v₁ ino wb
        refine ⟨h₁.touches.toElsewhere.trans (elsewhere_buffer v₁ ino _), h₁.inodes, h₁.keys,
          fun ci k hck => ?_, ?_, fun ci => ?_, ?_⟩
        · rw [hset] at hck
          cases hck
        · rw [OMap.get_set_self, Option.map_some, hb, Option.map_some, buffer,
            h₁.buffers, hb]
          rfl
        · rw [hset]
          rfl
        · refine h₁.chunks.trans (funext fun ci => ?_)
          rw [viewFn, hbuf]
          rfl

variable {o}

/-- A flush leaves what holds of the inode. -/
theorem Flushed.kept (h : Flushed ino v v') (hs : Kept v ino i) : Kept v' ino i := by
  have hbuf : ∀ buf, v'.writeBuffers.get ino = some buf →
      ∃ buf₀, v.writeBuffers.get ino = some buf₀ ∧ buf₀.bufferedSize = buf.bufferedSize := by
    intro buf hb
    have hmap := h.buffer
    rw [hb, Option.map_some] at hmap
    exact Option.map_eq_some_iff.mp hmap.symm
  refine ⟨h.keys, h.shared, fun hm => ⟨fun ci => ?_, ?_⟩, fun buf hb => ?_⟩
  · rw [h.stored, viewFn_none (hs.inline hm).2, (hs.inline hm).1]
  · cases hb : v'.writeBuffers.get ino with
    | none => rfl
    | some buf =>
        obtain ⟨buf₀, hb₀, -⟩ := hbuf buf hb
        rw [(hs.inline hm).2] at hb₀
        cases hb₀
  · obtain ⟨buf₀, hb₀, hsz⟩ := hbuf buf hb
    exact hsz.symm.trans (hs.sized buf₀ hb₀)

theorem Flushed.shows (h : Flushed ino v v') (hs : Shows o v ino i c) : Shows o v' ino i c := by
  refine ⟨h.kept hs.toKept, hs.size, hs.inlined, fun hm => h.view.symm ▸ hs.chunked hm, ?_⟩
  rw [h.stored]
  cases hm : i.storageMode with
  | inline =>
      rw [viewFn_none (hs.inline hm).2]
      exact hs.fits
  | chunked => exact (hs.chunked hm).fits

/-! ### Replacing and cutting -/

/-- Once the buffer is gone and nothing was dirty, what is stored is what a reader sees. -/
theorem Shows.dropped (hs : Shows o v ino i c)
    (hclean : ∀ ci, (v.buffer ino).dirtyChunks.get ci = none) :
    Stores o { v with writeBuffers := v.writeBuffers.delete ino } ino i c := by
  have hview : v.viewFn ino = v.chunkFn ino := by
    funext ci
    rw [viewFn, hclean, Option.none_or]
  exact ⟨⟨hs.keys, fun hm => (hs.inline hm).1⟩, hs.size, hs.inlined,
    fun hm => hview ▸ hs.chunked hm⟩

theorem truncate_shows (hcs : 0 < o.chunkSize) {path : String}
    (hp : (resolveIno path).Returns v fun r v' => r = ino ∧ v' = v)
    (hi : v.metadata.inodes ino = some i) (hty : i.type ≠ .directory) (hs : Shows o v ino i c)
    (length : Nat) :
    (truncate o path length).Returns v fun _ v' =>
      Touches ino v v' ∧ Shown o v' ino i.type (resize c length) := by
  unfold truncate
  refine hp.bind fun r v' h => ?_
  obtain ⟨rfl, rfl⟩ := h
  refine (requireInode_returns hi).bind fun j v' h => ?_
  obtain ⟨rfl, rfl⟩ := h
  have heff := hs.effectiveSize
  rw [hs.size] at heff
  simp only [if_neg hty]
  simp only [Returns, wp_bind, wp_read, hs.size, heff]
  by_cases heq : length = c.length
  · simp only [if_pos heq]
    refine ⟨.refl _ _, j, hi, rfl, ?_⟩
    rw [heq, resize, List.take_length, Nat.sub_self]
    simpa [zeros] using hs
  simp only [if_neg heq, wp_bind]
  refine wp_mono (dateNow_returns o v') ?_ fun _ _ => id
  rintro now v₁ ⟨n, rfl⟩
  have hs₁ : Shows o { v' with clockCalls := n } r j c :=
    ⟨⟨hs.keys, hs.shared, hs.inline, hs.sized⟩, hs.size, hs.inlined, hs.chunked, hs.fits⟩
  -- from here on there is nothing dirty
  have hrest : ∀ v₂ : ChunkedVfs, Elsewhere r v' v₂ → v₂.metadata.inodes r = some j →
      Shows o v₂ r j c → (∀ ci, (v₂.buffer r).dirtyChunks.get ci = none) →
      (resizeStored o r j length c.length now).Returns
        { v₂ with writeBuffers := v₂.writeBuffers.delete r } fun _ v₃ =>
          Touches r v' v₃ ∧ Shown o v₃ r j.type (resize c length) := by
    intro v₂ he₂ hi₂ hs₂ hclean
    refine Returns.mono (resizeStored_returns hcs (v := { v₂ with
      writeBuffers := v₂.writeBuffers.delete r }) hi₂ (hs₂.dropped hclean) length now) ?_
    rintro _ v₃ ⟨ht₃, hh₃⟩
    have hb₃ := ht₃.own (OMap.get_delete_self ..)
    exact ⟨⟨(he₂.trans (elsewhere_drop v₂ r)).trans ht₃.toElsewhere, fun _ => hb₃⟩, hh₃.shown hb₃⟩
  split
  · simp only [wp_bind, wp_update]
    refine wp_mono (flushInode_returns o hs₁.keys hs₁.shared) ?_ fun _ _ => id
    intro _ v₂ hf₂
    have hi₂ : v₂.metadata.inodes r = some j := by
      rw [hf₂.inodes]
      exact hi
    exact hrest v₂ ((elsewhere_clock v' r n).trans hf₂.elsewhere) hi₂ (hf₂.shows hs₁) hf₂.clean
  · rename_i hdirty
    rw [wp_bind, wp_update]
    refine hrest _ (elsewhere_clock v' r n) hi hs₁ fun ci => ?_
    change (v'.buffer r).dirtyChunks.get ci = none
    rw [buffer]
    cases hb : v'.writeBuffers.get r with
    | none => rfl
    | some buf =>
        rw [hb, Option.map_some, Option.getD_some] at hdirty
        have h0 : buf.dirtyChunks.entries.length = 0 := Nat.eq_zero_of_not_pos hdirty
        rw [Option.getD_some, OMap.get, List.eq_nil_of_length_eq_zero h0]
        rfl

end SecureExec.Vfs
