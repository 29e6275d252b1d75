import SecureExec.Vfs.Storage

/-!
# Vfs — FileOps — the content of an inode, and what each operation makes of it

`Stores o v ino i c`: the inode `i` stores the content `c`, in itself or in its chunks; an inode
that stores its content in itself has no chunks, so that nothing comes back when it is promoted.
`Holds o v ino t c`: the inode `ino` is there, has the type `t` and stores `c`.

Each operation is followed from `requireInode` on: it returns, touches nothing but the inode, and
the inode holds what the operation makes of a flat byte array: `content` itself (`writeFile`), an
`overlay` (`pwrite`), a `resize` (`truncate`).
-/

namespace SecureExec.Vfs
open SecureExec Bytes Prog Function

variable {o : ChunkedVfsOptions} {v v₁ : ChunkedVfs} {ino : Nat} {i : InodeMeta}
  {t : InodeType} {c : ByteArray8}

/-! ### What an inode stores -/

/-- The chunk map of an inode names its own blocks, and is empty for an inline inode. -/
structure StorageOk (v : ChunkedVfs) (ino : Nat) (i : InodeMeta) : Prop where
  keys : KeysOk v ino
  inline : i.storageMode = .inline → ∀ ci, v.chunkFn ino ci = none

/-- The inode `i` of `ino` stores the content `c`. -/
structure Stores (o : ChunkedVfsOptions) (v : ChunkedVfs) (ino : Nat) (i : InodeMeta)
    (c : ByteArray8) : Prop extends StorageOk v ino i where
  size : i.size = c.length
  inlined : i.storageMode = .inline → i.inlineContent.getD [] = c
  chunked : i.storageMode = .chunked → Chunks o.chunkSize (v.chunkFn ino) c

/-- The inode `ino` has the type `t` and stores the content `c`. -/
def Holds (o : ChunkedVfsOptions) (v : ChunkedVfs) (ino : Nat) (t : InodeType)
    (c : ByteArray8) : Prop :=
  ∃ i, v.metadata.inodes ino = some i ∧ i.type = t ∧ Stores o v ino i c

/-- An inline inode that stores `c`. -/
theorem Stores.of_inline (hk : KeysOk v ino) (h0 : ∀ ci, v.chunkFn ino ci = none)
    (hm : i.storageMode = .inline) (hc : i.inlineContent.getD [] = c) (hs : i.size = c.length) :
    Stores o v ino i c :=
  ⟨⟨hk, fun _ => h0⟩, hs, fun _ => hc, fun h => by rw [hm] at h; cases h⟩

/-- A chunked inode that stores `c`. -/
theorem Stores.of_chunked (hk : KeysOk v ino) (hc : Chunks o.chunkSize (v.chunkFn ino) c)
    (hm : i.storageMode = .chunked) (hs : i.size = c.length) : Stores o v ino i c :=
  ⟨⟨hk, fun h => by rw [hm] at h; cases h⟩, hs, fun h => by rw [hm] at h; (cases h), fun _ => hc⟩

theorem updateInode_returns (hi : v.metadata.inodes ino = some i) (g : InodeMeta → InodeMeta) :
    (updateInode ino g).Returns v fun _ v' => v' = { v with
      metadata := { v.metadata with
        inodes := update v.metadata.inodes ino (some (g i)) } } := by
  simp [updateInode, updateMetadata, InMemoryMetadataStore.updateInode, hi, Returns]

theorem touches_inode (v : ChunkedVfs) (ino : Nat) (j : Option InodeMeta) :
    Touches ino v { v with
      metadata := { v.metadata with inodes := update v.metadata.inodes ino j } } :=
  ⟨⟨rfl, rfl, rfl, fun _ h => update_of_ne h _ _, fun _ _ => rfl, fun _ _ => rfl,
    fun _ _ => rfl⟩, id⟩

/-- The last statement of an operation: the inode is told what is stored. -/
theorem updateInode_holds (ht : Touches ino v v₁) (hi : v₁.metadata.inodes ino = some i)
    {g : InodeMeta → InodeMeta} (hty : (g i).type = t) (hs : Stores o v₁ ino (g i) c) :
    (updateInode ino g).Returns v₁ fun _ v' => Touches ino v v' ∧ Holds o v' ino t c := by
  refine (updateInode_returns hi g).mono fun _ v' h => ?_
  subst h
  exact ⟨ht.trans (touches_inode v₁ ino _), g i, update_self .., hty,
    ⟨hs.keys, hs.inline⟩, hs.size, hs.inlined, hs.chunked⟩

/-- Drawing the time changes no inode and no storage. -/
theorem touches_clock (v : ChunkedVfs) (ino n : Nat) :
    Touches ino v { v with clockCalls := n } :=
  ⟨⟨rfl, rfl, rfl, fun _ _ => rfl, fun _ _ => rfl, fun _ _ => rfl, fun _ _ => rfl⟩, id⟩

/-- Dropping a write buffer that is not in use. -/
theorem touches_buffer (v : ChunkedVfs) (ino : Nat) :
    Touches ino v { v with writeBuffers := v.writeBuffers.delete ino } := by
  refine ⟨⟨rfl, rfl, rfl, fun _ _ => rfl, fun _ _ => rfl, fun _ _ => rfl, fun j hj => ?_⟩,
    fun _ => ?_⟩
  · exact (OMap.get_delete ..).trans (if_neg hj)
  · exact (OMap.get_delete ..).trans (if_pos rfl)

theorem requireInode_returns (hi : v.metadata.inodes ino = some i) :
    (requireInode ino).Returns v fun r v' => r = i ∧ v' = v := by
  simp [requireInode, InMemoryMetadataStore.getInode, hi, Returns]

variable {path : String}

/-! ### Writing -/

/-- The storage is emptied: no chunks are left. -/
theorem writeInodeContent_drop (hs : StorageOk v ino i) :
    (if i.storageMode = .chunked then dropAllChunks o ino else pure ⟨⟩ : VfsProg PUnit).Returns v
      fun _ v' => ChunkEffect ino v v' fun _ => none := by
  cases hm : i.storageMode with
  | inline =>
      refine ⟨.refl ino v, rfl, rfl, hs.keys, ?_⟩
      funext ci
      exact hs.inline hm ci
  | chunked => exact dropAllChunks_returns o hs.keys

section

variable (hcs : 0 < o.chunkSize)
include hcs

section

variable (hi : v.metadata.inodes ino = some i)
include hi

theorem writeInodeContent_returns (hs : StorageOk v ino i) (content : ByteArray8) :
    (writeInodeContent o ino content i).Returns v fun _ v' =>
      Touches ino v v' ∧ Holds o v' ino i.type content := by
  unfold writeInodeContent
  refine (dateNow_returns o v).bind fun now v₁ h₁ => ?_
  obtain ⟨n, rfl⟩ := h₁
  refine Returns.bind_ite (writeInodeContent_drop (v := { v with clockCalls := n })
    ⟨hs.keys, hs.inline⟩) fun v₂ h₂ => ?_
  have ht : Touches ino v v₂ := (touches_clock v ino n).trans h₂.touches
  have hi₂ : v₂.metadata.inodes ino = some i := by rw [h₂.inodes]; exact hi
  split
  · exact updateInode_holds ht hi₂ rfl
      (.of_inline h₂.keys (fun ci => congrFun h₂.chunks ci) rfl rfl rfl)
  · refine (writeChunks_all hcs content h₂.keys fun ci => congrFun h₂.chunks ci).bind
      fun _ v₃ h₃ => ?_
    obtain ⟨f, he, hf⟩ := h₃
    exact updateInode_holds (ht.trans he.touches) (by rw [he.inodes]; exact hi₂) rfl
      (.of_chunked he.keys (he.chunks ▸ hf) rfl rfl)

/-- The content is replaced, and the inode keeps a link. -/
theorem writeExisting_returns (hs : StorageOk v ino i) (data : ByteArray8) :
    (writeExisting o ino data).Returns v fun _ v' =>
      Touches ino v v' ∧ v'.writeBuffers.get ino = none ∧ Holds o v' ino i.type data := by
  unfold writeExisting
  refine (requireInode_returns hi).bind fun j v' h => ?_
  obtain ⟨rfl, rfl⟩ := h
  have ht : Touches ino v' { v' with writeBuffers := v'.writeBuffers.delete ino } :=
    touches_buffer v' ino
  simp only [Returns, wp_bind, wp_update]
  refine wp_mono (writeInodeContent_returns hcs (v := { v' with
    writeBuffers := v'.writeBuffers.delete ino }) hi ⟨hs.keys, hs.inline⟩ data) ?_ fun _ _ => id
  rintro _ v₁ ⟨ht₁, i₁, hi₁, hty, hs₁⟩
  refine wp_mono (updateInode_holds ht₁ hi₁ hty
    ⟨⟨hs₁.keys, hs₁.inline⟩, hs₁.size, hs₁.inlined, hs₁.chunked⟩) ?_ fun _ _ => id
  rintro _ v₂ ⟨ht₂, hh₂⟩
  exact ⟨ht.trans ht₂, ht₂.own (OMap.get_delete_self ..), hh₂⟩

theorem promoteToChunked_returns (hs : Stores o v ino i c) (hm : i.storageMode = .inline) :
    (promoteToChunked o ino i).Returns v fun _ v' => Touches ino v v' ∧ KeysOk v' ino ∧
      v'.metadata.inodes ino = some { i with storageMode := .chunked, inlineContent := none } ∧
      Chunks o.chunkSize (v'.chunkFn ino) c := by
  have hgo : (if (i.inlineContent.getD []).length > 0 then
      writeChunks o ino (i.inlineContent.getD [])
        (numChunks (i.inlineContent.getD []).length o.chunkSize) 0
      else pure ⟨⟩ : VfsProg PUnit).Returns v fun _ v' =>
        ∃ f, ChunkEffect ino v v' f ∧ Chunks o.chunkSize f c := by
    rw [hs.inlined hm]
    split
    · exact writeChunks_all hcs c hs.keys (hs.inline hm)
    · rename_i h0
      refine ⟨_, .refl hs.keys, ?_⟩
      rw [List.eq_nil_of_length_eq_zero (by omega : c.length = 0)]
      exact Chunks.split hcs fun ci => by rw [hs.inline hm]; simp
  unfold promoteToChunked
  refine hgo.bind_ite fun v₁ h₁ => ?_
  obtain ⟨f, he, hf⟩ := h₁
  refine (updateInode_returns (by rw [he.inodes]; exact hi) _).mono fun _ v' h => ?_
  subst h
  exact ⟨he.touches.trans (touches_inode v₁ ino _), he.keys, update_self ..,
    he.chunks ▸ hf⟩

end

/-- `pwrite` from the chunk loop on, without write buffers. -/
theorem pwriteChunked_returns (hwb : o.writeBuffering = false)
    (ht : Touches ino v v₁) (hi : v₁.metadata.inodes ino = some i) (hm : i.storageMode = .chunked)
    (hk : KeysOk v₁ ino) (hc : Chunks o.chunkSize (v₁.chunkFn ino) c) {off : Nat}
    {data : ByteArray8} (hd : 0 < data.length) (cur now : Nat) :
    (pwriteChunked o ino off data cur (max c.length (off + data.length)) now).Returns v₁
      fun _ v' => Touches ino v v' ∧ Holds o v' ino i.type (overlay c off data) := by
  unfold pwriteChunked
  simp only [hwb, Bool.false_eq_true, if_false]
  refine (pwriteChunks_all hcs hd hk hc).bind fun _ v₂ h₂ => ?_
  obtain ⟨f, he, hf⟩ := h₂
  exact updateInode_holds (ht.trans he.touches) (by rw [he.inodes]; exact hi) rfl
    (.of_chunked he.keys (he.chunks ▸ hf) hm (length_overlay ..).symm)

end

/-- Writing `d` at `off` into a flat byte array; no bytes leave it as it is. -/
def flatWrite (c : ByteArray8) (off : Nat) (d : ByteArray8) : ByteArray8 :=
  if d.length = 0 then c else overlay c off d

/-- `pwrite` into a content that stays in the inode. -/
theorem writeInline_returns (ht : Touches ino v v₁) (hi : v₁.metadata.inodes ino = some i)
    (hm : i.storageMode = .inline) (hk : KeysOk v₁ ino) (h0 : ∀ ci, v₁.chunkFn ino ci = none)
    (hc : i.inlineContent.getD [] = c) (off : Nat) (data : ByteArray8) (now : Nat) :
    (do
      let content ← setBytes (zeros (max c.length (off + data.length))) (i.inlineContent.getD []) 0
      let content ← setBytes content data off
      updateInode ino fun i => { i with
        inlineContent := some content, size := max c.length (off + data.length), mtimeMs := now,
        ctimeMs := now }).Returns v₁ fun _ v' =>
          Touches ino v v' ∧ Holds o v' ino i.type (overlay c off data) := by
  rw [hc]
  refine (setBytes_returns (by rw [length_zeros]; omega) v₁).bind fun c₁ v₂ h₂ => ?_
  obtain ⟨rfl, rfl⟩ := h₂
  rw [overlay_zeros (by omega)]
  refine (setBytes_returns (by rw [length_resize]; omega) v₂).bind fun c₂ v₃ h₃ => ?_
  obtain ⟨rfl, rfl⟩ := h₃
  have hov : overlay (resize c (max c.length (off + data.length))) off data = overlay c off data := by
    refine ext_byte ?_ fun k _ => ?_
    · rw [length_overlay, length_overlay, length_resize]; omega
    · rw [byte_overlay, byte_overlay, byte_resize]
      by_cases hk : k < max c.length (off + data.length)
      · rw [if_pos hk]
      · rw [if_neg hk, show byte c _ = 0 from byte_eq_zero_of_le (by omega)]
  rw [hov]
  exact updateInode_holds ht hi rfl (.of_inline hk h0 hm rfl (length_overlay ..).symm)

theorem pwrite_returns (hcs : 0 < o.chunkSize) (hwb : o.writeBuffering = false)
    (hp : (resolveIno path).Returns v fun r v' => r = ino ∧ v' = v)
    (hi : v.metadata.inodes ino = some i) (hty : i.type ≠ .directory) (hs : Stores o v ino i c)
    (hb : v.writeBuffers.get ino = none) (off : Nat) (data : ByteArray8) :
    (pwrite o path off data).Returns v fun _ v' =>
      Touches ino v v' ∧ Holds o v' ino i.type (flatWrite c off data) := by
  unfold pwrite flatWrite
  refine hp.bind fun r v' h => ?_
  obtain ⟨rfl, rfl⟩ := h
  split
  · exact ⟨.refl _ _, i, hi, rfl, hs⟩
  rename_i hd
  refine (requireInode_returns hi).bind fun j v' h => ?_
  obtain ⟨rfl, rfl⟩ := h
  simp only [if_neg hty]
  simp only [Returns, wp_bind, wp_read, hb, Option.map_none, Option.getD_none, hs.size]
  refine wp_mono (dateNow_returns o v') ?_ fun _ _ => id
  rintro now v₁ ⟨n, rfl⟩
  have ht := touches_clock v' r n
  cases hm : j.storageMode with
  | chunked => exact pwriteChunked_returns hcs hwb ht hi hm hs.keys (hs.chunked hm) (by omega) _ now
  | inline =>
      by_cases hle : max c.length (off + data.length) ≤ o.inlineThreshold
      · simp only [if_pos hle]
        exact writeInline_returns ht hi hm hs.keys (hs.inline hm) (hs.inlined hm) off data now
      · simp only [if_neg hle, wp_bind, pwritePromote, hwb, Bool.false_eq_true, if_false]
        refine wp_mono (promoteToChunked_returns hcs (v := { v' with clockCalls := n }) hi
          ⟨⟨hs.keys, hs.inline⟩, hs.size, hs.inlined, hs.chunked⟩ hm) ?_ fun _ _ => id
        rintro _ v₂ ⟨ht₂, hk₂, hi₂, hc₂⟩
        exact pwriteChunked_returns hcs hwb (ht.trans ht₂) hi₂ rfl hk₂ hc₂ (by omega) _ now

/-! ### Truncating -/

/-- The two statements that cut the chunks. -/
theorem cutChunks_returns (hcs : 0 < o.chunkSize) (hk : KeysOk v ino)
    (hc : Chunks o.chunkSize (v.chunkFn ino) c) {length : Nat} (h0 : 0 < length) {β : Type}
    {k : PUnit → VfsProg β} {Q : β → ChunkedVfs → Prop}
    (hrest : ∀ v' g, ChunkEffect ino v v' g → Chunks o.chunkSize g (resize c length) →
      (k ⟨⟩).Returns v' Q) :
    (dropChunksFrom o ino ((length - 1) / o.chunkSize + 1) >>= fun _ =>
      if length % o.chunkSize > 0 then
        truncateLastChunk o ino ((length - 1) / o.chunkSize) (length % o.chunkSize) >>= k
      else k ⟨⟩).Returns v Q := by
  refine (dropChunksFrom_returns o _ hk).bind fun _ v₁ h₁ => ?_
  have hget : ∀ ci, v₁.chunkFn ino ci =
      if (length - 1) / o.chunkSize + 1 ≤ ci then none else v.chunkFn ino ci := congrFun h₁.chunks
  refine Returns.bind_ite (R := fun _ v₂ => ∃ g, ChunkEffect ino v v₂ g ∧
    Chunks o.chunkSize g (resize c length)) ?_ fun v₂ hv => hv.elim fun g hg =>
    hrest v₂ g hg.1 hg.2
  split
  · rename_i hpos
    refine (truncateLastChunk_returns o _ _ h₁.keys).mono fun _ v₂ h₂ => ⟨_, h₁.trans h₂, ?_⟩
    refine hc.shrink hcs h0 (fun ci hci => ?_) ?_ fun ci hci => ?_
    · rw [update_of_ne (by omega), hget, if_pos (by omega)]
    · rw [update_self, hget, if_neg (by omega), if_pos hpos]
    · rw [update_of_ne (by omega), hget, if_neg (by omega)]
  · rename_i hz
    refine ⟨_, h₁, hc.shrink hcs h0 (fun ci hci => if_pos (by omega)) ?_
      fun ci hci => if_neg (by omega)⟩
    rw [if_neg (by omega), if_neg hz]

theorem truncateChunked_returns (hcs : 0 < o.chunkSize) {v₀ : ChunkedVfs} (ht : Touches ino v₀ v)
    (hi : v.metadata.inodes ino = some i) (hm : i.storageMode = .chunked) (hk : KeysOk v ino)
    (hc : Chunks o.chunkSize (v.chunkFn ino) c) {length : Nat} (h0 : 0 < length) (now : Nat) :
    (truncateChunked o ino length now).Returns v fun _ v' =>
      Touches ino v₀ v' ∧ Holds o v' ino i.type (resize c length) := by
  unfold truncateChunked
  refine cutChunks_returns hcs hk hc h0 fun v₂ g h₂ hg => ?_
  have ht₂ := ht.trans h₂.touches
  have hi₂ : v₂.metadata.inodes ino = some i := by rw [h₂.inodes]; exact hi
  have hg₂ : Chunks o.chunkSize (v₂.chunkFn ino) (resize c length) := h₂.chunks ▸ hg
  split
  · simp only [Returns, wp_bind, wp_read]
    have hall := setEntries_all hcs h₂.keys hg₂
    rw [length_resize] at hall
    refine wp_mono hall ?_ fun _ _ => id
    rintro content v₃ ⟨rfl, rfl⟩
    -- the content goes back into the inode
    simp only [demoteToInline, wp_bind]
    refine wp_mono (dropAllChunks_returns o h₂.keys) ?_ fun _ _ => id
    intro _ v₄ h₄
    refine wp_mono (updateInode_returns (i := i) (by rw [h₄.inodes]; exact hi₂) _) ?_
      fun _ _ => id
    rintro _ v₅ rfl
    exact updateInode_holds ((ht₂.trans h₄.touches).trans (touches_inode v₄ ino _))
      (update_self ..) rfl
      (.of_inline h₄.keys (fun ci => congrFun h₄.chunks ci) rfl rfl (length_resize ..).symm)
  · exact updateInode_holds ht₂ hi₂ rfl (.of_chunked h₂.keys hg₂ hm (length_resize ..).symm)

/-- `truncate` to a length that is not the present one, once the write buffer is gone. -/
def resizeStored (o : ChunkedVfsOptions) (ino : Nat) (i : InodeMeta)
    (length currentSize now : Nat) : VfsProg PUnit := do
  if length < currentSize then
    match i.storageMode with
    | .inline =>
      updateInode ino fun j => { j with
        inlineContent := some (if length = 0 then [] else slice (i.inlineContent.getD []) 0 length)
        size := length, mtimeMs := now, ctimeMs := now }
    | .chunked =>
      if length = 0 then
        dropAllChunks o ino
        updateInode ino fun i => { i with
          storageMode := .inline, inlineContent := some [], size := 0,
          mtimeMs := now, ctimeMs := now }
      else truncateChunked o ino length now
  else
    match i.storageMode with
    | .inline =>
      if length ≤ o.inlineThreshold then
        let content ← setBytes (zeros length) (i.inlineContent.getD []) 0
        updateInode ino fun i => { i with
          inlineContent := some content, size := length, mtimeMs := now, ctimeMs := now }
      else
        promoteToChunked o ino i
        updateInode ino fun i => { i with size := length, mtimeMs := now, ctimeMs := now }
    | .chunked =>
      updateInode ino fun i => { i with size := length, mtimeMs := now, ctimeMs := now }

theorem resizeStored_returns (hcs : 0 < o.chunkSize) (hi : v.metadata.inodes ino = some i)
    (hs : Stores o v ino i c) (length now : Nat) :
    (resizeStored o ino i length c.length now).Returns v fun _ v' =>
      Touches ino v v' ∧ Holds o v' ino i.type (resize c length) := by
  unfold resizeStored
  have ht := Touches.refl ino v
  cases hm : i.storageMode with
  | inline =>
      have hin := hs.inlined hm
      by_cases hlt : length < c.length
      · simp only [if_pos hlt]
        refine updateInode_holds ht hi rfl
          (.of_inline hs.keys (hs.inline hm) hm ?_ (length_resize ..).symm)
        rw [Option.getD_some, resize, show length - c.length = 0 by omega, hin]
        split
        · rename_i hz; rw [hz]; rfl
        · simp [slice, zeros]
      · simp only [if_neg hlt]
        split
        · simp only [hin]
          refine wp_bind.mpr (wp_mono (setBytes_returns (by rw [length_zeros]; omega) _) ?_
            fun _ _ => id)
          rintro c₁ v₂ ⟨rfl, rfl⟩
          rw [overlay_zeros (by omega)]
          exact updateInode_holds ht hi rfl
            (.of_inline hs.keys (hs.inline hm) hm rfl (length_resize ..).symm)
        · refine wp_bind.mpr (wp_mono (promoteToChunked_returns hcs hi hs hm) ?_ fun _ _ => id)
          rintro _ v₂ ⟨ht₂, hk₂, hi₂, hc₂⟩
          exact updateInode_holds ht₂ hi₂ rfl
            (.of_chunked hk₂ (hc₂.grow (by omega)) rfl (length_resize ..).symm)
  | chunked =>
      have hc := hs.chunked hm
      by_cases hlt : length < c.length
      · simp only [if_pos hlt]
        split
        · rename_i hz
          refine wp_bind.mpr (wp_mono (dropAllChunks_returns o hs.keys) ?_ fun _ _ => id)
          intro _ v₂ h₂
          refine updateInode_holds h₂.touches (by rw [h₂.inodes]; exact hi) rfl ?_
          rw [hz]
          exact .of_inline h₂.keys (fun ci => congrFun h₂.chunks ci) rfl (by simp [resize, zeros])
            (length_resize ..).symm
        · exact truncateChunked_returns hcs ht hi hm hs.keys hc (by omega) now
      · simp only [if_neg hlt]
        exact updateInode_holds ht hi rfl
          (.of_chunked hs.keys (hc.grow (by omega)) hm (length_resize ..).symm)

end SecureExec.Vfs
