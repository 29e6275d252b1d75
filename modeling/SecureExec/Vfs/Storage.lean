import SecureExec.Lib.Chunks
import SecureExec.Vfs.Chunked

/-!
# Vfs — Storage — what the chunk loops do to a file's storage

The chunks of an inode as they are stored (`chunkFn`): the block each entry of its chunk map
names.  `KeysOk` says the chunk map of an inode names blocks of that inode only, each at its own
index and each present; so a write to one chunk never reaches another chunk or another file.

`Elsewhere ino v v'` is the frame of an operation on the inode `ino`: every other inode, every
other chunk map, the blocks and the write buffer of every other inode and the whole namespace are as
before.  `Touches` says in addition that `ino` gets no write buffer.  A `ChunkEffect`
is a run of a chunk loop: the frame, the inodes themselves unchanged, `KeysOk` kept, and the new
chunks.
-/

namespace SecureExec.Vfs
open SecureExec Bytes Prog InMemoryMetadataStore Function ChunkedVfs InMemoryBlockStore

/-- The chunks of an inode, as stored. -/
def ChunkedVfs.chunkFn (v : ChunkedVfs) (ino : Nat) : Nat → Option ByteArray8 :=
  fun ci => (v.metadata.getChunkKey ino ci).bind v.blocks.blocks

/-- The chunk map of `ino` names present blocks of `ino`, each at its own index. -/
def KeysOk (v : ChunkedVfs) (ino : Nat) : Prop :=
  ∀ ci k, v.metadata.getChunkKey ino ci = some k →
    k.ino = ino ∧ k.chunkIndex = ci ∧ ∃ b, v.blocks.blocks k = some b

/-- No write buffer is in use. -/
def NoBuffers (v : ChunkedVfs) : Prop := ∀ ino, v.writeBuffers.get ino = none

/-- Nothing but the storage and the write buffer of `ino` differs. -/
structure Elsewhere (ino : Nat) (v v' : ChunkedVfs) : Prop where
  nextIno : v'.metadata.nextIno = v.metadata.nextIno
  dentries : v'.metadata.dentries = v.metadata.dentries
  symlinkTargets : v'.metadata.symlinkTargets = v.metadata.symlinkTargets
  inodes : ∀ j, j ≠ ino → v'.metadata.inodes j = v.metadata.inodes j
  chunks : ∀ j, j ≠ ino → v'.metadata.chunks j = v.metadata.chunks j
  blocks : ∀ k : BlockKey, k.ino ≠ ino → v'.blocks.blocks k = v.blocks.blocks k
  others : ∀ j, j ≠ ino → v'.writeBuffers.get j = v.writeBuffers.get j

/-- Nothing but the storage of `ino` differs. -/
structure Touches (ino : Nat) (v v' : ChunkedVfs) : Prop extends Elsewhere ino v v' where
  own : v.writeBuffers.get ino = none → v'.writeBuffers.get ino = none

namespace Elsewhere

variable {ino : Nat} {v v₁ v' : ChunkedVfs}

theorem refl (ino : Nat) (v : ChunkedVfs) : Elsewhere ino v v :=
  ⟨rfl, rfl, rfl, fun _ _ => rfl, fun _ _ => rfl, fun _ _ => rfl, fun _ _ => rfl⟩

theorem trans (h₁ : Elsewhere ino v v₁) (h₂ : Elsewhere ino v₁ v') : Elsewhere ino v v' :=
  ⟨h₂.nextIno.trans h₁.nextIno, h₂.dentries.trans h₁.dentries,
    h₂.symlinkTargets.trans h₁.symlinkTargets,
    fun j hj => (h₂.inodes j hj).trans (h₁.inodes j hj),
    fun j hj => (h₂.chunks j hj).trans (h₁.chunks j hj),
    fun k hk => (h₂.blocks k hk).trans (h₁.blocks k hk),
    fun j hj => (h₂.others j hj).trans (h₁.others j hj)⟩

end Elsewhere

namespace Touches

variable {ino : Nat} {v v₁ v' : ChunkedVfs}

theorem refl (ino : Nat) (v : ChunkedVfs) : Touches ino v v := ⟨.refl ino v, id⟩

theorem trans (h₁ : Touches ino v v₁) (h₂ : Touches ino v₁ v') : Touches ino v v' :=
  ⟨h₁.toElsewhere.trans h₂.toElsewhere, fun h => h₂.own (h₁.own h)⟩

end Touches

/-- A run that touches only the chunks of `ino`, and leaves it with the chunks `f`. -/
structure ChunkEffect (ino : Nat) (v v' : ChunkedVfs) (f : Nat → Option ByteArray8) : Prop where
  touches : Touches ino v v'
  inodes : v'.metadata.inodes = v.metadata.inodes
  buffers : v'.writeBuffers = v.writeBuffers
  keys : KeysOk v' ino
  chunks : v'.chunkFn ino = f

namespace ChunkEffect

variable {ino : Nat} {v v₁ v' : ChunkedVfs} {f g : Nat → Option ByteArray8}

theorem refl (h : KeysOk v ino) : ChunkEffect ino v v (v.chunkFn ino) :=
  ⟨.refl ino v, rfl, rfl, h, rfl⟩

theorem trans (h₁ : ChunkEffect ino v v₁ f) (h₂ : ChunkEffect ino v₁ v' g) :
    ChunkEffect ino v v' g :=
  ⟨h₁.touches.trans h₂.touches, h₂.inodes.trans h₁.inodes, h₂.buffers.trans h₁.buffers, h₂.keys,
    h₂.chunks⟩

/-- One chunk, and then the others. -/
theorem after (h₂ : ChunkEffect ino v₁ v' g) (h₁ : ChunkEffect ino v v₁ f) {g' : Nat → Option ByteArray8}
    (h : g = g') : ChunkEffect ino v v' g' :=
  h ▸ h₁.trans h₂

end ChunkEffect

/-! ### The stores -/

variable (m : InMemoryMetadataStore)

theorem getChunkKey_setChunkKey (ino ci : Nat) (key : BlockKey)
    (j cj : Nat) :
    (m.setChunkKey ino ci key).getChunkKey j cj =
      if j = ino ∧ cj = ci then some key else m.getChunkKey j cj := by
  simp only [getChunkKey, setChunkKey]
  by_cases hj : j = ino
  · subst hj
    rw [update_self, Option.bind_some, OMap.get_set]
    by_cases hc : cj = ci
    · simp [hc]
    · rw [if_neg hc, if_neg (fun h => hc h.2)]
      cases m.chunks j <;> rfl
  · rw [update_of_ne hj, if_neg (fun h => hj h.1)]

theorem blocks_deleteMany (b : InMemoryBlockStore) (keys : List BlockKey) (k : BlockKey) :
    (b.deleteMany keys).blocks k = if k ∈ keys then none else b.blocks k := by
  induction keys generalizing b with
  | nil => simp [deleteMany]
  | cons key keys ih =>
      have := ih (b.delete key)
      simp only [deleteMany, List.foldl_cons] at this ⊢
      rw [this]
      by_cases hk : k ∈ keys
      · simp [hk]
      · rw [if_neg hk]
        simp only [delete, List.mem_cons, hk, or_false]
        by_cases he : k = key
        · rw [if_pos he, he, update_self]
        · rw [if_neg he, update_of_ne he]

variable {ino : Nat} {map : OMap Nat BlockKey}

theorem mem_entries_of_getChunkKey {m : InMemoryMetadataStore}
    (h : m.chunks ino = some map) (ci : Nat) (k : BlockKey) :
    m.getChunkKey ino ci = some k ↔ (ci, k) ∈ map.entries := by
  rw [getChunkKey, h, Option.bind_some, OMap.get_eq_some_iff]

variable {v : ChunkedVfs} {k : BlockKey}

/-- The keys of a chunk map are its inode's own. -/
theorem KeysOk.mem_values (h : KeysOk v ino) (hm : v.metadata.chunks ino = some map)
    (hk : k ∈ map.values) : k.ino = ino ∧ v.metadata.getChunkKey ino k.chunkIndex = some k := by
  obtain ⟨⟨ci, k'⟩, he, rfl⟩ := List.mem_map.mp hk
  have hg := (mem_entries_of_getChunkKey hm ci k').mpr he
  obtain ⟨h₁, h₂, -⟩ := h ci k' hg
  exact ⟨h₁, by rw [h₂]; exact hg⟩

/-! ### One chunk -/

variable {ci : Nat} {b : ByteArray8} {key : BlockKey}

/-- The state after a chunk is stored under a key of its own. -/
theorem storeChunk_effect {v' : ChunkedVfs}
    (hv : KeysOk v ino) (hi : key.ino = ino) (hc : key.chunkIndex = ci)
    (hm : v'.metadata = v.metadata.setChunkKey ino ci key) (hkey : v'.blocks.blocks key = some b)
    (hother : ∀ k : BlockKey, ¬ (k.ino = ino ∧ k.chunkIndex = ci) →
      v'.blocks.blocks k = v.blocks.blocks k)
    (hw : v'.writeBuffers = v.writeBuffers) :
    ChunkEffect ino v v' (update (v.chunkFn ino) ci (some b)) := by
  have hget : ∀ cj, v'.metadata.getChunkKey ino cj =
      if cj = ci then some key else v.metadata.getChunkKey ino cj := fun cj => by
    rw [hm, getChunkKey_setChunkKey]; simp
  refine ⟨⟨⟨?_, ?_, ?_, ?_, ?_, ?_, ?_⟩, ?_⟩, ?_, hw, ?_, ?_⟩
  · rw [hm]; rfl
  · rw [hm]; rfl
  · rw [hm]; rfl
  · intro j _; rw [hm]; rfl
  · intro j hj; rw [hm]; exact update_of_ne hj _ _
  · intro k hk; exact hother k fun h => hk h.1
  · intro j _; rw [hw]
  · intro h; rw [hw]; exact h
  · rw [hm]; rfl
  · intro cj k hk
    rw [hget] at hk
    split at hk
    · rename_i he
      cases hk
      exact ⟨hi, he ▸ hc, b, hkey⟩
    · rename_i he
      obtain ⟨h₁, h₂, b', h₃⟩ := hv cj k hk
      exact ⟨h₁, h₂, b', by rw [hother k fun h => he (h₂ ▸ h.2), h₃]⟩
  · funext cj
    rw [chunkFn, hget]
    by_cases he : cj = ci
    · rw [if_pos he, he, update_self, Option.bind_some, hkey]
    · rw [if_neg he, update_of_ne he, chunkFn]
      cases hk : v.metadata.getChunkKey ino cj with
      | none => rfl
      | some k =>
          obtain ⟨-, h₂, -⟩ := hv cj k hk
          exact hother k fun h => he (h₂ ▸ h.2)

/-- The state after a block is written, and its key recorded. -/
theorem writeChunk_effect (hv : KeysOk v ino) (hi : key.ino = ino)
    (hc : key.chunkIndex = ci) (r : Nat) : ChunkEffect ino v { v with
      randomCalls := r
      blocks := v.blocks.write key b
      metadata := v.metadata.setChunkKey ino ci key } (update (v.chunkFn ino) ci (some b)) :=
  storeChunk_effect hv hi hc rfl (update_self ..) (fun k hk => update_of_ne
    (fun e : k = key => hk (e ▸ ⟨hi, hc⟩)) _ _) rfl

/-- Drawing a key changes nothing but the count of drawn ids. -/
theorem makeBlockKey_returns (o : ChunkedVfsOptions) (ino ci : Nat) (v : ChunkedVfs) :
    (makeBlockKey o ino ci).Returns v fun key v' =>
      (∃ n, v' = { v with randomCalls := n }) ∧ key.ino = ino ∧ key.chunkIndex = ci := by
  unfold makeBlockKey Returns
  split
  · exact ⟨⟨_, rfl⟩, rfl, rfl⟩
  · exact ⟨⟨v.randomCalls, rfl⟩, rfl, rfl⟩

variable {Q : PUnit → ChunkedVfs → Prop}

theorem writeChunk_returns {o : ChunkedVfsOptions} (hv : KeysOk v ino) {q : VfsProg PUnit}
    (h : ∀ v₁, ChunkEffect ino v v₁ (update (v.chunkFn ino) ci (some b)) → q.Returns v₁ Q) :
    (makeBlockKey o ino ci >>= fun key => writeBlock key b >>= fun _ =>
      updateMetadata (·.setChunkKey ino ci key) >>= fun _ => q).Returns v Q := by
  refine (makeBlockKey_returns o ino ci v).bind fun key v₁ h₁ => ?_
  obtain ⟨⟨r, rfl⟩, hi, hc⟩ := h₁
  exact h _ (writeChunk_effect hv hi hc r)

theorem dateNow_returns (o : ChunkedVfsOptions) (v : ChunkedVfs) :
    (dateNow o).Returns v fun _ v' => ∃ n, v' = { v with clockCalls := n } :=
  ⟨_, rfl⟩

theorem readBlock_returns
    (h : v.blocks.blocks key = some b) : (readBlock key).Returns v fun a v' => a = b ∧ v' = v := by
  simp [readBlock, Returns, InMemoryBlockStore.read, h]

variable {data : ByteArray8} {off : Nat}

theorem setBytes_returns {base : ByteArray8}
    (h : off + data.length ≤ base.length) (v : ChunkedVfs) :
    (setBytes base data off).Returns v fun r v' => r = overlay base off data ∧ v' = v := by
  rw [setBytes, setAt_eq h]
  exact ⟨rfl, rfl⟩

variable {n : Nat}

/-- A prefix copied into zeros is padded with zeros. -/
theorem overlay_zeros {xs : ByteArray8} (h : xs.length ≤ n) :
    overlay (zeros n) 0 xs = resize xs n := by
  refine ext_byte ?_ fun i _ => ?_
  · rw [length_overlay, length_resize, length_zeros]; omega
  · rw [byte_overlay, byte_resize, byte_zeros, Nat.sub_zero, Nat.zero_add]
    by_cases hi : i < xs.length
    · rw [if_pos ⟨Nat.zero_le i, hi⟩, if_pos (by omega)]
    · rw [if_neg (fun h' => hi h'.2), byte_eq_zero_of_le (by omega)]; simp

theorem KeysOk.chunkFn_eq (h : KeysOk v ino)
    (hk : v.metadata.getChunkKey ino ci = some k) :
    ∃ b, v.blocks.blocks k = some b ∧ v.chunkFn ino ci = some b := by
  obtain ⟨-, -, b, hb⟩ := h ci k hk
  exact ⟨b, hb, by rw [chunkFn, hk, Option.bind_some, hb]⟩

/-! ### Cutting a content into chunks -/

theorem writeChunks_returns (o : ChunkedVfsOptions) (ino : Nat) (content : ByteArray8) (n : Nat) :
    ∀ (i : Nat) (v : ChunkedVfs), KeysOk v ino →
      (writeChunks o ino content n i).Returns v fun _ v' => ChunkEffect ino v v' fun ci =>
        if i ≤ ci ∧ ci < i + n then some (piece o.chunkSize content ci) else v.chunkFn ino ci := by
  induction n with
  | zero =>
      intro i v hv
      refine ⟨.refl ino v, rfl, rfl, hv, ?_⟩
      funext ci
      rw [if_neg (by omega)]
  | succ n ih =>
      intro i v hv
      refine writeChunk_returns (b := piece o.chunkSize content i) hv fun v₁ hs => ?_
      exact (ih (i + 1) v₁ hs.keys).mono fun _ v' h =>
        h.after hs (window_turn hs.chunks fun _ _ => rfl)

variable {o : ChunkedVfsOptions}

/-- The loop from the first chunk on, over a file without chunks, cuts the whole content. -/
theorem writeChunks_all (hcs : 0 < o.chunkSize)
    (content : ByteArray8) (hv : KeysOk v ino) (h0 : ∀ ci, v.chunkFn ino ci = none) :
    (writeChunks o ino content (numChunks content.length o.chunkSize) 0).Returns v fun _ v' =>
      ∃ f, ChunkEffect ino v v' f ∧ Chunks o.chunkSize f content := by
  refine (writeChunks_returns o ino content _ 0 v hv).mono fun _ v' h => ⟨_, h, ?_⟩
  refine Chunks.split hcs fun ci => ?_
  have hn := lt_numChunks_iff hcs content.length ci
  by_cases hci : ci * o.chunkSize < content.length
  · rw [if_pos hci, if_pos ⟨Nat.zero_le ci, by rw [Nat.zero_add]; exact hn.mpr hci⟩]
  · rw [if_neg hci, if_neg (fun h => hci (hn.mp (by simpa [numChunks] using h.2))), h0]

/-! ### Dropping chunks -/

/-- What `deleteAllChunks` and `deleteChunksFrom` leave: the chunks below `start`. -/
theorem dropFrom_effect {v' : ChunkedVfs} (start : Nat) {keys : List BlockKey}
    (hv : KeysOk v ino)
    (hget : ∀ ci, v'.metadata.getChunkKey ino ci =
      if start ≤ ci then none else v.metadata.getChunkKey ino ci)
    (hkeys : ∀ k ∈ keys, k.ino = ino ∧ start ≤ k.chunkIndex)
    (hblocks : ∀ k, v'.blocks.blocks k = v.blocks.blocks k ∨
      (k ∈ keys ∧ v'.blocks.blocks k = none))
    (hm : v'.metadata = { v.metadata with chunks := v'.metadata.chunks })
    (hch : ∀ j, j ≠ ino → v'.metadata.chunks j = v.metadata.chunks j)
    (hw : v'.writeBuffers = v.writeBuffers) :
    ChunkEffect ino v v' fun ci => if start ≤ ci then none else v.chunkFn ino ci := by
  -- a block outside the dropped range is as before
  have hkeep : ∀ k : BlockKey, ¬ (k.ino = ino ∧ start ≤ k.chunkIndex) →
      v'.blocks.blocks k = v.blocks.blocks k := fun k hk => by
    rcases hblocks k with h | ⟨h, -⟩
    · exact h
    · exact absurd (hkeys k h) hk
  refine ⟨⟨⟨?_, ?_, ?_, ?_, hch, ?_, ?_⟩, ?_⟩, ?_, hw, ?_, ?_⟩
  · rw [hm]
  · rw [hm]
  · rw [hm]
  · intro j _; rw [hm]
  · intro k hk; exact hkeep k fun h => hk h.1
  · intro j _; rw [hw]
  · intro h; rw [hw]; exact h
  · rw [hm]
  · intro ci k hk
    rw [hget] at hk
    split at hk
    · cases hk
    · rename_i hlt
      obtain ⟨h₁, h₂, b, h₃⟩ := hv ci k hk
      exact ⟨h₁, h₂, b, by rw [hkeep k fun h => hlt (h₂ ▸ h.2), h₃]⟩
  · funext ci
    rw [chunkFn, hget]
    split
    · rfl
    · rename_i hlt
      rw [chunkFn]
      cases hk : v.metadata.getChunkKey ino ci with
      | none => rfl
      | some k =>
          obtain ⟨-, h₂, -⟩ := hv ci k hk
          exact hkeep k fun h => hlt (h₂ ▸ h.2)

theorem blocks_deleteMany_cases (b : InMemoryBlockStore) (keys : List BlockKey) (k : BlockKey) :
    (b.deleteMany keys).blocks k = b.blocks k ∨ (k ∈ keys ∧ (b.deleteMany keys).blocks k = none) := by
  rw [blocks_deleteMany]
  by_cases h : k ∈ keys
  · exact .inr ⟨h, if_pos h⟩
  · exact .inl (if_neg h)

theorem getChunkKey_deleteAllChunks (ino ci : Nat) :
    (m.deleteAllChunks ino).2.getChunkKey ino ci = none := by
  unfold deleteAllChunks
  cases h : m.chunks ino with
  | none => simp [getChunkKey, h]
  | some map => simp [getChunkKey]

theorem mem_deleteAllChunks (hv : KeysOk v ino)
    (hk : k ∈ (v.metadata.deleteAllChunks ino).1) : k.ino = ino := by
  unfold deleteAllChunks at hk
  cases h : v.metadata.chunks ino with
  | none => rw [h] at hk; cases hk
  | some map => rw [h] at hk; exact (hv.mem_values h hk).1

theorem deleteAllChunks_frame (ino : Nat) :
    (m.deleteAllChunks ino).2 = { m with chunks := (m.deleteAllChunks ino).2.chunks } ∧
      ∀ j, j ≠ ino → (m.deleteAllChunks ino).2.chunks j = m.chunks j := by
  unfold deleteAllChunks
  cases m.chunks ino with
  | none => exact ⟨rfl, fun _ _ => rfl⟩
  | some map => exact ⟨rfl, fun j hj => update_of_ne hj _ _⟩

theorem dropAllChunks_returns (o : ChunkedVfsOptions)
    (hv : KeysOk v ino) :
    (dropAllChunks o ino).Returns v fun _ v' => ChunkEffect ino v v' fun _ => none := by
  have hkeys : ∀ k ∈ (v.metadata.deleteAllChunks ino).1, k.ino = ino ∧ 0 ≤ k.chunkIndex :=
    fun k hk => ⟨mem_deleteAllChunks hv hk, Nat.zero_le _⟩
  obtain ⟨hm, hch⟩ := deleteAllChunks_frame v.metadata ino
  unfold dropAllChunks Returns
  simp only [wp_bind, wp_read, updateMetadata, wp_update]
  cases o.versioning with
  | false =>
      exact dropFrom_effect 0 hv
        (fun ci => by simp [getChunkKey_deleteAllChunks]) hkeys
        (blocks_deleteMany_cases _ _) hm hch rfl
  | true =>
      exact dropFrom_effect 0 hv
        (fun ci => by simp [getChunkKey_deleteAllChunks]) hkeys
        (fun _ => .inl rfl) hm hch rfl

theorem deleteChunksFrom_frame (ino start : Nat) :
    (m.deleteChunksFrom ino start).2 =
        { m with chunks := (m.deleteChunksFrom ino start).2.chunks } ∧
      (∀ j, j ≠ ino → (m.deleteChunksFrom ino start).2.chunks j = m.chunks j) ∧
      ∀ ci, (m.deleteChunksFrom ino start).2.getChunkKey ino ci =
        if start ≤ ci then none else m.getChunkKey ino ci := by
  unfold deleteChunksFrom
  cases h : m.chunks ino with
  | none => exact ⟨rfl, fun _ _ => rfl, fun ci => by simp [getChunkKey, h]⟩
  | some map =>
      refine ⟨rfl, fun j hj => update_of_ne hj _ _, fun ci => ?_⟩
      simp only [getChunkKey, update_self, Option.bind_some, h,
        OMap.get_filter]
      cases map.get ci with
      | none => simp
      | some k => by_cases hs : start ≤ ci <;> simp [hs]

theorem mem_deleteChunksFrom {start : Nat} (hv : KeysOk v ino)
    (hk : k ∈ (v.metadata.deleteChunksFrom ino start).1) :
    k.ino = ino ∧ start ≤ k.chunkIndex := by
  unfold deleteChunksFrom at hk
  cases h : v.metadata.chunks ino with
  | none => rw [h] at hk; cases hk
  | some map =>
      rw [h] at hk
      obtain ⟨⟨ci, k'⟩, he, rfl⟩ := List.mem_map.mp hk
      obtain ⟨hmem, hs⟩ := List.mem_filter.mp he
      obtain ⟨h₁, h₂, -⟩ := hv ci k' ((mem_entries_of_getChunkKey h ci k').mpr hmem)
      exact ⟨h₁, by simpa [h₂] using hs⟩

/-! ### Reading the chunks back -/

variable {cs : Nat} {buf : Option InodeWriteBuffer}

/-- The stored chunks that are listed and not dirty are copied. -/
theorem setEntries_returns (hcs : 0 < cs)
    (hv : KeysOk v ino) (hfit : FitsIn cs n (v.chunkFn ino))
    (l : List (Nat × BlockKey)) :
    ∀ r : ByteArray8, (∀ e ∈ l, v.metadata.getChunkKey ino e.1 = some e.2) →
      (l.map Prod.fst).Nodup → r.length = n → (∀ i, i / cs ∈ l.map Prod.fst → byte r i = 0) →
      (setEntries cs buf l r).Returns v fun r' v' => v' = v ∧ r'.length = n ∧
        ∀ i, byte r' i =
          if i / cs ∈ l.map Prod.fst ∧ buf.bind (·.dirtyChunks.get (i / cs)) = none then
            chunkByte cs (v.chunkFn ino) i
          else byte r i := by
  induction l with
  | nil => exact fun r _ _ hr _ => ⟨rfl, hr, fun i => by simp⟩
  | cons e l ih =>
      obtain ⟨ci, key⟩ := e
      intro r hmem hnd hr hz
      obtain ⟨hnot, hnd⟩ := List.nodup_cons.mp hnd
      have hmem' : ∀ e ∈ l, v.metadata.getChunkKey ino e.1 = some e.2 := fun e he =>
        hmem e (List.mem_cons_of_mem _ he)
      unfold setEntries
      split
      · -- a dirty chunk is passed over
        rename_i hdirty
        refine (ih r hmem' hnd hr fun i hi => hz i (List.mem_cons_of_mem _ hi)).mono
          fun r' v' h => ⟨h.1, h.2.1, fun i => ?_⟩
        rw [h.2.2 i]
        refine if_congr (and_congr_left fun hn => ?_) rfl rfl
        rw [List.map_cons, List.mem_cons]
        refine ⟨.inr, fun hi => hi.resolve_left fun he => ?_⟩
        rw [show ci = i / cs from he.symm, hn] at hdirty
        cases hdirty
      rename_i hclean
      obtain ⟨b, hb, hf⟩ := hv.chunkFn_eq (hmem _ List.mem_cons_self)
      obtain ⟨hbl, hend⟩ := hfit ci b hf
      -- the block changes its own chunk of the result, which was still zero
      have hset : ∀ i, byte (overlay r (ci * cs) b) i =
          if i / cs = ci then chunkByte cs (v.chunkFn ino) i else byte r i := fun i => by
        rw [byte_overlay_chunk hcs hbl fun j hj => hz j (by simp [hj])]
        split
        · rename_i hci
          rw [chunkByte, hci, hf, Option.getD_some]
        · rfl
      refine (readBlock_returns hb).bind fun b' v₁ h₁ => ?_
      obtain ⟨rfl, rfl⟩ := h₁
      refine (setBytes_returns (by omega) v₁).bind fun r₁ v₂ h₂ => ?_
      obtain ⟨rfl, rfl⟩ := h₂
      refine (ih _ hmem' hnd ?_ fun i hi => ?_).mono fun r' v' h => ⟨h.1, h.2.1, fun i => ?_⟩
      · rw [length_overlay]; omega
      · rw [hset, if_neg fun h : i / cs = ci => hnot (h ▸ hi), hz i (List.mem_cons_of_mem _ hi)]
      · rw [h.2.2 i, hset i, List.map_cons]
        by_cases hci : i / cs = ci
        · rw [if_neg fun hm => hnot (hci ▸ hm.1), if_pos hci, if_pos]
          exact ⟨List.mem_cons.mpr (.inl hci), by simpa [hci] using hclean⟩
        · rw [if_neg hci]
          refine if_congr (and_congr_left fun _ => ?_) rfl rfl
          rw [List.mem_cons]
          exact ⟨.inr, fun hi => hi.resolve_left hci⟩

theorem getAllChunkKeys_spec (ino : Nat) :
    ((m.getAllChunkKeys ino).map Prod.fst).Nodup ∧
      ∀ e, e ∈ m.getAllChunkKeys ino ↔ m.getChunkKey ino e.1 = some e.2 := by
  unfold getAllChunkKeys
  cases h : m.chunks ino with
  | none => exact ⟨List.nodup_nil, fun e => by simp [getChunkKey, h]⟩
  | some map =>
      have hp := List.perm_insertionSort (fun a b : Nat × BlockKey => a.1 ≤ b.1) map.entries
      refine ⟨(hp.map Prod.fst).nodup_iff.mpr map.nodup, fun e => ?_⟩
      rw [hp.mem_iff, mem_entries_of_getChunkKey h]

variable {c : ByteArray8}

/-- All the chunks of a file, copied into zeros, are its content. -/
theorem setEntries_all (hcs : 0 < cs)
    (hv : KeysOk v ino) (hc : Chunks cs (v.chunkFn ino) c) :
    (setEntries cs none (v.metadata.getAllChunkKeys ino) (zeros c.length)).Returns v
      fun r v' => r = c ∧ v' = v := by
  obtain ⟨hnd, hmem⟩ := getAllChunkKeys_spec v.metadata ino
  refine (setEntries_returns hcs hv hc.fits _ _ (fun e he => (hmem e).mp he) hnd (length_zeros _)
    fun i _ => byte_zeros _ i).mono fun r v' h => ⟨ext_byte h.2.1 fun i _ => ?_, h.1⟩
  rw [h.2.2 i, hc.bytes i]
  split
  · rfl
  · rename_i hn
    replace hn : i / cs ∉ (v.metadata.getAllChunkKeys ino).map Prod.fst := fun hm => hn ⟨hm, rfl⟩
    rw [byte_zeros, chunkByte]
    cases hf : v.chunkFn ino (i / cs) with
    | none => rfl
    | some b =>
        obtain ⟨k, hk, -⟩ := Option.bind_eq_some_iff.mp hf
        exact absurd (List.mem_map.mpr ⟨(i / cs, k), (hmem _).mpr hk, rfl⟩) hn

variable {len : Nat} {f : Nat → Option ByteArray8}

/-- One chunk of `pread`: the result is right up to the end of the chunk. -/
theorem byte_pread_step (hcs : 0 < cs)
    {r : ByteArray8} (hc : Chunks cs f c) (hlo : off < ci * cs + cs) (hhi : ci * cs < off + len)
    (hr : ∀ i, i < ci * cs - off → byte r i = byte c (off + i))
    (hz : ∀ i, ci * cs - off ≤ i → byte r i = 0) (i : Nat) :
    byte (overlay r (ci * cs - off) (slice ((f ci).getD []) (max off (ci * cs) - ci * cs)
      (min (off + len) (ci * cs + cs) - ci * cs))) i =
      if i < min (off + len) (ci * cs + cs) - off then byte c (off + i) else 0 := by
  rw [byte_overlay, length_slice]
  by_cases hlt : i < ci * cs - off
  · rw [if_neg (by omega), if_pos (by omega), hr i hlt]
  · have hz' := hz i (by omega)
    by_cases hin : i < min (off + len) (ci * cs + cs) - off
    · have hq : (off + i) / cs = ci :=
        Nat.div_eq_of_lt_le (by omega) (by rw [Nat.succ_mul]; omega)
      have hm : (off + i) % cs = off + i - ci * cs := by
        have := Nat.div_add_mod (off + i) cs
        rw [hq, Nat.mul_comm] at this
        omega
      rw [if_pos hin, hc.bytes, chunkByte, hq, hm]
      by_cases hb : off + i - ci * cs < ((f ci).getD []).length
      · rw [if_pos (by omega), byte_slice, if_pos (by omega)]
        congr 1
        omega
      · rw [if_neg (by omega), hz', byte_eq_zero_of_le (by omega)]
    · rw [if_neg hin, if_neg (by omega), hz']

section

variable (hcs : 0 < o.chunkSize) (hv : KeysOk v ino) (hlen : 0 < len) (hc : Chunks o.chunkSize f c)
  (hf : ∀ ci, f ci = (buf.bind (·.dirtyChunks.get ci)).or (v.chunkFn ino ci))
include hcs hv hlen hc hf

theorem preadChunks_returns (n : Nat) :
    ∀ (ci : Nat) (r : ByteArray8) (written : Nat), off / o.chunkSize ≤ ci →
      ci + n = (off + len - 1) / o.chunkSize + 1 → r.length = len →
      written = min len (ci * o.chunkSize - off) →
      (∀ i, i < ci * o.chunkSize - off → i < len → byte r i = byte c (off + i)) →
      (∀ i, ci * o.chunkSize - off ≤ i → byte r i = 0) →
      (preadChunks o ino off len buf n ci r written).Returns v fun r' v' =>
        v' = v ∧ r'.length = len ∧ ∀ i, i < len → byte r' i = byte c (off + i) := by
  induction n with
  | zero =>
      intro ci r written hci hn hr hw hb _
      refine ⟨rfl, hr, fun i hi => hb i ?_ hi⟩
      have := chunk_bounds hcs (off + len - 1)
      rw [show ci = (off + len - 1) / o.chunkSize + 1 by omega, Nat.succ_mul]
      omega
  | succ n ih =>
      intro ci r written hci hn hr hw hb hz
      obtain ⟨hlo, hhi⟩ := chunk_window hcs hlen hci (by omega)
      have hsucc : (ci + 1) * o.chunkSize = ci * o.chunkSize + o.chunkSize := Nat.succ_mul ..
      have hw' : written = ci * o.chunkSize - off := by omega
      have hwrite : written + (min (off + len) (ci * o.chunkSize + o.chunkSize) - ci * o.chunkSize -
          (max off (ci * o.chunkSize) - ci * o.chunkSize)) =
          min len ((ci + 1) * o.chunkSize - off) := by omega
      have hstep := byte_pread_step hcs hc hlo hhi (fun i hi => hb i hi (by omega)) hz
      unfold preadChunks
      simp only [hwrite]
      have hfc := hf ci
      cases hd : buf.bind (·.dirtyChunks.get ci) with
      | some b =>
        rw [hd, Option.some_or] at hfc
        obtain ⟨hfit, -⟩ := hc.fits ci b hfc
        rw [hfc, Option.getD_some] at hstep
        have hend : max off (ci * o.chunkSize) - ci * o.chunkSize +
            (min (off + len) (ci * o.chunkSize + o.chunkSize) - ci * o.chunkSize -
              (max off (ci * o.chunkSize) - ci * o.chunkSize)) =
            min (off + len) (ci * o.chunkSize + o.chunkSize) - ci * o.chunkSize := by omega
        simp only [hend]
        refine (setBytes_returns ?_ v).bind fun r₁ v₁ h₁ => ?_
        · rw [length_slice]; omega
        obtain ⟨rfl, rfl⟩ := h₁
        subst hw'
        refine ih (ci + 1) _ _ (by omega) (by omega) ?_ rfl ?_ ?_
        · rw [length_overlay, length_slice]; omega
        · intro i hi hl; rw [hstep i, if_pos (by omega)]
        · intro i hi; rw [hstep i, if_neg (by omega)]
      | none =>
      rw [hd, Option.none_or] at hfc
      cases hk : v.metadata.getChunkKey ino ci with
      | none =>
          -- a hole: the zeros that are there already
          have hf : f ci = none := by rw [hfc, chunkFn, hk]; rfl
          simp only [Returns, wp_bind, wp_read, hk]
          rw [hf, Option.getD_none] at hstep
          have hsame : ∀ i, byte r i = if i < min (off + len) (ci * o.chunkSize + o.chunkSize) - off
              then byte c (off + i) else 0 := fun i => by
            rw [← hstep i, byte_overlay, length_slice, if_neg]
            simp only [List.length_nil]
            omega
          refine ih (ci + 1) r _ (by omega) (by omega) hr rfl ?_ ?_
          · intro i hi hl; rw [hsame i, if_pos (by omega)]
          · intro i hi; rw [hsame i, if_neg (by omega)]
      | some key =>
          obtain ⟨b, hbl, hb⟩ := hv.chunkFn_eq hk
          rw [hb] at hfc
          obtain ⟨hfit, -⟩ := hc.fits ci b hfc
          rw [hfc, Option.getD_some] at hstep
          simp only [Returns, wp_bind, wp_read, hk, readRange, hbl, wp_lift_ok]
          have hdata : (b.take (min (max off (ci * o.chunkSize) - ci * o.chunkSize +
              (min (off + len) (ci * o.chunkSize + o.chunkSize) - ci * o.chunkSize -
                (max off (ci * o.chunkSize) - ci * o.chunkSize))) b.length)).drop
                  (max off (ci * o.chunkSize) - ci * o.chunkSize) =
              slice b (max off (ci * o.chunkSize) - ci * o.chunkSize)
                (min (off + len) (ci * o.chunkSize + o.chunkSize) - ci * o.chunkSize) := by
            rw [slice, ← List.take_take, List.take_length]
            congr 2
            omega
          rw [hdata]
          refine wp_bind.mp ((setBytes_returns ?_ v).bind fun r₁ v₁ h₁ => ?_)
          · rw [length_slice]; omega
          obtain ⟨rfl, rfl⟩ := h₁
          subst hw'
          refine ih (ci + 1) _ _ (by omega) (by omega) ?_ rfl ?_ ?_
          · rw [length_overlay, length_slice]; omega
          · intro i hi hl; rw [hstep i, if_pos (by omega)]
          · intro i hi; rw [hstep i, if_neg (by omega)]

/-- The chunk loop of `pread` gives the window of the content. -/
theorem preadChunks_all (hend : off + len ≤ c.length) :
    (preadChunks o ino off len buf ((off + len - 1) / o.chunkSize + 1 - off / o.chunkSize)
      (off / o.chunkSize) (zeros len) 0).Returns v fun r v' => r = window c off len ∧ v' = v := by
  have hle : off / o.chunkSize ≤ (off + len - 1) / o.chunkSize :=
    Nat.div_le_div_right (by omega)
  have hst := (chunk_bounds hcs off).1
  refine (preadChunks_returns hcs hv hlen hc hf _ _ _ _ (Nat.le_refl _) (by omega) (length_zeros _)
    (by omega) (fun i hi => by omega) (fun i _ => byte_zeros _ i)).mono fun r v' h => ?_
  obtain ⟨hv', hl, hb⟩ := h
  refine ⟨ext_byte ?_ fun i hi => ?_, hv'⟩
  · rw [hl, length_window]; omega
  · rw [hb i (by omega), byte_window, if_pos (by omega)]

end

/-! ### Writing into the chunks -/

/-- An expanded chunk takes a piece that ends at its new end as the chunk itself does. -/
theorem overlay_resize {d : ByteArray8} (hn : n = off + d.length)
    (hb : b.length ≤ n) : overlay (resize b n) off d = overlay b off d := by
  refine ext_byte ?_ fun i _ => ?_
  · rw [length_overlay, length_overlay, length_resize]; omega
  · rw [byte_overlay, byte_overlay, byte_resize]
    by_cases hi : i < n
    · rw [if_pos hi]
    · rw [if_neg hi, show byte b _ = 0 from byte_eq_zero_of_le (by omega)]

theorem expandChunk_returns (b : ByteArray8) (n : Nat) (v : ChunkedVfs) :
    (expandChunk b n).Returns v fun r v' => v' = v ∧
      r = if b.length < n then resize b n else b := by
  unfold expandChunk
  split
  · refine (setBytes_returns (by rw [length_zeros]; omega) v).mono fun r v' h => ⟨h.2, ?_⟩
    rw [h.1, overlay_zeros (by omega)]
  · exact ⟨rfl, rfl⟩

/-- One turn of the chunk loop of `pwrite`. -/
theorem pwriteChunks_turn (hv : KeysOk v ino) (hlo : off < ci * o.chunkSize + o.chunkSize)
    (hhi : ci * o.chunkSize < off + data.length)
    (hrest : ∀ v', ChunkEffect ino v v' (update (v.chunkFn ino) ci
      (some (chunkAfter o.chunkSize off data ((v.chunkFn ino ci).getD []) ci))) →
      (pwriteChunks o ino off data n (ci + 1)).Returns v' Q) :
    (pwriteChunks o ino off data (n + 1) ci).Returns v Q := by
  have hpl : (chunkPiece o.chunkSize off data ci).length = _ := length_chunkPiece
  -- where the piece ends is where the chunk is expanded to
  have hwe : min (off + data.length) (ci * o.chunkSize + o.chunkSize) - ci * o.chunkSize =
      max off (ci * o.chunkSize) - ci * o.chunkSize +
        (chunkPiece o.chunkSize off data ci).length := by omega
  unfold pwriteChunks
  refine (makeBlockKey_returns o ino ci v).bind fun key v₁ h₁ => ?_
  obtain ⟨⟨r, rfl⟩, hi, hc⟩ := h₁
  cases hk : v.metadata.getChunkKey ino ci with
  | none =>
      have hf : v.chunkFn ino ci = none := by rw [chunkFn, hk]; rfl
      simp only [Returns, wp_bind, wp_read, hk]
      refine wp_mono (setBytes_returns (by rw [length_zeros]; exact hwe.ge) _) ?_ fun _ _ => id
      rintro chunk _ ⟨rfl, rfl⟩
      have hchunk : overlay (zeros (min (off + data.length) (ci * o.chunkSize + o.chunkSize) -
          ci * o.chunkSize)) (max off (ci * o.chunkSize) - ci * o.chunkSize)
          (chunkPiece o.chunkSize off data ci) = chunkAfter o.chunkSize off data [] ci := by
        rw [chunkAfter, ← overlay_resize (b := []) hwe (Nat.zero_le _), resize, List.take_nil,
          List.nil_append, List.length_nil, Nat.sub_zero]
      refine hrest _ ?_
      rw [hf, Option.getD_none, ← hchunk]
      exact writeChunk_effect hv hi hc r
  | some key' =>
      obtain ⟨b, hb, hf⟩ := hv.chunkFn_eq hk
      obtain ⟨hi', hc', -⟩ := hv ci key' hk
      simp only [Returns, wp_bind, wp_read, hk]
      refine wp_mono (readBlock_returns hb) ?_ fun _ _ => id
      rintro b' _ ⟨rfl, rfl⟩
      refine wp_mono (expandChunk_returns b' _ _) ?_ fun _ _ => id
      rintro e _ ⟨rfl, rfl⟩
      refine wp_mono (setBytes_returns ?_ _) ?_ fun _ _ => id
      · change _ + (chunkPiece o.chunkSize off data ci).length ≤ _
        split
        · rw [length_resize]; omega
        · omega
      rintro chunk _ ⟨hch, rfl⟩
      have hchunk : chunk = chunkAfter o.chunkSize off data b' ci := by
        rw [hch]
        split
        · exact overlay_resize hwe (by omega)
        · rfl
      rw [hf, Option.getD_some, ← hchunk] at hrest
      split
      · have hne : ∀ k : BlockKey, ¬ (k.ino = ino ∧ k.chunkIndex = ci) → k ≠ key ∧ k ≠ key' :=
          fun k hn => ⟨fun e => hn (e ▸ ⟨hi, hc⟩), fun e => hn (e ▸ ⟨hi', hc'⟩)⟩
        exact hrest _ (storeChunk_effect hv hi hc rfl (update_self ..)
          (fun k hn => (update_of_ne (hne k hn).1 _ _).trans
            (update_of_ne (hne k hn).2 _ _)) rfl)
      · exact hrest _ (writeChunk_effect hv hi hc r)

theorem pwriteChunks_returns (hcs : 0 < o.chunkSize)
    (hd : 0 < data.length) (n : Nat) :
    ∀ (ci : Nat) (v : ChunkedVfs), KeysOk v ino → off / o.chunkSize ≤ ci →
      ci + n = (off + data.length - 1) / o.chunkSize + 1 →
      (pwriteChunks o ino off data n ci).Returns v fun _ v' => ChunkEffect ino v v' fun cj =>
        if ci ≤ cj ∧ cj < ci + n then
          some (chunkAfter o.chunkSize off data ((v.chunkFn ino cj).getD []) cj)
        else v.chunkFn ino cj := by
  induction n with
  | zero =>
      intro ci v hv _ _
      refine ⟨.refl ino v, rfl, rfl, hv, ?_⟩
      funext cj
      rw [if_neg (by omega)]
  | succ n ih =>
      intro ci v hv hci hn
      obtain ⟨hlo, hhi⟩ := chunk_window hcs hd hci (by omega)
      refine pwriteChunks_turn hv hlo hhi fun v₁ h₁ => ?_
      refine (ih (ci + 1) v₁ h₁.keys (by omega) (by omega)).mono fun _ v' h =>
        h.after h₁ (window_turn h₁.chunks fun cj hcj => ?_)
      rw [h₁.chunks, update_of_ne hcj]

/-- The chunk loop of `pwrite` writes the data over the content. -/
theorem pwriteChunks_all (hcs : 0 < o.chunkSize)
    (hd : 0 < data.length) (hv : KeysOk v ino)
    (hc : Chunks o.chunkSize (v.chunkFn ino) c) :
    (pwriteChunks o ino off data
      ((off + data.length - 1) / o.chunkSize + 1 - off / o.chunkSize) (off / o.chunkSize)).Returns v
      fun _ v' => ∃ f, ChunkEffect ino v v' f ∧ Chunks o.chunkSize f (overlay c off data) := by
  have hle : off / o.chunkSize ≤ (off + data.length - 1) / o.chunkSize :=
    Nat.div_le_div_right (by omega)
  refine (pwriteChunks_returns hcs hd _ _ v hv (Nat.le_refl _) (by omega)).mono
    fun _ v' h => ⟨_, h, ?_⟩
  refine hc.overlay hcs hd (fun ci h₁ h₂ => ?_) fun ci hci => ?_
  · rw [if_pos (by omega)]
  · rw [if_neg (by omega)]

/-! ### Cutting the chunks -/

theorem dropChunksFrom_returns (o : ChunkedVfsOptions) (start : Nat)
    (hv : KeysOk v ino) :
    (dropChunksFrom o ino start).Returns v fun _ v' =>
      ChunkEffect ino v v' fun ci => if start ≤ ci then none else v.chunkFn ino ci := by
  obtain ⟨hm, hch, hget⟩ := deleteChunksFrom_frame v.metadata ino start
  have hkeys : ∀ k ∈ (v.metadata.deleteChunksFrom ino start).1, k.ino = ino ∧ start ≤ k.chunkIndex :=
    fun k hk => mem_deleteChunksFrom hv hk
  unfold dropChunksFrom Returns
  simp only [wp_bind, wp_read, updateMetadata, wp_update]
  cases o.versioning with
  | false => exact dropFrom_effect _ hv hget hkeys (blocks_deleteMany_cases _ _) hm hch rfl
  | true => exact dropFrom_effect _ hv hget hkeys (fun _ => .inl rfl) hm hch rfl

/-- The chunk is cut, if it is there. -/
theorem truncateLastChunk_returns (o : ChunkedVfsOptions) (ci n : Nat)
    (hv : KeysOk v ino) :
    (truncateLastChunk o ino ci n).Returns v fun _ v' => ChunkEffect ino v v'
      (update (v.chunkFn ino) ci ((v.chunkFn ino ci).map (·.take n))) := by
  unfold truncateLastChunk
  -- a chunk that is not cut is its own first `n` bytes
  have hsame : (v.chunkFn ino ci).map (·.take n) = v.chunkFn ino ci →
      ChunkEffect ino v v
        (update (v.chunkFn ino) ci ((v.chunkFn ino ci).map (·.take n))) := fun h => by
    rw [h, update_eq_self]
    exact .refl hv
  cases hk : v.metadata.getChunkKey ino ci with
  | none =>
      simp only [Returns, wp_bind, wp_read, hk]
      refine hsame ?_
      rw [chunkFn, hk]
      rfl
  | some key =>
      obtain ⟨b, hb, hf⟩ := hv.chunkFn_eq hk
      simp only [Returns, wp_bind, wp_read, hk]
      refine wp_mono (readBlock_returns hb) ?_ fun _ _ => id
      rintro b' v₁ ⟨rfl, rfl⟩
      split
      · simp only [wp_bind]
        refine wp_mono (makeBlockKey_returns o ino ci v₁) ?_ fun _ _ => id
        rintro newKey v₂ ⟨⟨r, rfl⟩, hi, hc⟩
        rw [hf]
        exact writeChunk_effect hv hi hc r
      · rename_i hle
        refine hsame ?_
        rw [hf, Option.map_some, List.take_of_length_le (by omega)]

end SecureExec.Vfs
