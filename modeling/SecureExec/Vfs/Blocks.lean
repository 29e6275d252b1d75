import SecureExec.Vfs.Files

/-!
# Vfs — Blocks — the stored blocks that an operation leaves

With versioning on, an operation stores under keys with ids that were never drawn before, and
deletes no block.  `Spared o K M v v'`: the blocks of `K` are as before, and a key that is new in a
chunk map has an id drawn since the `M`-th.  `Spares`: a program does that whatever the state, once
enough ids have been drawn.

The exception is `pwrite`: the block store hands out its own arrays, and a chunk that is long enough
is modified where it is.  `Overwrites` names the blocks this reaches.
-/

namespace SecureExec.Vfs
open SecureExec Bytes Prog InMemoryMetadataStore Function ChunkedVfs

variable {o : ChunkedVfsOptions} {K : BlockKey → Prop} {M L : Nat} {ino : Nat} {α β : Type}
  {v v' v₁ : ChunkedVfs}

/-- The id of the key is one of those drawn from the `a`-th on, before the `b`-th. -/
def DrawnIn (o : ChunkedVfsOptions) (a b : Nat) (k : BlockKey) : Prop :=
  ∃ n, a ≤ n ∧ n < b ∧ k.randomId = some (o.randomId n)

/-- The blocks of `K` have ids drawn before the `M`-th. -/
def Old (o : ChunkedVfsOptions) (M : Nat) (K : BlockKey → Prop) : Prop :=
  ∀ k, K k → ∀ n, M ≤ n → k.randomId ≠ some (o.randomId n)

theorem Old.not_mem (h : Old o M K) {k : BlockKey} {a b : Nat} (hk : DrawnIn o a b k)
    (ha : M ≤ a) : ¬ K k := by
  obtain ⟨n, hn, -, he⟩ := hk
  intro hK
  exact h k hK n (Nat.le_trans ha hn) he

/-- The blocks of `K` are as before, and what is new in a chunk map has a new id. -/
structure Spared (o : ChunkedVfsOptions) (K : BlockKey → Prop) (M : Nat) (v v' : ChunkedVfs) :
    Prop where
  drawn : v.randomCalls ≤ v'.randomCalls
  keys : ∀ ino ci k, v'.metadata.getChunkKey ino ci = some k →
    v.metadata.getChunkKey ino ci = some k ∨ DrawnIn o M v'.randomCalls k
  blocks : ∀ k, K k → v'.blocks.blocks k = v.blocks.blocks k

namespace Spared

theorem refl (v : ChunkedVfs) : Spared o K M v v :=
  ⟨Nat.le_refl _, fun _ _ _ => .inl, fun _ _ => rfl⟩

theorem trans (h : Spared o K M v v₁) (h' : Spared o K M v₁ v') : Spared o K M v v' := by
  refine ⟨h.drawn.trans h'.drawn, fun ino ci k hk => ?_,
    fun k hk => (h'.blocks k hk).trans (h.blocks k hk)⟩
  rcases h'.keys ino ci k hk with hk | hk
  · rcases h.keys ino ci k hk with hk | ⟨n, hM, hn, he⟩
    · exact .inl hk
    · exact .inr ⟨n, hM, Nat.lt_of_lt_of_le hn h'.drawn, he⟩
  · exact .inr hk

/-- The storage is not looked at. -/
theorem still (hr : v'.randomCalls = v.randomCalls) (hb : v'.blocks = v.blocks)
    (hk : ∀ ino ci k, v'.metadata.getChunkKey ino ci = some k →
      v.metadata.getChunkKey ino ci = some k) : Spared o K M v v' :=
  ⟨hr.ge, fun ino ci k h => .inl (hk ino ci k h), fun _ _ => by rw [hb]⟩

end Spared

/-- From states in which `L` ids have been drawn, the program spares the blocks of `K`. -/
def Spares (o : ChunkedVfsOptions) (K : BlockKey → Prop) (M L : Nat) (p : VfsProg α) : Prop :=
  ∀ v, L ≤ v.randomCalls → Spared o K M v (p.exec v).2

namespace Spares

variable {p : VfsProg α}

theorem pure (a : α) : Spares o K M L (pure a) := fun v _ => .refl v

theorem throw (e : Failure) : Spares o K M L (throw e : VfsProg α) := fun v _ => .refl v

theorem read (f : ChunkedVfs → α) : Spares o K M L (Prog.read f) := fun v _ => .refl v

theorem of_within (h : Within Eq p) : Spares o K M L p := by
  intro v _
  rw [h.state_eq v]
  exact .refl v

theorem mono {L' : Nat} (h : Spares o K M L p) (hL : L ≤ L') : Spares o K M L' p :=
  fun v hv => h v (hL.trans hv)

theorem bind {f : α → VfsProg β} (h : Spares o K M L p) (hf : ∀ a, Spares o K M L (f a)) :
    Spares o K M L (p >>= f) := by
  intro v hv
  have hp := h v hv
  rw [exec_bind]
  rcases hr : p.exec v with ⟨e | a, v₁⟩
  · rw [hr] at hp
    exact hp
  · rw [hr] at hp
    exact hp.trans (hf a v₁ (hv.trans hp.drawn))

/-- Changes that leave the storage. -/
theorem write {f : ChunkedVfs → ChunkedVfs} (hr : ∀ v, (f v).randomCalls = v.randomCalls)
    (hb : ∀ v, (f v).blocks = v.blocks)
    (hk : ∀ v ino ci k, (f v).metadata.getChunkKey ino ci = some k →
      v.metadata.getChunkKey ino ci = some k) : Spares o K M L (update f) :=
  fun v _ => .still (hr v) (hb v) (hk v)

theorem updateMetadata {f : InMemoryMetadataStore → InMemoryMetadataStore}
    (hk : ∀ m ino ci k, (f m).getChunkKey ino ci = some k → m.getChunkKey ino ci = some k) :
    Spares o K M L (updateMetadata f) :=
  write (fun _ => rfl) (fun _ => rfl) fun v => hk v.metadata

theorem updateInode {g : InodeMeta → InodeMeta} : Spares o K M L (updateInode ino g) := by
  refine updateMetadata fun m ino' ci k hk => ?_
  rw [InMemoryMetadataStore.updateInode] at hk
  split at hk
  · exact hk
  · exact hk

theorem dateNow : Spares o K M L (dateNow o) :=
  .bind (.read _) fun _ => .bind (write (fun _ => rfl) (fun _ => rfl) fun _ _ _ _ hk => hk)
    fun _ => .pure _

/-! ### New keys -/

/-- A key is drawn, and what follows knows it is new. -/
theorem makeBlockKey (hver : o.versioning = true) {ci : Nat} {f : BlockKey → VfsProg β}
    (hf : ∀ n key, L ≤ n → key.randomId = some (o.randomId n) → Spares o K M (n + 1) (f key)) :
    Spares o K M L (makeBlockKey o ino ci >>= f) := by
  intro v hv
  have hkey : (Vfs.makeBlockKey o ino ci).exec v =
      (.ok ⟨ino, ci, some (o.randomId v.randomCalls)⟩, { v with
        randomCalls := v.randomCalls + 1 }) := by
    rw [Vfs.makeBlockKey, if_pos hver]
    rfl
  rw [exec_bind, hkey]
  have hstep : Spared o K M v { v with randomCalls := v.randomCalls + 1 } :=
    ⟨Nat.le_succ _, fun _ _ _ => .inl, fun _ _ => rfl⟩
  exact hstep.trans (hf v.randomCalls _ hv rfl _ (Nat.le_refl _))

theorem writeBlock {key : BlockKey} (hkey : ¬ K key) (b : ByteArray8) :
    Spares o K M L (writeBlock key b) := by
  intro v _
  refine ⟨Nat.le_refl _, fun _ _ _ => .inl, fun k hk => update_of_ne ?_ _ _⟩
  rintro rfl
  exact hkey hk

theorem setChunkKey {key : BlockKey} {n : Nat} (hM : M ≤ n) (hn : n < L)
    (hkey : key.randomId = some (o.randomId n)) (ino ci : Nat) :
    Spares o K M L (Vfs.updateMetadata (·.setChunkKey ino ci key)) := by
  intro v hv
  refine ⟨Nat.le_refl _, fun j cj k hk => ?_, fun _ _ => rfl⟩
  change (v.metadata.setChunkKey ino ci key).getChunkKey j cj = some k at hk
  rw [getChunkKey_setChunkKey] at hk
  split at hk
  · cases hk
    exact .inr ⟨n, hM, Nat.lt_of_lt_of_le hn hv, hkey⟩
  · exact .inl hk

/-- A chunk is stored under a new key. -/
theorem store (hold : Old o M K) (hver : o.versioning = true) (hM : M ≤ L) {ci : Nat}
    {b : ByteArray8} {q : VfsProg β} (hq : Spares o K M M q) :
    Spares o K M L (Vfs.makeBlockKey o ino ci >>= fun key => Vfs.writeBlock key b >>= fun _ =>
      Vfs.updateMetadata (·.setChunkKey ino ci key) >>= fun _ => q) := by
  refine makeBlockKey hver fun n key hn hkey => ?_
  have hnew : ¬ K key := fun hk => hold key hk n (hM.trans hn) hkey
  exact .bind (writeBlock hnew b) fun _ =>
    .bind (setChunkKey (hM.trans hn) (Nat.lt_succ_self n) hkey ino ci) fun _ =>
      hq.mono (hM.trans (hn.trans (Nat.le_succ n)))

/-! ### The operations but `pwrite` -/

theorem dropAllChunks (hver : o.versioning = true) : Spares o K M L (dropAllChunks o ino) := by
  refine .bind (.read _) fun _ => .bind (updateMetadata fun m ino' ci k hk => ?_) fun _ => ?_
  · by_cases hi : ino' = ino
    · rw [hi, getChunkKey_deleteAllChunks] at hk
      cases hk
    · have hch : (m.deleteAllChunks ino).2.chunks ino' = m.chunks ino' := by
        unfold deleteAllChunks
        cases m.chunks ino with
        | none => rfl
        | some map => exact update_of_ne hi _ _
      rw [getChunkKey, hch] at hk
      exact hk
  · simp only [hver, Bool.not_true, Bool.false_eq_true, if_false]
    exact .pure _

theorem dropChunksFrom (hver : o.versioning = true) (start : Nat) :
    Spares o K M L (dropChunksFrom o ino start) := by
  refine .bind (.read _) fun _ => .bind (updateMetadata fun m ino' ci k hk => ?_) fun _ => ?_
  · obtain ⟨-, hch, hget⟩ := deleteChunksFrom_frame m ino start
    by_cases hi : ino' = ino
    · subst hi
      rw [hget] at hk
      split at hk
      · cases hk
      · exact hk
    · rw [getChunkKey, hch ino' hi] at hk
      exact hk
  · simp only [hver, Bool.not_true, Bool.false_eq_true, if_false]
    exact .pure _

theorem storing (hold : Old o M K) (hver : o.versioning = true) : Storing o (Spares o K M M) where
  within := of_within
  bind := bind
  write h := write (fun v => (h v).2.2) (fun v => (h v).2.1) fun v _ _ _ hk => by rwa [(h v).1] at hk
  updateInode _ := updateInode
  store := store hold hver (Nat.le_refl M)
  dropAllChunks _ := dropAllChunks hver
  dropChunksFrom _ := dropChunksFrom hver

theorem writeExisting (hold : Old o M K) (hver : o.versioning = true) (data : ByteArray8) :
    Spares o K M M (writeExisting o ino data) :=
  .bind (of_within (within_requireInode ino)) fun _ =>
    .bind (write (fun _ => rfl) (fun _ => rfl) fun _ _ _ _ hk => hk) fun _ =>
      .bind ((storing hold hver).writeInodeContent _ _) fun _ => updateInode

/-! ### Names -/

theorem createInode (attrs : CreateInodeAttrs) (now : Nat) :
    Spares o K M L (Vfs.updateMetadata fun m => (m.createInode attrs now).2) :=
  updateMetadata fun _ _ _ _ hk => hk

/-- The entry is made in the metadata it was computed from. -/
theorem createDentry {p child : Nat} {name : String} {t : InodeType} {q : VfsProg β}
    (hq : Spares o K M L q) :
    Spares o K M L (Prog.read metadata >>= fun m =>
      Prog.lift (m.createDentry p name child t) >>= fun m' =>
        Vfs.updateMetadata (fun _ => m') >>= fun _ => q) := by
  intro v hv
  rw [exec_bind, exec_read]
  dsimp only
  rw [exec_bind, exec_lift]
  cases hm : v.metadata.createDentry p name child t with
  | error e => exact .refl v
  | ok m' =>
      have hch : m'.chunks = v.metadata.chunks := by
        simp only [InMemoryMetadataStore.createDentry] at hm
        split at hm
        · cases hm
        · cases hm
          rfl
      have hstep : Spared o K M v { v with metadata := m' } := by
        refine .still rfl rfl fun ino ci k hk => ?_
        rw [InMemoryMetadataStore.getChunkKey, hch] at hk
        exact hk
      exact hstep.trans (hq _ hv)

theorem ensureParentsLoop (l : List String) :
    ∀ cur, Spares o K M L (ensureParentsLoop o cur l) := by
  induction l with
  | nil => exact fun _ => .pure _
  | cons component rest ih =>
      intro cur
      refine .bind (.read _) fun child => ?_
      cases child with
      | some child => exact ih child
      | none =>
          refine .bind dateNow fun now => .bind (.read _) fun dirIno =>
            .bind (createInode _ _) fun _ => createDentry (.bind updateInode fun _ =>
              .bind (.read _) fun parent => ?_)
          cases parent with
          | some parent => exact .bind updateInode fun _ => ih dirIno
          | none => exact ih dirIno

theorem ensureParents (path : String) : Spares o K M L (ensureParents o path) := by
  unfold Vfs.ensureParents
  dsimp only
  split
  · exact .throw _
  · exact .bind (ensureParentsLoop _ _) fun _ => .pure _

theorem writeNew (hold : Old o M K) (hver : o.versioning = true) (p : Nat) (name : String)
    (data : ByteArray8) : Spares o K M M (writeNew o p name data) :=
  .bind dateNow fun _ => .bind (.read _) fun newIno => .bind (createInode _ _) fun _ =>
    createDentry (.bind updateInode fun _ => .bind (of_within (within_requireInode newIno)) fun _ =>
      (storing hold hver).writeInodeContent _ _)

theorem writeFile (hold : Old o M K) (hver : o.versioning = true) (path : String)
    (data : ByteArray8) : Spares o K M M (writeFile o path data) := by
  refine .bind (ensureParents path) fun r => .bind (.read _) fun existing => ?_
  cases existing with
  | some existingIno => exact writeExisting hold hver data
  | none => exact writeNew hold hver _ _ _

end Spares

/-! ### `pwrite` -/

/-- Where a write of `len` bytes at `off` ends in chunk `ci`. -/
def writeEnd (cs off len ci : Nat) : Nat := min (off + len) (ci * cs + cs) - ci * cs

/-- The array that `pwrite` gets for the chunk `ci`, with the block whose array it is. -/
def ChunkedVfs.arrayOf (v : ChunkedVfs) (ino ci : Nat) : Option (BlockKey × ByteArray8) :=
  match (v.buffer ino).dirtyChunks.get ci with
  | some chunk => ((v.buffer ino).shared.get ci).map fun k => (k, chunk)
  | none => (v.metadata.getChunkKey ino ci).bind fun k => (v.blocks.blocks k).map fun b => (k, b)

/-- A write of `data` at `off` modifies the block `k` where it is: the array it gets for one of its
chunks is the block's, is long enough not to be expanded, and is another one after. -/
def Overwrites (o : ChunkedVfsOptions) (v : ChunkedVfs) (ino off : Nat) (data : ByteArray8)
    (k : BlockKey) : Prop :=
  ∃ ci array, off / o.chunkSize ≤ ci ∧ ci ≤ (off + data.length - 1) / o.chunkSize ∧
    v.arrayOf ino ci = some (k, array) ∧
    writeEnd o.chunkSize off data.length ci ≤ array.length ∧
    v.blocks.blocks k ≠ some (chunkAfter o.chunkSize off data array ci)

/-- The turns of the chunk loop from `lo` on, `n` of them, leave the blocks of `K`. -/
def Harmless (o : ChunkedVfsOptions) (K : BlockKey → Prop) (v : ChunkedVfs) (ino off : Nat)
    (data : ByteArray8) (lo n : Nat) : Prop :=
  ∀ ci k array, lo ≤ ci → ci < lo + n → v.arrayOf ino ci = some (k, array) → K k →
    writeEnd o.chunkSize off data.length ci ≤ array.length →
    v.blocks.blocks k = some (chunkAfter o.chunkSize off data array ci)

section Write
variable {off n ci : Nat} {data : ByteArray8}

theorem arrayOf_stored (hd : (v.buffer ino).dirtyChunks.get ci = none) {k : BlockKey}
    {array : ByteArray8} : v.arrayOf ino ci = some (k, array) ↔
      v.metadata.getChunkKey ino ci = some k ∧ v.blocks.blocks k = some array := by
  rw [arrayOf, hd]
  constructor
  · intro h
    obtain ⟨k', hk', h⟩ := Option.bind_eq_some_iff.mp h
    obtain ⟨b, hb, he⟩ := Option.map_eq_some_iff.mp h
    cases he
    exact ⟨hk', hb⟩
  · rintro ⟨hk, hb⟩
    rw [hk, Option.bind_some, hb, Option.map_some]

/-- The block is one of the chunk. -/
theorem arrayOf_key (hk : KeysOk v ino) (hs : SharedOk v ino) {k : BlockKey} {array : ByteArray8}
    (h : v.arrayOf ino ci = some (k, array)) : k.ino = ino ∧ k.chunkIndex = ci := by
  cases hd : (v.buffer ino).dirtyChunks.get ci with
  | none =>
      obtain ⟨h₁, h₂, -⟩ := hk ci k ((arrayOf_stored hd).mp h).1
      exact ⟨h₁, h₂⟩
  | some chunk =>
      rw [arrayOf, hd] at h
      obtain ⟨k', hk', he⟩ := Option.map_eq_some_iff.mp h
      cases he
      exact hs ci k hk'

/-- Another chunk's turn, which left this chunk's array and block, left what follows harmless. -/
theorem Harmless.step (h : Harmless o K v ino off data ci (n + 1))
    (hother : ∀ cj k array, cj ≠ ci → v'.arrayOf ino cj = some (k, array) →
      v.arrayOf ino cj = some (k, array) ∧ v'.blocks.blocks k = v.blocks.blocks k) :
    Harmless o K v' ino off data (ci + 1) n := by
  intro cj k array hlo hhi ha hK hend
  obtain ⟨ha', hb⟩ := hother cj k array (by omega) ha
  rw [hb]
  exact h cj k array (by omega) (by omega) ha' hK hend

theorem setBytes_wp (base d : ByteArray8) (off : Nat) (v : ChunkedVfs) :
    (setBytes base d off).wp v (fun r v' => r = overlay base off d ∧ v' = v) fun _ v' => v' = v := by
  by_cases h : off + d.length ≤ base.length
  · exact wp_mono (setBytes_returns h v) (fun _ _ => id) fun _ _ => False.elim
  · rw [setBytes, setAt, if_neg h]
    exact rfl

theorem makeBlockKey_new (hver : o.versioning = true) (ino ci : Nat) (v : ChunkedVfs) :
    (makeBlockKey o ino ci).Returns v fun key v' =>
      key = ⟨ino, ci, some (o.randomId v.randomCalls)⟩ ∧
        v' = { v with randomCalls := v.randomCalls + 1 } := by
  rw [makeBlockKey, if_pos hver]
  exact ⟨rfl, rfl⟩

variable {B : InMemoryBlockStore}

/-- A chunk is stored under a new key, and maybe a block of the chunk is modified. -/
theorem stored_spared (hv : M ≤ v.randomCalls) (hk : KeysOk v ino)
    (hb : v.writeBuffers.get ino = none) {b : ByteArray8}
    (hkey : B.blocks ⟨ino, ci, some (o.randomId v.randomCalls)⟩ = some b)
    (hK : ∀ k, K k → B.blocks k = v.blocks.blocks k)
    (hother : ∀ k : BlockKey, ¬ (k.ino = ino ∧ k.chunkIndex = ci) → B.blocks k = v.blocks.blocks k)
    (h : Harmless o K v ino off data ci (n + 1)) :
    ∃ v₂ : ChunkedVfs, v₂ = { v with
        randomCalls := v.randomCalls + 1, blocks := B
        metadata := v.metadata.setChunkKey ino ci ⟨ino, ci, some (o.randomId v.randomCalls)⟩ } ∧
      Spared o K M v v₂ ∧ KeysOk v₂ ino ∧ Harmless o K v₂ ino off data (ci + 1) n := by
  have heff : ChunkEffect ino v { v with
      randomCalls := v.randomCalls + 1, blocks := B
      metadata := v.metadata.setChunkKey ino ci ⟨ino, ci, some (o.randomId v.randomCalls)⟩ } _ :=
    storeChunk_effect hk rfl rfl rfl hkey hother rfl
  refine ⟨_, rfl, ⟨Nat.le_succ _, fun j cj k hjk => ?_, hK⟩, heff.keys,
    h.step fun cj k array hcj ha => ?_⟩
  · rw [getChunkKey_setChunkKey] at hjk
    split at hjk
    · cases hjk
      exact .inr ⟨v.randomCalls, hv, Nat.lt_succ_self _, rfl⟩
    · exact .inl hjk
  · have hd : ∀ u : ChunkedVfs, u.writeBuffers = v.writeBuffers →
        (u.buffer ino).dirtyChunks.get cj = none := by
      intro u hu
      rw [buffer_none (hu.symm ▸ hb)]
      rfl
    obtain ⟨hget, hblock⟩ := (arrayOf_stored (hd _ (by rfl))).mp ha
    rw [getChunkKey_setChunkKey, if_neg fun h => hcj h.2] at hget
    obtain ⟨-, hci, -⟩ := hk cj k hget
    have hsame : B.blocks k = v.blocks.blocks k := hother k fun h => hcj (hci.symm.trans h.2)
    exact ⟨(arrayOf_stored (hd _ rfl)).mpr ⟨hget, hsame ▸ hblock⟩, hsame⟩

/-- The unbuffered chunk loop. -/
theorem pwriteChunks_spared (hold : Old o M K) (hver : o.versioning = true) (n : Nat) :
    ∀ (ci : Nat) (v : ChunkedVfs), M ≤ v.randomCalls → KeysOk v ino →
      v.writeBuffers.get ino = none → Harmless o K v ino off data ci n →
      Spared o K M v ((pwriteChunks o ino off data n ci).exec v).2 := by
  induction n with
  | zero => exact fun _ v _ _ _ _ => .refl v
  | succ n ih =>
      intro ci v hv hk hb hsafe
      have hdrawn : Spared o K M v { v with randomCalls := v.randomCalls + 1 } :=
        ⟨Nat.le_succ _, fun _ _ _ => .inl, fun _ _ => rfl⟩
      -- the rest of the loop, once the chunk is stored
      have hrest : ∀ (B : InMemoryBlockStore) (b : ByteArray8),
          B.blocks ⟨ino, ci, some (o.randomId v.randomCalls)⟩ = some b →
          (∀ k, K k → B.blocks k = v.blocks.blocks k) →
          (∀ k : BlockKey, ¬ (k.ino = ino ∧ k.chunkIndex = ci) →
            B.blocks k = v.blocks.blocks k) →
          (pwriteChunks o ino off data n (ci + 1)).wp { v with
            randomCalls := v.randomCalls + 1, blocks := B
            metadata := v.metadata.setChunkKey ino ci ⟨ino, ci, some (o.randomId v.randomCalls)⟩ }
            (fun _ v' => Spared o K M v v') fun _ v' => Spared o K M v v' := by
        intro B b hkey hK hother
        obtain ⟨v₂, hv₂, hsp, hk₂, hsafe₂⟩ := stored_spared hv hk hb hkey hK hother hsafe
        rw [← hv₂]
        have hb₂ : v₂.writeBuffers.get ino = none := by rw [hv₂]; exact hb
        exact wp_of_state (I := fun v' => Spared o K M v v')
          (hsp.trans (ih (ci + 1) v₂ (hv.trans hsp.drawn) hk₂ hb₂ hsafe₂))
      have hnew : ¬ K ⟨ino, ci, some (o.randomId v.randomCalls)⟩ := fun hK =>
        hold _ hK _ hv rfl
      refine state_of_wp (I := fun v' => Spared o K M v v') ?_
      unfold pwriteChunks
      rw [wp_bind]
      refine wp_mono (makeBlockKey_new hver ino ci v) ?_ fun _ _ => False.elim
      rintro key v₁ ⟨rfl, rfl⟩
      rw [wp_bind, wp_read]
      cases hget : v.metadata.getChunkKey ino ci with
      | none =>
          simp only [wp_bind]
          refine wp_mono (setBytes_wp _ _ _ _) ?_ fun _ _ h => h ▸ hdrawn
          rintro chunk _ ⟨-, rfl⟩
          refine hrest _ chunk (update_self ..) (fun k hK => update_of_ne ?_ _ _)
            fun k hk => update_of_ne ?_ _ _
          · rintro rfl
            exact hnew hK
          · rintro rfl
            exact hk ⟨rfl, rfl⟩
      | some key' =>
          obtain ⟨array, hblock, -⟩ := hk.chunkFn_eq hget
          obtain ⟨hi', hc', -⟩ := hk ci key' hget
          simp only [wp_bind]
          refine wp_mono (readBlock_returns hblock) ?_ fun _ _ => False.elim
          rintro b _ ⟨rfl, rfl⟩
          refine wp_mono (expandChunk_returns b _ _) ?_ fun _ _ => False.elim
          rintro e _ ⟨rfl, rfl⟩
          refine wp_mono (setBytes_wp _ _ _ _) ?_ fun _ _ h => h ▸ hdrawn
          rintro chunk _ ⟨hchunk, rfl⟩
          have hne : ∀ k : BlockKey, ¬ (k.ino = ino ∧ k.chunkIndex = ci) →
              k ≠ ⟨ino, ci, some (o.randomId v.randomCalls)⟩ ∧ k ≠ key' :=
            fun k hn => ⟨fun e => hn (e ▸ ⟨rfl, rfl⟩), fun e => hn (e ▸ ⟨hi', hc'⟩)⟩
          have hneK : ∀ k, K k → k ≠ ⟨ino, ci, some (o.randomId v.randomCalls)⟩ := fun k hK e =>
            hnew (e ▸ hK)
          split
          · rename_i hlong
            rw [if_neg hlong] at hchunk
            refine hrest _ chunk (update_self ..) (fun k hK => ?_) fun k hn => ?_
            · refine (update_of_ne (hneK k hK) _ _).trans ?_
              by_cases he : k = key'
              · -- the block holds what the write makes of it
                subst he
                have hd : (v.buffer ino).dirtyChunks.get ci = none := by
                  rw [buffer_none hb]
                  rfl
                have hsame := hsafe ci k b (Nat.le_refl _) (by omega)
                  ((arrayOf_stored hd).mpr ⟨hget, hblock⟩) hK (Nat.le_of_not_lt hlong)
                rw [hsame]
                exact (update_self ..).trans (congrArg some hchunk)
              · exact update_of_ne he _ _
            · exact (update_of_ne (hne k hn).1 _ _).trans
                (update_of_ne (hne k hn).2 _ _)
          · exact hrest _ chunk (update_self ..)
              (fun k hK => update_of_ne (hneK k hK) _ _)
              fun k hn => update_of_ne (hne k hn).1 _ _

/-- What a turn of the buffered chunk loop leaves to the next ones. -/
structure TurnEffect (o : ChunkedVfsOptions) (K : BlockKey → Prop) (M ino off : Nat)
    (data : ByteArray8) (ci n : Nat) (v v' : ChunkedVfs) : Prop where
  spared : Spared o K M v v'
  keys : KeysOk v' ino
  shared : SharedOk v' ino
  harmless : Harmless o K v' ino off data (ci + 1) n

/-- The dirty chunk is set, and maybe a block of the chunk is modified. -/
theorem dirtied_turn (hk : KeysOk v ino) (hs : SharedOk v ino)
    (h : Harmless o K v ino off data ci (n + 1)) {wb : InodeWriteBuffer}
    {chunk : ByteArray8} (hdirty : wb.dirtyChunks = (v.buffer ino).dirtyChunks.set ci chunk)
    (hshared : ∀ cj, cj ≠ ci → wb.shared.get cj = (v.buffer ino).shared.get cj)
    (hself : ∀ k, wb.shared.get ci = some k → k.ino = ino ∧ k.chunkIndex = ci)
    (hthere : ∀ k b, v.blocks.blocks k = some b → ∃ b', B.blocks k = some b')
    (hother : ∀ k : BlockKey, ¬ (k.ino = ino ∧ k.chunkIndex = ci) → B.blocks k = v.blocks.blocks k)
    (hK : ∀ k, K k → B.blocks k = v.blocks.blocks k) :
    TurnEffect o K M ino off data ci n v
      { v with blocks := B, writeBuffers := v.writeBuffers.set ino wb } := by
  have hbuf : ({ v with blocks := B, writeBuffers := v.writeBuffers.set ino wb } :
      ChunkedVfs).buffer ino = wb := buffer_some (OMap.get_set_self ..)
  have hs' : SharedOk { v with blocks := B, writeBuffers := v.writeBuffers.set ino wb } ino := by
    intro cj k hcj
    rw [hbuf] at hcj
    by_cases he : cj = ci
    · subst he
      exact hself k hcj
    · rw [hshared cj he] at hcj
      exact hs cj k hcj
  have hk' : KeysOk { v with blocks := B, writeBuffers := v.writeBuffers.set ino wb } ino := by
    intro cj k hcj
    obtain ⟨h₁, h₂, b, h₃⟩ := hk cj k hcj
    exact ⟨h₁, h₂, hthere k b h₃⟩
  refine ⟨⟨Nat.le_refl _, fun _ _ _ => .inl, hK⟩, hk', hs', h.step fun cj k array hcj ha => ?_⟩
  have hb : B.blocks k = v.blocks.blocks k :=
    hother k fun he => hcj ((arrayOf_key hk' hs' ha).2.symm.trans he.2)
  refine ⟨?_, hb⟩
  rw [arrayOf, hbuf, hdirty, OMap.get_set, if_neg hcj] at ha
  rw [arrayOf]
  cases hd : (v.buffer ino).dirtyChunks.get cj with
  | some chunk =>
      rw [hd] at ha
      dsimp only at ha ⊢
      rw [hshared cj hcj] at ha
      exact ha
  | none =>
      rw [hd] at ha
      dsimp only at ha ⊢
      obtain ⟨k', hget, ha⟩ := Option.bind_eq_some_iff.mp ha
      obtain ⟨b, hb', he⟩ := Option.map_eq_some_iff.mp ha
      cases he
      change B.blocks k = some array at hb'
      rw [hget, Option.bind_some, ← hb, hb', Option.map_some]

theorem setDirty_turn (hk : KeysOk v ino) (hs : SharedOk v ino)
    (h : Harmless o K v ino off data ci (n + 1)) {key : Option BlockKey}
    (hkey : ∀ k, key = some k → k.ino = ino ∧ k.chunkIndex = ci)
    {existing chunk : ByteArray8} {writeEnd : Nat}
    (hsame : ∀ k, key = some k → K k → writeEnd ≤ existing.length →
      v.blocks.blocks k = some chunk) :
    (setDirty ino ci key existing chunk writeEnd).Returns v fun _ v' =>
      TurnEffect o K M ino off data ci n v v' := by
  cases key with
  | none =>
      unfold setDirty
      exact dirtied_turn hk hs h rfl (fun _ _ => rfl) (hs ci) (fun _ b hb => ⟨b, hb⟩)
        (fun _ _ => rfl) fun _ _ => rfl
  | some key =>
      obtain ⟨hi, hci⟩ := hkey key rfl
      unfold setDirty
      dsimp only
      split
      · refine dirtied_turn hk hs h rfl (fun cj hcj => ?_) (fun k hck => ?_)
          (fun _ b hb => ⟨b, hb⟩) (fun _ _ => rfl) fun _ _ => rfl
        · exact (OMap.get_delete ..).trans (if_neg hcj)
        · rw [OMap.get_delete, if_pos rfl] at hck
          cases hck
      · rename_i hlong
        have hblock : ∀ k, (v.blocks.write key chunk).blocks k =
            if k = key then some chunk else v.blocks.blocks k := fun k => update_apply ..
        refine dirtied_turn (B := v.blocks.write key chunk) hk hs h rfl (fun cj hcj => ?_)
          (fun k hck => ?_) (fun k b hb => ?_) (fun k hk => ?_) fun k hK => ?_
        · exact (OMap.get_set ..).trans (if_neg hcj)
        · rw [OMap.get_set, if_pos rfl] at hck
          cases hck
          exact ⟨hi, hci⟩
        · rw [hblock]
          split
          · exact ⟨chunk, rfl⟩
          · exact ⟨b, hb⟩
        · rw [hblock, if_neg]
          rintro rfl
          exact hk ⟨hi, hci⟩
        · rw [hblock]
          split
          · rename_i he
            subst he
            exact (hsame k rfl hK (Nat.le_of_not_lt hlong)).symm
          · rfl

/-- The buffered chunk loop. -/
theorem pwriteDirty_spared (n : Nat) :
    ∀ (ci : Nat) (v : ChunkedVfs), KeysOk v ino → SharedOk v ino →
      Harmless o K v ino off data ci n →
      Spared o K M v ((pwriteDirty o ino off data n ci).exec v).2 := by
  induction n with
  | zero => exact fun _ v _ _ _ => .refl v
  | succ n ih =>
      intro ci v hk hs hsafe
      refine state_of_wp (I := fun v' => Spared o K M v v') ?_
      -- the rest of the loop, once the dirty chunk is set
      have hrest : ∀ (key : Option BlockKey) (existing chunk : ByteArray8) (writeEnd : Nat),
          (∀ k, key = some k → k.ino = ino ∧ k.chunkIndex = ci) →
          (∀ k, key = some k → K k → writeEnd ≤ existing.length →
            v.blocks.blocks k = some chunk) →
          (setDirty ino ci key existing chunk writeEnd >>= fun _ =>
            pwriteDirty o ino off data n (ci + 1)).wp v
            (fun _ v' => Spared o K M v v') fun _ v' => Spared o K M v v' := by
        intro key existing chunk writeEnd hkey hsame
        rw [wp_bind]
        refine wp_mono (setDirty_turn (M := M) hk hs hsafe hkey hsame) (fun _ v₁ h₁ => ?_)
          fun _ _ => False.elim
        exact wp_of_state (I := fun v' => Spared o K M v v')
          (h₁.spared.trans (ih (ci + 1) v₁ h₁.keys h₁.shared h₁.harmless))
      -- a chunk that is there, with the block whose array it is
      have hexisting : ∀ (key : Option BlockKey) (old : ByteArray8),
          (∀ k, key = some k → k.ino = ino ∧ k.chunkIndex = ci) →
          (∀ k, key = some k → v.arrayOf ino ci = some (k, old)) →
          (expandChunk old (writeEnd o.chunkSize off data.length ci) >>= fun chunk =>
            setBytes chunk (chunkPiece o.chunkSize off data ci)
              (max off (ci * o.chunkSize) - ci * o.chunkSize) >>= fun chunk =>
            setDirty ino ci key old chunk (writeEnd o.chunkSize off data.length ci) >>= fun _ =>
            pwriteDirty o ino off data n (ci + 1)).wp v
            (fun _ v' => Spared o K M v v') fun _ v' => Spared o K M v v' := by
        intro key old hkey harray
        rw [wp_bind]
        refine wp_mono (expandChunk_returns old _ v) ?_ fun _ _ => False.elim
        rintro _ _ ⟨rfl, rfl⟩
        rw [wp_bind]
        refine wp_mono (setBytes_wp _ _ _ _) (fun chunk v₁ h₁ => ?_) fun _ _ h => h ▸ .refl _
        obtain ⟨hchunk, rfl⟩ := h₁
        refine hrest key old chunk _ hkey fun k hkk hK hlong => ?_
        rw [hsafe ci k old (Nat.le_refl _) (by omega) (harray k hkk) hK hlong, hchunk,
          if_neg (Nat.not_lt.mpr hlong)]
        rfl
      unfold pwriteDirty
      simp only [wp_bind, wp_read]
      cases hd : (v.buffer ino).dirtyChunks.get ci with
      | some old =>
          have := hexisting ((v.buffer ino).shared.get ci) old (fun k hkk => hs ci k hkk)
            fun k hkk => by rw [arrayOf, hd]; dsimp only; rw [hkk, Option.map_some]
          simp only [wp_bind] at this ⊢
          exact this
      | none =>
          simp only [wp_bind, wp_read]
          cases hg : v.metadata.getChunkKey ino ci with
          | some key =>
              obtain ⟨hi, hci, b, hb⟩ := hk ci key hg
              simp only [wp_bind]
              refine wp_mono (readBlock_returns hb) ?_ fun _ _ => False.elim
              rintro old _ ⟨rfl, rfl⟩
              have := hexisting (some key) old (fun k hkk => by cases hkk; exact ⟨hi, hci⟩)
                fun k hkk => by cases hkk; exact (arrayOf_stored hd).mpr ⟨hg, hb⟩
              simp only [wp_bind] at this ⊢
              exact this
          | none =>
              simp only [wp_bind]
              refine wp_mono (setBytes_wp _ _ _ _) (fun chunk v₁ h₁ => ?_) fun _ _ h => h ▸ .refl _
              obtain ⟨-, rfl⟩ := h₁
              have := hrest none [] chunk (writeEnd o.chunkSize off data.length ci)
                (fun k hkk => by cases hkk) fun k hkk => by cases hkk
              simp only [wp_bind] at this ⊢
              exact this

/-- Where `pwrite` starts its chunk loop. -/
structure PwriteReady (o : ChunkedVfsOptions) (K : BlockKey → Prop) (M ino off : Nat)
    (data : ByteArray8) (v : ChunkedVfs) : Prop where
  drawn : M ≤ v.randomCalls
  keys : KeysOk v ino
  shared : SharedOk v ino
  plain : o.writeBuffering = false → v.writeBuffers.get ino = none
  harmless : Harmless o K v ino off data (off / o.chunkSize)
    ((off + data.length - 1) / o.chunkSize + 1 - off / o.chunkSize)

/-- The buffer of an inode is set to one with the same dirty chunks. -/
theorem getOrCreateBuffer_ready (h : PwriteReady o K M ino off data v) (cur : Nat) :
    (getOrCreateBuffer ino cur).Returns v fun _ v' =>
      Spared o K M v v' ∧ KeysOk v' ino ∧ SharedOk v' ino ∧
        Harmless o K v' ino off data (off / o.chunkSize)
          ((off + data.length - 1) / o.chunkSize + 1 - off / o.chunkSize) := by
  refine (getOrCreateBuffer_returns ino cur v).mono fun _ v' h' => ?_
  obtain ⟨wb, hv', -, hb, hdirty, hshared⟩ := h'
  have hbuf : v'.buffer ino = wb := buffer_some hb
  have hmeta : v'.metadata = v.metadata := by rw [hv']
  have hblocks : v'.blocks = v.blocks := by rw [hv']
  have harray : ∀ ci, v'.arrayOf ino ci = v.arrayOf ino ci := by
    intro ci
    rw [arrayOf, arrayOf, hbuf, hdirty, hshared, hmeta, hblocks]
  refine ⟨.still (by rw [hv']) hblocks fun _ _ _ hk => hmeta ▸ hk, fun ci k hk => ?_,
    fun ci k hk => ?_, fun ci k array hlo hhi ha hK hend => ?_⟩
  · rw [hmeta] at hk
    rw [hblocks]
    exact h.keys ci k hk
  · rw [hbuf, hshared] at hk
    exact h.shared ci k hk
  · rw [hblocks]
    exact h.harmless ci k array hlo hhi (harray ci ▸ ha) hK hend

theorem pwriteChunked_spared (hold : Old o M K) (hver : o.versioning = true)
    (h : PwriteReady o K M ino off data v) (cur new now : Nat) :
    Spared o K M v ((pwriteChunked o ino off data cur new now).exec v).2 := by
  have hend : Spares o K M M (updateInode ino fun i => { i with
      size := new, mtimeMs := now, ctimeMs := now }) := .updateInode
  refine state_of_wp (I := fun v' => Spared o K M v v') ?_
  unfold pwriteChunked
  dsimp only
  split
  · have hset : Spares o K M M (updateBuffer ino fun wb => { wb with bufferedSize := new }) :=
      .write (fun _ => rfl) (fun _ => rfl) fun _ _ _ _ hk => hk
    rw [wp_bind]
    refine wp_mono (getOrCreateBuffer_ready h cur) (fun _ v₁ h₁ => ?_) fun _ _ => False.elim
    obtain ⟨hsp, hk, hs, hsafe⟩ := h₁
    rw [wp_bind]
    have hloop := hsp.trans (pwriteDirty_spared (M := M) _ _ v₁ hk hs hsafe)
    refine wp_mono (wp_of_state (I := fun v' => Spared o K M v v') hloop) (fun _ v₂ h₂ => ?_)
      fun _ _ => id
    exact wp_of_state (I := fun v' => Spared o K M v v')
      (h₂.trans ((hset.bind fun _ => hend) v₂ (h.drawn.trans h₂.drawn)))
  · rename_i hwb
    rw [wp_bind]
    have hloop := pwriteChunks_spared hold hver _ _ v h.drawn h.keys
      (h.plain (Bool.eq_false_iff.mpr hwb)) h.harmless
    refine wp_mono (wp_of_state (I := fun v' => Spared o K M v v') hloop) (fun _ v₂ h₂ => ?_)
      fun _ _ => id
    exact wp_of_state (I := fun v' => Spared o K M v v')
      (h₂.trans (hend v₂ (h.drawn.trans h₂.drawn)))

theorem nokey_of_unmapped (hk : KeysOk v ino) (h : v.chunkFn ino ci = none) :
    v.metadata.getChunkKey ino ci = none := by
  cases hg : v.metadata.getChunkKey ino ci with
  | none => rfl
  | some k =>
      obtain ⟨b, -, hf⟩ := hk.chunkFn_eq hg
      rw [h] at hf
      cases hf

/-- The promotion leaves no array that `pwrite` could modify in `K`. -/
theorem pwritePromote_ready {i : InodeMeta} {c : ByteArray8} (hcs : 0 < o.chunkSize)
    (hold : Old o M K) (hver : o.versioning = true) (hM : M ≤ v.randomCalls)
    (hi : v.metadata.inodes ino = some i) (hs : Shows o v ino i c) (hm : i.storageMode = .inline)
    (cur off : Nat) (data : ByteArray8) :
    (pwritePromote o ino i cur).Returns v fun _ v' =>
      Spared o K M v v' ∧ PwriteReady o K M ino off data v' := by
  obtain ⟨h0, hb⟩ := hs.inline hm
  cases hwb : o.writeBuffering with
  | true =>
      have hsp : Spares o K M M (pwritePromote o ino i cur) := by
        unfold pwritePromote
        rw [if_pos hwb]
        refine .bind (.bind (.read _) fun buf => ?_) fun _ =>
          .bind (.write (fun _ => rfl) (fun _ => rfl) fun _ _ _ _ hk => hk) fun _ => .updateInode
        cases buf with
        | none => exact .write (fun _ => rfl) (fun _ => rfl) fun _ _ _ _ hk => hk
        | some _ => exact .pure _
      refine wp_mono (wp_and (pwritePromote_shows hcs hwb hi hs hm cur)
        (wp_of_state (I := fun v' => Spared o K M v v') (hsp v hM))) ?_ fun _ _ => And.left
      rintro _ v₁ ⟨⟨-, hk, hshared, -, -, h0₁⟩, hsp⟩
      refine ⟨hsp, hM.trans hsp.drawn, hk, (fun ci k hk => nomatch (hshared ci).symm.trans hk),
        (fun h => nomatch h.symm.trans hwb), fun ci k array _ _ ha _ _ => ?_⟩
      cases hd : (v₁.buffer ino).dirtyChunks.get ci with
      | some chunk =>
          rw [arrayOf, hd] at ha
          dsimp only at ha
          rw [hshared ci] at ha
          cases ha
      | none =>
          have hg := ((arrayOf_stored hd).mp ha).1
          rw [nokey_of_unmapped hk (h0₁ ci)] at hg
          cases hg
  | false =>
      have hpro : pwritePromote o ino i cur = promoteToChunked o ino i := by
        unfold pwritePromote
        rw [hwb]
        rfl
      rw [hpro]
      have hsp : Spared o K M v ((promoteToChunked o ino i).exec v).2 :=
        (Spares.storing hold hver).promoteToChunked i v hM
      refine wp_mono (wp_and (promoteToChunked_returns hcs hi (hs.stores hb) hm)
        (wp_of_state (I := fun v' => Spared o K M v v') hsp)) ?_ fun _ _ => And.left
      rintro _ v₁ ⟨⟨ht, hk, -, -⟩, hsp⟩
      have hb₁ : v₁.writeBuffers.get ino = none := ht.own hb
      refine ⟨hsp, hM.trans hsp.drawn, hk, sharedOk_none hb₁, fun _ => hb₁,
        fun ci k array _ _ ha hK _ => ?_⟩
      have hd : (v₁.buffer ino).dirtyChunks.get ci = none := by
        rw [buffer_none hb₁]
        rfl
      -- the chunk's key was drawn by the promotion
      rcases hsp.keys ino ci k ((arrayOf_stored hd).mp ha).1 with hold' | hnew
      · rw [nokey_of_unmapped hs.keys (h0 ci)] at hold'
        cases hold'
      · exact absurd hK (hold.not_mem hnew (Nat.le_refl M))

theorem pwrite_spared (hcs : 0 < o.chunkSize) (hold : Old o M K) (hver : o.versioning = true)
    (hM : M ≤ v.randomCalls) (h : VfsOk o v) {path : String}
    (hsafe : ∀ ino i, v.metadata.resolvePath (normalizePath path) = .ok ino →
      v.metadata.inodes ino = some i → i.type = .file →
      ∀ k, K k → ¬ Overwrites o v ino off data k) :
    Spared o K M v ((pwrite o path off data).exec v).2 := by
  refine state_of_wp (I := fun v' => Spared o K M v v') ?_
  unfold pwrite
  rw [wp_bind]
  refine wp_resolveIno (fun ino hr => ?_) fun _ => .refl v
  split
  · exact .refl v
  rename_i hd
  rw [wp_bind]
  refine wp_requireInode (fun i hi => ?_) fun _ => .refl v
  by_cases hdir : i.type = .directory
  · simp only [if_pos hdir]
    exact .refl v
  simp only [if_neg hdir]
  have hfile : i.type = .file := by
    have := resolve_type h.ns.toNsShape _ _ hr hi
    cases hty : i.type with
    | file => rfl
    | directory => exact absurd hty hdir
    | symlink => exact absurd hty this
  obtain ⟨c, hs⟩ := h.content.files ino i hi hfile
  have hready : ∀ n, PwriteReady o K M ino off data { v with clockCalls := n } := by
    refine fun n => ⟨hM, hs.keys, hs.shared, fun hp => h.content.plain hp ino,
      fun ci k array hlo hhi ha hK hend => ?_⟩
    have hno := hsafe ino i hr hi hfile k hK
    refine Classical.byContradiction fun hne => hno ⟨ci, array, hlo, ?_, ha, hend, hne⟩
    omega
  rw [wp_bind, wp_read, wp_bind]
  refine wp_mono (dateNow_returns o v) ?_ fun _ _ => False.elim
  rintro now v₁ ⟨n, rfl⟩
  have hclock : Spared o K M v { v with clockCalls := n } := .still rfl rfl fun _ _ _ => id
  cases hm : i.storageMode with
  | chunked =>
      exact wp_of_state (I := fun v' => Spared o K M v v')
        (hclock.trans (pwriteChunked_spared hold hver (hready n) _ _ _))
  | inline =>
      dsimp only
      split
      · have hin : ∀ size, Spares o K M M (do
            let content ← setBytes (zeros size) (i.inlineContent.getD []) 0
            let content ← setBytes content data off
            updateInode ino fun i => { i with
              inlineContent := some content, size := size, mtimeMs := now, ctimeMs := now }) :=
          fun size => .bind (.of_within (Async.within_setBytes _ _ _)) fun _ =>
            .bind (.of_within (Async.within_setBytes _ _ _)) fun _ => .updateInode
        exact wp_of_state (I := fun v' => Spared o K M v v')
          (hclock.trans (hin _ { v with clockCalls := n } hM))
      · rw [wp_bind]
        have hs₁ : Shows o { v with clockCalls := n } ino i c :=
          ⟨⟨hs.keys, hs.shared, hs.inline, hs.sized⟩, hs.size, hs.inlined, hs.chunked, hs.fits⟩
        refine wp_mono (pwritePromote_ready hcs hold hver (v := { v with clockCalls := n }) hM hi hs₁
          hm _ off data) (fun _ v₂ h₂ => ?_) fun _ _ => False.elim
        exact wp_of_state (I := fun v' => Spared o K M v v')
          ((hclock.trans h₂.1).trans (pwriteChunked_spared hold hver h₂.2 _ _ _))

end Write

end SecureExec.Vfs
