import SecureExec.Vfs.Buffers
import SecureExec.Vfs.Tree

/-!
# Vfs — Content — what holds of the contents, whatever happens to the names

`ContentOk o v`: every inode's chunks and buffer are its own, an inode that was never made has
neither, and every regular file has a content.  A change of the metadata that leaves the storage
keeps it (`ContentOk.metadata`), and so does a change of one inode that leaves that inode in order
(`ContentOk.apart`).

`VfsOk o v` adds what holds of the names (`NsOk`).  `Does o tidy v v'` is what an operation is
allowed to do: a run of changes of the namespace that ends in order.
-/

namespace SecureExec.Vfs
open SecureExec Bytes Prog ChunkedVfs InMemoryMetadataStore

variable {o : ChunkedVfsOptions} {v v' v₁ : ChunkedVfs} {ino : Nat} {i : InodeMeta}
  {c : ByteArray8} {m m' : InMemoryMetadataStore} {tidy : Prop}

/-- What holds of the contents. -/
structure ContentOk (o : ChunkedVfsOptions) (v : ChunkedVfs) : Prop where
  keys : ∀ ino, KeysOk v ino
  shared : ∀ ino, SharedOk v ino
  fresh : ∀ ino, v.metadata.nextIno ≤ ino →
    v.metadata.chunks ino = none ∧ v.writeBuffers.get ino = none
  plain : o.writeBuffering = false → NoBuffers v
  kept : ∀ ino i, v.metadata.inodes ino = some i → Kept v ino i
  files : ∀ ino i, v.metadata.inodes ino = some i → i.type = .file → ∃ c, Shows o v ino i c

/-- Nothing but the inode `ino`, its storage and its buffer differs, names apart. -/
structure Apart (ino : Nat) (v v' : ChunkedVfs) : Prop where
  nextIno : v'.metadata.nextIno = v.metadata.nextIno
  inodes : ∀ j, j ≠ ino → v'.metadata.inodes j = v.metadata.inodes j
  chunks : ∀ j, j ≠ ino → v'.metadata.chunks j = v.metadata.chunks j
  blocks : ∀ k : BlockKey, k.ino ≠ ino → v'.blocks.blocks k = v.blocks.blocks k
  others : ∀ j, j ≠ ino → v'.writeBuffers.get j = v.writeBuffers.get j

theorem Elsewhere.apart (h : Elsewhere ino v v') : Apart ino v v' :=
  ⟨h.nextIno, h.inodes, h.chunks, h.blocks, h.others⟩

theorem Apart.trans (h : Apart ino v v₁) (h' : Apart ino v₁ v') : Apart ino v v' :=
  ⟨h'.nextIno.trans h.nextIno, fun j hj => (h'.inodes j hj).trans (h.inodes j hj),
    fun j hj => (h'.chunks j hj).trans (h.chunks j hj),
    fun k hk => (h'.blocks k hk).trans (h.blocks k hk),
    fun j hj => (h'.others j hj).trans (h.others j hj)⟩

/-- What an update of an inode leaves: its type and its storage. -/
structure SameStorage (i i' : InodeMeta) : Prop where
  type : i'.type = i.type
  mode : i'.storageMode = i.storageMode
  inlined : i'.inlineContent = i.inlineContent
  size : i'.size = i.size

/-! ### The storage of an inode is looked at through its chunks and its buffer -/

section Look
variable {j : Nat} (hch : v'.metadata.chunks j = v.metadata.chunks j)
  (hbl : ∀ k : BlockKey, k.ino = j → v'.blocks.blocks k = v.blocks.blocks k)
  (hbuf : v'.writeBuffers.get j = v.writeBuffers.get j)
include hch hbl

theorem KeysOk.look (h : KeysOk v j) : KeysOk v' j := by
  intro ci k hk
  rw [getChunkKey, hch] at hk
  obtain ⟨h₁, h₂, b, h₃⟩ := h ci k hk
  exact ⟨h₁, h₂, b, (hbl k h₁).trans h₃⟩

theorem chunkFn_look (h : KeysOk v j) : v'.chunkFn j = v.chunkFn j := by
  funext ci
  rw [chunkFn, chunkFn, getChunkKey, hch,
    ← getChunkKey]
  cases hk : v.metadata.getChunkKey j ci with
  | none => rfl
  | some k => exact hbl k (h ci k hk).1

include hbuf

theorem viewFn_look (h : KeysOk v j) : v'.viewFn j = v.viewFn j := by
  funext ci
  rw [viewFn, viewFn, chunkFn_look hch hbl h, buffer, hbuf,
    ← buffer]

theorem Kept.look {i' : InodeMeta} (h : Kept v j i) (hs : SameStorage i i') : Kept v' j i' := by
  have hstore := chunkFn_look hch hbl h.keys
  refine ⟨h.keys.look hch hbl, fun ci k hk => ?_, fun hm => ⟨fun ci => ?_, ?_⟩, fun buf hb => ?_⟩
  · rw [buffer, hbuf, ← buffer] at hk
    exact h.shared ci k hk
  · rw [hstore, (h.inline (hs.mode ▸ hm)).1]
  · rw [hbuf, (h.inline (hs.mode ▸ hm)).2]
  · rw [hs.size]
    exact h.sized buf (hbuf ▸ hb)

theorem Shows.look {i' : InodeMeta} (h : Shows o v j i c) (hs : SameStorage i i') :
    Shows o v' j i' c := by
  refine ⟨h.toKept.look hch hbl hbuf hs, hs.size.trans h.size, fun hm => ?_, fun hm => ?_, ?_⟩
  · rw [hs.inlined]
    exact h.inlined (hs.mode ▸ hm)
  · rw [viewFn_look hch hbl hbuf h.keys]
    exact h.chunked (hs.mode ▸ hm)
  · rw [chunkFn_look hch hbl h.keys]
    exact h.fits

end Look

namespace SameStorage

theorem refl (i : InodeMeta) : SameStorage i i := ⟨rfl, rfl, rfl, rfl⟩

theorem trans {i' i'' : InodeMeta} (h : SameStorage i i') (h' : SameStorage i' i'') :
    SameStorage i i'' :=
  ⟨h'.type.trans h.type, h'.mode.trans h.mode, h'.inlined.trans h.inlined, h'.size.trans h.size⟩

end SameStorage

/-- The inode `j`, its storage and its buffer stay, but for its times, its owner and its links. -/
structure Leaves (j : Nat) (v v' : ChunkedVfs) : Prop where
  inode : ∀ i, v.metadata.inodes j = some i → ∃ i', v'.metadata.inodes j = some i' ∧ SameStorage i i'
  chunks : v'.metadata.chunks j = v.metadata.chunks j
  blocks : ∀ k : BlockKey, k.ino = j → v'.blocks.blocks k = v.blocks.blocks k
  buffer : v'.writeBuffers.get j = v.writeBuffers.get j

namespace Leaves

variable {j : Nat}

theorem refl (j : Nat) (v : ChunkedVfs) : Leaves j v v :=
  ⟨fun i hi => ⟨i, hi, .refl i⟩, rfl, fun _ _ => rfl, rfl⟩

theorem trans (h : Leaves j v v₁) (h' : Leaves j v₁ v') : Leaves j v v' := by
  refine ⟨fun i hi => ?_, h'.chunks.trans h.chunks, fun k hk => (h'.blocks k hk).trans (h.blocks k hk),
    h'.buffer.trans h.buffer⟩
  obtain ⟨i₁, hi₁, hs₁⟩ := h.inode i hi
  obtain ⟨i', hi', hs'⟩ := h'.inode i₁ hi₁
  exact ⟨i', hi', hs₁.trans hs'⟩

/-- What a reader of the inode saw, it sees. -/
theorem shows (h : Leaves j v v') {i' : InodeMeta} (hs : Shows o v j i c) (hi : SameStorage i i') :
    Shows o v' j i' c :=
  hs.look h.chunks h.blocks h.buffer hi

end Leaves

/-- What was there stays. -/
structure LeavesOld (v v' : ChunkedVfs) : Prop where
  nextIno : v.metadata.nextIno ≤ v'.metadata.nextIno
  old : ∀ j, j < v.metadata.nextIno → Leaves j v v'
  grows : v.metadata.ns.Grows v'.metadata.ns

namespace LeavesOld

theorem refl (v : ChunkedVfs) : LeavesOld v v := ⟨Nat.le_refl _, fun j _ => .refl j v, .refl _⟩

theorem trans (h : LeavesOld v v₁) (h' : LeavesOld v₁ v') : LeavesOld v v' :=
  ⟨h.nextIno.trans h'.nextIno, fun j hj =>
    (h.old j hj).trans (h'.old j (Nat.lt_of_lt_of_le hj h.nextIno)), h.grows.trans h'.grows⟩

end LeavesOld

theorem Elsewhere.leaves (h : Elsewhere ino v v') {j : Nat} (hj : j ≠ ino) : Leaves j v v' :=
  ⟨fun i hi => ⟨i, (h.inodes j hj).trans hi, .refl i⟩, h.chunks j hj,
    fun k hk => h.blocks k (hk ▸ hj), h.others j hj⟩

/-! ### Two rules -/

namespace ContentOk

variable (h : ContentOk o v)
include h

/-- The metadata changes, and the storage does not; a new inode is empty. -/
theorem metadata (hch : v'.metadata.chunks = v.metadata.chunks)
    (hbl : v'.blocks = v.blocks) (hbuf : v'.writeBuffers = v.writeBuffers)
    (hn : v.metadata.nextIno ≤ v'.metadata.nextIno)
    (hin : ∀ j i', v'.metadata.inodes j = some i' →
      (∃ i, v.metadata.inodes j = some i ∧ SameStorage i i') ∨
        (v.metadata.nextIno ≤ j ∧ i'.storageMode = .inline ∧
          (i'.type = .file → i'.size = (i'.inlineContent.getD []).length))) :
    ContentOk o v' := by
  have hch' : ∀ j, v'.metadata.chunks j = v.metadata.chunks j := fun j => congrFun hch j
  have hbl' : ∀ (j : Nat) (k : BlockKey), k.ino = j → v'.blocks.blocks k = v.blocks.blocks k :=
    fun j k _ => by rw [hbl]
  have hbuf' : ∀ j, v'.writeBuffers.get j = v.writeBuffers.get j := fun j => by rw [hbuf]
  have hkeys : ∀ j, KeysOk v' j := fun j => (h.keys j).look (hch' j) (hbl' j)
  have hshared : ∀ j, SharedOk v' j := fun j ci k hck => by
    rw [buffer, hbuf', ← buffer] at hck
    exact h.shared j ci k hck
  have hnew : ∀ j, v.metadata.nextIno ≤ j →
      (∀ ci, v'.chunkFn j ci = none) ∧ v'.writeBuffers.get j = none := by
    intro j hj
    obtain ⟨h₁, h₂⟩ := h.fresh j hj
    refine ⟨fun ci => ?_, (hbuf' j).trans h₂⟩
    rw [chunkFn, getChunkKey, hch', h₁]
    rfl
  have hkept : ∀ j i', v'.metadata.inodes j = some i' → Kept v' j i' := by
    intro j i' hi'
    rcases hin j i' hi' with ⟨i, hi, hs⟩ | ⟨hj, hm, -⟩
    · exact (h.kept j i hi).look (hch' j) (hbl' j) (hbuf' j) hs
    · refine ⟨hkeys j, hshared j, fun _ => hnew j hj, fun buf hb => ?_⟩
      rw [(hnew j hj).2] at hb
      cases hb
  refine ⟨hkeys, hshared, fun j hj => ?_, fun hp j => (hbuf' j).trans (h.plain hp j), hkept,
    fun j i' hi' hf => ?_⟩
  · obtain ⟨h₁, h₂⟩ := h.fresh j (Nat.le_trans hn hj)
    exact ⟨(hch' j).trans h₁, (hbuf' j).trans h₂⟩
  · rcases hin j i' hi' with ⟨i, hi, hs⟩ | ⟨hj, hm, hsz⟩
    · obtain ⟨c, hc⟩ := h.files j i hi (hs.type ▸ hf)
      exact ⟨c, hc.look (hch' j) (hbl' j) (hbuf' j) hs⟩
    · refine ⟨i'.inlineContent.getD [], ⟨hkept j i' hi', hsz hf, fun _ => rfl, fun hm' => ?_,
        fun ci b hb => ?_⟩⟩
      · rw [hm] at hm'
        cases hm'
      · rw [(hnew j hj).1] at hb
        cases hb

/-- One inode changes. -/
theorem apart (ha : Apart ino v v') (hlt : ino < v.metadata.nextIno)
    (hk : KeysOk v' ino) (hs : SharedOk v' ino)
    (hplain : o.writeBuffering = false → v'.writeBuffers.get ino = none)
    (hin : ∀ i, v'.metadata.inodes ino = some i →
      Kept v' ino i ∧ (i.type = .file → ∃ c, Shows o v' ino i c)) : ContentOk o v' := by
  have hbl : ∀ {j}, j ≠ ino → ∀ k : BlockKey, k.ino = j → v'.blocks.blocks k = v.blocks.blocks k :=
    fun hj k hkj => ha.blocks k (hkj ▸ hj)
  refine ⟨fun j => ?_, fun j => ?_, fun j hj => ?_, fun hp j => ?_, fun j i hi => ?_,
    fun j i hi hf => ?_⟩
  · by_cases hj : j = ino
    · exact hj ▸ hk
    · exact (h.keys j).look (ha.chunks j hj) (hbl hj)
  · by_cases hj : j = ino
    · exact hj ▸ hs
    · intro ci k hck
      rw [buffer, ha.others j hj, ← buffer] at hck
      exact h.shared j ci k hck
  · rw [ha.nextIno] at hj
    have hne : j ≠ ino := Nat.ne_of_gt (Nat.lt_of_lt_of_le hlt hj)
    rw [ha.chunks j hne, ha.others j hne]
    exact h.fresh j hj
  · by_cases hj : j = ino
    · exact hj ▸ hplain hp
    · exact (ha.others j hj).trans (h.plain hp j)
  · by_cases hj : j = ino
    · subst hj
      exact (hin i hi).1
    · rw [ha.inodes j hj] at hi
      exact (h.kept j i hi).look (ha.chunks j hj) (hbl hj) (ha.others j hj) (.refl i)
  · by_cases hj : j = ino
    · subst hj
      exact (hin i hi).2 hf
    · rw [ha.inodes j hj] at hi
      obtain ⟨c, hc⟩ := h.files j i hi hf
      exact ⟨c, hc.look (ha.chunks j hj) (hbl hj) (ha.others j hj) (.refl i)⟩

/-- An operation on the content of one inode. -/
theorem shown (he : Elsewhere ino v v') (hlt : ino < v.metadata.nextIno)
    (hplain : o.writeBuffering = false → v'.writeBuffers.get ino = none) {t : InodeType}
    (hs : Shown o v' ino t c) : ContentOk o v' := by
  obtain ⟨i, hi, -, hs⟩ := hs
  refine h.apart he.apart hlt hs.keys hs.shared hplain fun i' hi' => ?_
  rw [hi] at hi'
  cases hi'
  exact ⟨hs.toKept, fun _ => ⟨c, hs⟩⟩

/-- The clock and the random ids. -/
theorem counters (r n : Nat) :
    ContentOk o { v with randomCalls := r, clockCalls := n } :=
  h.metadata rfl rfl rfl (Nat.le_refl _) fun _ i hi => .inl ⟨i, hi, .refl i⟩

end ContentOk

/-! ### The whole state -/

/-- What holds of every state. -/
structure VfsOk (o : ChunkedVfsOptions) (v : ChunkedVfs) : Prop where
  ns : NsOk v.metadata.ns
  content : ContentOk o v

/-- What an operation does: a run of changes of the namespace that ends in order. -/
structure Does (o : ChunkedVfsOptions) (tidy : Prop) (v v' : ChunkedVfs) : Prop where
  ok : VfsOk o v'
  run : NsRun tidy v.metadata.ns v'.metadata.ns

namespace Does

variable (h : VfsOk o v)
include h

theorem refl : Does o tidy v v := ⟨h, .refl⟩

omit h in
theorem trans (h₁ : Does o tidy v v₁) (h₂ : Does o tidy v₁ v') : Does o tidy v v' :=
  ⟨h₂.ok, h₁.run.trans h₂.run⟩

/-- One change of the namespace. -/
theorem step (hs : NsStep tidy v.metadata.ns v'.metadata.ns)
    (hc : ContentOk o v') : Does o tidy v v' :=
  ⟨⟨hs.ok h.ns, hc⟩, .single hs⟩

/-- The namespace stays. -/
theorem same (hns : v'.metadata.ns = v.metadata.ns) (hc : ContentOk o v') :
    Does o tidy v v' :=
  ⟨⟨hns ▸ h.ns, hc⟩, hns ▸ .refl⟩

theorem counters (r n : Nat) :
    Does o tidy v { v with randomCalls := r, clockCalls := n } :=
  same h rfl (h.content.counters r n)

end Does

theorem inodes_new {now : Nat} (hi : (createChunkedVfs now).metadata.inodes ino = some i) :
    i.storageMode = .inline ∧ i.type = .directory := by
  simp only [createChunkedVfs, new] at hi
  rcases PartialMap.set_eq_some.mp hi with ⟨-, rfl⟩ | ⟨-, hn⟩
  · exact ⟨rfl, rfl⟩
  · cases hn

theorem vfsOk_new (o : ChunkedVfsOptions) (now : Nat) : VfsOk o (createChunkedVfs now) := by
  have hkeys : ∀ ino, KeysOk (createChunkedVfs now) ino := by
    intro ino ci k hk
    cases hk
  have hshared : ∀ ino, SharedOk (createChunkedVfs now) ino := fun ino => sharedOk_none rfl
  refine ⟨(ns_new now).symm ▸ Ns.ok_new, hkeys, hshared,
    fun ino _ => ⟨rfl, rfl⟩, fun _ ino => rfl, fun ino i hi => ?_, fun ino i hi hf => ?_⟩
  · refine ⟨hkeys ino, hshared ino, fun _ => ⟨fun ci => rfl, rfl⟩, fun buf hb => ?_⟩
    cases hb
  · rw [(inodes_new hi).2] at hf
    cases hf

end SecureExec.Vfs
