import SecureExec.Vfs.Async
import SecureExec.Vfs.Tree
import SecureExec.Vfs.FileOps

/-!
# Vfs — Frames — the operations by their steps

What reads, and the steps that store content, may have a property that is closed under sequence
(`Storing`).  Then writing, cutting and flushing the content of an inode have it.

`LeavesNs`: these change no name, no type and no link count, whatever the state and whether the
operation returns or throws; nor does `pwrite`, which may modify a stored chunk where it is.
-/

namespace SecureExec.Vfs
open SecureExec Bytes Prog Async

variable {o : ChunkedVfsOptions} {ino : Nat} {α β : Type}

/-! ### Reading -/

theorem within_requireInode (ino : Nat) : Within Eq (requireInode ino) := by
  refine .bind (.read _) fun i => ?_
  cases i with
  | none => exact .throw _
  | some i => exact .pure _

theorem within_resolveIno (path : String) : Within Eq (resolveIno path) :=
  .bind (.read _) fun _ => .lift _

theorem within_requireFileIno (path : String) : Within Eq (requireFileIno path) :=
  .bind (within_resolveIno path) fun _ => .bind (within_requireInode _) fun _ =>
    .ite (.throw _) (.pure _)

theorem within_setChunks (chunkSize : Nat) (l : List (Nat × ByteArray8)) :
    ∀ r, Within Eq (setChunks chunkSize l r) := by
  induction l with
  | nil => exact fun _ => .pure _
  | cons e l ih => exact fun r => .bind (within_setBytes _ _ _) ih

theorem within_readInodeContent (ino : Nat) (i : InodeMeta) :
    Within Eq (readInodeContent o ino i) := by
  refine .bind (.read _) fun buf => .ite (.pure _) ?_
  cases i.storageMode with
  | inline =>
      cases buf with
      | none => exact .pure _
      | some buf => exact .bind (within_setBytes _ _ _) fun _ => within_setChunks _ _ _
  | chunked =>
      exact .bind (.read _) fun _ => .bind (within_setEntries _ _ _ _) fun _ =>
        within_setChunks _ _ _

/-! ### Storing -/

/-- A property that programs have which read, and the steps which store content: also those that
change the clock or a write buffer, and those that change no type or link count of an inode. -/
structure Storing (o : ChunkedVfsOptions) (P : {α : Type} → VfsProg α → Prop) : Prop where
  within {α : Type} {p : VfsProg α} : Within Eq p → P p
  bind {α β : Type} {p : VfsProg α} {f : α → VfsProg β} : P p → (∀ a, P (f a)) → P (p >>= f)
  write {f : ChunkedVfs → ChunkedVfs} : (∀ v, (f v).metadata = v.metadata ∧ (f v).blocks = v.blocks ∧
    (f v).randomCalls = v.randomCalls) → P (update f)
  updateInode {ino : Nat} {g : InodeMeta → InodeMeta} :
    (∀ i, (g i).type = i.type ∧ (g i).nlink = i.nlink) → P (updateInode ino g)
  store {ino ci : Nat} {b : ByteArray8} {q : VfsProg PUnit} : P q →
    P (makeBlockKey o ino ci >>= fun key => writeBlock key b >>= fun _ =>
      updateMetadata (·.setChunkKey ino ci key) >>= fun _ => q)
  dropAllChunks (ino : Nat) : P (dropAllChunks o ino)
  dropChunksFrom (ino start : Nat) : P (dropChunksFrom o ino start)

namespace Storing

variable {P : {α : Type} → VfsProg α → Prop}

theorem ite {c : Prop} [Decidable c] {p q : VfsProg α} (hp : P p) (hq : P q) :
    P (if c then p else q) := by
  split
  · exact hp
  · exact hq

variable (hP : Storing o P)
include hP

theorem pure (a : α) : P (Pure.pure a : VfsProg α) := hP.within (.pure a)

theorem read (f : ChunkedVfs → α) : P (Prog.read f : VfsProg α) := hP.within (.read f)

theorem dateNow : P (dateNow o) :=
  hP.bind (hP.read _) fun _ => hP.bind (hP.write fun _ => ⟨rfl, rfl, rfl⟩) fun _ => hP.pure _

theorem readFile (path : String) : P (readFile o path) :=
  hP.bind (hP.within (within_requireFileIno path)) fun _ => hP.bind hP.dateNow fun _ =>
    hP.bind (hP.updateInode fun _ => ⟨rfl, rfl⟩) fun _ => hP.within (within_readInodeContent _ _)

variable (content : ByteArray8)

theorem writeChunks (n : Nat) : ∀ i, P (writeChunks o ino content n i) := by
  induction n with
  | zero => exact fun _ => hP.pure _
  | succ n ih => exact fun i => hP.store (ih (i + 1))

variable (i : InodeMeta)

theorem writeInodeContent :
    P (writeInodeContent o ino content i) := by
  refine hP.bind hP.dateNow fun now => ?_
  have hrest : P (if content.length ≤ o.inlineThreshold then
      Vfs.updateInode ino fun i => { i with
        storageMode := .inline, inlineContent := some content, size := content.length,
        mtimeMs := now, ctimeMs := now }
    else do
      Vfs.writeChunks o ino content (numChunks content.length o.chunkSize) 0
      Vfs.updateInode ino fun i => { i with
        storageMode := .chunked, inlineContent := none, size := content.length,
        mtimeMs := now, ctimeMs := now }) :=
    ite (hP.updateInode fun _ => ⟨rfl, rfl⟩)
      (hP.bind (hP.writeChunks _ _ _) fun _ => hP.updateInode fun _ => ⟨rfl, rfl⟩)
  exact ite (hP.bind (hP.dropAllChunks _) fun _ => hrest) hrest

theorem promoteToChunked : P (promoteToChunked o ino i) := by
  have hrest : P (Vfs.updateInode ino fun i =>
      { i with storageMode := .chunked, inlineContent := none }) := hP.updateInode fun _ => ⟨rfl, rfl⟩
  exact ite (hP.bind (hP.writeChunks _ _ _) fun _ => hrest) hrest

theorem demoteToInline : P (demoteToInline o ino content) :=
  hP.bind (hP.dropAllChunks _) fun _ => hP.updateInode fun _ => ⟨rfl, rfl⟩

theorem flushChunks (l : List (Nat × ByteArray8)) : P (flushChunks o ino l) := by
  induction l with
  | nil => exact hP.pure _
  | cons e l ih => exact hP.store ih

theorem flushInode : P (flushInode o ino) := by
  refine hP.bind (hP.read _) fun buf => ?_
  cases buf with
  | none => exact hP.pure _
  | some buf =>
      exact ite (hP.pure _) (hP.bind (hP.flushChunks _) fun _ => hP.write fun _ => ⟨rfl, rfl, rfl⟩)

theorem flushEach (l : List Nat) : P (Async.flushEach o l).run := by
  induction l with
  | nil => exact hP.pure _
  | cons ino l ih =>
      simp only [Async.flushEach, Coro.run_bind, Coro.run_withLock, Async.run_flushInode]
      exact hP.bind hP.flushInode fun _ => ih

theorem truncateLastChunk (ci n : Nat) : P (truncateLastChunk o ino ci n) := by
  refine hP.bind (hP.read _) fun key => ?_
  cases key with
  | none => exact hP.pure _
  | some key =>
      refine hP.bind (hP.within (within_readBlock _)) fun existing => ite ?_ (hP.pure _)
      have hstore : P (makeBlockKey o ino ci >>= fun key =>
          writeBlock key (slice existing 0 n) >>= fun _ =>
            updateMetadata (·.setChunkKey ino ci key) >>= fun _ => Pure.pure PUnit.unit) :=
        hP.store (hP.pure _)
      simpa only [bind_pure_unit] using hstore

theorem truncateChunked (length now : Nat) : P (truncateChunked o ino length now) := by
  have hsize : P (Vfs.updateInode ino fun i =>
      { i with size := length, mtimeMs := now, ctimeMs := now }) :=
    hP.updateInode fun _ => ⟨rfl, rfl⟩
  refine hP.bind (hP.dropChunksFrom _ _) fun _ => ?_
  have hrest : P (if length ≤ o.inlineThreshold then do
        let chunkEntries ← Prog.read (·.metadata.getAllChunkKeys ino)
        let content ← Vfs.setEntries o.chunkSize none chunkEntries (zeros length)
        Vfs.demoteToInline o ino content
        Vfs.updateInode ino fun i => { i with size := length, mtimeMs := now, ctimeMs := now }
      else Vfs.updateInode ino fun i =>
        { i with size := length, mtimeMs := now, ctimeMs := now }) := by
    refine ite ?_ hsize
    exact hP.bind (hP.read _) fun _ => hP.bind (hP.within (within_setEntries _ _ _ _)) fun _ =>
      hP.bind (hP.demoteToInline _) fun _ => hsize
  exact ite (hP.bind (hP.truncateLastChunk _ _) fun _ => hrest) hrest

theorem resizeStored (length cur now : Nat) :
    P (resizeStored o ino i length cur now) := by
  have hset : ∀ g : InodeMeta → InodeMeta, (∀ i, (g i).type = i.type ∧ (g i).nlink = i.nlink) →
      P (Vfs.updateInode ino g) := fun _ => hP.updateInode
  refine ite ?_ ?_
  · cases i.storageMode with
    | inline => exact hset _ fun _ => ⟨rfl, rfl⟩
    | chunked =>
        exact ite (hP.bind (hP.dropAllChunks _) fun _ => hset _ fun _ => ⟨rfl, rfl⟩)
          (hP.truncateChunked _ _)
  · cases i.storageMode with
    | inline =>
        exact ite (hP.bind (hP.within (within_setBytes _ _ _)) fun _ =>
          hset _ fun _ => ⟨rfl, rfl⟩) (hP.bind (hP.promoteToChunked _) fun _ => hset _ fun _ => ⟨rfl, rfl⟩)
    | chunked => exact hset _ fun _ => ⟨rfl, rfl⟩

theorem truncate (path : String) (length : Nat) : P (truncate o path length) := by
  have hdrop : ∀ ino, P (update fun v : ChunkedVfs =>
      { v with writeBuffers := v.writeBuffers.delete ino }) := fun _ => hP.write fun _ => ⟨rfl, rfl, rfl⟩
  refine hP.bind (hP.within (within_resolveIno path)) fun ino =>
    hP.bind (hP.within (within_requireInode ino)) fun i => ite (hP.within (.throw _)) ?_
  refine hP.bind (hP.read _) fun buf => ite (hP.pure _) (hP.bind hP.dateNow fun now => ite ?_ ?_)
  · exact hP.bind hP.flushInode fun _ => hP.bind (hdrop _) fun _ => hP.resizeStored _ _ _ _
  · exact hP.bind (hdrop _) fun _ => hP.resizeStored _ _ _ _

end Storing

/-! ### Names -/

/-- The namespace stays. -/
def SameNs (v v' : ChunkedVfs) : Prop := v'.metadata.ns = v.metadata.ns

/-- The program leaves the namespace. -/
abbrev LeavesNs (p : VfsProg α) : Prop := Within SameNs p

theorem LeavesNs.ns {p : VfsProg α} (h : LeavesNs p) (v : ChunkedVfs) :
    (p.exec v).2.metadata.ns = v.metadata.ns := by
  have hs := h v
  generalize (p.exec v).2 = v' at hs
  induction hs with
  | refl => rfl
  | tail _ hstep ih => exact hstep.trans ih

theorem LeavesNs.state {p : VfsProg α} (h : LeavesNs p) (v : ChunkedVfs) :
    p.wp v (fun _ v' => v'.metadata.ns = v.metadata.ns) fun _ v' => v'.metadata.ns = v.metadata.ns := by
  have hns := h.ns v
  unfold Prog.wp
  rcases hr : p.exec v with ⟨_ | _, v'⟩ <;> rw [hr] at hns <;> exact hns

namespace LeavesNs

theorem write {f : ChunkedVfs → ChunkedVfs} (h : ∀ v, (f v).metadata.ns = v.metadata.ns) :
    LeavesNs (update f) :=
  .update fun v => .single (h v)

theorem updateInode {g : InodeMeta → InodeMeta}
    (hg : ∀ i, (g i).type = i.type ∧ (g i).nlink = i.nlink) : LeavesNs (updateInode ino g) :=
  write fun _ => ns_updateInode_same fun i _ => hg i

theorem updateMetadata {f : InMemoryMetadataStore → InMemoryMetadataStore}
    (h : ∀ m, (f m).ns = m.ns) : LeavesNs (updateMetadata f) :=
  write fun v => h v.metadata

theorem within {p : VfsProg α} (hp : Within Eq p) : LeavesNs p := by
  intro v
  rw [hp.state_eq v]

theorem makeBlockKey (ci : Nat) : LeavesNs (makeBlockKey o ino ci) :=
  .ite (.bind (.read _) fun _ => .bind (write fun _ => rfl) fun _ => .pure _) (.pure _)

theorem storing : Storing o LeavesNs where
  within := within
  bind := .bind
  write h := write fun v => by rw [(h v).1]
  updateInode := updateInode
  store hq := .bind (makeBlockKey _) fun _ => .bind (write fun _ => rfl) fun _ =>
    .bind (updateMetadata fun _ => rfl) fun _ => hq
  dropAllChunks ino := .bind (.read _) fun _ => .bind (updateMetadata fun m => by
    unfold InMemoryMetadataStore.deleteAllChunks
    split <;> rfl) fun _ => .ite (write fun _ => rfl) (.pure _)
  dropChunksFrom ino start := .bind (.read _) fun _ => .bind (updateMetadata fun m => by
    unfold InMemoryMetadataStore.deleteChunksFrom
    split <;> rfl) fun _ => .ite (write fun _ => rfl) (.pure _)

theorem readBlock (key : BlockKey) : LeavesNs (readBlock key) := within (within_readBlock key)

theorem setBytes (base data : ByteArray8) (off : Nat) : LeavesNs (setBytes base data off) :=
  within (within_setBytes base data off)

theorem expandChunk (chunk : ByteArray8) (n : Nat) : LeavesNs (expandChunk chunk n) :=
  .ite (setBytes _ _ _) (.pure _)

variable (offset : Nat) (data : ByteArray8)

theorem pwriteChunks (n : Nat) :
    ∀ ci, LeavesNs (pwriteChunks o ino offset data n ci) := by
  induction n with
  | zero => exact fun _ => .pure _
  | succ n ih =>
      intro ci
      have hrest : ∀ key, LeavesNs (Vfs.updateMetadata (·.setChunkKey ino ci key) >>= fun _ =>
          Vfs.pwriteChunks o ino offset data n (ci + 1)) := fun _ =>
        .bind (updateMetadata fun _ => rfl) fun _ => ih _
      have hwrite : ∀ key b, LeavesNs (writeBlock key b) := fun _ _ => write fun _ => rfl
      refine .bind (makeBlockKey _) fun key => .bind (.read _) fun existingKey => ?_
      cases existingKey with
      | some existingKey =>
          refine .bind (readBlock _) fun _ => .bind (expandChunk _ _) fun _ =>
            .bind (setBytes _ _ _) fun _ => .ite ?_ ?_
          · exact .bind (hwrite _ _) fun _ => .bind (hwrite _ _) fun _ => hrest _
          · exact .bind (hwrite _ _) fun _ => hrest _
      | none => exact .bind (setBytes _ _ _) fun _ => .bind (hwrite _ _) fun _ => hrest _

theorem setDirty (ci : Nat) (key : Option BlockKey) (existing chunk : ByteArray8) (n : Nat) :
    LeavesNs (setDirty ino ci key existing chunk n) := by
  cases key with
  | none => exact write fun _ => rfl
  | some key => exact .ite (write fun _ => rfl) (.bind (write fun _ => rfl) fun _ => write fun _ => rfl)

theorem pwriteDirty (n : Nat) :
    ∀ ci, LeavesNs (pwriteDirty o ino offset data n ci) := by
  induction n with
  | zero => exact fun _ => .pure _
  | succ n ih =>
      intro ci
      unfold Vfs.pwriteDirty
      refine .bind (.read _) fun wb => ?_
      cases wb.dirtyChunks.get ci with
      | some existing =>
          exact .bind (expandChunk _ _) fun _ => .bind (setBytes _ _ _) fun _ =>
            .bind (setDirty _ _ _ _ _) fun _ => ih _
      | none =>
          refine .bind (.read _) fun existingKey => ?_
          cases existingKey with
          | some existingKey =>
              exact .bind (readBlock _) fun _ => .bind (expandChunk _ _) fun _ =>
                .bind (setBytes _ _ _) fun _ => .bind (setDirty _ _ _ _ _) fun _ => ih _
          | none =>
              exact .bind (setBytes _ _ _) fun _ => .bind (setDirty _ _ _ _ _) fun _ => ih _

theorem getOrCreateBuffer (n : Nat) : LeavesNs (getOrCreateBuffer ino n) := by
  refine .bind (.read _) fun buf => ?_
  cases buf with
  | some _ => exact .pure _
  | none => exact write fun _ => rfl

theorem pwriteChunked (cur new now : Nat) :
    LeavesNs (pwriteChunked o ino offset data cur new now) := by
  have hrest : LeavesNs (Vfs.updateInode ino fun i =>
      { i with size := new, mtimeMs := now, ctimeMs := now }) := updateInode fun _ => ⟨rfl, rfl⟩
  refine .ite ?_ (.bind (pwriteChunks _ _ _ _) fun _ => hrest)
  exact .bind (getOrCreateBuffer _) fun _ => .bind (pwriteDirty _ _ _ _) fun _ =>
    .bind (write fun _ => rfl) fun _ => hrest

theorem pwritePromote (i : InodeMeta) (cur : Nat) : LeavesNs (pwritePromote o ino i cur) := by
  refine .ite ?_ (storing.promoteToChunked _)
  exact .bind (getOrCreateBuffer _) fun _ => .bind (write fun _ => rfl) fun _ =>
    updateInode fun _ => ⟨rfl, rfl⟩

theorem pwrite (path : String) (offset : Nat) (data : ByteArray8) :
    LeavesNs (pwrite o path offset data) := by
  refine .bind (within (within_resolveIno path)) fun ino => .ite (.pure _) ?_
  refine .bind (within (within_requireInode ino)) fun i => .ite (.throw _) ?_
  refine .bind (.read _) fun buf => .bind storing.dateNow fun now => ?_
  cases i.storageMode with
  | inline =>
      refine .ite ?_ (.bind (pwritePromote _ _) fun _ => pwriteChunked _ _ _ _ _)
      exact .bind (setBytes _ _ _) fun _ => .bind (setBytes _ _ _) fun _ =>
        updateInode fun _ => ⟨rfl, rfl⟩
  | chunked => exact pwriteChunked _ _ _ _ _

end LeavesNs

end SecureExec.Vfs
