import SecureExec.Vfs.Blocks
import SecureExec.Vfs.Removal
import SecureExec.Vfs.Versions

/-!
# Vfs — Snapshots — what a version restores

A version names blocks, and stands for a content as long as these are what they were
(`VersionRecord.Stands`).  Every operation stores under new keys and every prune leaves what a
version still names; only a `pwrite` into a chunk that is long enough modifies the block itself
(`Careful`).

`version_restores`: along a run without such a write, a version that is still there restores the
content that its file had.  `version_overwritten`: one such write, and it does not.
-/

namespace SecureExec.Vfs
open SecureExec Bytes Prog Lts Versioning Function VersionedVfs VersionRecord Async

variable {o : ChunkedVfsOptions} {v v' : ChunkedVfs} {w w' : VersionedVfs} {ino n : Nat}
  {i : InodeMeta} {c : ByteArray8} {r : VersionRecord} {path : String} {α : Type}

/-! ### Records -/

namespace VersionRecord

/-- The key that a record has for a chunk. -/
def keyAt (r : VersionRecord) (ci : Nat) : Option BlockKey :=
  (r.chunkMap.foldl (fun map e => map.set e.1 e.2) OMap.empty).get ci

/-- The chunks that a record names. -/
def chunkFn (r : VersionRecord) (b : InMemoryBlockStore) (ci : Nat) : Option ByteArray8 :=
  (r.keyAt ci).bind b.blocks

/-- What holds of every record of the inode `ino`. -/
structure Kept (b : InMemoryBlockStore) (ino : Nat) (r : VersionRecord) : Prop where
  keys : ∀ ci k, (ci, k) ∈ r.chunkMap →
    k.ino = ino ∧ k.chunkIndex = ci ∧ ∃ x, b.blocks k = some x
  inline : r.storageMode = .inline → ∀ ci, r.keyAt ci = none

/-- The record stands for the content `c`. -/
structure Stands (o : ChunkedVfsOptions) (b : InMemoryBlockStore) (r : VersionRecord)
    (c : ByteArray8) : Prop where
  size : r.size = c.length
  inlined : r.storageMode = .inline → r.inlineContent.getD [] = c
  chunked : r.storageMode = .chunked → Chunks o.chunkSize (r.chunkFn b) c

variable {ci : Nat} {k : BlockKey} (l : List (Nat × BlockKey))

theorem mem_foldl_set :
    ∀ m : OMap Nat BlockKey, (l.foldl (fun map e => map.set e.1 e.2) m).get ci = some k →
      (ci, k) ∈ l ∨ m.get ci = some k := by
  induction l with
  | nil => exact fun m h => .inr h
  | cons e l ih =>
      intro m h
      rcases ih _ h with h | h
      · exact .inl (List.mem_cons_of_mem _ h)
      · rw [OMap.get_set] at h
        split at h
        · rename_i he
          cases h
          subst he
          exact .inl (List.mem_cons_self ..)
        · exact .inr h

/-- The keys of a record are in its chunk map. -/
theorem mem_of_keyAt (h : r.keyAt ci = some k) : (ci, k) ∈ r.chunkMap := by
  rcases mem_foldl_set r.chunkMap OMap.empty h with h | h
  · exact h
  · cases h

theorem get_foldl_set (hnd : (l.map Prod.fst).Nodup) :
    ∀ m : OMap Nat BlockKey, (ci, k) ∈ l →
      (l.foldl (fun map e => map.set e.1 e.2) m).get ci = some k := by
  induction l with
  | nil => exact fun m h => nomatch h
  | cons e l ih =>
      intro m h
      obtain ⟨hnot, hnd⟩ := List.nodup_cons.mp hnd
      rcases List.mem_cons.mp h with rfl | h
      · -- the chunk comes once
        have hkeep : ∀ (l' : List (Nat × BlockKey)) (m' : OMap Nat BlockKey),
            ci ∉ l'.map Prod.fst → m'.get ci = some k →
            (l'.foldl (fun map e => map.set e.1 e.2) m').get ci = some k := by
          intro l'
          induction l' with
          | nil => exact fun _ _ h => h
          | cons e' l' ih' =>
              intro m' hn hg
              refine ih' _ (fun hm => hn (List.mem_cons_of_mem _ hm)) ?_
              have hne : ci ≠ e'.1 := by
                rintro rfl
                exact hn (List.mem_cons_self ..)
              rw [OMap.get_set_other _ hne]
              exact hg
        exact hkeep l _ hnot (OMap.get_set_self ..)
      · exact ih hnd _ h

/-- A record of the chunk map of `ino` has its keys. -/
theorem keyAt_getAllChunkKeys {m : InMemoryMetadataStore} (hr : r.chunkMap = m.getAllChunkKeys ino)
    (ci : Nat) : r.keyAt ci = m.getChunkKey ino ci := by
  obtain ⟨hnd, hmem⟩ := getAllChunkKeys_spec m ino
  cases hg : m.getChunkKey ino ci with
  | some k =>
      refine get_foldl_set r.chunkMap (hr ▸ hnd) _ ?_
      rw [hr]
      exact (hmem (ci, k)).mpr hg
  | none =>
      cases hk : r.keyAt ci with
      | none => rfl
      | some k =>
          have := (hmem (ci, k)).mp (hr ▸ mem_of_keyAt hk)
          rw [hg] at this
          cases this

section Blocks
variable {b b' : InMemoryBlockStore}
  (hb : ∀ ci k, (ci, k) ∈ r.chunkMap → b'.blocks k = b.blocks k)
include hb

theorem chunkFn_congr : r.chunkFn b' = r.chunkFn b := by
  funext ci
  rw [chunkFn, chunkFn]
  cases hk : r.keyAt ci with
  | none => rfl
  | some k => exact hb ci k (mem_of_keyAt hk)

theorem Kept.congr (h : r.Kept b ino) : r.Kept b' ino := by
  refine ⟨fun ci k hk => ?_, h.inline⟩
  obtain ⟨h₁, h₂, x, h₃⟩ := h.keys ci k hk
  exact ⟨h₁, h₂, x, (hb ci k hk).trans h₃⟩

theorem Stands.congr (h : r.Stands o b c) : r.Stands o b' c :=
  ⟨h.size, h.inlined, fun hm => chunkFn_congr hb ▸ h.chunked hm⟩

end Blocks

end VersionRecord

/-- A restore leaves the keys of the record. -/
theorem getChunkKey_restoreChunks (m : InMemoryMetadataStore) (ino : Nat) (r : VersionRecord)
    (j ci : Nat) : (m.restoreChunks ino r.chunkMap).getChunkKey j ci =
      if j = ino then r.keyAt ci else m.getChunkKey j ci := by
  unfold InMemoryMetadataStore.getChunkKey InMemoryMetadataStore.restoreChunks keyAt
  dsimp only
  rw [update_apply]
  by_cases hj : j = ino
  · rw [if_pos hj, if_pos hj]
    split
    · rfl
    · rename_i h0
      rw [List.eq_nil_of_length_eq_zero (Nat.eq_zero_of_not_pos h0)]
      rfl
  · rw [if_neg hj, if_neg hj]

/-! ### The invariant -/

/-- A version of `w` names the block. -/
def VersionedVfs.Names (w : VersionedVfs) (k : BlockKey) : Prop :=
  ∃ ino r ci, r ∈ w.records ino ∧ (ci, k) ∈ r.chunkMap

/-- The inode has a version `n`. -/
def VersionedVfs.Has (w : VersionedVfs) (ino n : Nat) : Prop :=
  ∃ r ∈ w.records ino, r.version = n

/-- What holds of every record. -/
structure RecordOk (o : ChunkedVfsOptions) (v : ChunkedVfs) (ino : Nat) (r : VersionRecord) :
    Prop where
  kept : r.Kept v.blocks ino
  drawn : ∀ ci k, (ci, k) ∈ r.chunkMap → DrawnIn o 0 v.randomCalls k
  stands : ∃ i, v.metadata.inodes ino = some i ∧ (i.type = .file → ∃ c, r.Stands o v.blocks c)

/-- What holds of every state that is reached without an overwritten version. -/
structure SnapshotsOk (o : ChunkedVfsOptions) (w : VersionedVfs) : Prop where
  enabled : w.versioningEnabled = true
  vfs : VfsOk o w.vfs
  noLinks : NoLinks w.vfs.metadata
  drawn : ∀ ino ci k, w.vfs.metadata.getChunkKey ino ci = some k → DrawnIn o 0 w.vfs.randomCalls k
  records : ∀ ino r, r ∈ w.records ino → RecordOk o w.vfs ino r
  increasing : ∀ ino, (w.records ino).Pairwise (·.version < ·.version)

theorem snapshotsOk_new (o : ChunkedVfsOptions) (now : Nat) : SnapshotsOk o (.new now) :=
  ⟨rfl, vfsOk_new o now, noLinks_new now, nofun, nofun, fun _ => List.Pairwise.nil⟩

/-- The blocks that versions name have ids drawn before. -/
theorem SnapshotsOk.old (hids : Function.Injective o.randomId) (h : SnapshotsOk o w) :
    Old o w.vfs.randomCalls w.Names := by
  rintro k ⟨ino, r, ci, hr, hk⟩ n hn he
  obtain ⟨n', -, hlt, he'⟩ := (h.records ino r hr).drawn ci k hk
  have := hids (Option.some.inj (he'.symm.trans he))
  omega

variable {k : BlockKey}

theorem DrawnIn.mono {a b a' b' : Nat} (h : DrawnIn o a b k) (ha : a' ≤ a)
    (hb : b ≤ b') : DrawnIn o a' b' k := by
  obtain ⟨n, h₁, h₂, he⟩ := h
  exact ⟨n, ha.trans h₁, Nat.lt_of_lt_of_le h₂ hb, he⟩

variable {K : BlockKey → Prop} {M : Nat}

/-- A record whose blocks are spared. -/
theorem RecordOk.spared (h : RecordOk o v ino r)
    (hK : ∀ ci k, (ci, k) ∈ r.chunkMap → K k) (hs : Spared o K M v v')
    (hi : ∀ i, v.metadata.inodes ino = some i →
      ∃ i', v'.metadata.inodes ino = some i' ∧ i'.type = i.type) : RecordOk o v' ino r := by
  have hb : ∀ ci k, (ci, k) ∈ r.chunkMap → v'.blocks.blocks k = v.blocks.blocks k :=
    fun ci k hk => hs.blocks k (hK ci k hk)
  refine ⟨h.kept.congr hb, fun ci k hk => (h.drawn ci k hk).mono (Nat.le_refl _) hs.drawn, ?_⟩
  obtain ⟨i, hino, hstand⟩ := h.stands
  obtain ⟨i', hi', hty⟩ := hi i hino
  refine ⟨i', hi', fun hf => ?_⟩
  obtain ⟨c, hc⟩ := hstand (hty ▸ hf)
  exact ⟨c, hc.congr hb⟩

/-! ### Operations on files -/

/-- The operation leaves the blocks that versions name, and the names that there are. -/
structure KeepsVersions (o : ChunkedVfsOptions) (w : VersionedVfs) (v' : ChunkedVfs) : Prop where
  ok : VfsOk o v'
  grows : w.vfs.metadata.ns.Grows v'.metadata.ns
  spared : Spared o w.Names w.vfs.randomCalls w.vfs v'

theorem KeepsVersions.snapshotsOk (h : SnapshotsOk o w) (hk : KeepsVersions o w v') :
    SnapshotsOk o { w with vfs := v' } := by
  refine ⟨h.enabled, hk.ok, noLinks_of_grows h.noLinks hk.grows, fun ino ci k hget => ?_,
    fun ino r hr => ?_, h.increasing⟩
  · rcases hk.spared.keys ino ci k hget with hold | hnew
    · exact (h.drawn ino ci k hold).mono (Nat.le_refl _) hk.spared.drawn
    · exact hnew.mono (Nat.zero_le _) (Nat.le_refl _)
  · exact (h.records ino r hr).spared (fun ci k hck => ⟨ino, r, ci, hr, hck⟩) hk.spared
      fun i hi => inodes_of_grows hk.grows hi

/-- The program does that, whether it returns or throws. -/
abbrev AlwaysKeeps (o : ChunkedVfsOptions) (w : VersionedVfs) (p : VfsProg α) : Prop :=
  p.wp w.vfs (fun _ v' => KeepsVersions o w v') fun _ v' => KeepsVersions o w v'

variable {p : VfsProg α}

theorem always_keeps (hd : AlwaysDoes o False p w.vfs)
    (hn : LeavesNs p) (hs : Spared o w.Names w.vfs.randomCalls w.vfs (p.exec w.vfs).2) :
    AlwaysKeeps o w p := by
  refine wp_mono (wp_and (wp_and hd (hn.state w.vfs))
    (wp_of_state (I := fun v' => Spared o w.Names w.vfs.randomCalls w.vfs v') hs)) ?_ ?_
  · rintro _ v' ⟨⟨hd, hn⟩, hs⟩
    exact ⟨hd.ok, hn ▸ .refl _, hs⟩
  · rintro _ v' ⟨⟨hd, hn⟩, hs⟩
    exact ⟨hd.ok, hn ▸ .refl _, hs⟩

theorem keeps_unchanged (h : SnapshotsOk o w) (hp : Within Eq p) :
    AlwaysKeeps o w p := by
  refine wp_of_state (I := fun v' => KeepsVersions o w v') ?_
  rw [hp.state_eq w.vfs]
  exact ⟨h.vfs, .refl _, .refl _⟩

/-- A call writes to no block that a version names. -/
def Careful (o : ChunkedVfsOptions) (w : VersionedVfs) : String × VersionCall → Prop
  | (path, .file (.pwrite offset data)) =>
    ∀ ino i, w.vfs.metadata.resolvePath (normalizePath path) = .ok ino →
      w.vfs.metadata.inodes ino = some i → i.type = .file →
      ∀ k, w.Names k → ¬ Overwrites o w.vfs ino offset data k
  | _ => True

section Steps
variable (hcs : 0 < o.chunkSize) (hver : o.versioning = true)
  (hids : Function.Injective o.randomId)
include hver hids

theorem flushInode_keeps (h : SnapshotsOk o w) (ino : Nat) : AlwaysKeeps o w (flushInode o ino) :=
  always_keeps (wp_mono (flushInode_does h.vfs ino) (fun _ _ => id) fun _ _ => False.elim)
    LeavesNs.storing.flushInode ((Spares.storing (h.old hids) hver).flushInode w.vfs (Nat.le_refl _))

theorem flushAll_keeps (h : SnapshotsOk o w) : AlwaysKeeps o w (flushAll o).run := by
  refine always_keeps (flushAll_does h.vfs) ?_ ?_
  · simp only [flushAll, Coro.run_bind, run_look]
    exact .bind (.read _) fun inos => LeavesNs.storing.flushEach inos
  · simp only [flushAll, Coro.run_bind, run_look]
    exact Spares.bind (.read _) (fun inos => (Spares.storing (h.old hids) hver).flushEach inos)
      w.vfs (Nat.le_refl _)

theorem fsync_keeps (h : SnapshotsOk o w) (path : String) :
    AlwaysKeeps o w (fsync o path).run := by
  unfold fsync
  split
  · simp only [AlwaysKeeps, Coro.run_bind, Coro.run_await, wp_bind, wp_read]
    cases w.vfs.metadata.resolvePath (normalizePath path) with
    | error e => exact ⟨h.vfs, .refl _, .refl _⟩
    | ok ino =>
        simp only [Coro.run_withLock, run_flushInode]
        exact flushInode_keeps hver hids h ino
  · exact ⟨h.vfs, .refl _, .refl _⟩

include hcs

theorem fileOp_keeps (h : SnapshotsOk o w) {op : FileOp} (hc : Careful o w (path, .file op)) :
    AlwaysKeeps o w (op.run o path) := by
  have hold := h.old hids
  cases op with
  | writeFile data =>
      rw [AlwaysKeeps, FileOp.run, wp_bind]
      have hs := Spares.writeFile hold hver path data w.vfs (Nat.le_refl _)
      refine wp_mono (wp_and (writeFile_does hcs h.vfs path data False.elim)
        (wp_of_state (I := fun v' => Spared o w.Names w.vfs.randomCalls w.vfs v') hs)) ?_ ?_
      · rintro _ v' ⟨⟨hd, hg, -⟩, hs⟩
        exact ⟨hd.ok, hg, hs⟩
      · rintro _ _ ⟨⟨rfl, -⟩, hs⟩
        exact ⟨h.vfs, .refl _, hs⟩
  | pwrite offset data =>
      rw [AlwaysKeeps, FileOp.run, wp_bind]
      exact always_keeps (pwrite_does hcs h.vfs path offset data) (LeavesNs.pwrite path offset data)
        (pwrite_spared hcs hold hver (Nat.le_refl _) h.vfs hc)
  | truncate length =>
      rw [AlwaysKeeps, FileOp.run, wp_bind]
      exact always_keeps (truncate_does hcs h.vfs path length) (LeavesNs.storing.truncate path length)
        ((Spares.storing hold hver).truncate path length w.vfs (Nat.le_refl _))
  | pread offset length =>
      exact keeps_unchanged h (.bind (within_pread path offset length) fun _ => .pure _)
  | readFile =>
      rw [AlwaysKeeps, FileOp.run, wp_bind]
      exact always_keeps (readFile_does h.vfs path) (LeavesNs.storing.readFile path)
        ((Spares.storing hold hver).readFile path w.vfs (Nat.le_refl _))
  | stat => exact keeps_unchanged h (.bind (within_stat path) fun _ => .pure _)

end Steps

/-! ### Calls of the versioning API -/

/-- What a call does. -/
structure Next (o : ChunkedVfsOptions) (w w' : VersionedVfs) : Prop where
  ok : SnapshotsOk o w'
  grows : w.vfs.metadata.ns.Grows w'.vfs.metadata.ns
  stays : ∀ j r, r ∈ w.records j → w'.Has j r.version → r ∈ w'.records j ∧
    ∀ ci k, (ci, k) ∈ r.chunkMap → w'.vfs.blocks.blocks k = w.vfs.blocks.blocks k

namespace Next

theorem refl (h : SnapshotsOk o w) : Next o w w :=
  ⟨h, .refl _, fun _ _ hr _ => ⟨hr, fun _ _ _ => rfl⟩⟩

/-- The call goes on from a state with the same versions. -/
theorem after (w₁ : VersionedVfs) (hg : w.vfs.metadata.ns.Grows w₁.vfs.metadata.ns)
    (hv : w₁.versions = w.versions)
    (hb : ∀ k, w.Names k → w₁.vfs.blocks.blocks k = w.vfs.blocks.blocks k) (h : Next o w₁ w') :
    Next o w w' := by
  refine ⟨h.ok, hg.trans h.grows, fun j r hr hhas => ?_⟩
  have hr₁ : r ∈ w₁.records j := by
    rw [records, hv]
    exact hr
  obtain ⟨hr', hb'⟩ := h.stays j r hr₁ hhas
  exact ⟨hr', fun ci k hk => (hb' ci k hk).trans (hb k ⟨j, r, ci, hr, hk⟩)⟩

/-- The versions are those that there were. -/
theorem vfs (hk : SnapshotsOk o { w with vfs := v' })
    (hg : w.vfs.metadata.ns.Grows v'.metadata.ns)
    (hb : ∀ k, w.Names k → v'.blocks.blocks k = w.vfs.blocks.blocks k) :
    Next o w { w with vfs := v' } :=
  ⟨hk, hg, fun j r hr _ => ⟨hr, fun ci k hk => hb k ⟨j, r, ci, hr, hk⟩⟩⟩

end Next

/-- The call does that, whether it returns or throws. -/
abbrev AlwaysNext (o : ChunkedVfsOptions) (w : VersionedVfs) (p : VersionedProg α) : Prop :=
  p.wp w (fun _ w' => Next o w w') fun _ w' => Next o w w'

theorem keeps_next (h : SnapshotsOk o w) (hp : AlwaysKeeps o w p) :
    AlwaysNext o w (onVfs p) := by
  rw [AlwaysNext, onVfs, wp_zoom]
  exact wp_mono hp (fun _ _ hk => .vfs (hk.snapshotsOk h) hk.grows hk.spared.blocks) fun _ _ hk =>
    .vfs (hk.snapshotsOk h) hk.grows hk.spared.blocks

variable {E : Failure → VersionedVfs → Prop}

theorem wp_requireVersioning (h : w.versioningEnabled = true) {Q : PUnit → VersionedVfs → Prop}
    (hQ : Q ⟨⟩ w) : Store.requireVersioning.wp w Q E := by
  simp only [Store.requireVersioning, wp_bind, wp_read, h, Bool.not_true, Bool.false_eq_true,
    if_false]
  exact hQ

theorem wp_dateNow {Q : Nat → VersionedVfs → Prop}
    (hQ : ∀ now k, Q now { w with vfs := { w.vfs with clockCalls := k } }) :
    (onVfs (dateNow o)).wp w Q E := by
  rw [onVfs, wp_zoom]
  refine wp_mono (dateNow_returns o w.vfs) ?_ fun _ _ => False.elim
  rintro now _ ⟨k, rfl⟩
  exact hQ now k

/-- The clock is read. -/
theorem SnapshotsOk.clock (h : SnapshotsOk o w) (k : Nat) :
    SnapshotsOk o { w with vfs := { w.vfs with clockCalls := k } } :=
  KeepsVersions.snapshotsOk h
    ⟨⟨h.vfs.ns, h.vfs.content.counters _ k⟩, .refl _, .still rfl rfl fun _ _ _ => id⟩

/-! #### `createVersion` -/

/-- What a record of the inode as it is stands for. -/
theorem record_ok (h : SnapshotsOk o w) (hi : w.vfs.metadata.inodes ino = some i)
    (hclean : ∀ ci, (w.vfs.buffer ino).dirtyChunks.get ci = none) (n at' : Nat)
    (hr : r = ⟨n, i.size, at', i.storageMode, i.inlineContent,
      w.vfs.metadata.getAllChunkKeys ino⟩) :
    RecordOk o w.vfs ino r ∧ ∀ c, Shows o w.vfs ino i c → r.Stands o w.vfs.blocks c := by
  have hmem := (getAllChunkKeys_spec w.vfs.metadata ino).2
  have hkey : ∀ ci, r.keyAt ci = w.vfs.metadata.getChunkKey ino ci :=
    keyAt_getAllChunkKeys (by rw [hr])
  have hfn : r.chunkFn w.vfs.blocks = w.vfs.chunkFn ino := by
    funext ci
    rw [chunkFn, hkey, ChunkedVfs.chunkFn]
  have hstands : ∀ c, Shows o w.vfs ino i c → r.Stands o w.vfs.blocks c := by
    intro c hs
    have hview : w.vfs.viewFn ino = w.vfs.chunkFn ino := by
      funext ci
      rw [ChunkedVfs.viewFn, hclean, Option.none_or]
    refine ⟨hr ▸ hs.size, fun hm => ?_, fun hm => ?_⟩
    · subst hr
      exact hs.inlined hm
    · rw [hfn, ← hview]
      subst hr
      exact hs.chunked hm
  refine ⟨⟨⟨fun ci k hk => ?_, fun hm ci => ?_⟩, fun ci k hk => ?_, i, hi, fun hf => ?_⟩, hstands⟩
  · rw [hr] at hk
    exact h.vfs.content.keys ino ci k ((hmem (ci, k)).mp hk)
  · rw [hkey]
    refine nokey_of_unmapped (h.vfs.content.keys ino) ?_
    subst hr
    exact ((h.vfs.content.kept ino i hi).inline hm).1 ci
  · rw [hr] at hk
    exact h.drawn ino ci k ((hmem (ci, k)).mp hk)
  · obtain ⟨c, hc⟩ := h.vfs.content.files ino i hi hf
    exact ⟨c, hstands c hc⟩

/-- The state with other versions of one inode. -/
def VersionedVfs.withRecords (w : VersionedVfs) (ino : Nat) (l : List VersionRecord) :
    VersionedVfs :=
  { w with versions := update w.versions ino (some l) }

theorem records_withRecords (w : VersionedVfs) (ino : Nat) (l : List VersionRecord) (j : Nat) :
    (w.withRecords ino l).records j = if j = ino then l else w.records j := by
  unfold records withRecords
  dsimp only
  rw [update_apply]
  split
  · rfl
  · rfl

theorem mem_withRecords_last (w : VersionedVfs) (ino : Nat) (l : List VersionRecord) :
    r ∈ (w.withRecords ino (l ++ [r])).records ino := by
  rw [records_withRecords, if_pos rfl]
  exact List.mem_append_right _ (List.mem_singleton_self _)

/-- A version above all others is added. -/
theorem SnapshotsOk.append (h : SnapshotsOk o w) (hr : RecordOk o w.vfs ino r)
    (hlt : ∀ r' ∈ w.records ino, r'.version < r.version) :
    Next o w (w.withRecords ino (w.records ino ++ [r])) := by
  have hmem : ∀ j r', r' ∈ (w.withRecords ino (w.records ino ++ [r])).records j →
      r' ∈ w.records j ∨ (j = ino ∧ r' = r) := by
    intro j r' hr'
    rw [records_withRecords] at hr'
    split at hr'
    · rename_i hj
      subst hj
      rcases List.mem_append.mp hr' with hr' | hr'
      · exact .inl hr'
      · exact .inr ⟨rfl, List.mem_singleton.mp hr'⟩
    · exact .inl hr'
  refine ⟨⟨h.enabled, h.vfs, h.noLinks, h.drawn, fun j r' hr' => ?_, fun j => ?_⟩, .refl _,
    fun j r' hr' _ => ?_⟩
  · rcases hmem j r' hr' with hr' | ⟨rfl, rfl⟩
    · exact h.records j r' hr'
    · exact hr
  · rw [records_withRecords]
    split
    · refine List.pairwise_append.mpr ⟨h.increasing ino, List.pairwise_singleton .., ?_⟩
      intro r' hr' r'' hr''
      rw [List.mem_singleton.mp hr'']
      exact hlt r' hr'
    · exact h.increasing j
  · refine ⟨?_, fun _ _ _ => rfl⟩
    rw [records_withRecords]
    split
    · rename_i hj
      exact List.mem_append_left _ (hj ▸ hr')
    · exact hr'

/-- The number that `createVersion` gives. -/
def VersionedVfs.nextVersion (w : VersionedVfs) (ino : Nat) : Nat :=
  match (w.records ino).getLast? with
  | some record => record.version + 1
  | none => 1

/-- It is above all others. -/
theorem lt_nextVersion (h : (w.records ino).Pairwise (·.version < ·.version)) {r' : VersionRecord}
    (hr' : r' ∈ w.records ino) : r'.version < w.nextVersion ino := by
  unfold nextVersion
  cases hlast : (w.records ino).getLast? with
  | none =>
      rw [List.getLast?_eq_none_iff.mp hlast] at hr'
      cases hr'
  | some record =>
      obtain ⟨l, hl⟩ := List.getLast?_eq_some_iff.mp hlast
      rw [hl] at hr' h
      rcases List.mem_append.mp hr' with hr' | hr'
      · exact Nat.lt_succ_of_lt ((List.pairwise_append.mp h).2.2 r' hr' record (List.mem_singleton_self _))
      · rw [List.mem_singleton.mp hr']
        exact Nat.lt_succ_self _

/-- The version `n` of `ino` stands for what a reader of `ino` saw in `v`. -/
def Snapshot (o : ChunkedVfsOptions) (v : ChunkedVfs) (w : VersionedVfs) (ino n : Nat) : Prop :=
  ∃ r ∈ w.records ino, r.version = n ∧
    ∀ i c, v.metadata.inodes ino = some i → Shows o v ino i c → r.Stands o w.vfs.blocks c

theorem store_createVersion_next (h : SnapshotsOk o w) (ino : Nat)
    (hclean : ∀ ci, (w.vfs.buffer ino).dirtyChunks.get ci = none) :
    (Store.createVersion o ino).wp w (fun n w' => Next o w w' ∧ Snapshot o w.vfs w' ino n)
      fun _ w' => Next o w w' := by
  unfold Store.createVersion
  rw [wp_bind]
  refine wp_requireVersioning h.enabled ?_
  rw [wp_bind, wp_read]
  cases hi : w.vfs.metadata.getInode ino with
  | none => exact .refl h
  | some i =>
      dsimp only
      rw [wp_bind, wp_read, wp_bind, wp_read, wp_bind]
      refine wp_dateNow fun now k => ?_
      rw [wp_bind, wp_update]
      have hc := h.clock k
      obtain ⟨hr, hstands⟩ := record_ok hc hi hclean (w.nextVersion ino) now rfl
      have hnext := hc.append hr fun r' hr' => lt_nextVersion (h.increasing ino) hr'
      refine ⟨⟨hnext.ok, hnext.grows, hnext.stays⟩, ⟨w.nextVersion ino, i.size, now, i.storageMode,
        i.inlineContent, w.vfs.metadata.getAllChunkKeys ino⟩, ?_, rfl, fun i' c hi' hs => ?_⟩
      · exact mem_withRecords_last { w with vfs := { w.vfs with clockCalls := k } } ino _
      · obtain rfl : i = i' := Option.some.inj (hi.symm.trans hi')
        exact hstands c ⟨⟨hs.keys, hs.shared, hs.inline, hs.sized⟩, hs.size, hs.inlined, hs.chunked,
          hs.fits⟩

theorem createVersion_next (hver : o.versioning = true) (hids : Function.Injective o.randomId)
    (h : SnapshotsOk o w) (path : String) :
    (createVersion o path).wp w (fun n w' => Next o w w' ∧
      ∃ ino, w.vfs.metadata.resolvePath (normalizePath path) = .ok ino ∧
        Snapshot o w.vfs w' ino n) fun _ w' => Next o w w' := by
  unfold createVersion
  rw [wp_bind, onVfs, wp_zoom]
  refine wp_resolveIno (fun ino hr => ?_) fun _ => .refl h
  by_cases hwb : o.writeBuffering = true
  · simp only [if_pos hwb]
    rw [wp_bind, onVfs, wp_zoom]
    refine wp_mono (wp_and (flushInode_keeps hver hids h ino)
      (flushInode_returns o (h.vfs.content.keys ino) (h.vfs.content.shared ino))) ?_
        fun _ _ h => h.2.elim
    rintro _ v₁ ⟨hk, hf⟩
    refine wp_mono (store_createVersion_next (hk.snapshotsOk h) ino hf.clean) ?_
      fun _ w' h' => .after { w with vfs := v₁ } hk.grows rfl hk.spared.blocks h'
    rintro n w' ⟨hn, r, hr', hn', hstands⟩
    refine ⟨.after { w with vfs := v₁ } hk.grows rfl hk.spared.blocks hn, ino, hr, r, hr', hn', fun i c hi hs => ?_⟩
    exact hstands i c (by exact hf.inodes ▸ hi) (hf.shows hs)
  · simp only [if_neg hwb]
    have hb := h.vfs.content.plain (Bool.eq_false_iff.mpr hwb) ino
    refine wp_mono (store_createVersion_next h ino fun ci => ?_) ?_ fun _ _ h' => h'
    · rw [buffer_none hb]
      rfl
    · rintro n w' ⟨hn, hsnap⟩
      exact ⟨hn, ino, hr, hsnap⟩

/-! #### `restoreVersion` -/

/-- The write buffer goes, and what is not flushed with it. -/
theorem SnapshotsOk.dropBuffer (h : SnapshotsOk o w) (hi : w.vfs.metadata.inodes ino = some i) :
    SnapshotsOk o { w with vfs := { w.vfs with writeBuffers := w.vfs.writeBuffers.delete ino } } := by
  refine KeepsVersions.snapshotsOk h ⟨⟨h.vfs.ns, ?_⟩, .refl _, .still rfl rfl fun _ _ _ => id⟩
  have hc := h.vfs.content
  have hk := hc.kept ino i hi
  have hb : ({ w.vfs with writeBuffers := w.vfs.writeBuffers.delete ino } :
      ChunkedVfs).writeBuffers.get ino = none := OMap.get_delete_self ..
  have hk' : Kept { w.vfs with writeBuffers := w.vfs.writeBuffers.delete ino } ino i :=
    ⟨hk.keys, sharedOk_none hb, fun hm => ⟨(hk.inline hm).1, hb⟩,
      fun buf hbuf => nomatch hb.symm.trans hbuf⟩
  refine hc.apart (elsewhere_drop w.vfs ino).apart (h.vfs.lt hi) (hc.keys ino) (sharedOk_none hb)
    (fun _ => hb) fun i' hi' => ?_
  obtain rfl : i = i' := Option.some.inj (hi.symm.trans hi')
  refine ⟨hk', fun hf => ?_⟩
  obtain ⟨c, hs⟩ := hc.files ino i hi hf
  cases hm : i.storageMode with
  | inline =>
      refine ⟨c, hk', hs.size, hs.inlined, fun hm' => ?_, hs.fits⟩
      rw [hm] at hm'
      cases hm'
  | chunked =>
      -- what is stored fits in the size that is recorded
      obtain ⟨c', hlen, hc'⟩ := hs.fits.chunks
      refine ⟨c', hk', hs.size.trans hlen.symm, fun hm' => ?_, fun _ => ?_, hc'.fits⟩
      · rw [hm] at hm'
        cases hm'
      · rw [viewFn_none hb]
        exact hc'

/-- The state after a restore, with the inode `i`. -/
def ChunkedVfs.restored (v : ChunkedVfs) (ino : Nat) (r : VersionRecord) (i : InodeMeta)
    (clock : Nat) : ChunkedVfs :=
  { v with
    clockCalls := clock
    metadata := { v.metadata.restoreChunks ino r.chunkMap with
      inodes := update v.metadata.inodes ino (some i) } }

/-- The inode `i` becomes `i'` when the record is restored. -/
structure Restores (r : VersionRecord) (i i' : InodeMeta) : Prop where
  type : i'.type = i.type
  nlink : i'.nlink = i.nlink
  size : i'.size = r.size
  mode : i'.storageMode = r.storageMode
  inlined : i'.inlineContent = r.inlineContent

section Restored
variable {i' : InodeMeta} {k : Nat}

theorem getChunkKey_restored (j ci : Nat) :
    (v.restored ino r i' k).metadata.getChunkKey j ci =
      if j = ino then r.keyAt ci else v.metadata.getChunkKey j ci :=
  getChunkKey_restoreChunks v.metadata ino r j ci

theorem chunkFn_restored : (v.restored ino r i' k).chunkFn ino = r.chunkFn v.blocks := by
  funext ci
  rw [ChunkedVfs.chunkFn, getChunkKey_restored, if_pos rfl]
  rfl

theorem restored_kept (hb : v.writeBuffers.get ino = none) (hk : r.Kept v.blocks ino)
    (hr : Restores r i i') : Kept (v.restored ino r i' k) ino i' := by
  refine ⟨fun ci key hkey => ?_, sharedOk_none hb, fun hm => ⟨fun ci => ?_, hb⟩,
    fun buf hbuf => nomatch hb.symm.trans hbuf⟩
  · rw [getChunkKey_restored, if_pos rfl] at hkey
    exact hk.keys ci key (mem_of_keyAt hkey)
  · rw [chunkFn_restored, chunkFn, hk.inline (hr.mode ▸ hm) ci]
    rfl

/-- A reader sees what the record stands for. -/
theorem restored_shows (hb : v.writeBuffers.get ino = none) (hk : r.Kept v.blocks ino)
    (hr : Restores r i i') (hs : r.Stands o v.blocks c) :
    Shows o (v.restored ino r i' k) ino i' c := by
  have hkept := restored_kept (v := v) (k := k) hb hk hr
  refine Stores.shows hb ⟨⟨hkept.keys, fun hm => (hkept.inline hm).1⟩, hr.size.trans hs.size,
    fun hm => ?_, fun hm => ?_⟩
  · rw [hr.inlined]
    exact hs.inlined (hr.mode ▸ hm)
  · rw [chunkFn_restored]
    exact hs.chunked (hr.mode ▸ hm)

theorem ns_restored (hi : v.metadata.inodes ino = some i) (hr : Restores r i i') :
    (v.restored ino r i' k).metadata.ns = v.metadata.ns := by
  refine Ns.ext rfl (funext fun x => ?_) rfl rfl
  change (update v.metadata.inodes ino (some i') x).map _ = (v.metadata.inodes x).map _
  rw [update_apply]
  split
  · rename_i hx
    rw [hx, hi, Option.map_some, Option.map_some, hr.type, hr.nlink]
  · rfl

theorem apart_restored : Apart ino v (v.restored ino r i' k) :=
  ⟨rfl, fun _ hj => update_of_ne hj _ _, fun _ hj => update_of_ne hj _ _,
    fun _ _ => rfl, fun _ _ => rfl⟩

/-- A record is restored. -/
theorem SnapshotsOk.restore (h : SnapshotsOk o w) (hb : w.vfs.writeBuffers.get ino = none)
    (hmem : r ∈ w.records ino) (hi : w.vfs.metadata.inodes ino = some i) (hr : Restores r i i') :
    SnapshotsOk o { w with vfs := w.vfs.restored ino r i' k } := by
  have hrec := h.records ino r hmem
  have hkept := restored_kept (v := w.vfs) (k := k) hb hrec.kept hr
  have hns := ns_restored (v := w.vfs) (k := k) hi hr
  have hcontent : ContentOk o (w.vfs.restored ino r i' k) := by
    refine h.vfs.content.apart apart_restored (h.vfs.lt hi) hkept.keys hkept.shared (fun _ => hb)
      fun j hj => ?_
    have hself : (w.vfs.restored ino r i' k).metadata.inodes ino = some i' :=
      update_self ..
    obtain rfl : i' = j := Option.some.inj (hself.symm.trans hj)
    refine ⟨hkept, fun hf => ?_⟩
    obtain ⟨i₀, hi₀, hstands⟩ := hrec.stands
    obtain rfl : i = i₀ := Option.some.inj (hi.symm.trans hi₀)
    obtain ⟨c, hc⟩ := hstands (hr.type ▸ hf)
    exact ⟨c, restored_shows hb hrec.kept hr hc⟩
  have hgrows : w.vfs.metadata.ns.Grows (w.vfs.restored ino r i' k).metadata.ns := hns ▸ .refl _
  refine ⟨h.enabled, ⟨hns ▸ h.vfs.ns, hcontent⟩, noLinks_of_grows h.noLinks hgrows,
    fun j ci key hkey => ?_, fun j r' hr' => ?_, h.increasing⟩
  · rw [getChunkKey_restored] at hkey
    split at hkey
    · exact hrec.drawn ci key (mem_of_keyAt hkey)
    · exact h.drawn j ci key hkey
  · obtain ⟨hk', hd', i₁, hi₁, hs'⟩ := h.records j r' hr'
    obtain ⟨i₂, hi₂, hty⟩ := inodes_of_grows hgrows hi₁
    exact ⟨hk', hd', i₂, hi₂, fun hf => hs' (hty ▸ hf)⟩

end Restored

/-- What a restore of the version `n` of `ino` leaves. -/
def RestoredTo (o : ChunkedVfsOptions) (w w' : VersionedVfs) (ino n : Nat) : Prop :=
  ∃ r ∈ w.records ino, r.version = n ∧ ∃ i i', w.vfs.metadata.inodes ino = some i ∧
    w'.vfs.metadata.inodes ino = some i' ∧ i'.type = i.type ∧
      ∀ c, r.Stands o w.vfs.blocks c → Shows o w'.vfs ino i' c

theorem store_restoreVersion_next (h : SnapshotsOk o w) (hb : w.vfs.writeBuffers.get ino = none)
    (hi : w.vfs.metadata.inodes ino = some i) (n : Nat) :
    (Store.restoreVersion o ino n).wp w (fun _ w' => Next o w w' ∧ RestoredTo o w w' ino n)
      fun _ w' => Next o w w' ∧ ¬ w.Has ino n := by
  unfold Store.restoreVersion
  rw [wp_bind]
  refine wp_requireVersioning h.enabled ?_
  rw [wp_bind, wp_read]
  cases hfind : (w.records ino).find? (·.version = n) with
  | none =>
      refine ⟨.refl h, fun ⟨r, hr, hn⟩ => ?_⟩
      exact List.find?_eq_none.mp hfind r hr (decide_eq_true hn)
  | some r =>
      have hmem := List.mem_of_find?_eq_some hfind
      have hn : r.version = n := by simpa using List.find?_some hfind
      dsimp only
      rw [wp_bind, onVfs, wp_zoom, updateMetadata, wp_update, wp_bind, wp_read]
      have hget : (w.vfs.metadata.restoreChunks ino r.chunkMap).getInode ino = some i := hi
      rw [hget]
      dsimp only
      rw [wp_bind]
      refine wp_dateNow fun mtime k => ?_
      rw [wp_bind]
      refine wp_dateNow fun ctime k' => ?_
      rw [onVfs, wp_zoom]
      have hi' : ({ w.vfs with
          metadata := w.vfs.metadata.restoreChunks ino r.chunkMap, clockCalls := k' } :
          ChunkedVfs).metadata.inodes ino = some i := hi
      refine wp_mono (updateInode_returns hi' _) ?_ fun _ _ => False.elim
      rintro _ v' rfl
      have hr : Restores r i { i with
          size := r.size, storageMode := r.storageMode, inlineContent := r.inlineContent,
          mtimeMs := mtime, ctimeMs := ctime } := ⟨rfl, rfl, rfl, rfl, rfl⟩
      have hns := ns_restored (v := w.vfs) (k := k') hi hr
      refine ⟨.vfs (h.restore hb hmem hi hr) (hns ▸ .refl _) fun _ _ => rfl, r, hmem, hn, i, _, hi, update_self .., rfl, fun c hc => ?_⟩
      exact restored_shows hb (h.records ino r hmem).kept hr hc

theorem restoreVersion_next (h : SnapshotsOk o w) (path : String) (n : Nat) :
    (restoreVersion o path n).wp w (fun _ w' => Next o w w' ∧
      ∃ ino, w.vfs.metadata.resolvePath (normalizePath path) = .ok ino ∧ RestoredTo o w w' ino n)
      fun _ w' => Next o w w' ∧ ∀ ino, w.vfs.metadata.resolvePath (normalizePath path) = .ok ino →
        ¬ w.Has ino n := by
  unfold restoreVersion
  rw [wp_bind, onVfs, wp_zoom, resolveIno, wp_bind, wp_read]
  cases hr : w.vfs.metadata.resolvePath (normalizePath path) with
  | error e => exact ⟨.refl h, fun _ h => by cases h⟩
  | ok ino =>
      obtain ⟨nd, hnd⟩ := h.vfs.ns.reached (resolve_reaches _ _ _ hr)
      obtain ⟨i, hi, -⟩ := node_ns_some hnd
      rw [wp_lift_ok, wp_bind, onVfs, wp_zoom, dropBuffer, wp_update]
      have hdrop := h.dropBuffer hi
      refine wp_mono (store_restoreVersion_next hdrop (OMap.get_delete_self ..) hi n) ?_ ?_
      · rintro _ w' ⟨hnext, hres⟩
        exact ⟨⟨hnext.ok, hnext.grows, hnext.stays⟩, ino, rfl, hres⟩
      · rintro _ w' ⟨hnext, hno⟩
        refine ⟨⟨hnext.ok, hnext.grows, hnext.stays⟩, fun j hj => ?_⟩
        cases hj
        exact hno

/-! #### `pruneVersions` -/

theorem mem_orphanedKeys {deleted remaining : List VersionRecord} {current : List BlockKey}
    (h : k ∈ Store.orphanedKeys deleted remaining current) :
    (∃ r ∈ deleted, ∃ ci, (ci, k) ∈ r.chunkMap) ∧
      (∀ r ∈ remaining, ∀ ci, (ci, k) ∉ r.chunkMap) ∧ k ∉ current := by
  obtain ⟨hdel, href⟩ := List.mem_filter.mp h
  have href : k ∉ (remaining.flatMap fun r => r.chunkMap.map Prod.snd) ++ current :=
    of_decide_eq_true href
  obtain ⟨r, hr, hk⟩ := List.mem_flatMap.mp (List.mem_eraseDups.mp hdel)
  obtain ⟨⟨ci, k'⟩, he, rfl⟩ := List.mem_map.mp hk
  refine ⟨⟨r, hr, ci, he⟩, fun r' hr' ci' hc' => href ?_, fun hc => href ?_⟩
  · exact List.mem_append_left _ (List.mem_flatMap.mpr ⟨r', hr', List.mem_map.mpr ⟨_, hc', rfl⟩⟩)
  · exact List.mem_append_right _ hc

variable {m : InMemoryMetadataStore}

/-- The current keys are those of the chunk map. -/
theorem mem_currentKeys {ci : Nat}
    (h : m.getChunkKey ino ci = some k) : k ∈ m.currentKeys ino := by
  unfold InMemoryMetadataStore.currentKeys
  cases hm : m.chunks ino with
  | none =>
      rw [InMemoryMetadataStore.getChunkKey, hm] at h
      cases h
  | some map => exact List.mem_map.mpr ⟨(ci, k), (mem_entries_of_getChunkKey hm ci k).mp h, rfl⟩

/-- Blocks that no chunk map names do not matter. -/
theorem VfsOk.blocks (h : VfsOk o v) {B : InMemoryBlockStore}
    (hB : ∀ j ci k, v.metadata.getChunkKey j ci = some k → B.blocks k = v.blocks.blocks k) :
    VfsOk o { v with blocks := B } := by
  have hkeys : ∀ j, KeysOk { v with blocks := B } j := by
    intro j ci k hk
    obtain ⟨h₁, h₂, b, h₃⟩ := h.content.keys j ci k hk
    exact ⟨h₁, h₂, b, (hB j ci k hk).trans h₃⟩
  have hfn : ∀ j, ({ v with blocks := B } : ChunkedVfs).chunkFn j = v.chunkFn j := by
    intro j
    funext ci
    change (v.metadata.getChunkKey j ci).bind B.blocks = _
    rw [ChunkedVfs.chunkFn]
    cases hk : v.metadata.getChunkKey j ci with
    | none => rfl
    | some k => exact hB j ci k hk
  have hview : ∀ j, ({ v with blocks := B } : ChunkedVfs).viewFn j = v.viewFn j := by
    intro j
    funext ci
    rw [ChunkedVfs.viewFn, hfn]
    rfl
  have hkept : ∀ j i, v.metadata.inodes j = some i → Kept { v with blocks := B } j i := by
    intro j i hi
    have hk := h.content.kept j i hi
    exact ⟨hkeys j, hk.shared, fun hm => ⟨fun ci => by rw [hfn, (hk.inline hm).1], (hk.inline hm).2⟩,
      hk.sized⟩
  refine ⟨h.ns, hkeys, h.content.shared, h.content.fresh, h.content.plain, hkept,
    fun j i hi hf => ?_⟩
  obtain ⟨c, hs⟩ := h.content.files j i hi hf
  exact ⟨c, hkept j i hi, hs.size, hs.inlined, fun hm => by rw [hview]; exact hs.chunked hm,
    by rw [hfn]; exact hs.fits⟩

/-- Some versions of an inode go. -/
theorem SnapshotsOk.filter (h : SnapshotsOk o w) (ino : Nat) (p : VersionRecord → Bool) :
    SnapshotsOk o (w.withRecords ino ((w.records ino).filter p)) := by
  refine ⟨h.enabled, h.vfs, h.noLinks, h.drawn, fun j r hr => ?_, fun j => ?_⟩
  · rw [records_withRecords] at hr
    split at hr
    · rename_i hj
      exact h.records j r (hj ▸ (List.mem_filter.mp hr).1)
    · exact h.records j r hr
  · rw [records_withRecords]
    split
    · exact (h.increasing ino).filter _
    · exact h.increasing j

/-- Blocks go that nothing names. -/
theorem SnapshotsOk.deleteBlocks (h : SnapshotsOk o w) {keys : List BlockKey}
    (hcur : ∀ j ci k, w.vfs.metadata.getChunkKey j ci = some k → k ∉ keys)
    (hnames : ∀ k, w.Names k → k ∉ keys) :
    SnapshotsOk o { w with vfs := { w.vfs with blocks := w.vfs.blocks.deleteMany keys } } := by
  have hkeep : ∀ k, k ∉ keys → (w.vfs.blocks.deleteMany keys).blocks k = w.vfs.blocks.blocks k :=
    fun k hk => by rw [blocks_deleteMany, if_neg hk]
  refine ⟨h.enabled, h.vfs.blocks fun j ci k hk => hkeep k (hcur j ci k hk), h.noLinks, h.drawn,
    fun j r hr => ?_, h.increasing⟩
  have hb : ∀ ci k, (ci, k) ∈ r.chunkMap →
      (w.vfs.blocks.deleteMany keys).blocks k = w.vfs.blocks.blocks k :=
    fun ci k hk => hkeep k (hnames k ⟨j, r, ci, hr, hk⟩)
  obtain ⟨hk, hd, i, hi, hs⟩ := h.records j r hr
  refine ⟨hk.congr hb, hd, i, hi, fun hf => ?_⟩
  obtain ⟨c, hc⟩ := hs hf
  exact ⟨c, hc.congr hb⟩

/-- What a prune leaves, and the blocks that it may delete. -/
structure Pruned (o : ChunkedVfsOptions) (w w' : VersionedVfs) (keys : List BlockKey) : Prop
    extends Next o w w' where
  current : ∀ j ci k, w'.vfs.metadata.getChunkKey j ci = some k → k ∉ keys
  named : ∀ k, w'.Names k → k ∉ keys

section

variable (h : SnapshotsOk o w)
include h

theorem Pruned.none : Pruned o w w [] :=
  ⟨.refl h, fun _ _ _ _ => List.not_mem_nil, fun _ _ => List.not_mem_nil⟩

theorem store_deleteVersions_pruned (ino : Nat) (versions : List Nat) :
    (Store.deleteVersions ino versions).Returns w fun keys w' => Pruned o w w' keys := by
  unfold Store.deleteVersions Returns
  rw [wp_bind]
  refine wp_requireVersioning h.enabled ?_
  split
  · exact .none h
  rw [wp_bind, wp_read]
  cases hrec : w.versions ino with
  | none => exact .none h
  | some records =>
      have hrecords : w.records ino = records := by rw [VersionedVfs.records, hrec]; rfl
      dsimp only
      rw [wp_bind, wp_update, wp_bind, wp_read]
      rw [← hrecords]
      have hfilter := h.filter ino fun r => decide (r.version ∉ versions)
      have hmem : ∀ j r, r ∈ (w.withRecords ino ((w.records ino).filter
          fun r => decide (r.version ∉ versions))).records j →
          r ∈ w.records j ∧ (j = ino → r.version ∉ versions) := by
        intro j r hr
        rw [records_withRecords] at hr
        split at hr
        · rename_i hj
          obtain ⟨hr, hv⟩ := List.mem_filter.mp hr
          exact ⟨hj ▸ hr, fun _ => of_decide_eq_true hv⟩
        · rename_i hj
          exact ⟨hr, fun he => absurd he hj⟩
      refine ⟨⟨hfilter, .refl _, fun j r hr hhas => ?_⟩, fun j ci k hk hkey => ?_,
        fun k hk hkey => ?_⟩
      · obtain ⟨r', hr', hv⟩ := hhas
        refine ⟨(records_withRecords ..).symm ▸ ?_, fun _ _ _ => rfl⟩
        split
        · rename_i hj
          refine List.mem_filter.mpr ⟨hj ▸ hr, decide_eq_true ?_⟩
          rw [← hv]
          exact (hmem j r' hr').2 hj
        · exact hr
      · obtain ⟨⟨r, hr, ci', hc'⟩, -, hcur⟩ := mem_orphanedKeys hkey
        obtain ⟨hi, -⟩ := (h.records ino r (List.mem_filter.mp hr).1).kept.keys ci' k hc'
        obtain ⟨hj, -⟩ := h.vfs.content.keys j ci k hk
        rw [hj.symm.trans hi] at hk
        exact hcur (mem_currentKeys hk)
      · obtain ⟨j, r, ci, hr, hc⟩ := hk
        obtain ⟨⟨r', hr', ci', hc'⟩, hrem, -⟩ := mem_orphanedKeys hkey
        obtain ⟨hi, -⟩ := (h.records ino r' (List.mem_filter.mp hr').1).kept.keys ci' k hc'
        obtain ⟨hr₁, hv⟩ := hmem j r hr
        obtain ⟨hj, -⟩ := (h.records j r hr₁).kept.keys ci k hc
        have hji : j = ino := hj.symm.trans hi
        subst hji
        exact hrem r (List.mem_filter.mpr ⟨hr₁, decide_eq_true (hv rfl)⟩) ci hc

theorem store_listVersions_next (ino : Nat) :
    (Store.listVersions ino).Returns w fun _ w' => w' = w := by
  unfold Store.listVersions Returns
  rw [wp_bind]
  exact wp_requireVersioning h.enabled rfl

omit h in
theorem toPrune_clock (o : ChunkedVfsOptions) (all : List VersionMeta) (policy : RetentionPolicy)
    (w : VersionedVfs) : (toPrune o all policy).Returns w fun _ w' =>
      ∃ k, w' = { w with vfs := { w.vfs with clockCalls := k } } := by
  have hsame : ∃ k, w = { w with vfs := { w.vfs with clockCalls := k } } := ⟨w.vfs.clockCalls, rfl⟩
  cases policy with
  | count keep =>
      unfold toPrune
      dsimp only
      split
      · exact hsame
      · exact hsame
  | age maxAgeMs =>
      unfold toPrune Returns
      dsimp only
      rw [wp_bind]
      exact wp_dateNow fun now k => ⟨k, rfl⟩
  | deferred => exact hsame

theorem pruneVersions_next (path : String) (policy : RetentionPolicy) :
    AlwaysNext o w (pruneVersions o path policy) := by
  unfold pruneVersions AlwaysNext
  rw [wp_bind, onVfs, wp_zoom]
  refine wp_resolveIno (fun ino hr => ?_) fun _ => .refl h
  rw [wp_bind]
  refine wp_mono (store_listVersions_next h ino) ?_ fun _ _ => False.elim
  rintro all w₀ rfl
  split
  · exact .refl h
  rw [wp_bind]
  refine wp_mono (toPrune_clock o all policy _) ?_ fun _ _ => False.elim
  rintro pruned _ ⟨k, rfl⟩
  have hc := h.clock k
  split
  · exact .vfs hc (.refl _) fun _ _ => rfl
  rw [wp_bind]
  refine wp_mono (store_deleteVersions_pruned hc ino pruned) ?_ fun _ _ => False.elim
  intro keys w₁ hp
  have hkept : Next o w₀ w₁ := ⟨hp.ok, hp.grows, hp.stays⟩
  have hdel : Next o w₀ { w₁ with
      vfs := { w₁.vfs with blocks := w₁.vfs.blocks.deleteMany keys } } :=
    ⟨hp.ok.deleteBlocks hp.current hp.named, hp.grows, fun j r hr hhas => by
      obtain ⟨hr', hb⟩ := hp.stays j r hr hhas
      refine ⟨hr', fun ci k hk => ?_⟩
      exact (blocks_deleteMany ..).trans ((if_neg (hp.named k ⟨j, r, ci, hr', hk⟩)).trans (hb ci k hk))⟩
  cases policy with
  | deferred => exact hkept
  | count keep => exact hdel
  | age maxAgeMs => exact hdel

end

/-! ### Runs -/

section Run
variable (hcs : 0 < o.chunkSize) (hver : o.versioning = true)
  (hids : Function.Injective o.randomId)
include hcs hver hids

/-- **One call.** -/
theorem versionStep_next (h : SnapshotsOk o w) {call : String × VersionCall}
    (hc : Careful o w call) (hs : versionStep o w call = some w') : Next o w w' := by
  obtain ⟨path, call⟩ := call
  have hall : AlwaysNext o w (call.run o path) := by
    cases call with
    | file op =>
        rw [VersionCall.run, AlwaysNext, wp_bind]
        exact keeps_next h (fileOp_keeps hcs hver hids h hc)
    | fsync => exact keeps_next h (fsync_keeps hver hids h path)
    | flushAll => exact keeps_next h (flushAll_keeps hver hids h)
    | createVersion =>
        rw [VersionCall.run, AlwaysNext, wp_bind]
        exact wp_mono (createVersion_next hver hids h path) (fun _ _ h' => h'.1) fun _ _ => id
    | listVersions =>
        rw [VersionCall.run, AlwaysNext, wp_bind, listVersions, wp_bind, onVfs, wp_zoom]
        refine wp_resolveIno (fun ino hr => ?_) fun _ => .refl h
        rw [wp_bind]
        refine wp_mono (store_listVersions_next h ino) ?_ fun _ _ => False.elim
        rintro _ _ rfl
        exact .refl h
    | restoreVersion version =>
        exact wp_mono (restoreVersion_next h path version) (fun _ _ h' => h'.1) fun _ _ h' => h'.1
    | pruneVersions policy =>
        rw [VersionCall.run, AlwaysNext, wp_bind]
        exact pruneVersions_next h path policy
  cases hs
  exact state_of_wp (I := fun w' => Next o w w') hall

/-- Every state of a careful run is in order. -/
theorem snapshotsOk_reach {now : Nat} (hr : Reach (versionStep o) (Careful o) (.new now) w) :
    SnapshotsOk o w :=
  hr.invariant (snapshotsOk_new o now) fun _ _ _ h hc hs =>
    (versionStep_next hcs hver hids h hc hs).ok

end Run

/-! ### Versions are snapshots -/

/-- What is known of a version `n` of `ino` that stands for `c`. -/
structure Stays (o : ChunkedVfsOptions) (w₀ : VersionedVfs) (ino n : Nat) (c : ByteArray8)
    (w : VersionedVfs) : Prop where
  ok : SnapshotsOk o w
  grows : w₀.vfs.metadata.ns.Grows w.vfs.metadata.ns
  stands : w.Has ino n → ∃ r ∈ w.records ino, r.version = n ∧ r.Stands o w.vfs.blocks c

theorem Stays.next {w₀ : VersionedVfs} (h : Stays o w₀ ino n c w) (hn : Next o w w')
    (hhas : w.Has ino n) : Stays o w₀ ino n c w' := by
  refine ⟨hn.ok, h.grows.trans hn.grows, fun hhas' => ?_⟩
  obtain ⟨r, hr, rfl, hs⟩ := h.stands hhas
  obtain ⟨hr', hb⟩ := hn.stays ino r hr hhas'
  exact ⟨r, hr', rfl, hs.congr hb⟩

/-- **A version restores what it was made of.**  In every run of a ChunkedVFS with versioning on
and random ids that do not repeat, at any paths and with flushes anywhere, none of whose steps is a
`pwrite` into a stored block that a version names: once `createVersion` of a regular file has given
the number `n`, as long as that version is there `restoreVersion` succeeds, and `readFile` then
returns what it returned when the version was made. -/
theorem version_restores (o : ChunkedVfsOptions) (hcs : 1 ≤ o.chunkSize)
    (hver : o.versioning = true) (hids : Function.Injective o.randomId) (now : Nat)
    {w₀ w₁ w₂ : VersionedVfs} (h₀ : Reach (versionStep o) (Careful o) (.new now) w₀)
    {path : String} {ino : Nat} {i : InodeMeta}
    (hp : w₀.vfs.metadata.resolvePath (normalizePath path) = .ok ino)
    (hi : w₀.vfs.metadata.inodes ino = some i) (hf : i.type = .file) {n : Nat}
    (hc : (createVersion o path).exec w₀ = (.ok n, w₁))
    (h₁ : Reach (versionStep o) (fun w call => Careful o w call ∧ w.Has ino n) w₁ w₂)
    (hn : w₂.Has ino n) :
    ∃ c w₃, ((readFile o path).exec w₀.vfs).1 = .ok c ∧
      (restoreVersion o path n).exec w₂ = (.ok ⟨⟩, w₃) ∧
      ((readFile o path).exec w₃.vfs).1 = .ok c := by
  have hok := snapshotsOk_reach hcs hver hids h₀
  obtain ⟨c, hs⟩ := hok.vfs.content.files ino i hi hf
  -- the version stands for the content when it is made
  have hmade := of_wp_ok (createVersion_next hver hids hok path) hc
  obtain ⟨hnext, j, hj, r, hr, hrn, hstands⟩ := hmade
  obtain rfl : ino = j := Except.ok.inj (hp.symm.trans hj)
  have hstart : Stays o w₀ ino n c w₁ :=
    ⟨hnext.ok, hnext.grows, fun _ => ⟨r, hr, hrn, hstands i c hi hs⟩⟩
  -- and as long as it is there
  have hend : Stays o w₀ ino n c w₂ := h₁.invariant hstart fun w call w' h hcall hstep =>
    h.next (versionStep_next hcs hver hids h.ok hcall.1 hstep) hcall.2
  obtain ⟨r₂, hr₂, hrn₂, hs₂⟩ := hend.stands hn
  have hp₂ := resolvePath_grows hok.noLinks hend.ok.noLinks hend.grows hp
  have hrestore := restoreVersion_next hend.ok path n
  rcases hexec : (restoreVersion o path n).exec w₂ with ⟨e | _, w₃⟩
  · rw [wp, hexec] at hrestore
    exact absurd hn (hrestore.2 ino hp₂)
  · rw [wp, hexec] at hrestore
    obtain ⟨hnext₃, j, hj, r₃, hr₃, hrn₃, i₂, i₃, hi₂, hi₃, hty, hshows⟩ := hrestore
    obtain rfl : ino = j := Except.ok.inj (hp₂.symm.trans hj)
    -- versions have one record each
    have hnd : ((w₂.records ino).map (·.version)).Nodup :=
      List.pairwise_map.mpr ((hend.ok.increasing ino).imp Nat.ne_of_lt)
    have hrec : r₃ = r₂ := List.inj_on_of_nodup_map hnd hr₃ hr₂ (hrn₃.trans hrn₂.symm)
    obtain ⟨i₂', hi₂', hty₂⟩ := inodes_of_grows hend.grows hi
    obtain rfl : i₂ = i₂' := Option.some.inj (hi₂.symm.trans hi₂')
    have hp₃ := resolvePath_grows hend.ok.noLinks hnext₃.ok.noLinks hnext₃.grows hp₂
    refine ⟨c, w₃, readFile_eq hcs hp hi hf hs, rfl, ?_⟩
    exact readFile_eq hcs hp₃ hi₃ (hty.trans (hty₂.trans hf)) (hshows c (hrec ▸ hs₂))

/-- Chunks of four bytes, versioning on, and ids of growing length. -/
def versioningOptions : ChunkedVfsOptions where
  chunkSize := 4
  inlineThreshold := 2
  writeBuffering := false
  versioning := true
  randomId := fun n => String.ofList (List.replicate n 'r')
  dateNow := id

theorem versioningOptions_ids : Function.Injective versioningOptions.randomId := by
  intro m n h
  have hl := congrArg (fun s : String => s.toList.length) h
  simpa [versioningOptions] using hl

/-- The state after a call. -/
def VersionedVfs.after (w : VersionedVfs) (call : String × VersionCall) : VersionedVfs :=
  ((call.2.run versioningOptions call.1).exec w).2

/-- A file of three bytes, before and after its first version. -/
def unversioned : VersionedVfs := (new 0).after ("/f", .file (.writeFile [1, 2, 3]))

def versioned : VersionedVfs := unversioned.after ("/f", .createVersion)

theorem version_restores_written :
    ∃ w₃, (restoreVersion versioningOptions "/f" 1).exec
        (versioned.after ("/f", .file (.writeFile [9]))) = (.ok ⟨⟩, w₃) ∧
      ((readFile versioningOptions "/f").exec w₃.vfs).1 = .ok [1, 2, 3] := by
  have hread : ((readFile versioningOptions "/f").exec unversioned.vfs).1 = .ok [1, 2, 3] := by
    decide +kernel
  obtain ⟨c, w₃, hc, hr, hc'⟩ := @version_restores versioningOptions (by decide) rfl
    versioningOptions_ids 0 unversioned versioned (versioned.after ("/f", .file (.writeFile [9])))
    (.one (a := ("/f", .file (.writeFile [1, 2, 3]))) trivial rfl) "/f" 2 _ (by decide +kernel) rfl
    rfl 1 rfl
    (.one (a := ("/f", .file (.writeFile [9]))) ⟨trivial, _, List.mem_singleton_self _, rfl⟩ rfl)
    ⟨_, List.mem_singleton_self _, rfl⟩
  obtain rfl : [1, 2, 3] = c := Except.ok.inj (hread.symm.trans hc)
  exact ⟨w₃, hr, hc'⟩

/-- A `pwrite` into a chunk that is long enough changes the block that the version names. -/
theorem version_overwritten :
    versioningOptions.versioning = true ∧ Function.Injective versioningOptions.randomId ∧
      ((readFile versioningOptions "/f").exec unversioned.vfs).1 = .ok [1, 2, 3] ∧
      ((createVersion versioningOptions "/f").exec unversioned).1 = .ok 1 ∧
      ∃ w₃, (restoreVersion versioningOptions "/f" 1).exec
          (versioned.after ("/f", .file (.pwrite 0 [9]))) = (.ok ⟨⟩, w₃) ∧
        ((readFile versioningOptions "/f").exec w₃.vfs).1 = .ok [9, 2, 3] := by
  refine ⟨rfl, versioningOptions_ids, by decide +kernel, by decide +kernel, _, rfl, ?_⟩
  decide +kernel

end SecureExec.Vfs
