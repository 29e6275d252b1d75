import SecureExec.Vfs.Snapshots
import SecureExec.Vfs.Transactional

/-!
# Vfs — Pruning — versions that go, and the blocks they leave

`deleteVersions` of both metadata stores, and `pruneVersions` over either.  The store in memory
keeps the records of an inode in a list; the one over SQLite has a row for each, with the chunk map
as JSON, and deletes them one by one.

* `Frees`: the keys that are returned are those that only versions name that go.
* `prune_frees_garbage`: so it is for both stores, and a prune deletes these blocks, but for a
  deferred one, and keeps the newest versions.
-/

namespace SecureExec.Vfs
open SecureExec Prog Lts SqliteTables VersionRow Function

variable {α σ : Type}

/-! ### The store over SQLite -/

def VersionRow.record (r : VersionRow) : VersionRecord :=
  ⟨r.version, r.size, r.createdAt, r.storageMode, r.inlineContent, r.chunkMap.getD []⟩

def VersionRecord.meta (r : VersionRecord) : VersionMeta :=
  ⟨r.version, r.size, r.createdAt, r.storageMode, r.inlineContent⟩

def VersionRecord.keys (r : VersionRecord) : List BlockKey := r.chunkMap.map Prod.snd

namespace SqliteTables

/-- The rows of an inode, newest first. -/
def versionRows (t : SqliteTables) (ino : Nat) : List VersionRow :=
  (t.versions.filter (·.ino = ino)).insertionSort fun a b => b.version ≤ a.version

def listVersions (ino : Nat) : SqliteProg (List VersionMeta) :=
  Prog.read fun t => (t.versionRows ino).map (·.record.meta)

def getVersionChunkMap (t : SqliteTables) (ino version : Nat) : List (Nat × BlockKey) :=
  ((t.versions.find? fun r => r.ino = ino ∧ r.version = version).bind (·.chunkMap)).getD []

/-- `DELETE FROM versions WHERE ino = ? AND version = ?` -/
def deleteVersion (t : SqliteTables) (ino version : Nat) : SqliteTables :=
  { t with versions := t.versions.filter fun r => ¬(r.ino = ino ∧ r.version = version) }

/-- The loop over the versions; the keys of their chunk maps. -/
def deleteEach (ino : Nat) : List Nat → SqliteProg (List BlockKey)
  | [] => pure []
  | v :: versions => do
    let chunkMap ← Prog.read (·.getVersionChunkMap ino v)
    Prog.update (·.deleteVersion ino v)
    let keys ← deleteEach ino versions
    pure (chunkMap.map Prod.snd ++ keys)

def deleteVersions (ino : Nat) (versions : List Nat) : SqliteProg (List BlockKey) := do
  if versions.length = 0 then pure []
  else
    let deletedBlockKeys ← deleteEach ino versions
    let t ← Prog.read id
    let referencedKeys :=
      ((t.versionRows ino).flatMap fun r => (t.getVersionChunkMap ino r.version).map Prod.snd) ++
        (t.getAllChunkKeys ino).map Prod.snd
    pure (deletedBlockKeys.eraseDups.filter (· ∉ referencedKeys))

end SqliteTables

/-! ### `pruneVersions` over a store -/

/-- What `pruneVersions` asks of its stores, for one inode. -/
structure PruneOps (σ : Type) where
  listVersions : Prog Failure σ (List VersionMeta)
  dateNow : Prog Failure σ Nat
  deleteVersions : List Nat → Prog Failure σ (List BlockKey)
  deleteMany : List BlockKey → Prog Failure σ PUnit

/-- The versions to prune, newest first. -/
def PruneOps.toPrune (ops : PruneOps σ) (allVersions : List VersionMeta) :
    RetentionPolicy → Prog Failure σ (List Nat)
  | .count keep =>
    if allVersions.length ≤ keep then pure []
    else pure ((Versioning.sliceFrom allVersions keep).map (·.version))
  | .age maxAgeMs => do
    let cutoff := (← ops.dateNow) - maxAgeMs
    pure ((allVersions.filter fun v => v.createdAt < cutoff).map (·.version))
  | .deferred => pure (allVersions.map (·.version))

/-- `pruneVersions`, once the path is resolved. -/
def PruneOps.prune (ops : PruneOps σ) (policy : RetentionPolicy) : Prog Failure σ Nat := do
  let allVersions ← ops.listVersions
  if allVersions.length = 0 then pure 0
  else
    let pruned ← ops.toPrune allVersions policy
    if pruned.length = 0 then pure 0
    else
      let orphanedKeys ← ops.deleteVersions pruned
      match policy with
      | .deferred => pure ⟨⟩
      | _ => ops.deleteMany orphanedKeys
      pure pruned.length

def memoryOps (o : ChunkedVfsOptions) (ino : Nat) : PruneOps VersionedVfs where
  listVersions := Store.listVersions ino
  dateNow := onVfs (dateNow o)
  deleteVersions := Store.deleteVersions ino
  deleteMany keys := onVfs (deleteBlocks keys)

def sqliteOps (o : ChunkedVfsOptions) (ino : Nat) : PruneOps (VfsOver SqliteTables) where
  listVersions := Transactional.store (listVersions ino)
  dateNow := Transactional.dateNow o
  deleteVersions versions := Transactional.store (deleteVersions ino versions)
  deleteMany := Transactional.deleteBlocks

/-- `pruneVersions` of a ChunkedVFS over SQLite. -/
def SqliteTables.pruneVersions (o : ChunkedVfsOptions) (path : String) (policy : RetentionPolicy) :
    Prog Failure (VfsOver SqliteTables) Nat := do
  let ino ← Transactional.resolveIno path
  (sqliteOps o ino).prune policy

theorem pruneVersions_eq (o : ChunkedVfsOptions) (path : String) (policy : RetentionPolicy) :
    Versioning.pruneVersions o path policy = (do
      let ino ← onVfs (resolveIno path)
      (memoryOps o ino).prune policy) := by
  rfl

/-! ### What a prune is to do -/

/-- The state of a ChunkedVFS with versions, as far as it matters here. -/
structure VersionView where
  records : Nat → List VersionRecord
  currentKeys : Nat → List BlockKey
  blocks : BlockKey → Option ByteArray8

def VersionedVfs.view (w : VersionedVfs) : VersionView :=
  ⟨w.records, w.vfs.metadata.currentKeys, w.vfs.blocks.blocks⟩

def VfsOver.view (v : VfsOver SqliteTables) : VersionView where
  records ino := (v.metadata.versions.filter (·.ino = ino)).map record
  currentKeys ino := (v.metadata.getAllChunkKeys ino).map Prod.snd
  blocks := v.blocks.blocks

namespace VersionView

/-- A version that goes names the key; no version that stays, and not the chunk map. -/
structure Garbage (s : VersionView) (ino : Nat) (versions : List Nat) (k : BlockKey) : Prop where
  deleted : ∃ r ∈ s.records ino, r.version ∈ versions ∧ k ∈ r.keys
  remaining : ∀ r ∈ s.records ino, r.version ∉ versions → k ∉ r.keys
  current : k ∉ s.currentKeys ino

/-- The versions of the inode that stay are left as they are, and so is everything else. -/
def without (s : VersionView) (ino : Nat) (versions : List Nat) : VersionView :=
  let remaining := (s.records ino).filter fun r => decide (r.version ∉ versions)
  { s with records := update s.records ino remaining }

/-- The versions go, and the keys are exactly the garbage they leave. -/
structure Frees (s s' : VersionView) (ino : Nat) (versions : List Nat) (keys : List BlockKey) :
    Prop where
  keys : ∀ k, k ∈ keys ↔ s.Garbage ino versions k
  rest : s' = s.without ino versions

/-- The `keep` newest stay. -/
structure KeepsNewest (keep : Nat) (before after : List VersionRecord) : Prop where
  length : after.length = min keep before.length
  newest : ∀ r ∈ after, ∀ r' ∈ before, r' ∉ after → r'.version < r.version

/-- A prune deletes versions and the blocks only they name; a deferred one leaves the blocks. -/
structure Prunes (s s' : VersionView) (ino : Nat) (policy : RetentionPolicy) : Prop where
  garbage : ∃ versions, s'.records = (s.without ino versions).records ∧
    ∀ k, ((policy ≠ .deferred ∧ s.Garbage ino versions k) → s'.blocks k = none) ∧
      (¬ (policy ≠ .deferred ∧ s.Garbage ino versions k) → s'.blocks k = s.blocks k)
  current : s'.currentKeys = s.currentKeys
  newest : ∀ keep : Nat, policy = .count keep → KeepsNewest keep (s.records ino) (s'.records ino)

end VersionView

/-! ### The store in memory -/

theorem mem_orphanedKeys_iff {deleted remaining : List VersionRecord} {current : List BlockKey}
    {k : BlockKey} : k ∈ Store.orphanedKeys deleted remaining current ↔
      (∃ r ∈ deleted, k ∈ r.keys) ∧ (∀ r ∈ remaining, k ∉ r.keys) ∧ k ∉ current := by
  simp only [Store.orphanedKeys, List.mem_filter, List.mem_eraseDups, List.mem_flatMap,
    List.mem_append, decide_eq_true_eq, not_or, not_exists, not_and, VersionRecord.keys]

open VersionView in
theorem store_deleteVersions_frees {w : VersionedVfs} (h : w.versioningEnabled = true) (ino : Nat)
    (versions : List Nat) : (Store.deleteVersions ino versions).Returns w fun keys w' =>
      Frees w.view w'.view ino versions keys ∧ w'.versioningEnabled = true := by
  have hsame : (∀ r ∈ w.records ino, r.version ∉ versions) →
      Frees w.view w.view ino versions [] := by
    intro hno
    refine ⟨fun k => ⟨fun hk => absurd hk List.not_mem_nil, fun ⟨⟨r, hr, hv, _⟩, _, _⟩ => ?_⟩, ?_⟩
    · exact absurd hv (hno r hr)
    · have hfilter : (w.records ino).filter (fun r => decide (r.version ∉ versions)) = w.records ino :=
        List.filter_eq_self.mpr fun r hr => decide_eq_true (hno r hr)
      unfold VersionView.without
      dsimp only [VersionedVfs.view]
      rw [hfilter, update_eq_self]
  unfold Store.deleteVersions Returns
  rw [wp_bind]
  refine wp_requireVersioning h ?_
  split
  · rename_i hnil
    rw [List.length_eq_zero_iff.mp hnil] at hsame ⊢
    exact ⟨hsame fun _ _ => List.not_mem_nil, h⟩
  rw [wp_bind, wp_read]
  cases hrec : w.versions ino with
  | none =>
      have hnil : w.records ino = [] := by rw [VersionedVfs.records, hrec]; rfl
      exact ⟨hsame fun r hr => absurd (hnil ▸ hr) List.not_mem_nil, h⟩
  | some records =>
      have hrecords : w.records ino = records := by rw [VersionedVfs.records, hrec]; rfl
      dsimp only
      rw [wp_bind, wp_update, wp_bind, wp_read, ← hrecords]
      refine ⟨⟨fun k => ?_, ?_⟩, h⟩
      · rw [mem_orphanedKeys_iff]
        constructor
        · rintro ⟨⟨r, hr, hk⟩, hrem, hcur⟩
          obtain ⟨hr, hv⟩ := List.mem_filter.mp hr
          exact ⟨⟨r, hr, of_decide_eq_true hv, hk⟩, fun r' hr' hv' =>
            hrem r' (List.mem_filter.mpr ⟨hr', decide_eq_true hv'⟩), hcur⟩
        · rintro ⟨⟨r, hr, hv, hk⟩, hrem, hcur⟩
          exact ⟨⟨r, List.mem_filter.mpr ⟨hr, decide_eq_true hv⟩, hk⟩, fun r' hr' =>
            hrem r' (List.mem_filter.mp hr').1 (of_decide_eq_true (List.mem_filter.mp hr').2), hcur⟩
      · have hview := funext fun j => records_withRecords w ino
          ((w.records ino).filter fun r => decide (r.version ∉ versions)) j
        show VersionView.mk (w.withRecords ino _).records _ _ = _
        rw [hview]
        rw [VersionView.without]
        congr 1
        funext j
        rw [update_apply]
        rfl

/-! ### The store over SQLite -/

namespace SqliteTables

variable {t : SqliteTables}

/-- The primary key of `versions`. -/
def Keyed (t : SqliteTables) : Prop := (t.versions.map fun r => (r.ino, r.version)).Nodup

section

variable (h : t.Keyed)
include h

theorem Keyed.deleteVersion (ino v : Nat) : (t.deleteVersion ino v).Keyed :=
  (List.filter_sublist.map _).nodup h

/-- The row with the key is the one that is looked up. -/
theorem Keyed.find {r : VersionRow} (hr : r ∈ t.versions) :
    t.versions.find? (fun r' => r'.ino = r.ino ∧ r'.version = r.version) = some r := by
  unfold Keyed at h
  generalize t.versions = rows at h hr
  induction rows with
  | nil => exact absurd hr List.not_mem_nil
  | cons x rows ih =>
      obtain ⟨hx, hrows⟩ := List.nodup_cons.mp h
      rcases List.mem_cons.mp hr with rfl | hr
      · exact List.find?_cons_of_pos (by simp)
      · rw [List.find?_cons_of_neg, ih hrows hr]
        refine fun hkey => hx (List.mem_map.mpr ⟨r, hr, ?_⟩)
        obtain ⟨hino, hversion⟩ := of_decide_eq_true hkey
        exact Prod.ext hino.symm hversion.symm

theorem Keyed.chunkMap {r : VersionRow} (hr : r ∈ t.versions) :
    t.getVersionChunkMap r.ino r.version = r.record.chunkMap := by
  rw [getVersionChunkMap, h.find hr]
  rfl

/-- The keys of a version are those of its row. -/
theorem Keyed.mem_chunkMap (ino v : Nat) (k : BlockKey) :
    k ∈ (t.getVersionChunkMap ino v).map Prod.snd ↔
      ∃ r ∈ t.versions, r.ino = ino ∧ r.version = v ∧ k ∈ r.record.keys := by
  constructor
  · intro hk
    unfold getVersionChunkMap at hk
    cases hfind : t.versions.find? fun r => r.ino = ino ∧ r.version = v with
    | none =>
        rw [hfind] at hk
        exact absurd hk List.not_mem_nil
    | some r =>
        rw [hfind] at hk
        have hkey := List.find?_some hfind
        obtain ⟨hino, hv⟩ := of_decide_eq_true hkey
        exact ⟨r, List.mem_of_find?_eq_some hfind, hino, hv, hk⟩
  · rintro ⟨r, hr, rfl, rfl, hk⟩
    rw [h.chunkMap hr]
    exact hk

/-- Versions go one by one. -/
theorem deleteEach_spec (ino : Nat) (versions : List Nat) :
    (deleteEach ino versions).Returns t fun keys t' =>
      t' = { t with versions := t.versions.filter fun r => ¬(r.ino = ino ∧ r.version ∈ versions) } ∧
      ∀ k, k ∈ keys ↔ ∃ r ∈ t.versions, r.ino = ino ∧ r.version ∈ versions ∧ k ∈ r.record.keys := by
  induction versions generalizing t with
  | nil => exact ⟨by simp, fun k => by simp⟩
  | cons v versions ih =>
      unfold deleteEach Returns
      rw [wp_bind, wp_read, wp_bind, wp_update, wp_bind]
      refine wp_mono (ih (h.deleteVersion ino v)) ?_ fun _ _ => False.elim
      rintro keys _ ⟨rfl, hkeys⟩
      refine ⟨?_, fun k => ?_⟩
      · simp only [deleteVersion, List.filter_filter, mk.injEq, true_and]
        refine List.filter_congr fun r _ => ?_
        simp only [List.mem_cons, ← Bool.decide_and, decide_eq_decide]
        tauto
      · rw [List.mem_append, h.mem_chunkMap, hkeys]
        simp only [deleteVersion, List.mem_filter, decide_eq_true_eq, List.mem_cons]
        constructor
        · rintro (⟨r, hr, hino, hv, hk⟩ | ⟨r, ⟨hr, -⟩, hino, hv, hk⟩)
          · exact ⟨r, hr, hino, .inl hv, hk⟩
          · exact ⟨r, hr, hino, .inr hv, hk⟩
        · rintro ⟨r, hr, hino, hv, hk⟩
          by_cases he : r.version = v
          · exact .inl ⟨r, hr, hino, he, hk⟩
          · exact .inr ⟨r, ⟨hr, fun h' => he h'.2⟩, hino, hv.resolve_left he, hk⟩

end

/-- The records of the rows that stay. -/
theorem records_filter (rows : List VersionRow) (ino : Nat) (versions : List Nat) (j : Nat) :
    ((rows.filter fun r => ¬(r.ino = ino ∧ r.version ∈ versions)).filter (·.ino = j)).map
        record =
      if j = ino then ((rows.filter (·.ino = ino)).map record).filter
        fun r => decide (r.version ∉ versions)
      else (rows.filter (·.ino = j)).map record := by
  rw [List.filter_filter]
  split
  · rename_i hj
    subst hj
    rw [List.filter_map, List.filter_filter]
    refine congrArg _ (List.filter_congr fun r _ => ?_)
    by_cases hino : r.ino = j
    · by_cases hv : r.version ∈ versions <;> simp [hino, hv, record]
    · simp [hino]
  · rename_i hj
    refine congrArg _ (List.filter_congr fun r _ => ?_)
    by_cases hino : r.ino = j
    · have hne : r.ino ≠ ino := hino ▸ hj
      simp [hino, hj]
    · simp [hino]

/-- What the rows of an inode refer to. -/
theorem Keyed.mem_referenced (h : t.Keyed) (ino : Nat) (k : BlockKey) :
    k ∈ ((t.versionRows ino).flatMap fun r => (t.getVersionChunkMap ino r.version).map Prod.snd) ↔
      ∃ r ∈ t.versions, r.ino = ino ∧ k ∈ r.record.keys := by
  simp only [List.mem_flatMap, versionRows, List.mem_insertionSort, List.mem_filter,
    decide_eq_true_eq, h.mem_chunkMap]
  constructor
  · rintro ⟨_, -, r, hr, hino, -, hk⟩
    exact ⟨r, hr, hino, hk⟩
  · rintro ⟨r, hr, hino, hk⟩
    exact ⟨r, ⟨hr, hino⟩, r, hr, hino, rfl, hk⟩

variable {v : VfsOver SqliteTables}

theorem mem_records {ino : Nat} {r : VersionRecord} :
    r ∈ v.view.records ino ↔ ∃ row ∈ v.metadata.versions, row.ino = ino ∧ row.record = r := by
  simp [VfsOver.view, and_assoc]

theorem deleteVersions_frees (h : v.metadata.Keyed) (ino : Nat) (versions : List Nat) :
    (Transactional.store (deleteVersions ino versions)).Returns v fun keys v' =>
      VersionView.Frees v.view v'.view ino versions keys ∧ v'.metadata.Keyed := by
  unfold Transactional.store Returns
  rw [wp_zoom, deleteVersions]
  split
  · rename_i hnil
    rw [List.length_eq_zero_iff.mp hnil]
    refine ⟨⟨fun k => ⟨fun hk => absurd hk List.not_mem_nil, fun ⟨⟨_, _, hv, _⟩, _, _⟩ => ?_⟩, ?_⟩, h⟩
    · exact absurd hv List.not_mem_nil
    · unfold VersionView.without
      simp [update_eq_self]
  rw [wp_bind]
  refine wp_mono (deleteEach_spec h ino versions) ?_ fun _ _ => False.elim
  rintro keys _ ⟨rfl, hkeys⟩
  rw [wp_bind, wp_read]
  have hkeyed : Keyed { v.metadata with
      versions := v.metadata.versions.filter fun r => ¬(r.ino = ino ∧ r.version ∈ versions) } :=
    (List.filter_sublist.map _).nodup h
  refine ⟨⟨fun k => ?_, ?_⟩, hkeyed⟩
  · have hreferenced := hkeyed.mem_referenced ino k
    rw [List.mem_filter, List.mem_eraseDups, hkeys, decide_eq_true_eq, List.mem_append, not_or]
    dsimp only [id]
    rw [hreferenced]
    simp only [List.mem_filter, decide_eq_true_eq]
    constructor
    · rintro ⟨⟨r, hr, hino, hv, hk⟩, hrem, hcur⟩
      refine ⟨⟨_, mem_records.mpr ⟨r, hr, hino, rfl⟩, hv, hk⟩, fun _ hr' hv' hk' => ?_, hcur⟩
      obtain ⟨r', hrow, hino', rfl⟩ := mem_records.mp hr'
      exact hrem ⟨r', ⟨hrow, fun h' => hv' h'.2⟩, hino', hk'⟩
    · rintro ⟨⟨_, hr, hv, hk⟩, hrem, hcur⟩
      obtain ⟨r, hrow, hino, rfl⟩ := mem_records.mp hr
      refine ⟨⟨r, hrow, hino, hv, hk⟩, ?_, hcur⟩
      rintro ⟨r', ⟨hr', hstays⟩, hino', hk'⟩
      exact hrem _ (mem_records.mpr ⟨r', hr', hino', rfl⟩) (fun hv' => hstays ⟨hino', hv'⟩) hk'
  · unfold VersionView.without VfsOver.view
    dsimp only
    congr 1
    funext j
    rw [records_filter, update_apply]

end SqliteTables

/-! ### Pruning -/

open VersionView

/-- What a prune rests on: the stores, seen as `view`, in the states that are `valid`. -/
structure PruneOps.Ok (ops : PruneOps σ) (ino : Nat) (view : σ → VersionView) (valid : σ → Prop) :
    Prop where
  list : ∀ s, valid s → ops.listVersions.Returns s fun all s' => s' = s ∧
    (all.map (·.version)).Perm ((((view s).records ino)).map (·.version)) ∧
    (all.map (·.version)).Pairwise (· > ·)
  now : ∀ s, valid s → ops.dateNow.Returns s fun _ s' => valid s' ∧ view s' = view s
  delete : ∀ s versions, valid s → (ops.deleteVersions versions).Returns s fun keys s' =>
    Frees (view s) (view s') ino versions keys
  deleteMany : ∀ s keys, (ops.deleteMany keys).Returns s fun _ s' =>
    (view s').records = (view s).records ∧ (view s').currentKeys = (view s).currentKeys ∧
      ∀ k, (view s').blocks k = if k ∈ keys then none else (view s).blocks k

/-- The newest are the first of those that are listed. -/
theorem keepsNewest_drop {records : List VersionRecord} {all : List Nat} (keep : Nat)
    (hperm : all.Perm (records.map (·.version))) (hsorted : all.Pairwise (· > ·)) :
    KeepsNewest keep records (records.filter fun r => decide (r.version ∉ all.drop keep)) := by
  have hsplit := hsorted
  rw [← List.take_append_drop keep all, List.pairwise_append] at hsplit
  obtain ⟨-, -, hlt⟩ := hsplit
  have hmem : ∀ v ∈ all, v ∉ all.drop keep → v ∈ all.take keep := by
    intro v hv hdrop
    rw [← List.take_append_drop keep all] at hv
    exact (List.mem_append.mp hv).resolve_right hdrop
  refine ⟨?_, fun r hr r' hr' hgone => ?_⟩
  · have htake : all.filter (fun v => decide (v ∉ all.drop keep)) = all.take keep := by
      conv_lhs => arg 2; rw [← List.take_append_drop keep all]
      rw [List.filter_append, List.filter_eq_self.mpr, List.filter_eq_nil_iff.mpr, List.append_nil]
      · exact fun v hv hstays => of_decide_eq_true hstays hv
      · exact fun v hv => decide_eq_true fun hdrop => Nat.lt_irrefl v (hlt v hv v hdrop)
    have hlen := (hperm.filter fun v => decide (v ∉ all.drop keep)).length_eq
    rw [htake, List.length_take, hperm.length_eq, List.length_map, List.filter_map,
      List.length_map] at hlen
    exact hlen.symm
  · obtain ⟨hr, hstays⟩ := List.mem_filter.mp hr
    have hdrop : r'.version ∈ all.drop keep := by
      by_contra hn
      exact hgone (List.mem_filter.mpr ⟨hr', decide_eq_true hn⟩)
    have hall : r.version ∈ all := hperm.mem_iff.mpr (List.mem_map_of_mem hr)
    exact hlt _ (hmem _ hall (of_decide_eq_true hstays)) _ hdrop

namespace VersionView

variable {s s₁ s₂ : VersionView} {ino : Nat} {policy : RetentionPolicy} {versions : List Nat}
  {keys : List BlockKey}

/-- There is nothing to prune. -/
theorem Prunes.refl (hnewest : ∀ keep : Nat, policy = .count keep →
    KeepsNewest keep (s.records ino) (s.records ino)) : Prunes s s ino policy := by
  refine ⟨⟨[], ?_, fun k => ⟨fun ⟨_, hg⟩ => ?_, fun _ => rfl⟩⟩, rfl, hnewest⟩
  · simp [without]
  · obtain ⟨⟨_, _, hv, _⟩, _, _⟩ := hg
    exact absurd hv List.not_mem_nil

/-- The versions go, and then the blocks. -/
theorem Frees.prunes (h : Frees s s₁ ino versions keys)
    (hrecords : s₂.records = s₁.records) (hcurrent : s₂.currentKeys = s₁.currentKeys)
    (hblocks : ∀ k, ((policy ≠ .deferred ∧ k ∈ keys) → s₂.blocks k = none) ∧
      (¬ (policy ≠ .deferred ∧ k ∈ keys) → s₂.blocks k = s₁.blocks k))
    (hnewest : ∀ keep : Nat, policy = .count keep → KeepsNewest keep (s.records ino)
      ((s.without ino versions).records ino)) : Prunes s s₂ ino policy := by
  obtain ⟨hkeys, rfl⟩ := h
  refine ⟨⟨versions, hrecords, fun k => ?_⟩, hcurrent, ?_⟩
  · rw [← hkeys]
    exact hblocks k
  · rw [hrecords]
    exact hnewest

end VersionView

section Prune
variable {ops : PruneOps σ} {ino : Nat} {view : σ → VersionView} {valid : σ → Prop}

/-- Which versions a policy prunes. -/
theorem PruneOps.Ok.toPrune (h : ops.Ok ino view valid) {s : σ} (hs : valid s)
    (all : List VersionMeta) (policy : RetentionPolicy) :
    (ops.toPrune all policy).Returns s fun pruned s' => valid s' ∧ view s' = view s ∧
      ∀ keep : Nat, policy = .count keep → pruned = (all.map (·.version)).drop keep := by
  cases policy with
  | count keep =>
      unfold PruneOps.toPrune
      dsimp only
      split
      · rename_i hle
        refine ⟨hs, rfl, fun n hn => ?_⟩
        cases hn
        refine (List.drop_eq_nil_of_le ?_).symm
        rw [List.length_map]
        exact Int.ofNat_le.mp hle
      · refine ⟨hs, rfl, fun n hn => ?_⟩
        cases hn
        rw [Versioning.sliceFrom, if_neg (by omega), Int.toNat_natCast, List.map_drop]
  | age maxAgeMs =>
      unfold PruneOps.toPrune Returns
      dsimp only
      rw [wp_bind]
      refine wp_mono (h.now s hs) ?_ fun _ _ => id
      rintro now s' ⟨hs', hview⟩
      exact ⟨hs', hview, fun _ hn => RetentionPolicy.noConfusion hn⟩
  | deferred => exact ⟨hs, rfl, fun _ hn => RetentionPolicy.noConfusion hn⟩

theorem PruneOps.Ok.prune (h : ops.Ok ino view valid) {s : σ} (hs : valid s)
    (policy : RetentionPolicy) :
    (ops.prune policy).Returns s fun _ s' => Prunes (view s) (view s') ino policy := by
  unfold PruneOps.prune Returns
  rw [wp_bind]
  refine wp_mono (h.list s hs) ?_ fun _ _ => id
  rintro all s ⟨rfl, hperm, hsorted⟩
  have hnewest := fun keep => keepsNewest_drop keep hperm hsorted
  have hnone : ∀ keep, (all.map (·.version)).drop keep = [] →
      KeepsNewest keep ((view s).records ino) ((view s).records ino) := by
    intro keep hnil
    have h := hnewest keep
    rw [hnil, List.filter_eq_self.mpr fun _ _ => decide_eq_true List.not_mem_nil] at h
    exact h
  split
  · rename_i hnil
    rw [List.length_eq_zero_iff.mp hnil] at hnone
    exact .refl fun keep _ => hnone keep List.drop_nil
  rw [wp_bind]
  refine wp_mono (h.toPrune hs all policy) ?_ fun _ _ => id
  rintro pruned s₁ ⟨hs₁, hview, hpruned⟩
  split
  · rename_i hnil
    show Prunes (view s) (view s₁) ino policy
    rw [hview]
    exact .refl fun keep hk => hnone keep ((hpruned keep hk).symm.trans (List.length_eq_zero_iff.mp hnil))
  rw [wp_bind]
  refine wp_mono (h.delete s₁ pruned hs₁) ?_ fun _ _ => id
  intro keys s₂ hfrees
  rw [hview] at hfrees
  have hkept : ∀ keep : Nat, policy = .count keep → KeepsNewest keep ((view s).records ino)
      (((view s).without ino pruned).records ino) := by
    intro keep hk
    unfold VersionView.without
    dsimp only
    rw [update_self, hpruned keep hk]
    exact hnewest keep
  have hdelete : policy ≠ .deferred → (ops.deleteMany keys).Returns s₂ fun _ s' =>
      Prunes (view s) (view s') ino policy := by
    intro hp
    refine wp_mono (h.deleteMany s₂ keys) ?_ fun _ _ => id
    rintro _ s₃ ⟨hrecords, hcurrent, hblocks⟩
    refine hfrees.prunes hrecords hcurrent (fun k => ⟨fun hk => ?_, fun hk => ?_⟩) hkept
    · rw [hblocks, if_pos hk.2]
    · rw [hblocks, if_neg fun hmem => hk ⟨hp, hmem⟩]
  cases policy with
  | deferred => exact hfrees.prunes rfl rfl (fun k => ⟨fun h => absurd rfl h.1, fun _ => rfl⟩) hkept
  | count | age =>
      dsimp only
      rw [wp_bind]
      exact wp_mono (hdelete (fun h => RetentionPolicy.noConfusion h)) (fun _ _ => id) fun _ _ => id

end Prune

/-! ### Runs of the store in memory -/

/-- The versions of an inode get numbers that grow. -/
structure VersionedVfs.Ordered (w : VersionedVfs) : Prop where
  enabled : w.versioningEnabled = true
  increasing : ∀ ino, (w.records ino).Pairwise (·.version < ·.version)

namespace VersionedVfs.Ordered

variable {o : ChunkedVfsOptions} {w w' : VersionedVfs} {β : Type}

/-- The program keeps the versions in order, whether it returns or throws. -/
abbrev Keeps (w : VersionedVfs) (p : VersionedProg α) : Prop :=
  p.wp w (fun _ w' => w'.Ordered) fun _ w' => w'.Ordered

theorem withRecords (h : w.Ordered) (ino : Nat) {l : List VersionRecord}
    (hl : l.Pairwise (·.version < ·.version)) : (w.withRecords ino l).Ordered := by
  refine ⟨h.enabled, fun j => ?_⟩
  rw [records_withRecords]
  split
  · exact hl
  · exact h.increasing j

theorem bind {p : VersionedProg α} {f : α → VersionedProg β} (hp : Keeps w p)
    (hf : ∀ a w', w'.Ordered → Keeps w' (f a)) : Keeps w (p >>= f) := by
  rw [Keeps, wp_bind]
  exact wp_mono hp hf fun _ _ => id

section

variable (h : w.Ordered)
include h

/-- The operations on files do not touch the versions. -/
theorem onVfs (p : VfsProg α) : Keeps w (onVfs p) := by
  rw [Keeps, Vfs.onVfs, wp_zoom]
  unfold wp
  split
  · exact ⟨h.enabled, h.increasing⟩
  · exact ⟨h.enabled, h.increasing⟩

variable (ino : Nat)

theorem store_createVersion :
    Keeps w (Store.createVersion o ino) := by
  unfold Store.createVersion Keeps
  rw [wp_bind]
  refine wp_requireVersioning h.enabled ?_
  rw [wp_bind, wp_read]
  cases w.vfs.metadata.getInode ino with
  | none => exact h
  | some i =>
      dsimp only
      rw [wp_bind, wp_read, wp_bind, wp_read, wp_bind]
      refine wp_dateNow fun now k => ?_
      rw [wp_bind, wp_update]
      have hclock : VersionedVfs.Ordered { w with vfs := { w.vfs with clockCalls := k } } :=
        ⟨h.enabled, h.increasing⟩
      refine hclock.withRecords ino (List.pairwise_append.mpr
        ⟨h.increasing ino, List.pairwise_singleton .., fun r hr r' hr' => ?_⟩)
      rw [List.mem_singleton.mp hr']
      exact lt_nextVersion (h.increasing ino) hr

theorem store_restoreVersion (ino version : Nat) :
    Keeps w (Store.restoreVersion o ino version) := by
  unfold Store.restoreVersion
  refine bind (wp_requireVersioning h.enabled h) fun _ w h => ?_
  rw [Keeps, wp_bind, wp_read]
  split
  · exact h
  refine bind (h.onVfs _) fun _ w h => ?_
  rw [Keeps, wp_bind, wp_read]
  split
  · exact h
  · exact bind (h.onVfs _) fun _ w h => bind (h.onVfs _) fun _ w h => h.onVfs _

theorem store_listVersions : (Store.listVersions ino).Returns w fun all w' => w' = w ∧
      (all.map (·.version)).Perm ((w.records ino).map (·.version)) ∧
      (all.map (·.version)).Pairwise (· > ·) := by
  unfold Store.listVersions Returns
  rw [wp_bind]
  refine wp_requireVersioning h.enabled ⟨rfl, ?_, ?_⟩
  · rw [List.map_reverse, List.map_map]
    exact List.reverse_perm _
  · rw [List.map_reverse, List.map_map, List.pairwise_reverse, List.pairwise_map]
    exact h.increasing ino

theorem store_deleteVersions (versions : List Nat) :
    (Store.deleteVersions ino versions).Returns w fun keys w' =>
      VersionView.Frees w.view w'.view ino versions keys ∧ w'.Ordered := by
  refine wp_mono (store_deleteVersions_frees h.enabled ino versions) ?_ fun _ _ => id
  rintro keys w' ⟨hfrees, henabled⟩
  refine ⟨hfrees, henabled, fun j => ?_⟩
  have hrecords := congrArg (fun s : VersionView => s.records j) hfrees.rest
  show (w'.view.records j).Pairwise _
  rw [hrecords]
  unfold VersionView.without
  dsimp only
  rw [update_apply]
  split
  · exact (h.increasing ino).filter _
  · exact h.increasing j

theorem pruneVersions (path : String) (policy : RetentionPolicy) :
    Keeps w (Versioning.pruneVersions o path policy) := by
  unfold Versioning.pruneVersions
  refine bind (h.onVfs _) fun ino w h => ?_
  refine bind (wp_mono (h.store_listVersions ino) (fun _ _ hl => hl.1 ▸ h) fun _ _ => False.elim)
    fun all w h => ?_
  split
  · exact h
  refine bind ?_ fun pruned w h => ?_
  · cases policy with
    | count keep =>
        unfold Versioning.toPrune
        dsimp only
        split
        · exact h
        · exact h
    | age maxAgeMs => exact bind (h.onVfs _) fun _ w h => h
    | deferred => exact h
  split
  · exact h
  refine bind (wp_mono (h.store_deleteVersions ino pruned) (fun _ _ hd => hd.2) fun _ _ =>
    False.elim) fun keys w h => ?_
  cases policy with
  | deferred => exact h
  | count keep => exact bind (h.onVfs _) fun _ w h => h
  | age maxAgeMs => exact bind (h.onVfs _) fun _ w h => h

/-- One call. -/
theorem versionStep {call : String × VersionCall}
    (hs : versionStep o w call = some w') : w'.Ordered := by
  obtain ⟨path, call⟩ := call
  have hkeeps : Keeps w (call.run o path) := by
    cases call with
    | file op => exact bind (h.onVfs _) fun _ w h => h
    | fsync => exact h.onVfs _
    | flushAll => exact h.onVfs _
    | createVersion =>
        refine bind (bind (h.onVfs _) fun ino w h => ?_) fun _ w h => h
        split
        · exact bind (h.onVfs _) fun _ w h => h.store_createVersion ino
        · exact h.store_createVersion ino
    | listVersions =>
        refine bind (bind (h.onVfs _) fun ino w h => ?_) fun _ w h => h
        exact bind (wp_mono (h.store_listVersions ino) (fun _ _ hl => hl.1 ▸ h) fun _ _ =>
          False.elim) fun _ w h => h
    | restoreVersion version =>
        exact bind (h.onVfs _) fun ino w h => bind (h.onVfs _) fun _ w h =>
          h.store_restoreVersion ino version
    | pruneVersions policy => exact bind (h.pruneVersions path policy) fun _ w h => h
  cases hs
  exact state_of_wp hkeeps

end

/-- Every state of a run. -/
theorem reach {now : Nat} (hr : Reach (Vfs.versionStep o) Any (.new now) w) : w.Ordered :=
  hr.invariant ⟨rfl, fun _ => List.Pairwise.nil⟩ fun _ _ _ h _ hs => h.versionStep hs

theorem pruneOps_ok (o : ChunkedVfsOptions) (ino : Nat) :
    (memoryOps o ino).Ok ino VersionedVfs.view VersionedVfs.Ordered where
  list _ h := h.store_listVersions ino
  now _ h := wp_dateNow fun _ _ => ⟨⟨h.enabled, h.increasing⟩, rfl⟩
  delete _ versions h := wp_mono (h.store_deleteVersions ino versions) (fun _ _ hd => hd.1)
    fun _ _ => id
  deleteMany s keys := by
    show (Vfs.onVfs (deleteBlocks keys)).wp s _ _
    rw [Vfs.onVfs, wp_zoom]
    exact ⟨rfl, rfl, fun k => blocks_deleteMany s.vfs.blocks keys k⟩

end VersionedVfs.Ordered

/-- `ORDER BY version DESC` -/
theorem SqliteTables.Keyed.descending {t : SqliteTables} (h : t.Keyed) (ino : Nat) :
    ((t.versionRows ino).map (·.version)).Pairwise (· > ·) := by
  have : Std.Total fun a b : VersionRow => b.version ≤ a.version := ⟨fun a b => Nat.le_total ..⟩
  have : IsTrans VersionRow fun a b => b.version ≤ a.version :=
    ⟨fun _ _ _ hab hbc => Nat.le_trans hbc hab⟩
  have hsorted := List.pairwise_insertionSort (fun a b : VersionRow => b.version ≤ a.version)
    (t.versions.filter (·.ino = ino))
  have hrows : ((t.versions.filter (·.ino = ino)).map (·.version)).Nodup := by
    have hkeys := (List.filter_sublist (p := (·.ino = ino)).map _).nodup h
    unfold List.Nodup at hkeys ⊢
    rw [List.pairwise_map] at hkeys ⊢
    refine hkeys.imp_of_mem fun {r r'} hr hr' hne hv => hne (Prod.ext ?_ hv)
    exact (of_decide_eq_true (List.mem_filter.mp hr).2).trans
      (of_decide_eq_true (List.mem_filter.mp hr').2).symm
  have hdistinct : ((t.versionRows ino).map (·.version)).Nodup :=
    ((List.perm_insertionSort ..).map _).nodup_iff.mpr hrows
  unfold List.Nodup at hdistinct
  rw [List.pairwise_map] at hdistinct ⊢
  exact (hsorted.and hdistinct).imp fun {r r'} hr => Nat.lt_of_le_of_ne hr.1 (Ne.symm hr.2)

theorem SqliteTables.Keyed.pruneOps_ok (o : ChunkedVfsOptions) (ino : Nat) :
    (sqliteOps o ino).Ok ino VfsOver.view fun v => v.metadata.Keyed where
  list v h := by
    have hperm := List.perm_insertionSort (fun a b : VersionRow => b.version ≤ a.version)
      (v.metadata.versions.filter (·.ino = ino))
    refine ⟨rfl, ?_, ?_⟩
    · unfold VfsOver.view
      rw [List.map_map, List.map_map]
      exact hperm.map _
    · rw [List.map_map]
      exact h.descending ino
  now _ h := ⟨h, rfl⟩
  delete _ versions h := wp_mono (deleteVersions_frees h ino versions) (fun _ _ hd => hd.1)
    fun _ _ => id
  deleteMany v keys := ⟨rfl, rfl, fun k => blocks_deleteMany v.blocks keys k⟩

/-! ### Pruning frees the garbage -/

/-- **Pruning frees only garbage**, over either store: the keys that `deleteVersions` returns are
those that a version that goes names, and none that stays, nor the chunk map; `pruneVersions`
deletes their blocks, unless it is deferred, and keeps the newest. -/
theorem prune_frees_garbage (o : ChunkedVfsOptions) {now : Nat} {w : VersionedVfs}
    (hr : Reach (versionStep o) Any (.new now) w) {v : VfsOver SqliteTables}
    (hkeyed : v.metadata.Keyed) :
    (∀ ino versions, (Store.deleteVersions ino versions).Returns w fun keys w' =>
      Frees w.view w'.view ino versions keys) ∧
    (∀ ino versions,
      (Transactional.store (deleteVersions ino versions)).Returns v fun keys v' =>
        Frees v.view v'.view ino versions keys) ∧
    (∀ path policy, (Versioning.pruneVersions o path policy).wp w
      (fun _ w' => ∃ ino, w.vfs.metadata.resolvePath (normalizePath path) = .ok ino ∧
        Prunes w.view w'.view ino policy) fun _ w' => w' = w) ∧
    ∀ path policy, (pruneVersions o path policy).wp v
      (fun _ v' => ∃ ino, v.metadata.resolvePath (normalizePath path) = .ok ino ∧
        Prunes v.view v'.view ino policy) fun _ v' => v' = v := by
  have hw := VersionedVfs.Ordered.reach hr
  refine ⟨fun ino versions => ?_, fun ino versions => ?_, fun path policy => ?_,
    fun path policy => ?_⟩
  · exact wp_mono (hw.store_deleteVersions ino versions) (fun _ _ h => h.1) fun _ _ => id
  · exact wp_mono (deleteVersions_frees hkeyed ino versions) (fun _ _ h => h.1)
      fun _ _ => id
  · rw [pruneVersions_eq, wp_bind, onVfs, wp_zoom]
    refine wp_resolveIno (fun ino hino => ?_) fun _ => rfl
    exact wp_mono ((VersionedVfs.Ordered.pruneOps_ok o ino).prune hw policy)
      (fun _ _ h => ⟨ino, hino, h⟩) fun _ _ => False.elim
  · unfold pruneVersions Transactional.resolveIno Transactional.query
    rw [wp_bind, wp_bind, wp_read]
    refine wp_lift_of (fun ino hino => ?_) fun _ _ => rfl
    exact wp_mono ((Keyed.pruneOps_ok o ino).prune hkeyed policy)
      (fun _ _ h => ⟨ino, hino, h⟩) fun _ _ => False.elim

/-- A database with one version of an inode. -/
def versionedTables : VfsOver SqliteTables where
  metadata := { new 0 with
    versions := [⟨1, 1, 3, 0, .chunked, none, some [(0, ⟨1, 0, none⟩)]⟩] }
  blocks := ⟨fun _ => none⟩
  writeBuffers := OMap.empty
  randomCalls := 0
  clockCalls := 0

/-- Written, versioned and written again. -/
def rewritten : VersionedVfs := versioned.after ("/f", .file (.writeFile [9]))

theorem prune_frees_garbage_rewritten :
    (Versioning.pruneVersions versioningOptions "/f" (.count 0)).wp rewritten
      (fun _ w' => ∃ ino, rewritten.vfs.metadata.resolvePath (normalizePath "/f") = .ok ino ∧
        Prunes rewritten.view w'.view ino (.count 0)) fun _ w' => w' = rewritten := by
  have hr : Reach (versionStep versioningOptions) Any (.new 0) rewritten :=
    .of_exec (show exec _ _ [("/f", .file (.writeFile [1, 2, 3])), ("/f", .createVersion),
      ("/f", .file (.writeFile [9]))] = _ from rfl)
  have hkeyed : versionedTables.metadata.Keyed := by
    unfold Keyed
    decide
  exact (prune_frees_garbage versioningOptions hr hkeyed).2.2.1 "/f" (.count 0)

/-- A deferred prune leaves the block of the version that goes. -/
theorem prune_deferred_keeps_garbage :
    ∃ w' k, (Versioning.pruneVersions versioningOptions "/f" .deferred).exec rewritten = (.ok 1, w') ∧
      w'.records 2 = [] ∧ rewritten.view.Garbage 2 [1] k ∧
      w'.vfs.blocks.blocks k = some [1, 2, 3] := by
  refine ⟨_, ⟨2, 0, some ""⟩, rfl, rfl, ⟨⟨_, List.mem_singleton_self _, ?_, ?_⟩, ?_, ?_⟩, ?_⟩
  · decide
  · decide
  · decide
  · decide
  · decide +kernel

end SecureExec.Vfs
