import SecureExec.Vfs.Copying

/-!
# Vfs — Removal — what the calls that take names away do

`removeFile`, `removeDir` and `rename`, which may take a name away before it moves one.  An inode
goes with its last link; its chunks go with it, and a write buffer it leaves behind is nobody's.
-/

namespace SecureExec.Vfs
open SecureExec Bytes Graph Prog Coro InMemoryMetadataStore Function Ns

variable {o : ChunkedVfsOptions} {v v' v₁ : ChunkedVfs} {ino p : Nat} {i : InodeMeta}
  {tidy : Prop} {name path : String} {e : Nat × String}

/-! ### One entry goes -/

theorem removeDentry_frame (m : InMemoryMetadataStore) (p : Nat) (name : String) :
    (m.removeDentry p name).nextIno = m.nextIno ∧ (m.removeDentry p name).inodes = m.inodes ∧
      (m.removeDentry p name).chunks = m.chunks := by
  unfold removeDentry
  cases m.dentries p <;> exact ⟨rfl, rfl, rfl⟩

/-- The contents are in order when an entry is gone. -/
theorem ContentOk.removeDentry (h : ContentOk o v) (p : Nat) (name : String) :
    ContentOk o { v with metadata := v.metadata.removeDentry p name } := by
  obtain ⟨h₁, h₂, h₃⟩ := removeDentry_frame v.metadata p name
  refine h.metadata h₃ rfl rfl h₁.ge fun j i hi => .inl ⟨i, ?_, .refl i⟩
  exact (congrFun h₂ j).symm.trans hi

/-- The contents are in order when an inode and its chunks are gone. -/
theorem ContentOk.dropped (h : ContentOk o v) (hlt : ino < v.metadata.nextIno)
    (ha : Apart ino v v') (hi : v'.metadata.inodes ino = none)
    (hch : v'.metadata.chunks ino = none)
    (hbuf : v'.writeBuffers.get ino = v.writeBuffers.get ino ∨ v'.writeBuffers.get ino = none) :
    ContentOk o v' := by
  refine h.apart ha hlt (fun ci k hk => ?_) ?_ (fun hp => ?_) fun i hi' => ?_
  · rw [getChunkKey, hch] at hk
    cases hk
  · rcases hbuf with hbuf | hbuf
    · intro ci k hk
      rw [ChunkedVfs.buffer, hbuf, ← ChunkedVfs.buffer] at hk
      exact h.shared ino ci k hk
    · exact sharedOk_none hbuf
  · rcases hbuf with hbuf | hbuf
    · exact hbuf.trans (h.plain hp ino)
    · exact hbuf
  · rw [hi] at hi'
    cases hi'

theorem apart_deleteInode (v : ChunkedVfs) (ino : Nat) :
    Apart ino v { v with metadata := v.metadata.deleteInode ino } :=
  ⟨rfl, fun _ hj => update_of_ne hj _ _, fun _ hj => update_of_ne hj _ _,
    fun _ _ => rfl, fun _ _ => rfl⟩

/-- `deleteInode`. -/
theorem ContentOk.deleteInode (h : ContentOk o v) (hlt : ino < v.metadata.nextIno) :
    ContentOk o { v with metadata := v.metadata.deleteInode ino } :=
  h.dropped hlt (apart_deleteInode v ino) (update_self ..) (update_self ..) (.inl rfl)

theorem dropDirectory_does (h : VfsOk o v) (he : v.metadata.ns.entry (p, name) = some ino)
    (hdir : v.metadata.ns.IsDir ino) (hempty : ∀ k, v.metadata.ns.entry (ino, k) = none) :
    (Async.dropDirectory p name ino).run.Returns v fun _ v' => Does o tidy v v' ∧
      v'.metadata.ns = v.metadata.ns.rmdir (p, name) ino := by
  have hlt : ino < v.metadata.nextIno := by
    obtain ⟨n, hn, -⟩ := hdir
    obtain ⟨i, hi, -⟩ := node_ns_some hn
    exact h.lt hi
  simp only [Async.dropDirectory, run_bind, run_await, Returns, wp_bind, updateMetadata,
    wp_update]
  refine wp_mono (changeNlink_updates _ p _) (fun _ v' hu => ?_) fun _ _ => id
  have hns : v'.metadata.ns = v.metadata.ns.rmdir (p, name) ino := by
    rw [hu.ns (· - 1) fun _ _ => ⟨rfl, rfl⟩, rmdir, ns_deleteInode, ns_removeDentry]
  have hlt₁ : ino < (v.metadata.removeDentry p name).nextIno := by
    rw [(removeDentry_frame v.metadata p name).1]
    exact hlt
  refine ⟨.step h (hns ▸ .rmdir he hdir hempty) ?_, hns⟩
  exact hu.content ((h.content.removeDentry p name).deleteInode hlt₁) fun _ _ => ⟨rfl, rfl, rfl, rfl⟩

/-- `deleteInode` after what may have gone before it: the entry, the chunks, the buffer. -/
theorem deleteInode_does (h : VfsOk o v) (he : v.metadata.ns.entry (p, name) = some ino)
    (hi : v.metadata.inodes ino = some i) (hty : i.type ≠ .directory) (hl : i.nlink - 1 ≤ 0)
    (ha : Apart ino { v with metadata := v.metadata.removeDentry p name } v')
    (hbuf : v'.writeBuffers.get ino = v.writeBuffers.get ino ∨ v'.writeBuffers.get ino = none)
    (hns : v'.metadata.ns = v.metadata.ns.setEntry (p, name) none) :
    Does o tidy v { v' with metadata := v'.metadata.deleteInode ino } ∧
      (v'.metadata.deleteInode ino).ns =
        v.metadata.ns.unlink (p, name) ino ⟨i.type, i.nlink⟩ := by
  have hunlink : (v'.metadata.deleteInode ino).ns =
      v.metadata.ns.unlink (p, name) ino ⟨i.type, i.nlink⟩ := by
    rw [ns_deleteInode, hns, unlink, if_pos hl]
  have hlt : ino < (v.metadata.removeDentry p name).nextIno := by
    rw [(removeDentry_frame v.metadata p name).1]
    exact h.lt hi
  have hc : ContentOk o { v' with metadata := v'.metadata.deleteInode ino } :=
    (h.content.removeDentry p name).dropped hlt (ha.trans (apart_deleteInode v' ino))
      (update_self ..) (update_self ..) hbuf
  exact ⟨.step h (hunlink ▸ .unlink he (node_ns hi) hty) hc, hunlink⟩

theorem dropLink_does (h : VfsOk o v) (he : v.metadata.ns.entry (p, name) = some ino)
    (hi : v.metadata.inodes ino = some i) (hty : i.type ≠ .directory) (dropsBuffer : Bool) :
    (Async.dropLink o p name ino i dropsBuffer).run.Returns v fun _ v' => Does o tidy v v' ∧
      v'.metadata.ns = v.metadata.ns.unlink (p, name) ino ⟨i.type, i.nlink⟩ := by
  simp only [Async.dropLink, run_bind, run_await, run_ite, run_lift,
    Async.run_dropAllChunks, Returns, wp_bind, updateMetadata, wp_update]
  have hc₁ := h.content.removeDentry p name
  have hns₁ := ns_removeDentry v.metadata p name
  split
  · rename_i hl
    -- once the chunks are gone, or there were none
    have hrest : ∀ v₂ : ChunkedVfs,
        Apart ino { v with metadata := v.metadata.removeDentry p name } v₂ →
        v₂.writeBuffers = v.writeBuffers →
        v₂.metadata.ns = v.metadata.ns.setEntry (p, name) none →
        (if dropsBuffer = true then Async.dropBuffer ino >>= fun _ =>
            update fun v => { v with metadata := v.metadata.deleteInode ino }
          else update fun v => { v with metadata := v.metadata.deleteInode ino } :
          VfsProg PUnit).Returns v₂ fun _ v' => Does o tidy v v' ∧
            v'.metadata.ns = v.metadata.ns.unlink (p, name) ino ⟨i.type, i.nlink⟩ := by
      intro v₂ ha hbuf hns
      split
      · simp only [Returns, Async.dropBuffer, wp_bind, wp_update]
        have hdrop : Apart ino { v with metadata := v.metadata.removeDentry p name }
            { v₂ with writeBuffers := v₂.writeBuffers.delete ino } :=
          ha.trans (elsewhere_drop v₂ ino).apart
        exact deleteInode_does h he hi hty hl hdrop (.inr (OMap.get_delete_self ..)) hns
      · exact deleteInode_does h he hi hty hl ha (.inl (by rw [hbuf])) hns
    split
    · rw [wp_bind]
      refine wp_mono (wp_and (dropAllChunks_returns o (hc₁.keys ino))
        ((LeavesNs.storing.dropAllChunks _).state _)) ?_ fun _ _ => And.left
      rintro _ v₂ ⟨he₂, hns₂⟩
      exact hrest v₂ he₂.touches.toElsewhere.apart he₂.buffers (hns₂.trans hns₁)
    · exact hrest _ (Elsewhere.refl ino _).apart rfl hns₁
  · rename_i hl
    rw [wp_bind]
    refine wp_mono (dateNow_returns o _) ?_ fun _ _ => id
    rintro now v₂ ⟨n, rfl⟩
    refine wp_mono (updateInode_updates _ ino _) (fun _ v' hu => ?_) fun _ _ => id
    have hns : v'.metadata.ns = v.metadata.ns.unlink (p, name) ino ⟨i.type, i.nlink⟩ := by
      rw [hu.ns (fun _ => i.nlink - 1) fun _ _ => ⟨rfl, rfl⟩, unlink, if_neg hl]
      change (v.metadata.removeDentry p name).ns.relink ino _ = _
      rw [hns₁]
      exact relink_const (s := v.metadata.ns.setEntry (p, name) none) (node_ns hi) (· - 1)
    refine ⟨.step h (hns ▸ .unlink he (node_ns hi) hty) ?_, hns⟩
    exact hu.content (hc₁.counters v.randomCalls n) fun _ _ => ⟨rfl, rfl, rfl, rfl⟩

/-! ### `removeFile` and `removeDir` -/

theorem removeFile_does (h : VfsOk o v) (path : String) :
    AlwaysDoes o tidy (Async.removeFile o path).run v := by
  simp only [AlwaysDoes, Async.removeFile, run_bind, run_await, wp_bind]
  refine wp_resolveParentPath (fun p name hp => ?_) fun _ => .refl h
  rw [wp_lookup]
  cases hl : v.metadata.lookup p name with
  | none => exact .refl h
  | some childIno =>
      simp only [run_bind, run_await, wp_bind]
      refine wp_requireInode (fun i hi => ?_) fun _ => .refl h
      simp only [run_ite, run_withLock]
      split
      · exact .refl h
      · rename_i hty
        exact wp_mono (dropLink_does h (show v.metadata.ns.entry (p, name) = some childIno from hl) hi hty true)
          (fun _ _ h' => h'.1) fun _ _ => False.elim

variable {m : InMemoryMetadataStore}

/-- A directory that lists nothing has no entries. -/
theorem lookup_of_listDir (h : ¬ (m.listDir ino).length > 0)
    (k : String) : m.lookup ino k = none := by
  rw [listDir] at h
  rw [lookup]
  cases hd : m.dentries ino with
  | none => rfl
  | some dir =>
      rw [hd] at h
      have hnil : dir.entries = [] := List.eq_nil_of_length_eq_zero (Nat.eq_zero_of_not_pos h)
      change (dir.entries.lookup k).map _ = none
      rw [hnil]
      rfl

theorem isDir_of (hi : m.inodes ino = some i)
    (hty : i.type = .directory) : m.ns.IsDir ino :=
  ⟨_, node_ns hi, hty⟩

theorem removeDir_does (h : VfsOk o v) (path : String) :
    AlwaysDoes o tidy (Async.removeDir path).run v := by
  unfold Async.removeDir
  split
  · exact .refl h
  simp only [AlwaysDoes, run_bind, run_await, wp_bind]
  refine wp_resolveParentPath (fun p name hp => ?_) fun _ => .refl h
  rw [wp_lookup]
  cases hl : v.metadata.lookup p name with
  | none => exact .refl h
  | some childIno =>
      simp only [run_bind, run_await, wp_bind]
      refine wp_requireInode (fun i hi => ?_) fun _ => .refl h
      simp only [run_ite, run_bind, run_await]
      split
      · exact .refl h
      rename_i hty
      rw [wp_bind, wp_read]
      split
      · exact .refl h
      rename_i hempty
      exact wp_mono (dropDirectory_does h
        (show v.metadata.ns.entry (p, name) = some childIno from hl)
        (isDir_of hi (not_not.mp hty)) (lookup_of_listDir hempty)) (fun _ _ h' => h'.1)
        fun _ _ => False.elim

/-! ### `rename` -/

/-- What `rename` does to the entry it replaces. -/
inductive Ns.Replaced (s : Ns) (dst : Nat × String) (d : Nat) : Ns → Prop where
  | rmdir (hd : s.IsDir d) (hempty : ∀ k, s.entry (d, k) = none) : Replaced s dst d (s.rmdir dst d)
  | unlink {n : Node} (hn : s.node d = some n) (ht : n.type ≠ .directory) :
      Replaced s dst d (s.unlink dst d n)

/-- What is left of the entry that moves: it is there still, or it went with the one it replaces. -/
structure Ns.Left (s s' : Ns) (src dst : Nat × String) (c : Nat) : Prop where
  free : s'.entry dst = none
  sub : ∀ x y, s'.entry x = some y → s.entry x = some y
  moves : (s'.entry src = none ∧ (s.IsDir c → src.1 = dst.1)) ∨
    (s'.entry src = some c ∧ (∃ n, s'.node dst.1 = some n) ∧ (s.IsDir dst.1 → s'.IsDir dst.1) ∧
      ∀ n, s.node c = some n → ∃ n', s'.node c = some n' ∧ n'.type = n.type)

section Left
variable {s s' : Ns} {src dst : Nat × String} {c d : Nat}

theorem Ns.node_erase_drop (hc : c ≠ d) :
    ((s.setEntry dst none).dropNode d).node c = s.node c :=
  update_of_ne hc _ _

/-- An inode that one entry names and that goes with it. -/
theorem left_dropped (h : NsOk s) (he : s.entry src = some c) (hd : s.entry dst = some d)
    (hone : ∀ x, s.entry x = some d → x = dst) (hdst : dst.1 ≠ d)
    (hdir : s.IsDir c → src.1 ≠ d) :
    Left s ((s.setEntry dst none).dropNode d) src dst c := by
  have hent : ∀ {x y}, ((s.setEntry dst none).dropNode d).entry x = some y ↔
      x.1 ≠ d ∧ x ≠ dst ∧ s.entry x = some y := fun {x y} => by
    rw [entry_dropNode_some]
    exact and_congr_right fun _ => PartialMap.erase_eq_some
  refine ⟨?_, fun x y hx => (hent.mp hx).2.2, ?_⟩
  · cases hx : ((s.setEntry dst none).dropNode d).entry dst with
    | none => rfl
    | some y => exact absurd rfl (hent.mp hx).2.1
  · by_cases hgone : src.1 = d ∨ src = dst
    · refine .inl ⟨?_, fun hc => ?_⟩
      · cases hx : ((s.setEntry dst none).dropNode d).entry src with
        | none => rfl
        | some y =>
            obtain ⟨h₁, h₂, -⟩ := hent.mp hx
            exact absurd hgone (not_or.mpr ⟨h₁, h₂⟩)
      · rcases hgone with hsd | hsd
        · exact absurd hsd (hdir hc)
        · rw [hsd]
    · obtain ⟨h₁, h₂⟩ := not_or.mp hgone
      have hcd : c ≠ d := fun hcd => h₂ (hone src (hcd ▸ he))
      refine .inr ⟨hent.mpr ⟨h₁, h₂, he⟩, ?_, fun hdir => ?_, fun n hn => ⟨n, ?_, rfl⟩⟩
      · rw [node_erase_drop hdst]
        exact h.parent dst d hd
      · exact isDir_dropNode.mpr ⟨hdst, hdir⟩
      · rw [node_erase_drop hcd, hn]

/-- The last link of a file or symlink is its only entry. -/
theorem NsOk.only {n : Node} (h : NsOk s) (hd : s.entry dst = some d) (hn : s.node d = some n)
    (ht : n.type ≠ .directory) (hl : n.nlink - 1 ≤ 0) : ∀ x, s.entry x = some d → x = dst := by
  have hfile := h.files d n hn ht
  exact fun x hx => eq_of_count_le_one h.finite (show s.refs d ≤ 1 by omega) hx rfl hd rfl

/-- A link count changes besides. -/
theorem Ns.Left.relink (h : Left s s' src dst c) (x : Nat) (f : Nat → Nat) :
    Left s (s'.relink x f) src dst c := by
  refine ⟨h.free, h.sub, h.moves.imp id ?_⟩
  rintro ⟨he, ⟨n, hn⟩, hdir, hc⟩
  refine ⟨he, (relink_some hn).imp fun _ => And.left, fun hd => isDir_relink.mpr (hdir hd),
    fun m hm => ?_⟩
  obtain ⟨m', hm', hty⟩ := hc m hm
  obtain ⟨m'', hm'', hty'⟩ := relink_some (c := x) (f := f) hm'
  exact ⟨m'', hm'', hty'.trans hty⟩

theorem Ns.Replaced.left (h : NsOk s) (he : s.entry src = some c) (hd : s.entry dst = some d)
    (hr : Reaches s.entry 1 dst.1) (hs : s.Replaced dst d s') : Ns.Left s s' src dst c := by
  cases hs with
  | rmdir hdir hempty =>
      have hnot : ∀ {x y}, s.entry x = some y → x.1 ≠ d := fun {x y} hx hxd => by
        obtain ⟨a, k⟩ := x
        obtain rfl : a = d := hxd
        rw [hempty k] at hx
        cases hx
      exact (left_dropped h he hd (fun x hx => h.single x dst d hx hd hdir) (hnot hd)
        fun _ => hnot he).relink _ _
  | @unlink n hn ht =>
      have hfile := h.files d n hn ht
      rw [Ns.unlink]
      split
      · rename_i hl
        -- the last link: no other entry, and no subdirectories
        have hone := h.only hd hn ht hl
        have hroot : 1 ≠ d := fun h1 => by
          obtain ⟨m, hm, hdir⟩ := h.root
          rw [h1, hn] at hm
          cases hm
          exact ht hdir
        refine left_dropped h he hd hone (fun hdd => ?_) fun hdir hsd => ?_
        · obtain ⟨x, k, hx, hk⟩ := (hdd ▸ hr).edge_into hroot
          exact hx ((congrArg Prod.fst (hone _ hk)).trans hdd)
        · have hpos : 0 < s.subdirs d := (count_pos h.finite).mpr ⟨src, c, he, hsd, hdir⟩
          have hrefs := h.refs_pos hd
          omega
      · refine Ns.Left.relink ⟨update_self .., fun x y hx => ?_, ?_⟩ _ _
        · exact (PartialMap.erase_eq_some.mp hx).2
        · by_cases hsd : src = dst
          · exact .inl ⟨hsd ▸ update_self .., fun _ => by rw [hsd]⟩
          · exact .inr ⟨PartialMap.erase_eq_some.mpr ⟨hsd, he⟩, h.parent dst d hd, id,
              fun m hm => ⟨m, hm, rfl⟩⟩

end Left

variable {dst : Nat × String}

theorem renameOver_does (h : VfsOk o v) {d : Nat}
    (hd : v.metadata.ns.entry dst = some d) (newPath : String) :
    (Async.renameOver o newPath dst.1 dst.2 d).run.wp v
      (fun _ v' => Does o tidy v v' ∧ v.metadata.ns.Replaced dst d v'.metadata.ns)
      fun _ v' => Does o tidy v v' := by
  simp only [Async.renameOver, run_bind, run_await, run_ite, wp_bind]
  refine wp_requireInode (fun i hi => ?_) fun _ => .refl h
  split
  · rename_i hty
    rw [wp_bind, wp_read]
    split
    · exact .refl h
    · rename_i hempty
      have hnone := lookup_of_listDir hempty
      exact wp_mono (dropDirectory_does h hd (isDir_of hi hty) hnone)
        (fun _ v' h' => ⟨h'.1, h'.2 ▸ .rmdir (isDir_of hi hty) hnone⟩) fun _ _ => False.elim
  · rename_i hty
    exact wp_mono (dropLink_does h hd hi hty false)
      (fun _ v' h' => ⟨h'.1, h'.2 ▸ .unlink (node_ns hi) hty⟩) fun _ _ => False.elim

theorem renameDentry_frame (m : InMemoryMetadataStore) (p q : Nat) (k l : String) :
    (m.renameDentry p k q l).nextIno = m.nextIno ∧ (m.renameDentry p k q l).inodes = m.inodes ∧
      (m.renameDentry p k q l).chunks = m.chunks := by
  unfold renameDentry
  cases m.dentries p with
  | none => exact ⟨rfl, rfl, rfl⟩
  | some dir =>
      dsimp only
      cases dir.get k <;> exact ⟨rfl, rfl, rfl⟩

/-- There is nothing to move. -/
theorem renameDentry_none {k : String}
    (h : m.lookup p k = none) (q : Nat) (l : String) : m.renameDentry p k q l = m := by
  rw [lookup] at h
  unfold renameDentry
  cases hd : m.dentries p with
  | none => rfl
  | some dir =>
      rw [hd] at h
      have hget : dir.get k = none := Option.map_eq_none_iff.mp h
      simp only [hget]

/-- The entry moves, and a directory's parents are told. -/
theorem moved_does (h : VfsOk o v) {src : Nat × String} {n : Node}
    (he : v.metadata.ns.entry src = some ino) (he' : v.metadata.ns.entry dst = none)
    (hp : ∃ n, v.metadata.ns.node dst.1 = some n) (hn : v.metadata.ns.node ino = some n)
    (htidy : tidy → v.metadata.ns.IsDir dst.1 ∧
      (n.type = .directory → ¬ Reaches v.metadata.ns.entry ino dst.1)) :
    (updateMetadata (·.renameDentry src.1 src.2 dst.1 dst.2) >>= fun _ =>
      if n.type = .directory ∧ src.1 ≠ dst.1 then
        (Async.changeNlink src.1 (· - 1)).run >>= fun _ => (Async.changeNlink dst.1 (· + 1)).run
      else pure ⟨⟩ : VfsProg PUnit).Returns v fun _ v' => Does o tidy v v' := by
  obtain ⟨h₁, h₂, h₃⟩ := renameDentry_frame v.metadata src.1 dst.1 src.2 dst.2
  have hmove := NsStep.move he he' hp hn htidy
  have hns := ns_renameDentry (q := dst.1) (l := dst.2) (show v.metadata.lookup src.1 src.2 = _ from he)
  have hc : ContentOk o { v with metadata := v.metadata.renameDentry src.1 src.2 dst.1 dst.2 } :=
    h.content.metadata h₃ rfl rfl h₁.ge fun j i hi =>
      .inl ⟨i, (congrFun h₂ j).symm.trans hi, .refl i⟩
  rw [Returns, wp_bind, updateMetadata, wp_update]
  rw [move] at hmove
  split
  · rename_i hdir
    rw [if_pos hdir] at hmove
    rw [wp_bind]
    refine wp_mono (changeNlink_updates _ src.1 _) (fun _ v₁ hu₁ => ?_) fun _ _ => id
    refine wp_mono (changeNlink_updates _ dst.1 _) (fun _ v₂ hu₂ => ?_) fun _ _ => id
    have hns₂ : v₂.metadata.ns = (((v.metadata.ns.setEntry src none).setEntry dst
        (some ino)).relink src.1 (· - 1)).relink dst.1 (· + 1) := by
      rw [hu₂.ns (· + 1) fun _ _ => ⟨rfl, rfl⟩, hu₁.ns (· - 1) fun _ _ => ⟨rfl, rfl⟩, hns]
    refine .step h (hns₂ ▸ hmove) (hu₂.content (hu₁.content hc ?_) ?_)
    · exact fun _ _ => ⟨rfl, rfl, rfl, rfl⟩
    · exact fun _ _ => ⟨rfl, rfl, rfl, rfl⟩
  · rename_i hdir
    rw [if_neg hdir] at hmove
    exact .step h (hns ▸ hmove) hc

/-- What stands at the name is no directory that has entries. -/
def Ns.Replaceable (s : Ns) (e : Nat × String) : Prop :=
  ∀ d, s.entry e = some d → s.IsDir d → ∀ k, s.entry (d, k) = none

theorem Ns.Replaced.replaceable {s s' : Ns} {d : Nat}
    (hd : s.entry dst = some d) (h : s.Replaced dst d s') : s.Replaceable dst := by
  intro d' hd' hdir
  obtain rfl : d = d' := Option.some.inj (hd.symm.trans hd')
  cases h with
  | rmdir _ hempty => exact hempty
  | unlink hn ht =>
      obtain ⟨n, hn', hty⟩ := hdir
      rw [hn] at hn'
      cases hn'
      exact absurd hty ht

theorem renameLocked_does (h : VfsOk o v) {src : Nat × String}
    (he : v.metadata.ns.entry src = some ino) (hi : v.metadata.inodes ino = some i)
    (hr : Reaches v.metadata.ns.entry 1 dst.1)
    (htidy : tidy → v.metadata.ns.Replaceable dst → v.metadata.ns.IsDir dst.1 ∧
      (i.type = .directory → ¬ Reaches v.metadata.ns.entry ino dst.1)) (newPath : String) :
    AlwaysDoes o tidy (Async.renameLocked o newPath src dst i).run v := by
  simp only [AlwaysDoes, Async.renameLocked, run_bind, run_await, wp_bind]
  rw [wp_lookup]
  cases hl : v.metadata.lookup dst.1 dst.2 with
  | none =>
      simp only [run_bind, run_await, run_ite, run_pure]
      have hmove := moved_does (n := ⟨i.type, i.nlink⟩) h he hl
        (h.ns.reached hr) (node_ns hi) fun ht => htidy ht fun d hd => by
          rw [show v.metadata.ns.entry dst = none from hl] at hd
          cases hd
      exact wp_mono hmove (fun _ _ => id) fun _ _ => False.elim
  | some d =>
      simp only [run_bind, run_await, run_ite, run_pure]
      rw [wp_bind]
      refine wp_mono (renameOver_does h (show v.metadata.ns.entry dst = some d from hl) newPath) ?_
        fun _ _ => id
      rintro _ v₁ ⟨hd₁, hrep⟩
      have hleft := hrep.left h.ns he hl hr
      replace htidy := fun ht => htidy ht (hrep.replaceable hl)
      rcases hleft.moves with ⟨hgone, hsame⟩ | ⟨he₁, hp₁, hdir₁, hn₁⟩
      · rw [wp_bind, updateMetadata, wp_update, renameDentry_none hgone, if_neg]
        · exact hd₁
        · exact fun hmv => hmv.2 (hsame (isDir_of hi hmv.1))
      · obtain ⟨n₁, hn₁, hty⟩ := hn₁ _ (node_ns hi)
        have hmove := moved_does hd₁.ok he₁ hleft.free hp₁ hn₁ fun (ht : tidy) =>
          ⟨hdir₁ (htidy ht).1, fun hd hreach => (htidy ht).2 (hty.symm.trans hd)
            (hreach.mono fun a b ⟨k, hk⟩ => ⟨k, hleft.sub (a, k) b hk⟩)⟩
        rw [hty] at hmove
        exact wp_mono hmove (fun _ _ h' => hd₁.trans h') fun _ _ => False.elim

/-- What moves, moves into a directory, and no directory moves below itself. -/
def MovesInDir (m : InMemoryMetadataStore) (oldPath newPath : String) : Prop :=
  normalizePath oldPath ≠ normalizePath newPath →
    ∀ src dst c, m.resolveParentPath (normalizePath oldPath) = .ok src →
      m.resolveParentPath (normalizePath newPath) = .ok dst → m.ns.entry src = some c →
      m.ns.Replaceable dst → m.ns.IsDir dst.1 ∧ (m.ns.IsDir c → ¬ Reaches m.ns.entry c dst.1)

theorem rename_does (h : VfsOk o v) (oldPath newPath : String)
    (hm : tidy → MovesInDir v.metadata oldPath newPath) :
    AlwaysDoes o tidy (Async.rename o oldPath newPath).run v := by
  unfold AlwaysDoes Async.rename
  split
  · exact .refl h
  rename_i hne
  simp only [run_bind, run_await, wp_bind]
  refine wp_resolveParentPath (fun p name hp => ?_) fun _ => .refl h
  refine wp_resolveParentPath (fun q name' hq => ?_) fun _ => .refl h
  rw [wp_lookup]
  cases hl : v.metadata.lookup p name with
  | none => exact .refl h
  | some c =>
      simp only [run_bind, run_await, run_withLock, wp_bind]
      refine wp_requireInode (fun i hi => ?_) fun _ => .refl h
      have he : v.metadata.ns.entry (p, name) = some c := hl
      have hr : Reaches v.metadata.ns.entry 1 (q, name').1 := resolveParentPath_reaches hq
      refine renameLocked_does h he hi hr (fun ht hrep => ?_) newPath
      obtain ⟨hdir, hnot⟩ := hm ht hne (p, name) (q, name') c hp hq hl hrep
      exact ⟨hdir, fun hty => hnot (isDir_of hi hty)⟩

end SecureExec.Vfs
