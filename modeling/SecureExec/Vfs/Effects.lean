import SecureExec.Vfs.Content
import SecureExec.Vfs.Namespace

/-!
# Vfs — Effects — what each operation does to the names

Every operation, at every path, is a run of changes of the namespace (`NsStep`) and leaves the
contents in order (`Does`), whether it returns or throws.

The condition under which the changes are `tidy` is the condition on the call: an entry is made in
a directory (`MakesInDir` for the operations that walk a path themselves, the resolved parent for
the others), no directory moves below itself, and an `open` makes no file at a path that has an
entry.
-/

namespace SecureExec.Vfs
open SecureExec Graph Prog InMemoryMetadataStore Coro Ns Function

variable {o : ChunkedVfsOptions} {v v' v₀ v₁ : ChunkedVfs} {ino p child : Nat} {i : InodeMeta}
  {m m' : InMemoryMetadataStore} {tidy : Prop} {name path : String} {s : Ns}
  {t : InodeType} {target : Option String}

/-! ### Where a path leads -/

theorem walk_reaches {follow : Option (List String → Except Failure Nat)}
    (hf : ∀ f l c, follow = some f → f l = .ok c → Reaches m.ns.entry 1 c) (l : List String) :
    ∀ cur done, Reaches m.ns.entry 1 cur → m.walkComponents follow cur done l = .ok ino →
      Reaches m.ns.entry 1 ino := by
  induction l with
  | nil =>
      intro cur done hr h
      cases h
      exact hr
  | cons name rest ih =>
      intro cur done hr h
      unfold walkComponents at h
      split at h
      · cases h
      split at h
      · cases h
      split at h
      · cases h
      rename_i dir hdir
      split at h
      · cases h
      rename_i entry hentry
      have hchild : Reaches m.ns.entry 1 entry.childIno := by
        refine hr.tail ⟨name, ?_⟩
        change m.lookup cur name = some entry.childIno
        rw [lookup, hdir]
        simp only [hentry, Option.map_some]
      split at h
      · split at h
        · split at h
          · cases h
          split at h
          · cases h
          split at h
          · cases h
          split at h
          · exact hf _ _ _ rfl h
          · exact hf _ _ _ rfl h
        · exact ih _ _ hchild h
      · exact ih _ _ hchild h

theorem resolve_reaches (n : Nat) :
    ∀ (l : List String) (ino : Nat), m.resolveComponentsCore n l = .ok ino →
      Reaches m.ns.entry 1 ino := by
  induction n with
  | zero => exact fun l ino h => walk_reaches (fun f l c hf => by cases hf) l 1 [] .refl h
  | succ n ih =>
      intro l ino h
      refine walk_reaches (fun f l c hf hc => ?_) l 1 [] .refl h
      cases hf
      exact ih l c hc

/-- What is reached is there. -/
theorem NsShape.reached (h : NsShape s) (hr : Reaches s.entry 1 p) : ∃ n, s.node p = some n := by
  rcases Relation.ReflTransGen.cases_tail hr with rfl | ⟨b, -, k, hk⟩
  · obtain ⟨n, hn, -⟩ := h.root
    exact ⟨n, hn⟩
  · exact h.child (b, k) p hk

theorem resolveParentPath_reaches (h : m.resolveParentPath path = .ok (p, name)) :
    Reaches m.ns.entry 1 p := by
  unfold resolveParentPath at h
  split at h
  · cases h
  split at h
  · cases h
  rename_i q hq
  cases h
  exact resolve_reaches _ _ _ hq

/-! ### Statements that look -/

section Look
variable {E : Failure → ChunkedVfs → Prop}

theorem wp_resolveIno {Q : Nat → ChunkedVfs → Prop}
    (hok : ∀ c, v.metadata.resolvePath (normalizePath path) = .ok c → Q c v) (he : ∀ e, E e v) :
    (resolveIno path).wp v Q E := by
  unfold resolveIno
  rw [wp_bind, wp_read]
  exact wp_lift_of hok fun e _ => he e

theorem wp_resolveParentPath {Q : Nat × String → ChunkedVfs → Prop}
    (hok : ∀ p name, v.metadata.resolveParentPath (normalizePath path) = .ok (p, name) →
      Q (p, name) v) (he : ∀ e, E e v) : (Async.resolveParentPath path).wp v Q E := by
  unfold Async.resolveParentPath
  rw [wp_bind, wp_read]
  exact wp_lift_of (fun r hr => hok r.1 r.2 hr) fun e _ => he e

theorem wp_requireInode {Q : InodeMeta → ChunkedVfs → Prop}
    (hok : ∀ i, v.metadata.inodes ino = some i → Q i v) (he : ∀ e, E e v) :
    (requireInode ino).wp v Q E := by
  unfold requireInode
  rw [wp_bind, wp_read]
  cases hi : v.metadata.getInode ino with
  | none => exact he _
  | some i => exact hok i hi

@[simp] theorem wp_lookup {Q : Option Nat → ChunkedVfs → Prop} :
    (Async.lookup p name).wp v Q E ↔ Q (v.metadata.lookup p name) v := Iff.rfl

end Look

/-! ### Making an inode -/

/-- The inode `ino` is updated, if it is there, and nothing else. -/
structure Updates (v v' : ChunkedVfs) (ino : Nat) (g : InodeMeta → InodeMeta) : Prop where
  inodes : ∀ j, v'.metadata.inodes j =
    if j = ino then (v.metadata.inodes j).map g else v.metadata.inodes j
  ns : ∀ f, (∀ i, v.metadata.inodes ino = some i → (g i).type = i.type ∧ (g i).nlink = f i.nlink) →
    v'.metadata.ns = v.metadata.ns.relink ino f
  nextIno : v'.metadata.nextIno = v.metadata.nextIno
  chunks : v'.metadata.chunks = v.metadata.chunks
  blocks : v'.blocks = v.blocks
  buffers : v'.writeBuffers = v.writeBuffers

theorem updates_updateInode (v : ChunkedVfs) (ino : Nat) (g : InodeMeta → InodeMeta) :
    Updates v { v with metadata := v.metadata.updateInode ino g } ino g := by
  refine ⟨fun j => ?_, fun f hf => ns_updateInode hf, ?_, ?_, rfl, rfl⟩
  · change (v.metadata.updateInode ino g).inodes j = _
    rw [InMemoryMetadataStore.updateInode]
    by_cases hj : j = ino
    · subst hj
      rw [if_pos rfl]
      cases hi : v.metadata.inodes j with
      | none => exact hi
      | some i => exact update_self ..
    · rw [if_neg hj]
      cases v.metadata.inodes ino with
      | none => rfl
      | some i => exact update_of_ne hj _ _
  · change (v.metadata.updateInode ino g).nextIno = _
    rw [InMemoryMetadataStore.updateInode]
    cases v.metadata.inodes ino <;> rfl
  · change (v.metadata.updateInode ino g).chunks = _
    rw [InMemoryMetadataStore.updateInode]
    cases v.metadata.inodes ino <;> rfl

theorem updateInode_updates (v : ChunkedVfs) (ino : Nat) (g : InodeMeta → InodeMeta) :
    (updateInode ino g).Returns v fun _ v' => Updates v v' ino g :=
  updates_updateInode v ino g

variable {g : InodeMeta → InodeMeta}

/-- An update that leaves the storage keeps the contents in order. -/
theorem Updates.content (hu : Updates v v' ino g)
    (h : ContentOk o v) (hg : ∀ i, v.metadata.inodes ino = some i → SameStorage i (g i)) :
    ContentOk o v' := by
  refine h.metadata hu.chunks hu.blocks hu.buffers hu.nextIno.ge fun j i' hi' => .inl ?_
  rw [hu.inodes] at hi'
  split at hi'
  · rename_i hj
    subst hj
    obtain ⟨i, hi, rfl⟩ := Option.map_eq_some_iff.mp hi'
    exact ⟨i, hi, hg i hi⟩
  · exact ⟨i', hi', .refl i'⟩

theorem Updates.apart (hu : Updates v v' ino g) : Apart ino v v' :=
  ⟨hu.nextIno, fun j hj => by rw [hu.inodes, if_neg hj], fun _ _ => by rw [hu.chunks],
    fun _ _ => by rw [hu.blocks], fun _ _ => by rw [hu.buffers]⟩

/-- An inode and its name are made. -/
structure Makes (v v' : ChunkedVfs) (t : InodeType) (target : Option String) (p : Nat)
    (name : String) : Prop where
  ns : v'.metadata.ns =
    (v.metadata.ns.addNode ⟨t, 0⟩ target).setEntry (p, name) (some v.metadata.nextIno)
  inode : ∃ i, v'.metadata.inodes v.metadata.nextIno = some i ∧ i.type = t ∧ i.nlink = 0 ∧
    i.storageMode = .inline ∧ i.inlineContent = none ∧ i.size = 0
  others : ∀ j, j ≠ v.metadata.nextIno → v'.metadata.inodes j = v.metadata.inodes j
  nextIno : v'.metadata.nextIno = v.metadata.nextIno + 1
  chunks : v'.metadata.chunks = v.metadata.chunks
  blocks : v'.blocks = v.blocks
  buffers : v'.writeBuffers = v.writeBuffers

theorem createInode_returns (o : ChunkedVfsOptions) (attrs : CreateInodeAttrs) (v : ChunkedVfs) :
    (Async.createInode o attrs).Returns v fun r v' => r = v.metadata.nextIno ∧
      ∃ now n, v' = { v with
        metadata := (v.metadata.createInode attrs now).2, clockCalls := n } :=
  ⟨rfl, _, _, rfl⟩

/-- The two statements that make an inode and its name, where the name is not there. -/
theorem makes_returns (h : NsOk v.metadata.ns) (o : ChunkedVfsOptions) (attrs : CreateInodeAttrs)
    (hl : v.metadata.lookup p name = none) {β : Type} {k : Nat → VfsProg β} {Q : β → ChunkedVfs → Prop} {E : Failure → ChunkedVfs → Prop}
    (hk : ∀ v', Makes v v' attrs.type
      (if attrs.type = .symlink then attrs.symlinkTarget else none) p name →
      (k v.metadata.nextIno).wp v' Q E) :
    (Async.createInode o attrs >>= fun c => Async.createDentry p name c t >>= fun _ => k c).wp v Q E := by
  rw [wp_bind]
  refine wp_mono (createInode_returns o attrs v) ?_ fun _ _ => False.elim
  rintro _ v₁ ⟨rfl, now, n, rfl⟩
  have hns := ns_createInode h.toNsShape attrs now
  -- making the inode gives no name
  have hl₁ : (v.metadata.createInode attrs now).2.lookup p name = none := by
    change (v.metadata.createInode attrs now).2.ns.entry (p, name) = none
    rw [hns]
    exact hl
  obtain ⟨m', hm'⟩ := createDentry_ok hl₁ v.metadata.nextIno t
  have hinodes : m'.inodes = (v.metadata.createInode attrs now).2.inodes := by
    simp only [createDentry] at hm'
    split at hm'
    · cases hm'
    · cases hm'
      rfl
  have hrest : m'.nextIno = v.metadata.nextIno + 1 ∧ m'.chunks = v.metadata.chunks := by
    simp only [createDentry] at hm'
    split at hm'
    · cases hm'
    · cases hm'
      exact ⟨rfl, rfl⟩
  rw [wp_bind]
  unfold Async.createDentry
  rw [wp_bind, wp_read, wp_bind]
  simp only [hm', wp_lift_ok, updateMetadata, wp_update]
  refine hk _ ⟨?_, ?_, fun j hj => ?_, hrest.1, hrest.2, rfl, rfl⟩
  · rw [ns_createDentry hm', hns]
  · rw [hinodes]
    exact ⟨_, update_self .., rfl, rfl, rfl, rfl, rfl⟩
  · rw [hinodes]
    exact update_of_ne hj _ _

/-- The link count of an inode that was just made. -/
theorem relink_addNode (s : Ns) (n : Node) (target : Option String) (e : Nat × String)
    (x : Option Nat) (k : Nat) :
    ((s.addNode n target).setEntry e x).relink s.next (fun _ => k) =
      (s.addNode { n with nlink := k } target).setEntry e x := by
  refine Ns.ext rfl (funext fun y => ?_) rfl rfl
  rw [Ns.node_relink]
  change (if y = s.next then ((s.addNode n target).node y).map _ else (s.addNode n target).node y) =
    (s.addNode { n with nlink := k } target).node y
  rw [Ns.node_addNode, Ns.node_addNode]
  split
  · rfl
  · rfl

theorem changeNlink_updates (v : ChunkedVfs) (ino : Nat) (f : Nat → Nat) :
    (Async.changeNlink ino f).run.Returns v fun _ v' =>
      Updates v v' ino fun i => { i with nlink := f i.nlink } := by
  simp only [Async.changeNlink, run_bind, run_await, Returns, wp_bind, wp_read]
  cases hi : v.metadata.getInode ino with
  | none =>
      have hu := updates_updateInode v ino fun i => { i with nlink := f i.nlink }
      rw [InMemoryMetadataStore.updateInode, show v.metadata.inodes ino = none from hi] at hu
      exact hu
  | some i =>
      have hu := updates_updateInode v ino fun j => { j with nlink := f j.nlink }
      simp only [run_await]
      refine wp_mono (updateInode_updates v ino _) ?_ fun _ _ => id
      intro _ v' h
      refine ⟨fun j => ?_, fun f' hf' => h.ns f' fun j hj => ?_, h.nextIno, h.chunks, h.blocks,
        h.buffers⟩
      · rw [h.inodes]
        split
        · rename_i hj
          subst hj
          rw [show v.metadata.inodes j = some i from hi]
          rfl
        · rfl
      · have hji : i = j := Option.some.inj ((show v.metadata.inodes ino = some i from hi).symm.trans hj)
        exact hji ▸ hf' j hj

section

variable (hm : Makes v v₁ t target p name) (hch : v'.metadata.chunks = v₁.metadata.chunks)
  (hbl : v'.blocks = v₁.blocks) (hbuf : v'.writeBuffers = v₁.writeBuffers)
  (hn : v'.metadata.nextIno = v₁.metadata.nextIno)
include hm hch hbl hbuf hn

/-- The inode that was made is the only one whose storage is new. -/
theorem Makes.content (h : ContentOk o v)
    (hnew : ∀ i, v'.metadata.inodes v.metadata.nextIno = some i → i.storageMode = .inline ∧
      (i.type = .file → i.size = (i.inlineContent.getD []).length))
    (hin : ∀ j i', j ≠ v.metadata.nextIno → v'.metadata.inodes j = some i' →
      ∃ i, v₁.metadata.inodes j = some i ∧ SameStorage i i') : ContentOk o v' := by
  refine h.metadata (hch.trans hm.chunks) (hbl.trans hm.blocks) (hbuf.trans hm.buffers) ?_
    fun j i' hi' => ?_
  · rw [hn, hm.nextIno]
    exact Nat.le_succ _
  · by_cases hj : j = v.metadata.nextIno
    · subst hj
      exact .inr ⟨Nat.le_refl _, hnew i' hi'⟩
    · obtain ⟨i, hi, hs⟩ := hin j i' hj hi'
      rw [hm.others j hj] at hi
      exact .inl ⟨i, hi, hs⟩

/-- What was there stays. -/
theorem Makes.leavesOld
    (hin : ∀ j i, j ≠ v.metadata.nextIno → v₁.metadata.inodes j = some i →
      ∃ i', v'.metadata.inodes j = some i' ∧ SameStorage i i')
    (hgrows : v.metadata.ns.Grows v'.metadata.ns) : LeavesOld v v' := by
  refine ⟨?_, fun j hj => ⟨fun i hi => ?_, ?_, fun k _ => ?_, ?_⟩, hgrows⟩
  · rw [hn, hm.nextIno]
    exact Nat.le_succ _
  · exact hin j i hj.ne ((hm.others j hj.ne).trans hi)
  · rw [hch, hm.chunks]
  · rw [hbl, hm.blocks]
  · rw [hbuf, hm.buffers]

end

/-- The statements that end the making of a directory. -/
theorem directory_made (h : VfsOk o v)
    (hl : v.metadata.lookup p name = none) (hp : ∃ n, v.metadata.ns.node p = some n)
    (hdir : tidy → v.metadata.ns.IsDir p) (hm : Makes v v₁ .directory none p name) {v₂ : ChunkedVfs}
    (h₂ : Updates v₁ v₂ v.metadata.nextIno g)
    (hg : ∀ i, (g i).type = i.type ∧ (g i).nlink = 2 ∧ (g i).storageMode = i.storageMode)
    (h₃ : Updates v₂ v' p fun i => { i with nlink := i.nlink + 1 }) :
    Does o tidy v v' ∧ v'.metadata.ns = v.metadata.ns.make (p, name) .directory none ∧
      LeavesOld v v' := by
  have hpne : p ≠ v.metadata.nextIno := hp.elim fun _ hn => h.ns.ne_next hn
  have hns : v'.metadata.ns = v.metadata.ns.make (p, name) .directory none := by
    rw [h₃.ns (· + 1) fun _ _ => ⟨rfl, rfl⟩,
      h₂.ns (fun _ => 2) fun i _ => ⟨(hg i).1, (hg i).2.1⟩, hm.ns, make, if_pos rfl]
    change relink (relink _ v.metadata.ns.next _) p _ = _
    rw [relink_addNode]
    rfl
  refine ⟨.step h (hns ▸ .make .directory none (fun h => by cases h) hl hp hdir) ?_, hns,
    hm.leavesOld (h₃.chunks.trans h₂.chunks) (h₃.blocks.trans h₂.blocks)
      (h₃.buffers.trans h₂.buffers) (h₃.nextIno.trans h₂.nextIno) (fun j i hj hi => ?_)
      (hns ▸ h.ns.grows_make hl hp (fun h => by cases h))⟩
  rotate_left
  · rw [h₃.inodes, h₂.inodes, if_neg hj, hi]
    split
    · exact ⟨_, rfl, rfl, rfl, rfl, rfl⟩
    · exact ⟨i, rfl, .refl i⟩
  refine hm.content (h₃.chunks.trans h₂.chunks) (h₃.blocks.trans h₂.blocks)
    (h₃.buffers.trans h₂.buffers) (h₃.nextIno.trans h₂.nextIno) h.content (fun i hi => ?_)
    fun j i' hj hi' => ?_
  · rw [h₃.inodes, if_neg hpne.symm, h₂.inodes, if_pos rfl] at hi
    obtain ⟨i₁, hi₁, rfl⟩ := Option.map_eq_some_iff.mp hi
    obtain ⟨i₀, hi₀, hty, -, hmode, -⟩ := hm.inode
    obtain rfl : i₀ = i₁ := Option.some.inj (hi₀.symm.trans hi₁)
    refine ⟨(hg i₀).2.2.trans hmode, fun hf => ?_⟩
    rw [(hg i₀).1, hty] at hf
    cases hf
  · rw [h₃.inodes, h₂.inodes, if_neg hj] at hi'
    split at hi'
    · obtain ⟨i, hi, rfl⟩ := Option.map_eq_some_iff.mp hi'
      exact ⟨i, hi, rfl, rfl, rfl, rfl⟩
    · exact ⟨i', hi', .refl i'⟩

theorem makeDirectory_does (h : VfsOk o v) (hl : v.metadata.lookup p name = none)
    (hp : ∃ n, v.metadata.ns.node p = some n) (hdir : tidy → v.metadata.ns.IsDir p) :
    (Async.makeDirectory o p name).run.Returns v fun r v' => Does o tidy v v' ∧
      r = v.metadata.nextIno ∧
      v'.metadata.ns = v.metadata.ns.make (p, name) .directory none ∧ LeavesOld v v' := by
  simp only [Async.makeDirectory, run_bind, run_await, Returns]
  refine makes_returns h.ns o _ hl fun v₁ h₁ => ?_
  rw [wp_bind]
  refine wp_mono (updateInode_updates v₁ _ _) ?_ fun _ _ => id
  intro _ v₂ h₂
  have hend : ∀ v', Updates v₂ v' p (fun i => { i with nlink := i.nlink + 1 }) →
      Does o tidy v v' ∧ v'.metadata.ns = v.metadata.ns.make (p, name) .directory none ∧
        LeavesOld v v' := fun v' h₃ =>
    directory_made h hl hp hdir h₁ h₂ (fun _ => ⟨rfl, rfl, rfl⟩) h₃
  have hlink := changeNlink_updates v₂ p (· + 1)
  simp only [Async.changeNlink, run_bind, run_await, Returns, wp_bind, wp_read] at hlink
  rw [wp_bind, wp_read]
  cases hi : v₂.metadata.getInode p with
  | none =>
      simp only [hi] at hlink
      exact ⟨(hend v₂ hlink).1, rfl, (hend v₂ hlink).2⟩
  | some ip =>
      simp only [hi, run_await] at hlink
      simp only [run_bind, run_await, wp_bind]
      exact wp_mono hlink (fun _ v' h₃ => ⟨(hend v' h₃).1, rfl, (hend v' h₃).2⟩) fun _ _ => id

/-! ### Walks by the entries -/

/-- The inode that the names lead to from `cur`. -/
def Ns.follow (s : Ns) : Nat → List String → Option Nat
  | cur, [] => some cur
  | cur, name :: rest =>
    match s.entry (cur, name) with
    | none => none
    | some child => s.follow child rest

variable {cur : Nat}

theorem Ns.follow_cons (he : s.entry (cur, name) = some child) (l : List String) :
    s.follow cur (name :: l) = s.follow child l := by
  rw [follow, he]

variable (l : List String)

theorem Ns.follow_append {l' : List String} :
    ∀ cur, s.follow cur (l ++ l') = (s.follow cur l).bind (s.follow · l') := by
  induction l with
  | nil => exact fun cur => rfl
  | cons name l ih =>
      intro cur
      rw [List.cons_append, follow, follow]
      cases s.entry (cur, name) with
      | none => rfl
      | some child => exact ih child

theorem Ns.follow_snoc {x : Nat} {l : List String} :
    s.follow cur (l ++ [name]) = some x ↔ ∃ p, s.follow cur l = some p ∧ s.entry (p, name) = some x := by
  rw [follow_append, Option.bind_eq_some_iff]
  refine exists_congr fun p => and_congr_right fun _ => ?_
  rw [follow]
  cases s.entry (p, name) with
  | none => simp
  | some y => simp [follow]

theorem Ns.Grows.isDir {s' : Ns} (h : s.Grows s') (hd : s.IsDir cur) : s'.IsDir cur := by
  obtain ⟨n, hn, ht⟩ := hd
  obtain ⟨n', hn', ht'⟩ := h.types cur n hn
  exact ⟨n', hn', ht'.trans ht⟩

theorem Ns.Grows.follow {s' : Ns} (h : s.Grows s') (l : List String) :
    ∀ cur, s.follow cur l = some p → s'.follow cur l = some p := by
  induction l with
  | nil => exact fun cur hc => hc
  | cons name l ih =>
      intro cur hc
      rw [Ns.follow] at hc ⊢
      cases he : s.entry (cur, name) with
      | none =>
          rw [he] at hc
          cases hc
      | some child =>
          rw [he] at hc
          rw [h.entries _ _ he]
          exact ih child hc

/-- Nothing is below an inode without entries. -/
theorem Ns.follow_empty (he : ∀ k, s.entry (cur, k) = none) {l : List String}
    (hl : l ≠ []) : s.follow cur l = none := by
  cases l with
  | nil => exact absurd rfl hl
  | cons name l => rw [follow, he]

/-! ### Walks that make what is missing -/

/-- The first entry a walk finds missing is in a directory. -/
def Ns.MakesInDir (s : Ns) : Nat → List String → Prop
  | _, [] => True
  | cur, name :: rest =>
    match s.entry (cur, name) with
    | some child => s.MakesInDir child rest
    | none => s.IsDir cur

theorem Ns.MakesInDir.below {rest : List String} (h : s.MakesInDir cur (name :: rest))
    (he : s.entry (cur, name) = some child) : s.MakesInDir child rest := by
  rw [MakesInDir, he] at h
  exact h

theorem Ns.MakesInDir.dir {rest : List String} (h : s.MakesInDir cur (name :: rest))
    (he : s.entry (cur, name) = none) : s.IsDir cur := by
  rw [MakesInDir, he] at h
  exact h

/-- Nothing is missing on the way to a new directory's entries but they themselves. -/
theorem Ns.MakesInDir.empty (hd : s.IsDir cur) (he : ∀ k, s.entry (cur, k) = none)
    (l : List String) : s.MakesInDir cur l := by
  cases l with
  | nil => trivial
  | cons name rest =>
      rw [MakesInDir, he]
      exact hd

/-- What there is after a directory was made. -/
theorem make_dir_spec {e : Nat × String} (h : NsOk s) (hp : ∃ n, s.node e.1 = some n) :
    (s.make e .directory none).IsDir s.next ∧
      (∀ k, (s.make e .directory none).entry (s.next, k) = none) ∧
      (s.make e .directory none).entry e = some s.next := by
  have hp1 : e.1 ≠ s.next := hp.elim fun _ hn => h.ne_next hn
  refine ⟨isDir_make.mpr (.inl ⟨rfl, rfl⟩), fun k => ?_, ?_⟩
  · rw [entry_make, update_of_ne]
    · rcases hk : s.entry (s.next, k) with _ | x
      · rfl
      · exact absurd rfl (h.parent_ne_next hk)
    · rintro rfl
      exact hp1 rfl
  · rw [entry_make, update_self]

/-- The missing parents are made; what follows the walk is still made in a directory. -/
theorem ensureParentsLoop_does (rest l : List String) :
    ∀ cur v, VfsOk o v → (∃ n, v.metadata.ns.node cur = some n) →
      (tidy → v.metadata.ns.MakesInDir cur (l ++ rest)) →
      (Async.ensureParentsLoop o cur l).run.Returns v fun p v' => Does o tidy v v' ∧
        (∃ n, v'.metadata.ns.node p = some n) ∧ (tidy → v'.metadata.ns.MakesInDir p rest) ∧
        LeavesOld v v' ∧ v'.metadata.ns.follow cur l = some p := by
  induction l with
  | nil => exact fun cur v h hn hm => ⟨.refl h, hn, hm, .refl v, rfl⟩
  | cons component l ih =>
      intro cur v h hn hm
      simp only [Async.ensureParentsLoop, run_bind, run_await, Returns, wp_bind, wp_read]
      cases hl : v.metadata.lookup cur component with
      | some child =>
          refine wp_mono (ih child v h (h.ns.child (cur, component) child hl)
            fun ht => MakesInDir.below (hm ht) hl) ?_ fun _ _ => id
          rintro p v' ⟨hd, hn', hm', hold, hf⟩
          exact ⟨hd, hn', hm', hold, (follow_cons (hold.grows.entries _ _ hl) l).trans hf⟩
      | none =>
          simp only [run_bind, wp_bind]
          refine wp_mono (makeDirectory_does h hl hn fun ht => MakesInDir.dir (hm ht) hl) ?_ fun _ _ => False.elim
          rintro _ v₁ ⟨hd₁, rfl, hns₁, hold₁⟩
          obtain ⟨hdir, hempty, hentry⟩ := make_dir_spec (e := (cur, component)) h.ns hn
          rw [← hns₁] at hdir hempty hentry
          refine wp_mono (ih _ v₁ hd₁.ok (hdir.imp fun _ => And.left) fun _ =>
            .empty hdir hempty _) ?_ fun _ _ => id
          rintro p v' ⟨hd, hn', hm', hold, hf⟩
          exact ⟨hd₁.trans hd, hn', hm', hold₁.trans hold,
            (follow_cons (hold.grows.entries _ _ hentry) l).trans hf⟩

theorem ensureParents_does (h : VfsOk o v) (path : String)
    (hm : tidy → v.metadata.ns.MakesInDir 1 (splitPath (normalizePath path))) :
    (Async.ensureParents o path).run.wp v
      (fun r v' => Does o tidy v v' ∧ (∃ n, v'.metadata.ns.node r.1 = some n) ∧
        (tidy → v'.metadata.ns.MakesInDir r.1 [r.2]) ∧ LeavesOld v v' ∧
        ∃ l, splitPath (normalizePath path) = l ++ [r.2] ∧ v'.metadata.ns.follow 1 l = some r.1)
      fun _ v' => v' = v ∧ splitPath (normalizePath path) = [] := by
  unfold Async.ensureParents
  cases hl : (splitPath (normalizePath path)).getLast? with
  | none =>
      simp only [hl]
      exact ⟨rfl, List.getLast?_eq_none_iff.mp hl⟩
  | some name =>
      have hsplit := List.dropLast_append_getLast? name hl
      simp only [hl, run_bind, wp_bind]
      refine wp_mono (ensureParentsLoop_does [name] _ 1 v h ?_ fun ht : tidy => ?_) ?_
        fun _ _ => False.elim
      · exact h.ns.root.imp fun _ => And.left
      · rw [hsplit]
        exact hm ht
      · rintro p v' ⟨hd, hn, hm', hold, hf⟩
        exact ⟨hd, hn, hm', hold, _, hsplit.symm, hf⟩

/-! ### Directories -/

theorem createDir_does (h : VfsOk o v) (path : String)
    (hm : tidy → ∀ p name, v.metadata.resolveParentPath (normalizePath path) = .ok (p, name) →
      v.metadata.lookup p name = none → v.metadata.ns.IsDir p) :
    (Async.createDir o path).run.wp v (fun _ v' => Does o tidy v v') fun _ v' => Does o tidy v v' := by
  simp only [Async.createDir, run_bind, run_await, wp_bind]
  refine wp_resolveParentPath (fun p name hp => ?_) fun _ => .refl h
  rw [wp_lookup]
  cases hl : v.metadata.lookup p name with
  | some _ => exact .refl h
  | none =>
      simp only [run_bind, wp_bind]
      refine wp_mono (makeDirectory_does h hl (h.ns.reached (resolveParentPath_reaches hp))
        fun ht => hm ht p name hp hl) (fun _ v' h' => h'.1) fun _ _ => False.elim

/-- The parent loop of `mkdir` finds what is there, or fails. -/
theorem mkdirParent_does :
    ∀ cur, VfsOk o v → (∃ n, v.metadata.ns.node cur = some n) →
      (Async.mkdirParent path cur l).run.wp v
        (fun p v' => v' = v ∧ (∃ n, v.metadata.ns.node p = some n) ∧
          v.metadata.ns.follow cur l = some p)
        fun _ v' => v' = v := by
  induction l with
  | nil => exact fun cur h hn => ⟨rfl, hn, rfl⟩
  | cons part l ih =>
      intro cur h hn
      simp only [Async.mkdirParent, run_bind, run_await, wp_bind, wp_lookup]
      cases hl : v.metadata.lookup cur part with
      | none => rfl
      | some child =>
          rw [follow_cons (show v.metadata.ns.entry (cur, part) = some child from hl)]
          exact ih child h (h.ns.child (cur, part) child hl)

theorem mkdirAll_does :
    ∀ cur v, VfsOk o v → (∃ n, v.metadata.ns.node cur = some n) →
      (tidy → v.metadata.ns.MakesInDir cur l) →
      (Async.mkdirAll o cur l).run.wp v (fun _ v' => Does o tidy v v') fun _ v' => Does o tidy v v' := by
  induction l with
  | nil => exact fun cur v h _ _ => .refl h
  | cons part l ih =>
      intro cur v h hn hm
      simp only [Async.mkdirAll, run_bind, run_await, wp_bind, wp_lookup]
      cases hl : v.metadata.lookup cur part with
      | some child =>
          exact ih child v h (h.ns.child (cur, part) child hl) fun ht => MakesInDir.below (hm ht) hl
      | none =>
          simp only [run_bind, wp_bind]
          refine wp_mono (makeDirectory_does h hl hn fun ht => MakesInDir.dir (hm ht) hl) ?_ fun _ _ => False.elim
          rintro _ v₁ ⟨hd₁, rfl, hns₁, -⟩
          obtain ⟨hdir, hempty, -⟩ := make_dir_spec (e := (cur, part)) h.ns hn
          rw [← hns₁] at hdir hempty
          exact wp_mono (ih _ v₁ hd₁.ok (hdir.imp fun _ => And.left) fun _ => .empty hdir hempty _)
            (fun _ v' hd => hd₁.trans hd) fun _ v' hd => hd₁.trans hd

/-- What `mkdir` makes, it makes in directories. -/
def Ns.MkdirInDir (s : Ns) (parts : List String) (recursive : Bool) : Prop :=
  if recursive then s.MakesInDir 1 parts
  else ∀ p name, s.follow 1 parts.dropLast = some p → parts.getLast? = some name →
    s.MakesInDir p [name]

theorem mkdir_does (h : VfsOk o v) (path : String) (recursive : Bool)
    (hm : tidy → v.metadata.ns.MkdirInDir (splitPath (normalizePath path)) recursive) :
    (Async.mkdir o path recursive).run.wp v (fun _ v' => Does o tidy v v')
      fun _ v' => Does o tidy v v' := by
  have hroot : ∃ n, v.metadata.ns.node 1 = some n := h.ns.root.imp fun _ => And.left
  unfold Async.mkdir
  cases recursive with
  | true =>
      simp only [if_true]
      exact mkdirAll_does _ 1 v h hroot hm
  | false =>
      simp only [Bool.false_eq_true, if_false]
      cases hl : (splitPath (normalizePath path)).getLast? with
      | none => exact .refl h
      | some targetName =>
          simp only [run_bind, run_await, wp_bind]
          refine wp_mono (mkdirParent_does _ 1 h hroot) ?_ fun _ v' hv => ?_
          rotate_left
          · rw [hv]
            exact .refl h
          rintro p v₁ ⟨hv, hn, hp⟩
          subst v₁
          rw [wp_lookup]
          cases hl' : v.metadata.lookup p targetName with
          | some _ => exact .refl h
          | none =>
              have hm' : tidy → v.metadata.ns.MakesInDir p [targetName] := fun ht => hm ht p _ hp hl
              simp only [run_bind, wp_bind]
              exact wp_mono (makeDirectory_does h hl' hn fun ht => MakesInDir.dir (hm' ht) hl')
                (fun _ v₁ h₁ => h₁.1) fun _ _ => False.elim

end SecureExec.Vfs
