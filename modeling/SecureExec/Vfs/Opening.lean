import SecureExec.Vfs.Removal

/-!
# Vfs — Opening — what an `open` does to the names

`prepareOpenSync` makes a file that is missing, with its parents, and cuts one that is there.  It
walks to the place by the entries alone, as `ensureParents` does, and when an entry is there
although the path does not resolve, the inode it has made stays without a name.
-/

namespace SecureExec.Vfs
open SecureExec Bytes Graph Prog Async

variable {o : ChunkedVfsOptions} {v v' v₁ v₂ : ChunkedVfs} {ino p : Nat} {i : InodeMeta}
  {m : InMemoryMetadataStore} {tidy : Prop} {name path : String} {t : InodeType} {s : Ns}

/-! ### Making an inode -/

theorem updateInode_createDentry (m : InMemoryMetadataStore) (ino : Nat)
    (g : InodeMeta → InodeMeta) (p : Nat) (name : String) (c : Nat) (t : InodeType) :
    (m.updateInode ino g).createDentry p name c t =
      (m.createDentry p name c t).map (·.updateInode ino g) := by
  unfold InMemoryMetadataStore.updateInode InMemoryMetadataStore.createDentry
  cases hi : m.inodes ino with
  | none => dsimp only; split <;> simp [Except.map, hi]
  | some i => dsimp only; split <;> simp [Except.map, hi]

variable {E : Failure → ChunkedVfs → Prop}

/-- As in `makes_returns`, with the inode updated before it is named. -/
theorem opens_returns (h : NsOk v.metadata.ns) (o : ChunkedVfsOptions) (attrs : CreateInodeAttrs)
    (hl : v.metadata.lookup p name = none) {g : InodeMeta → InodeMeta} {β : Type}
    {k : Nat → VfsProg β} {Q : β → ChunkedVfs → Prop}
    (hk : ∀ v₁ v₂, Makes v v₁ attrs.type
      (if attrs.type = .symlink then attrs.symlinkTarget else none) p name →
      Updates v₁ v₂ v.metadata.nextIno g → (k v.metadata.nextIno).wp v₂ Q E) :
    (createInode o attrs >>= fun c => updateInode c g >>= fun _ =>
      createDentry p name c t >>= fun _ => k c).wp v Q E := by
  have hmake := makes_returns (t := t) (k := fun c => updateInode c g >>= fun _ => k c) h o attrs hl
    fun v₁ h₁ => by
      rw [wp_bind]
      exact wp_mono (updateInode_updates v₁ _ g) (fun _ v₂ h₂ => hk v₁ v₂ h₁ h₂) fun _ _ => False.elim
  have hsame : (createInode o attrs >>= fun c => updateInode c g >>= fun _ =>
      createDentry p name c t >>= fun _ => k c).exec v =
      (createInode o attrs >>= fun c => createDentry p name c t >>= fun _ =>
        updateInode c g >>= fun _ => k c).exec v := by
    refine exec_bind_congr fun c v₁ hc => ?_
    -- the name is still free
    have hl₁ : v₁.metadata.lookup p name = none := by
      have hst := congrArg Prod.snd hc
      obtain ⟨-, now, n, hv⟩ := of_wp_ok (createInode_returns o attrs v) hc
      rw [hv]
      change (v.metadata.createInode attrs now).2.ns.entry (p, name) = none
      rw [ns_createInode h.toNsShape]
      exact hl
    obtain ⟨m', hm'⟩ := createDentry_ok hl₁ c t
    have hswap := updateInode_createDentry v₁.metadata c g p name c t
    rw [hm'] at hswap
    rw [exec_bind, updateInode, updateMetadata, exec_update]
    simp only [createDentry, exec_bind, exec_read, exec_lift, hm', hswap, Except.map,
      updateMetadata, exec_update]
  rw [wp, hsame]
  exact hmake

/-! ### Making a file -/

/-- The missing parents are made, and what is below the last one was there before. -/
theorem openParents_does {rest : List String} (hrest : rest ≠ []) (l : List String) :
    ∀ cur v, VfsOk o v → (∃ n, v.metadata.ns.node cur = some n) →
      (tidy → v.metadata.ns.MakesInDir cur (l ++ rest)) →
      (openParents o cur l).Returns v fun p v' => Does o tidy v v' ∧
        (∃ n, v'.metadata.ns.node p = some n) ∧ (tidy → v'.metadata.ns.MakesInDir p rest) ∧
        ∀ x, v'.metadata.ns.follow p rest = some x →
          v.metadata.ns.follow cur (l ++ rest) = some x := by
  induction l with
  | nil => exact fun cur v h hn hm => ⟨.refl h, hn, hm, fun x hx => hx⟩
  | cons component l ih =>
      intro cur v h hn hm
      rw [openParents, Returns, wp_bind, wp_read]
      cases hl : v.metadata.lookup cur component with
      | some child =>
          refine wp_mono (ih child v h (h.ns.child (cur, component) child hl) fun ht =>
            Ns.MakesInDir.below (hm ht) hl) ?_ fun _ _ => id
          rintro p v' ⟨hd, hp, hm', hx⟩
          refine ⟨hd, hp, hm', fun x hx' => ?_⟩
          rw [List.cons_append,
            Ns.follow_cons (show v.metadata.ns.entry (cur, component) = some child from hl)]
          exact hx x hx'
      | none =>
          refine opens_returns h.ns o _ hl fun v₁ v₂ h₁ h₂ => ?_
          have hend : ∀ v₃, Updates v₂ v₃ cur (fun i => { i with nlink := i.nlink + 1 }) →
              (openParents o v.metadata.nextIno l).wp v₃ (fun p v' => Does o tidy v v' ∧
                (∃ n, v'.metadata.ns.node p = some n) ∧ (tidy → v'.metadata.ns.MakesInDir p rest) ∧
                ∀ x, v'.metadata.ns.follow p rest = some x →
                  v.metadata.ns.follow cur (component :: l ++ rest) = some x) fun _ _ => False := by
            intro v₃ h₃
            obtain ⟨hd₃, hns₃, -⟩ := directory_made h hl hn
              (fun (ht : tidy) => Ns.MakesInDir.dir (hm ht) hl) h₁ h₂ (fun _ => ⟨rfl, rfl, rfl⟩) h₃
            obtain ⟨hdir, hempty, -⟩ := make_dir_spec (e := (cur, component)) h.ns hn
            rw [← hns₃] at hdir hempty
            refine wp_mono (ih _ v₃ hd₃.ok (hdir.imp fun _ => And.left) fun _ =>
              .empty hdir hempty _) ?_ fun _ _ => id
            rintro p v' ⟨hd, hn', hm', hx⟩
            refine ⟨hd₃.trans hd, hn', hm', fun x hx' => ?_⟩
            have hnone := hx x hx'
            rw [show v.metadata.nextIno = v.metadata.ns.next from rfl,
              Ns.follow_empty hempty (by simp [hrest])] at hnone
            cases hnone
          rw [wp_bind, wp_read]
          cases hi : v₂.metadata.getInode cur with
          | none =>
              have hu := updates_updateInode v₂ cur fun i => { i with nlink := i.nlink + 1 }
              rw [InMemoryMetadataStore.updateInode, show v₂.metadata.inodes cur = none from hi] at hu
              exact hend v₂ hu
          | some parent =>
              have hlink := changeNlink_updates v₂ cur (· + 1)
              simp only [changeNlink, Coro.run_bind, Coro.run_await, Returns, wp_bind,
                wp_read, hi] at hlink
              dsimp only
              rw [wp_bind]
              exact wp_mono hlink (fun _ v₃ h₃ => hend v₃ h₃) fun _ _ => False.elim

/-- The entry of the new file, if there is none. -/
theorem openDentry_of {Q : Bool → ChunkedVfs → Prop} {c : Nat}
    (h : (createDentry p name c t >>= fun _ => pure true).wp v Q fun _ _ => False) :
    (read (·.metadata.createDentry p name c t) >>= fun r =>
      match r with
      | .ok m => updateMetadata (fun _ => m) >>= fun _ => pure true
      | .error _ => pure false : VfsProg Bool).wp v Q E := by
  rw [wp_bind, wp_read]
  simp only [createDentry, wp_bind, wp_read] at h
  cases hm : v.metadata.createDentry p name c t with
  | ok m =>
      rw [hm] at h
      exact h
  | error e =>
      rw [hm] at h
      exact h.elim

/-- An entry that is there is not made. -/
theorem createDentry_error {x : Nat} (h : m.lookup p name = some x) (c : Nat) (t : InodeType) :
    ∃ e, m.createDentry p name c t = .error e := by
  rw [InMemoryMetadataStore.lookup] at h
  cases hd : m.dentries p with
  | none =>
      rw [hd] at h
      cases h
  | some dir =>
      rw [hd] at h
      obtain ⟨entry, he, -⟩ := Option.map_eq_some_iff.mp h
      have hhas : dir.has name = true := by rw [OMap.has, he]; rfl
      exact ⟨_, by rw [InMemoryMetadataStore.createDentry, hd]; exact if_pos hhas⟩

/-- The contents are in order once the new file is made. -/
theorem opened_content (h₁ : Makes v v₁ .file none p name)
    (h₂ : Updates v₁ v₂ v.metadata.nextIno fun i => { i with
      nlink := 1, size := 0, storageMode := .inline, inlineContent := some [] })
    (h : ContentOk o v) : ContentOk o v₂ := by
  refine h₁.content h₂.chunks h₂.blocks h₂.buffers h₂.nextIno h (fun i hi => ?_) fun j i hj hi => ?_
  · rw [h₂.inodes, if_pos rfl] at hi
    obtain ⟨i₀, -, rfl⟩ := Option.map_eq_some_iff.mp hi
    exact ⟨rfl, fun _ => rfl⟩
  · rw [h₂.inodes, if_neg hj] at hi
    exact ⟨i, hi, .refl i⟩

/-- The link count of an inode that has no name. -/
theorem relink_node (s : Ns) (n : Node) (target : Option String) (k : Nat) :
    (s.addNode n target).relink s.next (fun _ => k) = s.addNode { n with nlink := k } target := by
  refine Ns.ext rfl (funext fun y => ?_) rfl rfl
  rw [Ns.node_relink, Ns.node_addNode, Ns.node_addNode]
  split
  · rfl
  · rfl

/-- The contents are in order when an inode is made that gets no name. -/
theorem orphan_content {now n : Nat} {attrs : CreateInodeAttrs}
    (h₂ : Updates { v with metadata := (v.metadata.createInode attrs now).2, clockCalls := n } v₂
      v.metadata.nextIno fun i => { i with
        nlink := 1, size := 0, storageMode := .inline, inlineContent := some [] })
    (h : ContentOk o v) : ContentOk o v₂ := by
  refine h.metadata h₂.chunks h₂.blocks h₂.buffers ?_ fun j i hi => ?_
  · rw [h₂.nextIno]
    exact Nat.le_succ _
  · rw [h₂.inodes] at hi
    split at hi
    · rename_i hj
      obtain ⟨i₀, -, rfl⟩ := Option.map_eq_some_iff.mp hi
      exact .inr ⟨hj.ge, rfl, fun _ => rfl⟩
    · rename_i hj
      exact .inl ⟨i, (Function.update_of_ne hj _ _).symm.trans hi, .refl i⟩

/-- A file that is missing is made, with its parents. -/
theorem openCreate_does (h : VfsOk o v) (path : String)
    (hm : tidy → v.metadata.ns.MakesInDir 1 (openParts path) ∧
      v.metadata.ns.follow 1 (openParts path) = none) :
    AlwaysDoes o tidy (openCreate o path) v := by
  have hroot : ∃ n, v.metadata.ns.node 1 = some n := h.ns.root.imp fun _ => And.left
  unfold openCreate AlwaysDoes
  rw [wp_bind]
  cases hl : (openParts path).getLast? with
  | none =>
      have hnil : openParts path = [] := List.getLast?_eq_none_iff.mp hl
      rw [hnil]
      exact .refl h
  | some fileName =>
      have hsplit := List.dropLast_append_getLast? fileName hl
      refine wp_mono (openParents_does (List.cons_ne_nil fileName []) _ 1 v h hroot
        fun (ht : tidy) => by rw [hsplit]; exact (hm ht).1) ?_ fun _ _ => False.elim
      rintro p v₁ ⟨hd₁, hp₁, hm₁, hx₁⟩
      have hok := hd₁.ok
      dsimp only
      cases hl₁ : v₁.metadata.lookup p fileName with
      | none =>
          have hmade := opens_returns (t := .file) hok.ns o ⟨.file, 0o644, 0, 0, none⟩ hl₁
            (g := fun i => { i with nlink := 1, size := 0, storageMode := .inline, inlineContent := some [] })
            (k := fun _ => pure true) (Q := fun _ v' => Does o tidy v₁ v') (E := fun _ _ => False)
            fun v₂ v₃ h₂ h₃ => (linked_does (t := .file) hok hl₁ hp₁
              (fun ht => Ns.MakesInDir.dir (hm₁ ht) hl₁) nofun nofun h₂
              (h₃.ns (fun _ => 1) fun _ _ => ⟨rfl, rfl⟩) (opened_content h₂ h₃ hok.content)).1
          rw [wp_bind] at hmade ⊢
          refine wp_mono hmade (fun c v₂ h₂ => ?_) fun _ _ => False.elim
          rw [wp_bind] at h₂ ⊢
          refine wp_mono h₂ (fun _ v₃ h₃ => ?_) fun _ _ => False.elim
          exact wp_mono (openDentry_of h₃) (fun _ _ h' => hd₁.trans h') fun _ _ => id
      | some x =>
          -- the inode that was made keeps no name
          have hnot : ¬ tidy := fun ht => by
            have hx := hx₁ x (Ns.follow_cons (show v₁.metadata.ns.entry (p, fileName) = some x from hl₁) [])
            rw [hsplit, (hm ht).2] at hx
            cases hx
          rw [wp_bind]
          refine wp_mono (createInode_returns o _ v₁) ?_ fun _ _ => False.elim
          rintro _ v₂ ⟨rfl, now, n, rfl⟩
          rw [wp_bind]
          refine wp_mono (updateInode_updates _ v₁.metadata.nextIno _) (fun _ v₃ h₃ => ?_)
            fun _ _ => False.elim
          have hns : v₃.metadata.ns = v₁.metadata.ns.addNode ⟨.file, 1⟩ none := by
            rw [h₃.ns (fun _ => 1) fun _ _ => ⟨rfl, rfl⟩]
            rw [ns_createInode hok.ns.toNsShape]
            exact relink_node v₁.metadata.ns _ _ 1
          have hl₃ : v₃.metadata.lookup p fileName = some x := by
            change v₃.metadata.ns.entry (p, fileName) = some x
            rw [hns]
            exact hl₁
          obtain ⟨e, he⟩ := createDentry_error hl₃ v₁.metadata.nextIno .file
          rw [wp_bind, wp_read, he]
          exact hd₁.trans (.step hok (hns ▸ .orphan hnot) (orphan_content h₃ hok.content))

/-! ### Cutting a file -/

/-- A file that is there is cut to nothing; only a store without buffers and versions does it. -/
theorem openTruncate_does (h : VfsOk o v) (hwb : o.writeBuffering = false)
    (hver : o.versioning = false) (hr : v.metadata.resolvePath path = .ok ino) :
    AlwaysDoes o tidy (openTruncate path ino) v := by
  unfold openTruncate AlwaysDoes
  rw [wp_bind, wp_read]
  split
  · exact .refl h
  rename_i hdir
  obtain ⟨n, hn⟩ := h.ns.reached (resolve_reaches _ _ _ hr)
  obtain ⟨i, hi, rfl⟩ := node_ns_some hn
  have hfile : i.type = .file := by
    have hsym := resolve_type h.ns.toNsShape _ _ hr hi
    cases hty : i.type with
    | file => rfl
    | directory =>
        refine absurd ?_ hdir
        rw [show v.metadata.getInode ino = some i from hi]
        exact congrArg some hty
    | symlink => exact absurd hty hsym
  rw [wp_bind]
  refine wp_mono (updateInode_updates v ino _) (fun _ v₁ h₁ => ?_) fun _ _ => False.elim
  have hdrop := dropAllChunks_returns o (show KeysOk v₁ ino from
    (h.content.keys ino).look (by rw [h₁.chunks]) fun k _ => by rw [h₁.blocks])
  have hns := (LeavesNs.storing.dropAllChunks (o := o) ino).state v₁
  unfold dropAllChunks at hdrop hns
  simp only [hver, Bool.not_false, if_true] at hdrop hns
  refine wp_mono (wp_and hdrop hns) ?_ fun _ _ he => he.1.elim
  rintro _ v₂ ⟨he₂, hns₂⟩
  have hns₁ : v₁.metadata.ns = v.metadata.ns := h₁.ns_same fun _ => ⟨rfl, rfl⟩
  have hi₂ : v₂.metadata.inodes ino =
      some { i with size := 0, storageMode := .inline, inlineContent := some [] } := by
    rw [he₂.inodes, h₁.inodes, if_pos rfl, hi]
    rfl
  have hb₂ : v₂.writeBuffers.get ino = none := by
    rw [he₂.buffers, h₁.buffers]
    exact h.content.plain hwb ino
  have hs : Shows o v₂ ino { i with size := 0, storageMode := .inline, inlineContent := some [] } [] :=
    (Stores.of_inline he₂.keys (congrFun he₂.chunks) rfl rfl rfl).shows hb₂
  refine .same h (hns₂.trans hns₁) ?_
  refine h.content.apart (h₁.apart.trans he₂.touches.toElsewhere.apart) (h.lt hi) hs.keys hs.shared
    (fun _ => hb₂) fun j hj => ?_
  obtain rfl := Option.some.inj (hi₂.symm.trans hj)
  exact ⟨hs.toKept, fun _ => ⟨[], hs⟩⟩

/-- What an `open` does. -/
theorem prepareOpenSync_does (h : VfsOk o v) (hwb : o.writeBuffering = false)
    (hver : o.versioning = false) (path : String) (flags : Flags)
    (hm : tidy → flags.has O_CREAT = true → (v.metadata.resolvePath path).toOption = none →
      v.metadata.ns.MakesInDir 1 (openParts path) ∧
        v.metadata.ns.follow 1 (openParts path) = none) :
    AlwaysDoes o tidy (prepareOpenSync o path flags) v := by
  unfold prepareOpenSync AlwaysDoes
  rw [wp_bind, wp_read]
  split
  · exact .refl h
  cases hr : v.metadata.resolvePath path with
  | error e =>
      simp only [Except.toOption]
      split
      · rename_i hcreat
        exact openCreate_does h path fun ht => hm ht hcreat (by rw [hr]; rfl)
      · exact .refl h
  | ok ino =>
      simp only [Except.toOption]
      split
      · rw [wp_bind]
        exact wp_mono (openTruncate_does h hwb hver hr) (fun _ _ => id) fun _ _ => id
      · exact .refl h

end SecureExec.Vfs
