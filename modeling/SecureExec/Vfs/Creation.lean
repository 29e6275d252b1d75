import SecureExec.Lib.Ends
import SecureExec.Vfs.Runs
import SecureExec.Vfs.Shares

/-!
# Vfs — Creation — concurrent `writeFile` calls

Each `writeFile` keeps to the protocol of `Vfs.Shares` (`writeFile_turns`), statement by statement:
the walk, which makes the directories it does not find, the new inode and its entry, and the content.

`creation_concurrent`: calls beside each other all come to their ends, and each path reads back its
own data, as long as every entry is made where there is none.  `creation_collides`: two calls look
for the same directory before one of them makes it, and the other is rejected.
-/

namespace SecureExec.Vfs
open SecureExec Bytes Graph Prog Lts Share InMemoryMetadataStore Creates Function Pool

variable {o : ChunkedVfsOptions} {v v' v₁ : ChunkedVfs} {s s' : Ns} {w w' : Share}
  {c d f x cur ino : Nat} {l m path : List String} {name : String} {i : InodeMeta}

/-! ### Statements that give no name -/

/-- The names stay and so do the types. -/
theorem NsShape.retyped (h : NsShape s) (hent : s'.entry = s.entry) (htar : s'.target = s.target)
    (hnext : s'.next = s.next)
    (hty : ∀ c, (s'.node c).map (·.type) = (s.node c).map (·.type)) :
    NsShape s' ∧ s.Grows s' := by
  have hto : ∀ {c n}, s.node c = some n → ∃ n', s'.node c = some n' ∧ n'.type = n.type := by
    intro c n hn
    have hc := hty c
    rw [hn] at hc
    exact Option.map_eq_some_iff.mp hc
  have hfrom : ∀ {c n'}, s'.node c = some n' → ∃ n, s.node c = some n ∧ n.type = n'.type := by
    intro c n' hn'
    have hc := hty c
    rw [hn'] at hc
    exact Option.map_eq_some_iff.mp hc.symm
  have hdir : ∀ {c}, s'.IsDir c → s.IsDir c := fun ⟨n', hn', hd⟩ => by
    obtain ⟨n, hn, ht⟩ := hfrom hn'
    exact ⟨n, hn, ht.trans hd⟩
  refine ⟨⟨?_, ?_, fun e c he => ?_, fun e c he => ?_, fun c hc => ?_, fun e he => ?_,
    fun e e' c he he' hc => ?_, fun c n' hn' hs => ?_⟩, fun e c he => ?_, fun c n hn => hto hn,
    fun c n' hn' hs => ?_⟩
  · rw [hent]
    exact h.finite
  · obtain ⟨n, hn, hd⟩ := h.root
    obtain ⟨n', hn', ht⟩ := hto hn
    exact ⟨n', hn', ht.trans hd⟩
  · rw [hent] at he
    obtain ⟨n, hn⟩ := h.child e c he
    exact (hto hn).imp fun _ => And.left
  · rw [hent] at he
    obtain ⟨n, hn⟩ := h.parent e c he
    exact (hto hn).imp fun _ => And.left
  · rw [hnext] at hc
    have hnone := hty c
    rw [h.fresh c hc] at hnone
    exact Option.map_eq_none_iff.mp hnone
  · rw [hent] at he
    exact h.top e he
  · rw [hent] at he he'
    exact h.single e e' c he he' (hdir hc)
  · rw [htar]
    obtain ⟨n, hn, ht⟩ := hfrom hn'
    exact h.targets c n hn (ht.trans hs)
  · rw [hent]
    exact he
  · obtain ⟨n, hn, ht⟩ := hfrom hn'
    exact ⟨n, hn, ht.trans hs⟩

namespace Share

/-- A statement that leaves the names, the types and the inodes that the call does not have. -/
theorem Creates.quiet (h : Shape v) (hent : v'.metadata.ns.entry = v.metadata.ns.entry)
    (htar : v'.metadata.symlinkTargets = v.metadata.symlinkTargets)
    (hnext : v'.metadata.nextIno = v.metadata.nextIno)
    (hty : ∀ c, (v'.metadata.inodes c).map (·.type) = (v.metadata.inodes c).map (·.type))
    (hfresh : ∀ x, v.metadata.nextIno ≤ x → v'.metadata.chunks x = v.metadata.chunks x ∧
      v'.writeBuffers.get x = v.writeBuffers.get x)
    (hothers : ∀ x, x < v.metadata.nextIno → ¬ w.own x → Leaves x v v') : Creates w v w v' := by
  have hnode : ∀ c, (v'.metadata.ns.node c).map (·.type) = (v.metadata.ns.node c).map (·.type) := by
    intro c
    change ((v'.metadata.inodes c).map _).map _ = ((v.metadata.inodes c).map _).map _
    rw [Option.map_map, Option.map_map]
    exact hty c
  obtain ⟨hns, hgrows⟩ := h.ns.retyped hent htar hnext hnode
  refine ⟨rfl, rfl, fun x => ?_, ⟨hns, fun x hx => ?_⟩, hnext.ge, hgrows, hothers, .inl hent⟩
  · rw [hnext]
    exact ⟨.inl, fun hx => hx.elim id fun hx => absurd hx.2 (Nat.not_lt.mpr hx.1)⟩
  · rw [hnext] at hx
    rw [(hfresh x hx).1, (hfresh x hx).2]
    exact h.fresh x hx

theorem Creates.refl (h : Shape v) : Creates w v w v :=
  .quiet h rfl rfl rfl (fun _ => rfl) (fun _ _ => ⟨rfl, rfl⟩) fun x _ _ => .refl x v

/-- An inode that the call has changes. -/
theorem Creates.elsewhere (h : Shape v) (he : Elsewhere f v v') (hf : w.own f)
    (hlt : f < v.metadata.nextIno)
    (hty : (v'.metadata.inodes f).map (·.type) = (v.metadata.inodes f).map (·.type)) :
    Creates w v w v' := by
  have hne : ∀ x, v.metadata.nextIno ≤ x → x ≠ f := fun x hx => Nat.ne_of_gt (hlt.trans_le hx)
  refine .quiet h ?_ he.symlinkTargets he.nextIno (fun c => ?_)
    (fun x hx => ⟨he.chunks x (hne x hx), he.others x (hne x hx)⟩) fun x _ hx => he.leaves ?_
  · funext e
    change v'.metadata.lookup e.1 e.2 = v.metadata.lookup e.1 e.2
    rw [lookup, lookup, he.dentries]
  · by_cases hc : c = f
    · rw [hc, hty]
    · rw [he.inodes c hc]
  · rintro rfl
    exact hx hf

end Share

variable {g : InodeMeta → InodeMeta}

section

variable (hu : Updates v v' ino g)
include hu

/-- An update leaves the names. -/
theorem Updates.ns_relink
    (hty : ∀ i, (g i).type = i.type) : ∃ k, v'.metadata.ns = v.metadata.ns.relink ino k := by
  cases hi : v.metadata.inodes ino with
  | none => exact ⟨id, hu.ns id fun i hi' => by rw [hi] at hi'; cases hi'⟩
  | some i =>
      refine ⟨fun _ => (g i).nlink, hu.ns _ fun j hj => ?_⟩
      rw [hi] at hj
      cases hj
      exact ⟨hty i, rfl⟩

theorem Updates.leaves (hg : ∀ i, SameStorage i (g i)) (j : Nat) : Leaves j v v' := by
  refine ⟨fun i hi => ?_, by rw [hu.chunks], fun _ _ => by rw [hu.blocks], by rw [hu.buffers]⟩
  rw [hu.inodes, hi]
  split
  · exact ⟨g i, rfl, hg i⟩
  · exact ⟨i, rfl, .refl i⟩

theorem Updates.entry
    (hty : ∀ i, (g i).type = i.type) : v'.metadata.ns.entry = v.metadata.ns.entry := by
  obtain ⟨k, hns⟩ := hu.ns_relink hty
  rw [hns]
  rfl

end

namespace Share

/-- An inode is updated, in its times and its link count if the call does not have it. -/
theorem Creates.updates (h : Shape v) (hu : Updates v v' ino g)
    (hty : ∀ i, (g i).type = i.type) (hg : ¬ w.own ino → ∀ i, SameStorage i (g i)) :
    Creates w v w v' := by
  obtain ⟨k, hns⟩ := hu.ns_relink hty
  refine .quiet h (hu.entry hty) (congrArg Ns.target hns) hu.nextIno (fun c => ?_)
    (fun x _ => ⟨by rw [hu.chunks], by rw [hu.buffers]⟩) fun x _ hx => ⟨fun i hi => ?_, ?_,
      fun _ _ => by rw [hu.blocks], by rw [hu.buffers]⟩
  · rw [hu.inodes]
    split
    · rw [Option.map_map]
      exact congrArg (Option.map · _) (funext hty)
    · rfl
  · rw [hu.inodes, hi]
    split
    · rename_i hxi
      exact ⟨g i, rfl, hg (hxi ▸ hx) i⟩
    · exact ⟨i, rfl, .refl i⟩
  · rw [hu.chunks]

/-! ### The statements that make an inode and its name -/

/-- The call has one more inode. -/
def adding (w : Share) (x : Nat) : Share := { w with own := fun y => w.own y ∨ y = x }

theorem follow_lt (h : Shape v) (hl : v.metadata.ns.follow 1 l = some f) :
    f < v.metadata.nextIno := by
  obtain ⟨n, hn⟩ := h.ns.follow_node hl
  by_contra hge
  rw [h.ns.fresh f (Nat.not_lt.mp hge)] at hn
  cases hn

theorem leaves_createInode (hx : x < v.metadata.nextIno) (attrs : CreateInodeAttrs) (now n : Nat) :
    Leaves x v { v with metadata := (v.metadata.createInode attrs now).2, clockCalls := n } :=
  ⟨fun i hi => ⟨i, (update_of_ne hx.ne _ _).trans hi, .refl i⟩, rfl, fun _ _ => rfl, rfl⟩

variable {attrs : CreateInodeAttrs}

/-- An inode is made, and nothing names it. -/
theorem Creates.createInode (h : Shape v) (now n : Nat)
    (ht : attrs.type ≠ .symlink) :
    Creates w v (w.adding v.metadata.nextIno)
      { v with metadata := (v.metadata.createInode attrs now).2, clockCalls := n } := by
  have hns := ns_createInode h.ns attrs now
  rw [if_neg ht] at hns
  refine ⟨rfl, rfl, fun x => or_congr_right ?_, ⟨?_, fun x hx => ?_⟩, Nat.le_succ _, ?_,
    fun x hx _ => leaves_createInode hx attrs now n, .inl ?_⟩
  · change x = v.metadata.nextIno ↔ v.metadata.nextIno ≤ x ∧ x < v.metadata.nextIno + 1
    omega
  · exact hns ▸ h.ns.addNode _ fun hs => absurd hs ht
  · exact h.fresh x ((Nat.le_succ _).trans hx)
  · change v.metadata.ns.Grows (v.metadata.createInode attrs now).2.ns
    rw [hns]
    refine ⟨fun _ _ he => he, fun c n hn => ⟨n, ?_, rfl⟩, fun c n' hn' hs => ?_⟩
    · rw [Ns.node_addNode, if_neg (h.ns.ne_next hn)]
      exact hn
    · rw [Ns.node_addNode] at hn'
      split at hn'
      · cases hn'
        exact absurd hs ht
      · exact ⟨n', hn', hs⟩
  · change (v.metadata.createInode attrs now).2.ns.entry = _
    rw [hns]
    rfl

/-- What is known of an inode that was just made. -/
structure Made (w : Share) (x : Nat) (t : InodeType) (v : ChunkedVfs) : Prop where
  own : w.own x
  bare : v.metadata.ns.Bare x
  inode : ∃ i, v.metadata.inodes x = some i ∧ i.type = t
  chunks : v.metadata.chunks x = none
  buffer : v.writeBuffers.get x = none

variable {t : InodeType}

theorem Made.beside (h : w.Made x t v) (hb : Beside w v v') : w.Made x t v' := by
  have hl := hb.leaves x h.own
  obtain ⟨i, hi, hty⟩ := h.inode
  obtain ⟨i', hi', hs⟩ := hl.inode i hi
  exact ⟨h.own, hb.bare x h.own h.bare, ⟨i', hi', hs.type.trans hty⟩,
    hl.chunks.trans h.chunks, hl.buffer.trans h.buffer⟩

theorem made_createInode (h : Shape v) (now n : Nat)
    (ht : attrs.type ≠ .symlink) :
    (w.adding v.metadata.nextIno).Made v.metadata.nextIno attrs.type
      { v with metadata := (v.metadata.createInode attrs now).2, clockCalls := n } := by
  have hns := ns_createInode h.ns attrs now
  rw [if_neg ht] at hns
  obtain ⟨hch, hbuf⟩ := h.fresh _ (Nat.le_refl _)
  refine ⟨.inr rfl, ?_, ⟨_, update_self .., rfl⟩, hch, hbuf⟩
  change (v.metadata.createInode attrs now).2.ns.Bare v.metadata.ns.next
  rw [hns]
  refine ⟨fun e he => h.ns.entry_ne_next he rfl, fun k => ?_⟩
  rcases hk : v.metadata.ns.entry (v.metadata.ns.next, k) with _ | y
  · exact hk
  · exact absurd rfl (h.ns.parent_ne_next hk)

/-- The state after an entry was made. -/
structure Enters (v v' : ChunkedVfs) (e : Nat × String) (x : Nat) : Prop where
  ns : v'.metadata.ns = v.metadata.ns.setEntry e (some x)
  inodes : v'.metadata.inodes = v.metadata.inodes
  chunks : v'.metadata.chunks = v.metadata.chunks
  blocks : v'.blocks = v.blocks
  buffers : v'.writeBuffers = v.writeBuffers

theorem createDentry_returns (hl : v.metadata.lookup cur name = none) (x : Nat) (t : InodeType) :
    (Async.createDentry cur name x t).Returns v fun _ v' => Enters v v' (cur, name) x := by
  obtain ⟨m', hm'⟩ := createDentry_ok hl x t
  simp only [Async.createDentry, Returns, wp_bind, wp_read, hm', wp_lift_ok, updateMetadata,
    wp_update]
  refine ⟨ns_createDentry hm', ?_, ?_, rfl, rfl⟩
  all_goals
    simp only [createDentry] at hm'
    split at hm'
    · cases hm'
    · cases hm'
      rfl

theorem Enters.leaves {e : Nat × String} (h : Enters v v' e x) (j : Nat) : Leaves j v v' := by
  refine ⟨fun i hi => ⟨i, ?_, .refl i⟩, ?_, fun _ _ => ?_, ?_⟩
  · rw [h.inodes]
    exact hi
  · rw [h.chunks]
  · rw [h.blocks]
  · rw [h.buffers]

section

variable (hm : w.Made x t v) (h : w.Good v) (hcur : v.metadata.ns.follow 1 l = some cur)
  (hfree : v.metadata.lookup cur name = none) (he : Enters v v' (cur, name) x)
include hm h hcur hfree he

theorem Made.names : Names v.metadata.ns v'.metadata.ns l name x := by
  refine ⟨hm.bare, fun h1 => h.root (h1 ▸ hm.own), cur, hcur, hfree, ?_⟩
  rw [he.ns]
  rfl

/-- The entry of an inode that was just made. -/
theorem Creates.enters (hl : l ++ [name] <+: w.path)
    (ht : t = if l ++ [name] = w.path then .file else .directory) : Creates w v w v' := by
  have hroot : x ≠ 1 := fun h1 => h.root (h1 ▸ hm.own)
  obtain ⟨i, hi, hty⟩ := hm.inode
  have hnext : v'.metadata.nextIno = v.metadata.nextIno := congrArg Ns.next he.ns
  refine ⟨rfl, rfl, fun y => ?_, ⟨?_, fun y hy => ?_⟩, hnext.ge, ?_, fun y _ _ => he.leaves y,
    .inr ⟨l, name, x, hl, hm.own, hm.names h hcur hfree he, ?_⟩⟩
  · rw [hnext]
    exact ⟨.inl, fun hy => hy.elim id fun hy => absurd hy.2 (Nat.not_lt.mpr hy.1)⟩
  · rw [he.ns]
    exact h.shape.ns.set (h.shape.ns.follow_node hcur) (node_ns hi) hroot fun _ => hm.bare.1
  · rw [hnext] at hy
    rw [he.chunks, he.buffers]
    exact h.shape.fresh y hy
  · rw [he.ns]
    refine ⟨fun e c hc => ?_, fun c n hn => ⟨n, hn, rfl⟩, fun c n hn hs => ⟨n, hn, hs⟩⟩
    refine (update_of_ne ?_ _ _).trans hc
    rintro rfl
    rw [show v.metadata.ns.entry (cur, name) = none from hfree] at hc
    cases hc
  · split
    · rename_i hp
      rw [if_pos hp] at ht
      exact ⟨_, node_ns hi, hty.trans ht⟩
    · rename_i hp
      rw [if_neg hp] at ht
      exact ⟨_, node_ns hi, hty.trans ht⟩

end

theorem Enters.follow (he : Enters v v' (cur, name) x) (hg : v.metadata.ns.Grows v'.metadata.ns)
    (hcur : v.metadata.ns.follow 1 l = some cur) :
    v'.metadata.ns.follow 1 (l ++ [name]) = some x := by
  refine Ns.follow_snoc.mpr ⟨cur, hg.follow l 1 hcur, ?_⟩
  rw [he.ns]
  exact update_self ..

/-! ### The walk to the parent -/

/-- Before the call writes: it holds no lock, and the file that is there is in order. -/
structure Clean (w : Share) (path : List String) (v : ChunkedVfs) : Prop extends Good w v where
  way : w.path = path
  unlocked : ∀ x, ¬ w.locks x
  kept : ∀ f, v.metadata.ns.follow 1 path = some f → ∃ i, v.metadata.inodes f = some i ∧ Kept v f i

theorem Clean.own (h : w.Clean path v) (hf : v.metadata.ns.follow 1 path = some f) :
    w.own f ∧ v.metadata.ns.IsFile f := by
  obtain ⟨hg, rfl, -, -⟩ := h
  exact hg.plan.file f hf

/-- A file that stays is as much in order as before. -/
theorem kept_of_leaves (hl : Leaves f v v') (h : ∃ i, v.metadata.inodes f = some i ∧ Kept v f i) :
    ∃ i, v'.metadata.inodes f = some i ∧ Kept v' f i := by
  obtain ⟨i, hi, hk⟩ := h
  obtain ⟨i', hi', hs⟩ := hl.inode i hi
  exact ⟨i', hi', hk.look hl.chunks hl.blocks hl.buffer hs⟩

section

variable (h : w.Clean path v)
include h

theorem Clean.beside (hb : Beside w v v') : w.Clean path v' := by
  have hown := fun f => h.own (f := f)
  obtain ⟨hg, rfl, hu, hk⟩ := h
  refine ⟨hg.beside hb, rfl, hu, fun f hf => ?_⟩
  rcases hb.walks _ f (List.prefix_refl _) hf with hf₀ | ⟨hne, -⟩
  · exact kept_of_leaves (hb.leaves f (hown f hf₀).1) (hk f hf₀)
  · exact absurd rfl hne

/-- A statement of the call that leaves the file. -/
theorem Clean.creates (hc : Creates w v w' v')
    (hf : ∀ f, v'.metadata.ns.follow 1 path = some f →
      v.metadata.ns.follow 1 path = some f ∧ Leaves f v v') : w'.Clean path v' := by
  refine ⟨h.toGood.creates hc, hc.path.trans h.way, fun x => ?_, fun f hf' => ?_⟩
  · rw [hc.locks]
    exact h.unlocked x
  · exact kept_of_leaves (hf f hf').2 (h.kept f (hf f hf').1)

/-- A statement of the call that leaves the file and gives no name. -/
theorem Clean.quiet (hc : Creates w v w' v')
    (hent : v'.metadata.ns.entry = v.metadata.ns.entry)
    (hl : ∀ f, v.metadata.ns.follow 1 path = some f → Leaves f v v') : w'.Clean path v' := by
  refine h.creates hc fun f hf => ?_
  rw [Ns.follow_congr hent] at hf
  exact ⟨hf, hl f hf⟩

/-- A statement of the call that gives a directory a name. -/
theorem Clean.enters (hm : w.Made x .directory v)
    (hl : l ++ [name] <+: path) (hne : l ++ [name] ≠ path)
    (hcur : v.metadata.ns.follow 1 l = some cur) (hfree : v.metadata.lookup cur name = none)
    (he : Enters v v' (cur, name) x) :
    Creates w v w v' ∧ w.Clean path v' ∧ v'.metadata.ns.follow 1 (l ++ [name]) = some x := by
  have hlw : l ++ [name] <+: w.path := h.way.symm ▸ hl
  have hnames := hm.names h.toGood hcur hfree he
  have hc : Creates w v w v' :=
    .enters hm h.toGood hcur hfree he hlw (by rw [h.way, if_neg hne])
  refine ⟨hc, h.creates hc fun f hf => ⟨?_, he.leaves f⟩, he.follow hc.grows hcur⟩
  rcases hnames.follow h.shape.ns (h.plan.dirs_below hlw) hf with hf₀ | ⟨hp, -⟩
  · exact hf₀
  · exact absurd hp.symm hne

/-- A statement of the call that makes an inode. -/
theorem Clean.createInode (now n : Nat)
    (ht : attrs.type ≠ .symlink) :
    (w.adding v.metadata.nextIno).Clean path
      { v with metadata := (v.metadata.createInode attrs now).2, clockCalls := n } := by
  have hns := ns_createInode h.shape.ns attrs now
  refine h.quiet (.createInode h.shape now n ht) ?_ fun f hf =>
    leaves_createInode (follow_lt h.shape hf) attrs now n
  change (v.metadata.createInode attrs now).2.ns.entry = _
  rw [hns]
  rfl

/-- A statement of the call that changes a directory's attributes. -/
theorem Clean.updates (hu : Updates v v' ino g)
    (hty : ∀ i, (g i).type = i.type) (hdir : v.metadata.ns.IsDir ino)
    (hg : ¬ w.own ino → ∀ i, SameStorage i (g i)) :
    Creates w v w v' ∧ w.Clean path v' := by
  have hc : Creates w v w v' := .updates h.shape hu hty hg
  refine ⟨hc, h.quiet hc (hu.entry hty) fun f hf => ?_⟩
  refine ⟨fun i hi => ⟨i, ?_, .refl i⟩, by rw [hu.chunks], fun _ _ => by rw [hu.blocks],
    by rw [hu.buffers]⟩
  rw [hu.inodes, if_neg]
  · exact hi
  · rintro rfl
    obtain ⟨n, hn, ht⟩ := hdir
    obtain ⟨n', hn', ht'⟩ := (h.own hf).2
    rw [hn] at hn'
    cases hn'
    rw [ht] at ht'
    cases ht'

end

/-- The directory is made, and what the call was given is as it was. -/
theorem makeDirectory_turns {rest : List String} (hrest : rest ≠ [])
    (hpath : path = l ++ name :: rest) (h : w.Clean path v)
    (hcur : v.metadata.ns.follow 1 l = some cur) :
    creation.Turns (fun r w' v' => ∃ x, r = .ok x ∧ w'.Clean path v' ∧
      v'.metadata.ns.follow 1 (l ++ [name]) = some x) (Async.makeDirectory o cur name) w v := by
  have hl : l ++ [name] <+: path := ⟨rest, by rw [hpath, List.append_assoc]; rfl⟩
  have hne : l ++ [name] ≠ path := by
    intro he
    rw [hpath] at he
    have hnil := List.append_cancel_left he
    exact hrest (List.tail_eq_of_cons_eq hnil).symm
  unfold Async.makeDirectory
  refine .await_returns (createInode_returns o _ v) ?_
  rintro _ _ ⟨rfl, now, n, rfl⟩
  have hdir₀ : (⟨.directory, 0o755, 0, 0, none⟩ : CreateInodeAttrs).type ≠ .symlink := nofun
  have hc₁ := createInode (w := w) h.shape now n hdir₀
  have hm₁ := made_createInode (w := w) h.shape now n hdir₀
  refine ⟨_, hc₁, fun v₁ hb₁ ha₁ => ?_⟩
  replace h := (h.createInode now n hdir₀).beside hb₁
  replace hm₁ := hm₁.beside hb₁
  replace hcur := hb₁.grows.follow l 1 (hc₁.grows.follow l 1 hcur)
  have hfree : v₁.metadata.lookup cur name = none := ha₁.guard _ _ _ _ rfl
  refine .await_returns (createDentry_returns hfree _ _) fun _ v₂ he₂ => ?_
  obtain ⟨hc₂, h₂, hx₂⟩ := h.enters hm₁ hl hne hcur hfree he₂
  refine ⟨_, hc₂, fun v₃ hb₃ _ => ?_⟩
  replace h := h₂.beside hb₃
  have hx := hb₃.grows.follow _ 1 hx₂
  replace hcur := hb₃.grows.follow l 1 (hc₂.grows.follow l 1 hcur)
  have hw := h.way
  have hdir : v₃.metadata.ns.IsDir v.metadata.nextIno :=
    h.plan.dirs _ _ (hw ▸ hl) (hw ▸ hne) hx
  refine .await_returns (updateInode_updates v₃ _ _) fun _ v₄ hu₄ => ?_
  obtain ⟨hc₄, h₄⟩ := h.updates hu₄ (fun _ => rfl) hdir fun hno => absurd hm₁.own hno
  refine ⟨_, hc₄, fun v₅ hb₅ _ => ?_⟩
  replace h := h₄.beside hb₅
  replace hx := hb₅.grows.follow _ 1 (hc₄.grows.follow _ 1 hx)
  replace hcur := hb₅.grows.follow l 1 (hc₄.grows.follow l 1 hcur)
  refine .await_read (refl h.shape) fun v₆ hb₆ _ => ?_
  replace h := h.beside hb₆
  replace hx := hb₆.grows.follow _ 1 hx
  replace hcur := hb₆.grows.follow l 1 hcur
  cases v₅.metadata.getInode cur with
  | none => exact ⟨_, rfl, h, hx⟩
  | some parent =>
      have hdir' : v₆.metadata.ns.IsDir cur :=
        h.plan.dirs_below (hw ▸ hl) l cur (List.prefix_refl l) hcur
      refine .await_returns (updateInode_updates v₆ _ _) fun _ v₇ hu₇ => ?_
      obtain ⟨hc₇, h₇⟩ := h.updates hu₇ (fun _ => rfl) hdir' fun _ i => ⟨rfl, rfl, rfl, rfl⟩
      refine ⟨_, hc₇, fun v₈ hb₈ _ => ⟨_, rfl, h₇.beside hb₈, ?_⟩⟩
      exact hb₈.grows.follow _ 1 (hc₇.grows.follow _ 1 hx)

/-- The walk ends at the parent, whatever was missing on the way. -/
theorem ensureParentsLoop_turns (r : List String) :
    ∀ (l : List String) (cur : Nat) (w : Share) (v : ChunkedVfs), path = l ++ (r ++ [name]) →
      w.Clean path v → v.metadata.ns.follow 1 l = some cur →
      creation.Turns (fun q w' v' => ∃ p, q = .ok p ∧ w'.Clean path v' ∧
        v'.metadata.ns.follow 1 (l ++ r) = some p) (Async.ensureParentsLoop o cur r) w v := by
  induction r with
  | nil =>
      intro l cur w v hpath h hcur
      refine .yield fun v₁ hb₁ _ => ⟨cur, rfl, h.beside hb₁, ?_⟩
      rw [List.append_nil]
      exact hb₁.grows.follow l 1 hcur
  | cons component r ih =>
      intro l cur w v hpath h hcur
      have hassoc : l ++ component :: r = (l ++ [component]) ++ r := by
        rw [List.append_assoc]
        rfl
      have hpath' : path = (l ++ [component]) ++ (r ++ [name]) := by
        rw [hpath, List.append_assoc]
        rfl
      refine .await_read (refl h.shape) fun v₁ hb₁ _ => ?_
      rw [hassoc]
      cases hl : v.metadata.lookup cur component with
      | some child =>
          refine ih _ child w v₁ hpath' (h.beside hb₁) (hb₁.grows.follow _ 1 ?_)
          exact Ns.follow_snoc.mpr ⟨cur, hcur, hl⟩
      | none =>
          refine .bind (.mono (makeDirectory_turns (show r ++ [name] ≠ [] by simp) hpath (h.beside hb₁)
            (hb₁.grows.follow l 1 hcur)) ?_)
          rintro _ w₂ v₂ ⟨x, rfl, h₂, hx⟩
          exact ih _ x w₂ v₂ hpath' h₂ hx

end Share

/-- A chunk that is not stored is not named. -/
theorem KeysOk.unnamed {k : Nat} (h : KeysOk v f) (hn : v.chunkFn f k = none) :
    v.metadata.getChunkKey f k = none := by
  rcases hk : v.metadata.getChunkKey f k with _ | key
  · rfl
  · obtain ⟨b, -, hb⟩ := h.chunkFn_eq hk
    rw [hn] at hb
    cases hb

namespace Share

/-- While the call writes the file `f`: its chunks are `g`. -/
structure Writing (w : Share) (path : List String) (f : Nat) (g : Nat → Option ByteArray8)
    (v : ChunkedVfs) : Prop extends Good w v where
  way : w.path = path
  own : w.own f
  named : v.metadata.ns.follow 1 path = some f
  keys : KeysOk v f
  buffer : v.writeBuffers.get f = none
  chunks : v.chunkFn f = g

variable {g g' : Nat → Option ByteArray8}

theorem Writing.beside (h : w.Writing path f g v) (hb : Beside w v v') :
    w.Writing path f g v' := by
  have hl := hb.leaves f h.own
  exact ⟨h.toGood.beside hb, h.way, h.own, hb.grows.follow _ 1 h.named,
    h.keys.look hl.chunks hl.blocks, hl.buffer.trans h.buffer,
    (chunkFn_look hl.chunks hl.blocks h.keys).trans h.chunks⟩

/-- A statement of the call on the storage of the file. -/
theorem Writing.elsewhere (h : w.Writing path f g v) (he : Elsewhere f v v')
    (hi : v'.metadata.inodes f = v.metadata.inodes f) (hk : KeysOk v' f)
    (hb : v'.writeBuffers.get f = none) (hg : v'.chunkFn f = g') :
    Creates w v w v' ∧ w.Writing path f g' v' := by
  have hc : Creates w v w v' := .elsewhere h.shape he h.own (follow_lt h.shape h.named) (by rw [hi])
  exact ⟨hc, h.toGood.creates hc, h.way, h.own, hc.grows.follow _ 1 h.named, hk, hb, hg⟩

/-- The call has written the file. -/
structure Wrote (o : ChunkedVfsOptions) (w : Share) (path : List String) (data : ByteArray8)
    (v : ChunkedVfs) : Prop extends Good w v where
  way : w.path = path
  shown : ∃ f i, v.metadata.ns.follow 1 path = some f ∧ v.metadata.inodes f = some i ∧
    i.type = .file ∧ Shows o v f i data

variable {data : ByteArray8}

theorem Wrote.beside (h : Wrote o w path data v) (hb : Beside w v v') :
    Wrote o w path data v' := by
  obtain ⟨hg, rfl, f, i, hf, hi, ht, hs⟩ := h
  have hl := hb.leaves f (hg.plan.file f hf).1
  obtain ⟨i', hi', hsame⟩ := hl.inode i hi
  exact ⟨hg.beside hb, rfl, f, i', hb.grows.follow _ 1 hf, hi', hsame.type.trans ht,
    hl.shows hs hsame⟩

variable {u : InodeMeta → InodeMeta}

/-- The last statement: the inode is told what is stored. -/
theorem Writing.updates
    (h : w.Writing path f g v) (hu : Updates v v' f u) (hty : ∀ i, (u i).type = i.type)
    (hs : ∀ i, Stores o v f (u i) data) : Creates w v w v' ∧ Wrote o w path data v' := by
  have hc : Creates w v w v' := .updates h.shape hu hty fun hno => absurd h.own hno
  have hg := h.toGood.creates hc
  have hf := hc.grows.follow _ 1 h.named
  obtain ⟨hgood, rfl, hown, hnamed, hkeys, hbuf, -⟩ := h
  obtain ⟨n, hn, ht⟩ := (hgood.plan.file f hnamed).2
  obtain ⟨i, hi, rfl⟩ := node_ns_some hn
  have hshows : Shows o v f (u i) data := (hs i).shows hbuf
  refine ⟨hc, hg, rfl, f, u i, hf, ?_, (hty i).trans ht, ?_⟩
  · rw [hu.inodes, if_pos rfl, hi]
    rfl
  · exact hshows.look (by rw [hu.chunks]) (fun _ _ => by rw [hu.blocks]) (by rw [hu.buffers])
      (.refl _)

theorem dropAllChunks_turns (h : w.Writing path f g v) :
    creation.Turns (fun r w' v' => r = .ok ⟨⟩ ∧ w' = w ∧ w.Writing path f (fun _ => none) v')
      (Async.dropAllChunks o f) w v := by
  obtain ⟨hm, hch⟩ := deleteAllChunks_frame v.metadata f
  have hkeys : ∀ k ∈ (v.metadata.deleteAllChunks f).1, k.ino = f :=
    fun k hk => mem_deleteAllChunks h.keys hk
  have hget := getChunkKey_deleteAllChunks v.metadata f
  unfold Async.dropAllChunks
  refine .await_returns (R := fun keys v' => keys = (v.metadata.deleteAllChunks f).1 ∧
    v' = { v with metadata := (v.metadata.deleteAllChunks f).2 }) ⟨rfl, rfl⟩ ?_
  rintro _ _ ⟨rfl, rfl⟩
  have he : Elsewhere f v { v with metadata := (v.metadata.deleteAllChunks f).2 } :=
    ⟨by rw [hm], by rw [hm], by rw [hm], fun j _ => by rw [hm], hch, fun _ _ => rfl, fun _ _ => rfl⟩
  obtain ⟨hc, h₁⟩ := h.elsewhere he (by rw [hm]) (fun ci k hk => by rw [hget] at hk; cases hk) h.buffer
    (show _ = fun _ => none from funext fun ci => by rw [ChunkedVfs.chunkFn, hget]; rfl)
  refine ⟨w, hc, fun v₁ hb₁ _ => ?_⟩
  replace h₁ := h₁.beside hb₁
  split
  · refine .await_last_returns (R := fun _ v' => v' = { v₁ with
      blocks := v₁.blocks.deleteMany (v.metadata.deleteAllChunks f).1 }) rfl ?_
    rintro _ _ rfl
    have hnone : ∀ ci, v₁.metadata.getChunkKey f ci = none := fun ci =>
      h₁.keys.unnamed (congrFun h₁.chunks ci)
    have hblocks : ∀ k : BlockKey, k.ino ≠ f →
        (v₁.blocks.deleteMany (v.metadata.deleteAllChunks f).1).blocks k = v₁.blocks.blocks k := by
      intro k hk
      rw [blocks_deleteMany, if_neg fun hmem => hk (hkeys k hmem)]
    have he₂ : Elsewhere f v₁ { v₁ with
        blocks := v₁.blocks.deleteMany (v.metadata.deleteAllChunks f).1 } :=
      ⟨rfl, rfl, rfl, fun _ _ => rfl, fun _ _ => rfl, hblocks, fun _ _ => rfl⟩
    obtain ⟨hc₂, h₂⟩ := h₁.elsewhere he₂ rfl (fun ci k hk => by cases (hnone ci).symm.trans hk) h₁.buffer
      (funext fun ci => congrArg (Option.bind · _) (hnone ci))
    exact ⟨w, hc₂, fun v₃ hb₃ => ⟨rfl, rfl, h₂.beside hb₃⟩⟩
  · exact ⟨rfl, rfl, h₁⟩

/-- The chunks below `n` of a content. -/
def cut (chunkSize : Nat) (content : ByteArray8) (n : Nat) : Nat → Option ByteArray8 := fun ci =>
  if ci < n then some (piece chunkSize content ci) else none

theorem update_cut (chunkSize : Nat) (content : ByteArray8) (n : Nat) :
    update (cut chunkSize content n) n (some (piece chunkSize content n)) =
      cut chunkSize content (n + 1) := by
  funext ci
  rw [update_apply, cut, cut]
  by_cases hci : ci = n
  · rw [if_pos hci, hci, if_pos (Nat.lt_succ_self n)]
  · rw [if_neg hci]
    exact if_congr (by omega) rfl rfl

/-- A block that the chunk map does not name. -/
theorem chunkFn_unnamed {k : Nat} (hk : KeysOk v f)
    (hother : ∀ cj, cj ≠ k → v'.chunkFn f cj = v.chunkFn f cj) (hm : v'.metadata = v.metadata)
    (hnone : v.chunkFn f k = none) :
    v'.chunkFn f = v.chunkFn f := by
  funext cj
  by_cases hcj : cj = k
  · rw [hcj, hnone, ChunkedVfs.chunkFn, hm, hk.unnamed hnone]
    rfl
  · exact hother cj hcj

theorem writeChunks_turns (content : ByteArray8) (n : Nat) :
    ∀ (k : Nat) (v : ChunkedVfs), w.Writing path f (cut o.chunkSize content k) v →
      creation.Turns (fun r w' v' => r = .ok ⟨⟩ ∧ w' = w ∧
        w.Writing path f (cut o.chunkSize content (k + n)) v')
        (Async.writeChunks o f content n k) w v := by
  induction n with
  | zero => exact fun k v h => ⟨rfl, rfl, h⟩
  | succ n ih =>
      intro k v h
      unfold Async.writeChunks
      refine .lift_returns (makeBlockKey_returns o f k v) ?_
      rintro key _ ⟨⟨r, rfl⟩, hi, hk⟩
      have he₁ : Elsewhere f v { v with randomCalls := r } :=
        ⟨rfl, rfl, rfl, fun _ _ => rfl, fun _ _ => rfl, fun _ _ => rfl, fun _ _ => rfl⟩
      obtain ⟨hc₁, h₁⟩ := h.elsewhere he₁ rfl h.keys h.buffer h.chunks
      refine ⟨w, hc₁, ?_⟩
      -- the block is there before the chunk map names it
      refine .await_returns (R := fun _ v' => v' = { v with
        randomCalls := r, blocks := v.blocks.write key (piece o.chunkSize content k) }) rfl ?_
      rintro _ _ rfl
      obtain ⟨hkeys, hother, -⟩ := chunkFn_write h₁.keys ⟨hi, hk⟩ (piece o.chunkSize content k)
      have hnone : v.chunkFn f k = none := by
        rw [h.chunks]
        exact if_neg (Nat.lt_irrefl k)
      have hch := (chunkFn_unnamed h₁.keys hother rfl hnone).trans h₁.chunks
      obtain ⟨hc₂, h₂⟩ := h₁.elsewhere (elsewhere_block _ hi _) rfl hkeys h₁.buffer hch
      refine ⟨w, hc₂, fun v₃ hb₃ _ => ?_⟩
      replace h₂ := h₂.beside hb₃
      have hblock : v₃.blocks.blocks key = some (piece o.chunkSize content k) :=
        ((hb₃.leaves f h.own).blocks key hi).trans (update_self ..)
      refine .await_returns (R := fun _ v' => v' = { v₃ with
        metadata := v₃.metadata.setChunkKey f k key }) rfl ?_
      rintro _ _ rfl
      have he : ChunkEffect f v₃ { v₃ with metadata := v₃.metadata.setChunkKey f k key } _ :=
        storeChunk_effect h₂.keys hi hk rfl hblock (fun _ _ => rfl) rfl
      obtain ⟨hc₄, h₄⟩ := h₂.elsewhere he.touches.toElsewhere (by rw [he.inodes]) he.keys
        (by rw [he.buffers]; exact h₂.buffer) he.chunks
      rw [h₂.chunks, update_cut] at h₄
      refine ⟨w, hc₄, fun v₅ hb₅ _ => ?_⟩
      rw [Nat.add_comm n 1, ← Nat.add_assoc]
      exact ih (k + 1) v₅ (h₄.beside hb₅)

theorem cut_all (hcs : 0 < o.chunkSize) (content : ByteArray8) :
    Chunks o.chunkSize (cut o.chunkSize content (numChunks content.length o.chunkSize)) content := by
  refine Chunks.split hcs fun ci => ?_
  exact if_congr (lt_numChunks_iff hcs content.length ci) rfl rfl

/-- The content is stored in the inode, or cut into chunks. -/
theorem writeStored_turns (hcs : 0 < o.chunkSize) (content : ByteArray8) (now : Nat)
    (h : w.Writing path f (fun _ => none) v) :
    creation.Turns (fun r w' v' => r = .ok ⟨⟩ ∧ w' = w ∧ Wrote o w path content v')
      (if content.length ≤ o.inlineThreshold then
        Coro.await (updateInode f fun i => { i with
          storageMode := .inline, inlineContent := some content, size := content.length,
          mtimeMs := now, ctimeMs := now })
      else do
        Async.writeChunks o f content (numChunks content.length o.chunkSize) 0
        Coro.await (updateInode f fun i => { i with
          storageMode := .chunked, inlineContent := none, size := content.length,
          mtimeMs := now, ctimeMs := now })) w v := by
  split
  · refine .await_last_returns (updateInode_updates v f _) fun _ v₁ hu₁ => ?_
    obtain ⟨hc, h₁⟩ := h.updates (o := o) hu₁ (fun _ => rfl) fun i =>
      .of_inline h.keys (congrFun h.chunks) rfl rfl rfl
    exact ⟨w, hc, fun v₂ hb₂ => ⟨rfl, rfl, h₁.beside hb₂⟩⟩
  · have hcut : cut o.chunkSize content 0 = fun _ => none :=
      funext fun ci => if_neg (Nat.not_lt_zero ci)
    refine .bind (.mono (writeChunks_turns content _ 0 v (hcut ▸ h)) ?_)
    rintro _ _ v₁ ⟨rfl, rfl, h₁⟩
    rw [Nat.zero_add] at h₁
    refine .await_last_returns (updateInode_updates v₁ f _) fun _ v₂ hu₂ => ?_
    obtain ⟨hc, h₂⟩ := h₁.updates (o := o) hu₂ (fun _ => rfl) fun i =>
      .of_chunked h₁.keys (h₁.chunks ▸ cut_all hcs content) rfl rfl
    exact ⟨_, hc, fun v₃ hb₃ => ⟨rfl, rfl, h₂.beside hb₃⟩⟩

theorem writeInodeContent_turns (hcs : 0 < o.chunkSize) (content : ByteArray8)
    (h : w.Writing path f g v) (hi : i.storageMode = .inline → ∀ ci, g ci = none) :
    creation.Turns (fun r w' v' => r = .ok ⟨⟩ ∧ w' = w ∧ Wrote o w path content v')
      (Async.writeInodeContent o f content i) w v := by
  unfold Async.writeInodeContent
  refine .lift_returns (dateNow_returns o v) ?_
  rintro now _ ⟨n, rfl⟩
  obtain ⟨hc, h₁⟩ := h.elsewhere (elsewhere_clock v f n) rfl h.keys h.buffer h.chunks
  refine ⟨w, hc, ?_⟩
  cases hm : i.storageMode with
  | inline =>
      have hg : g = fun _ => none := funext (hi hm)
      exact writeStored_turns hcs content now (hg ▸ h₁)
  | chunked =>
      refine .bind (.mono (dropAllChunks_turns h₁) ?_)
      rintro _ _ v₂ ⟨rfl, rfl, h₂⟩
      exact writeStored_turns hcs content now h₂

/-! ### The call -/

theorem Good.relock (h : w.Good v) (L : Nat → Prop) : Good { w with locks := L } v :=
  ⟨h.shape, h.root, h.plan.dirs, h.plan.file⟩

theorem Wrote.relock (h : Wrote o w path data v) (L : Nat → Prop) :
    Wrote o { w with locks := L } path data v :=
  ⟨h.toGood.relock L, h.way, h.shown⟩

/-- The link count of the file that was written. -/
theorem Wrote.updates (h : Wrote o w path data v)
    (hu : Updates v v' f u) (hs : ∀ i, SameStorage i (u i)) :
    Creates w v w v' ∧ Wrote o w path data v' := by
  have hc : Creates w v w v' := .updates h.shape hu (fun i => (hs i).type) fun _ => hs
  obtain ⟨hg, hway, c, i, hf, hi, ht, hshow⟩ := h
  have hlook : ∀ {i'}, SameStorage i i' → Shows o v' c i' data :=
    hshow.look (by rw [hu.chunks]) (fun _ _ => by rw [hu.blocks]) (by rw [hu.buffers])
  have hin := hu.inodes c
  rw [hi] at hin
  refine ⟨hc, hg.creates hc, hway, c, ?_⟩
  split at hin
  · exact ⟨u i, hc.grows.follow _ 1 hf, hin, (hs i).type.trans ht, hlook (hs i)⟩
  · exact ⟨i, hc.grows.follow _ 1 hf, hin, ht, hlook (.refl i)⟩

theorem requireInode_turns {α : Type} {q : InodeMeta → VfsTask α}
    {Q : Except Failure α → Share → ChunkedVfs → Prop} (h : w.Good v)
    (hi : v.metadata.inodes f = some i)
    (hq : ∀ v', Beside w v v' → creation.Turns Q (q i) w v') :
    creation.Turns Q (Coro.await (requireInode f) >>= q) w v := by
  refine .await_returns (requireInode_returns hi) ?_
  rintro _ _ ⟨rfl, rfl⟩
  exact ⟨w, .refl h.shape, fun v₁ hb₁ _ => hq v₁ hb₁⟩

/-- A statement of the call that leaves the storage of the file. -/
theorem Writing.creates (h : w.Writing path f g v) (hc : Creates w v w v') (hl : Leaves f v v') :
    w.Writing path f g v' :=
  ⟨h.toGood.creates hc, h.way, h.own, hc.grows.follow _ 1 h.named,
    h.keys.look hl.chunks hl.blocks, hl.buffer.trans h.buffer,
    (chunkFn_look hl.chunks hl.blocks h.keys).trans h.chunks⟩

variable (hcs : 0 < o.chunkSize)
include hcs

/-- The file is there. -/
theorem writeExisting_turns (data : ByteArray8) (h : w.Good v)
    (hway : w.path = path) (hf : v.metadata.ns.follow 1 path = some f)
    (hkept : ∃ i, v.metadata.inodes f = some i ∧ Kept v f i) :
    creation.Turns (fun r w' v' => r = .ok ⟨⟩ ∧ w' = w ∧ Wrote o w path data v')
      (Async.writeExisting o f data) w v := by
  obtain ⟨i, hi, hk⟩ := hkept
  have hown : w.own f := (h.plan.file f (hway.symm ▸ hf)).1
  unfold Async.writeExisting
  refine requireInode_turns h hi fun v₁ hb₁ => ?_
  have hl := hb₁.leaves f hown
  have hk₁ : Kept v₁ f i := hk.look hl.chunks hl.blocks hl.buffer (.refl i)
  have h₁ := h.beside hb₁
  have hf₁ := hb₁.grows.follow _ 1 hf
  -- `writeBuffers.delete(existingIno)`
  refine .lift_returns (R := fun _ v' => v' = { v₁ with
    writeBuffers := v₁.writeBuffers.delete f }) rfl ?_
  rintro _ _ rfl
  have hc₂ := elsewhere h₁.shape (elsewhere_drop v₁ f) hown (follow_lt h₁.shape hf₁) rfl
  have h₂ : w.Writing path f (v₁.chunkFn f) { v₁ with
      writeBuffers := v₁.writeBuffers.delete f } :=
    ⟨h₁.creates hc₂, hway, hown, hf₁, hk₁.keys, OMap.get_delete_self .., rfl⟩
  refine ⟨w, hc₂, .bind (.mono (writeInodeContent_turns hcs data h₂ fun hm => (hk₁.inline hm).1) ?_)⟩
  rintro _ _ v₃ ⟨rfl, rfl, h₃⟩
  refine .await_last_returns (updateInode_updates v₃ f _) fun _ v₄ hu₄ => ?_
  obtain ⟨hc₄, h₄⟩ := h₃.updates hu₄ fun _ => ⟨rfl, rfl, rfl, rfl⟩
  exact ⟨_, hc₄, fun v₅ hb₅ => ⟨rfl, rfl, h₄.beside hb₅⟩⟩

/-- The file is made. -/
theorem writeNew_turns (data : ByteArray8) (hpath : path = l ++ [name])
    (h : w.Clean path v) (hcur : v.metadata.ns.follow 1 l = some cur) :
    creation.Turns (fun r w' v' => r = .ok ⟨⟩ ∧ Wrote o w' path data v')
      (Async.writeNew o cur name data) w v := by
  subst hpath
  unfold Async.writeNew
  refine .await_returns (createInode_returns o _ v) ?_
  rintro _ _ ⟨rfl, now, n, rfl⟩
  have hfile : (⟨.file, 0o644, 0, 0, none⟩ : CreateInodeAttrs).type ≠ .symlink := nofun
  have hc₁ := createInode (w := w) h.shape now n hfile
  have hm₁ := made_createInode (w := w) h.shape now n hfile
  refine ⟨_, hc₁, fun v₁ hb₁ ha₁ => ?_⟩
  replace h := (h.createInode now n hfile).beside hb₁
  replace hm₁ := hm₁.beside hb₁
  replace hcur := hb₁.grows.follow l 1 (hc₁.grows.follow l 1 hcur)
  have hfree : v₁.metadata.lookup cur name = none := ha₁.guard _ _ _ _ rfl
  refine .await_returns (createDentry_returns hfree _ _) fun _ v₂ he₂ => ?_
  have hc₂ := enters hm₁ h.toGood hcur hfree he₂ (h.way ▸ List.prefix_refl _)
    (by rw [h.way, if_pos rfl])
  have hkey : ∀ ci, v₂.metadata.getChunkKey v.metadata.nextIno ci = none := fun ci => by
    rw [getChunkKey, he₂.chunks, hm₁.chunks]
    rfl
  have h₂ : (w.adding v.metadata.nextIno).Writing (l ++ [name]) v.metadata.nextIno
      (fun _ => none) v₂ :=
    ⟨h.toGood.creates hc₂, h.way, hm₁.own, he₂.follow hc₂.grows hcur,
      fun ci k hk => (by cases (hkey ci).symm.trans hk), he₂.buffers ▸ hm₁.buffer,
      funext fun ci => by rw [ChunkedVfs.chunkFn, hkey]; rfl⟩
  refine ⟨_, hc₂, fun v₃ hb₃ _ => ?_⟩
  replace h₂ := h₂.beside hb₃
  refine .await_returns (updateInode_updates v₃ _ _) fun _ v₄ hu₄ => ?_
  have hc₄ := updates (w := w.adding v.metadata.nextIno) h₂.shape hu₄ (fun _ => rfl)
    fun _ _ => ⟨rfl, rfl, rfl, rfl⟩
  refine ⟨_, hc₄, fun v₅ hb₅ _ => ?_⟩
  replace h₂ := (h₂.creates hc₄ (hu₄.leaves (fun _ => ⟨rfl, rfl, rfl, rfl⟩) _)).beside hb₅
  obtain ⟨m, hm⟩ := h₂.shape.ns.follow_node h₂.named
  obtain ⟨i, hi, -⟩ := node_ns_some hm
  refine requireInode_turns h₂.toGood hi fun v₆ hb₆ => ?_
  refine .mono (writeInodeContent_turns hcs data (h₂.beside hb₆) fun _ _ => rfl) ?_
  rintro _ _ v₇ ⟨rfl, rfl, h₇⟩
  exact ⟨rfl, h₇⟩

/-- **One call** keeps to the protocol, and its path shows its data. -/
theorem writeFile_turns (path : String) (data : ByteArray8)
    (hne : splitPath (normalizePath path) ≠ []) (h : w.Clean (splitPath (normalizePath path)) v) :
    creation.Turns (fun r w' v' => r = .ok ⟨⟩ ∧ Wrote o w' (splitPath (normalizePath path)) data v')
      (Async.writeFile o path data) w v := by
  obtain ⟨l, name, hl⟩ : ∃ l name, splitPath (normalizePath path) = l ++ [name] := by
    rcases List.eq_nil_or_concat (splitPath (normalizePath path)) with hnil | ⟨l, name, hl⟩
    · exact absurd hnil hne
    · exact ⟨l, name, hl.trans List.concat_eq_append⟩
  rw [hl] at h ⊢
  unfold Async.writeFile Async.ensureParents
  simp only [hl, List.getLast?_append, List.getLast?_singleton, List.dropLast_concat, Option.some_or]
  refine .bind (.bind (.mono (ensureParentsLoop_turns l [] 1 w v
    (show l ++ [name] = [] ++ (l ++ [name]) from rfl) h rfl) ?_))
  rintro _ w₁ v₁ ⟨p, rfl, h₁, hp⟩
  rw [List.nil_append] at hp
  refine .await_read (refl h₁.shape) fun v₂ hb₂ _ => ?_
  have h₂ := h₁.beside hb₂
  have hp₂ := hb₂.grows.follow l 1 hp
  cases hx : v₁.metadata.lookup p name with
  | none => exact writeNew_turns hcs data rfl h₂ hp₂
  | some f =>
      have hf₁ : v₁.metadata.ns.follow 1 (l ++ [name]) = some f := Ns.follow_snoc.mpr ⟨p, hp, hx⟩
      have ht : creation.take f w₁ { w₁ with locks := fun x => w₁.locks x ∨ x = f } :=
        ⟨(h₁.own hf₁).1, h₁.unlocked f, rfl⟩
      refine .withLock ht fun v₃ v₄ hb₃ hb₄ _ => ?_
      have h₃ := h₂.beside hb₃
      have hf₃ := hb₃.grows.follow _ 1 (hb₂.grows.follow _ 1 hf₁)
      have hl₄ := hb₄.leaves f (h₃.own hf₃).1
      refine .mono (writeExisting_turns hcs data ((h₃.relock _).beside hb₄) h₃.way
        (hb₄.grows.follow _ 1 hf₃) (kept_of_leaves hl₄ (h₃.kept f hf₃))) ?_
      rintro _ _ v₅ ⟨rfl, rfl, h₅⟩
      exact ⟨_, rfl, rfl, h₅.relock _⟩

end Share

/-! ### The calls -/

/-- What the calls are started on: no path is on the way of another or leads to another's file, and
what is there of a path is directories and a regular file at its end. -/
structure CanCreate {I : Type} (v : ChunkedVfs) (path : I → List String) : Prop where
  nonempty : ∀ j, path j ≠ []
  apart : ∀ j k, path j <+: path k → j = k
  dirs : ∀ j l d, l <+: path j → l ≠ path j → v.metadata.ns.follow 1 l = some d →
    v.metadata.ns.IsDir d
  files : ∀ j f, v.metadata.ns.follow 1 (path j) = some f → v.metadata.ns.IsFile f
  distinct : ∀ j k f, v.metadata.ns.follow 1 (path j) = some f →
    v.metadata.ns.follow 1 (path k) = some f → j = k

/-- What a call leaves: its path reads back its data, and each directory on the way has one name. -/
structure Created (o : ChunkedVfsOptions) (path : String) (data : ByteArray8) (v : ChunkedVfs) :
    Prop where
  reads : ((readFile o path).exec v).1 = .ok data
  dirs : ∀ l, l <+: splitPath (normalizePath path) → l ≠ splitPath (normalizePath path) → l ≠ [] →
    ∃ d e, v.metadata.ns.follow 1 l = some d ∧ v.metadata.ns.IsDir d ∧
      ∀ e', v.metadata.ns.entry e' = some d ↔ e' = e

theorem Share.Wrote.created (hcs : 0 < o.chunkSize) {path : String} {data : ByteArray8}
    (h : Wrote o w (splitPath (normalizePath path)) data v) : Created o path data v := by
  obtain ⟨hg, hway, f, i, hf, hi, ht, hs⟩ := h
  have hdirs := hg.plan.dirs
  rw [hway] at hdirs
  refine ⟨readFile_eq hcs ?_ hi ht hs, fun l hl hne hnil => ?_⟩
  · refine walk_follow _ (fun j hj => ?_) _ 1 [] hdirs hf
    cases hi.symm.trans hj
    rw [ht]
    nofun
  · obtain ⟨r, hr⟩ := hl
    rw [← hr, Ns.follow_append, Option.bind_eq_some_iff] at hf
    obtain ⟨d, hd, -⟩ := hf
    have hdir := hdirs l d ⟨r, hr⟩ hne hd
    rcases List.eq_nil_or_concat l with rfl | ⟨l', k, rfl⟩
    · exact absurd rfl hnil
    · rw [List.concat_eq_append] at hd ⊢
      obtain ⟨p, -, he⟩ := Ns.follow_snoc.mp hd
      refine ⟨d, (p, k), hd, hdir, fun e' => ⟨fun he' => ?_, fun he' => he' ▸ he⟩⟩
      exact hg.shape.ns.single _ _ _ he' he hdir

section Calls
variable {I : Type} [DecidableEq I] {paths : I → String} {data : I → ByteArray8}

/-- `writeFile` calls that were all started. -/
def creators (o : ChunkedVfsOptions) (paths : I → String) (data : I → ByteArray8)
    (v : ChunkedVfs) : Pool I Failure ChunkedVfs Nat PUnit where
  tasks j := Async.writeFile o (paths j) (data j)
  held _ := false
  state := v

/-- What a call comes to. -/
def Outcome (o : ChunkedVfsOptions) (paths : I → String) (data : I → ByteArray8) (j : I)
    (r : Except Failure PUnit) (w : Share) (v : ChunkedVfs) : Prop :=
  r = .ok ⟨⟩ ∧ Wrote o w (splitPath (normalizePath (paths j))) (data j) v

omit [DecidableEq I] in
theorem VfsOk.shape (h : VfsOk o v) : Shape v := ⟨h.ns.toNsShape, h.content.fresh⟩

omit [DecidableEq I] in
theorem creators_ok (hcs : 0 < o.chunkSize) (h : VfsOk o v)
    (hp : CanCreate v fun j => splitPath (normalizePath (paths j))) :
    Ok creation Together (Outcome o paths data) (creators o paths data v) := by
  have hshape := h.shape
  have hclean : ∀ j, Clean ⟨splitPath (normalizePath (paths j)),
      fun x => v.metadata.ns.follow 1 (splitPath (normalizePath (paths j))) = some x,
      fun _ => False⟩ (splitPath (normalizePath (paths j))) v := by
    intro j
    refine ⟨⟨hshape, fun h1 => ?_, hp.dirs j, fun f hf => ⟨hf, hp.files j f hf⟩⟩, rfl,
      fun _ => id, fun f hf => ?_⟩
    · obtain ⟨n, hn, ht⟩ := hp.files j 1 h1
      obtain ⟨n', hn', hd⟩ := hshape.ns.root
      cases hn.symm.trans hn'
      rw [ht] at hd
      cases hd
    · obtain ⟨n, hn, -⟩ := hp.files j f hf
      obtain ⟨i, hi, -⟩ := node_ns_some hn
      exact ⟨i, hi, h.content.kept f i hi⟩
  refine ⟨_, ⟨fun j => (hclean j).toGood, fun j x hx => follow_lt hshape hx,
    fun j k x => hp.distinct j k x, fun j k => hp.apart j k, fun x hx => (by cases hx),
    fun j x hx => hx.elim⟩, fun j v' hb _ => ?_⟩
  exact writeFile_turns hcs (paths j) (data j) (hp.nonempty j) ((hclean j).beside hb)

/-- **Concurrent creation.**  Calls of `writeFile` beside each other, from any state that calls lead
to, none of whose paths is on the way of another or leads to another's file, with what is there of
them directories and regular files at their ends: as long as every entry is made where there is
none, no call rejects, every call that has not ended can go on, no run goes on for ever, and a call
that has ended can be read back, with each directory on its way there once. -/
theorem creation_concurrent [Finite I] (hcs : 0 < o.chunkSize) {now : Nat}
    (hv : Reach (VfsOp.step o) Any (createChunkedVfs now) v)
    (hp : CanCreate v fun j => splitPath (normalizePath (paths j)))
    {p : Pool I Failure ChunkedVfs Nat PUnit}
    (r : Reach step (Heeds creation) (creators o paths data v) p) :
    (∀ j e, (p.tasks j).outcome? ≠ some (.error e)) ∧
    (∀ j, (p.tasks j).outcome? = none → (p.step j).isSome) ∧
    (¬ ∃ run : Nat → Pool I Failure ChunkedVfs Nat PUnit, run 0 = p ∧
      ∀ n, ∃ j, (run n).step j = some (run (n + 1))) ∧
    ∀ j, (p.tasks j).outcome? = some (.ok ⟨⟩) → Created o (paths j) (data j) p.state := by
  have hok : Ok creation Together (Outcome o paths data) p := by
    refine ok_reach together_fits (fun j r w v v' h hb => ?_)
      (creators_ok hcs (vfsOk_reach hcs hv) hp) r
    exact ⟨h.1, h.2.beside hb⟩
  refine ⟨fun j e he => ?_, fun j hj => hok.can_step (fun h ht => h.free ht) hj, ?_, fun j hj => ?_⟩
  · obtain ⟨ws, -, hout, -⟩ := hok.outcome he
    cases hout
  · rintro ⟨run, -, hrun⟩
    exact no_endless_run ⟨run, hrun⟩
  · obtain ⟨ws, -, -, hwrote⟩ := hok.outcome hj
    exact hwrote.created hcs

end Calls

/-! ### Two calls that share a directory -/

section Turns
variable {α : Type} {k : VfsTask α} {q : ChunkedVfs → VfsTask α} {a : ChunkedVfs → ChunkedVfs}

theorem heeds_pause : creation.Allowed (.pause k) v := Protocol.allowed_of_ne fun _ _ => nofun

/-- `createDentry` leaves the state where the name is taken. -/
theorem createDentry_taken {t : InodeType} (h : v.metadata.lookup c name = some d) :
    ((Async.createDentry c name x t).exec v).2 = v := by
  obtain ⟨e, he⟩ := createDentry_error h x t
  unfold Async.createDentry
  simp [exec_bind, he]

/-- What the turn does, if it begins with `createDentry`. -/
theorem begins_createDentry {t : InodeType}
    (h : Coro.Begins (Coro.await (Async.createDentry c name x t)) (.step a q)) (v : ChunkedVfs) :
    a v = ((Async.createDentry c name x t).exec v).2 := by
  obtain ⟨q', hq, -⟩ := h.step
  injection hq with ha
  rw [ha]

/-- A turn that changes the state at once. -/
theorem heeds_change (h : a v ≠ v) : creation.Allowed (.step a q) v := by
  rintro f k hd c name x t he
  rw [he] at hd
  have ha := begins_createDentry hd
  rcases hl : v.metadata.lookup c name with _ | d
  · rfl
  · refine absurd ?_ h
    rw [ha]
    exact createDentry_taken hl

/-- A turn that would leave an empty filesystem. -/
theorem heeds_look (h : a (createChunkedVfs 0) = createChunkedVfs 0) :
    creation.Allowed (.step a q) v := by
  rintro f k hd c name x t he
  rw [he] at hd
  have ha := begins_createDentry hd
  have hnew : ∀ e, (createChunkedVfs 0).metadata.ns.entry e = none := by
    rw [show (createChunkedVfs 0).metadata.ns = Ns.new from ns_new 0]
    exact fun _ => rfl
  obtain ⟨_, v', he, hv'⟩ := returns_iff.mp (createDentry_returns (hnew (c, name)) x t)
  rw [ha, he] at h
  have hent := congrArg (fun v : ChunkedVfs => v.metadata.ns.entry (c, name)) h
  simp only [hv'.ns, hnew, Ns.setEntry, update_self] at hent
  cases hent

/-- What the turns change. -/
def observed (v : ChunkedVfs) : List (Option Nat) :=
  [v.metadata.nextIno, v.clockCalls, v.metadata.lookup 1 "d", v.metadata.lookup 2 "y",
    (v.metadata.inodes 3).map (·.nlink)]

theorem heeds_observed (h : observed (a v) ≠ observed v) : creation.Allowed (.step a q) v :=
  heeds_change fun he => h (congrArg observed he)

end Turns

/-- Two files in a directory that is not there. -/
def sharedCalls : Pool Bool Failure ChunkedVfs Nat PUnit :=
  creators smallOptions (fun j => if j then "/d/x" else "/d/y") (fun j => if j then [1] else [2])
    (createChunkedVfs 0)

theorem sharedCalls_canCreate : CanCreate (createChunkedVfs 0) fun j : Bool =>
    splitPath (normalizePath (if j then "/d/x" else "/d/y")) := by
  have hsplit : ∀ j : Bool, splitPath (normalizePath (if j then "/d/x" else "/d/y")) =
      ["d", if j then "x" else "y"] := by decide +kernel
  have hnone : ∀ (n : String) l, (createChunkedVfs 0).metadata.ns.follow 1 (n :: l) = none := by
    intro n l
    refine Ns.follow_empty (fun k => ?_) (List.cons_ne_nil n l)
    rw [show (createChunkedVfs 0).metadata.ns = Ns.new from ns_new 0]
    rfl
  simp only [hsplit]
  refine ⟨fun j => List.cons_ne_nil _ _, by decide, fun j l d _ _ hd => ?_, fun j f hf => ?_,
    fun j k f hf => ?_⟩
  · cases l with
    | nil =>
        cases hd
        exact (by decide +kernel : (createChunkedVfs 0).metadata.ns.IsDir 1)
    | cons n l =>
        rw [hnone] at hd
        cases hd
  · rw [hnone] at hf
    cases hf
  · rw [hnone] at hf
    cases hf

/-- The first call makes the directory, and then the second runs to its end. -/
def sharedTurn (n : Nat) : Bool := n < 5

def sharedAfter : Nat → Pool Bool Failure ChunkedVfs Nat PUnit
  | 0 => sharedCalls
  | n + 1 => ((sharedAfter n).step (sharedTurn n)).getD (sharedAfter n)

theorem shared_next {n : Nat}
    (h : creation.Allowed ((sharedAfter n).tasks (sharedTurn n)) (sharedAfter n).state)
    (hs : ((sharedAfter n).step (sharedTurn n)).isSome = true)
    (r : Reach step (Heeds creation) sharedCalls (sharedAfter n)) :
    Reach step (Heeds creation) sharedCalls (sharedAfter (n + 1)) := by
  obtain ⟨p, hp⟩ := Option.isSome_iff_exists.mp hs
  refine r.next h ?_
  rw [sharedAfter, hp]
  rfl

theorem shared_reach : Reach step (Heeds creation) sharedCalls (sharedAfter 13) := by
  refine shared_next (n := 12) (heeds_observed (by decide +kernel)) rfl ?_
  refine shared_next (n := 11) (heeds_look rfl) rfl ?_
  refine shared_next (n := 10) (heeds_look rfl) rfl ?_
  refine shared_next (n := 9) (heeds_observed (by decide +kernel)) rfl ?_
  refine shared_next (n := 8) (heeds_observed (by decide +kernel)) rfl ?_
  refine shared_next (n := 7) (heeds_look rfl) rfl ?_
  refine shared_next (n := 6) heeds_pause rfl ?_
  refine shared_next (n := 5) (heeds_look rfl) rfl ?_
  refine shared_next (n := 4) (heeds_look rfl) rfl ?_
  refine shared_next (n := 3) (heeds_look rfl) rfl ?_
  refine shared_next (n := 2) (heeds_observed (by decide +kernel)) rfl ?_
  refine shared_next (n := 1) (heeds_observed (by decide +kernel)) rfl ?_
  refine shared_next (n := 0) (heeds_look rfl) rfl ?_
  exact .start

/-- The second call has ended, and the first is still to write its file. -/
theorem creation_concurrent_shared :
    Created smallOptions "/d/y" [2] (sharedAfter 13).state ∧
      ((sharedAfter 13).tasks true).outcome? = none :=
  ⟨(creation_concurrent (by decide) .start sharedCalls_canCreate shared_reach).2.2.2 false rfl, rfl⟩

/-- Both calls look for the directory before one makes it. -/
def collidingTurns : List Bool := [true, false, true, false, true, false]

theorem collidingTurns_run : (exec step sharedCalls collidingTurns).isSome := by decide +kernel

/-- One call rejects, and its file is not there. -/
theorem creation_collides :
    CanCreate (createChunkedVfs 0)
        (fun j : Bool => splitPath (normalizePath (if j then "/d/x" else "/d/y"))) ∧
      ∃ p, Reach step Any sharedCalls p ∧
        (p.tasks false).outcome? =
          some (.error (.kernelError .EEXIST "'d' already exists in directory")) :=
  ⟨sharedCalls_canCreate, _, .of_exec (Option.some_get collidingTurns_run).symm, by decide +kernel⟩

end SecureExec.Vfs
