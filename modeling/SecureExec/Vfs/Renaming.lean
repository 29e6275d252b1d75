import SecureExec.Vfs.Creation

/-!
# Vfs — Renaming — what becomes of the inode that is renamed

`rename` compares the two paths as text, and resolves the directories of both through symlinks.

* `Renamed`: the new entry names the inode, which is as it was, and the old entry is gone.
* `rename_keeps_iff`: so it is if, and only if, the two paths denote two entries, and the new one is
  in a directory that is not below what moves.
* `rename_drops_itself`: a file that is renamed to itself through a symlink.
-/

namespace SecureExec.Vfs
open SecureExec Bytes Graph Prog Lts Async Coro PartialMap

variable {o : ChunkedVfsOptions} {v v' v₁ : ChunkedVfs} {ino p c d : Nat} {i : InodeMeta}
  {m : InMemoryMetadataStore} {s s' s₁ : Ns} {src dst : Nat × String} {name : String}
  {gone : Nat → Prop}

/-! ### What a rename is to do -/

/-- The entry that a path denotes, whether it is there or not. -/
def Denotes (m : InMemoryMetadataStore) (path : String) (e : Nat × String) : Prop :=
  m.resolveParentPath (normalizePath path) = .ok e

/-- The entry refers to `c`, from a directory that is not below it. -/
structure Ns.Names (s : Ns) (e : Nat × String) (c : Nat) : Prop where
  entry : s.entry e = some c
  holder : s.IsDir e.1
  above : ¬ Reaches s.entry c e.1

/-- What `src` named, `dst` names, with its type, its content, its entries and its target. -/
structure Renamed (o : ChunkedVfsOptions) (v v' : ChunkedVfs) (src dst : Nat × String) (c : Nat) :
    Prop where
  named : v'.metadata.ns.Names dst c
  type : ∀ i, v.metadata.inodes c = some i → ∃ i', v'.metadata.inodes c = some i' ∧ i'.type = i.type
  content : ∀ t b, Shown o v c t b → Shown o v' c t b
  entries : ∀ name, v'.metadata.ns.entry (c, name) = v.metadata.ns.entry (c, name)
  target : v'.metadata.ns.target c = v.metadata.ns.target c
  gone : src ≠ dst → v'.metadata.ns.entry src = none

/-- A rename from `v` to `v'` did not destroy what it renamed. -/
def RenameKeeps (o : ChunkedVfsOptions) (v v' : ChunkedVfs) (oldPath newPath : String) : Prop :=
  ∀ src dst c, Denotes v.metadata oldPath src → Denotes v.metadata newPath dst →
    v.metadata.ns.Names src c → Renamed o v v' src dst c

/-- What moves, moves to another entry, in a directory that is not below it. -/
def MovesApart (m : InMemoryMetadataStore) (oldPath newPath : String) : Prop :=
  normalizePath oldPath ≠ normalizePath newPath → ∀ src dst c, Denotes m oldPath src →
    Denotes m newPath dst → m.ns.Names src c → m.ns.Replaceable dst →
      src ≠ dst ∧ m.ns.IsDir dst.1 ∧ ¬ Reaches m.ns.entry c dst.1

/-! ### The names -/

section Names

/-- The entry `dst` is gone, and with it the inodes that are `gone`. -/
structure Ns.Freed (s s' : Ns) (dst : Nat × String) (gone : Nat → Prop) : Prop where
  entry : ∀ x y, s'.entry x = some y ↔ x ≠ dst ∧ ¬ gone x.1 ∧ s.entry x = some y
  isDir : ∀ x, s'.IsDir x ↔ ¬ gone x ∧ s.IsDir x
  target : ∀ x, ¬ gone x → s'.target x = s.target x
  last : ∀ x y, gone y → s.entry x = some y → x = dst

/-- Besides, `c` moves from `src` to `dst`. -/
structure Ns.Moved (s s' : Ns) (src dst : Nat × String) (c : Nat) (gone : Nat → Prop) : Prop where
  entry : ∀ x y, s'.entry x = some y ↔
    (x = dst ∧ y = c) ∨ (x ≠ dst ∧ x ≠ src ∧ ¬ gone x.1 ∧ s.entry x = some y)
  isDir : ∀ x, s'.IsDir x ↔ ¬ gone x ∧ s.IsDir x
  target : ∀ x, ¬ gone x → s'.target x = s.target x
  last : ∀ x y, gone y → s.entry x = some y → x = dst

theorem Ns.Freed.refl (h : s.entry dst = none) : s.Freed s dst fun _ => False := by
  refine ⟨fun x y => ⟨fun hx => ⟨?_, id, hx⟩, fun hx => hx.2.2⟩,
    fun x => ⟨fun hx => ⟨id, hx⟩, And.right⟩, fun _ _ => rfl, fun _ _ => False.elim⟩
  rintro rfl
  rw [h] at hx
  cases hx

/-- The inode that an entry refers to goes with it. -/
theorem freed_dropNode (hlast : ∀ x, s.entry x = some d → x = dst) :
    s.Freed ((s.setEntry dst none).dropNode d) dst (· = d) := by
  refine ⟨fun x y => ?_, fun x => Ns.isDir_dropNode, fun x hx => Function.update_of_ne hx _ _,
    fun x y hy hx => hlast x (hy ▸ hx)⟩
  rw [Ns.entry_dropNode_some]
  constructor
  · rintro ⟨hd, hx⟩
    obtain ⟨hne, hx⟩ := erase_eq_some.mp hx
    exact ⟨hne, hd, hx⟩
  · rintro ⟨hne, hd, hx⟩
    exact ⟨hd, erase_eq_some.mpr ⟨hne, hx⟩⟩

/-- A link count changes besides. -/
theorem Ns.Freed.relink (h : s.Freed s' dst gone) (x : Nat) (f : Nat → Nat) :
    s.Freed (s'.relink x f) dst gone :=
  ⟨h.entry, fun y => Ns.isDir_relink.trans (h.isDir y), h.target, h.last⟩

/-- What goes with the entry that is replaced: nothing that has another name. -/
theorem Ns.Replaced.freed (h : NsOk s) (hd : s.entry dst = some d) (hr : s.Replaced dst d s') :
    ∃ gone, s.Freed s' dst gone ∧ ∀ x, gone x → x = d := by
  cases hr with
  | rmdir hdir _ =>
      exact ⟨_, (freed_dropNode fun x hx => h.single x dst d hx hd hdir).relink _ _, fun _ => id⟩
  | @unlink n hn ht =>
      rw [Ns.unlink]
      split
      · rename_i hl
        exact ⟨_, freed_dropNode (h.only hd hn ht hl), fun _ => id⟩
      · have hfreed : s.Freed (s.setEntry dst none) dst fun _ => False := by
          refine ⟨fun x y => erase_eq_some.trans ?_, fun x => ⟨fun hx => ⟨id, hx⟩, And.right⟩,
            fun _ _ => rfl, fun _ _ => False.elim⟩
          exact ⟨fun hx => ⟨hx.1, id, hx.2⟩, fun hx => ⟨hx.1, hx.2.2⟩⟩
        exact ⟨_, hfreed.relink _ _, fun _ => False.elim⟩

namespace Ns.Moved

variable (h : s.Moved s' src dst c gone)
include h

/-- What leads to the place of `dst` led there before. -/
theorem reaches {a : Nat} (hr : Reaches s'.entry a dst.1) : Reaches s.entry a dst.1 := by
  induction hr using Relation.ReflTransGen.head_induction_on with
  | refl => exact .refl
  | @head a b hab _ ih =>
      obtain ⟨k, hk⟩ := hab
      rcases (h.entry _ _).mp hk with ⟨he, -⟩ | ⟨-, -, -, hk⟩
      · exact he ▸ .refl
      · exact .head ⟨k, hk⟩ ih

/-- What led to the place of `dst` leads there, or what moved does. -/
theorem reaches_back (hsrc : s.entry src = some c) (hc : ¬ gone c) (hr : Reaches s.entry c dst.1) :
    Reaches s'.entry c dst.1 := by
  have hall : ∀ a, Reaches s.entry a dst.1 →
      gone a ∨ Reaches s'.entry a dst.1 ∨ Reaches s'.entry c dst.1 := by
    intro a ha
    induction ha using Relation.ReflTransGen.head_induction_on with
    | refl => exact .inr (.inl .refl)
    | @head a b hab _ ih =>
        obtain ⟨k, hk⟩ := hab
        by_cases ha : gone a
        · exact .inl ha
        by_cases hdst : (a, k) = dst
        · exact .inr (.inl (hdst ▸ .refl))
        rcases ih with hb | hb | hb
        · exact absurd (h.last _ _ hb hk) hdst
        · by_cases hs : (a, k) = src
          · obtain rfl : b = c := Option.some.inj (hk.symm.trans (hs ▸ hsrc))
            exact .inr (.inr hb)
          · exact .inr (.inl (.head ⟨k, (h.entry _ _).mpr (.inr ⟨hdst, hs, ha, hk⟩)⟩ hb))
        · exact .inr (.inr hb)
  exact (hall c hr).elim (fun hg => absurd hg hc) fun hr => hr.elim id id

/-- The new entry names what moved. -/
theorem names (hne : src ≠ dst) (hdir : s.IsDir dst.1) (hg : ¬ gone dst.1)
    (habove : ¬ Reaches s.entry c dst.1) : s'.Names dst c ∧ s'.entry src = none := by
  refine ⟨⟨(h.entry _ _).mpr (.inl ⟨rfl, rfl⟩), (h.isDir _).mpr ⟨hg, hdir⟩,
    fun hr => habove (h.reaches hr)⟩, ?_⟩
  cases hx : s'.entry src with
  | none => rfl
  | some y =>
      rcases (h.entry _ _).mp hx with ⟨he, -⟩ | ⟨-, he, -⟩
      · exact absurd he hne
      · exact absurd rfl he

/-- What is in it stays in it. -/
theorem entries (hc : ¬ gone c) (hsrc : c ≠ src.1) (hdst : c ≠ dst.1) (k : String) :
    s'.entry (c, k) = s.entry (c, k) := by
  refine Option.ext fun y => (h.entry _ _).trans ⟨?_, fun hx => .inr ⟨?_, ?_, hc, hx⟩⟩
  · rintro (⟨he, -⟩ | ⟨-, -, -, hx⟩)
    · exact absurd (congrArg Prod.fst he) hdst
    · exact hx
  · exact fun he => hdst (congrArg Prod.fst he)
  · exact fun he => hsrc (congrArg Prod.fst he)

end Ns.Moved

end Names

/-! ### The inode -/

theorem Apart.leaves (h : Apart ino v v') (hc : c ≠ ino) : Leaves c v v' :=
  ⟨fun i hi => ⟨i, (h.inodes c hc).trans hi, .refl i⟩, h.chunks c hc,
    fun k hk => h.blocks k (hk ▸ hc), h.others c hc⟩

variable (v)

theorem leaves_removeDentry (p : Nat) (name : String) (c : Nat) :
    Leaves c v { v with metadata := v.metadata.removeDentry p name } := by
  obtain ⟨-, hinodes, hchunks⟩ := removeDentry_frame v.metadata p name
  exact ⟨fun i hi => ⟨i, (congrFun hinodes c).trans hi, .refl i⟩, congrFun hchunks c,
    fun _ _ => rfl, rfl⟩

theorem leaves_renameDentry (src dst : Nat × String) (c : Nat) :
    Leaves c v { v with metadata := v.metadata.renameDentry src.1 src.2 dst.1 dst.2 } := by
  obtain ⟨-, hinodes, hchunks⟩ := renameDentry_frame v.metadata src.1 dst.1 src.2 dst.2
  exact ⟨fun i hi => ⟨i, (congrFun hinodes c).trans hi, .refl i⟩, congrFun hchunks c,
    fun _ _ => rfl, rfl⟩

theorem changeNlink_leaves (p : Nat) (f : Nat → Nat) (c : Nat) :
    (changeNlink p f).run.Returns v fun _ v' => Leaves c v v' :=
  wp_mono (changeNlink_updates v p f) (fun _ _ hu => hu.leaves (fun _ => ⟨rfl, rfl, rfl, rfl⟩) c)
    fun _ _ => id

theorem dropDirectory_leaves (p : Nat) (name : String) (ino c : Nat) :
    (dropDirectory p name ino).run.Returns v fun _ v' => c ≠ ino → Leaves c v v' := by
  simp only [dropDirectory, run_bind, run_await, Returns, wp_bind, updateMetadata,
    wp_update]
  refine wp_mono (changeNlink_leaves _ p _ c) (fun _ _ h hc => ?_) fun _ _ => id
  exact ((leaves_removeDentry v p name c).trans ((apart_deleteInode _ ino).leaves hc)).trans h

variable {v}

/-- Another inode, or one with further links, stays. -/
theorem dropLink_leaves (h : VfsOk o v) (p : Nat) (name : String) (ino c : Nat) (i : InodeMeta) :
    (dropLink o p name ino i false).run.Returns v fun _ v' =>
      (i.nlink - 1 ≤ 0 → c ≠ ino) → Leaves c v v' := by
  simp only [dropLink, run_bind, run_await, run_ite, run_lift,
    run_dropAllChunks, Returns, wp_bind, updateMetadata, wp_update]
  have hfirst := leaves_removeDentry v p name c
  split
  · rename_i hl
    split
    · rw [wp_bind]
      refine wp_mono (dropAllChunks_returns o ((h.content.removeDentry p name).keys ino)) ?_
        fun _ _ => id
      intro _ v₁ heff hc
      exact (hfirst.trans (heff.touches.toElsewhere.leaves (hc hl))).trans
        ((apart_deleteInode v₁ ino).leaves (hc hl))
    · exact fun hc => hfirst.trans ((apart_deleteInode _ ino).leaves (hc hl))
  · rw [wp_bind]
    refine wp_mono (dateNow_returns o _) ?_ fun _ _ => id
    rintro now v₁ ⟨n, rfl⟩
    refine wp_mono (updateInode_updates _ ino _) (fun _ v' hu _ => ?_) fun _ _ => id
    have hlast := hu.leaves (fun _ => ⟨rfl, rfl, rfl, rfl⟩) c
    exact hfirst.trans ⟨hlast.inode, hlast.chunks, hlast.blocks, hlast.buffer⟩

/-! ### One rename -/

/-- A directory that lists something has an entry. -/
theorem exists_of_listDir (h : (m.listDir ino).length > 0) : ∃ k x, m.lookup ino k = some x := by
  rw [InMemoryMetadataStore.listDir] at h
  cases hd : m.dentries ino with
  | none =>
      rw [hd] at h
      cases h
  | some dir =>
      rw [hd] at h
      obtain ⟨⟨k, e⟩, l, hl⟩ := List.exists_cons_of_length_pos (show 0 < dir.entries.length from h)
      refine ⟨k, e.childIno, ?_⟩
      rw [InMemoryMetadataStore.lookup, hd, Option.map_eq_some_iff]
      refine ⟨e, ?_, rfl⟩
      show dir.entries.lookup k = some e
      rw [hl, List.lookup_cons_self]

variable {E : Failure → ChunkedVfs → Prop}

theorem wp_requireInode_of {Q : InodeMeta → ChunkedVfs → Prop}
    (hi : v.metadata.inodes ino = some i) (hQ : Q i v) : (requireInode ino).wp v Q E := by
  unfold requireInode
  rw [wp_bind, wp_read, show v.metadata.getInode ino = some i from hi]
  exact hQ

theorem wp_denotes {Q : Nat × String → ChunkedVfs → Prop}
    {path : String} {e : Nat × String} (h : Denotes v.metadata path e) (hQ : Q e v) :
    (resolveParentPath path).wp v Q E := by
  unfold resolveParentPath
  rw [wp_bind, wp_read, show v.metadata.resolveParentPath _ = _ from h]
  exact hQ

/-- What is replaced goes; it is refused when it has entries. -/
theorem renameOver_spec (h : VfsOk o v) (hd : v.metadata.ns.entry dst = some d) (newPath : String)
    (hsrc : v.metadata.ns.entry src = some c) :
    (renameOver o newPath dst.1 dst.2 d).run.wp v
      (fun _ v' => src ≠ dst → Leaves c v v') fun _ _ => ¬ v.metadata.ns.Replaceable dst := by
  obtain ⟨n, hn⟩ := h.ns.child dst d hd
  obtain ⟨i, hi, -⟩ := node_ns_some hn
  simp only [renameOver, run_bind, run_await, run_ite, wp_bind]
  refine wp_requireInode_of hi ?_
  split
  · rename_i hty
    have hdir := isDir_of hi hty
    rw [wp_bind, wp_read]
    split
    · rename_i hlist
      obtain ⟨k, x, hk⟩ := exists_of_listDir hlist
      exact fun hrep => Option.some_ne_none x (hk.symm.trans (hrep d hd hdir k))
    · refine wp_mono (dropDirectory_leaves v dst.1 dst.2 d c) (fun _ _ hl hne => hl ?_)
        fun _ _ => False.elim
      rintro rfl
      exact hne (h.ns.single src dst c hsrc hd hdir)
  · rename_i hty
    refine wp_mono (dropLink_leaves h dst.1 dst.2 d c i) (fun _ _ hl hne => hl fun hlast => ?_)
      fun _ _ => False.elim
    rintro rfl
    exact hne (h.ns.only hd (node_ns hi) hty hlast src hsrc)

/-! #### The entry -/

theorem Ns.Freed.moved (h : s.Freed s₁ dst gone) (src : Nat × String) (c : Nat) :
    s.Moved ((s₁.setEntry src Option.none).setEntry dst (some c)) src dst c gone := by
  refine ⟨fun x y => ?_, h.isDir, h.target, h.last⟩
  refine set_eq_some.trans (or_congr_right (and_congr_right fun hne => ?_))
  refine (erase_eq_some.trans (and_congr_right fun _ => h.entry x y)).trans ?_
  exact and_congr_right fun _ => and_iff_right hne

theorem Ns.Moved.relink (h : s.Moved s' src dst c gone) (x : Nat) (f : Nat → Nat) :
    s.Moved (s'.relink x f) src dst c gone :=
  ⟨h.entry, fun y => Ns.isDir_relink.trans (h.isDir y), h.target, h.last⟩

/-- The entry moves, and a directory's parents are told. -/
theorem moved_spec (he : v₁.metadata.ns.entry src = some c) (hs : s.Freed v₁.metadata.ns dst gone)
    (t : InodeType) :
    (updateMetadata (·.renameDentry src.1 src.2 dst.1 dst.2) >>= fun _ =>
      if t = .directory ∧ src.1 ≠ dst.1 then
        (changeNlink src.1 (· - 1)).run >>= fun _ => (changeNlink dst.1 (· + 1)).run
      else pure ⟨⟩ : VfsProg PUnit).Returns v₁ fun _ v' =>
        s.Moved v'.metadata.ns src dst c gone ∧ Leaves c v₁ v' := by
  have hns := ns_renameDentry (q := dst.1) (l := dst.2) (show v₁.metadata.lookup src.1 src.2 = _ from he)
  have hmoved := hs.moved src c
  have hfirst := leaves_renameDentry v₁ src dst c
  rw [Returns, wp_bind, updateMetadata, wp_update]
  rw [← hns] at hmoved
  split
  · rw [wp_bind]
    refine wp_mono (wp_and (changeNlink_updates _ src.1 _) (changeNlink_leaves _ src.1 _ c)) ?_
      fun _ _ he => he.1
    rintro _ v₂ ⟨hu₂, hl₂⟩
    refine wp_mono (wp_and (changeNlink_updates _ dst.1 _) (changeNlink_leaves _ dst.1 _ c)) ?_
      fun _ _ he => he.1
    rintro _ v₃ ⟨hu₃, hl₃⟩
    refine ⟨?_, (hfirst.trans hl₂).trans hl₃⟩
    rw [hu₃.ns (· + 1) fun _ _ => ⟨rfl, rfl⟩, hu₂.ns (· - 1) fun _ _ => ⟨rfl, rfl⟩]
    exact (hmoved.relink src.1 _).relink dst.1 _
  · exact ⟨hmoved, hfirst⟩

/-- What `rename` comes to, when the paths differ: it is refused when what it replaces has entries;
an entry that replaces itself is gone, and another one moves. -/
theorem rename_spec (h : VfsOk o v) {oldPath newPath : String}
    (hpaths : normalizePath oldPath ≠ normalizePath newPath) (hsrc : Denotes v.metadata oldPath src)
    (hdst : Denotes v.metadata newPath dst) (hc : v.metadata.ns.Names src c) :
    (rename o oldPath newPath).run.wp v
      (fun _ v' => v.metadata.ns.Replaceable dst ∧ (src = dst → v'.metadata.ns.entry dst = none) ∧
        (src ≠ dst → ∃ gone, v.metadata.ns.Moved v'.metadata.ns src dst c gone ∧ ¬ gone c ∧
          ¬ gone dst.1 ∧ Leaves c v v'))
      fun _ _ => ¬ v.metadata.ns.Replaceable dst := by
  obtain ⟨n, hn⟩ := h.ns.child src c hc.entry
  obtain ⟨i, hi, -⟩ := node_ns_some hn
  rw [rename, if_neg hpaths]
  simp only [run_bind, run_await, wp_bind]
  refine wp_denotes hsrc (wp_denotes hdst ?_)
  rw [wp_lookup, show v.metadata.lookup src.1 src.2 = some c from hc.entry]
  simp only [run_bind, run_await, run_withLock, wp_bind]
  refine wp_requireInode_of hi ?_
  simp only [renameLocked, run_bind, run_await, wp_bind]
  rw [wp_lookup]
  cases hl : v.metadata.lookup dst.1 dst.2 with
  | none =>
      have hfree : v.metadata.ns.entry dst = none := hl
      simp only [run_bind, run_await, run_ite, run_pure]
      refine wp_mono (moved_spec hc.entry (.refl hfree) i.type) (fun _ v' hm => ⟨?_, ?_, ?_⟩)
        fun _ _ => False.elim
      · intro d hd
        rw [hfree] at hd
        cases hd
      · rintro rfl
        rw [hc.entry] at hfree
        cases hfree
      · exact fun _ => ⟨_, hm.1, id, id, hm.2⟩
  | some d =>
      have hd : v.metadata.ns.entry dst = some d := hl
      simp only [run_bind, run_await, run_ite, run_pure]
      rw [wp_bind]
      have hdoes : (renameOver o newPath dst.1 dst.2 d).run.wp v
          (fun _ v' => Does o False v v' ∧ _) _ := renameOver_does h hd newPath
      refine wp_mono (wp_and hdoes (renameOver_spec h hd newPath hc.entry)) ?_ fun _ _ he => he.2
      rintro _ v₁ ⟨⟨hd₁, hrep⟩, hleaves⟩
      have hreplaceable := hrep.replaceable hd
      obtain ⟨gone, hfreed, hgone⟩ := hrep.freed h.ns hd
      by_cases hne : src = dst
      · subst hne
        have hnone : v₁.metadata.ns.entry src = none := by
          cases hx : v₁.metadata.ns.entry src with
          | none => rfl
          | some y => exact absurd rfl ((hfreed.entry _ _).mp hx).1
        rw [wp_bind, updateMetadata, wp_update, renameDentry_none hnone, if_neg fun hmv => hmv.2 rfl]
        exact ⟨hreplaceable, fun _ => hnone, fun hne => absurd rfl hne⟩
      · -- a directory that has entries is not replaced
        have hkept : ¬ gone src.1 := by
          intro hg
          obtain ⟨a, k⟩ := src
          obtain rfl : a = d := hgone _ hg
          exact Option.some_ne_none c (hc.entry.symm.trans (hreplaceable a hd hc.holder k))
        have hc₁ : ¬ gone c := fun hg => hne (hfreed.last src c hg hc.entry)
        have hholder : ¬ gone dst.1 := by
          intro hg
          have hroot : 1 ≠ dst.1 := fun h1 => h.ns.top dst (hd.trans (by rw [h1, hgone _ hg]))
          obtain ⟨x, k, hx, hk⟩ := (resolveParentPath_reaches hdst).edge_into hroot
          exact hx (congrArg Prod.fst (hfreed.last _ _ hg hk))
        have he₁ := (hfreed.entry src c).mpr ⟨hne, hkept, hc.entry⟩
        exact wp_mono (moved_spec he₁ hfreed i.type) (fun _ v' hm => ⟨hreplaceable,
          fun he => absurd he hne, fun _ => ⟨gone, hm.1, hc₁, hholder, (hleaves hne).trans hm.2⟩⟩)
          fun _ _ => False.elim

/-! ### Every rename -/

theorem Denotes.unique {path : String} {e e' : Nat × String} (h : Denotes m path e)
    (h' : Denotes m path e') : e = e' :=
  Except.ok.inj (h.symm.trans h')

theorem Renamed.refl (hc : v.metadata.ns.Names src c) : Renamed o v v src src c :=
  ⟨hc, fun i hi => ⟨i, hi, rfl⟩, fun _ _ => id, fun _ => rfl, rfl, fun hne => absurd rfl hne⟩

/-- What moved is as it was. -/
theorem Ns.Moved.renamed (h : v.metadata.ns.Moved v'.metadata.ns src dst c gone)
    (hc : v.metadata.ns.Names src c) (hkept : ¬ gone c) (hholder : ¬ gone dst.1)
    (hl : Leaves c v v') (hne : src ≠ dst) (hdir : v.metadata.ns.IsDir dst.1)
    (habove : ¬ Reaches v.metadata.ns.entry c dst.1) : Renamed o v v' src dst c := by
  obtain ⟨hnames, hold⟩ := h.names hne hdir hholder habove
  refine ⟨hnames, fun i hi => ?_, fun t b => ?_, h.entries hkept ?_ ?_, h.target c hkept, fun _ => hold⟩
  · obtain ⟨i', hi', hs⟩ := hl.inode i hi
    exact ⟨i', hi', hs.type⟩
  · rintro ⟨i, hi, rfl, hshows⟩
    obtain ⟨i', hi', hs⟩ := hl.inode i hi
    exact ⟨i', hi', hs.type, hl.shows hshows hs⟩
  · exact fun he => hc.above (he ▸ .refl)
  · exact fun he => habove (he ▸ .refl)

/-- **rename keeps its source** if, and only if, it moves to another entry, in a directory that is
not below what moves. -/
theorem rename_keeps_iff (o : ChunkedVfsOptions) (hcs : 0 < o.chunkSize) {now : Nat}
    (hr : Reach (VfsOp.step o) Any (createChunkedVfs now) v) (oldPath newPath : String) :
    (∀ v', (rename o oldPath newPath).run.exec v = (.ok ⟨⟩, v') →
      RenameKeeps o v v' oldPath newPath) ↔ MovesApart v.metadata oldPath newPath := by
  have h := vfsOk_reach hcs hr
  constructor
  · intro hkeeps hpaths src dst c hsrc hdst hc hrep
    have hspec := rename_spec h hpaths hsrc hdst hc
    cases he : (rename o oldPath newPath).run.exec v with
    | mk r v' =>
    cases r with
    | error e =>
        rw [wp, he] at hspec
        exact absurd hrep hspec
    | ok _ =>
        have hrenamed := hkeeps v' he src dst c hsrc hdst hc
        obtain ⟨-, hsame, hmoved⟩ := of_wp_ok hspec he
        have hne : src ≠ dst := by
          intro heq
          have hnone := hsame heq
          rw [hrenamed.named.entry] at hnone
          cases hnone
        obtain ⟨gone, hm, hkept, -, -⟩ := hmoved hne
        exact ⟨hne, ((hm.isDir _).mp hrenamed.named.holder).2, fun hreach =>
          hrenamed.named.above (hm.reaches_back hc.entry hkept hreach)⟩
  · intro hapart v' he src dst c hsrc hdst hc
    by_cases hpaths : normalizePath oldPath = normalizePath newPath
    · have heq : v' = v := by
        rw [rename, if_pos hpaths] at he
        exact (congrArg Prod.snd he).symm
      obtain rfl : src = dst := hsrc.unique (show Denotes v.metadata oldPath dst by
        rw [Denotes, hpaths]; exact hdst)
      rw [heq]
      exact .refl hc
    · obtain ⟨hrep, -, hmoved⟩ := of_wp_ok (rename_spec h hpaths hsrc hdst hc) he
      obtain ⟨hne, hdir, habove⟩ := hapart hpaths src dst c hsrc hdst hc hrep
      obtain ⟨gone, hm, hkept, hholder, hl⟩ := hmoved hne
      exact hm.renamed hc hkept hholder hl hne hdir habove

/-- A file in a directory, and a symlink to the directory. -/
def linkedCalls : List VfsOp := [.mkdir "/d" false, .writeFile "/d/f" [1], .symlink "/d" "/l"]

theorem linkedCalls_reach :
    Reach (VfsOp.step smallOptions) Any (createChunkedVfs 0) (afterCalls linkedCalls) :=
  .of_exec (rfl : exec (VfsOp.step smallOptions) _ linkedCalls = some _)

theorem linkedCalls_leaf {x : Nat} (hx : 3 ≠ x) :
    ¬ Reaches (afterCalls linkedCalls).metadata.ns.entry 3 x :=
  not_reaches_of_leaf (fun _ => rfl) hx

theorem rename_keeps_linked :
    ∃ v', (rename smallOptions "/d/f" "/l/g").run.exec (afterCalls linkedCalls) = (.ok ⟨⟩, v') ∧
      RenameKeeps smallOptions (afterCalls linkedCalls) v' "/d/f" "/l/g" := by
  refine ⟨_, rfl, (rename_keeps_iff smallOptions (by decide) linkedCalls_reach "/d/f" "/l/g").mpr ?_
    _ rfl⟩
  intro _ src dst c hsrc hdst hc _
  obtain rfl : src = (2, "f") := hsrc.unique (show _ = _ by rfl)
  obtain rfl : dst = (2, "g") := hdst.unique (show _ = _ by rfl)
  obtain rfl : 3 = c := Option.some.inj hc.entry
  exact ⟨by decide, by decide +kernel, linkedCalls_leaf (by decide)⟩

/-- A file that is renamed to itself is gone. -/
theorem rename_drops_itself :
    ∃ v', (rename smallOptions "/d/f" "/l/f").run.exec (afterCalls linkedCalls) = (.ok ⟨⟩, v') ∧
      ¬ RenameKeeps smallOptions (afterCalls linkedCalls) v' "/d/f" "/l/f" := by
  refine ⟨_, rfl, fun h => ?_⟩
  have hnames : (afterCalls linkedCalls).metadata.ns.Names (2, "f") 3 :=
    ⟨by decide +kernel, by decide +kernel, linkedCalls_leaf (by decide)⟩
  have hkept := (h (2, "f") (2, "f") 3 (show _ = _ by rfl) (show _ = _ by rfl) hnames).named.entry
  revert hkept
  decide +kernel

end SecureExec.Vfs
