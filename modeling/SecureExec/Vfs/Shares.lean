import SecureExec.Lib.Rely
import SecureExec.Vfs.Files

/-!
# Vfs — Shares — what `writeFile` calls that run beside each other keep to

Each call has a path, the inodes it made or was given for its path, and the locks it holds
(`Share`).  A turn of a call changes nothing of an inode it does not have, beyond its times and its
link count, and gives names to its own bare inodes only, on the way of its path (`Creates`).  So,
to another call, what it has stays as it is, and a name that appears on the way of its path leads to
a directory (`Beside`).

`together_fits`: calls whose paths are not on the way of each other fit together.
-/

namespace SecureExec.Vfs
open SecureExec Bytes Graph Prog Function

variable {o : ChunkedVfsOptions} {v v' v₁ : ChunkedVfs} {s s' s₁ : Ns} {c d f x cur ino : Nat}
  {l m : List String} {name : String} {i : InodeMeta}

/-! ### Walks by the entries -/

namespace Ns

def IsFile (s : Ns) (c : Nat) : Prop := ∃ n, s.node c = some n ∧ n.type = .file

/-- Nothing names the inode, and nothing is named under it. -/
def Bare (s : Ns) (x : Nat) : Prop := (∀ e, s.entry e ≠ some x) ∧ ∀ k, s.entry (x, k) = none

theorem follow_congr (h : s'.entry = s.entry) (l : List String) :
    ∀ c, s'.follow c l = s.follow c l := by
  induction l with
  | nil => exact fun _ => rfl
  | cons k l ih =>
      intro c
      rw [follow, follow, h]
      cases s.entry (c, k) with
      | none => rfl
      | some d => exact ih d

namespace Grows

theorem isFile (h : s.Grows s') (hd : s.IsFile c) : s'.IsFile c := by
  obtain ⟨n, hn, ht⟩ := hd
  obtain ⟨n', hn', ht'⟩ := h.types c n hn
  exact ⟨n', hn', ht'.trans ht⟩

end Grows

end Ns

/-- A directory is reached in one way only. -/
theorem NsShape.follow_inj (h : NsShape s) :
    ∀ {l m : List String} {c : Nat},
      (∀ p d, p <+: l → s.follow 1 p = some d → s.IsDir d) → s.follow 1 l = some c →
      s.follow 1 m = some c → l = m := by
  intro l
  induction l using List.reverseRecOn with
  | nil =>
      intro m c _ hl hm
      cases hl
      rcases List.eq_nil_or_concat m with rfl | ⟨m', k, rfl⟩
      · rfl
      · rw [List.concat_eq_append, Ns.follow_snoc] at hm
        obtain ⟨p, -, hp⟩ := hm
        exact absurd hp (h.top _)
  | append_singleton l k ih =>
      intro m c hdir hl hm
      have hc : s.IsDir c := hdir _ c (List.prefix_refl _) hl
      obtain ⟨p, hp, he⟩ := Ns.follow_snoc.mp hl
      rcases List.eq_nil_or_concat m with rfl | ⟨m', k', rfl⟩
      · cases hm
        exact absurd he (h.top _)
      · rw [List.concat_eq_append] at hm ⊢
        obtain ⟨p', hp', he'⟩ := Ns.follow_snoc.mp hm
        cases h.single _ _ _ he he' hc
        rw [ih (fun q d hq => hdir q d (hq.trans (List.prefix_append l [k]))) hp hp']

theorem NsShape.follow_node (h : NsShape s) (hl : s.follow 1 l = some c) :
    ∃ n, s.node c = some n := by
  rcases List.eq_nil_or_concat l with rfl | ⟨l', k, rfl⟩
  · cases hl
    exact h.root.imp fun _ => And.left
  · rw [List.concat_eq_append] at hl
    obtain ⟨p, -, he⟩ := Ns.follow_snoc.mp hl
    exact h.child _ _ he

/-- The bare inode `x` gets the name `l ++ [name]`. -/
structure Names (s s' : Ns) (l : List String) (name : String) (x : Nat) : Prop where
  bare : s.Bare x
  ne_root : x ≠ 1
  parent : ∃ cur, s.follow 1 l = some cur ∧ s.entry (cur, name) = none ∧
    s'.entry = update s.entry (cur, name) (some x)

/-- A walk that is new takes the new name last. -/
theorem Names.follow (h : Names s s' l name x) (hs : NsShape s)
    (hdir : ∀ p d, p <+: l → s.follow 1 p = some d → s.IsDir d) (hm : s'.follow 1 m = some d) :
    s.follow 1 m = some d ∨ (m = l ++ [name] ∧ d = x) := by
  obtain ⟨cur, hcur, -, hent⟩ := h.parent
  have hcx : cur ≠ x := by
    rintro rfl
    rcases List.eq_nil_or_concat l with rfl | ⟨l', k, rfl⟩
    · exact h.ne_root (Option.some.inj hcur).symm
    · rw [List.concat_eq_append] at hcur
      obtain ⟨p, -, he⟩ := Ns.follow_snoc.mp hcur
      exact h.bare.1 _ he
  have hwalk : ∀ (m : List String) (a : Nat), a ≠ x → s'.follow a m = some d →
      s.follow a m = some d ∨ (d = x ∧ ∃ m₁, m = m₁ ++ [name] ∧ s.follow a m₁ = some cur) := by
    intro m
    induction m with
    | nil => exact fun a _ ha => .inl ha
    | cons k m ih =>
        intro a hax ha
        rw [Ns.follow, hent, update_apply] at ha
        by_cases he : (a, k) = (cur, name)
        · cases he
          rw [if_pos rfl] at ha
          -- nothing is named under `x`
          have hnone : ∀ k', s'.entry (x, k') = none := fun k' => by
            rw [hent, update_of_ne fun he => hcx (congrArg Prod.fst he).symm]
            exact h.bare.2 k'
          have hnil : m = [] := by
            by_contra hne
            simp only [Ns.follow_empty hnone hne] at ha
            cases ha
          subst hnil
          exact .inr ⟨(Option.some.inj ha).symm, [], rfl, rfl⟩
        · rw [if_neg he] at ha
          rw [Ns.follow]
          cases hb : s.entry (a, k) with
          | none =>
              rw [hb] at ha
              cases ha
          | some b =>
              rw [hb] at ha
              have hbx : b ≠ x := fun hbx => h.bare.1 _ (hbx ▸ hb)
              rcases ih b hbx ha with hsame | ⟨hd, m₁, rfl, hm₁⟩
              · exact .inl hsame
              · exact .inr ⟨hd, k :: m₁, rfl, by rw [Ns.follow_cons hb]; exact hm₁⟩
  rcases hwalk m 1 h.ne_root.symm hm with hsame | ⟨hd, m₁, rfl, hm₁⟩
  · exact .inl hsame
  · rw [hs.follow_inj hdir hcur hm₁]
    exact .inr ⟨rfl, hd⟩

/-! ### Shares -/

/-- What a call has. -/
structure Share where
  path : List String
  own : Nat → Prop
  locks : Nat → Prop

/-- What holds of every state: new inodes have no storage. -/
structure Shape (v : ChunkedVfs) : Prop where
  ns : NsShape v.metadata.ns
  fresh : ∀ ino, v.metadata.nextIno ≤ ino →
    v.metadata.chunks ino = none ∧ v.writeBuffers.get ino = none

namespace Share

variable {w w' : Share}

/-- The way leads through directories, to a file that the call has. -/
structure Plan (w : Share) (s : Ns) : Prop where
  dirs : ∀ l d, l <+: w.path → l ≠ w.path → s.follow 1 l = some d → s.IsDir d
  file : ∀ f, s.follow 1 w.path = some f → w.own f ∧ s.IsFile f

structure Good (w : Share) (v : ChunkedVfs) : Prop where
  shape : Shape v
  root : ¬ w.own 1
  plan : w.Plan v.metadata.ns

/-- What a statement of the call does. -/
structure Creates (w : Share) (v : ChunkedVfs) (w' : Share) (v' : ChunkedVfs) : Prop where
  path : w'.path = w.path
  locks : w'.locks = w.locks
  own : ∀ x, w'.own x ↔ w.own x ∨ (v.metadata.nextIno ≤ x ∧ x < v'.metadata.nextIno)
  shape : Shape v'
  next : v.metadata.nextIno ≤ v'.metadata.nextIno
  grows : v.metadata.ns.Grows v'.metadata.ns
  others : ∀ x, x < v.metadata.nextIno → ¬ w.own x → Leaves x v v'
  named : v'.metadata.ns.entry = v.metadata.ns.entry ∨
    ∃ l name x, l ++ [name] <+: w.path ∧ w.own x ∧ Names v.metadata.ns v'.metadata.ns l name x ∧
      if l ++ [name] = w.path then v.metadata.ns.IsFile x else v.metadata.ns.IsDir x

/-- What the statements of other calls do, as the call sees it. -/
structure Beside (w : Share) (v v' : ChunkedVfs) : Prop where
  shape : Shape v → Shape v'
  grows : v.metadata.ns.Grows v'.metadata.ns
  leaves : ∀ x, w.own x → Leaves x v v'
  bare : ∀ x, w.own x → v.metadata.ns.Bare x → v'.metadata.ns.Bare x
  walks : ∀ l d, l <+: w.path → v'.metadata.ns.follow 1 l = some d →
    v.metadata.ns.follow 1 l = some d ∨ (l ≠ w.path ∧ v'.metadata.ns.IsDir d)

namespace Beside

theorem refl (w : Share) (v : ChunkedVfs) : Beside w v v :=
  ⟨id, .refl _, fun x _ => .refl x v, fun _ _ => id, fun _ _ _ => .inl⟩

theorem trans (h : Beside w v v₁) (h' : Beside w v₁ v') : Beside w v v' := by
  refine ⟨fun hs => h'.shape (h.shape hs), h.grows.trans h'.grows,
    fun x hx => (h.leaves x hx).trans (h'.leaves x hx),
    fun x hx hb => h'.bare x hx (h.bare x hx hb), fun l d hl hd => ?_⟩
  rcases h'.walks l d hl hd with hd₁ | hdir
  · rcases h.walks l d hl hd₁ with hd₀ | ⟨hne, hdir⟩
    · exact .inl hd₀
    · exact .inr ⟨hne, h'.grows.isDir hdir⟩
  · exact .inr hdir

end Beside

theorem Good.beside (h : w.Good v) (hb : Beside w v v') : w.Good v' := by
  refine ⟨hb.shape h.shape, h.root, fun l d hl hne hd => ?_, fun f hf => ?_⟩
  · rcases hb.walks l d hl hd with hd₀ | ⟨-, hdir⟩
    · exact hb.grows.isDir (h.plan.dirs l d hl hne hd₀)
    · exact hdir
  · rcases hb.walks _ f (List.prefix_refl _) hf with hf₀ | ⟨hne, -⟩
    · exact ⟨(h.plan.file f hf₀).1, hb.grows.isFile (h.plan.file f hf₀).2⟩
    · exact absurd rfl hne

/-- The way to a new name. -/
theorem Plan.dirs_below (h : w.Plan s) (hl : l ++ [name] <+: w.path) :
    ∀ p d, p <+: l → s.follow 1 p = some d → s.IsDir d := by
  intro p d hp hd
  refine h.dirs p d (hp.trans ((List.prefix_append l [name]).trans hl)) ?_ hd
  rintro rfl
  have h₁ := hp.length_le
  have h₂ := hl.length_le
  rw [List.length_append, List.length_singleton] at h₂
  omega

/-- A walk that a statement of the call made new. -/
theorem Creates.walks (hc : Creates w v w' v') (h : w.Good v)
    (hm : v'.metadata.ns.follow 1 m = some d) :
    v.metadata.ns.follow 1 m = some d ∨
      (m <+: w.path ∧ w.own d ∧
        if m = w.path then v'.metadata.ns.IsFile d else v'.metadata.ns.IsDir d) := by
  rcases hc.named with hsame | ⟨l, name, x, hl, hx, hn, ht⟩
  · exact .inl ((Ns.follow_congr hsame m 1).symm.trans hm)
  · rcases hn.follow h.shape.ns (h.plan.dirs_below hl) hm with hsame | ⟨rfl, rfl⟩
    · exact .inl hsame
    · refine .inr ⟨hl, hx, ?_⟩
      split
      · rename_i he
        rw [if_pos he] at ht
        exact hc.grows.isFile ht
      · rename_i he
        rw [if_neg he] at ht
        exact hc.grows.isDir ht

theorem Good.creates (h : w.Good v) (hc : Creates w v w' v') : w'.Good v' := by
  refine ⟨hc.shape, fun h1 => ?_, fun l d hl hne hd => ?_, fun f hf => ?_⟩
  · rcases (hc.own 1).mp h1 with h1 | ⟨h1, -⟩
    · exact h.root h1
    · obtain ⟨n, hn, -⟩ := h.shape.ns.root
      rw [h.shape.ns.fresh 1 h1] at hn
      cases hn
  · rw [hc.path] at hl hne
    rcases hc.walks h hd with hd₀ | ⟨-, -, ht⟩
    · exact hc.grows.isDir (h.plan.dirs l d hl hne hd₀)
    · rwa [if_neg hne] at ht
  · rw [hc.path] at hf
    rcases hc.walks h hf with hf₀ | ⟨-, hown, ht⟩
    · exact ⟨(hc.own f).mpr (.inl (h.plan.file f hf₀).1), hc.grows.isFile (h.plan.file f hf₀).2⟩
    · rw [if_pos rfl] at ht
      exact ⟨(hc.own f).mpr (.inl hown), ht⟩

/-- **What one call does, as another sees it.** -/
theorem Creates.beside {u : Share} (hc : Creates w v w' v') (hw : w.Good v) (hu : u.Good v)
    (hlt : ∀ x, u.own x → x < v.metadata.nextIno) (hapart : ∀ x, u.own x → ¬ w.own x)
    (hpath : ¬ u.path <+: w.path) (hpath' : ¬ w.path <+: u.path) : Beside u v v' := by
  refine ⟨fun _ => hc.shape, hc.grows, fun x hx => hc.others x (hlt x hx) (hapart x hx),
    fun x hx hb => ?_, fun m d hm hd => ?_⟩
  · rcases hc.named with hsame | ⟨l, name, y, -, hy, hn, -⟩
    · rw [Ns.Bare, hsame]
      exact hb
    · obtain ⟨cur, hcur, -, hent⟩ := hn.parent
      have hxy : y ≠ x := fun hxy => hapart x hx (hxy ▸ hy)
      have hcx : cur ≠ x := by
        rintro rfl
        rcases List.eq_nil_or_concat l with rfl | ⟨l', k, rfl⟩
        · cases hcur
          exact hu.root hx
        · rw [List.concat_eq_append] at hcur
          obtain ⟨p, -, he⟩ := Ns.follow_snoc.mp hcur
          exact hb.1 _ he
      refine ⟨fun e he => ?_, fun k => ?_⟩
      · rw [hent] at he
        rcases PartialMap.set_eq_some.mp he with ⟨-, he⟩ | ⟨-, he⟩
        · exact hxy he.symm
        · exact hb.1 e he
      · rw [hent, update_of_ne fun he => hcx (congrArg Prod.fst he).symm]
        exact hb.2 k
  · rcases hc.walks hw hd with hd₀ | ⟨hmw, -, ht⟩
    · exact .inl hd₀
    · refine .inr ⟨fun hmu => hpath (hmu ▸ hmw), ?_⟩
      have hne : m ≠ w.path := by
        rintro rfl
        exact hpath' hm
      rwa [if_neg hne] at ht

/-! ### Calls together -/

end Share

open Share

/-- The protocol of the calls: an entry is made where there is none. -/
def creation : Protocol Failure ChunkedVfs Nat Share where
  step := Creates
  rely := Beside
  take l w w' := w.own l ∧ ¬ w.locks l ∧ w' = { w with locks := fun x => w.locks x ∨ x = l }
  give l w w' := w' = { w with locks := fun x => w.locks x ∧ x ≠ l }
  guard d v := ∀ parentIno name childIno type,
    d = Coro.await (Async.createDentry parentIno name childIno type) →
      v.metadata.lookup parentIno name = none
  refl := Beside.refl
  trans := fun _ _ _ _ => Beside.trans

/-- What the calls have fits together: no inode is two calls', and no path is on the way of
another. -/
structure Together {I : Type} (ws : I → Share) (held : Nat → Bool) (v : ChunkedVfs) : Prop where
  good : ∀ j, (ws j).Good v
  lt : ∀ j x, (ws j).own x → x < v.metadata.nextIno
  apart : ∀ j k x, (ws j).own x → (ws k).own x → j = k
  paths : ∀ j k, (ws j).path <+: (ws k).path → j = k
  held : ∀ x, held x = true → ∃ j, (ws j).locks x
  locks : ∀ j x, (ws j).locks x → (ws j).own x

namespace Together

variable {I : Type} [DecidableEq I] {ws : I → Share} {held : Nat → Bool} {j : I} {w' : Share}

omit [DecidableEq I] in
theorem beside (h : Together ws held v) (hc : Creates (ws j) v w' v') {k : I} (hk : k ≠ j) :
    Beside (ws k) v v' :=
  hc.beside (h.good j) (h.good k) (h.lt k) (fun x hx hx' => hk (h.apart k j x hx hx'))
    (fun hp => hk (h.paths k j hp)) fun hp => hk (h.paths j k hp).symm

theorem step (h : Together ws held v) (hc : Creates (ws j) v w' v') :
    Together (update ws j w') held v' := by
  have hold : ∀ k, k ≠ j → update ws j w' k = ws k := fun k hk => update_of_ne hk _ _
  have hpath : ∀ k, (update ws j w' k).path = (ws k).path := fun k => by
    by_cases hk : k = j
    · rw [hk, update_self, hc.path]
    · rw [hold k hk]
  have hlocks : ∀ k, (update ws j w' k).locks = (ws k).locks := fun k => by
    by_cases hk : k = j
    · rw [hk, update_self, hc.locks]
    · rw [hold k hk]
  -- what a call has now it had, or it is new and the call is `j`
  have hown : ∀ k x, (update ws j w' k).own x →
      (ws k).own x ∨ (k = j ∧ v.metadata.nextIno ≤ x ∧ x < v'.metadata.nextIno) := by
    intro k x hx
    by_cases hk : k = j
    · subst hk
      rw [update_self] at hx
      exact ((hc.own x).mp hx).imp id fun hx => ⟨rfl, hx⟩
    · rw [hold k hk] at hx
      exact .inl hx
  refine ⟨fun k => ?_, fun k x hx => ?_, fun k k' x hx hx' => ?_, fun k k' hp => ?_, fun x hx => ?_,
    fun k x hx => ?_⟩
  · by_cases hk : k = j
    · rw [hk, update_self]
      exact (h.good j).creates hc
    · rw [hold k hk]
      exact (h.good k).beside (h.beside hc hk)
  · rcases hown k x hx with hx | ⟨-, -, hx⟩
    · exact (h.lt k x hx).trans_le hc.next
    · exact hx
  · rcases hown k x hx with hk | ⟨hk, hnew, -⟩
    · rcases hown k' x hx' with hk' | ⟨-, hnew, -⟩
      · exact h.apart k k' x hk hk'
      · exact absurd (h.lt k x hk) (Nat.not_lt.mpr hnew)
    · rcases hown k' x hx' with hk' | ⟨hk', -, -⟩
      · exact absurd (h.lt k' x hk') (Nat.not_lt.mpr hnew)
      · exact hk.trans hk'.symm
  · rw [hpath, hpath] at hp
    exact h.paths k k' hp
  · simp only [hlocks]
    exact h.held x hx
  · rw [hlocks] at hx
    have hx₀ := h.locks k x hx
    by_cases hk : k = j
    · subst hk
      rw [update_self]
      exact (hc.own x).mpr (.inl hx₀)
    · rw [hold k hk]
      exact hx₀

/-- A change of the locks of a call. -/
theorem relock (h : Together ws held v) {held' : Nat → Bool} {L : Nat → Prop}
    (hown : ∀ x, L x → (ws j).own x)
    (hheld : ∀ x, held' x = true → L x ∨ ∃ k, k ≠ j ∧ (ws k).locks x) :
    Together (update ws j { ws j with locks := L }) held' v := by
  have hold : ∀ k, k ≠ j → update ws j { ws j with locks := L } k = ws k :=
    fun k hk => update_of_ne hk _ _
  have hpath : ∀ k, (update ws j { ws j with locks := L } k).path = (ws k).path := fun k => by
    by_cases hk : k = j
    · rw [hk, update_self]
    · rw [hold k hk]
  have hsame : ∀ k, (update ws j { ws j with locks := L } k).own = (ws k).own := fun k => by
    by_cases hk : k = j
    · rw [hk, update_self]
    · rw [hold k hk]
  refine ⟨fun k => ?_, fun k x hx => ?_, fun k k' x hx hx' => ?_, fun k k' hp => ?_, fun x hx => ?_,
    fun k x hx => ?_⟩
  · obtain ⟨hshape, hroot, hdirs, hfile⟩ := h.good k
    refine ⟨hshape, ?_, fun l d hl hne hd => ?_, fun f hf => ?_⟩
    · rw [hsame]
      exact hroot
    · rw [hpath] at hl hne
      exact hdirs l d hl hne hd
    · rw [hpath] at hf
      rw [hsame]
      exact hfile f hf
  · rw [hsame] at hx
    exact h.lt k x hx
  · rw [hsame] at hx hx'
    exact h.apart k k' x hx hx'
  · rw [hpath, hpath] at hp
    exact h.paths k k' hp
  · rcases hheld x hx with hL | ⟨k, hk, hx⟩
    · exact ⟨j, by rw [update_self]; exact hL⟩
    · exact ⟨k, by rw [hold k hk]; exact hx⟩
  · rw [hsame]
    by_cases hk : k = j
    · subst hk
      rw [update_self] at hx
      exact hown x hx
    · rw [hold k hk] at hx
      exact h.locks k x hx

end Together

/-- **Calls whose paths are not on the way of each other fit together.** -/
theorem together_fits {I : Type} [DecidableEq I] :
    Pool.Fits (I := I) creation Together where
  step := fun h hc => ⟨h.step hc, fun _ hk => h.beside hc hk⟩
  take := by
    rintro ws held v j l _ h ⟨hown, -, rfl⟩ -
    refine h.relock (fun x hx => ?_) fun x hx => ?_
    · rcases hx with hx | rfl
      · exact h.locks j x hx
      · exact hown
    · rw [update_apply] at hx
      split at hx
      · rename_i hxl
        exact .inl (.inr hxl)
      · obtain ⟨k, hk⟩ := h.held x hx
        by_cases hkj : k = j
        · exact .inl (.inl (hkj ▸ hk))
        · exact .inr ⟨k, hkj, hk⟩
  give := by
    rintro ws held v j l _ h rfl
    refine h.relock (fun x hx => h.locks j x hx.1) fun x hx => ?_
    rw [update_apply] at hx
    split at hx
    · cases hx
    · rename_i hxl
      obtain ⟨k, hk⟩ := h.held x hx
      by_cases hkj : k = j
      · exact .inl ⟨hkj ▸ hk, hxl⟩
      · exact .inr ⟨k, hkj, hk⟩

/-- A lock that a call takes is free. -/
theorem Together.free {I : Type} {ws : I → Share} {held : Nat → Bool} (h : Together ws held v)
    {j : I} {x : Nat} {w' : Share} (ht : creation.take x (ws j) w') : held x = false := by
  obtain ⟨hown, hnot, -⟩ := ht
  rcases hx : held x with _ | _
  · rfl
  · obtain ⟨k, hk⟩ := h.held x hx
    obtain rfl := h.apart k j x (h.locks k x hk) hown
    exact absurd hk hnot

end SecureExec.Vfs
