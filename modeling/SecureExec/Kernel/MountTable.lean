import SecureExec.Kernel.Types
import SecureExec.Lib.Lts
import SecureExec.Lib.Segments

/-!
# Kernel — MountTable — which mount a path is routed to

`packages/core/src/kernel/mount-table.ts`, but for the operations that only forward: a list of
mounts kept longest path first, and `resolve`, which takes the first that is a prefix.

The file systems are whatever `φ` is.  `mount` asks the file system that owned the path so far to
make the mount point; the request is returned beside the new table.

A `normalizePath` spells a list of steps (`normalizePath_spells`), so the string tests of `resolve`
are tests on steps (`captures_iff`), and since the list is sorted by length the first mount that
passes is the longest (`mount_routing`).
-/

namespace SecureExec.Kernel
open SecureExec Lts Segments

/-! ### Paths -/

/-- `normalizePath` of `mount-table.ts`. -/
def normalizePath (path : String) : String :=
  if path = "" ∨ path = "/" then "/"
  else String.ofList (join '/' (walk ['.'] ['.', '.'] true 0 [] (path.toList.splitOn '/')))

/-- `s.length`, in UTF-16 code units. -/
def jsLength (s : String) : Nat := (s.toList.map fun c => if c.val < 0x10000 then 1 else 2).sum

/-- `s.startsWith(t)`. -/
def startsWith (s t : String) : Bool := t.toList.isPrefixOf s.toList

/-! ### The mount table -/

structure InternalMount (φ : Type) where
  path : String
  fs : φ
  readOnly : Bool

structure ResolvedPath (φ : Type) where
  mount : InternalMount φ
  relativePath : String

/-- Mounts sorted by path length descending. -/
structure MountTable (φ : Type) where
  mounts : List (InternalMount φ)

namespace MountTable

variable {φ : Type}

/-- The constructor. -/
def new (rootFs : φ) : MountTable φ := ⟨[⟨"/", rootFs, false⟩]⟩

/-- The loop of `resolve`. -/
def resolveIn (fullPath normalized : String) :
    List (InternalMount φ) → Except Failure (ResolvedPath φ)
  | [] => .error (.kernelError .ENOENT ("no mount for path: " ++ fullPath))
  | mount :: mounts =>
    if mount.path = "/" then .ok ⟨mount, normalized⟩
    else if normalized = mount.path ∨ startsWith normalized (mount.path ++ "/") then
      .ok ⟨mount, if normalized = mount.path then ""
        else String.ofList (normalized.toList.drop (mount.path.length + 1))⟩
    else resolveIn fullPath normalized mounts

def resolve (t : MountTable φ) (fullPath : String) : Except Failure (ResolvedPath φ) :=
  resolveIn fullPath (normalizePath fullPath) t.mounts

/-- `this.mounts.push(entry); this.mounts.sort(…)`. -/
def push (t : MountTable φ) (entry : InternalMount φ) : MountTable φ :=
  ⟨(t.mounts ++ [entry]).mergeSort fun a b => jsLength b.path ≤ jsLength a.path⟩

/-- `mount`: the new table, and the directory that is made in which file system. -/
def mount (t : MountTable φ) (path : String) (fs : φ) (readOnly : Bool) :
    Except Failure (MountTable φ × φ × String) :=
  let normalized := normalizePath path
  if normalized = "/" then .error (.kernelError .EINVAL "cannot mount over root")
  else if t.mounts.any (·.path = normalized) then
    .error (.kernelError .EEXIST ("already mounted at " ++ normalized))
  else
    match t.resolve normalized with
    | .error e => .error e
    | .ok r =>
      .ok (t.push ⟨normalized, fs, readOnly⟩, r.mount.fs,
        if r.relativePath = "" then "/" else r.relativePath)

def unmount (t : MountTable φ) (path : String) : Except Failure (MountTable φ) :=
  let normalized := normalizePath path
  if normalized = "/" then .error (.kernelError .EINVAL "cannot unmount root")
  else
    match t.mounts.findIdx? (·.path = normalized) with
    | none => .error (.kernelError .EINVAL ("not a mount point: " ++ normalized))
    | some idx => .ok ⟨t.mounts.eraseIdx idx⟩

end MountTable

/-- A call that changes the table. -/
inductive MountCall (φ : Type) where
  | mount (path : String) (fs : φ) (readOnly : Bool)
  | unmount (path : String)

/-- One call; a call that throws leaves the table. -/
def MountTable.step {φ : Type} (t : MountTable φ) : MountCall φ → Option (MountTable φ)
  | .mount path fs readOnly =>
    match t.mount path fs readOnly with
    | .ok (t', _) => some t'
    | .error _ => some t
  | .unmount path =>
    match t.unmount path with
    | .ok t' => some t'
    | .error _ => some t

/-! ### Steps of a path -/

/-- A component as `normalizePath` leaves it. -/
abbrev IsComponent : List Char → Prop := IsStep '/' ['.'] ['.', '.']

/-- The string spells these components. -/
def Spells (path : String) (steps : List (List Char)) : Prop :=
  (∀ s ∈ steps, IsComponent s) ∧ path.toList = join '/' steps

/-- The components of a path. -/
def components (path : String) : List (List Char) := parts '/' path.toList

variable {steps : List (List Char)}

theorem Spells.components {path : String} (h : Spells path steps) :
    components path = steps := by
  rw [Kernel.components, h.2, parts_join h.1]

variable {p q : String}

/-- A string is a path by its components. -/
theorem Spells.inj (h : Spells p steps)
    (h' : Spells q steps) : p = q :=
  String.toList_inj.mp (h.2.trans h'.2.symm)

theorem spells_root : Spells "/" [] := ⟨fun _ h => (nomatch h), rfl⟩

/-- **What `normalizePath` returns spells components.** -/
theorem normalizePath_spells (path : String) : Spells (normalizePath path)
    (walk ['.'] ['.', '.'] true 0 [] (path.toList.splitOn '/')) := by
  rw [normalizePath]
  split
  · rename_i h
    rcases h with rfl | rfl
    · exact spells_root
    · exact spells_root
  · exact ⟨walk_steps _ _ (mem_of_mem_splitOn _) fun _ h => (nomatch h), String.toList_ofList⟩

theorem normalizePath_of_spells {path : String} (h : Spells path steps) :
    normalizePath path = path := by
  refine Spells.inj (normalizePath_spells path) ?_
  rw [← walk_nonempty]
  change Spells path (walk _ _ _ _ _ (Kernel.components path))
  rw [h.components, walk_of_steps _ _ h.1]
  exact h

/-- `normalizePath` is idempotent. -/
theorem normalizePath_idem (path : String) : normalizePath (normalizePath path) = normalizePath path :=
  normalizePath_of_spells (normalizePath_spells path)

/-! ### The test of `resolve` -/

theorem jsLength_pos (c : Char) : 0 < if c.val < 0x10000 then 1 else 2 := by
  split <;> decide

/-- A longer word is longer in code units. -/
theorem jsLength_lt (h : p.toList <+: q.toList) (hne : p ≠ q) :
    jsLength p < jsLength q := by
  obtain ⟨t, ht⟩ := h
  rw [jsLength, jsLength, ← ht, List.map_append, List.sum_append]
  cases t with
  | nil => exact absurd (String.toList_inj.mp (by simpa using ht)) hne
  | cons c t =>
      rw [List.map_cons, List.sum_cons]
      have := jsLength_pos c
      omega

variable {a : List (List Char)} {b : List (List Char)}

/-- The word of a prefix is a prefix of the word, and so is its first separator after it. -/
theorem join_prefix (h : a <+: b) (ha : a ≠ []) :
    a = b ∨ ∃ t, b = a ++ t ∧ t ≠ [] ∧ join '/' b = join '/' a ++ join '/' t := by
  obtain ⟨t, rfl⟩ := h
  by_cases ht : t = []
  · exact .inl (by rw [ht, List.append_nil])
  · obtain ⟨x, l, rfl⟩ := List.exists_cons_of_ne_nil ha
    refine .inr ⟨t, rfl, ht, ?_⟩
    rw [join, intercalate_append x l t ht]
    rfl

/-- The components of a path that continues another. -/
theorem components_append (h : Spells p a) (t : List Char) :
    parts '/' (p.toList ++ '/' :: t) = a ++ parts '/' t := by
  rw [parts, List.splitOn_append_cons_self, List.filter_append]
  exact congrArg (· ++ _) h.components

/-- The string test is the test on components. -/
theorem captures_iff (hp : Spells p a) (hq : Spells q b)
    (ha : a ≠ []) : (q = p ∨ startsWith q (p ++ "/") = true) ↔ a <+: b := by
  have hslash : ("/" : String).toList = ['/'] := rfl
  rw [startsWith, List.isPrefixOf_iff_prefix, String.toList_append, hslash]
  constructor
  · rintro (rfl | ⟨t, ht⟩)
    · have hab : a = b := hp.components.symm.trans hq.components
      exact hab ▸ List.prefix_refl a
    · refine ⟨parts '/' t, ?_⟩
      rw [← hq.components, Kernel.components, ← ht, List.append_assoc]
      exact (components_append hp t).symm
  · intro h
    rcases join_prefix h ha with rfl | ⟨t, -, -, ht⟩
    · exact .inl (hq.inj hp)
    · refine .inr ⟨[ '/' ].intercalate t, ?_⟩
      rw [hq.2, hp.2, ht, join, join]
      simp

namespace MountTable

variable {φ : Type} {t t' : MountTable φ} {path : String} {m m' : InternalMount φ}

/-! ### The table stays sorted -/

/-- What holds of every table. -/
structure TableOk (t : MountTable φ) : Prop where
  root : ∃ m ∈ t.mounts, m.path = "/"
  spelled : ∀ m ∈ t.mounts, ∃ steps, Spells m.path steps
  sorted : t.mounts.Pairwise fun a b => jsLength b.path ≤ jsLength a.path
  distinct : (t.mounts.map (·.path)).Nodup

theorem tableOk_new (rootFs : φ) : TableOk (new rootFs) where
  root := ⟨_, List.mem_singleton_self _, rfl⟩
  spelled := fun m hm => by
    obtain rfl := List.mem_singleton.mp hm
    exact ⟨[], spells_root⟩
  sorted := List.pairwise_singleton _ _
  distinct := List.pairwise_singleton _ _

/-- What a `mount` that returns did. -/
theorem mount_ok {fs fs' : φ} {readOnly : Bool} {dir : String}
    (h : t.mount path fs readOnly = .ok (t', fs', dir)) :
    normalizePath path ≠ "/" ∧ (∀ m ∈ t.mounts, m.path ≠ normalizePath path) ∧
      t' = t.push ⟨normalizePath path, fs, readOnly⟩ := by
  simp only [mount] at h
  split at h
  · cases h
  rename_i hroot
  split at h
  · cases h
  rename_i hnew
  split at h
  · cases h
  · refine ⟨hroot, fun m hm he => hnew (List.any_eq_true.mpr ⟨m, hm, by simpa using he⟩), ?_⟩
    exact (congrArg Prod.fst (Except.ok.inj h)).symm

/-- What an `unmount` that returns did. -/
theorem unmount_ok (h : t.unmount path = .ok t') :
    normalizePath path ≠ "/" ∧ t'.mounts = t.mounts.eraseP (·.path = normalizePath path) := by
  simp only [unmount] at h
  split at h
  · cases h
  rename_i hroot
  refine ⟨hroot, ?_⟩
  rw [List.eraseP_eq_eraseIdx]
  split at h
  · cases h
  · rename_i idx hidx
    rw [hidx, ← Except.ok.inj h]

theorem push_perm (t : MountTable φ) (m : InternalMount φ) :
    (t.push m).mounts.Perm (t.mounts ++ [m]) :=
  List.mergeSort_perm _ _

theorem TableOk.push (h : TableOk t) (hm : ∃ steps, Spells m.path steps)
    (hnew : ∀ m' ∈ t.mounts, m'.path ≠ m.path) : TableOk (t.push m) := by
  have hperm := push_perm t m
  refine ⟨?_, fun m' hm' => ?_, ?_, ?_⟩
  · obtain ⟨r, hr, hroot⟩ := h.root
    exact ⟨r, hperm.mem_iff.mpr (List.mem_append_left _ hr), hroot⟩
  · rcases List.mem_append.mp (hperm.mem_iff.mp hm') with hm' | hm'
    · exact h.spelled m' hm'
    · obtain rfl := List.mem_singleton.mp hm'
      exact hm
  · have hsort : (t.push m).mounts.Pairwise
        fun a b => decide (jsLength b.path ≤ jsLength a.path) = true :=
      List.pairwise_mergeSort (fun a b c hab hbc => ?_) (fun a b => ?_) (t.mounts ++ [m])
    · exact hsort.imp fun hab => by simpa using hab
    · simp only [decide_eq_true_eq] at hab hbc ⊢
      omega
    · simp only [Bool.or_eq_true, decide_eq_true_eq]
      omega
  · refine (hperm.map _).nodup_iff.mpr ?_
    rw [List.map_append, List.nodup_append]
    refine ⟨h.distinct, List.pairwise_singleton _ _, fun p hp q hq hpq => ?_⟩
    obtain ⟨m', hm', rfl⟩ := List.mem_map.mp hp
    obtain rfl := List.mem_singleton.mp hq
    exact hnew m' hm' hpq

theorem TableOk.mount (h : TableOk t) {fs fs' : φ} {readOnly : Bool} {dir : String}
    (hm : t.mount path fs readOnly = .ok (t', fs', dir)) : TableOk t' := by
  obtain ⟨-, hnew, rfl⟩ := mount_ok hm
  exact h.push ⟨_, normalizePath_spells path⟩ hnew

theorem TableOk.unmount (h : TableOk t) (hm : t.unmount path = .ok t') : TableOk t' := by
  obtain ⟨hroot, ht'⟩ := unmount_ok hm
  have hsub : t'.mounts.Sublist t.mounts := ht' ▸ List.eraseP_sublist
  refine ⟨?_, fun m hm => h.spelled m (hsub.mem hm), h.sorted.sublist hsub,
    h.distinct.sublist (hsub.map _)⟩
  obtain ⟨m, hm, hmr⟩ := h.root
  refine ⟨m, ?_, hmr⟩
  rw [ht', List.mem_eraseP_of_neg]
  · exact hm
  · simpa [hmr] using hroot.symm

theorem TableOk.step (h : TableOk t) (c : MountCall φ) (hs : t.step c = some t') : TableOk t' := by
  cases c with
  | mount path fs readOnly =>
      simp only [MountTable.step] at hs
      split at hs
      · rename_i hm
        cases hs
        exact h.mount hm
      · cases hs
        exact h
  | unmount path =>
      simp only [MountTable.step] at hs
      split at hs
      · rename_i hm
        cases hs
        exact h.unmount hm
      · cases hs
        exact h

theorem tableOk_of_reach {rootFs : φ} (h : Reach MountTable.step Any (new rootFs) t) : TableOk t :=
  h.invariant (tableOk_new rootFs) fun _ c _ hI _ hs => hI.step c hs

/-! ### Routing -/

/-- The path that the mount and the path within it name. -/
def ResolvedPath.recompose (r : ResolvedPath φ) : String :=
  if r.mount.path = "/" then r.relativePath
  else if r.relativePath = "" then r.mount.path
  else r.mount.path ++ "/" ++ r.relativePath

/-- `r` is what the path should be routed to: the mount with the most components of those whose
components are the path's first, and the path within it. -/
structure Routes (t : MountTable φ) (path : String) (r : ResolvedPath φ) : Prop where
  mounted : r.mount ∈ t.mounts
  captures : components r.mount.path <+: components (normalizePath path)
  longest : ∀ m ∈ t.mounts, components m.path <+: components (normalizePath path) →
    m = r.mount ∨ (components m.path).length < (components r.mount.path).length
  recomposes : ResolvedPath.recompose r = normalizePath path

/-- The mount captures the path. -/
def Captures (m : InternalMount φ) (q : String) : Prop := components m.path <+: components q

/-- `resolve` takes the first mount that captures the path. -/
theorem resolveIn_first (hq : Spells q b) :
    ∀ l : List (InternalMount φ), (∀ m ∈ l, ∃ steps, Spells m.path steps) →
      (∃ m ∈ l, m.path = "/") → ∃ l₁ m l₂ rel, l = l₁ ++ m :: l₂ ∧
        resolveIn path q l = .ok ⟨m, rel⟩ ∧ Captures m q ∧ (∀ m' ∈ l₁, ¬ Captures m' q) ∧
        ResolvedPath.recompose ⟨m, rel⟩ = q := by
  intro l
  induction l with
  | nil =>
      rintro - ⟨m, hm, -⟩
      cases hm
  | cons m l ih =>
      intro hsp hroot
      obtain ⟨a, ha⟩ := hsp m List.mem_cons_self
      rw [resolveIn]
      split
      · rename_i hm
        refine ⟨[], m, l, q, rfl, rfl, ?_, (fun _ h => nomatch h), if_pos hm⟩
        rw [Captures, hm, spells_root.components]
        exact List.nil_prefix
      rename_i hm
      have hne : a ≠ [] := by
        rintro rfl
        exact hm (ha.inj spells_root)
      have hcap := captures_iff ha hq hne
      rw [← ha.components, ← hq.components] at hcap
      split
      · rename_i hc
        refine ⟨[], m, l, _, rfl, rfl, hcap.mp hc, (fun _ h => nomatch h), ?_⟩
        rw [ResolvedPath.recompose, if_neg hm]
        by_cases hqm : q = m.path
        · rw [if_pos hqm, if_pos rfl, hqm]
        · rcases hc with hc | hc
          · exact absurd hc hqm
          rw [if_neg hqm]
          obtain ⟨t, ht⟩ := List.isPrefixOf_iff_prefix.mp hc
          have hdrop : q.toList.drop (m.path.length + 1) = t := by
            have hlen : (m.path ++ "/").toList.length = m.path.length + 1 := by
              rw [String.length_toList, String.length_append]
              rfl
            rw [← ht, ← hlen, List.drop_left]
          have hnil : t ≠ [] := by
            rintro rfl
            -- then the path would have the components of the mount
            have hcomp := components_append ha []
            rw [String.toList_append] at ht
            have hb : b = a := by
              rw [← hq.components, components, ← ht, List.append_nil]
              exact hcomp.trans (List.append_nil a)
            exact hqm (hq.inj (hb ▸ ha))
          rw [hdrop, if_neg fun h => hnil (String.ofList_eq_empty_iff.mp h)]
          refine String.toList_inj.mp ?_
          rw [String.toList_append, String.toList_ofList, ht]
      · rename_i hc
        obtain ⟨l₁, m', l₂, rel, hl, hres, hcm', hbefore, hrec⟩ := ih
          (fun m' h => hsp m' (List.mem_cons_of_mem _ h)) (by
            obtain ⟨r, hr, hrp⟩ := hroot
            rcases List.mem_cons.mp hr with rfl | hr
            · exact absurd hrp hm
            · exact ⟨r, hr, hrp⟩)
        refine ⟨m :: l₁, m', l₂, rel, by rw [hl]; rfl, hres, hcm', fun x hx => ?_, hrec⟩
        rcases List.mem_cons.mp hx with rfl | hx
        · exact fun hcx => hc (hcap.mpr hcx)
        · exact hbefore x hx

/-- Of two paths that continue alike, the one with more components is the longer string. -/
theorem jsLength_lt_of_prefix (hp : Spells p a)
    (hq : Spells q b) (h : a <+: b) (hne : p ≠ q) : jsLength p < jsLength q := by
  refine jsLength_lt ?_ hne
  rw [hp.2, hq.2]
  by_cases ha : a = []
  · rw [ha, join, join]
    exact ⟨_, rfl⟩
  · rcases join_prefix h ha with rfl | ⟨t, -, -, ht⟩
    · exact List.prefix_refl _
    · exact ht ▸ List.prefix_append _ _

theorem TableOk.routes (h : TableOk t) (path : String) :
    ∃ r, t.resolve path = .ok r ∧ t.Routes path r := by
  obtain ⟨l₁, m, l₂, rel, hl, hres, hcap, hbefore, hrec⟩ :=
    resolveIn_first (normalizePath_spells path) t.mounts h.spelled h.root
  have hm : m ∈ t.mounts := hl ▸ List.mem_append_right _ List.mem_cons_self
  refine ⟨⟨m, rel⟩, hres, hm, hcap, fun m' hm' hcap' => ?_, hrec⟩
  obtain ⟨a, ha⟩ := h.spelled m hm
  obtain ⟨a', ha'⟩ := h.spelled m' hm'
  rw [hl] at hm'
  rcases List.mem_append.mp hm' with hm' | hm'
  · exact absurd hcap' (hbefore m' hm')
  rcases List.mem_cons.mp hm' with rfl | hm'
  · exact .inl rfl
  -- a later mount is no longer than `m`
  have hsort := h.sorted
  rw [hl, List.pairwise_append, List.pairwise_cons] at hsort
  have hle := hsort.2.1.1 m' hm'
  have hdist := h.distinct
  rw [hl, List.map_append, List.map_cons, List.nodup_append, List.nodup_cons] at hdist
  have hne : m'.path ≠ m.path := fun he => hdist.2.1.1 (he ▸ List.mem_map_of_mem hm')
  rw [Captures, ha.components] at hcap
  rw [ha'.components] at hcap'
  right
  rw [ha.components, ha'.components]
  rcases List.prefix_or_prefix_of_prefix hcap' hcap with hpre | hpre
  · refine Nat.lt_of_le_of_ne hpre.length_le fun hlen => hne ?_
    exact ha'.inj (hpre.eq_of_length hlen ▸ ha)
  · have := jsLength_lt_of_prefix ha ha' hpre hne.symm
    omega

/-- A mount that was added and removed again leaves the table. -/
theorem eraseP_push (h : TableOk t) (hnew : ∀ m' ∈ t.mounts, m'.path ≠ m.path) :
    (t.push m).mounts.eraseP (·.path = m.path) = t.mounts := by
  have hsub : t.mounts.Sublist (t.push m).mounts :=
    List.sublist_mergeSort (fun a b c hab hbc => by simp only [decide_eq_true_eq] at hab hbc ⊢; omega)
      (fun a b => by simp only [Bool.or_eq_true, decide_eq_true_eq]; omega)
      (h.sorted.imp fun hab => by simpa using hab) (List.sublist_append_left _ _)
  have herase := hsub.eraseP (p := fun x => decide (x.path = m.path))
  rw [List.eraseP_of_forall_not fun x hx => by simpa using hnew x hx] at herase
  refine (herase.eq_of_length ?_).symm
  have hm : m ∈ (t.push m).mounts := (push_perm t m).mem_iff.mpr (by simp)
  have hlen := (push_perm t m).length_eq
  rw [List.length_append, List.length_singleton] at hlen
  rw [List.length_eraseP_of_mem hm (by simp), hlen]
  rfl

/-- **Mount routing.**  Every path is routed to the mount with the most components that are the
path's first; the mount's path and the path within it make up the normalised path; and mounting
and unmounting at a path leaves the routing of every path. -/
theorem mount_routing {rootFs : φ} (h : Reach step Any (new rootFs) t) :
    (∀ path, ∃ r, t.resolve path = .ok r ∧ t.Routes path r) ∧
      ∀ path fs readOnly t' made, t.mount path fs readOnly = .ok (t', made) →
        ∀ path', normalizePath path' = normalizePath path →
          ∃ t'', t'.unmount path' = .ok t'' ∧ ∀ q, t''.resolve q = t.resolve q := by
  have hok := tableOk_of_reach h
  refine ⟨hok.routes, fun path fs readOnly t' made hmount path' hpath => ?_⟩
  obtain ⟨hroot, hnew, rfl⟩ := mount_ok hmount
  have herase := eraseP_push (m := ⟨normalizePath path, fs, readOnly⟩) hok hnew
  rw [unmount]
  simp only [hpath, if_neg hroot]
  rw [List.eraseP_eq_eraseIdx] at herase
  split
  · rename_i hnone
    have hm := (push_perm t ⟨normalizePath path, fs, readOnly⟩).mem_iff.mpr
      (List.mem_append_right _ (List.mem_singleton_self _))
    have hall := List.findIdx?_eq_none_iff.mp hnone _ hm
    simp at hall
  · rename_i idx hidx
    rw [hidx] at herase
    refine ⟨_, rfl, fun q => ?_⟩
    rw [resolve, resolve]
    exact congrArg _ herase

/-- `/data` does not capture `/database`. -/
theorem mount_routing_database :
    ∃ r, ((new 0).push ⟨"/data", 1, false⟩).resolve "/database/x" = .ok r ∧
      r.mount = ⟨"/", 0, false⟩ := by
  have hreach : Reach step Any (new 0) ((new 0).push ⟨"/data", 1, false⟩) :=
    .one (a := .mount "/data" 1 false) trivial rfl
  obtain ⟨r, hr, hroutes⟩ := (mount_routing hreach).1 "/database/x"
  refine ⟨r, hr, ?_⟩
  have hm := (push_perm _ _).mem_iff.mp hroutes.mounted
  rcases List.mem_append.mp hm with hm | hm
  · exact List.mem_singleton.mp hm
  · have hcap := hroutes.captures
    rw [List.mem_singleton.mp hm] at hcap
    exact absurd hcap (by decide)

end MountTable

end SecureExec.Kernel
