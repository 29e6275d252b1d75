import SecureExec.Node.Confined

/-!
# Node — SandboxPaths — the sandbox path of a host path

`toHostPath` and `toSandboxPath` of `module-access.ts`.  Both scan the package roots in one order,
the longest sandbox path first, and then `node_modules`; one looks for the first root whose sandbox
path the path is under, the other for the first whose host path it is under.

`named_back_iff`: a path that a root has carried to the host is named back exactly when the first
root that covers it there is the root it came by, or the package root that serves its place under it.

`named_elsewhere`: the place of a path under a root that covers it may be another package's.
-/

namespace NodePath
open SecureExec Segments Kernel

/-! ### Names after a path -/

variable {cwd : String} {a b t : List (List Char)}

theorem way_append (a t : List (List Char)) : way a (a ++ t) = t := by
  induction a with
  | nil => cases t <;> rfl
  | cons x a ih => rw [List.cons_append, way, if_pos rfl, ih]

theorem relative_of_append {source target : String}
    (h : resolved (absolute cwd source) ++ t = resolved (absolute cwd target)) :
    relative cwd source target = String.ofList (['/'].intercalate t) := by
  rw [relative, ← h, way_append]
  split
  · rename_i hst
    rw [hst] at h
    rw [List.self_eq_append_right.mp h.symm]
    rfl
  · rfl

/-- No names, no word. -/
theorem ofList_eq_empty (h : ∀ s ∈ t, IsComponent s) :
    String.ofList (['/'].intercalate t) = "" ↔ t = [] := by
  constructor
  · intro he
    cases t with
    | nil => rfl
    | cons c l =>
        have hl : ['/'].intercalate (c :: l) = [] := by
          have := congrArg String.toList he
          rwa [String.toList_ofList] at this
        exact absurd (List.prefix_nil.mp (hl ▸ prefix_intercalate c l)) (h c List.mem_cons_self).nonempty
  · rintro rfl
    rfl

theorem split_names (h : ∀ s ∈ t, IsComponent s) (hn : t ≠ []) :
    split (String.ofList (['/'].intercalate t)) = t.map String.ofList := by
  rw [split, String.toList_ofList, List.splitOn_intercalate '/' (fun s hs => (h s hs).whole) hn]

variable {p : String}

theorem absolute_of (h : isAbsolute p = true) (cwd : String) : absolute cwd p = p :=
  if_pos h

theorem resolved_ofSteps (h : ∀ s ∈ t, IsComponent s) : resolved (ofSteps t) = t := by
  rw [resolved, ← walk_nonempty, ofSteps, String.toList_ofList]
  change walk _ _ _ _ _ (parts '/' (Segments.join '/' t)) = t
  rw [parts_join h, walk_of_steps _ _ h, List.nil_append]

/-- What is left of a path when its trailing slash is taken away. -/
theorem normalize_of_names (h : isAbsolute p = true)
    (hlast : p.toList.getLast? ≠ some '/') : normalize p = ofSteps (resolved p) := by
  have hne : p ≠ "" := by
    rintro rfl
    cases h
  rw [normalize, if_neg hne, if_pos h]
  exact if_neg fun hh => hlast hh.2

/-- Names joined to a path come after it. -/
theorem join_names (h : isAbsolute p = true) (ht : ∀ s ∈ t, IsComponent s)
    (hn : t ≠ []) : join (p :: t.map String.ofList) = ofSteps (resolved p ++ t) := by
  have hne : p ≠ "" := by
    rintro rfl
    cases h
  have hfilter : (p :: t.map String.ofList).filter (· ≠ "") = p :: t.map String.ofList := by
    have hnil : ∀ c ∈ t, c ≠ [] := fun c hc => (ht c hc).nonempty
    simpa [List.filter_eq_self, hne] using hnil
  have hword : ['/'].intercalate ((p :: t.map String.ofList).map String.toList) =
      p.toList ++ Segments.join '/' t := by
    have hmap : (t.map String.ofList).map String.toList = t := by simp
    rw [List.map_cons, hmap]
    exact (intercalate_append p.toList [] t hn).trans (by rw [List.intercalate_singleton]; rfl)
  have hsplit : (p.toList ++ Segments.join '/' t).splitOn '/' = p.toList.splitOn '/' ++ t := by
    rw [Segments.join, List.splitOn_append_cons_self,
      List.splitOn_intercalate '/' (fun s hs => (ht s hs).whole) hn]
  rw [join, hfilter]
  dsimp only
  rw [hword, normalize_of_names]
  · rw [resolved, String.toList_ofList, hsplit, walk_append]
    exact congrArg ofSteps (walk_of_steps _ _ ht)
  · rw [isAbsolute, decide_eq_true_eq] at h
    rw [isAbsolute, String.toList_ofList, List.head?_append, h]
    rfl
  · have hne : Segments.join '/' t ≠ [] := List.cons_ne_nil _ _
    rw [String.toList_ofList, List.getLast?_append_of_ne_nil _ hne]
    exact getLast_join ht hn

end NodePath

namespace ModuleAccess
open SecureExec Shared Prog NodePath Segments Kernel
open HostTree (ofSteps_spells absolute_ofSteps)

variable {p q : String} {a b t : List (List Char)}

/-! ### The first of a list -/

theorem exists_first {α : Type} (P : α → Bool) {l : List α} {a : α} (ha : a ∈ l) (hp : P a = true) :
    ∃ b, l.find? P = some b :=
  Option.isSome_iff_exists.mp (List.find?_isSome.mpr ⟨a, ha, hp⟩)

/-- The first of one kind is the first of another when each is of both. -/
theorem first_agree {α : Type} {P Q : α → Bool} {l : List α} {a b : α} (ha : l.find? P = some a)
    (hb : l.find? Q = some b) (hpb : P b = true) (hqa : Q a = true) : a = b := by
  induction l with
  | nil => cases ha
  | cons x l ih => grind

/-! ### Paths of the sandbox -/

/-- A root that a canonical path is under has its first components. -/
theorem spells_of_startsWithPath (hp : Spells p b) (hq : isAbsolute q = true)
    (h : startsWithPath p q = true) : ∃ a, Spells q a ∧ a <+: b := by
  simp only [startsWithPath, decide_eq_true_eq] at h
  rcases h with rfl | h
  · exact ⟨b, hp, List.prefix_refl b⟩
  rw [startsWith, List.isPrefixOf_iff_prefix, String.toList_append] at h
  obtain ⟨w, hw⟩ := h
  rw [List.append_assoc] at hw
  change q.toList ++ '/' :: w = p.toList at hw
  have hb : b ≠ [] := by
    rintro rfl
    have hlen := congrArg List.length (hw.trans hp.2)
    have hnil : q.toList = [] := List.length_eq_zero_iff.mp (by simp [Segments.join] at hlen; omega)
    rw [isAbsolute, hnil] at hq
    cases hq
  have hsplit : q.toList.splitOn '/' ++ w.splitOn '/' = [] :: b := by
    rw [← List.splitOn_append_cons_self, hw, hp.2, Segments.join, splitOn_cons_sep,
      List.splitOn_intercalate '/' (fun s hs => (hp.1 s hs).whole) hb]
  obtain ⟨x, a, hxa⟩ := exists_splitOn '/' q.toList
  rw [hxa, List.cons_append] at hsplit
  obtain ⟨rfl, rfl⟩ := List.cons.inj hsplit
  have hword : q.toList = ['/'].intercalate ([] :: a) := by
    rw [← hxa, List.intercalate_splitOn]
  have ha : a ≠ [] := by
    rintro rfl
    rw [isAbsolute, hword] at hq
    cases hq
  refine ⟨a, ⟨fun s hs => hp.1 s (List.mem_append_left _ hs), ?_⟩, List.prefix_append ..⟩
  rw [hword, List.intercalate_cons_of_ne_nil ha]
  rfl

/-- No name of the path begins with two dots. -/
def Plain (t : List (List Char)) : Prop := ∀ s ∈ t, ¬ ['.', '.'] <+: s

/-- Where names are plain, components tell whether a path is within another. -/
theorem isWithinPath_of_append {cwd : String} (h : resolved (absolute cwd q) ++ t = resolved (absolute cwd p))
    (ht : Plain t) : isWithinPath cwd p q = true := by
  have hc : ∀ s ∈ t, IsComponent s := fun s hs =>
    resolved_component _ s (h ▸ List.mem_append_right _ hs)
  simp only [isWithinPath, decide_eq_true_eq, relative_of_append h]
  refine (Classical.em (t = [])).imp (fun hn => by rw [hn]; rfl) fun hn => ⟨?_, ?_⟩
  · obtain ⟨c, l, rfl⟩ := List.exists_cons_of_ne_nil hn
    have hcomp := hc c List.mem_cons_self
    simp only [startsWith, List.isPrefixOf_iff_prefix, String.toList_ofList]
    intro (hdots : ['.', '.'] <+: ['/'].intercalate (c :: l))
    rcases List.prefix_or_prefix_of_prefix hdots (prefix_intercalate c l) with hpre | hpre
    · exact ht c List.mem_cons_self hpre
    · obtain hnil | ⟨u, rfl, hu⟩ := List.prefix_cons_iff.mp hpre
      · exact hcomp.nonempty hnil
      · obtain rfl | ⟨v, rfl, hv⟩ := List.prefix_cons_iff.mp hu
        · exact hcomp.here rfl
        · exact hcomp.up (by rw [List.prefix_nil.mp hv])
  · have := head_intercalate hc
    simpa [isAbsolute] using this


namespace ModuleAccessFileSystem
variable {σ β : Type} (m : ModuleAccessFileSystem σ β)

/-- Translate a host path back to the sandbox path. -/
def toSandboxPath (hostPath : String) : String :=
  match m.packageRoots.find? (isWithinPath m.fs.cwd hostPath ·.hostPath) with
  | some root =>
    let relative := relative m.fs.cwd root.hostPath hostPath
    if relative = "" then root.vmPath else join (root.vmPath :: split relative)
  | none =>
    match m.hostNodeModulesRoot.filter (isWithinPath m.fs.cwd hostPath ·) with
    | some root => join (SANDBOX_NODE_MODULES_ROOT :: split (relative m.fs.cwd root hostPath))
    | none => hostPath

/-! ### Roots -/

/-- The package roots, and `node_modules` after them. -/
def roots : List PackageRootMapping :=
  m.packageRoots ++ (m.hostNodeModulesRoot.map (⟨·, SANDBOX_NODE_MODULES_ROOT⟩)).toList

/-- The components of a host path. -/
def steps (path : String) : List (List Char) := Kernel.resolved (absolute m.fs.cwd path)

/-- A path of the sandbox goes to a host path by this root. -/
structure MapsBy (host : σ) (p h : String) (root : PackageRootMapping) : Prop where
  spelled : ∃ steps, Spells p steps
  first : m.roots.find? (startsWithPath p ·.vmPath) = some root
  moved : m.packageRootPath p root = h
  mapped : m.overlayHostPathFor host p = some h

/-- The name of a host path in the sandbox is that which it was reached by when one root only covers
it, and a name that leads to it in any case. -/
structure NamedBack (host : σ) (p h : String) : Prop where
  only : (∀ r ∈ m.roots, ∀ r' ∈ m.roots, Inside m.fs h r.hostPath → Inside m.fs h r'.hostPath →
    r = r') → m.toSandboxPath h = p
  back : ∃ h', m.overlayHostPathFor host (m.toSandboxPath h) = some h' ∧ m.steps h' = m.steps h

/-- The place of a host path under a root. -/
def placeUnder (h : String) (root : PackageRootMapping) : String :=
  let below := (m.steps h).drop (m.steps root.hostPath).length
  if below = [] then root.vmPath else ofSteps (Kernel.resolved root.vmPath ++ below)

/-- The first root that covers the host path is the one it was reached by, or the package root that
its place under it is served by. -/
def Recognised (h : String) (root : PackageRootMapping) : Prop :=
  ∃ first, m.roots.find? (isWithinPath m.fs.cwd h ·.hostPath) = some first ∧
    (first = root ∨ startsWithPath (m.placeUnder h first) SANDBOX_NODE_MODULES_ROOT = true ∧
      m.packageRoots.find? (startsWithPath (m.placeUnder h first) ·.vmPath) = some first)

/-- Both paths of a root are absolute. -/
def Rooted : Prop := ∀ r ∈ m.roots, isAbsolute r.hostPath = true ∧ isAbsolute r.vmPath = true

variable {m} {host : σ} {h : String} {r root : PackageRootMapping}

/-- Names that are moved below a path come after it. -/
theorem steps_move (hp : isAbsolute p = true) (ht : ∀ s ∈ t, IsComponent s) :
    m.steps (if t = [] then p else ofSteps (Kernel.resolved p ++ t)) = m.steps p ++ t := by
  have hc : ∀ s ∈ Kernel.resolved p ++ t, IsComponent s := fun s hs =>
    (List.mem_append.mp hs).elim (resolved_component p s) (ht s)
  split
  · rename_i hn
    rw [hn, List.append_nil]
  · rw [steps, absolute_ofSteps, resolved_ofSteps hc, steps, absolute_of hp]

/-- A root takes what is below its sandbox path to its host path. -/
theorem steps_packageRootPath (hh : isAbsolute r.hostPath = true)
    (ht : m.steps r.vmPath ++ t = m.steps p) :
    m.steps (m.packageRootPath p r) = m.steps r.hostPath ++ t := by
  have hc : ∀ s ∈ t, IsComponent s := fun s hs =>
    resolved_component _ s (ht ▸ List.mem_append_right _ hs)
  have hbelow : m.below r.vmPath p = String.ofList (['/'].intercalate t) := by
    have hhead := head_intercalate hc
    rw [below, relative_of_append ht, String.toList_ofList]
    cases hw : ['/'].intercalate t with
    | nil => rfl
    | cons c w =>
        rw [hw] at hhead
        rw [List.dropWhile_cons_of_neg]
        simpa using hhead
  have hsame : p = r.vmPath → t = [] := fun hp =>
    List.self_eq_append_right.mp (hp ▸ ht.symm)
  rw [packageRootPath, hbelow, ← steps_move hh hc]
  by_cases hn : t = []
  · rw [if_pos hn, if_pos (.inr ((ofList_eq_empty hc).mpr hn))]
  · have hne : ¬ (p = r.vmPath ∨ String.ofList (['/'].intercalate t) = "") := by
      rw [ofList_eq_empty hc]
      exact fun hor => hn (hor.elim hsame id)
    simp only [if_neg hn, if_neg hne, split_names hc hn, join_names hh hc hn]

theorem placeUnder_eq (hr : m.steps r.hostPath ++ t = m.steps h) :
    m.placeUnder h r = if t = [] then r.vmPath else ofSteps (Kernel.resolved r.vmPath ++ t) := by
  rw [placeUnder, ← hr, List.drop_left]

theorem steps_placeUnder (hv : isAbsolute r.vmPath = true)
    (hr : m.steps r.hostPath ++ t = m.steps h) :
    m.steps (m.placeUnder h r) = m.steps r.vmPath ++ t := by
  rw [placeUnder_eq hr, steps_move hv fun s hs =>
    resolved_component _ s (hr ▸ List.mem_append_right _ hs)]

/-- What a path is named by is its place under the first root that covers it. -/
theorem toSandboxPath_eq (hm : m.Rooted)
    (hf : m.roots.find? (isWithinPath m.fs.cwd h ·.hostPath) = some r) :
    m.toSandboxPath h = m.placeUnder h r := by
  have hw : isWithinPath m.fs.cwd h r.hostPath = true := by simpa using List.find?_some hf
  obtain ⟨t, ht⟩ := prefix_of_isWithinPath hw
  have hc : ∀ s ∈ t, IsComponent s := fun s hs =>
    resolved_component _ s (ht ▸ List.mem_append_right _ hs)
  have hrel := relative_of_append ht
  have hvm := (hm r (List.mem_of_find?_eq_some hf)).2
  have hnamed (hn : t ≠ []) : NodePath.join (r.vmPath :: split (relative m.fs.cwd r.hostPath h)) =
      ofSteps (Kernel.resolved r.vmPath ++ t) := by
    rw [hrel, split_names hc hn, join_names hvm hc hn]
  rw [placeUnder_eq ht, toSandboxPath]
  rw [roots, List.find?_append] at hf
  cases hp : m.packageRoots.find? (isWithinPath m.fs.cwd h ·.hostPath) with
  | some r' =>
      rw [hp] at hf
      cases hf
      simp only [hrel, ofList_eq_empty hc]
      split
      · rfl
      · rename_i hn
        rw [← hrel, hnamed hn]
  | none =>
      rw [hp, Option.none_or] at hf
      cases hn : m.hostNodeModulesRoot with
      | none =>
          rw [hn] at hf
          cases hf
      | some root =>
          rw [hn] at hf
          cases List.mem_singleton.mp (List.mem_of_find?_eq_some hf)
          simp only [Option.filter_some_pos (show _ from hw)]
          split
          · rename_i hn
            rw [hrel, hn]
            decide +kernel
          · rename_i hn
            exact hnamed hn

theorem overlay_of_first (hs : startsWithPath p SANDBOX_NODE_MODULES_ROOT = true)
    (hf : m.packageRoots.find? (startsWithPath p ·.vmPath) = some r) :
    m.overlayHostPathFor host p = some (m.packageRootPath p r) := by
  rw [overlayHostPathFor, if_neg (not_not.mpr hs), hf]

/-- A root that a canonical path is under carries it to what is as far under its host path. -/
theorem carried (hr : isAbsolute r.hostPath = true ∧ isAbsolute r.vmPath = true) (hb : Spells p b)
    (hs : startsWithPath p r.vmPath = true) :
    ∃ a t, Spells r.vmPath a ∧ b = a ++ t ∧
      m.steps (m.packageRootPath p r) = m.steps r.hostPath ++ t := by
  obtain ⟨a, ha, t, rfl⟩ := spells_of_startsWithPath hb hr.2 hs
  refine ⟨a, t, ha, rfl, steps_packageRootPath hr.1 ?_⟩
  rw [steps, steps, hb.inj (ofSteps_spells hb.1), ha.inj (ofSteps_spells ha.1), absolute_ofSteps,
    absolute_ofSteps, resolved_ofSteps ha.1, resolved_ofSteps hb.1]

/-- The place under a root that is spelled as paths are. -/
theorem placeUnder_spells (ha : Spells r.vmPath a) (hr : m.steps r.hostPath ++ t = m.steps h) :
    Spells (m.placeUnder h r) (a ++ t) := by
  have hc : ∀ s ∈ a ++ t, IsComponent s := fun s hs => (List.mem_append.mp hs).elim (ha.1 s)
    fun hs => resolved_component _ s (hr ▸ List.mem_append_right _ hs)
  rw [placeUnder_eq hr]
  split
  · rename_i hn
    rwa [hn, List.append_nil]
  · rw [ha.inj (ofSteps_spells ha.1), resolved_ofSteps ha.1]
    exact ofSteps_spells hc

/-- Where a path lies that a root has carried to the host. -/
theorem MapsBy.below (hm : m.Rooted) (hp : m.MapsBy host p h root) :
    ∃ t, m.steps root.hostPath ++ t = m.steps h ∧ m.placeUnder h root = p := by
  obtain ⟨b, hb⟩ := hp.spelled
  obtain ⟨a, t, ha, rfl, ht⟩ := carried (hm root (List.mem_of_find?_eq_some hp.first)) hb
    (by simpa using List.find?_some hp.first)
  rw [hp.moved] at ht
  exact ⟨t, ht.symm, (placeUnder_spells ha ht.symm).inj hb⟩

/-- **A path is named back** when it is recognised on the host; and where names are plain, and the
roots are as the sandbox spells paths, only then. -/
theorem named_back_iff (hm : m.Rooted) (hp : m.MapsBy host p h root) :
    (m.Recognised h root → m.NamedBack host p h) ∧
    ((∀ r ∈ m.roots, ∃ a, a ≠ [] ∧ Spells r.vmPath a) → Plain (m.steps h) →
      m.NamedBack host p h → m.Recognised h root) := by
  obtain ⟨t, ht, hplace⟩ := hp.below hm
  have hroot := List.mem_of_find?_eq_some hp.first
  constructor
  · rintro ⟨first, hf, hor⟩
    have hq := toSandboxPath_eq hm hf
    have hmem := List.mem_of_find?_eq_some hf
    have hin : Inside m.fs h first.hostPath := prefix_of_isWithinPath (by simpa using List.find?_some hf)
    refine ⟨fun honly => ?_, ?_⟩
    · rw [hq, honly first hmem root hroot hin ⟨t, ht⟩, hplace]
    · rw [hq]
      rcases hor with rfl | ⟨hs, hfirst⟩
      · rw [hplace]
        exact ⟨h, hp.mapped, rfl⟩
      · refine ⟨_, overlay_of_first hs hfirst, ?_⟩
        obtain ⟨u, hu⟩ := hin
        rw [steps_packageRootPath (hm first hmem).1 (steps_placeUnder (hm first hmem).2 hu).symm]
        exact hu
  · rintro hvm hplain ⟨-, h', hback, hh'⟩
    have hcovers {r : PackageRootMapping} {t} (ht : m.steps r.hostPath ++ t = m.steps h) :
        isWithinPath m.fs.cwd h r.hostPath = true :=
      isWithinPath_of_append ht fun s hs => hplain s (ht ▸ List.mem_append_right _ hs)
    obtain ⟨first, hf⟩ := exists_first (isWithinPath m.fs.cwd h ·.hostPath) hroot (hcovers ht)
    rw [toSandboxPath_eq hm hf] at hback
    have hmem := List.mem_of_find?_eq_some hf
    obtain ⟨u, hu⟩ := prefix_of_isWithinPath (by simpa using List.find?_some hf)
    obtain ⟨a, hne, ha⟩ := hvm first hmem
    have hc := placeUnder_spells ha hu
    have hown : startsWithPath (m.placeUnder h first) first.vmPath = true :=
      decide_eq_true ((captures_iff ha hc hne).mpr (List.prefix_append a u))
    have hfront {r : PackageRootMapping} (hr : r ∈ m.packageRoots)
        (hin : isWithinPath m.fs.cwd h r.hostPath = true) :
        m.packageRoots.find? (isWithinPath m.fs.cwd h ·.hostPath) = some first := by
      obtain ⟨r', hr'⟩ := exists_first (isWithinPath m.fs.cwd h ·.hostPath) hr hin
      rw [roots, List.find?_append, hr'] at hf
      cases hf
      exact hr'
    have hs : startsWithPath (m.placeUnder h first) SANDBOX_NODE_MODULES_ROOT = true := by
      by_contra hs
      rw [overlayHostPathFor, if_pos hs] at hback
      cases hback
    refine ⟨first, hf, ?_⟩
    cases hd : m.packageRoots.find? (startsWithPath (m.placeUnder h first) ·.vmPath) with
    | some d =>
        -- what serves the place covers the path too, so it is the first that does
        have hdmem := List.mem_of_find?_eq_some hd
        rw [overlay_of_first hs hd] at hback
        cases hback
        obtain ⟨-, t', -, -, ht'⟩ := carried (m := m) (hm d (List.mem_append_left _ hdmem)) hc
          (by simpa using List.find?_some hd)
        have hin := hcovers (ht'.symm.trans hh')
        have hfirst := hfront hdmem hin
        exact .inr ⟨hs, congrArg some (first_agree hd hfirst hown hin)⟩
    | none =>
        have hout : first ∉ m.packageRoots := fun hr => List.find?_eq_none.mp hd first hr hown
        have hlast : ∀ r ∈ m.roots, r ∉ m.packageRoots → r ∈
            (m.hostNodeModulesRoot.map (⟨·, SANDBOX_NODE_MODULES_ROOT⟩)).toList := fun r hr hnot =>
          (List.mem_append.mp hr).resolve_left hnot
        have h₁ := hlast first hmem hout
        have h₂ := hlast root hroot fun hr =>
          hout (List.mem_of_find?_eq_some (hfront hr (hcovers ht)))
        rw [Option.mem_toList] at h₁ h₂
        exact .inl (Option.some.inj (h₁.symm.trans h₂))

/-! ### A package in a package -/

/-- The package `/lib` with what it bundles, a package of it by itself, and another that the sandbox
has in its place. -/
def nestedRoots : ModuleAccessOptions :=
  ⟨some "/app", [⟨"/app", "/root/node_modules/aa/node_modules/z"⟩, ⟨"/lib", "/root/node_modules/aa"⟩,
    ⟨"/lib/node_modules/z", "/root/node_modules/z"⟩]⟩

def nested : ModuleAccessFileSystem HostTree Unit where
  fs := plainHost
  baseFileSystem := none
  configuredNodeModulesRoot := "/app/node_modules"
  hostNodeModulesRoot := some "/app/node_modules"
  overlayAllowedRoots := nestedRoots.packageRoots.foldl (allowRoot plainHost twoPackages 1)
    (collectOverlayAllowedRoots plainHost twoPackages 1 "/app/node_modules")
  packageRoots := nestedRoots.packageRoots

/-- The first root leads to the file, and what it is named by to another package. -/
theorem named_elsewhere : nested.MapsBy twoPackages "/root/node_modules/z/a.js"
      "/lib/node_modules/z/a.js" ⟨"/lib/node_modules/z", "/root/node_modules/z"⟩ ∧
    ¬ nested.NamedBack twoPackages "/root/node_modules/z/a.js" "/lib/node_modules/z/a.js" := by
  have hname : nested.toSandboxPath "/lib/node_modules/z/a.js" =
      "/root/node_modules/aa/node_modules/z/a.js" := by decide +kernel
  have hto : nested.overlayHostPathFor twoPackages "/root/node_modules/aa/node_modules/z/a.js" =
      some "/app/a.js" := by decide +kernel
  refine ⟨⟨⟨_, normalizePath_spells "/root/node_modules/z/a.js"⟩, ?_, ?_, ?_⟩, ?_⟩
  · decide +kernel
  · decide +kernel
  · decide +kernel
  · rintro ⟨-, h', hback, hsteps⟩
    rw [hname, hto] at hback
    cases hback
    revert hsteps
    decide +kernel

theorem named_back_iff_nested :
    nested.NamedBack twoPackages "/root/node_modules/aa/a.js" "/lib/a.js" := by
  have hm : nested.Rooted := by
    unfold Rooted
    decide +kernel
  have hp : nested.MapsBy twoPackages "/root/node_modules/aa/a.js" "/lib/a.js"
      ⟨"/lib", "/root/node_modules/aa"⟩ :=
    ⟨⟨_, normalizePath_spells "/root/node_modules/aa/a.js"⟩, by decide +kernel, by decide +kernel,
      by decide +kernel⟩
  exact (named_back_iff hm hp).1 ⟨_, by decide +kernel, .inl rfl⟩

end ModuleAccessFileSystem

end ModuleAccess
