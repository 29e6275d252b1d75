import SecureExec.Node.Overlay

/-!
# Node — Confined — what of the host the overlay looks at

`Allowed` says which directories the constructor lets the overlay see: `node_modules` of the working
directory, the package roots, what their package links lead to with the nearest `node_modules` above,
the `.pnpm` stores of the package roots and the `node_modules` directories they are in.

`confined`: whatever the configuration, the host and the base file system are, every file or
directory of the host that a call looks at is canonical and inside one of these.  Nothing is said of
the directory of a package root that has another name (`LeftOpen`).

`reads_sibling`: a package beside a package root is read.
-/

namespace ModuleAccess
open SecureExec Shared Prog NodePath Kernel ModuleAccessFileSystem

/-! ### Directories that are seen -/

/-- The path has the components of the other first. -/
def Inside {σ : Type} (fs : HostFs σ) (path root : String) : Prop :=
  Kernel.resolved (absolute fs.cwd root) <+: Kernel.resolved (absolute fs.cwd path)

section Allowed
variable {σ : Type} (fs : HostFs σ) (host : σ)

/-- Where a package link leads that is in a directory, or in a scope of it. -/
inductive PackageLink (dir : String) : String → Prop where
  | direct {entries : List Dirent} {e : Dirent} {target : String}
      (list : fs.readdir host dir = .ok entries) (mem : e ∈ entries) (link : e.isSymbolicLink = true)
      (real : fs.realpath host (join [dir, e.name]) = .ok target) : PackageLink dir target
  | inScope {entries scopedEntries : List Dirent} {scope e : Dirent} {target : String}
      (list : fs.readdir host dir = .ok entries) (inDir : scope ∈ entries)
      (isDirectory : scope.isDirectory = true) (at_ : startsWith scope.name "@" = true)
      (listScope : fs.readdir host (join [dir, scope.name]) = .ok scopedEntries)
      (mem : e ∈ scopedEntries) (link : e.isSymbolicLink = true)
      (real : fs.realpath host (join [join [dir, scope.name], e.name]) = .ok target) :
      PackageLink dir target

/-- The nearest `node_modules` directory above a path, or itself. -/
def nearest (path : String) : Option String :=
  nearestNodeModules (Kernel.resolved (absolute fs.cwd path)).reverse

variable (options : ModuleAccessOptions)

def configuredNodeModules : String := join [resolve fs.cwd (options.cwd.getD fs.cwd), "node_modules"]

/-- The `node_modules` directory of the working directory or of a package root. -/
inductive Collected : String → Prop where
  | configured {root : String} (real : fs.realpath host (configuredNodeModules fs options) = .ok root) :
      Collected root
  | package {root : PackageRootMapping} {canonical : String} (mem : root ∈ options.packageRoots)
      (real : fs.realpath host root.hostPath = .ok canonical) :
      Collected (join [canonical, "node_modules"])

/-- A directory whose package links are followed. -/
inductive Scanned : String → Prop where
  | root {dir : String} (h : Collected fs host options dir) : Scanned dir
  | hoisted {dir : String} (h : Collected fs host options dir) :
      Scanned (join [dir, ".pnpm", "node_modules"])
  | above {dir target root : String} (h : Scanned dir) (link : PackageLink fs host dir target)
      (near : nearest fs target = some root) : Scanned root

/-- A directory that the overlay sees. -/
inductive Allowed : String → Prop where
  | nodeModules {dir : String} (h : Collected fs host options dir) : Allowed dir
  | packageRoot {root : PackageRootMapping} {canonical : String} (mem : root ∈ options.packageRoots)
      (real : fs.realpath host root.hostPath = .ok canonical) : Allowed canonical
  | target {dir target : String} (h : Scanned fs host options dir)
      (link : PackageLink fs host dir target) : Allowed target
  | above {dir target root : String} (h : Scanned fs host options dir)
      (link : PackageLink fs host dir target) (near : nearest fs target = some root) : Allowed root
  | store {root : PackageRootMapping} {canonical store : String} (mem : root ∈ options.packageRoots)
      (real : fs.realpath host root.hostPath = .ok canonical)
      (pnpm : pnpmStoreRoot canonical = some store) : Allowed store
  | beside {root : PackageRootMapping} {parent : String} (mem : root ∈ options.packageRoots)
      (named : basename (dirname root.hostPath) = "node_modules")
      (real : fs.realpath host (dirname root.hostPath) = .ok parent) : Allowed parent

/-- In the directory of a package root, where that is no `node_modules`. -/
def LeftOpen (path : String) : Prop :=
  ∃ root ∈ options.packageRoots, basename (dirname root.hostPath) ≠ "node_modules" ∧
    ∃ parent, fs.realpath host (dirname root.hostPath) = .ok parent ∧ Inside fs path parent

end Allowed

/-! ### What the constructor collects -/

section Collect
variable {σ : Type} {fs : HostFs σ} {host : σ} {options : ModuleAccessOptions}

variable {roots : List String}

theorem mem_addRoot {root r : String} :
    r ∈ addRoot roots root ↔ r ∈ roots ∨ r = root := by
  rw [addRoot]
  split
  · rename_i h
    exact ⟨.inl, fun hr => hr.elim id fun he => he ▸ h⟩
  · rw [List.mem_append, List.mem_singleton]

variable (fs host options) in
/-- The root is allowed, or what is inside it is left open. -/
def Covered (r : String) : Prop :=
  Allowed fs host options r ∨ ∀ path, Inside fs path r → LeftOpen fs host options path

variable (fs host options) in
def AllAllowed (roots : List String) : Prop := ∀ r ∈ roots, Covered fs host options r

theorem AllAllowed.add {root : String} (h : AllAllowed fs host options roots)
    (hr : Covered fs host options root) : AllAllowed fs host options (addRoot roots root) := by
  intro r hmem
  rcases mem_addRoot.mp hmem with hmem | rfl
  · exact h r hmem
  · exact hr

variable {scan : String → Scan → Scan} {s : Scan}

variable {dir : String}

section

variable (hscan : ∀ dir s, Scanned fs host options dir → AllAllowed fs host options s.roots →
    AllAllowed fs host options (scan dir s).roots)
  (hdir : Scanned fs host options dir) (hs : AllAllowed fs host options s.roots)
include hscan hdir hs

/-- One link. -/
theorem addSymlinkTarget_allowed {entryPath : String}
    (hlink : ∀ target, fs.realpath host entryPath = .ok target → PackageLink fs host dir target) :
    AllAllowed fs host options (addSymlinkTarget fs host scan entryPath s).roots := by
  rw [addSymlinkTarget]
  split
  · exact hs
  · rename_i target hreal
    have htarget : AllAllowed fs host options (addRoot s.roots target) :=
      hs.add (.inl (.target hdir (hlink target hreal)))
    dsimp only
    split
    · rename_i root hnear
      refine hscan _ _ (.above hdir (hlink target hreal) hnear) ?_
      exact htarget.add (.inl (.above hdir (hlink target hreal) hnear))
    · exact htarget

theorem scanScope_allowed {scope : String}
    (hlink : ∀ scopedEntries, fs.readdir host scope = .ok scopedEntries → ∀ e ∈ scopedEntries,
      e.isSymbolicLink = true → ∀ target, fs.realpath host (join [scope, e.name]) = .ok target →
        PackageLink fs host dir target) :
    AllAllowed fs host options (scanScope fs host scan scope s).roots := by
  rw [scanScope]
  split
  · exact hs
  · rename_i scopedEntries hlist
    refine List.foldlRecOn (motive := fun s : Scan => AllAllowed fs host options s.roots)
      scopedEntries _ hs fun s hs e he => ?_
    split
    · rename_i hl
      exact addSymlinkTarget_allowed hscan hdir hs (hlink scopedEntries hlist e he hl)
    · exact hs

end

/-- **A scan adds allowed roots.** -/
theorem scan_allowed (depth : Nat) : ∀ (dir : String) (s : Scan), Scanned fs host options dir →
    AllAllowed fs host options s.roots →
    AllAllowed fs host options (scanDirForSymlinks fs host depth dir s).roots := by
  induction depth with
  | zero => exact fun _ _ _ hs => hs
  | succ depth ih =>
      intro dir s hdir hs
      rw [scanDirForSymlinks]
      split
      · exact hs
      · split
        · exact hs
        · rename_i entries hlist
          refine List.foldlRecOn (motive := fun s : Scan => AllAllowed fs host options s.roots)
            entries _ hs fun s hs e he => ?_
          split
          · rename_i hl
            exact addSymlinkTarget_allowed ih hdir hs fun _ => .direct hlist he hl
          · split
            · rename_i hscope
              exact scanScope_allowed ih hdir hs
                fun _ hl _ he' hl' _ => .inScope hlist he hscope.1 hscope.2 hl he' hl'
            · exact hs

theorem collect_allowed (depth : Nat) (h : Collected fs host options dir) :
    AllAllowed fs host options (collectOverlayAllowedRoots fs host depth dir) := by
  have hstart : AllAllowed fs host options [dir] := by
    intro r hr
    rw [List.mem_singleton.mp hr]
    exact .inl (.nodeModules h)
  refine List.foldlRecOn (motive := fun s : Scan => AllAllowed fs host options s.roots)
    [dir, join [dir, ".pnpm", "node_modules"]] _ hstart fun s hs scanRoot hmem => ?_
  rcases List.mem_pair.mp hmem with rfl | rfl
  · exact scan_allowed depth _ s (.root h) hs
  · exact scan_allowed depth _ s (.hoisted h) hs

theorem allowRoot_allowed (depth : Nat) {root : PackageRootMapping}
    (hroot : root ∈ options.packageRoots) (h : AllAllowed fs host options roots) :
    AllAllowed fs host options (allowRoot fs host depth roots root) := by
  rw [allowRoot]
  split
  · exact h
  · rename_i canonical hreal
    have h₁ : AllAllowed fs host options (addRoot roots canonical) :=
      h.add (.inl (.packageRoot hroot hreal))
    have h₂ : AllAllowed fs host options
        (if fs.existsSync host (join [canonical, "node_modules"]) then
          (collectOverlayAllowedRoots fs host depth (join [canonical, "node_modules"])).foldl addRoot
            (addRoot roots canonical)
          else addRoot roots canonical) := by
      split
      · refine List.foldlRecOn _ _ h₁ fun roots hroots r hr => hroots.add ?_
        exact collect_allowed depth (.package hroot hreal) r hr
      · exact h₁
    have h₃ : ∀ roots, AllAllowed fs host options roots →
        AllAllowed fs host options ((pnpmStoreRoot canonical).elim roots (addRoot roots)) := by
      intro roots hroots
      cases hp : pnpmStoreRoot canonical with
      | none => exact hroots
      | some store => exact hroots.add (.inl (.store hroot hreal hp))
    dsimp only
    split
    · rename_i parent hparent
      refine (h₃ _ h₂).add ?_
      by_cases hnamed : basename (dirname root.hostPath) = "node_modules"
      · exact .inl (.beside hroot hnamed hparent)
      · exact .inr fun path hin => ⟨root, hroot, hnamed, parent, hparent, hin⟩
    · exact h₃ _ h₂

variable {β : Type} {base : Option (VirtualFileSystem SystemError β)} {depth : Nat}
  {m : ModuleAccessFileSystem σ β}

/-- **The allowed roots of the object.** -/
theorem new_allowed (hm : new fs host depth base options = .ok m) :
    m.fs = fs ∧ AllAllowed fs host options m.overlayAllowedRoots := by
  rw [new] at hm
  split at hm
  · cases hm
  · cases hm
    refine ⟨rfl, ?_⟩
    refine List.foldlRecOn _ _ ?_ fun roots hroots root hroot => ?_
    · cases hr : fs.realpath host (configuredNodeModules fs options) with
      | error e =>
          rw [configuredNodeModules] at hr
          rw [hr]
          exact fun r hr => (List.not_mem_nil hr).elim
      | ok root =>
          have hcollect := collect_allowed depth (.configured hr)
          rw [configuredNodeModules] at hr
          rw [hr]
          exact hcollect
    · exact allowRoot_allowed depth (List.mem_mergeSort.mp hroot) hroots

end Collect

/-! ### What a call looks at -/

namespace ModuleAccessFileSystem

variable {σ β α γ : Type} {m : ModuleAccessFileSystem σ β} {w : World σ β}

variable (m) in
/-- A canonical path inside an allowed root. -/
def Sees (host : σ) (path : String) : Prop :=
  m.fs.realpath host path = .ok path ∧ ∃ root ∈ m.overlayAllowedRoots, Inside m.fs path root

variable (m) in
/-- The program, started here, looks at what is seen only. -/
def Confines (p : Prog SystemError (World σ β) α) (w : World σ β) : Prop :=
  ∃ asked, (p.exec w).2.asked = w.asked ++ asked ∧ ∀ a ∈ asked, m.Sees w.host a.path

/-- A path that the overlay resolves is seen. -/
theorem sees_of_resolve (hfs : m.fs.Lawful) {host : σ} {virtualPath syscall canonical : String}
    (h : m.resolveOverlayHostPath host virtualPath syscall = .ok (some canonical)) :
    m.Sees host canonical := by
  rw [resolveOverlayHostPath] at h
  split at h
  · cases h
  · split at h
    · cases h
    · split at h
      · rename_i canonical' hreal
        split at h
        · cases h
        · rename_i hscope
          split at h
          · cases h
          · cases h
            refine ⟨hfs.realpath_idem hreal, ?_⟩
            have hany := not_not.mp (not_or.mp hscope).2
            rw [isWithinAllowedOverlayRoots, List.any_eq_true] at hany
            obtain ⟨root, hroot, hin⟩ := hany
            exact ⟨root, hroot, prefix_of_isWithinPath hin⟩
      · split at h
        · cases h
        · split at h
          · cases h
          · cases h

/-- **A call looks at what is seen only.** -/
theorem confines_call (hfs : m.fs.Lawful) (c : FsCall) : m.Confines (m.fileSystem.call c) w := by
  have hS : m.Resolves m.Sees := sees_of_resolve hfs
  by_cases hc : ∃ path offset data, c = .pwrite path offset data
  · obtain ⟨path, offset, data, rfl⟩ := hc
    refine state_of_wp (I := fun w' => ∃ asked, w'.asked = w.asked ++ asked ∧
      ∀ a ∈ asked, m.Sees w.host a.path) (wp_map.mpr (wp_bind.mpr (Looks.wp_resolved hS ?_ ?_ ?_)))
    · exact wp_of_state (Looks.all (Steps.ite (.throw _) (Looks.fallback _ _ _)).state).2
    · intro hostPath h
      refine wp_of_state ⟨[.write hostPath], ?_, fun a ha => List.mem_singleton.mp ha ▸ h⟩
      rfl
    · exact fun _ => ⟨[], (List.append_nil _).symm, fun _ ha => (List.not_mem_nil ha).elim⟩
  · exact (Looks.all (Looks.call hS fun path offset data he => hc ⟨path, offset, data, he⟩).state).2

/-- **Every file or directory of the host that a call looks at is canonical, and inside a directory
that is allowed**, unless it is left open. -/
theorem confined {fs : HostFs σ} {host : σ} {depth : Nat}
    {base : Option (VirtualFileSystem SystemError β)} {options : ModuleAccessOptions}
    (hfs : fs.Lawful) (hm : new fs host depth base options = .ok m)
    (c : FsCall) (w : World σ β) :
    ∃ asked, ((m.fileSystem.call c).exec w).2.asked = w.asked ++ asked ∧
      ∀ a ∈ asked, fs.realpath w.host a.path = .ok a.path ∧ (¬ LeftOpen fs host options a.path →
        ∃ root, Allowed fs host options root ∧ Inside fs a.path root) := by
  obtain ⟨hmfs, hroots⟩ := new_allowed hm
  subst hmfs
  obtain ⟨asked, hasked, hsees⟩ := confines_call (w := w) hfs c
  refine ⟨asked, hasked, fun a ha => ⟨(hsees a ha).1, fun hopen => ?_⟩⟩
  obtain ⟨root, hroot, hin⟩ := (hsees a ha).2
  exact ⟨root, (hroots root hroot).resolve_right fun h => hopen (h _ hin), hin⟩

/-! ### A package beside a package root -/

/-- A host with the packages `y` and `z` in a `node_modules` of their own. -/
def twoPackages : HostTree where
  tree.entries := [(["app".toList], .directory), (["app".toList, "node_modules".toList], .directory),
    (["lib".toList], .directory), (["lib".toList, "node_modules".toList], .directory),
    (["lib".toList, "node_modules".toList, "y".toList], .directory),
    (["lib".toList, "node_modules".toList, "z".toList], .directory),
    (["lib".toList, "node_modules".toList, "z".toList, "a.js".toList], .file [1, 2, 3])]
  named := by decide

/-- The working directory `/app`, and the package root `y`. -/
def rootOfY : ModuleAccessOptions :=
  ⟨some "/app", [⟨"/lib/node_modules/y", "/root/node_modules/y"⟩]⟩

def plainHost : HostFs HostTree := treeHost "/" fun _ => ""

def ofY : Option (ModuleAccessFileSystem HostTree Unit) :=
  (new plainHost twoPackages 1 none rootOfY).toOption

/-- The package `z` is read. -/
theorem readsSibling : (ofY.map fun m =>
    ((m.fileSystem.call (.readFile "/root/node_modules/z/a.js")).exec
      ⟨twoPackages, [], ()⟩).2.asked) = some [.readFile "/lib/node_modules/z/a.js"] := by
  decide +kernel

theorem new_of_ofY {m : ModuleAccessFileSystem HostTree Unit} (hm : ofY = some m) :
    new plainHost twoPackages 1 none rootOfY = .ok m := by
  rw [ofY] at hm
  cases hn : new (β := Unit) plainHost twoPackages 1 none rootOfY with
  | error e =>
      rw [hn] at hm
      cases hm
  | ok m' =>
      rw [hn] at hm
      cases hm
      rfl

/-- The package beside the package root is in a directory that is allowed. -/
theorem confined_sibling : ∃ m, ofY = some m ∧
    ((m.fileSystem.call (.readFile "/root/node_modules/z/a.js")).exec
      ⟨twoPackages, [], ()⟩).2.asked = [.readFile "/lib/node_modules/z/a.js"] ∧
    ∃ root, Allowed plainHost twoPackages rootOfY root ∧
      Inside plainHost "/lib/node_modules/z/a.js" root := by
  obtain ⟨m, hm, hasked⟩ := Option.map_eq_some_iff.mp readsSibling
  obtain ⟨asked, hnew, hin⟩ := confined (treeHost_lawful "/" fun _ => "") (new_of_ofY hm)
    (.readFile "/root/node_modules/z/a.js") ⟨twoPackages, [], ()⟩
  rw [hasked] at hnew
  obtain rfl : asked = _ := hnew.symm
  refine ⟨m, hm, hasked, (hin _ (List.mem_singleton_self _)).2 ?_⟩
  rintro ⟨root, hroot, hnamed, -⟩
  rw [rootOfY, List.mem_singleton] at hroot
  subst hroot
  exact hnamed (by decide +kernel)

/-- `node_modules`, a package root, or what a package link right in one of their `node_modules`
leads to. -/
inductive Configured {σ : Type} (fs : HostFs σ) (host : σ) (options : ModuleAccessOptions) :
    String → Prop where
  | nodeModules {dir : String} (real : fs.realpath host (configuredNodeModules fs options) = .ok dir) :
      Configured fs host options dir
  | packageRoot {root : PackageRootMapping} {canonical : String} (mem : root ∈ options.packageRoots)
      (real : fs.realpath host root.hostPath = .ok canonical) : Configured fs host options canonical
  | target {dir target : String} (h : Collected fs host options dir)
      (link : PackageLink fs host dir target) : Configured fs host options target

theorem toOption_ok {ε : Type} {x : Except ε α} {a : α} (h : x = .ok a) : x.toOption = some a := by
  rw [h]
  rfl

/-- No directory in question has links. -/
theorem no_link {dir target : String} (h : Collected plainHost twoPackages rootOfY dir) :
    ¬ PackageLink plainHost twoPackages dir target := by
  have hlist : (plainHost.readdir twoPackages dir).toOption.getD [] = [] := by
    cases h with
    | configured real =>
        have hdir : (plainHost.realpath twoPackages (configuredNodeModules plainHost rootOfY)).toOption =
            some "/app/node_modules" := by decide +kernel
        obtain rfl := Option.some.inj (hdir.symm.trans (toOption_ok real))
        decide +kernel
    | package mem real =>
        have hdir : (plainHost.realpath twoPackages "/lib/node_modules/y").toOption =
            some "/lib/node_modules/y" := by decide +kernel
        rw [rootOfY, List.mem_singleton] at mem
        subst mem
        obtain rfl := Option.some.inj (hdir.symm.trans (toOption_ok real))
        decide +kernel
  intro hl
  cases hl with
  | direct list mem link real =>
      rw [list] at hlist
      obtain rfl : _ = [] := hlist
      exact List.not_mem_nil mem
  | inScope list inDir isDirectory at_ listScope mem link real =>
      rw [list] at hlist
      obtain rfl : _ = [] := hlist
      exact List.not_mem_nil inDir

/-- A package beside a package root is read, and it is in no directory that was configured. -/
theorem reads_sibling : ¬ ∀ m, ofY = some m → ∀ a ∈
    ((m.fileSystem.call (.readFile "/root/node_modules/z/a.js")).exec ⟨twoPackages, [], ()⟩).2.asked,
      ∃ root, Configured plainHost twoPackages rootOfY root ∧ Inside plainHost a.path root := by
  intro hall
  obtain ⟨m, hm, hasked⟩ := Option.map_eq_some_iff.mp readsSibling
  obtain ⟨root, hroot, hin⟩ := hall m hm (.readFile "/lib/node_modules/z/a.js")
    (hasked ▸ List.mem_singleton_self _)
  cases hroot with
  | nodeModules real =>
      have hdir : (plainHost.realpath twoPackages (configuredNodeModules plainHost rootOfY)).toOption =
          some "/app/node_modules" := by decide +kernel
      obtain rfl := Option.some.inj (hdir.symm.trans (toOption_ok real))
      revert hin
      rw [Inside]
      decide +kernel
  | packageRoot mem real =>
      have hdir : (plainHost.realpath twoPackages "/lib/node_modules/y").toOption =
          some "/lib/node_modules/y" := by decide +kernel
      rw [rootOfY, List.mem_singleton] at mem
      subst mem
      obtain rfl := Option.some.inj (hdir.symm.trans (toOption_ok real))
      revert hin
      rw [Inside]
      decide +kernel
  | target h link => exact no_link h link

end ModuleAccessFileSystem

end ModuleAccess
