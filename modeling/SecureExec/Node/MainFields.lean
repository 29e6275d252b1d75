import Mathlib.Data.Set.Finite.Basic
import Mathlib.Data.Fintype.Pigeonhole
import SecureExec.Node.ResolutionCache

/-!
# Node — MainFields — resolutions that come to an end

`resolvePath` goes on from a directory to the path that its `main` field names, and only looks out
for a `main` that names the directory itself.

* `LeadsTo`: a directory that `resolvePath` goes on from, and where to.
* `resolution_terminates_iff`: where finitely many paths name a directory, every resolution comes to
  an end exactly when no directory leads back to itself.
-/

namespace Bundler
open Prog Relation

variable {ε : Type} {fs : FileSystem ε} {parse : String → Option Json}

/-- A probe lets the error through: not one of permissions, and not that of a missing path. -/
def FileSystem.Throws (fs : FileSystem ε) (e : ε) : Prop :=
  ∃ path, fs.pathExists path = .error e ∧ isPermissionProbeError fs e = false ∨
    fs.isDirectory path = .error e ∧ (truthy (fs.code e)).isSome = true ∧ fs.code e ≠ some "ENOENT"

/-- Without a cache, the program returns, or throws what a probe has let through. -/
def Ends {α : Type} (fs : FileSystem ε) (p : Resolve ε α) : Prop :=
  p.wp none (fun _ s => s = none) fun stop s => s = none ∧ ∃ e, stop = .thrown e ∧ fs.Throws e

/-- The resolution comes to an end, after some number of calls. -/
def Resolves (fs : FileSystem ε) (parse : String → Option Json) (request fromDir : String)
    (mode : ResolveMode) : Prop :=
  ∃ n, Ends fs (resolveModule fs parse n request fromDir mode)

/-- Every resolution from an absolute directory comes to an end. -/
def Terminates (fs : FileSystem ε) (parse : String → Option Json) : Prop :=
  ∀ request fromDir mode, startsWith fromDir "/" = true → Resolves fs parse request fromDir mode

/-- `resolvePath` goes on from the directory `d` to `d'`. -/
structure LeadsTo (fs : FileSystem ε) (parse : String → Option Json) (d d' : String) : Prop where
  directory : ((cachedStat fs d).exec none).1 = .ok (some true)
  noFile : ((firstExisting fs (fileExtensions.map (d ++ ·))).exec none).1 = .ok none
  main : ∃ pkgJson, ((readPackageJson fs parse (join [d, "package.json"])).exec none).1 = .ok pkgJson ∧
    getPackageEntryField pkgJson ≠ "" ∧
    d' = join [d, normalizePackagePath (getPackageEntryField pkgJson)]
  other : d' ≠ d

/-! ### Programs that end -/

namespace Ends

variable {α β : Type} {p : Resolve ε α}

theorem exec (h : Ends fs p) {a : α} (he : (p.exec none).1 = .ok a) :
    p.exec none = (.ok a, none) := by
  unfold Ends wp at h
  rcases hp : p.exec none with ⟨e | b, s⟩ <;> rw [hp] at h he
  · cases he
  · cases he
    exact Prod.ext rfl h

theorem not_running (h : Ends fs p) : (p.exec none).1 ≠ .error .running := by
  unfold Ends wp at h
  rcases hp : p.exec none with ⟨e | b, s⟩ <;> rw [hp] at h
  · obtain ⟨-, e', rfl, -⟩ := h
    exact nofun
  · exact nofun

theorem pure (a : α) : Ends fs (Pure.pure a : Resolve ε α) := rfl

theorem throw {e : ε} (h : fs.Throws e) : Ends fs (MonadExcept.throw (.thrown e) : Resolve ε α) :=
  ⟨rfl, e, rfl, h⟩

theorem bind {f : α → Resolve ε β} (h : Ends fs p)
    (hf : ∀ a, (p.exec none).1 = .ok a → Ends fs (f a)) : Ends fs (p >>= f) := by
  refine wp_bind.mpr (wp_of_exec (fun a s he => ?_) fun e s he => ?_)
  · have hs := h.exec (congrArg Prod.fst he)
    cases he.symm.trans hs
    exact hf a (congrArg Prod.fst he)
  · unfold Ends wp at h
    rw [he] at h
    exact h

theorem ite {c : Prop} [Decidable c] {q : Resolve ε α} (hp : Ends fs p) (hq : Ends fs q) :
    Ends fs (if c then p else q) := by
  split
  · exact hp
  · exact hq

theorem tryCatch {h : Stop ε → Resolve ε α} (hp : Ends fs p)
    (hh : ∀ e, fs.Throws e → Ends fs (h (.thrown e))) : Ends fs (MonadExcept.tryCatch p h) := by
  refine wp_tryCatch.mpr (wp_mono hp (fun _ _ hs => hs) ?_)
  rintro _ s ⟨rfl, e, rfl, he⟩
  exact hh e he

variable {results : ResolutionCache → OMap String α}
  {update : OMap String α → ResolutionCache → ResolutionCache} {key : String}

theorem cached (h : Ends fs p) : Ends fs (Bundler.cached results update key p) := by
  have hnone : (p.exec none).2 = none := state_of_wp (wp_mono h (fun _ _ hs => hs) fun _ _ hs => hs.1)
  rw [Ends, wp, exec_cached_none hnone]
  exact h

variable (path : String)

theorem cachedSafeExists : Ends fs (cachedSafeExists fs path) := by
  refine cached ?_
  unfold safeExists
  split
  · exact pure _
  · rename_i e he
    cases hperm : isPermissionProbeError fs e with
    | true => exact pure _
    | false => exact throw ⟨path, .inl ⟨he, hperm⟩⟩

theorem cachedStat : Ends fs (cachedStat fs path) := by
  refine cached ?_
  split
  · exact pure _
  · rename_i e he
    split
    · exact throw ⟨path, .inr ⟨he, by assumption⟩⟩
    · exact pure _

theorem readPackageJson : Ends fs (readPackageJson fs parse path) := by
  refine cached (bind (cachedSafeExists path) fun found _ => .ite ?_ (pure _))
  split
  · exact pure _
  · exact pure _

theorem firstExisting : ∀ paths : List String, Ends fs (firstExisting fs paths)
  | [] => pure none
  | path :: paths => (cachedSafeExists path).bind fun _ _ => .ite (pure _) (firstExisting paths)

/-! ### The resolution -/

/-- A call ends when the call for where it leads to does. -/
theorem resolvePath_succ {n : Nat} {d : String}
    (h : ∀ d', LeadsTo fs parse d d' → Ends fs (resolvePath fs parse n d')) :
    Ends fs (resolvePath fs parse (n + 1) d) := by
  refine (cachedStat d).bind fun stat hstat => ?_
  split
  · exact pure _
  refine (firstExisting _).bind fun found hfound => ?_
  split
  · exact pure _
  by_cases hdir : stat = some true
  case neg =>
    rw [if_neg hdir]
    exact pure none
  rw [if_pos hdir]
  subst hdir
  refine (readPackageJson _).bind fun pkgJson hpkg => ?_
  refine bind (α := Option String) ?_ fun entry _ => ?_
  · split
    · rename_i hentry
      exact h _ ⟨hstat, hfound, ⟨pkgJson, hpkg, hentry.1, rfl⟩, hentry.2⟩
    · exact pure none
  · split
    · exact pure _
    · exact firstExisting _

variable {rp : String → Resolve ε (Option String)}

theorem resolvePackageEntryFromDir (h : ∀ path, Ends fs (rp path)) (packageDir subpath : String)
    (mode : ResolveMode) : Ends fs (resolvePackageEntryFromDir fs parse rp packageDir subpath mode) := by
  refine (readPackageJson _).bind fun pkgJson _ => ?_
  refine bind (.ite (pure true) (cachedSafeExists _)) fun found _ => .ite (pure none) ?_
  split
  · split
    · exact (h _).bind fun _ _ => pure _
    · exact pure none
  · refine .ite (h _) (bind (.ite (h _) (pure none)) fun resolved _ => ?_)
    split
    · exact pure _
    · exact .ite (pure _) (h _)

theorem resolveInDirs (h : ∀ path, Ends fs (rp path)) (subpath : String) (mode : ResolveMode) :
    ∀ dirs : List String, Ends fs (resolveInDirs fs parse rp subpath mode dirs)
  | [] => pure none
  | dir :: dirs => by
      refine bind (tryCatch (resolvePackageEntryFromDir h dir subpath mode) fun e he => ?_) fun entry _ => ?_
      · exact .ite (pure none) (throw he)
      · split
        · exact pure _
        · exact resolveInDirs h subpath mode dirs

theorem resolveImportsFrom (h : ∀ path, Ends fs (rp path)) (request : String) (mode : ResolveMode) :
    ∀ dirs : List String, Ends fs (resolveImportsFrom fs parse rp request mode dirs)
  | [] => pure none
  | dir :: dirs => by
      refine (readPackageJson _).bind fun pkgJson _ => ?_
      split
      · split
        · exact pure none
        · exact .ite (pure none) (h _)
      · exact resolveImportsFrom h request mode dirs

theorem resolveModule {n : Nat} (h : ∀ path, Ends fs (resolvePath fs parse n path))
    (request fromDir : String) (mode : ResolveMode) :
    Ends fs (resolveModule fs parse n request fromDir mode) := by
  refine cached (.ite (h _) (.ite (h _) (.ite (resolveImportsFrom h _ _ _) ?_)))
  rw [resolveNodeModules]
  split
  · exact pure none
  · exact resolveInDirs h _ _ _

end Ends

/-! ### Chains of directories -/

variable {d d' : String}

/-- A directory that leads somewhere is one, and where it leads to is a normalised path. -/
theorem LeadsTo.isDirectory (h : LeadsTo fs parse d d') :
    fs.isDirectory d = .ok true := by
  have hd := h.directory
  unfold cachedStat at hd
  cases hstat : fs.isDirectory d with
  | ok yes =>
      rw [hstat, exec_cached_none rfl] at hd
      cases hd
      rfl
  | error e =>
      rw [hstat] at hd
      dsimp only at hd
      split at hd <;> rw [exec_cached_none rfl] at hd <;> cases hd

theorem LeadsTo.joined (h : LeadsTo fs parse d d') : ∃ parts, d' = join parts :=
  let ⟨_, _, _, hd⟩ := h.main
  ⟨_, hd⟩

/-- A call that does not end goes through directories that lead on, as many as it may make calls. -/
theorem exists_chain : ∀ (n : Nat) (d : String), ¬ Ends fs (resolvePath fs parse n d) →
    ∃ x : Nat → String, x 0 = d ∧ ∀ i < n, LeadsTo fs parse (x i) (x (i + 1))
  | 0, d, _ => ⟨fun _ => d, rfl, fun _ h => absurd h (Nat.not_lt_zero _)⟩
  | n + 1, d, h => by
      obtain ⟨d', hd, hn⟩ : ∃ d', LeadsTo fs parse d d' ∧ ¬ Ends fs (resolvePath fs parse n d') := by
        by_contra hno
        exact h (Ends.resolvePath_succ fun d' hd => by_contra fun hn => hno ⟨d', hd, hn⟩)
      obtain ⟨x, hx, hsteps⟩ := exists_chain n d' hn
      refine ⟨fun i => if i = 0 then d else x (i - 1), rfl, fun i hi => ?_⟩
      cases i with
      | zero => simpa [hx] using hd
      | succ i => simpa using hsteps i (Nat.lt_of_succ_lt_succ hi)

theorem transGen_chain {x : Nat → String} {i j n : Nat} (hij : i < j) (hj : j ≤ n)
    (h : ∀ k < n, LeadsTo fs parse (x k) (x (k + 1))) : TransGen (LeadsTo fs parse) (x i) (x j) := by
  induction j, hij using Nat.le_induction with
  | base => exact .single (h i hj)
  | succ j hij ih => exact (ih (Nat.le_of_succ_le hj)).tail (h j hj)

/-- With finitely many directories and no cycle, there is a bound on the calls. -/
theorem exists_bound (hfinite : {d | (∃ parts, d = join parts) ∧ fs.isDirectory d = .ok true}.Finite)
    (hacyclic : ∀ d, ¬ TransGen (LeadsTo fs parse) d d) :
    ∃ n, ∀ d, Ends fs (resolvePath fs parse n d) := by
  refine ⟨hfinite.toFinset.card + 2, fun d => by_contra fun hrunning => ?_⟩
  obtain ⟨x, -, hx⟩ := exists_chain _ d hrunning
  have hmem : ∀ i ∈ Finset.range (hfinite.toFinset.card + 1), x (i + 1) ∈ hfinite.toFinset := by
    intro i hi
    rw [Finset.mem_range] at hi
    exact hfinite.mem_toFinset.mpr
      ⟨(hx i (by omega)).joined, (hx (i + 1) (by omega)).isDirectory⟩
  -- more steps than directories: one is met twice
  obtain ⟨i, hi, j, hj, hne, heq⟩ := Finset.exists_ne_map_eq_of_card_lt_of_maps_to
    (by rw [Finset.card_range]; exact Nat.lt_succ_self _) hmem
  rw [Finset.mem_range] at hi hj
  rcases Nat.lt_or_gt_of_ne hne with hlt | hlt
  · have hcycle := transGen_chain (Nat.succ_lt_succ hlt) (by omega) hx
    exact hacyclic _ (heq ▸ hcycle)
  · have hcycle := transGen_chain (Nat.succ_lt_succ hlt) (by omega) hx
    exact hacyclic _ (heq ▸ hcycle)

/-! ### Cycles -/

/-- A call goes on for as long as the one it leads to. -/
theorem LeadsTo.running {n : Nat} (h : LeadsTo fs parse d d')
    (hn : (resolvePath fs parse n d').exec none = (.error .running, none)) :
    (resolvePath fs parse (n + 1) d).exec none = (.error .running, none) := by
  obtain ⟨pkgJson, hpkg, hentry, rfl⟩ := h.main
  rw [resolvePath, exec_bind, (Ends.cachedStat d).exec h.directory]
  dsimp only
  rw [exec_bind, (Ends.firstExisting _).exec h.noFile]
  dsimp only
  rw [if_pos rfl, resolveDirectory, exec_bind, (Ends.readPackageJson _).exec hpkg]
  dsimp only
  rw [if_pos ⟨hentry, h.other⟩, exec_bind, hn]

/-- From a directory on a cycle no number of calls is enough. -/
theorem running_of_cycle (hcycle : TransGen (LeadsTo fs parse) d d) :
    ∀ n x, ReflTransGen (LeadsTo fs parse) x d →
      (resolvePath fs parse n x).exec none = (.error .running, none)
  | 0, _, _ => rfl
  | n + 1, x, hx => by
      have hnext : ∃ y, LeadsTo fs parse x y ∧ ReflTransGen (LeadsTo fs parse) y d := by
        rcases hx.cases_head with rfl | hy
        · exact TransGen.head'_iff.mp hcycle
        · exact hy
      obtain ⟨y, hxy, hy⟩ := hnext
      exact hxy.running (running_of_cycle hcycle n y hy)

/-- A request for a directory on a cycle does not come to an end. -/
theorem not_terminates_of_cycle (hcycle : TransGen (LeadsTo fs parse) d d) :
    ¬ Terminates fs parse := by
  intro h
  obtain ⟨x, -, hx⟩ := TransGen.tail'_iff.mp hcycle
  obtain ⟨parts, rfl⟩ := hx.joined
  obtain ⟨n, hn⟩ := h (join parts) "/" .require (by decide)
  have habs : startsWith (join parts) "/" = true := by
    simp [startsWith, join]
  have hrun := running_of_cycle hcycle n _ .refl
  refine hn.not_running ?_
  rw [resolveModule, exec_cached_none] <;> rw [resolveRequest, if_pos habs, hrun]

/-- **When every resolution comes to an end.** -/
theorem resolution_terminates_iff
    (hfinite : {d | (∃ parts, d = join parts) ∧ fs.isDirectory d = .ok true}.Finite) :
    Terminates fs parse ↔ ∀ d, ¬ TransGen (LeadsTo fs parse) d d := by
  constructor
  · exact fun h d hcycle => not_terminates_of_cycle hcycle h
  · intro hacyclic request fromDir mode _
    obtain ⟨n, hn⟩ := exists_bound hfinite hacyclic
    exact ⟨n, Ends.resolveModule hn request fromDir mode⟩

/-! ### A chain and a cycle -/

/-- Directories with a `package.json` each; its text is the `main` field. -/
def mainsFiles (mains : List (String × String)) : FileSystem String where
  pathExists path := .ok ((mains.map fun m => join [m.1, "package.json"]).contains path)
  isDirectory path := if (mains.map (·.1)).contains path then .ok true else .error "ENOENT"
  readTextFile path :=
    match mains.find? fun m => join [m.1, "package.json"] == path with
    | some m => .ok m.2
    | none => .error "ENOENT"
  code e := some e

def mainText (text : String) : Option Json := some (.obj [("main", .str text)])

theorem finite_mainsFiles (mains : List (String × String)) :
    {d | (∃ parts, d = join parts) ∧ (mainsFiles mains).isDirectory d = .ok true}.Finite := by
  refine (List.finite_toSet (mains.map (·.1))).subset fun d hd => ?_
  have hdir := hd.2
  unfold mainsFiles at hdir
  dsimp only at hdir
  split at hdir
  · rename_i hmem
    exact List.contains_iff_mem.mp hmem
  · cases hdir

theorem leadsTo_mains {mains : List (String × String)} (main : String)
    (hd : ((readPackageJson (mainsFiles mains) mainText (join [d, "package.json"])).exec none).1 =
      .ok (.obj [("main", .str main)]))
    (h : LeadsTo (mainsFiles mains) mainText d d') : d' = join [d, normalizePackagePath main] := by
  obtain ⟨pkgJson, hpkg, -, rfl⟩ := h.main
  cases hd.symm.trans hpkg
  rfl

/-- `/a` leads to `/a/b`, and that on to what is no directory. -/
theorem resolution_terminates_chain :
    Terminates (mainsFiles [("/a", "b"), ("/a/b", "index.js")]) mainText := by
  refine (resolution_terminates_iff (finite_mainsFiles _)).mpr fun d hcycle => ?_
  have hstep : ∀ x y, LeadsTo (mainsFiles [("/a", "b"), ("/a/b", "index.js")]) mainText x y →
      x.length < y.length := by
    intro x y h
    have hdir := h.isDirectory
    unfold mainsFiles at hdir
    dsimp only at hdir
    split at hdir
    case isFalse => cases hdir
    rename_i hmem
    rcases List.mem_pair.mp (List.contains_iff_mem.mp hmem) with rfl | rfl
    · rw [leadsTo_mains "b" (by rfl) h]
      decide +kernel
    · rw [leadsTo_mains "index.js" (by rfl) h]
      decide +kernel
  have hlonger : ∀ x y, TransGen (LeadsTo (mainsFiles [("/a", "b"), ("/a/b", "index.js")]) mainText) x y →
      x.length < y.length := by
    intro x y h
    induction h with
    | single h => exact hstep _ _ h
    | tail _ h ih => exact ih.trans (hstep _ _ h)
  exact Nat.lt_irrefl _ (hlonger d d hcycle)

/-- Two packages whose `main` fields name each other. -/
theorem resolution_terminates_fails :
    ¬ ∀ (fs : FileSystem String) (parse : String → Option Json),
      {d | (∃ parts, d = join parts) ∧ fs.isDirectory d = .ok true}.Finite → Terminates fs parse := by
  intro hall
  refine not_terminates_of_cycle (d := "/a") ?_
    (hall (mainsFiles [("/a", "../b"), ("/b", "../a")]) mainText (finite_mainsFiles _))
  refine .head (b := "/b") ?_ (.single ?_)
  · exact ⟨by decide +kernel, by decide +kernel, ⟨.obj [("main", .str "../b")], by rfl, by decide +kernel,
      by decide +kernel⟩, by decide⟩
  · exact ⟨by decide +kernel, by decide +kernel, ⟨.obj [("main", .str "../a")], by rfl, by decide +kernel,
      by decide +kernel⟩, by decide⟩

end Bundler
