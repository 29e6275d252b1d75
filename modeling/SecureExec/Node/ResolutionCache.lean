import SecureExec.Lib.Alike
import SecureExec.Node.Resolve

/-!
# Node — ResolutionCache — a cache that cannot be seen

Calls of `resolveModule` that share a cache, on a file system that does not change.  Every probe
fills the cache, also the probes of calls that failed later and of calls that asked for something
else.

* `Sound`: what is in the cache is what a call without a cache would find.
* `ProbesAlike.resolveRequest`: a resolution does the same with other probes that do the same; so
  it does the same with a sound cache, and the same when it may make more calls.
* `resolution_cache_transparent`: every call of a sequence has the result or the error of a call
  without a cache.
-/

namespace Bundler
open Prog

variable {ε : Type} {fs : FileSystem ε} {parse : String → Option Json}

/-! ### Values that are kept -/

section

variable {α : Type} {results : ResolutionCache → OMap String α}
  {update : OMap String α → ResolutionCache → ResolutionCache} {key : String}
  {compute : Resolve ε α}

/-- With no cache, nothing is kept. -/
theorem exec_cached_none (hcompute : (compute.exec none).2 = none) :
    (cached results update key compute).exec none = compute.exec none := by
  simp only [cached, exec_bind, exec_read, Option.bind_none]
  rcases hp : compute.exec none with ⟨e | a, s⟩
  · rfl
  · rw [hp] at hcompute
    cases hcompute
    rfl

theorem exec_cached_hit {c : ResolutionCache} {a : α} (h : (results c).get key = some a) :
    (cached results update key compute).exec (some c) = (.ok a, some c) := by
  simp only [cached, exec_bind, exec_read, Option.bind_some, h]
  rfl

theorem exec_cached_miss {c : ResolutionCache} (h : (results c).get key = none) :
    (cached results update key compute).exec (some c) =
      match compute.exec (some c) with
      | (.ok a, s) => (.ok a, s.map fun c' => update ((results c').set key a) c')
      | (.error e, s) => (.error e, s) := by
  simp only [cached, exec_bind, exec_read, Option.bind_some, h]
  rcases compute.exec (some c) with ⟨_ | _, _⟩ <;> rfl

end

/-! ### Resolutions that do the same -/

section

variable {stop : Stop ε → Prop} {R : Option ResolutionCache → Option ResolutionCache → Prop}

/-- The probes do the same. -/
structure ProbesAlike (fs : FileSystem ε) (parse : String → Option Json) (stop : Stop ε → Prop)
    (R : Option ResolutionCache → Option ResolutionCache → Prop) : Prop where
  pathExists : ∀ path, Alike stop R (cachedSafeExists fs path) (cachedSafeExists fs path)
  stat : ∀ path, Alike stop R (cachedStat fs path) (cachedStat fs path)
  packageJson : ∀ path, Alike stop R (readPackageJson fs parse path) (readPackageJson fs parse path)

namespace ProbesAlike

theorem firstExisting (k : ProbesAlike fs parse stop R) (paths : List String) :
    Alike stop R (firstExisting fs paths) (firstExisting fs paths) := by
  induction paths with
  | nil => exact .pure none
  | cons path paths ih =>
      refine (k.pathExists path).bind ?_
      intro found
      exact .ite (.pure _) ih

variable {rp rq : String → Resolve ε (Option String)}

variable (k : ProbesAlike fs parse stop R)
include k

theorem resolveDirectory (h : ∀ path, Alike stop R (rp path) (rq path))
    (basePath : String) :
    Alike stop R (resolveDirectory fs parse rp basePath) (resolveDirectory fs parse rq basePath) := by
  refine (k.packageJson _).bind ?_
  intro pkgJson
  refine Alike.bind (.ite (h _) (.pure none)) ?_
  intro entry
  split
  · exact .pure _
  · exact k.firstExisting _

/-- The second resolution may make more calls, if nothing is said of a first one that is running. -/
theorem resolvePath {n m : Nat}
    (hcalls : n = m ∨ n ≤ m ∧ stop .running) (basePath : String) :
    Alike stop R (resolvePath fs parse n basePath) (resolvePath fs parse m basePath) := by
  induction n generalizing m basePath with
  | zero =>
      rcases hcalls with rfl | ⟨-, hstop⟩
      · exact .throw _
      · exact .stopped hstop _
  | succ n ih =>
      obtain ⟨m, rfl, hm⟩ : ∃ m', m = m' + 1 ∧ (n = m' ∨ n ≤ m' ∧ stop .running) := by
        rcases hcalls with rfl | ⟨hle, hstop⟩
        · exact ⟨n, rfl, .inl rfl⟩
        · obtain ⟨m', rfl⟩ := Nat.exists_eq_add_of_le' (Nat.le_trans (Nat.succ_le_succ n.zero_le) hle)
          exact ⟨m', rfl, .inr ⟨Nat.le_of_succ_le_succ hle, hstop⟩⟩
      refine (k.stat basePath).bind ?_
      intro stat
      split
      · exact .pure _
      · refine (k.firstExisting _).bind ?_
        intro found
        split
        · exact .pure _
        · exact .ite (k.resolveDirectory (fun path => ih hm path) basePath) (.pure none)

theorem resolvePackageEntryFromDir
    (h : ∀ path, Alike stop R (rp path) (rq path)) (packageDir subpath : String)
    (mode : ResolveMode) :
    Alike stop R (resolvePackageEntryFromDir fs parse rp packageDir subpath mode)
      (resolvePackageEntryFromDir fs parse rq packageDir subpath mode) := by
  refine (k.packageJson _).bind ?_
  intro pkgJson
  refine Alike.bind (.ite (.pure true) (k.pathExists _)) ?_
  intro found
  refine .ite (.pure none) ?_
  split
  · split
    · refine (h _).bind ?_
      intro resolved
      exact .pure _
    · exact .pure none
  · refine .ite (h _) ?_
    refine Alike.bind (.ite (h _) (.pure none)) ?_
    intro resolved
    split
    · exact .pure _
    · exact .ite (.pure _) (h _)

theorem resolveInDirs (hstop : ∀ e, stop e → e = .running)
    (h : ∀ path, Alike stop R (rp path) (rq path)) (subpath : String) (mode : ResolveMode)
    (packageDirs : List String) :
    Alike stop R (resolveInDirs fs parse rp subpath mode packageDirs)
      (resolveInDirs fs parse rq subpath mode packageDirs) := by
  induction packageDirs with
  | nil => exact .pure none
  | cons packageDir packageDirs ih =>
      refine Alike.bind (Alike.tryCatch
        (k.resolvePackageEntryFromDir h packageDir subpath mode) ?_ ?_) ?_
      · intro e
        cases e with
        | thrown e => exact .ite (.pure none) (.throw _)
        | running => exact .throw _
      · intro e he s
        cases hstop e he
        exact ⟨.running, rfl, he⟩
      · intro entry
        split
        · exact .pure _
        · exact ih

theorem resolveImportsFrom
    (h : ∀ path, Alike stop R (rp path) (rq path)) (request : String) (mode : ResolveMode)
    (dirs : List String) :
    Alike stop R (resolveImportsFrom fs parse rp request mode dirs)
      (resolveImportsFrom fs parse rq request mode dirs) := by
  induction dirs with
  | nil => exact .pure none
  | cons dir dirs ih =>
      refine (k.packageJson _).bind ?_
      intro pkgJson
      split
      · split
        · exact .pure none
        · exact .ite (.pure none) (h _)
      · exact ih

/-- **A resolution does the same with probes that do the same.** -/
theorem resolveRequest (hstop : ∀ e, stop e → e = .running)
    {n m : Nat} (hcalls : n = m ∨ n ≤ m ∧ stop .running) (request fromDir : String)
    (mode : ResolveMode) :
    Alike stop R (resolveRequest fs parse n request fromDir mode)
      (resolveRequest fs parse m request fromDir mode) := by
  have hpath := k.resolvePath hcalls
  refine .ite (hpath _) (.ite (hpath _) (.ite (k.resolveImportsFrom hpath _ _ _) ?_))
  rw [resolveNodeModules, resolveNodeModules]
  split
  · exact .pure none
  · exact k.resolveInDirs hstop hpath _ _ _

end ProbesAlike

end

/-! ### The property -/

/-- A string with no NUL. -/
def NulFree (s : String) : Prop := '\x00' ∉ s.toList

instance (s : String) : Decidable (NulFree s) := by
  unfold NulFree
  infer_instance

/-- A call of `resolveModule`, that may make `calls` calls of `resolvePath`. -/
structure Call where
  request : String
  fromDir : String
  mode : ResolveMode
  calls : Nat

/-- The outcomes of calls that share a cache. -/
def resolveAll (fs : FileSystem ε) (parse : String → Option Json) (cache : Option ResolutionCache) :
    List Call → List (Except (Stop ε) (Option String))
  | [] => []
  | call :: calls =>
    let r := (resolveModule fs parse call.calls call.request call.fromDir call.mode).exec cache
    r.1 :: resolveAll fs parse r.2 calls

/-- The call has the outcome of a call without a cache that returns. -/
def Transparent (fs : FileSystem ε) (parse : String → Option Json) (call : Call)
    (result : Except (Stop ε) (Option String)) : Prop :=
  ∀ n ≤ call.calls, ∀ outcome,
    ((resolveModule fs parse n call.request call.fromDir call.mode).exec none).1 = outcome →
      outcome ≠ .error .running → result = outcome

/-! ### Sound caches -/

/-- What is in the cache is what is found without a cache. -/
structure Sound (fs : FileSystem ε) (parse : String → Option Json) (c : ResolutionCache) : Prop where
  pathExists : ∀ path result, c.existsResults.get path = some result →
    ((cachedSafeExists fs path).exec none).1 = .ok result
  stat : ∀ path result, c.statResults.get path = some result →
    ((cachedStat fs path).exec none).1 = .ok result
  packageJson : ∀ path result, c.packageJsonResults.get path = some result →
    ((readPackageJson fs parse path).exec none).1 = .ok result
  resolve : ∀ key result, c.resolveResults.get key = some result →
    ∃ n request fromDir mode, NulFree request ∧ NulFree fromDir ∧
      key = cacheKey request fromDir mode ∧
      ((resolveRequest fs parse n request fromDir mode).exec none).1 = .ok result

/-- No cache beside a cache that is sound. -/
def Beside (fs : FileSystem ε) (parse : String → Option Json) (s t : Option ResolutionCache) :
    Prop :=
  s = none ∧ ∀ c, t = some c → Sound fs parse c

theorem sound_createResolutionCache : Sound fs parse createResolutionCache where
  pathExists _ _ h := by cases h
  stat _ _ h := by cases h
  packageJson _ _ h := by cases h
  resolve _ _ h := by cases h

/-- One more entry, which is what is found. -/
theorem get_of_set {α : Type} {m : OMap String α} {key key' : String} {a a' : α} {P : String → α → Prop}
    (hm : ∀ k v, m.get k = some v → P k v) (h : P key a) (hget : (m.set key a).get key' = some a') :
    P key' a' := by
  rw [OMap.get_set] at hget
  split at hget
  · rename_i he
    cases hget
    exact he ▸ h
  · exact hm _ _ hget

/-- No errors are passed over. -/
abbrev NoStop (_ : Stop ε) : Prop := False

section

variable {α : Type} {results : ResolutionCache → OMap String α}
  {update : OMap String α → ResolutionCache → ResolutionCache} {key : String}
  {compute : Resolve ε α}

/-- A program that does the same with a sound cache leaves the missing cache missing. -/
theorem exec_none_snd (h : Alike NoStop (Beside fs parse) compute compute) :
    (compute.exec none).2 = none := by
  rcases h none none ⟨rfl, fun _ h => by cases h⟩ with ⟨e, -, hf⟩ | ⟨-, hb⟩
  · exact hf.elim
  · exact hb.1

/-- A value is kept that is found again. -/
theorem alike_cached (h : Alike NoStop (Beside fs parse) compute compute)
    (hlook : ∀ c, Sound fs parse c → ∀ a, (results c).get key = some a →
      ((cached results update key compute).exec none).1 = .ok a)
    (hkeep : ∀ c, Sound fs parse c → ∀ a,
      ((cached results update key compute).exec none).1 = .ok a →
        Sound fs parse (update ((results c).set key a) c)) :
    Alike NoStop (Beside fs parse) (cached results update key compute)
      (cached results update key compute) := by
  have hnone := exec_none_snd h
  rintro s t ⟨rfl, ht⟩
  have hleft : (cached results update key compute).exec none = compute.exec none :=
    exec_cached_none hnone
  refine .inr ?_
  cases t with
  | none =>
      rw [hleft]
      exact ⟨rfl, hnone, fun c hc => by rw [hnone] at hc; cases hc⟩
  | some c =>
      have hc := ht c rfl
      rw [hleft, hnone]
      cases hget : (results c).get key with
      | some a =>
          have hfound := hlook c hc a hget
          rw [hleft] at hfound
          rw [exec_cached_hit hget]
          exact ⟨hfound.symm, rfl, ht⟩
      | none =>
          rcases h none (some c) ⟨rfl, ht⟩ with ⟨e, -, hf⟩ | ⟨heq, -, hsound⟩
          · exact hf.elim
          · rw [exec_cached_miss hget]
            rcases hq : compute.exec (some c) with ⟨e | a, s'⟩ <;> rw [hq] at heq hsound
            · exact ⟨heq, rfl, hsound⟩
            · refine ⟨heq, rfl, ?_⟩
              intro d hd
              obtain ⟨c', hc', rfl⟩ := Option.map_eq_some_iff.mp hd
              exact hkeep c' (hsound c' hc') a ((congrArg Prod.fst hleft).trans heq.symm)

end

/-! ### The probes -/

variable (path : String)

theorem alike_cachedSafeExists :
    Alike NoStop (Beside fs parse) (cachedSafeExists fs path) (cachedSafeExists fs path) := by
  refine alike_cached ?_ (fun c hc => hc.pathExists path) ?_
  · rw [safeExists]
    split
    · exact .pure _
    · exact .ite (.pure _) (.throw _)
  · intro c hc a ha
    exact ⟨fun _ _ => get_of_set hc.pathExists ha, hc.stat, hc.packageJson, hc.resolve⟩

theorem alike_cachedStat :
    Alike NoStop (Beside fs parse) (cachedStat fs path) (cachedStat fs path) := by
  refine alike_cached ?_ (fun c hc => hc.stat path) ?_
  · split
    · exact .pure _
    · exact .ite (.throw _) (.pure _)
  · intro c hc a ha
    exact ⟨hc.pathExists, fun _ _ => get_of_set hc.stat ha, hc.packageJson, hc.resolve⟩

theorem alike_readPackageJson :
    Alike NoStop (Beside fs parse) (readPackageJson fs parse path)
      (readPackageJson fs parse path) := by
  refine alike_cached ?_ (fun c hc => hc.packageJson path) ?_
  · refine (alike_cachedSafeExists path).bind ?_
    intro found
    refine .ite ?_ (.pure _)
    split <;> exact .pure _
  · intro c hc a ha
    exact ⟨hc.pathExists, hc.stat, fun _ _ => get_of_set hc.packageJson ha, hc.resolve⟩

/-- With a sound cache, the probes do the same as without one. -/
theorem probes_beside : ProbesAlike fs parse NoStop (Beside fs parse) :=
  ⟨alike_cachedSafeExists, alike_cachedStat, alike_readPackageJson⟩

theorem probes_eq (stop : Stop ε → Prop) : ProbesAlike fs parse stop Eq :=
  ⟨fun _ => .refl _, fun _ => .refl _, fun _ => .refl _⟩

/-! ### Calls -/

/-- The word before the first separator, and the word after it. -/
theorem append_sep_inj {α : Type} {sep : α} {l l' m m' : List α} (hl : sep ∉ l) (hl' : sep ∉ l')
    (h : l ++ sep :: m = l' ++ sep :: m') : l = l' ∧ m = m' := by
  rcases List.append_eq_append_iff.mp h with ⟨c, rfl, hc⟩ | ⟨c, rfl, hc⟩ <;> cases c with
  | nil =>
      cases hc
      exact ⟨by simp, rfl⟩
  | cons a c =>
      cases hc
      simp at hl hl'

theorem cacheKey_inj {request request' fromDir fromDir' : String} {mode mode' : ResolveMode}
    (hr : NulFree request) (hr' : NulFree request') (hd : NulFree fromDir)
    (hd' : NulFree fromDir') (h : cacheKey request fromDir mode = cacheKey request' fromDir' mode') :
    request = request' ∧ fromDir = fromDir' ∧ mode = mode' := by
  have hlist : request.toList ++ '\x00' :: (fromDir.toList ++ '\x00' :: mode.name.toList) =
      request'.toList ++ '\x00' :: (fromDir'.toList ++ '\x00' :: mode'.name.toList) := by
    have hkey := congrArg String.toList h
    simpa [cacheKey] using hkey
  obtain ⟨hreq, hrest⟩ := append_sep_inj hr hr' hlist
  obtain ⟨hdir, hmode⟩ := append_sep_inj hd hd' hrest
  refine ⟨String.toList_inj.mp hreq, String.toList_inj.mp hdir, ?_⟩
  cases mode <;> cases mode' <;> first | rfl | cases hmode

/-- A resolution that returned returns the same when it may make more calls. -/
theorem resolveRequest_mono {n m : Nat} (hle : n ≤ m) {request fromDir : String}
    {mode : ResolveMode} {outcome : Except (Stop ε) (Option String)}
    (h : ((resolveRequest fs parse n request fromDir mode).exec none).1 = outcome)
    (hreturns : outcome ≠ .error .running) :
    ((resolveRequest fs parse m request fromDir mode).exec none).1 = outcome := by
  have hprobes : ProbesAlike fs parse (· = .running) Eq := probes_eq _
  have halike := hprobes.resolveRequest (fun _ => id) (.inr ⟨hle, rfl⟩) request fromDir mode
    none none rfl
  rcases halike with ⟨e, he, rfl⟩ | ⟨heq, -⟩
  · exact absurd (h.symm.trans he) hreturns
  · exact heq.trans h

/-- One call: it has the outcome of a call without a cache, and leaves the cache sound. -/
theorem resolveModule_transparent {t : Option ResolutionCache} (ht : Beside fs parse none t)
    (call : Call) (hrequest : NulFree call.request) (hdir : NulFree call.fromDir) :
    Transparent fs parse call
        ((resolveModule fs parse call.calls call.request call.fromDir call.mode).exec t).1 ∧
      Beside fs parse none
        ((resolveModule fs parse call.calls call.request call.fromDir call.mode).exec t).2 := by
  have halike : ∀ n, Alike NoStop (Beside fs parse)
      (resolveRequest fs parse n call.request call.fromDir call.mode)
      (resolveRequest fs parse n call.request call.fromDir call.mode) := fun n =>
    probes_beside.resolveRequest (fun _ h => h.elim) (.inl rfl) _ _ _
  have hleft : ∀ n, (resolveModule fs parse n call.request call.fromDir call.mode).exec none =
      (resolveRequest fs parse n call.request call.fromDir call.mode).exec none := fun n =>
    exec_cached_none (exec_none_snd (halike n))
  cases t with
  | none =>
      rw [hleft]
      refine ⟨?_, rfl, ?_⟩
      · intro n hn outcome ho hreturns
        rw [hleft] at ho
        exact resolveRequest_mono hn ho hreturns
      · rw [exec_none_snd (halike _)]
        exact fun c hc => by cases hc
  | some c =>
      have hc := ht.2 c rfl
      cases hget : c.resolveResults.get (cacheKey call.request call.fromDir call.mode) with
      | some result =>
          have hhit : (resolveModule fs parse call.calls call.request call.fromDir call.mode).exec
              (some c) = (.ok result, some c) := exec_cached_hit hget
          rw [hhit]
          refine ⟨?_, ht⟩
          intro n hn outcome ho hreturns
          rw [hleft] at ho
          obtain ⟨n₀, request, fromDir, mode, hr, hd, hkey, hfound⟩ := hc.resolve _ _ hget
          obtain ⟨rfl, rfl, rfl⟩ := cacheKey_inj hrequest hr hdir hd hkey
          have hmax := resolveRequest_mono (Nat.le_max_left n n₀) ho hreturns
          rw [resolveRequest_mono (Nat.le_max_right n n₀) hfound (by simp)] at hmax
          exact hmax
      | none =>
          rcases halike call.calls none (some c) ht with ⟨e, -, hf⟩ | ⟨heq, -, hsound⟩
          · exact hf.elim
          · rw [resolveModule, exec_cached_miss hget]
            rcases hq : (resolveRequest fs parse call.calls call.request call.fromDir
              call.mode).exec (some c) with ⟨e | result, s'⟩ <;> rw [hq] at heq hsound
            · refine ⟨?_, rfl, hsound⟩
              intro n hn outcome ho hreturns
              rw [hleft] at ho
              exact heq.trans (resolveRequest_mono hn ho hreturns)
            · refine ⟨?_, rfl, ?_⟩
              · intro n hn outcome ho hreturns
                rw [hleft] at ho
                exact heq.trans (resolveRequest_mono hn ho hreturns)
              · intro d hd
                obtain ⟨c', hc', rfl⟩ := Option.map_eq_some_iff.mp hd
                have hk := hsound c' hc'
                refine ⟨hk.pathExists, hk.stat, hk.packageJson, fun _ _ => get_of_set hk.resolve ?_⟩
                exact ⟨call.calls, call.request, call.fromDir, call.mode, hrequest, hdir, rfl,
                  heq.symm⟩

/-- **The resolution cache is transparent.** -/
theorem resolution_cache_transparent (fs : FileSystem ε) (parse : String → Option Json)
    (calls : List Call) (h : ∀ call ∈ calls, NulFree call.request ∧ NulFree call.fromDir) :
    List.Forall₂ (Transparent fs parse) calls
      (resolveAll fs parse (some createResolutionCache) calls) := by
  have hall : ∀ (calls : List Call) (t : Option ResolutionCache), Beside fs parse none t →
      (∀ call ∈ calls, NulFree call.request ∧ NulFree call.fromDir) →
        List.Forall₂ (Transparent fs parse) calls (resolveAll fs parse t calls) := by
    intro calls
    induction calls with
    | nil => exact fun _ _ _ => .nil
    | cons call calls ih =>
        intro t ht hnul
        obtain ⟨hr, hd⟩ := hnul call List.mem_cons_self
        obtain ⟨hcall, hrest⟩ := resolveModule_transparent ht call hr hd
        exact .cons hcall (ih _ hrest fun c hc => hnul c (List.mem_cons_of_mem _ hc))
  refine hall calls _ ⟨rfl, ?_⟩ h
  rintro _ ⟨⟩
  exact sound_createResolutionCache

/-- A package with a `main` below a directory that may not be looked into. -/
def packageFiles : FileSystem String where
  pathExists path :=
    if startsWith path "/a/c/node_modules" then .error "EACCES"
    else .ok (["/a/node_modules/x/package.json", "/a/node_modules/x/index.js"].contains path)
  isDirectory path :=
    if path = "/a/node_modules/x/index.js" then .ok false
    else .error "ENOENT"
  readTextFile _ := .ok "\x7b\"main\":\"./index\"\x7d"
  code e := some e

def packageText (text : String) : Option Json :=
  if text = "\x7b\"main\":\"./index\"\x7d" then some (.obj [("main", .str "./index")]) else none

/-- A package is found twice, and a file is not found with its map filled. -/
theorem resolution_cache_transparent_package : ∃ results,
    results = [.ok (some "/a/node_modules/x/index.js"), .ok none,
      .ok (some "/a/node_modules/x/index.js")] ∧
    List.Forall₂ (Transparent packageFiles packageText)
      [⟨"x", "/a/c", .require, 3⟩, ⟨"./missing", "/a", .require, 3⟩, ⟨"x", "/a/c", .require, 3⟩]
      results := by
  refine ⟨_, ?_, resolution_cache_transparent packageFiles packageText _ (by decide)⟩
  decide +kernel

end Bundler
