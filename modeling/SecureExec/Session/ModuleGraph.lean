import SecureExec.Lib.Lts
import SecureExec.Lib.OMap

/-!
# Session — ModuleGraph — the instances of the modules of an execution

`execute_module` of `execution.rs`: the entry module is compiled, the imports are fetched level by
level in batches, then V8 links and runs the modules, and asks for one module after the other, in
whatever order, through `module_resolve_callback` and `dynamic_import_callback`.

Modules are kept in one map under two kinds of keys: the path they were resolved to, and the request
with the name of the module that makes it.  The entry module is in neither.

* `OneInstance`: no path has two instances, and every request was given the instance of its path.
* `instances_shared`: so it is in every run that never resolves a request to the entry module.
* `entry_twice`: a cycle through the entry module compiles it a second time.
-/

namespace Execution
open Lts

/-! ### What is outside -/

/-- The host and V8. -/
structure Host where
  /-- `_resolveModule`: of a specifier and the name of the module that has it. -/
  resolve : String → String → Option String
  /-- `_loadFile` -/
  load : String → Option String
  /-- A source, wrapped when it looks like CommonJS, compiled under a name: the specifiers of the
  module that V8 makes of it. -/
  compile : String → String → Option (List String)
  /-- `get_identity_hash` of each module that V8 makes, in their order. -/
  identityHash : Nat → Nat

structure Module where
  resourceName : String
  requests : List String
  deriving DecidableEq

/-- An import that was linked: the specifier, the module that has it, and the module it was given. -/
structure Link where
  specifier : String
  referrer : String
  target : Nat
  deriving DecidableEq

/-! ### The resolve state -/

/-- `module_request_cache_key` -/
def moduleRequestCacheKey (specifier referrerName : String) : String :=
  referrerName ++ "\x00" ++ specifier

/-- `ModuleResolveState`, and the modules that V8 has made; a module is its place among them. -/
structure ModuleResolveState where
  modules : List Module
  moduleNames : OMap Nat String
  moduleCache : OMap String Nat

/-- What batches have left to fetch, while they are sent; the imports that were linked. -/
structure State extends ModuleResolveState where
  pending : Option (List (Nat × String))
  linked : List Link

namespace ModuleResolveState

variable (host : Host) (s : ModuleResolveState)

/-- V8 compiles a module, and its name is kept. -/
def compile (path : String) (requests : List String) : ModuleResolveState where
  modules := s.modules ++ [⟨path, requests⟩]
  moduleNames := s.moduleNames.set (host.identityHash s.modules.length) path
  moduleCache := s.moduleCache

/-- A module is kept under a key. -/
def remember (key : String) (module : Nat) : ModuleResolveState :=
  { s with moduleCache := s.moduleCache.set key module }

/-- `extract_uncached_imports` -/
def extractUncachedImports (module : Nat) (referrerName : String) : List (String × String) :=
  (s.modules[module]?.elim [] (·.requests)).filterMap fun specifier =>
    if s.moduleCache.has (moduleRequestCacheKey specifier referrerName) then none
    else some (specifier, referrerName)

/-- The requests of a level, each once. -/
def batch (pending : List (Nat × String)) : List (String × String) :=
  (pending.flatMap fun p => s.extractUncachedImports p.1 p.2).foldl
    (fun batch request => if request ∈ batch then batch else batch ++ [request]) []

/-- One result of a batch, with the modules that the next level starts from. -/
def cacheResult (r : ModuleResolveState × List (Nat × String))
    (result : (String × String) × Option (String × String)) :
    ModuleResolveState × List (Nat × String) :=
  match result.2 with
  | none => r
  | some (resolvedPath, sourceCode) =>
    if r.1.moduleCache.has resolvedPath then r
    else
      match host.compile resolvedPath sourceCode with
      | none => r
      | some requests =>
        let module := r.1.modules.length
        (((r.1.compile host resolvedPath requests).remember resolvedPath module).remember
          (moduleRequestCacheKey result.1.1 result.1.2) module,
          r.2 ++ [(module, resolvedPath)])

/-- `resolve_or_compile_module` -/
def resolveOrCompileModule (specifier referrerName : String) : Option Nat × ModuleResolveState :=
  let requestCacheKey := moduleRequestCacheKey specifier referrerName
  match s.moduleCache.get requestCacheKey with
  | some module => (some module, s)
  | none =>
    match host.resolve specifier referrerName with
    | none => (none, s)
    | some resolvedPath =>
      match s.moduleCache.get resolvedPath with
      | some module => (some module, s)
      | none =>
        match (host.load resolvedPath).bind (host.compile resolvedPath) with
        | none => (none, s)
        | some requests =>
          let module := s.modules.length
          (some module,
            ((s.compile host resolvedPath requests).remember requestCacheKey module).remember
              resolvedPath module)

end ModuleResolveState

/-! ### Steps -/

inductive Step where
  /-- A batch is sent; the host may not know batches, and may leave requests unanswered. -/
  | prefetch (reply : Option (List (Option (String × String))))
  /-- V8 links an import of a module. -/
  | link (module : Nat) (specifier : String)
  /-- `import()` in a script or module of this name. -/
  | dynamicImport (resourceName specifier : String)

namespace State

variable (host : Host) (s : State)

/-- The host answers a batch as it answers the requests alone. -/
def Answers (batch : List (String × String)) (results : List (Option (String × String))) : Prop :=
  ∀ r ∈ batch.zip results, ∀ answer, r.2 = some answer →
    host.resolve r.1.1 r.1.2 = some answer.1

instance (batch : List (String × String)) (results : List (Option (String × String))) :
    Decidable (Answers host batch results) :=
  inferInstanceAs (Decidable (∀ r ∈ batch.zip results, ∀ answer ∈ r.2,
    host.resolve r.1.1 r.1.2 = some answer.1))

/-- One turn of the loop of `prefetch_module_imports`. -/
def prefetch (pending : List (Nat × String)) (reply : Option (List (Option (String × String)))) :
    Option State :=
  let batch := s.batch pending
  if batch = [] then some { s with pending := none }
  else
    match reply with
    | none => some { s with pending := none }
    | some results =>
      if Answers host batch results then
        let r := (batch.zip results).foldl (ModuleResolveState.cacheResult host)
          (s.toModuleResolveState, [])
        some { s with
          toModuleResolveState := r.1
          pending := if r.2 = [] then none else some r.2 }
      else none

/-- The request is given a module, or an error is thrown. -/
def request (specifier referrer referrerName : String) : State :=
  let r := s.resolveOrCompileModule host specifier referrerName
  { s with
    toModuleResolveState := r.2
    linked := s.linked ++ r.1.toList.map (⟨specifier, referrer, ·⟩) }

/-- Batches come first, then V8 asks for what it needs. -/
def step : Step → Option State
  | .prefetch reply => s.pending.bind (s.prefetch host · reply)
  | .link module specifier =>
    match s.pending, s.modules[module]? with
    | none, some m =>
      if specifier ∈ m.requests then
        -- `module_resolve_callback`
        match s.moduleNames.get (host.identityHash module) with
        | some referrerName => some (s.request host specifier m.resourceName referrerName)
        | none => some s
      else none
    | _, _ => none
  | .dynamicImport resourceName specifier =>
    if s.pending = none then some (s.request host specifier resourceName resourceName) else none

end State

/-- `execute_module`, when the entry module has been compiled. -/
def executeModule (host : Host) (entry : String) (requests : List String) : State where
  toModuleResolveState :=
    (ModuleResolveState.mk [] .empty .empty).compile host entry requests
  pending := some [(0, entry)]
  linked := []

/-! ### One instance for each path -/

/-- A request is given the instance of the path it is resolved to, the only one. -/
structure OneInstance (host : Host) (s : State) : Prop where
  once : (s.modules.map (·.resourceName)).Nodup
  given : ∀ l ∈ s.linked, ∃ m, s.modules[l.target]? = some m ∧
    host.resolve l.specifier l.referrer = some m.resourceName

/-- The name can be told from a request in a key. -/
def Plain (name : String) : Prop := Char.ofNat 0 ∉ name.toList

/-- A path that is not that of the entry module. -/
structure Proper (entry path : String) : Prop where
  other : path ≠ entry
  plain : Plain path

/-- No two modules have one hash. -/
def HashesDiffer (host : Host) (s : State) : Prop :=
  ∀ i j, i < s.modules.length → j < s.modules.length → host.identityHash i = host.identityHash j →
    i = j

/-- The step resolves no request to the entry module. -/
def Step.Proper (host : Host) (entry : String) (s : State) : Step → Prop
  | .prefetch reply => ∀ results, reply = some results → ∀ r ∈ results, ∀ answer, r = some answer →
    Execution.Proper entry answer.1
  | .link module specifier => ∀ m, s.modules[module]? = some m →
    ∀ path, host.resolve specifier m.resourceName = some path → Execution.Proper entry path
  | .dynamicImport resourceName specifier => Plain resourceName ∧
    ∀ path, host.resolve specifier resourceName = some path → Execution.Proper entry path

/-- The condition on the steps. -/
def Apart (host : Host) (entry : String) (s : State) (a : Step) : Prop :=
  HashesDiffer host s ∧ a.Proper host entry s

/-! ### Keys -/

theorem toList_key (specifier referrerName : String) :
    (moduleRequestCacheKey specifier referrerName).toList =
      referrerName.toList ++ Char.ofNat 0 :: specifier.toList := by
  rw [moduleRequestCacheKey, String.toList_append, String.toList_append, List.append_assoc]
  rfl

/-- What is before the first null. -/
theorem takeWhile_key {r : String} (hr : Plain r) (s : String) :
    (moduleRequestCacheKey s r).toList.takeWhile (· ≠ Char.ofNat 0) = r.toList := by
  rw [toList_key, List.takeWhile_append_of_pos]
  · rw [List.takeWhile_cons_of_neg (by simp), List.append_nil]
  · intro c hc
    have hne : c ≠ Char.ofNat 0 := fun he => hr (he ▸ hc)
    simpa using hne

theorem key_inj {r r' s s' : String} (hr : Plain r) (hr' : Plain r')
    (h : moduleRequestCacheKey s r = moduleRequestCacheKey s' r') : s = s' ∧ r = r' := by
  have hlist : r.toList = r'.toList := by
    rw [← takeWhile_key hr s, h, takeWhile_key hr']
  refine ⟨?_, String.toList_inj.mp hlist⟩
  have hkey := congrArg String.toList h
  rw [toList_key, toList_key, hlist] at hkey
  exact String.toList_inj.mp (List.cons.inj (List.append_cancel_left hkey)).2

theorem key_ne_plain {p : String} (hp : Plain p) (s r : String) : moduleRequestCacheKey s r ≠ p := by
  rintro rfl
  refine hp ?_
  rw [toList_key]
  exact List.mem_append_right _ List.mem_cons_self

/-! ### The maps -/

/-- Both kinds of keys lead to the instance of a path, and every module but the entry is kept under
its path. -/
structure Cached (host : Host) (entry : String) (s : ModuleResolveState) : Prop where
  plain : ∀ m ∈ s.modules, Plain m.resourceName
  once : (s.modules.map (·.resourceName)).Nodup
  paths : ∀ p i, Plain p → s.moduleCache.get p = some i →
    ∃ m, s.modules[i]? = some m ∧ m.resourceName = p
  requests : ∀ specifier referrer i, Plain referrer →
    s.moduleCache.get (moduleRequestCacheKey specifier referrer) = some i →
      ∃ m, s.modules[i]? = some m ∧ host.resolve specifier referrer = some m.resourceName
  kept : ∀ m ∈ s.modules, m.resourceName ≠ entry → s.moduleCache.get m.resourceName ≠ none
  names : ∀ h name, s.moduleNames.get h = some name →
    ∃ i m, s.modules[i]? = some m ∧ host.identityHash i = h ∧ m.resourceName = name

variable {host : Host} {entry : String} {s s' : ModuleResolveState} {specifier referrer path : String}
  {requests : List String}

/-- A module is where it was when others have come. -/
theorem getElem?_of_prefix {α : Type} {l l' : List α} (h : l <+: l') {i : Nat} {a : α}
    (ha : l[i]? = some a) : l'[i]? = some a := by
  obtain ⟨t, rfl⟩ := h
  rw [List.getElem?_append_left (List.getElem?_eq_some_iff.mp ha).1, ha]

/-- **A module for a path that has none**, kept under the path and the request. -/
theorem Cached.add (h : Cached host entry s) (hreferrer : Plain referrer)
    (hpath : Proper entry path) (hnew : s.moduleCache.get path = none)
    (hresolve : host.resolve specifier referrer = some path)
    (hmodules : s'.modules = s.modules ++ [⟨path, requests⟩])
    (hnames : s'.moduleNames = s.moduleNames.set (host.identityHash s.modules.length) path)
    (hcache : ∀ key, s'.moduleCache.get key =
      if key = path ∨ key = moduleRequestCacheKey specifier referrer then some s.modules.length
      else s.moduleCache.get key) : Cached host entry s' := by
  have hlast : s'.modules[s.modules.length]? = some ⟨path, requests⟩ := by
    rw [hmodules, List.getElem?_concat_length]
  have hpre : s.modules <+: s'.modules := hmodules ▸ List.prefix_append ..
  have hfresh : path ∉ s.modules.map (·.resourceName) := by
    intro hmem
    obtain ⟨m, hm, rfl⟩ := List.mem_map.mp hmem
    exact h.kept m hm hpath.other hnew
  constructor
  case plain =>
    intro m hm
    rw [hmodules] at hm
    rcases List.mem_append.mp hm with hm | hm
    · exact h.plain m hm
    · rw [List.mem_singleton.mp hm]
      exact hpath.plain
  case once =>
    rw [hmodules, List.map_append, List.nodup_append]
    refine ⟨h.once, List.nodup_singleton _, ?_⟩
    rintro _ ha _ hb rfl
    rw [List.map_cons, List.map_nil, List.mem_singleton] at hb
    subst hb
    exact hfresh ha
  case paths =>
    intro p i hp hget
    rw [hcache] at hget
    split at hget
    · rename_i hkey
      cases hget
      rcases hkey with rfl | hkey
      · exact ⟨_, hlast, rfl⟩
      · exact (key_ne_plain hp _ _ hkey.symm).elim
    · obtain ⟨m, hm, he⟩ := h.paths p i hp hget
      exact ⟨m, getElem?_of_prefix hpre hm, he⟩
  case requests =>
    intro spec ref i href hget
    rw [hcache] at hget
    split at hget
    · rename_i hkey
      cases hget
      rcases hkey with hkey | hkey
      · exact (key_ne_plain hpath.plain _ _ hkey).elim
      · obtain ⟨rfl, rfl⟩ := key_inj href hreferrer hkey
        exact ⟨_, hlast, hresolve⟩
    · obtain ⟨m, hm, he⟩ := h.requests spec ref i href hget
      exact ⟨m, getElem?_of_prefix hpre hm, he⟩
  case kept =>
    intro m hm hne
    rw [hcache]
    split
    · exact Option.some_ne_none _
    · rename_i hkey
      rw [hmodules] at hm
      rcases List.mem_append.mp hm with hm | hm
      · exact h.kept m hm hne
      · rw [List.mem_singleton.mp hm] at hkey
        exact (hkey (.inl rfl)).elim
  case names =>
    intro k name hget
    rw [hnames, OMap.get_set] at hget
    split at hget
    · rename_i hk
      cases hget
      exact ⟨_, _, hlast, hk.symm, rfl⟩
    · obtain ⟨i, m, hm, hh, hname⟩ := h.names k name hget
      exact ⟨i, m, getElem?_of_prefix hpre hm, hh, hname⟩

theorem get_set_set (c : OMap String Nat) (a b key : String) (v : Nat) :
    ((c.set b v).set a v).get key = if key = a ∨ key = b then some v else c.get key := by
  rw [OMap.get_set, OMap.get_set]
  by_cases ha : key = a
  · simp [ha]
  · simp [ha]

/-- **One request**: an instance of the path it is resolved to, or none. -/
theorem Cached.resolveOrCompile (h : Cached host entry s) (hreferrer : Plain referrer)
    (hproper : ∀ path, host.resolve specifier referrer = some path → Proper entry path) :
    Cached host entry (s.resolveOrCompileModule host specifier referrer).2 ∧
      s.modules <+: (s.resolveOrCompileModule host specifier referrer).2.modules ∧
        ∀ i, (s.resolveOrCompileModule host specifier referrer).1 = some i →
          ∃ m, (s.resolveOrCompileModule host specifier referrer).2.modules[i]? = some m ∧
            host.resolve specifier referrer = some m.resourceName := by
  rw [ModuleResolveState.resolveOrCompileModule]
  dsimp only
  split
  · rename_i module hkey
    refine ⟨h, List.prefix_refl _, ?_⟩
    rintro _ ⟨⟩
    exact h.requests _ _ _ hreferrer hkey
  · split
    · exact ⟨h, List.prefix_refl _, fun _ hi => nomatch hi⟩
    · rename_i path hresolve
      have hpath := hproper path hresolve
      split
      · rename_i module hkey
        refine ⟨h, List.prefix_refl _, ?_⟩
        rintro _ ⟨⟩
        obtain ⟨m, hm, rfl⟩ := h.paths path _ hpath.plain hkey
        exact ⟨m, hm, hresolve⟩
      · rename_i hnew
        split
        · exact ⟨h, List.prefix_refl _, fun _ hi => nomatch hi⟩
        · rename_i requests hcompile
          refine ⟨h.add hreferrer hpath hnew hresolve rfl rfl fun key => ?_, List.prefix_append .., ?_⟩
          · exact get_set_set s.moduleCache path (moduleRequestCacheKey specifier referrer) key _
          · rintro _ ⟨⟩
            exact ⟨_, List.getElem?_concat_length .., hresolve⟩

/-! ### Batches -/

/-- The requests of a batch are those of modules that it starts from. -/
theorem mem_batch {pending : List (Nat × String)} {request : String × String}
    (h : request ∈ s.batch pending) : ∃ p ∈ pending, p.2 = request.2 := by
  have hfold : ∀ (l batch : List (String × String)), request ∈ l.foldl
      (fun batch request => if request ∈ batch then batch else batch ++ [request]) batch →
        request ∈ batch ∨ request ∈ l := by
    intro l
    induction l with
    | nil => exact fun batch h => .inl h
    | cons a l ih =>
        intro batch h
        rcases ih _ h with h | h
        · dsimp only at h
          split at h
          · exact .inl h
          · rcases List.mem_append.mp h with h | h
            · exact .inl h
            · exact .inr (List.mem_singleton.mp h ▸ List.mem_cons_self)
        · exact .inr (List.mem_cons_of_mem _ h)
  rcases hfold _ _ h with h | h
  · exact (List.not_mem_nil h).elim
  · obtain ⟨p, hp, h⟩ := List.mem_flatMap.mp h
    obtain ⟨specifier, -, h⟩ := List.mem_filterMap.mp h
    split at h
    · cases h
    · cases h
      exact ⟨p, hp, rfl⟩

/-- What holds of the state and the next level while the results of a batch are taken. -/
structure Fetched (host : Host) (entry : String) (s : ModuleResolveState)
    (r : ModuleResolveState × List (Nat × String)) : Prop where
  cached : Cached host entry r.1
  grows : s.modules <+: r.1.modules
  plain : ∀ p ∈ r.2, Plain p.2

/-- One result. -/
theorem Fetched.cacheResult {r : ModuleResolveState × List (Nat × String)}
    (h : Fetched host entry s r) {result : (String × String) × Option (String × String)}
    (hreferrer : Plain result.1.2)
    (hanswer : ∀ answer, result.2 = some answer →
      host.resolve result.1.1 result.1.2 = some answer.1 ∧ Proper entry answer.1) :
    Fetched host entry s (ModuleResolveState.cacheResult host r result) := by
  rw [ModuleResolveState.cacheResult]
  split
  · exact h
  · rename_i path sourceCode hresult
    obtain ⟨hresolve, hpath⟩ := hanswer _ hresult
    split
    · exact h
    · rename_i hnew
      split
      · exact h
      · rename_i requests hcompile
        have hnone : r.1.moduleCache.get path = none := by
          simpa [OMap.has] using hnew
        refine ⟨h.cached.add hreferrer hpath hnone hresolve rfl rfl fun key => ?_,
          h.grows.trans (List.prefix_append ..), fun p hp => ?_⟩
        · refine (get_set_set r.1.moduleCache _ path key _).trans ?_
          simp only [or_comm]
        · rcases List.mem_append.mp hp with hp | hp
          · exact h.plain p hp
          · rw [List.mem_singleton.mp hp]
            exact hpath.plain

theorem Fetched.all {results : List ((String × String) × Option (String × String))} :
    ∀ {r : ModuleResolveState × List (Nat × String)}, Fetched host entry s r →
      (∀ result ∈ results, Plain result.1.2 ∧ ∀ answer, result.2 = some answer →
        host.resolve result.1.1 result.1.2 = some answer.1 ∧ Proper entry answer.1) →
      Fetched host entry s (results.foldl (ModuleResolveState.cacheResult host) r) := by
  induction results with
  | nil => exact fun h _ => h
  | cons result results ih =>
      intro r h hall
      obtain ⟨hreferrer, hanswer⟩ := hall result List.mem_cons_self
      exact ih (h.cacheResult hreferrer hanswer) fun x hx => hall x (List.mem_cons_of_mem _ hx)

/-! ### Runs -/

/-- What holds in every state that is reached. -/
structure Good (host : Host) (entry : String) (s : State) : Prop where
  cached : Cached host entry s.toModuleResolveState
  plain : ∀ pending, s.pending = some pending → ∀ p ∈ pending, Plain p.2
  given : ∀ l ∈ s.linked, ∃ m, s.modules[l.target]? = some m ∧
    host.resolve l.specifier l.referrer = some m.resourceName

theorem Good.start (hentry : Plain entry) : Good host entry (executeModule host entry requests) where
  cached := by
    constructor
    case plain =>
      intro m hm
      rw [List.mem_singleton.mp hm]
      exact hentry
    case once => exact List.nodup_singleton _
    case paths => exact fun _ _ _ h => nomatch h
    case requests => exact fun _ _ _ _ h => nomatch h
    case kept =>
      intro m hm hne
      rw [List.mem_singleton.mp hm] at hne
      exact (hne rfl).elim
    case names =>
      intro k name hget
      rw [executeModule, ModuleResolveState.compile, OMap.get_set] at hget
      split at hget
      · rename_i hk
        cases hget
        exact ⟨0, _, rfl, hk.symm, rfl⟩
      · cases hget
  plain := by
    rintro _ ⟨⟩ p hp
    rw [List.mem_singleton.mp hp]
    exact hentry
  given := fun _ h => nomatch h

variable {t t' : State}

section

variable (h : Good host entry t)
include h

theorem Good.request (hpending : t.pending = none)
    (hreferrer : Plain referrer)
    (hproper : ∀ path, host.resolve specifier referrer = some path → Proper entry path) :
    Good host entry (t.request host specifier referrer referrer) := by
  obtain ⟨hcached, hgrows, htarget⟩ := h.cached.resolveOrCompile hreferrer hproper
  refine ⟨hcached, fun pending hp => ?_, fun l hl => ?_⟩
  · rw [State.request, hpending] at hp
    cases hp
  · rcases List.mem_append.mp hl with hl | hl
    · obtain ⟨m, hm, hresolve⟩ := h.given l hl
      exact ⟨m, getElem?_of_prefix hgrows hm, hresolve⟩
    · obtain ⟨i, hi, rfl⟩ := List.mem_map.mp hl
      exact htarget i (Option.mem_toList.mp hi)

theorem Good.prefetch {pending : List (Nat × String)}
    (hpending : t.pending = some pending) {reply : Option (List (Option (String × String)))}
    (hproper : ∀ results, reply = some results → ∀ r ∈ results, ∀ answer, r = some answer →
      Proper entry answer.1)
    (hs : t.prefetch host pending reply = some t') : Good host entry t' := by
  unfold State.prefetch at hs
  dsimp only at hs
  split at hs
  · cases hs
    exact ⟨h.cached, fun _ hp => (nomatch hp), h.given⟩
  · split at hs
    · cases hs
      exact ⟨h.cached, fun _ hp => (nomatch hp), h.given⟩
    · rename_i results
      split at hs
      · rename_i hanswers
        cases hs
        have hall : ∀ result ∈ (t.batch pending).zip results, Plain result.1.2 ∧
            ∀ answer, result.2 = some answer →
              host.resolve result.1.1 result.1.2 = some answer.1 ∧ Proper entry answer.1 := by
          intro result hmem
          obtain ⟨p, hp, heq⟩ := mem_batch (List.of_mem_zip hmem).1
          refine ⟨heq ▸ h.plain pending hpending p hp, fun answer ha => ?_⟩
          exact ⟨hanswers result hmem answer ha,
            hproper results rfl _ (List.of_mem_zip hmem).2 answer ha⟩
        have hf := Fetched.all (s := t.toModuleResolveState) (r := (t.toModuleResolveState, []))
          ⟨h.cached, List.prefix_refl _, fun _ hp => nomatch hp⟩ hall
        refine ⟨hf.cached, fun next hn p hp => ?_, fun l hl => ?_⟩
        · dsimp only at hn
          split at hn
          · cases hn
          · cases hn
            exact hf.plain p hp
        · obtain ⟨m, hm, hresolve⟩ := h.given l hl
          exact ⟨m, getElem?_of_prefix hf.grows hm, hresolve⟩
      · cases hs

/-- The name that a module is known under is its own. -/
theorem Good.name (hhashes : HashesDiffer host t) {i : Nat} {m : Module}
    (hm : t.modules[i]? = some m) {name : String}
    (hname : t.moduleNames.get (host.identityHash i) = some name) : name = m.resourceName := by
  obtain ⟨j, m', hm', hhash, rfl⟩ := h.cached.names _ _ hname
  obtain rfl := hhashes j i (List.getElem?_eq_some_iff.mp hm').1 (List.getElem?_eq_some_iff.mp hm).1
    hhash
  exact congrArg _ (Option.some.inj (hm'.symm.trans hm))

/-- **One step.** -/
theorem Good.step {a : Step} (ha : Apart host entry t a)
    (hs : t.step host a = some t') : Good host entry t' := by
  obtain ⟨hhashes, hproper⟩ := ha
  cases a with
  | prefetch reply =>
      obtain ⟨pending, hpending, hs⟩ := Option.bind_eq_some_iff.mp hs
      exact h.prefetch hpending hproper hs
  | link module specifier =>
      rw [State.step] at hs
      split at hs
      · rename_i m hpending hm
        split at hs
        · split at hs
          · rename_i referrerName hname
            cases hs
            obtain rfl := h.name hhashes hm hname
            exact h.request hpending (h.cached.plain m (List.mem_of_getElem? hm)) (hproper m hm)
          · cases hs
            exact h
        · cases hs
      · cases hs
  | dynamicImport resourceName specifier =>
      rw [State.step] at hs
      split at hs
      · rename_i hpending
        cases hs
        exact h.request hpending hproper.1 hproper.2
      · cases hs

end

/-- **One instance for each path.**  In every run that resolves no request to the entry module, a
path has one instance at most, a request that was given an instance has that of its path, and so
requests for one path share it. -/
theorem instances_shared (hentry : Plain entry)
    (r : Reach (State.step host) (Apart host entry) (executeModule host entry requests) t) :
    OneInstance host t ∧ ∀ l ∈ t.linked, ∀ path, host.resolve l.specifier l.referrer = some path →
      (t.modules.map (·.resourceName)).count path = 1 ∧
        ∀ l' ∈ t.linked, host.resolve l'.specifier l'.referrer = some path →
          l'.target = l.target := by
  have h : Good host entry t :=
    r.invariant (.start hentry) fun _ _ _ hg ha hs => hg.step ha hs
  refine ⟨⟨h.cached.once, h.given⟩, fun l hl path hpath => ?_⟩
  obtain ⟨m, hm, hresolve⟩ := h.given l hl
  obtain rfl := Option.some.inj (hresolve.symm.trans hpath)
  refine ⟨List.count_eq_one_of_mem h.cached.once ?_, fun l' hl' hpath' => ?_⟩
  · exact List.mem_map.mpr ⟨m, List.mem_of_getElem? hm, rfl⟩
  · obtain ⟨m', hm', hresolve'⟩ := h.given l' hl'
    have hname := Option.some.inj (hresolve'.symm.trans hpath')
    refine (List.getElem?_inj ?_ h.cached.once).mp ?_
    · rw [List.length_map]
      exact (List.getElem?_eq_some_iff.mp hm').1
    · rw [List.getElem?_map, List.getElem?_map, hm', hm]
      exact congrArg some hname

/-! ### Two graphs -/

/-- `/main.js` imports `a` and `b`, which both import `c`. -/
def diamond : Host where
  resolve specifier _ := ["/a.js", "/b.js", "/c.js"].find? (· = specifier)
  load _ := some ""
  compile path _ := some (if path = "/main.js" then ["/a.js", "/b.js"]
    else if path = "/c.js" then [] else ["/c.js"])
  identityHash i := i + 1

/-- One batch, then `c` is linked on demand. -/
def diamondRun : List Step :=
  [.prefetch (some [some ("/a.js", ""), some ("/b.js", "")]), .prefetch none,
    .link 0 "/a.js", .link 0 "/b.js", .link 2 "/c.js", .link 1 "/c.js"]

/-- A step that names the three modules only. -/
def Step.Plain : Step → Bool
  | .prefetch reply => reply.all (·.all (·.all (·.1 ∈ ["/a.js", "/b.js", "/c.js"])))
  | .link _ _ => true
  | .dynamicImport _ _ => false

theorem proper_diamond (h : path ∈ ["/a.js", "/b.js", "/c.js"]) :
    Proper "/main.js" path := by
  have hall : ∀ p ∈ ["/a.js", "/b.js", "/c.js"], p ≠ "/main.js" ∧ Char.ofNat 0 ∉ p.toList := by
    decide
  exact ⟨(hall path h).1, (hall path h).2⟩

theorem apart_diamond (s : State) (a : Step) (ha : a.Plain = true) :
    Apart diamond "/main.js" s a := by
  refine ⟨fun i j _ _ h => Nat.succ.inj h, ?_⟩
  cases a with
  | prefetch reply =>
      rintro results rfl r hr ⟨path, source⟩ rfl
      simp only [Step.Plain, Option.all_some, List.all_eq_true] at ha
      exact proper_diamond (by simpa using ha _ hr)
  | link module specifier =>
      intro m _ path hpath
      have hfind : ["/a.js", "/b.js", "/c.js"].find? (fun p => decide (p = specifier)) = some path :=
        hpath
      exact proper_diamond (List.mem_of_find?_eq_some hfind)
  | dynamicImport resourceName specifier => cases ha

/-- Both imports of `c` are given one instance. -/
theorem instances_shared_diamond : ∃ t, Reach (State.step diamond) (Apart diamond "/main.js")
      (executeModule diamond "/main.js" ["/a.js", "/b.js"]) t ∧
    t.linked.map (·.target) = [1, 2, 3, 3] ∧ OneInstance diamond t := by
  obtain ⟨t, ht, hlinked⟩ := Reach.exists_of_execIf (State.step diamond) (fun _ a => a.Plain = true)
    (executeModule diamond "/main.js" ["/a.js", "/b.js"]) diamondRun
    (P := fun t => t.linked.map (·.target) = [1, 2, 3, 3]) (by decide +kernel)
  have r := ht.mono apart_diamond
  have hentry : Plain "/main.js" := by
    rw [Plain]
    decide
  exact ⟨t, r, hlinked, (instances_shared hentry r).1⟩

/-- `/main.js` imports `/a.js`, which imports `/main.js`. -/
def cycle : Host where
  resolve specifier _ := some specifier
  load _ := some ""
  compile path _ := some (if path = "/main.js" then ["/a.js"] else ["/main.js"])
  identityHash i := i + 1

/-- The entry module is compiled a second time. -/
theorem entry_twice : ¬ ∀ t, Reach (State.step cycle) Any
    (executeModule cycle "/main.js" ["/a.js"]) t → OneInstance cycle t := by
  intro hall
  obtain ⟨t, ht, hmodules⟩ := Reach.exists_of_exec (State.step cycle)
    (executeModule cycle "/main.js" ["/a.js"]) [.prefetch none, .link 0 "/a.js", .link 1 "/main.js"]
    (P := fun t => t.modules.map (·.resourceName) = ["/main.js", "/a.js", "/main.js"])
    (by decide +kernel)
  have honce := (hall t ht).once
  rw [hmodules] at honce
  revert honce
  decide

end Execution
