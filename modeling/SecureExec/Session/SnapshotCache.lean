import SecureExec.Lib.Lts
import SecureExec.Lib.OMap
import SecureExec.Lib.Recency

/-!
# Session — SnapshotCache — callers that share the snapshots

`SnapshotCache` of `snapshot.rs`, with the threads that call it.  A call takes the lock of the cache
to look its key up, creates a snapshot with no lock held, and takes the lock again to store it; the
other callers for the same key sleep until then.  Each of these critical sections is one step, and
they interleave in any order.

* `Coherent`: what holds in every reachable state.
* `Flights`: the creations that are in progress, and who waits for them.
* `cache_coherent`: every run is coherent, when its bridge codes have distinct hashes.
-/

namespace SnapshotCache
open Lts Recency

/-! ### The cache -/

structure CacheEntry (β : Type) where
  bridgeHash : UInt64
  blob : β

/-- `in_flight` holds the addresses of `InFlightEntry` objects. -/
structure CacheInner (β : Type) where
  entries : List (CacheEntry β)
  inFlight : OMap UInt64 Nat

/-- Where a thread is in `get_or_create`. -/
inductive Phase (β : Type) where
  | idle
  /-- The loop on the condition variable; `asleep` threads run when they are notified. -/
  | waiting (bridgeCode : String) (entry : Nat) (asleep : Bool)
  | creating (bridgeCode : String)
  | publishing (bridgeCode : String) (result : Except String β)

structure State (τ β : Type) where
  inner : CacheInner β
  /-- `result` of every `InFlightEntry`, by address. -/
  results : List (Option (Except String β))
  threads : τ → Phase β

/-- What a step reports; history only. -/
inductive Note (τ β : Type) where
  | called (t : τ) (bridgeCode : String)
  | created (t : τ) (bridgeCode : String) (result : Except String β)
  /-- An entry was read or stored. -/
  | used (hash : UInt64)
  | returned (t : τ) (bridgeCode : String) (result : Except String β)

/-- `SnapshotCache::new`, with no caller. -/
def State.new {τ β : Type} : State τ β where
  inner := ⟨[], .empty⟩
  results := []
  threads _ := .idle

inductive Event (τ β : Type) where
  | call (t : τ) (bridgeCode : String)
  /-- `create_snapshot` returns. -/
  | created (t : τ) (result : Except String β)
  | publish (t : τ)
  /-- A waiting thread holds the lock of the result and looks at it. -/
  | look (t : τ)
  /-- A thread wakes up with no notification. -/
  | wake (t : τ)

section

variable {τ β : Type} [DecidableEq τ]

namespace State

def goto (s : State τ β) (t : τ) (p : Phase β) : State τ β :=
  { s with threads := Function.update s.threads t p }

@[simp] theorem goto_self (s : State τ β) (t : τ) (p : Phase β) : (s.goto t p).threads t = p :=
  Function.update_self _ _ _

theorem goto_other {s : State τ β} {t t' : τ} {p : Phase β} (h : t' ≠ t) :
    (s.goto t p).threads t' = s.threads t' :=
  Function.update_of_ne h _ _

omit [DecidableEq τ] in
/-- `done.notify_all()` -/
def notifyAll (threads : τ → Phase β) (entry : Nat) (t : τ) : Phase β :=
  match threads t with
  | .waiting bridgeCode e asleep =>
    .waiting bridgeCode e (if e = entry then false else asleep)
  | p => p

/-- Phase 1: a hit moves the entry to the end; otherwise the thread waits or creates. -/
def lookup (siphash : String → UInt64) (s : State τ β) (t : τ) (bridgeCode : String) :
    State τ β × List (Note τ β) :=
  let hash := siphash bridgeCode
  match s.inner.entries.find? (·.bridgeHash == hash) with
  | some entry =>
    ({ s with
        inner.entries := s.inner.entries.eraseP (·.bridgeHash == hash) ++ [entry] },
      [.called t bridgeCode, .used hash, .returned t bridgeCode (.ok entry.blob)])
  | none =>
    match s.inner.inFlight.get hash with
    | some entry => (s.goto t (.waiting bridgeCode entry false), [.called t bridgeCode])
    | none =>
      ({ s with
          inner.inFlight := s.inner.inFlight.set hash s.results.length
          results := s.results ++ [none] }.goto t (.creating bridgeCode),
        [.called t bridgeCode])

end State

/-- The entries after a creation; `remove(0)` panics when there is none. -/
def store (maxEntries : Nat) (entries : List (CacheEntry β)) (hash : UInt64) :
    Except String β → Option (List (CacheEntry β))
  | .error _ => some entries
  | .ok blob =>
    if entries.length ≥ maxEntries then
      match entries with
      | [] => none
      | _ :: rest => some (rest ++ [⟨hash, blob⟩])
    else some (entries ++ [⟨hash, blob⟩])

/-- What is reported of the entries when a creation is stored. -/
def stored {τ : Type} (hash : UInt64) : Except String β → List (Note τ β)
  | .ok _ => [.used hash]
  | .error _ => []

/-- Phase 3: the result is stored and published. -/
def State.publish (maxEntries : Nat) (siphash : String → UInt64) (s : State τ β) (t : τ)
    (bridgeCode : String) (result : Except String β) : Option (State τ β × List (Note τ β)) :=
  let hash := siphash bridgeCode
  match store maxEntries s.inner.entries hash result with
  | none => none
  | some entries =>
    let s' : State τ β :=
      match s.inner.inFlight.get hash with
      | some entry =>
        { inner := ⟨entries, s.inner.inFlight.delete hash⟩
          results := s.results.set entry (some result)
          threads := notifyAll s.threads entry }
      | none => { s with inner.entries := entries }
    some (s'.goto t .idle, stored hash result ++ [.returned t bridgeCode result])

def step (maxEntries : Nat) (siphash : String → UInt64) (s : State τ β) :
    Event τ β → Option (State τ β × List (Note τ β))
  | .call t bridgeCode =>
    match s.threads t with
    | .idle => some (s.lookup siphash t bridgeCode)
    | _ => none
  | .created t result =>
    match s.threads t with
    | .creating bridgeCode =>
      some (s.goto t (.publishing bridgeCode result), [.created t bridgeCode result])
    | _ => none
  | .publish t =>
    match s.threads t with
    | .publishing bridgeCode result => s.publish maxEntries siphash t bridgeCode result
    | _ => none
  | .look t =>
    match s.threads t with
    | .waiting bridgeCode entry false =>
      match s.results[entry]? with
      | some (some result) => some (s.goto t .idle, [.returned t bridgeCode result])
      | some none => some (s.goto t (.waiting bridgeCode entry true), [])
      | none => none
    | _ => none
  | .wake t =>
    match s.threads t with
    | .waiting bridgeCode entry true => some (s.goto t (.waiting bridgeCode entry false), [])
    | _ => none

end

/-! ### The property -/

section

variable {τ β : Type}

/-- The bridge code whose snapshot a thread creates. -/
def Phase.creates : Phase β → Option String
  | .creating bridgeCode => some bridgeCode
  | .publishing bridgeCode _ => some bridgeCode
  | _ => none

def asked (log : List (Note τ β)) : List String :=
  log.filterMap fun
    | .called _ bridgeCode => some bridgeCode
    | _ => none

def uses (log : List (Note τ β)) : List UInt64 :=
  log.filterMap fun
    | .used hash => some hash
    | _ => none

def hashes (entries : List (CacheEntry β)) : List UInt64 := entries.map CacheEntry.bridgeHash

/-- What holds of the cache, its callers, and the history. -/
structure Coherent [DecidableEq τ] (maxEntries : Nat) (siphash : String → UInt64) (s : State τ β)
    (log : List (Note τ β)) : Prop where
  distinct : (hashes s.inner.entries).Nodup
  bounded : s.inner.entries.length ≤ maxEntries
  /-- At most one creation per hash is in progress. -/
  single : ∀ t t' bridgeCode bridgeCode', (s.threads t).creates = some bridgeCode →
    (s.threads t').creates = some bridgeCode' → siphash bridgeCode = siphash bridgeCode' → t = t'
  /-- A caller that succeeds gets the blob made from its own bridge code. -/
  own : ∀ t bridgeCode blob, .returned t bridgeCode (.ok blob) ∈ log →
    ∃ t', .created t' bridgeCode (.ok blob) ∈ log
  /-- A step removes only the entry that was not used for the longest time. -/
  evicts : ∀ e s' ns, step maxEntries siphash s e = some (s', ns) → ∀ entry ∈ s.inner.entries,
    entry ∉ s'.inner.entries → ∀ other ∈ s.inner.entries,
      other.bridgeHash ≠ entry.bridgeHash →
        Since (uses log) entry.bridgeHash other.bridgeHash
  /-- A caller waits for a creation in progress, or it runs and finds the result. -/
  waits : ∀ t bridgeCode entry asleep, s.threads t = .waiting bridgeCode entry asleep →
    (s.inner.inFlight.get (siphash bridgeCode) = some entry ∧
        ∃ t', (s.threads t').creates = some bridgeCode) ∨
      asleep = false ∧ ∃ result, step maxEntries siphash s (.look t) =
        some (s.goto t .idle, [.returned t bridgeCode result])
  /-- A creator can always publish what it made. -/
  finishes : ∀ t bridgeCode result, s.threads t = .publishing bridgeCode result →
    (step maxEntries siphash s (.publish t)).isSome

end

/-! ### What a step does -/

section

variable {τ β : Type} [DecidableEq τ] {maxEntries : Nat} {siphash : String → UInt64}
  {s : State τ β} {log : List (Note τ β)}

/-- Everything a step can do. -/
inductive Does (maxEntries : Nat) (siphash : String → UInt64) (s : State τ β) :
    State τ β × List (Note τ β) → Prop where
  | hit {t : τ} {bridgeCode : String} {entry : CacheEntry β} (ht : s.threads t = .idle)
      (hfind : s.inner.entries.find? (·.bridgeHash == siphash bridgeCode) = some entry) :
      Does maxEntries siphash s
        ({ s with inner.entries :=
            s.inner.entries.eraseP (·.bridgeHash == siphash bridgeCode) ++ [entry] },
          [.called t bridgeCode, .used (siphash bridgeCode),
            .returned t bridgeCode (.ok entry.blob)])
  | joins {t : τ} {bridgeCode : String} {entry : Nat} (ht : s.threads t = .idle)
      (hflight : s.inner.inFlight.get (siphash bridgeCode) = some entry) :
      Does maxEntries siphash s
        (s.goto t (.waiting bridgeCode entry false), [.called t bridgeCode])
  | claims {t : τ} {bridgeCode : String} (ht : s.threads t = .idle)
      (hnew : siphash bridgeCode ∉ hashes s.inner.entries)
      (hflight : s.inner.inFlight.get (siphash bridgeCode) = none) :
      Does maxEntries siphash s
        ({ s with
            inner.inFlight := s.inner.inFlight.set (siphash bridgeCode) s.results.length
            results := s.results ++ [none] }.goto t (.creating bridgeCode),
          [.called t bridgeCode])
  | created {t : τ} {bridgeCode : String} {result : Except String β}
      (ht : s.threads t = .creating bridgeCode) :
      Does maxEntries siphash s
        (s.goto t (.publishing bridgeCode result), [.created t bridgeCode result])
  | publishes {t : τ} {bridgeCode : String} {result : Except String β}
      {r : State τ β × List (Note τ β)} (ht : s.threads t = .publishing bridgeCode result)
      (h : s.publish maxEntries siphash t bridgeCode result = some r) : Does maxEntries siphash s r
  | returns {t : τ} {bridgeCode : String} {entry : Nat} {result : Except String β}
      (ht : s.threads t = .waiting bridgeCode entry false)
      (hr : s.results[entry]? = some (some result)) :
      Does maxEntries siphash s (s.goto t .idle, [.returned t bridgeCode result])
  | sleeps {t : τ} {bridgeCode : String} {entry : Nat}
      (ht : s.threads t = .waiting bridgeCode entry false)
      (hr : s.results[entry]? = some none) :
      Does maxEntries siphash s (s.goto t (.waiting bridgeCode entry true), [])
  | wakes {t : τ} {bridgeCode : String} {entry : Nat}
      (ht : s.threads t = .waiting bridgeCode entry true) :
      Does maxEntries siphash s (s.goto t (.waiting bridgeCode entry false), [])

theorem step_does {e : Event τ β} {r : State τ β × List (Note τ β)}
    (h : step maxEntries siphash s e = some r) : Does maxEntries siphash s r := by
  cases e with
  | call t bridgeCode =>
      simp only [step] at h
      split at h
      · rename_i ht
        simp only [State.lookup, Option.some.injEq] at h
        split at h
        · rename_i entry hfind
          subst h
          exact .hit ht hfind
        · rename_i hfind
          split at h
          · rename_i entry hflight
            subst h
            exact .joins ht hflight
          · rename_i hflight
            subst h
            refine .claims ht ?_ hflight
            intro hmem
            obtain ⟨entry, hentry, heq⟩ := List.mem_map.mp hmem
            have hno := List.find?_eq_none.mp hfind entry hentry
            exact hno (beq_iff_eq.mpr heq)
      · cases h
  | created t result =>
      simp only [step] at h
      split at h
      · rename_i bridgeCode ht
        cases h
        exact .created ht
      · cases h
  | publish t =>
      simp only [step] at h
      split at h
      · rename_i bridgeCode result ht
        exact .publishes ht h
      · cases h
  | look t =>
      simp only [step] at h
      split at h
      · rename_i bridgeCode entry ht
        split at h
        · rename_i result hr
          cases h
          exact .returns ht hr
        · rename_i hr
          cases h
          exact .sleeps ht hr
        · cases h
      · cases h
  | wake t =>
      simp only [step] at h
      split at h
      · rename_i bridgeCode entry ht
        cases h
        exact .wakes ht
      · cases h

end

/-! ### The entries -/

section

variable {τ β : Type} {siphash : String → UInt64} {log ns : List (Note τ β)}

@[simp] theorem uses_append : uses (log ++ ns) = uses log ++ uses ns := List.filterMap_append

@[simp] theorem asked_append : asked (log ++ ns) = asked log ++ asked ns := List.filterMap_append

theorem mem_asked_append {code : String} (h : code ∈ asked log) : code ∈ asked (log ++ ns) := by
  rw [asked_append]
  exact List.mem_append_left _ h

/-- A blob was made from bridge code with this hash. -/
def Made (siphash : String → UInt64) (log : List (Note τ β)) (hash : UInt64)
    (result : Except String β) : Prop :=
  ∀ blob, result = .ok blob →
    ∃ t bridgeCode, .created t bridgeCode (.ok blob) ∈ log ∧ siphash bridgeCode = hash

variable {hash : UInt64} {result : Except String β}

theorem Made.append (h : Made siphash log hash result) :
    Made siphash (log ++ ns) hash result := by
  intro blob hblob
  obtain ⟨t, bridgeCode, hmem, hhash⟩ := h blob hblob
  exact ⟨t, bridgeCode, List.mem_append_left _ hmem, hhash⟩

/-- A failure stores nothing; a blob goes to the end, and the first entry makes room for it. -/
theorem store_cases {maxEntries : Nat} {entries entries' : List (CacheEntry β)}
    (h : store maxEntries entries hash result = some entries') :
    ((∃ message, result = .error message) ∧ entries' = entries) ∨
    ∃ blob rest, result = .ok blob ∧ entries' = rest ++ [⟨hash, blob⟩] ∧
      (rest = entries ∨ ∃ first, entries = first :: rest) ∧
      (entries.length ≤ maxEntries → rest.length < maxEntries) := by
  cases result with
  | error message =>
      cases h
      exact .inl ⟨⟨message, rfl⟩, rfl⟩
  | ok blob =>
      simp only [store] at h
      split at h
      · cases entries with
        | nil => cases h
        | cons first rest =>
          cases h
          exact .inr ⟨blob, rest, rfl, rfl, .inr ⟨first, rfl⟩, id⟩
      · rename_i hroom
        cases h
        exact .inr ⟨blob, entries, rfl, rfl, .inl rfl, fun _ => Nat.lt_of_not_ge hroom⟩

/-- The entries stand in the order of their uses. -/
structure Stored (maxEntries : Nat) (siphash : String → UInt64) (entries : List (CacheEntry β))
    (log : List (Note τ β)) : Prop where
  distinct : (hashes entries).Nodup
  bounded : entries.length ≤ maxEntries
  order : InOrder (uses log) (hashes entries)
  made : ∀ entry ∈ entries, Made siphash log entry.bridgeHash (.ok entry.blob)

namespace Stored

variable {maxEntries : Nat} {entries : List (CacheEntry β)}

theorem new : Stored maxEntries siphash ([] : List (CacheEntry β)) ([] : List (Note τ β)) where
  distinct := List.nodup_nil
  bounded := Nat.zero_le _
  order := .nil
  made _ h := by cases h

variable (k : Stored maxEntries siphash entries log)
include k

/-- No entry is read or stored. -/
theorem append (hns : uses ns = []) :
    Stored maxEntries siphash entries (log ++ ns) where
  distinct := k.distinct
  bounded := k.bounded
  order := by
    rw [uses_append, hns, List.append_nil]
    exact k.order
  made entry h := (k.made entry h).append

variable {entry : CacheEntry β}

/-- Some entries go, and one is put at the end. -/
theorem push {rest : List (CacheEntry β)}
    (hrest : rest.Sublist entries) (hroom : rest.length < maxEntries)
    (hnew : entry.bridgeHash ∉ hashes rest) (hns : uses ns = [entry.bridgeHash])
    (hmade : Made siphash log entry.bridgeHash (.ok entry.blob)) :
    Stored maxEntries siphash (rest ++ [entry]) (log ++ ns) := by
  have hsub : (hashes rest).Sublist (hashes entries) := hrest.map _
  have hhashes : hashes (rest ++ [entry]) = hashes rest ++ [entry.bridgeHash] := List.map_append
  refine ⟨?_, ?_, ?_, ?_⟩
  · rw [hhashes]
    refine List.nodup_append.mpr ⟨k.distinct.sublist hsub, List.nodup_singleton _, ?_⟩
    intro hash hmem hash' hmem'
    rw [List.mem_singleton.mp hmem']
    rintro rfl
    exact hnew hmem
  · rw [List.length_append, List.length_singleton]
    exact hroom
  · rw [hhashes, uses_append, hns]
    exact (k.order.sublist hsub).use hnew
  · intro e he
    rcases List.mem_append.mp he with he | he
    · exact (k.made e (hrest.subset he)).append
    · rw [List.mem_singleton.mp he]
      exact hmade.append

/-- A hit. -/
theorem hit (hfind : entries.find? (·.bridgeHash == hash) = some entry) (hns : uses ns = [hash]) :
    Stored maxEntries siphash (entries.eraseP (·.bridgeHash == hash) ++ [entry]) (log ++ ns) := by
  have hmem : entry ∈ entries := List.mem_of_find?_eq_some hfind
  have hhash : entry.bridgeHash = hash := by simpa using List.find?_some hfind
  have hlen : (entries.eraseP (·.bridgeHash == hash)).length = entries.length - 1 :=
    List.length_eraseP_of_mem hmem (by simpa using hhash)
  have hpos : 0 < entries.length := List.length_pos_of_mem hmem
  refine k.push List.eraseP_sublist ?_ ?_ (hhash ▸ hns) (k.made entry hmem)
  · have hbound := k.bounded
    omega
  · have herase : hashes (entries.eraseP (·.bridgeHash == hash)) = (hashes entries).erase hash := by
      rw [hashes, hashes, List.erase_eq_eraseP', List.eraseP_map]
      rfl
    rw [hhash, herase]
    exact k.distinct.not_mem_erase

/-- A creation is stored. -/
theorem store {entries' : List (CacheEntry β)}
    (h : store maxEntries entries hash result = some entries') (hnew : hash ∉ hashes entries)
    (hmade : Made siphash log hash result)
    (hns : uses ns = uses (stored hash result : List (Note τ β))) :
    Stored maxEntries siphash entries' (log ++ ns) := by
  rcases store_cases h with ⟨⟨_, rfl⟩, rfl⟩ | ⟨blob, rest, rfl, rfl, hrest, hroom⟩
  · exact k.append hns
  · have hsub : rest.Sublist entries := by
      rcases hrest with rfl | ⟨first, rfl⟩
      · exact .refl _
      · exact List.sublist_cons_self _ _
    exact k.push hsub (hroom k.bounded) (fun hmem => hnew ((hsub.map _).subset hmem)) hns hmade

end Stored

theorem mem_of_store {maxEntries : Nat} {entries entries' : List (CacheEntry β)}
    (h : store maxEntries entries hash result = some entries')
    {hash' : UInt64} (hmem : hash' ∈ hashes entries') : hash' = hash ∨ hash' ∈ hashes entries := by
  rcases store_cases h with ⟨-, rfl⟩ | ⟨blob, rest, -, rfl, hrest, -⟩
  · exact .inr hmem
  · rw [hashes, List.map_append] at hmem
    rcases List.mem_append.mp hmem with hmem | hmem
    · rcases hrest with rfl | ⟨first, rfl⟩
      · exact .inr hmem
      · exact .inr (List.mem_cons_of_mem _ hmem)
    · exact .inl (List.mem_singleton.mp hmem)

/-- Only the first entry goes when a creation is stored. -/
theorem first_of_store {maxEntries : Nat} {entries entries' : List (CacheEntry β)}
    (h : store maxEntries entries hash result = some entries')
    {entry : CacheEntry β} (hin : entry ∈ entries) (hout : entry ∉ entries') :
    ∃ rest, entries = entry :: rest := by
  rcases store_cases h with ⟨-, rfl⟩ | ⟨blob, rest, -, rfl, rfl | ⟨first, rfl⟩, -⟩
  · exact absurd hin hout
  · exact absurd (List.mem_append_left _ hin) hout
  · rcases List.mem_cons.mp hin with rfl | hin
    · exact ⟨rest, rfl⟩
    · exact absurd (List.mem_append_left _ hin) hout

end

/-! ### Creations in progress -/

section

variable {τ β : Type} {siphash : String → UInt64} {s : State τ β} {log ns : List (Note τ β)}

/-- A waiting thread will be notified, or it runs and finds the result. -/
def Awaited (siphash : String → UInt64) (s : State τ β) (log : List (Note τ β))
    (bridgeCode : String) (entry : Nat) (asleep : Bool) : Prop :=
  s.inner.inFlight.get (siphash bridgeCode) = some entry ∨
    asleep = false ∧ ∃ result, s.results[entry]? = some (some result) ∧
      Made siphash log (siphash bridgeCode) result

/-- The creations in progress, and who waits for them. -/
structure Flights (siphash : String → UInt64) (s : State τ β) (log : List (Note τ β)) :
    Prop where
  claimed : ∀ t bridgeCode, (s.threads t).creates = some bridgeCode →
    ∃ entry, s.inner.inFlight.get (siphash bridgeCode) = some entry
  owned : ∀ hash entry, s.inner.inFlight.get hash = some entry →
    s.results[entry]? = some none ∧
      ∃ t bridgeCode, (s.threads t).creates = some bridgeCode ∧ siphash bridgeCode = hash
  injective : ∀ hash hash' entry, s.inner.inFlight.get hash = some entry →
    s.inner.inFlight.get hash' = some entry → hash = hash'
  single : ∀ t t' bridgeCode bridgeCode', (s.threads t).creates = some bridgeCode →
    (s.threads t').creates = some bridgeCode' → siphash bridgeCode = siphash bridgeCode' → t = t'
  absent : ∀ t bridgeCode, (s.threads t).creates = some bridgeCode →
    siphash bridgeCode ∉ hashes s.inner.entries
  awaited : ∀ t bridgeCode entry asleep, s.threads t = .waiting bridgeCode entry asleep →
    Awaited siphash s log bridgeCode entry asleep

variable {entry : Nat}

theorem Awaited.append {bridgeCode : String} {asleep : Bool}
    (h : Awaited siphash s log bridgeCode entry asleep) :
    Awaited siphash s (log ++ ns) bridgeCode entry asleep := by
  rcases h with h | ⟨hawake, result, hr, hmade⟩
  · exact .inl h
  · exact .inr ⟨hawake, result, hr, hmade.append⟩

variable {threads : τ → Phase β}

theorem creates_notifyAll {t : τ} :
    (State.notifyAll threads entry t).creates = (threads t).creates := by
  rw [State.notifyAll]
  split
  · rename_i h
    rw [h]
    rfl
  · rfl

theorem waiting_of_notifyAll {e : Nat} {t : τ} {bridgeCode : String}
    {asleep : Bool} (h : State.notifyAll threads entry t = .waiting bridgeCode e asleep) :
    ∃ asleep₀, threads t = .waiting bridgeCode e asleep₀ ∧
      asleep = if e = entry then false else asleep₀ := by
  rw [State.notifyAll] at h
  split at h
  · rename_i code e' asleep₀ ht
    cases h
    exact ⟨asleep₀, ht, rfl⟩
  · rename_i hno
    exact absurd h (hno _ _ _)

namespace Flights

theorem new : Flights siphash (.new : State τ β) [] where
  claimed _ _ h := by cases h
  owned _ _ h := by cases h
  injective _ _ _ h := by cases h
  single _ _ _ _ h := by cases h
  absent _ _ h := by cases h
  awaited _ _ _ _ h := by cases h

variable {entries : List (CacheEntry β)}

/-- A hit moves an entry. -/
theorem hit (k : Flights siphash s log) (hsub : hashes entries ⊆ hashes s.inner.entries) :
    Flights siphash { s with inner.entries := entries } (log ++ ns) where
  claimed := k.claimed
  owned := k.owned
  injective := k.injective
  single := k.single
  absent t bridgeCode h hmem := k.absent t bridgeCode h (hsub hmem)
  awaited t bridgeCode entry asleep h := (k.awaited t bridgeCode entry asleep h).append

variable [DecidableEq τ]

variable {t : τ}

variable (k : Flights siphash s log)
include k

/-- A thread goes to a place where it creates what it created before. -/
theorem goto {p q : Phase β} (ht : s.threads t = q)
    (hp : p.creates = q.creates)
    (hw : ∀ bridgeCode entry asleep, p = .waiting bridgeCode entry asleep →
      Awaited siphash s log bridgeCode entry asleep) :
    Flights siphash (s.goto t p) (log ++ ns) := by
  have hcreates : ∀ t', ((s.goto t p).threads t').creates = (s.threads t').creates := by
    intro t'
    by_cases h : t' = t
    · subst h
      rw [State.goto_self, hp, ht]
    · rw [State.goto_other h]
  refine ⟨?_, ?_, k.injective, ?_, ?_, ?_⟩
  · intro t' bridgeCode h
    exact k.claimed t' bridgeCode (hcreates t' ▸ h)
  · intro hash entry h
    obtain ⟨hr, t', bridgeCode, ht', hhash⟩ := k.owned hash entry h
    exact ⟨hr, t', bridgeCode, (hcreates t').trans ht', hhash⟩
  · intro t₁ t₂ b₁ b₂ h₁ h₂
    exact k.single t₁ t₂ b₁ b₂ (hcreates t₁ ▸ h₁) (hcreates t₂ ▸ h₂)
  · intro t' bridgeCode h
    exact k.absent t' bridgeCode (hcreates t' ▸ h)
  · intro t' bridgeCode entry asleep h
    by_cases ht : t' = t
    · subst ht
      rw [State.goto_self] at h
      exact (hw bridgeCode entry asleep h).append
    · rw [State.goto_other ht] at h
      exact (k.awaited t' bridgeCode entry asleep h).append

/-- A thread becomes the creator of a key. -/
theorem claim {bridgeCode : String}
    (ht : (s.threads t).creates = none) (hnew : siphash bridgeCode ∉ hashes s.inner.entries)
    (hflight : s.inner.inFlight.get (siphash bridgeCode) = none) :
    Flights siphash ({ s with
      inner.inFlight := s.inner.inFlight.set (siphash bridgeCode) s.results.length
      results := s.results ++ [none] }.goto t (.creating bridgeCode)) (log ++ ns) := by
  have hget : ∀ {hash entry},
      (s.inner.inFlight.set (siphash bridgeCode) s.results.length).get hash = some entry →
        hash = siphash bridgeCode ∧ entry = s.results.length ∨
          s.inner.inFlight.get hash = some entry ∧ entry < s.results.length := by
    intro hash entry h
    rw [OMap.get_set] at h
    split at h
    · rename_i heq
      exact .inl ⟨heq, (Option.some.inj h).symm⟩
    · exact .inr ⟨h, (List.getElem?_eq_some_iff.mp (k.owned hash entry h).1).1⟩
  have hkeep : ∀ {hash entry}, s.inner.inFlight.get hash = some entry →
      (s.inner.inFlight.set (siphash bridgeCode) s.results.length).get hash = some entry := by
    intro hash entry h
    rw [OMap.get_set, if_neg]
    · exact h
    · rintro rfl
      rw [hflight] at h
      cases h
  have hcreates : ∀ {s' : State τ β} {t' code}, s'.threads = s.threads →
      ((s'.goto t (.creating bridgeCode)).threads t').creates = some code →
        t' = t ∧ code = bridgeCode ∨ (s.threads t').creates = some code := by
    intro s' t' code hs h
    by_cases heq : t' = t
    · subst heq
      rw [State.goto_self] at h
      exact .inl ⟨rfl, (Option.some.inj h).symm⟩
    · rw [State.goto_other heq, hs] at h
      exact .inr h
  have hother : ∀ {t' code}, (s.threads t').creates = some code →
      siphash code ≠ siphash bridgeCode := by
    intro t' code h heq
    obtain ⟨entry, hentry⟩ := k.claimed t' code h
    rw [heq, hflight] at hentry
    cases hentry
  refine ⟨?_, ?_, ?_, ?_, ?_, ?_⟩
  · intro t' code h
    rcases hcreates rfl h with ⟨-, rfl⟩ | h
    · exact ⟨_, OMap.get_set_self _ _ _⟩
    · obtain ⟨entry, hentry⟩ := k.claimed t' code h
      exact ⟨entry, hkeep hentry⟩
  · intro hash entry h
    rcases hget h with ⟨rfl, rfl⟩ | ⟨h, hlt⟩
    · refine ⟨List.getElem?_concat_length, t, bridgeCode, ?_, rfl⟩
      rw [State.goto_self]
      rfl
    · obtain ⟨hr, t', code, ht', hhash⟩ := k.owned hash entry h
      refine ⟨(List.getElem?_append_left hlt).trans hr, t', code, ?_, hhash⟩
      have hne : t' ≠ t := by
        rintro rfl
        rw [ht] at ht'
        cases ht'
      rw [State.goto_other hne]
      exact ht'
  · intro hash hash' entry h h'
    rcases hget h with ⟨rfl, rfl⟩ | ⟨h, hlt⟩ <;> rcases hget h' with ⟨rfl, he⟩ | ⟨h', hlt'⟩
    · rfl
    · exact absurd hlt' (Nat.lt_irrefl _)
    · exact absurd (he ▸ hlt) (Nat.lt_irrefl _)
    · exact k.injective hash hash' entry h h'
  · intro t₁ t₂ b₁ b₂ h₁ h₂ heq
    rcases hcreates rfl h₁ with ⟨ht₁, rfl⟩ | hold₁ <;>
      rcases hcreates rfl h₂ with ⟨ht₂, rfl⟩ | hold₂
    · exact ht₁.trans ht₂.symm
    · exact absurd heq.symm (hother hold₂)
    · exact absurd heq (hother hold₁)
    · exact k.single t₁ t₂ b₁ b₂ hold₁ hold₂ heq
  · intro t' code h
    rcases hcreates rfl h with ⟨-, rfl⟩ | h
    · exact hnew
    · exact k.absent t' code h
  · intro t' code entry asleep h
    have hold : s.threads t' = .waiting code entry asleep := by
      by_cases heq : t' = t
      · subst heq
        rw [State.goto_self] at h
        cases h
      · rw [State.goto_other heq] at h
        exact h
    rcases k.awaited t' code entry asleep hold with h | ⟨hawake, result, hr, hmade⟩
    · exact .inl (hkeep h)
    · have hlt := (List.getElem?_eq_some_iff.mp hr).1
      exact .inr ⟨hawake, result, (List.getElem?_append_left hlt).trans hr, hmade.append⟩

/-- The creator of a key publishes its result. -/
theorem publish {bridgeCode : String} {result : Except String β}
    (ht : s.threads t = .publishing bridgeCode result)
    (hmade : Made siphash log (siphash bridgeCode) result)
    (hentry : s.inner.inFlight.get (siphash bridgeCode) = some entry)
    (hentries : ∀ hash ∈ hashes entries,
      hash = siphash bridgeCode ∨ hash ∈ hashes s.inner.entries) :
    Flights siphash (State.goto
      { inner := ⟨entries, s.inner.inFlight.delete (siphash bridgeCode)⟩
        results := s.results.set entry (some result)
        threads := State.notifyAll s.threads entry } t .idle) (log ++ ns) := by
  have hcreate : (s.threads t).creates = some bridgeCode := by rw [ht]; rfl
  have hget : ∀ {hash e},
      (s.inner.inFlight.delete (siphash bridgeCode)).get hash = some e →
        hash ≠ siphash bridgeCode ∧ s.inner.inFlight.get hash = some e := by
    intro hash e h
    rw [OMap.get_delete] at h
    split at h
    · cases h
    · rename_i hne
      exact ⟨hne, h⟩
  have hkeep : ∀ {hash e}, hash ≠ siphash bridgeCode → s.inner.inFlight.get hash = some e →
      (s.inner.inFlight.delete (siphash bridgeCode)).get hash = some e := by
    intro hash e hne h
    rw [OMap.get_delete, if_neg hne]
    exact h
  have hcreates : ∀ {s' : State τ β} {t' code}, s'.threads = State.notifyAll s.threads entry →
      ((s'.goto t .idle).threads t').creates = some code →
        t' ≠ t ∧ (s.threads t').creates = some code := by
    intro s' t' code hs h
    by_cases heq : t' = t
    · subst heq
      rw [State.goto_self] at h
      cases h
    · rw [State.goto_other heq, hs, creates_notifyAll] at h
      exact ⟨heq, h⟩
  have hother : ∀ {t' code}, t' ≠ t → (s.threads t').creates = some code →
      siphash code ≠ siphash bridgeCode := by
    intro t' code hne h heq
    exact hne (k.single t' t code bridgeCode h hcreate heq)
  refine ⟨?_, ?_, ?_, ?_, ?_, ?_⟩
  · intro t' code h
    obtain ⟨hne, hold⟩ := hcreates rfl h
    obtain ⟨e, he⟩ := k.claimed t' code hold
    exact ⟨e, hkeep (hother hne hold) he⟩
  · intro hash e h
    obtain ⟨hne, hold⟩ := hget h
    obtain ⟨hr, t', code, ht', hhash⟩ := k.owned hash e hold
    have he : entry ≠ e := by
      rintro rfl
      exact hne (k.injective _ _ _ hold hentry)
    have hne' : t' ≠ t := by
      rintro rfl
      rw [hcreate] at ht'
      cases ht'
      exact hne hhash.symm
    refine ⟨(List.getElem?_set_ne he).trans hr, t', code, ?_, hhash⟩
    rw [State.goto_other hne', creates_notifyAll]
    exact ht'
  · intro hash hash' e h h'
    exact k.injective hash hash' e (hget h).2 (hget h').2
  · intro t₁ t₂ b₁ b₂ h₁ h₂
    exact k.single t₁ t₂ b₁ b₂ (hcreates rfl h₁).2 (hcreates rfl h₂).2
  · intro t' code h hmem
    obtain ⟨hne, hold⟩ := hcreates rfl h
    rcases hentries _ hmem with heq | hmem
    · exact hother hne hold heq
    · exact k.absent t' code hold hmem
  · intro t' code e asleep h
    have hne : t' ≠ t := by
      rintro rfl
      rw [State.goto_self] at h
      cases h
    rw [State.goto_other hne] at h
    obtain ⟨asleep₀, hold, rfl⟩ := waiting_of_notifyAll h
    have hpending := (k.owned _ _ hentry).1
    rcases k.awaited t' code e asleep₀ hold with hflight | ⟨rfl, r, hr, hm⟩
    · by_cases he : e = entry
      · subst he
        have hhash := k.injective _ _ _ hflight hentry
        refine .inr ⟨if_pos rfl, result, ?_, hhash ▸ hmade.append⟩
        exact List.getElem?_set_self (List.getElem?_eq_some_iff.mp hpending).1
      · refine .inl (hkeep ?_ hflight)
        intro hhash
        rw [hhash, hentry] at hflight
        exact he (Option.some.inj hflight).symm
    · have he : entry ≠ e := by
        rintro rfl
        rw [hpending] at hr
        cases hr
      exact .inr ⟨ite_self _, r, (List.getElem?_set_ne he).trans hr, hm.append⟩

end Flights

end

/-! ### What is answered -/

section

variable {τ β : Type} {siphash : String → UInt64} {s s' : State τ β} {log ns : List (Note τ β)}

/-- What is reported was asked for, and made from bridge code with the same hash. -/
def Note.Backed (siphash : String → UInt64) (log : List (Note τ β)) : Note τ β → Prop
  | .created _ bridgeCode _ => bridgeCode ∈ asked log
  | .returned _ bridgeCode result =>
    bridgeCode ∈ asked log ∧ Made siphash log (siphash bridgeCode) result
  | _ => True

def Phase.Backed (siphash : String → UInt64) (log : List (Note τ β)) : Phase β → Prop
  | .idle => True
  | .waiting bridgeCode _ _ => bridgeCode ∈ asked log
  | .creating bridgeCode => bridgeCode ∈ asked log
  | .publishing bridgeCode result =>
    bridgeCode ∈ asked log ∧ Made siphash log (siphash bridgeCode) result

theorem Note.Backed.append {n : Note τ β} (h : n.Backed siphash log) :
    n.Backed siphash (log ++ ns) := by
  cases n with
  | created t bridgeCode result => exact mem_asked_append h
  | returned t bridgeCode result => exact ⟨mem_asked_append h.1, h.2.append⟩
  | called _ _ | used _ => trivial

theorem Phase.Backed.append {p : Phase β} (h : p.Backed siphash log) :
    p.Backed siphash (log ++ ns) := by
  cases p with
  | publishing bridgeCode result => exact ⟨mem_asked_append h.1, h.2.append⟩
  | waiting _ _ _ | creating _ => exact mem_asked_append h
  | idle => trivial

theorem backed_notifyAll {threads : τ → Phase β} {entry : Nat} {t : τ}
    (h : (threads t).Backed siphash log) :
    (State.notifyAll threads entry t).Backed siphash log := by
  rw [State.notifyAll]
  split
  · rename_i ht
    rw [ht] at h
    exact h
  · exact h

/-- Every answer and every thread is backed. -/
structure Answers (siphash : String → UInt64) (s : State τ β) (log : List (Note τ β)) : Prop where
  notes : ∀ n ∈ log, n.Backed siphash log
  threads : ∀ t, (s.threads t).Backed siphash log

namespace Answers

theorem new : Answers siphash (.new : State τ β) [] where
  notes _ h := by cases h
  threads _ := trivial

variable (k : Answers siphash s log)
include k

/-- The threads are where they were, or notified. -/
theorem step (hthreads : ∀ t, (s.threads t).Backed siphash log → (s'.threads t).Backed siphash log)
    (hns : ∀ n ∈ ns, n.Backed siphash (log ++ ns)) : Answers siphash s' (log ++ ns) where
  notes n h := by
    rcases List.mem_append.mp h with h | h
    · exact (k.notes n h).append
    · exact hns n h
  threads t := (hthreads t (k.threads t)).append

theorem thread {t : τ} {p : Phase β} (ht : s.threads t = p) :
    p.Backed siphash log := ht ▸ k.threads t

/-- One thing is reported. -/
theorem note (n : Note τ β) (hn : n.Backed siphash (log ++ [n])) :
    Answers siphash s (log ++ [n]) := by
  refine k.step (fun _ h => h) fun n' hn' => ?_
  rw [List.mem_singleton.mp hn']
  exact hn

/-- A thread goes to a place that is backed. -/
theorem goto [DecidableEq τ] {t : τ} {p : Phase β}
    (hp : p.Backed siphash log) : Answers siphash (s.goto t p) log where
  notes := k.notes
  threads t' := by
    by_cases h : t' = t
    · subst h
      rw [State.goto_self]
      exact hp
    · rw [State.goto_other h]
      exact k.threads t'

end Answers

end

/-! ### Steps -/

section

variable {τ β : Type} [DecidableEq τ] {maxEntries : Nat} {siphash : String → UInt64}
  {s : State τ β} {log : List (Note τ β)}

/-- What holds in every reachable state. -/
structure Kept (maxEntries : Nat) (siphash : String → UInt64) (s : State τ β)
    (log : List (Note τ β)) : Prop where
  entries : Stored maxEntries siphash s.inner.entries log
  flights : Flights siphash s log
  answers : Answers siphash s log

/-- What the publication of a result leads to. -/
theorem publish_eq_some {t : τ} {bridgeCode : String} {result : Except String β} {entry : Nat}
    {r : State τ β × List (Note τ β)}
    (hentry : s.inner.inFlight.get (siphash bridgeCode) = some entry)
    (h : s.publish maxEntries siphash t bridgeCode result = some r) :
    ∃ entries, store maxEntries s.inner.entries (siphash bridgeCode) result = some entries ∧
      r = (State.goto
        { inner := ⟨entries, s.inner.inFlight.delete (siphash bridgeCode)⟩
          results := s.results.set entry (some result)
          threads := State.notifyAll s.threads entry } t .idle,
        stored (siphash bridgeCode) result ++ [.returned t bridgeCode result]) := by
  simp only [State.publish] at h
  split at h
  · cases h
  · rename_i entries hstore
    rw [hentry] at h
    exact ⟨entries, hstore, (Option.some.inj h).symm⟩

namespace Kept

variable (k : Kept maxEntries siphash s log)
include k

variable {r : State τ β × List (Note τ β)}

theorem step {e : Event τ β} (h : step maxEntries siphash s e = some r) :
    Kept maxEntries siphash r.1 (log ++ r.2) := by
  have hasked : ∀ {t : τ} {code : String} {ns : List (Note τ β)},
      code ∈ asked (log ++ .called t code :: ns) := by
    intro t code ns
    rw [asked_append]
    exact List.mem_append_right _ List.mem_cons_self
  cases step_does h with
  | @hit t bridgeCode entry ht hfind =>
      have hmem := List.mem_of_find?_eq_some hfind
      have hhash : entry.bridgeHash = siphash bridgeCode := by simpa using List.find?_some hfind
      refine ⟨k.entries.hit hfind rfl, k.flights.hit ?_, k.answers.step (fun _ h => h) ?_⟩
      · intro hash hin
        rw [hashes, List.map_append] at hin
        rcases List.mem_append.mp hin with hin | hin
        · exact (List.eraseP_sublist.map _).subset hin
        · rw [List.mem_singleton.mp hin]
          exact List.mem_map_of_mem hmem
      · intro n hn
        rcases List.mem_cons.mp hn with rfl | hn
        · trivial
        · rcases List.mem_pair.mp hn with rfl | rfl
          · trivial
          · exact ⟨hasked, hhash ▸ (k.entries.made entry hmem).append⟩
  | @joins t bridgeCode entry ht hflight =>
      refine ⟨k.entries.append rfl, k.flights.goto ht rfl ?_,
        (k.answers.note (.called t bridgeCode) trivial).goto hasked⟩
      rintro _ _ _ ⟨⟩
      exact .inl hflight
  | @claims t bridgeCode ht hnew hflight =>
      have hnone : (s.threads t).creates = none := by rw [ht]; rfl
      have hans := k.answers.note (.called t bridgeCode) trivial
      refine ⟨k.entries.append rfl, k.flights.claim hnone hnew hflight, Answers.goto ?_ hasked⟩
      exact ⟨hans.notes, hans.threads⟩
  | @created t bridgeCode result ht =>
      have hcode : bridgeCode ∈ asked (log ++ [Note.created t bridgeCode result]) :=
        mem_asked_append (k.answers.thread ht)
      refine ⟨k.entries.append rfl, k.flights.goto ht rfl ?_,
        (k.answers.note (.created t bridgeCode result) hcode).goto ⟨hcode, ?_⟩⟩
      · rintro _ _ _ ⟨⟩
      · rintro blob rfl
        exact ⟨t, bridgeCode, List.mem_append_right _ List.mem_cons_self, rfl⟩
  | @publishes t bridgeCode result r ht hp =>
      have hcreate : (s.threads t).creates = some bridgeCode := by rw [ht]; rfl
      obtain ⟨entry, hentry⟩ := k.flights.claimed t bridgeCode hcreate
      obtain ⟨entries, hstore, rfl⟩ := publish_eq_some hentry hp
      have hback : bridgeCode ∈ asked log ∧ Made siphash log (siphash bridgeCode) result :=
        k.answers.thread ht
      have hnew := k.flights.absent t bridgeCode hcreate
      refine ⟨k.entries.store hstore hnew hback.2 ?_, ?_, Answers.goto ?_ trivial⟩
      · rw [uses_append]
        exact List.append_nil _
      · exact k.flights.publish ht hback.2 hentry fun _ h => mem_of_store hstore h
      · refine k.answers.step (fun _ h => backed_notifyAll h) ?_
        intro n hn
        rcases List.mem_append.mp hn with hn | hn
        · cases result with
          | ok blob =>
              rw [List.mem_singleton.mp hn]
              trivial
          | error message => cases hn
        · rw [List.mem_singleton.mp hn]
          exact ⟨mem_asked_append hback.1, hback.2.append⟩
  | @returns t bridgeCode entry result ht hr =>
      have hmade : Made siphash log (siphash bridgeCode) result := by
        rcases k.flights.awaited t bridgeCode entry false ht with h | ⟨-, r, hr', hm⟩
        · rw [(k.flights.owned _ _ h).1] at hr
          cases hr
        · rw [hr'] at hr
          cases hr
          exact hm
      have hcode : bridgeCode ∈ asked log := k.answers.thread ht
      refine ⟨k.entries.append rfl, k.flights.goto ht rfl ?_,
        (k.answers.note (.returned t bridgeCode result)
          ⟨mem_asked_append hcode, hmade.append⟩).goto trivial⟩
      rintro _ _ _ ⟨⟩
  | @sleeps t bridgeCode entry ht hr =>
      refine ⟨k.entries.append rfl, k.flights.goto ht rfl ?_,
        (k.answers.step (fun _ h => h) (List.forall_mem_nil _)).goto (k.answers.thread ht).append⟩
      rintro _ _ _ ⟨⟩
      rcases k.flights.awaited t bridgeCode entry false ht with h | ⟨-, r, hr', -⟩
      · exact .inl h
      · rw [hr'] at hr
        cases hr
  | @wakes t bridgeCode entry ht =>
      refine ⟨k.entries.append rfl, k.flights.goto ht rfl ?_,
        (k.answers.step (fun _ h => h) (List.forall_mem_nil _)).goto (k.answers.thread ht).append⟩
      rintro _ _ _ ⟨⟩
      rcases k.flights.awaited t bridgeCode entry true ht with h | ⟨h, -⟩
      · exact .inl h
      · cases h

/-- An entry that a step removes is the first one, and one is stored. -/
theorem evicted {e : Event τ β} (h : SnapshotCache.step maxEntries siphash s e = some r)
    {entry other : CacheEntry β} (hin : entry ∈ s.inner.entries)
    (hout : entry ∉ r.1.inner.entries) (hother : other ∈ s.inner.entries)
    (hne : other.bridgeHash ≠ entry.bridgeHash) :
    Since (uses log) entry.bridgeHash other.bridgeHash := by
  cases step_does h with
  | @hit t bridgeCode found ht hfind =>
      refine absurd ?_ hout
      by_cases heq : entry.bridgeHash = siphash bridgeCode
      · have hhash : found.bridgeHash = siphash bridgeCode := by
          simpa using List.find?_some hfind
        have hsame : entry = found :=
          List.inj_on_of_nodup_map k.entries.distinct hin (List.mem_of_find?_eq_some hfind)
            (heq.trans hhash.symm)
        rw [hsame]
        exact List.mem_append_right _ List.mem_cons_self
      · exact List.mem_append_left _ ((List.mem_eraseP_of_neg (by simpa using heq)).mpr hin)
  | @publishes t bridgeCode result r ht hp =>
      have hcreate : (s.threads t).creates = some bridgeCode := by rw [ht]; rfl
      obtain ⟨address, haddress⟩ := k.flights.claimed t bridgeCode hcreate
      obtain ⟨entries, hstore, rfl⟩ := publish_eq_some haddress hp
      obtain ⟨rest, hrest⟩ := first_of_store hstore hin hout
      have horder := k.entries.order
      rw [hrest] at horder hother
      rcases List.mem_cons.mp hother with rfl | hother
      · exact absurd rfl hne
      · exact InOrder.head horder (List.mem_map_of_mem hother)
  | joins _ _ | claims _ _ _ | created _ | returns _ _ | sleeps _ _ | wakes _ =>
      exact absurd hin hout

theorem coherent (hmax : 1 ≤ maxEntries)
    (hdistinct : ∀ code ∈ asked log, ∀ code' ∈ asked log, siphash code = siphash code' →
      code = code') : Coherent maxEntries siphash s log where
  distinct := k.entries.distinct
  bounded := k.entries.bounded
  single := k.flights.single
  own := by
    intro t bridgeCode blob h
    obtain ⟨hcode, hmade⟩ := k.answers.notes _ h
    obtain ⟨t', code, hmem, hhash⟩ := hmade blob rfl
    have heq := hdistinct code (k.answers.notes _ hmem) bridgeCode hcode hhash
    exact ⟨t', heq ▸ hmem⟩
  evicts := by
    intro e s' ns h entry hin hout other hother hne
    exact k.evicted h hin hout hother hne
  waits := by
    intro t bridgeCode entry asleep ht
    rcases k.flights.awaited t bridgeCode entry asleep ht with h | ⟨rfl, result, hr, -⟩
    · obtain ⟨-, t', code, ht', hhash⟩ := k.flights.owned _ _ h
      have hcode : code ∈ asked log := by
        have hback := k.answers.threads t'
        generalize s.threads t' = p at ht' hback
        cases p with
        | idle | waiting _ _ _ => cases ht'
        | creating _ => cases ht'; exact hback
        | publishing _ _ => cases ht'; exact hback.1
      have hcode' : bridgeCode ∈ asked log := k.answers.thread ht
      exact .inl ⟨h, t', hdistinct code hcode bridgeCode hcode' hhash ▸ ht'⟩
    · refine .inr ⟨rfl, result, ?_⟩
      simp only [SnapshotCache.step, ht, hr]
  finishes := by
    intro t bridgeCode result ht
    have hstore : (store maxEntries s.inner.entries (siphash bridgeCode) result).isSome := by
      cases result with
      | error message => rfl
      | ok blob =>
          simp only [store]
          split
          · rename_i hfull
            cases hentries : s.inner.entries with
            | nil =>
                rw [hentries] at hfull
                exact absurd (Nat.le_trans hmax hfull) (by simp)
            | cons first rest => rfl
          · rfl
    obtain ⟨entries, hentries⟩ := Option.isSome_iff_exists.mp hstore
    simp only [SnapshotCache.step, ht, State.publish, hentries, Option.isSome_some]

end Kept

/-! ### Runs -/

/-- **The callers of the cache get along, in every interleaving.** -/
theorem cache_coherent (hmax : 1 ≤ maxEntries)
    (r : Reach (recorded (step maxEntries siphash)) Any (.new, []) (s, log))
    (hdistinct : ∀ code ∈ asked log, ∀ code' ∈ asked log, siphash code = siphash code' →
      code = code') : Coherent maxEntries siphash s log := by
  have k : Kept maxEntries siphash s log := by
    refine r.invariant (I := fun s => Kept maxEntries siphash s.1 s.2) ⟨.new, .new, .new⟩ ?_
    rintro ⟨u, l⟩ e v hu - hstep
    obtain ⟨w, hw, rfl⟩ := recorded_eq_some.mp hstep
    exact hu.step hw
  exact k.coherent hmax hdistinct

end

/-- The hashes of the bridge codes `1` and `2`. -/
def hashOf (bridgeCode : String) : UInt64 :=
  if bridgeCode = "1" then 16569625464242099095 else 10421790385219844055

/-- Two callers of one key and one of another, while the cache holds one entry. -/
def evictedRun : List (Event Nat (List UInt8)) :=
  [.call 0 "1", .call 1 "1", .look 1, .call 2 "2", .created 0 (.ok [7]), .created 2 (.ok [8]),
    .publish 0, .publish 2, .look 1]

/-- The entry is evicted before the waiting caller runs; it gets its blob all the same. -/
theorem cache_coherent_evicted : ∃ (s : State Nat (List UInt8)) (log : List (Note Nat (List UInt8))),
    hashes s.inner.entries = [hashOf "2"] ∧
      log.any (fun n => (n matches .returned 1 "1" (.ok [7]))) ∧ Coherent 1 hashOf s log := by
  obtain ⟨⟨s, log⟩, hs, hentries, hreturned, hasked⟩ :=
    Reach.exists_of_exec (recorded (step 1 hashOf)) (.new, []) evictedRun (P := fun s =>
      hashes s.1.inner.entries = [hashOf "2"] ∧
        s.2.any (fun n => (n matches .returned 1 "1" (.ok [7]))) ∧ asked s.2 = ["1", "1", "2"])
      (by decide +kernel)
  refine ⟨s, log, hentries, hreturned, cache_coherent (Nat.le_refl 1) hs ?_⟩
  rw [hasked]
  decide

end SnapshotCache
