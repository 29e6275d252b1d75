import SecureExec.Lib.OMap

/-!
# Http — HeaderFields — header fields in ordinary objects

The bridge collects the fields of a message in an ordinary object, one by one with
`appendNormalizedHeader`.  Such an object answers to names that it does not have: `inherited` is
then taken for a first value, and what is written to `__proto__` is lost.

* `kept_build_iff`: it has what the fields of the name say if no name is inherited.
* `finalize_build`: each field is then written back once, and no other.
-/

namespace Http

/-- A string as its character codes.  A buffer is the string that `latin1` makes of it. -/
abbrev Text := List ℕ

def text (s : String) : Text := s.toList.map Char.toNat

/-- `toLowerCase`, of tokens. -/
def toLowerCase (t : Text) : Text := t.map fun c => if 65 ≤ c ∧ c ≤ 90 then c + 32 else c

inductive HeaderValue where
  | one (value : Text)
  | many (values : List Text)
  deriving DecidableEq

abbrev Headers := OMap Text HeaderValue

/-- What an object answers to without having it, as it stands in a string.  The other names of
`Object.prototype` are not in lower case. -/
def inherited (key : Text) : Option Text :=
  if key = text "constructor" then some (text "function Object() { [native code] }")
  else if key = text "__proto__" then some (text "[object Object]")
  else none

/-- `headers[key]`. -/
def property (headers : Headers) (key : Text) : Option HeaderValue :=
  (headers.get key).or ((inherited key).map .one)

/-- `headers[key] = value`.  No value of a header is taken for a prototype. -/
def assign (headers : Headers) (key : Text) (value : HeaderValue) : Headers :=
  if key = text "__proto__" then headers else headers.set key value

def joinHeaderValue : HeaderValue → Text
  | .one value => value
  | .many values => List.intercalate (text ", ") values

/-- The value that one more field makes of what is there. -/
def appended (key value : Text) (existing : Option HeaderValue) : HeaderValue :=
  if key = text "set-cookie" then
    match existing with
    | none => .many [value]
    | some (.many values) => .many (values ++ [value])
    | some (.one other) => .many [other, value]
  else
    match existing with
    | none => .one value
    | some other => .one (joinHeaderValue other ++ text ", " ++ value)

def appendNormalizedHeader (target : Headers) (key value : Text) : Headers :=
  assign target key (appended key value (property target key))

def checkIsHttpToken (value : Text) : Bool :=
  value ≠ [] && value.all fun c =>
    (48 ≤ c && c ≤ 57) || (65 ≤ c && c ≤ 90) || (97 ≤ c && c ≤ 122) || c ∈ text "!#$%&'*+-.^_`|~"

def checkInvalidHeaderChar (value : Text) : Bool :=
  value.any fun c => c ≠ 9 && (c < 32 || c = 127 || 255 < c)

/-- `validateHeaderName` and `validateHeaderValue` let the field pass. -/
def isValid (field : Text × Text) : Bool :=
  checkIsHttpToken field.1 && !checkInvalidHeaderChar field.2

/-- The values of one name; `none` where a check throws. -/
def normalizeEntry (normalized : Headers) (entry : Text × List Text) : Option Headers :=
  if checkIsHttpToken entry.1 ∧ entry.2.all fun value => !checkInvalidHeaderChar value then
    some (entry.2.foldl (fun h value => appendNormalizedHeader h (toLowerCase entry.1) value)
      normalized)
  else none

/-- The names of an array of names and values, or of an object, with the values of each. -/
def normalizeRequestHeaders (headers : List (Text × List Text)) : Option Headers :=
  headers.foldlM normalizeEntry .empty

structure RawHeaderPairs where
  headers : Headers
  rawNameMap : OMap Text Text
  order : List Text

/-- One turn of the loops of `serializeRawHeaderPairs`. -/
def RawHeaderPairs.add (pairs : RawHeaderPairs) (field : Text × Text) : RawHeaderPairs :=
  let normalizedName := toLowerCase field.1
  let headers := appendNormalizedHeader pairs.headers normalizedName field.2
  if pairs.rawNameMap.has normalizedName then { pairs with headers }
  else ⟨headers, pairs.rawNameMap.set normalizedName field.1, pairs.order ++ [normalizedName]⟩

/-- The fields as pairs, in an array or in the fallback. -/
def serializeRawHeaderPairs (rawHeaders : Option (List (Text × Text)))
    (fallbackHeaders : Option (List (Text × Text))) : RawHeaderPairs :=
  (match rawHeaders with
    | some (field :: fields) => field :: fields
    | _ => fallbackHeaders.getD []).foldl .add ⟨.empty, .empty, []⟩

/-- What is written for a value. -/
def serialized (key : Text) : HeaderValue → List Text
  | .one value => [value]
  | .many values =>
    if key = text "set-cookie" then values else [List.intercalate (text ", ") values]

/-- `rawNameMap.get(key) || key`. -/
def rawName (rawNameMap : OMap Text Text) (key : Text) : Text :=
  match rawNameMap.get key with
  | some (c :: name) => c :: name
  | _ => key

def finalizeRawHeaderPairs (headers : Headers) (rawNameMap : OMap Text Text) (order : List Text) :
    List (Text × Text) :=
  let write (key : Text) (value : HeaderValue) :=
    (serialized key value).map fun entry => (rawName rawNameMap key, entry)
  let seen := order.filter fun key => (property headers key).isSome
  order.flatMap (fun key => (property headers key).elim [] (write key)) ++
    (headers.entries.filter fun e => e.1 ∉ seen).flatMap fun e => write e.1 e.2

/-! ### What fields of one name say -/

/-- The values of the name, in order. -/
def valuesOf (fields : List (Text × Text)) (key : Text) : List Text :=
  (fields.filter fun field => toLowerCase field.1 = key).map Prod.snd

/-- Values of one name together. -/
def combined (key : Text) (values : List Text) : HeaderValue :=
  if key = text "set-cookie" then .many values else .one (List.intercalate (text ", ") values)

/-- What a header object should have for the name. -/
def kept (fields : List (Text × Text)) (key : Text) : Option HeaderValue :=
  if valuesOf fields key = [] then none else some (combined key (valuesOf fields key))

/-- The names of the fields are the keys of the object, with the values that the fields say. -/
def Kept (fields : List (Text × Text)) (headers : Headers) : Prop :=
  ∀ key, headers.get key = kept fields key

/-- The fields one by one. -/
def build (fields : List (Text × Text)) : Headers :=
  fields.foldl (fun headers field => appendNormalizedHeader headers (toLowerCase field.1) field.2)
    .empty

/-- No field is called `constructor` or `__proto__`. -/
def Ordinary (fields : List (Text × Text)) : Prop :=
  ∀ field ∈ fields, inherited (toLowerCase field.1) = none

variable {fields : List (Text × Text)} {key : Text}

theorem intercalate_concat (sep t : Text) {ts : List Text} (h : ts ≠ []) :
    List.intercalate sep (ts ++ [t]) = List.intercalate sep ts ++ sep ++ t := by
  induction ts with
  | nil => exact absurd rfl h
  | cons u ts ih =>
      cases ts with
      | nil => simp
      | cons v ts => simpa using ih (List.cons_ne_nil v ts)

variable (field : Text × Text)

theorem valuesOf_concat :
    valuesOf (fields ++ [field]) key =
      valuesOf fields key ++ if toLowerCase field.1 = key then [field.2] else [] := by
  rw [valuesOf, valuesOf, List.filter_append, List.map_append]
  by_cases h : toLowerCase field.1 = key <;> simp [h]

theorem build_concat :
    build (fields ++ [field]) =
      appendNormalizedHeader (build fields) (toLowerCase field.1) field.2 := by
  rw [build, List.foldl_append]
  rfl

/-- One more field, at its own name and at others. -/
theorem get_append (headers : Headers) (name value : Text) :
    (appendNormalizedHeader headers name value).get key =
      if key = name ∧ name ≠ text "__proto__" then
        some (appended name value (property headers name))
      else headers.get key := by
  unfold appendNormalizedHeader assign
  by_cases hp : name = text "__proto__"
  · simp [hp]
  · simp [hp, OMap.get_set]

/-- One more value, where there are values. -/
theorem appended_combined (value : Text) {values : List Text} (h : values ≠ []) :
    appended key value (some (combined key values)) = combined key (values ++ [value]) := by
  unfold appended combined
  by_cases hs : key = text "set-cookie"
  · rw [if_pos hs, if_pos hs, if_pos hs]
  · rw [if_neg hs, if_neg hs, if_neg hs, intercalate_concat _ _ h]
    rfl

theorem appended_none (value : Text) : appended key value none = combined key [value] := by
  unfold appended combined
  by_cases hs : key = text "set-cookie"
  · rw [if_pos hs, if_pos hs]
  · rw [if_neg hs, if_neg hs]
    simp [List.intercalate]

theorem inherited_ne_cookie {t : Text} (h : inherited key = some t) : key ≠ text "set-cookie" := by
  rintro rfl
  cases h

/-- What a name answers to without fields counts as the first value. -/
theorem get_build (hkey : key ≠ text "__proto__") : ∀ fields : List (Text × Text),
    (build fields).get key = if valuesOf fields key = [] then none
      else some (combined key ((inherited key).toList ++ valuesOf fields key)) := by
  intro fields
  induction fields using List.reverseRecOn with
  | nil => rfl
  | append_singleton fields field ih =>
      rw [build_concat, get_append, valuesOf_concat, ih]
      by_cases hf : toLowerCase field.1 = key
      · subst hf
        rw [if_pos ⟨rfl, hkey⟩, if_pos rfl, if_neg (by simp), property, ih]
        by_cases hv : valuesOf fields (toLowerCase field.1) = []
        · rw [if_pos hv, hv, Option.none_or, List.nil_append]
          cases hi : inherited (toLowerCase field.1) with
          | none => exact congrArg some (appended_none _)
          | some t =>
              have hone : combined (toLowerCase field.1) [t] = .one t := by
                rw [combined, if_neg (inherited_ne_cookie hi)]
                simp [List.intercalate]
              rw [Option.map_some, ← hone, appended_combined _ (List.cons_ne_nil _ _)]
              rfl
        · rw [if_neg hv, Option.some_or, appended_combined _ (by simp [hv]), List.append_assoc]
      · rw [if_neg (fun h => hf h.1.symm), if_neg hf, List.append_nil]

/-- Nothing is kept under `__proto__`. -/
theorem get_build_proto (fields : List (Text × Text)) :
    (build fields).get (text "__proto__") = none := by
  induction fields using List.reverseRecOn with
  | nil => rfl
  | append_singleton fields field ih =>
      rw [build_concat, get_append, ih, if_neg fun h => h.2 h.1.symm]

theorem valuesOf_eq_nil_iff : valuesOf fields key = [] ↔ ∀ f ∈ fields, toLowerCase f.1 ≠ key := by
  simp [valuesOf, List.filter_eq_nil_iff]

theorem Ordinary.inherited (h : Ordinary fields) (hv : valuesOf fields key ≠ []) :
    inherited key = none := by
  by_contra hi
  exact hv (valuesOf_eq_nil_iff.mpr fun f hf hk => hi (hk ▸ h f hf))

/-- **The object keeps the fields** if and only if no name is one that objects answer to. -/
theorem kept_build_iff : Kept fields (build fields) ↔ Ordinary fields := by
  constructor
  · intro h f hf
    by_contra hi
    have hv : valuesOf fields (toLowerCase f.1) ≠ [] :=
      fun h => valuesOf_eq_nil_iff.mp h f hf rfl
    have hkept := h (toLowerCase f.1)
    rw [kept, if_neg hv] at hkept
    by_cases hp : toLowerCase f.1 = text "__proto__"
    · rw [hp, get_build_proto] at hkept
      cases hkept
    · obtain ⟨t, ht⟩ := Option.ne_none_iff_exists'.mp hi
      have hs := inherited_ne_cookie ht
      rw [get_build hp, if_neg hv, combined, combined, if_neg hs, if_neg hs, ht] at hkept
      obtain ⟨v, vs, hvs⟩ := List.exists_cons_of_ne_nil hv
      have hlen := congrArg List.length (HeaderValue.one.inj (Option.some.inj hkept))
      simp [hvs, List.intercalate, text] at hlen
      omega
  · intro h key
    rw [kept]
    by_cases hp : key = text "__proto__"
    · subst hp
      rw [get_build_proto, if_pos]
      by_contra hv
      exact absurd (h.inherited hv) (by decide)
    · rw [get_build hp]
      by_cases hv : valuesOf fields key = []
      · rw [if_pos hv, if_pos hv]
      · rw [if_neg hv, if_neg hv, h.inherited hv]
        rfl

/-- The array, or the object, is read field by field. -/
theorem normalizeRequestHeaders_eq {headers : List (Text × List Text)}
    (h : ∀ e ∈ headers, checkIsHttpToken e.1 ∧ ∀ v ∈ e.2, checkInvalidHeaderChar v = false) :
    normalizeRequestHeaders headers =
      some (build (headers.flatMap fun e => e.2.map (Prod.mk e.1))) := by
  induction headers using List.reverseRecOn with
  | nil => rfl
  | append_singleton headers e ih =>
      obtain ⟨hname, hvalues⟩ := h e (by simp)
      rw [normalizeRequestHeaders, List.foldlM_append, ← normalizeRequestHeaders,
        ih fun e' he' => h e' (List.mem_append_left _ he')]
      simpa [normalizeEntry, hname, build, List.foldl_map] using hvalues

/-! ### Written back -/

/-- What `serializeRawHeaderPairs` has made of the fields. -/
structure Collected (fields : List (Text × Text)) (pairs : RawHeaderPairs) : Prop where
  headers : pairs.headers = build fields
  nodup : pairs.order.Nodup
  mem_order : ∀ key, key ∈ pairs.order ↔ key ∈ fields.map fun f => toLowerCase f.1
  has : ∀ key, pairs.rawNameMap.has key = true ↔ key ∈ pairs.order
  spelling : ∀ key name, pairs.rawNameMap.get key = some name → toLowerCase name = key

variable {pairs : RawHeaderPairs}

theorem Collected.add (h : Collected fields pairs) (f : Text × Text) :
    Collected (fields ++ [f]) (pairs.add f) := by
  have hheaders : appendNormalizedHeader pairs.headers (toLowerCase f.1) f.2 =
      build (fields ++ [f]) := by
    rw [build_concat, h.headers]
  unfold RawHeaderPairs.add
  dsimp only
  by_cases hhas : pairs.rawNameMap.has (toLowerCase f.1) = true
  · rw [if_pos hhas]
    refine ⟨hheaders, h.nodup, fun key => ?_, h.has, h.spelling⟩
    have hin := (h.mem_order _).mp ((h.has _).mp hhas)
    rw [h.mem_order, List.map_append, List.mem_append, List.map_singleton, List.mem_singleton]
    exact ⟨.inl, fun hk => hk.elim id fun he => he ▸ hin⟩
  · rw [if_neg hhas]
    have hnew : toLowerCase f.1 ∉ pairs.order := fun hk => hhas ((h.has _).mpr hk)
    refine ⟨hheaders, ?_, fun key => ?_, fun key => ?_, fun key name hk => ?_⟩
    · exact List.nodup_append.mpr ⟨h.nodup, List.nodup_singleton _, by
        rintro a ha b hb rfl
        exact hnew (List.mem_singleton.mp hb ▸ ha)⟩
    · simp [h.mem_order]
    · rw [OMap.has, OMap.get_set]
      by_cases hk : key = toLowerCase f.1
      · simp [hk]
      · have := h.has key
        rw [OMap.has] at this
        simp [hk, this]
    · rw [OMap.get_set] at hk
      split at hk
      · rename_i he
        rw [he, ← Option.some.inj hk]
      · exact h.spelling key name hk

theorem collected (fields : List (Text × Text)) :
    Collected fields (serializeRawHeaderPairs (some fields) none) := by
  have hfold : serializeRawHeaderPairs (some fields) none =
      fields.foldl RawHeaderPairs.add ⟨.empty, .empty, []⟩ := by
    cases fields <;> rfl
  rw [hfold]
  induction fields using List.reverseRecOn with
  | nil => exact ⟨rfl, List.nodup_nil, by simp, fun key => by simp [OMap.has, OMap.get, OMap.empty],
      fun key name h => by cases h⟩
  | append_singleton fields f ih =>
      rw [List.foldl_append]
      exact (ih (by cases fields <;> rfl)).add f

/-- Of what is written key by key, the part of one key. -/
theorem filter_flatMap {α : Type} (k : Text) (g : Text → List (Text × α)) :
    ∀ keys : List Text, keys.Nodup → (∀ key ∈ keys, ∀ p ∈ g key, toLowerCase p.1 = key) →
      (keys.flatMap g).filter (fun p => toLowerCase p.1 = k) = if k ∈ keys then g k else []
  | [], _, _ => by simp
  | key :: keys, hnd, hg => by
      have ih := filter_flatMap k g keys (List.nodup_cons.mp hnd).2
        fun key' hk => hg key' (List.mem_cons_of_mem _ hk)
      rw [List.flatMap_cons, List.filter_append, ih]
      have hhead := hg key List.mem_cons_self
      by_cases hk : key = k
      · subst hk
        rw [List.filter_eq_self.mpr fun p hp => by simpa using hhead p hp,
          if_neg (List.nodup_cons.mp hnd).1, if_pos List.mem_cons_self, List.append_nil]
      · rw [List.filter_eq_nil_iff.mpr fun p hp => by simpa [hhead p hp] using hk, List.nil_append]
        simp [Ne.symm hk]

theorem Collected.rawName (h : Collected fields pairs)
    (hkey : key ∈ pairs.order) : toLowerCase (rawName pairs.rawNameMap key) = key := by
  obtain ⟨name, hname⟩ := Option.isSome_iff_exists.mp ((h.has key).mpr hkey)
  have hlower := h.spelling key name hname
  rw [Http.rawName, hname]
  cases name with
  | nil => rw [← hlower]; rfl
  | cons c name => exact hlower

/-- **Each field is written back once** and no other, where the object keeps the fields. -/
theorem finalize_build (h : Ordinary fields) (key : Text) :
    let pairs := serializeRawHeaderPairs (some fields) none
    ((finalizeRawHeaderPairs pairs.headers pairs.rawNameMap pairs.order).filter
        fun p => toLowerCase p.1 = key).map Prod.snd =
      (kept fields key).elim [] (serialized key) := by
  intro pairs
  have hc : Collected fields pairs := collected fields
  have hget : ∀ k, pairs.headers.get k = kept fields k := hc.headers ▸ kept_build_iff.mpr h
  have hmem : ∀ k, kept fields k ≠ none → k ∈ pairs.order := fun k hk => by
    rw [hc.mem_order, List.mem_map]
    by_contra hno
    refine hk (if_pos (valuesOf_eq_nil_iff.mpr fun f hf hl => hno ⟨f, hf, hl⟩))
  have hprop : ∀ k ∈ pairs.order, property pairs.headers k = kept fields k := fun k hk => by
    obtain ⟨f, hf, hl⟩ := List.mem_map.mp ((hc.mem_order k).mp hk)
    rw [property, hget, ← hl, h f hf, Option.map_none, Option.or_none]
  have hrest : (pairs.headers.entries.filter fun e =>
      e.1 ∉ pairs.order.filter fun k => (property pairs.headers k).isSome) = [] := by
    rw [List.filter_eq_nil_iff]
    intro e he
    have hsome := (OMap.get_eq_some_iff _ _ _).mpr he
    have hin := hmem e.1 (by rw [← hget, hsome]; exact Option.some_ne_none _)
    have hp := hprop e.1 hin
    rw [← hget, hsome] at hp
    simp [hin, hp]
  rw [finalizeRawHeaderPairs]
  dsimp only
  rw [hrest, List.flatMap_nil, List.append_nil, filter_flatMap key _ _ hc.nodup]
  · split
    · rename_i hin
      rw [hprop key hin]
      cases kept fields key <;> simp
    · rename_i hin
      rw [not_ne_iff.mp fun hk => hin (hmem key hk)]
      rfl
  · intro k hk p hp
    cases hv : property pairs.headers k with
    | none => rw [hv] at hp; cases hp
    | some value =>
        rw [hv] at hp
        obtain ⟨entry, -, rfl⟩ := List.mem_map.mp hp
        exact hc.rawName hk

end Http
