import Mathlib.Data.Nat.Digits.Defs
import Mathlib.Data.UInt

/-!
# Node — SerializedValues — values that go over the bridge as JSON

`serializeBridgeValue` writes a byte buffer or a bigint as an object with a member `__type`, and any
other object as it is; `deserializeBridgeValue` takes every object with such a member for one of
the former.

* `round_trip_iff`: a value comes back as it was if and only if no object in it has one of the
  words for buffers, bigints and keys under `__type`.
-/

namespace BridgeHandlers

/-- A string, by its UTF-16 code units. -/
abbrev Text := List ℕ

def text (s : String) : Text := s.toList.map Char.toNat

/-- What is handed over: a number by the bits of its double, and an object by its members, whose
keys are distinct.  Key objects belong to the host. -/
inductive Value (Key : Type) where
  | null
  | bool (b : Bool)
  | number (bits : UInt64)
  | string (t : Text)
  | bigint (i : ℤ)
  | buffer (bytes : List UInt8)
  | array (entries : List (Value Key))
  | object (members : List (Text × Value Key))
  | keyObject (key : Key)
  | undefined

def Value.isUndefined {Key : Type} : Value Key → Bool
  | .undefined => true
  | _ => false

/-- What goes over the bridge. -/
inductive Serialized where
  | null
  | bool (b : Bool)
  | number (bits : UInt64)
  | string (t : Text)
  | array (entries : List Serialized)
  | object (members : List (Text × Serialized))

/-! ### Texts of numbers and bytes -/

/-- `i.toString()`. -/
def digits (n : ℕ) : Text := if n = 0 then [48] else ((Nat.digits 10 n).map (· + 48)).reverse

def bigintText : ℤ → Text
  | .ofNat n => digits n
  | .negSucc n => 45 :: digits (n + 1)

/-- The number of a decimal text. -/
def decimal (t : Text) : Option ℕ :=
  if t ≠ [] ∧ t.all fun c => 48 ≤ c ∧ c ≤ 57 then
    some (Nat.ofDigits 10 (t.reverse.map (· - 48)))
  else none

/-- `toString("base64")`, with letters by number. -/
def letters : Text :=
  (List.range 26).map (· + 65) ++ (List.range 26).map (· + 97) ++ (List.range 10).map (· + 48) ++
    [43, 47]

def letter (d : ℕ) : ℕ := letters.getD d 61

def base64 : List UInt8 → Text
  | [] => []
  | [a] => [letter (a.toNat / 4), letter (a.toNat % 4 * 16), 61, 61]
  | [a, b] => [letter (a.toNat / 4), letter (a.toNat % 4 * 16 + b.toNat / 16),
      letter (b.toNat % 16 * 4), 61]
  | a :: b :: c :: bytes => letter (a.toNat / 4) :: letter (a.toNat % 4 * 16 + b.toNat / 16) ::
      letter (b.toNat % 16 * 4 + c.toNat / 64) :: letter (c.toNat % 64) :: base64 bytes

/-- The bytes of six bits each. -/
def bytesOf : List ℕ → List UInt8
  | p :: q :: r :: s :: ds => .ofNat (p * 4 + q / 16) :: .ofNat (q % 16 * 16 + r / 4) ::
      .ofNat (r % 4 * 64 + s) :: bytesOf ds
  | [p, q, r] => [.ofNat (p * 4 + q / 16), .ofNat (q % 16 * 16 + r / 4)]
  | [p, q] => [.ofNat (p * 4 + q / 16)]
  | _ => []

/-- The six bits of a character; `-` and `_` are letters as well. -/
def sextet (c : ℕ) : Option ℕ :=
  letters.idxOf? (if c % 256 = 45 then 43 else if c % 256 = 95 then 47 else c % 256)

/-- `Buffer.from(t, "base64")` reads up to the padding. -/
def ofBase64 (t : Text) : List UInt8 := bytesOf ((t.takeWhile (· ≠ 61)).filterMap sextet)

/-- The host: its key objects, and what `Buffer.from` and `BigInt` make of a value that is no text
of theirs; `none` where they throw. -/
structure Host (Key : Type) where
  serializeAnyKeyObject : Key → Serialized
  deserializeSandboxKeyObject : Option Serialized → Option Key
  bufferFrom : Option Serialized → Option (List UInt8)
  bigInt : Option Serialized → Option ℤ

variable {Key : Type} (host : Host Key)

/-- `Buffer.from(value, "base64")`. -/
def Host.bufferOf : Option Serialized → Option (List UInt8)
  | some (.string t) => some (ofBase64 t)
  | value => host.bufferFrom value

/-- `BigInt(value)`. -/
def Host.bigintOf (value : Option Serialized) : Option ℤ :=
  (match value with
    | some (.string (45 :: t)) => (decimal t).map fun n => -(n : ℤ)
    | some (.string t) => (decimal t).map Nat.cast
    | _ => none).or (host.bigInt value)

/-! ### There and back -/

def tagged (type : String) (value : Serialized) : Serialized :=
  .object [(text "__type", .string (text type)), (text "value", value)]

theorem sizeOf_member {α : Type} [SizeOf α] {m : Text × α} {members : List (Text × α)}
    (h : m ∈ members) : sizeOf m.2 < 1 + sizeOf members := by
  have hm := List.sizeOf_lt_of_mem h
  obtain ⟨key, entry⟩ := m
  rw [Prod.mk.sizeOf_spec] at hm
  dsimp only
  omega

/-- The keys of an object are distinct: `Object.fromEntries` gives it its entries. -/
def serializeBridgeValue : Value Key → Serialized
  | .null => .null
  | .bool b => .bool b
  | .number bits => .number bits
  | .string t => .string t
  | .bigint i => tagged "bigint" (.string (bigintText i))
  | .buffer bytes => tagged "buffer" (.string (base64 bytes))
  | .array entries => .array (entries.map serializeBridgeValue)
  | .keyObject key => tagged "keyObject" (host.serializeAnyKeyObject key)
  | .object members => .object (members.filterMap fun m =>
      if m.2.isUndefined then none else some (m.1, serializeBridgeValue m.2))
  | .undefined => .string (text "undefined")
decreasing_by
  · decreasing_trivial
  · simpa using sizeOf_member ‹_›

/-- `JSON.parse(JSON.stringify(value))`. -/
def jsonRoundTrip : Serialized → Serialized
  | .number bits =>
    if bits.toNat / 2 ^ 52 % 2 ^ 11 = 2 ^ 11 - 1 then .null
    else if bits.toNat = 2 ^ 63 then .number 0
    else .number bits
  | .array entries => .array (entries.map jsonRoundTrip)
  | .object members => .object (members.map fun m => (m.1, jsonRoundTrip m.2))
  | value => value
decreasing_by
  · decreasing_trivial
  · simpa using sizeOf_member ‹_›

/-- What an object with this `__type` is taken for. -/
def untag (members : List (Text × Serialized)) : Option (Option (Value Key)) :=
  let value := members.lookup (text "value")
  match members.lookup (text "__type") with
  | some (.string t) =>
    if t = text "buffer" then some ((host.bufferOf value).map .buffer)
    else if t = text "bigint" then some ((host.bigintOf value).map .bigint)
    else if t = text "keyObject" then
      some ((host.deserializeSandboxKeyObject value).map .keyObject)
    else none
  | _ => none

def deserializeBridgeValue : Serialized → Option (Value Key)
  | .null => some .null
  | .bool b => some (.bool b)
  | .number bits => some (.number bits)
  | .string t => some (.string t)
  | .array entries => (entries.mapM deserializeBridgeValue).map .array
  | .object members =>
    match untag host members with
    | some value => value
    | none => (members.mapM fun m => (deserializeBridgeValue m.2).map (Prod.mk m.1)).map .object
decreasing_by
  · decreasing_trivial
  · simpa using sizeOf_member ‹_›

/-! ### Texts come back -/

theorem letter_spec {d : ℕ} (h : d < 64) : letter d ≠ 61 ∧ sextet (letter d) = some d := by
  have hall : ∀ d ∈ List.range 64, letter d ≠ 61 ∧ sextet (letter d) = some d := by decide
  exact hall d (List.mem_range.mpr h)

theorem ofBase64_cons {d : ℕ} (h : d < 64) (t : Text) :
    ((letter d :: t).takeWhile (· ≠ 61)).filterMap sextet =
      d :: (t.takeWhile (· ≠ 61)).filterMap sextet := by
  rw [List.takeWhile_cons_of_pos (by simpa using (letter_spec h).1),
    List.filterMap_cons_some (letter_spec h).2]

theorem ofBase64_base64 : ∀ bytes : List UInt8, ofBase64 (base64 bytes) = bytes
  | [] => rfl
  | [a] => by
      have ha := a.toNat_lt
      rw [ofBase64, base64, ofBase64_cons (by omega), ofBase64_cons (by omega)]
      simp [bytesOf, ← UInt8.toNat_inj]
      omega
  | [a, b] => by
      have ha := a.toNat_lt
      have hb := b.toNat_lt
      rw [ofBase64, base64, ofBase64_cons (by omega), ofBase64_cons (by omega),
        ofBase64_cons (by omega)]
      simp [bytesOf, ← UInt8.toNat_inj]
      omega
  | a :: b :: c :: bytes => by
      have ha := a.toNat_lt
      have hb := b.toNat_lt
      have hc := c.toNat_lt
      have ih := ofBase64_base64 bytes
      rw [ofBase64] at ih
      rw [ofBase64, base64, ofBase64_cons (by omega), ofBase64_cons (by omega),
        ofBase64_cons (by omega), ofBase64_cons (by omega), bytesOf, ih]
      simp [← UInt8.toNat_inj]
      omega

theorem decimal_digits (n : ℕ) : decimal (digits n) = some n ∧ (digits n).head? ≠ some 45 := by
  have hrange : ∀ c ∈ digits n, 48 ≤ c ∧ c ≤ 57 := by
    intro c hc
    rw [digits] at hc
    split at hc
    · simp_all
    · obtain ⟨d, hd, rfl⟩ := List.mem_map.mp (List.mem_reverse.mp hc)
      have := Nat.digits_lt_base (by decide) hd
      omega
  have hne : digits n ≠ [] := by
    rw [digits]
    split
    · exact List.cons_ne_nil _ _
    · rename_i hn
      simpa [Nat.digits_eq_nil_iff_eq_zero] using hn
  constructor
  · rw [decimal, if_pos ⟨hne, by simpa using hrange⟩, digits]
    split
    · rename_i hn
      rw [hn]
      rfl
    · simp [Function.comp_def, Nat.ofDigits_digits]
  · intro hh
    have := hrange 45 (List.mem_of_mem_head? hh)
    omega

theorem bigintOf_text (i : ℤ) : host.bigintOf (some (.string (bigintText i))) = some i := by
  cases i with
  | ofNat n =>
      obtain ⟨hd, hh⟩ := decimal_digits n
      rw [bigintText, Host.bigintOf, hd]
      · rfl
      · intro t ht
        exact hh (by rw [ht]; rfl)
  | negSucc n =>
      rw [bigintText, Host.bigintOf, (decimal_digits _).1]
      rfl

/-! ### Values come back -/

/-- The values that are to come back. -/
inductive Plain : Value Key → Prop where
  | null : Plain .null
  | bool (b : Bool) : Plain (.bool b)
  /-- Finite, and not -0. -/
  | number (bits : UInt64) (finite : bits.toNat / 2 ^ 52 % 2 ^ 11 ≠ 2 ^ 11 - 1)
      (sign : bits.toNat ≠ 2 ^ 63) : Plain (.number bits)
  | string (t : Text) : Plain (.string t)
  | bigint (i : ℤ) : Plain (.bigint i)
  | buffer (bytes : List UInt8) : Plain (.buffer bytes)
  | array {entries : List (Value Key)} (h : ∀ e ∈ entries, Plain e) : Plain (.array entries)
  | object {members : List (Text × Value Key)} (h : ∀ m ∈ members, Plain m.2) :
      Plain (.object members)

/-- The value comes back as it was. -/
def RoundTrips (v : Value Key) : Prop :=
  deserializeBridgeValue host (jsonRoundTrip (serializeBridgeValue host v)) = some v

/-- The object has a word for another kind of value under `__type`. -/
def Tagged (members : List (Text × Value Key)) : Prop :=
  ∃ type ∈ ["buffer", "bigint", "keyObject"],
    members.lookup (text "__type") = some (.string (text type))

/-- The value is the other, or in it. -/
inductive Within (w : Value Key) : Value Key → Prop where
  | self : Within w w
  | entry {entries : List (Value Key)} {e : Value Key} (he : e ∈ entries) (h : Within w e) :
      Within w (.array entries)
  | member {members : List (Text × Value Key)} {m : Text × Value Key} (hm : m ∈ members)
      (h : Within w m.2) : Within w (.object members)

/-- No object in the value is tagged. -/
def Untagged (v : Value Key) : Prop := ∀ members, Within (.object members) v → ¬ Tagged members

variable {host} {v : Value Key} {members : List (Text × Value Key)}

theorem mapM_map_iff {α β : Type} {f : α → β} {g : β → Option α} :
    ∀ l : List α, (l.map f).mapM g = some l ↔ ∀ x ∈ l, g (f x) = some x
  | [] => by simp
  | x :: l => by
      rw [List.map_cons, List.mapM_cons, List.forall_mem_cons, ← mapM_map_iff l]
      simp only [Option.bind_eq_bind, Option.bind_eq_some_iff, Option.pure_def,
        Option.some.injEq, List.cons.injEq]
      constructor
      · rintro ⟨y, hy, ys, hys, rfl, rfl⟩
        exact ⟨hy, hys⟩
      · rintro ⟨hy, hys⟩
        exact ⟨x, hy, l, hys, rfl, rfl⟩

theorem lookup_map {α β : Type} {f : α → β} (k : Text) : ∀ l : List (Text × α),
    (l.map fun m => (m.1, f m.2)).lookup k = (l.lookup k).map f
  | [] => rfl
  | m :: l => by
      rw [List.map_cons, List.lookup_cons, List.lookup_cons, lookup_map k l]
      split <;> rfl

theorem Plain.defined (h : Plain v) : v.isUndefined = false := by
  cases h <;> rfl

/-- How the members of a plain object arrive. -/
theorem object_arrives (h : ∀ m ∈ members, Plain m.2) :
    jsonRoundTrip (serializeBridgeValue host (.object members)) =
      .object (members.map fun m => (m.1, jsonRoundTrip (serializeBridgeValue host m.2))) := by
  have hdef : (members.filterMap fun m => if m.2.isUndefined then none else
      some (m.1, serializeBridgeValue host m.2)) =
      members.map fun m => (m.1, serializeBridgeValue host m.2) := by
    rw [← List.filterMap_eq_map]
    refine List.filterMap_congr fun m hm => ?_
    rw [(h m hm).defined]
    rfl
  rw [serializeBridgeValue, hdef, jsonRoundTrip, List.map_map]
  rfl

theorem number_arrives {bits : UInt64} (hf : bits.toNat / 2 ^ 52 % 2 ^ 11 ≠ 2 ^ 11 - 1)
    (hs : bits.toNat ≠ 2 ^ 63) :
    jsonRoundTrip (serializeBridgeValue host (.number bits)) = .number bits := by
  rw [serializeBridgeValue, jsonRoundTrip, if_neg hf, if_neg hs]

/-- What arrives as a string was one. -/
theorem arrives_string_iff (h : Plain v) {t : Text} :
    jsonRoundTrip (serializeBridgeValue host v) = .string t ↔ v = .string t := by
  cases h with
  | number bits hf hs => simp [number_arrives hf hs]
  | null | bool | string | bigint | buffer | array | object =>
      simp [serializeBridgeValue, jsonRoundTrip, tagged]

theorem mem_of_lookup {α : Type} {k : Text} {x : α} {l : List (Text × α)}
    (h : l.lookup k = some x) : ∃ m ∈ l, m.2 = x := by
  induction l with
  | nil => cases h
  | cons m l ih =>
      rw [List.lookup_cons] at h
      split at h
      · exact ⟨m, List.mem_cons_self, Option.some.inj h⟩
      · obtain ⟨m', hm, hx⟩ := ih h
        exact ⟨m', List.mem_cons_of_mem _ hm, hx⟩

/-- The tag of an object is known when it arrives, and nothing else is taken for one. -/
theorem untag_isSome_iff (h : ∀ m ∈ members, Plain m.2) :
    (untag host (members.map fun m => (m.1, jsonRoundTrip (serializeBridgeValue host m.2)))).isSome
      ↔ Tagged members := by
  rw [untag, lookup_map (f := fun v => jsonRoundTrip (serializeBridgeValue host v)) (text "__type")]
  unfold Tagged
  cases hl : members.lookup (text "__type") with
  | none => simp
  | some v =>
      obtain ⟨m, hm, rfl⟩ := mem_of_lookup hl
      simp only [Option.map_some, Option.some.injEq, List.mem_cons, List.not_mem_nil, or_false,
        exists_eq_or_imp, exists_eq_left]
      split
      · rename_i t ht
        rw [(arrives_string_iff (h m hm)).mp (Option.some.inj ht)]
        simp only [Value.string.injEq]
        split
        · simp_all
        · split
          · simp_all
          · split <;> simp_all
      · rename_i hno
        simp only [Option.isSome_none, Bool.false_eq_true, false_iff]
        rintro (ht | ht | ht) <;>
          exact hno _ (congrArg some ((arrives_string_iff (h m hm)).mpr ht))

/-- What a tagged object becomes is no object. -/
theorem untag_ne {ms : List (Text × Serialized)} {value : Option (Value Key)}
    (h : untag host ms = some value) : value ≠ some (.object members) := by
  unfold untag at h
  split at h
  · split at h
    · cases h; simp
    · split at h
      · cases h; simp
      · split at h
        · cases h; simp
        · cases h
  · cases h

theorem roundTrips_array {entries : List (Value Key)} :
    RoundTrips host (.array entries) ↔ ∀ e ∈ entries, RoundTrips host e := by
  rw [RoundTrips, serializeBridgeValue, jsonRoundTrip, deserializeBridgeValue, List.map_map,
    Option.map_eq_some_iff]
  constructor
  · rintro ⟨es, hes, he⟩
    cases he
    exact (mapM_map_iff _).mp hes
  · exact fun h => ⟨entries, (mapM_map_iff entries).mpr h, rfl⟩

theorem roundTrips_object (h : ∀ m ∈ members, Plain m.2) :
    RoundTrips host (.object members) ↔
      ¬ Tagged members ∧ ∀ m ∈ members, RoundTrips host m.2 := by
  have hu : (untag host _).isSome ↔ Tagged members := untag_isSome_iff h
  rw [RoundTrips, object_arrives h, deserializeBridgeValue, ← hu]
  split
  · rename_i value hs
    rw [hs]
    simp [untag_ne hs]
  · rename_i hs
    rw [hs, Option.map_eq_some_iff]
    simp only [Option.isSome_none, Bool.false_eq_true, not_false_eq_true, true_and]
    have hmap := mapM_map_iff (f := fun m : Text × Value Key =>
      (m.1, jsonRoundTrip (serializeBridgeValue host m.2)))
      (g := fun m => (deserializeBridgeValue host m.2).map (Prod.mk m.1)) members
    have heach : ∀ m : Text × Value Key, (deserializeBridgeValue host
        (jsonRoundTrip (serializeBridgeValue host m.2))).map (Prod.mk m.1) = some m ↔
          RoundTrips host m.2 := by
      intro m
      rw [Option.map_eq_some_iff]
      constructor
      · rintro ⟨w, hw, hm⟩
        exact congrArg Prod.snd hm ▸ hw
      · exact fun hw => ⟨m.2, hw, rfl⟩
    simp only [heach] at hmap
    rw [← hmap]
    constructor
    · rintro ⟨ms, hms, he⟩
      cases he
      exact hms
    · exact fun hms => ⟨members, hms, rfl⟩

/-- **A value comes back** if and only if no object in it is tagged. -/
theorem round_trip_iff (h : Plain v) : RoundTrips host v ↔ Untagged v := by
  induction h with
  | number bits hf hs =>
      refine iff_of_true ?_ fun _ hw => nomatch hw
      rw [RoundTrips, number_arrives hf hs, deserializeBridgeValue]
  | null | bool | string =>
      refine iff_of_true ?_ fun _ hw => nomatch hw
      simp [RoundTrips, serializeBridgeValue, jsonRoundTrip, deserializeBridgeValue]
  | bigint i =>
      refine iff_of_true ?_ fun _ hw => nomatch hw
      have hu : untag host [(text "__type", .string (text "bigint")),
          (text "value", .string (bigintText i))] =
          some ((host.bigintOf (some (.string (bigintText i)))).map .bigint) := rfl
      rw [RoundTrips, serializeBridgeValue, tagged]
      simp [jsonRoundTrip, deserializeBridgeValue, hu, bigintOf_text]
  | buffer bytes =>
      refine iff_of_true ?_ fun _ hw => nomatch hw
      have hu : untag host [(text "__type", .string (text "buffer")),
          (text "value", .string (base64 bytes))] =
          some ((host.bufferOf (some (.string (base64 bytes)))).map .buffer) := rfl
      rw [RoundTrips, serializeBridgeValue, tagged]
      simp [jsonRoundTrip, deserializeBridgeValue, hu, Host.bufferOf, ofBase64_base64]
  | array _ ih =>
      rw [roundTrips_array]
      constructor
      · rintro hr members (_ | ⟨he, hw⟩)
        exact (ih _ he).mp (hr _ he) members hw
      · exact fun hu e he => (ih e he).mpr fun members hw => hu members (.entry he hw)
  | object hp ih =>
      rw [roundTrips_object hp]
      constructor
      · rintro ⟨ht, hr⟩ members (_ | _ | ⟨hm, hw⟩)
        · exact ht
        · exact (ih _ hm).mp (hr _ hm) members hw
      · exact fun hu => ⟨hu _ .self, fun m hm => (ih m hm).mpr fun members hw =>
          hu members (.member hm hw)⟩

/-- A host without key objects, where `BigInt` and `Buffer.from` throw. -/
def keyless : Host Empty where
  serializeAnyKeyObject := nofun
  deserializeSandboxKeyObject _ := none
  bufferFrom _ := none
  bigInt _ := none

theorem round_trip_nested :
    RoundTrips keyless (.object [(text "bytes", .array [.buffer [104, 105]])]) := by
  refine (round_trip_iff (.object ?_)).mpr ?_
  · simpa using Plain.array (by simpa using Plain.buffer _)
  · rintro members (_ | _ | ⟨hm, hw⟩) ⟨type, -, ht⟩
    · cases ht
    · rw [List.mem_singleton.mp hm] at hw
      obtain _ | ⟨he, hw⟩ := hw
      rw [List.mem_singleton.mp he] at hw
      cases hw

/-- An object that says that it is a bigint. -/
def bigintObject : Value Empty :=
  .object [(text "__type", .string (text "bigint")), (text "value", .string (text "1"))]

/-- It comes back as a bigint. -/
theorem tagged_not_round_trip : Plain bigintObject ∧ ¬ RoundTrips keyless bigintObject := by
  have hp : ∀ m ∈ [(text "__type", (.string (text "bigint") : Value Empty)),
      (text "value", .string (text "1"))], Plain m.2 := by
    simpa using ⟨Plain.string _, Plain.string _⟩
  exact ⟨.object hp, fun hr => ((roundTrips_object hp).mp hr).1 ⟨"bigint", by simp, rfl⟩⟩

end BridgeHandlers
