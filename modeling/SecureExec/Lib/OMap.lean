import Mathlib.Data.UInt
import Mathlib.Data.List.Nodup
import Mathlib.Algebra.Order.BigOperators.Group.List

/-!
# Lib — OMap — finite maps in insertion order

`OMap κ α` is a finite map that remembers the order its keys were inserted in: a list of
key–value pairs with pairwise distinct keys.  `set` on a present key keeps the key's place, `set`
on an absent one appends, `delete` removes the pair, and iteration follows the list.

Two kinds of lemma are used below: what `get` returns after each operation, and what each
operation does to a sum over the pairs (`sumBy`), which is how entries are counted.
-/

/-- A finite map in insertion order. -/
structure OMap (κ α : Type) where
  entries : List (κ × α)
  nodup : (entries.map Prod.fst).Nodup

namespace OMap

variable {κ α : Type} [DecidableEq κ]

/-! ### On lists of pairs -/

/-- `set` on the list of pairs. -/
def setL (k : κ) (v : α) : List (κ × α) → List (κ × α)
  | [] => [(k, v)]
  | e :: l => if e.1 = k then (k, v) :: l else e :: setL k v l

/-- `delete` on the list of pairs. -/
def deleteL (k : κ) : List (κ × α) → List (κ × α)
  | [] => []
  | e :: l => if e.1 = k then l else e :: deleteL k l

theorem mem_keys_setL {k k' : κ} {v : α} :
    ∀ l : List (κ × α), k' ∈ (setL k v l).map Prod.fst ↔ k' = k ∨ k' ∈ l.map Prod.fst
  | [] => by simp [setL]
  | e :: l => by
      simp only [setL]
      split
      · rename_i h; simp [h]
      · simp only [List.map_cons, List.mem_cons, mem_keys_setL l]; tauto

theorem nodup_setL {k : κ} {v : α} :
    ∀ l : List (κ × α), (l.map Prod.fst).Nodup → ((setL k v l).map Prod.fst).Nodup
  | [], _ => by simp [setL]
  | e :: l, h => by
      simp only [List.map_cons, List.nodup_cons] at h
      simp only [setL]
      split
      · rename_i hk; simpa [← hk] using h
      · rename_i hk
        simp only [List.map_cons, List.nodup_cons, mem_keys_setL]
        exact ⟨fun h' => h'.elim hk h.1, nodup_setL l h.2⟩

theorem deleteL_sublist {k : κ} : ∀ l : List (κ × α), (deleteL k l).Sublist l
  | [] => .slnil
  | e :: l => by
      simp only [deleteL]
      split
      · exact List.sublist_cons_self _ _
      · exact (deleteL_sublist l).cons_cons _

/-! ### The operations -/

/-- The empty map. -/
def empty : OMap κ α := ⟨[], List.nodup_nil⟩

/-- The value at a key. -/
def get (m : OMap κ α) (k : κ) : Option α := m.entries.lookup k

def has (m : OMap κ α) (k : κ) : Bool := (m.get k).isSome

def set (m : OMap κ α) (k : κ) (v : α) : OMap κ α :=
  ⟨setL k v m.entries, nodup_setL _ m.nodup⟩

def delete (m : OMap κ α) (k : κ) : OMap κ α :=
  ⟨deleteL k m.entries, m.nodup.sublist ((deleteL_sublist _).map _)⟩

def size (m : OMap κ α) : Nat := m.entries.length

def keys (m : OMap κ α) : List κ := m.entries.map Prod.fst

def values (m : OMap κ α) : List α := m.entries.map Prod.snd

/-- The pairs whose key and value pass the test, in place. -/
def filter (m : OMap κ α) (p : κ → α → Bool) : OMap κ α :=
  ⟨m.entries.filter (fun e => p e.1 e.2), m.nodup.sublist (List.filter_sublist.map _)⟩

/-! ### What `get` returns -/

theorem lookup_setL_self {k : κ} {v : α} :
    ∀ l : List (κ × α), (setL k v l).lookup k = some v
  | [] => by simp [setL]
  | e :: l => by
      simp only [setL]
      split
      · simp
      · rename_i h
        rw [List.lookup_cons, beq_false_of_ne (Ne.symm h)]
        exact lookup_setL_self l

theorem lookup_setL_other {k k' : κ} (h : k' ≠ k) {v : α} :
    ∀ l : List (κ × α), (setL k v l).lookup k' = l.lookup k'
  | [] => by simp [setL, h]
  | e :: l => by
      simp only [setL]
      split
      · rename_i he
        rw [List.lookup_cons, List.lookup_cons, he, beq_false_of_ne h]
      · rw [List.lookup_cons, List.lookup_cons, lookup_setL_other h l]

variable (m : OMap κ α) (k : κ)

@[simp] theorem get_set_self (v : α) : (m.set k v).get k = some v :=
  lookup_setL_self m.entries

theorem get_set_other {k k' : κ} (h : k' ≠ k) (v : α) :
    (m.set k v).get k' = m.get k' :=
  lookup_setL_other h m.entries

theorem get_set (k k' : κ) (v : α) :
    (m.set k v).get k' = if k' = k then some v else m.get k' := by
  split
  · rename_i h; rw [h, get_set_self]
  · rename_i h; exact get_set_other m h v

theorem get_eq_none_iff : m.get k = none ↔ k ∉ m.keys := by
  simp only [get, keys, List.lookup_eq_none_iff, List.mem_map, not_exists, not_and]
  constructor
  · intro h e he hk
    have := h e he
    simp [hk] at this
  · intro h e he
    simpa using fun hk => h e he hk.symm

theorem lookup_eq_some_of_mem {k : κ} {v : α} :
    ∀ l : List (κ × α), (l.map Prod.fst).Nodup → (k, v) ∈ l → l.lookup k = some v
  | e :: l, hn, hm => by
      simp only [List.map_cons, List.nodup_cons] at hn
      rcases List.mem_cons.mp hm with h | h
      · subst h; simp
      · have hne : k ≠ e.1 := fun h' => hn.1 (h' ▸ List.mem_map_of_mem h)
        rw [List.lookup_cons, beq_false_of_ne hne]
        exact lookup_eq_some_of_mem l hn.2 h

theorem mem_of_lookup_eq_some {k : κ} {v : α} :
    ∀ l : List (κ × α), l.lookup k = some v → (k, v) ∈ l
  | e :: l, h => by
      rw [List.lookup_cons] at h
      split at h
      · rename_i hk
        cases h
        rw [eq_of_beq hk]
        exact List.mem_cons_self
      · exact List.mem_cons_of_mem _ (mem_of_lookup_eq_some l h)

theorem get_eq_some_iff (v : α) :
    m.get k = some v ↔ (k, v) ∈ m.entries :=
  ⟨mem_of_lookup_eq_some _, lookup_eq_some_of_mem _ m.nodup⟩

theorem lookup_deleteL_other {k k' : κ} (h : k' ≠ k) :
    ∀ l : List (κ × α), (deleteL k l).lookup k' = l.lookup k'
  | [] => rfl
  | e :: l => by
      simp only [deleteL]
      split
      · rename_i he
        rw [List.lookup_cons, he, beq_false_of_ne h]
      · rw [List.lookup_cons, List.lookup_cons, lookup_deleteL_other h l]

theorem get_delete_other {k k' : κ} (h : k' ≠ k) :
    (m.delete k).get k' = m.get k' :=
  lookup_deleteL_other h m.entries

theorem notMem_keys_deleteL {k : κ} :
    ∀ l : List (κ × α), (l.map Prod.fst).Nodup → k ∉ (deleteL k l).map Prod.fst
  | [], _ => by simp [deleteL]
  | e :: l, h => by
      simp only [List.map_cons, List.nodup_cons] at h
      simp only [deleteL]
      split
      · rename_i hk; rw [← hk]; exact h.1
      · rename_i hk
        simp only [List.map_cons, List.mem_cons, not_or]
        exact ⟨Ne.symm hk, notMem_keys_deleteL l h.2⟩

@[simp] theorem get_delete_self : (m.delete k).get k = none :=
  (get_eq_none_iff _ _).mpr (notMem_keys_deleteL _ m.nodup)

theorem get_delete (k k' : κ) :
    (m.delete k).get k' = if k' = k then none else m.get k' := by
  split
  · rename_i h; rw [h, get_delete_self]
  · rename_i h; exact get_delete_other m h

theorem deleteL_setL {k : κ} {v : α} :
    ∀ l : List (κ × α), k ∉ l.map Prod.fst → deleteL k (setL k v l) = l
  | [], _ => by simp [setL, deleteL]
  | e :: l, h => by
      simp only [List.map_cons, List.mem_cons, not_or] at h
      rw [setL, if_neg (Ne.symm h.1), deleteL, if_neg (Ne.symm h.1), deleteL_setL l h.2]

/-- A key that was not there is set and deleted again. -/
theorem delete_set {k : κ} (h : m.get k = none) (v : α) :
    (m.set k v).delete k = m := by
  have he : ((m.set k v).delete k).entries = m.entries :=
    deleteL_setL m.entries ((get_eq_none_iff m k).mp h)
  cases m
  cases hs : (OMap.set _ k v).delete k
  rw [hs] at he
  cases he
  rfl

theorem setL_setL {k : κ} {v w : α} : ∀ l : List (κ × α), setL k w (setL k v l) = setL k w l
  | [] => by simp [setL]
  | e :: l => by
      rw [setL]
      split
      · rename_i h
        rw [setL, setL, if_pos rfl, if_pos h]
      · rename_i h
        rw [setL, setL, if_neg h, if_neg h, setL_setL l]

/-- A key that is set twice. -/
theorem set_set (v w : α) : (m.set k v).set k w = m.set k w := by
  have he : ((m.set k v).set k w).entries = (m.set k w).entries := setL_setL m.entries
  cases hs : (m.set k v).set k w
  cases hs' : m.set k w
  rw [hs, hs'] at he
  cases he
  rfl

theorem setL_of_lookup {k : κ} {v : α} : ∀ l : List (κ × α), l.lookup k = some v → setL k v l = l
  | [], h => by cases h
  | e :: l, h => by
      rw [setL]
      by_cases he : e.1 = k
      · rw [List.lookup_cons, he, BEq.rfl] at h
        cases h
        rw [if_pos he, ← he]
      · rw [List.lookup_cons, beq_false_of_ne (Ne.symm he)] at h
        rw [if_neg he, setL_of_lookup l h]

/-- A key that is set to what it has. -/
theorem set_of_get {k : κ} {v : α} (h : m.get k = some v) : m.set k v = m := by
  have he : (m.set k v).entries = m.entries := setL_of_lookup m.entries h
  cases m
  cases hs : OMap.set _ k v
  rw [hs] at he
  cases he
  rfl

theorem get_filter (p : κ → α → Bool) (k : κ) :
    (m.filter p).get k = (m.get k).filter (p k) := by
  cases h : m.get k with
  | none =>
      rw [get_eq_none_iff] at h
      rw [Option.filter_none, get_eq_none_iff]
      intro hk
      obtain ⟨e, he, rfl⟩ := List.mem_map.mp hk
      exact h (List.mem_map_of_mem (List.mem_of_mem_filter he))
  | some v =>
      rw [get_eq_some_iff] at h
      by_cases hp : p k v = true
      · rw [Option.filter_some_pos hp, get_eq_some_iff]
        exact List.mem_filter.mpr ⟨h, hp⟩
      · rw [Option.filter_some_neg (by simpa using hp), get_eq_none_iff]
        intro hk
        obtain ⟨e, he, rfl⟩ := List.mem_map.mp hk
        obtain ⟨he', hpe⟩ := List.mem_filter.mp he
        have := (get_eq_some_iff m e.1 e.2).mpr he'
        rw [(get_eq_some_iff m e.1 v).mpr h] at this
        cases this
        exact hp hpe

/-! ### Sums over the pairs -/

/-- The sum of `f` over the pairs. -/
def sumBy (m : OMap κ α) (f : κ → α → Nat) : Nat := (m.entries.map (fun e => f e.1 e.2)).sum

/-- `f` at a key, `0` where the map has no value. -/
def weight (m : OMap κ α) (f : κ → α → Nat) (k : κ) : Nat :=
  match m.get k with
  | none => 0
  | some v => f k v

theorem sum_setL {f : κ → α → Nat} {k : κ} {v : α} :
    ∀ l : List (κ × α), ((setL k v l).map (fun e => f e.1 e.2)).sum +
        (match l.lookup k with | none => 0 | some v => f k v) =
      (l.map (fun e => f e.1 e.2)).sum + f k v
  | [] => by simp [setL]
  | e :: l => by
      simp only [setL]
      split
      · rename_i he
        rw [List.lookup_cons, he, BEq.rfl]
        simp only [List.map_cons, List.sum_cons, he]
        omega
      · rename_i he
        rw [List.lookup_cons, beq_false_of_ne (Ne.symm he)]
        have ih := sum_setL (f := f) (k := k) (v := v) l
        simp only [List.map_cons, List.sum_cons]
        omega

variable (f : κ → α → Nat)

theorem sumBy_set (k : κ) (v : α) : (m.set k v).sumBy f + m.weight f k = m.sumBy f + f k v :=
  sum_setL m.entries

theorem sum_deleteL {f : κ → α → Nat} {k : κ} :
    ∀ l : List (κ × α), ((deleteL k l).map (fun e => f e.1 e.2)).sum +
        (match l.lookup k with | none => 0 | some v => f k v) =
      (l.map (fun e => f e.1 e.2)).sum
  | [] => by simp [deleteL]
  | e :: l => by
      simp only [deleteL]
      split
      · rename_i he
        rw [List.lookup_cons, he, BEq.rfl]
        simp only [List.map_cons, List.sum_cons, he]
        omega
      · rename_i he
        rw [List.lookup_cons, beq_false_of_ne (Ne.symm he)]
        have ih := sum_deleteL (f := f) (k := k) l
        simp only [List.map_cons, List.sum_cons]
        omega

theorem sumBy_delete (k : κ) : (m.delete k).sumBy f + m.weight f k = m.sumBy f :=
  sum_deleteL m.entries

/-! ### The number of pairs -/

omit [DecidableEq κ] in
theorem size_eq_sumBy (m : OMap κ α) : m.size = m.sumBy fun _ _ => 1 := by
  simp [size, sumBy]

theorem weight_one :
    m.weight (fun _ _ => 1) k = if m.has k then 1 else 0 := by
  rw [weight, has]
  cases m.get k with
  | none => rfl
  | some v => rfl

theorem size_set (v : α) :
    (m.set k v).size + (if m.has k then 1 else 0) = m.size + 1 := by
  rw [size_eq_sumBy, size_eq_sumBy, ← weight_one, m.sumBy_set]

theorem size_delete :
    (m.delete k).size + (if m.has k then 1 else 0) = m.size := by
  rw [size_eq_sumBy, size_eq_sumBy, ← weight_one, m.sumBy_delete]

omit [DecidableEq κ] in
theorem size_filter_le (m : OMap κ α) (p : κ → α → Bool) : (m.filter p).size ≤ m.size :=
  List.length_filter_le _ _

/-! ### Counting values -/

/-- One for a value that has the property, none for one that has not. -/
def tally (p : α → Bool) (_ : κ) (v : α) : Nat := (p v).toNat

omit [DecidableEq κ] in
theorem countP_values (m : OMap κ α) (p : α → Bool) : m.values.countP p = m.sumBy (tally p) := by
  unfold values sumBy
  induction m.entries with
  | nil => rfl
  | cons e l ih =>
      rw [List.map_cons, List.countP_cons, ih, List.map_cons, List.sum_cons, tally]
      cases p e.2 <;> simp [Nat.add_comm]

theorem countP_values_set (p : α → Bool) {k : κ} {u v : α}
    (h : m.get k = some u) :
    (m.set k v).values.countP p + (p u).toNat = m.values.countP p + (p v).toNat := by
  rw [countP_values, countP_values]
  have hs := m.sumBy_set (tally p) k v
  rwa [weight, h] at hs

theorem countP_values_add (p : α → Bool) {k : κ} {v : α} (h : m.get k = none) :
    (m.set k v).values.countP p = m.values.countP p + (p v).toNat := by
  rw [countP_values, countP_values]
  have hs := m.sumBy_set (tally p) k v
  rwa [weight, h] at hs

theorem countP_values_delete (p : α → Bool) {k : κ} {u : α}
    (h : m.get k = some u) :
    (m.delete k).values.countP p + (p u).toNat = m.values.countP p := by
  rw [countP_values, countP_values]
  have hs := m.sumBy_delete (tally p) k
  rwa [weight, h] at hs

/-! ### The keys of the values that pass a test -/

/-- The keys whose values pass the test, in place. -/
def keysOf (m : OMap κ α) (p : α → Bool) : List κ := (m.entries.filter fun e => p e.2).map Prod.fst

theorem mem_keysOf (p : α → Bool) (k : κ) :
    k ∈ m.keysOf p ↔ ∃ v, m.get k = some v ∧ p v := by
  simp [keysOf, get_eq_some_iff]

theorem setL_of_notMem {k : κ} {v : α} :
    ∀ l : List (κ × α), k ∉ l.map Prod.fst → setL k v l = l ++ [(k, v)]
  | [], _ => rfl
  | e :: l, h => by
      simp only [List.map_cons, List.mem_cons, not_or] at h
      rw [setL, if_neg (Ne.symm h.1), setL_of_notMem l h.2, List.cons_append]

theorem keys_set_of_get {k : κ} (h : m.get k = none) (v : α) :
    (m.set k v).keys = m.keys ++ [k] := by
  have he : (m.set k v).entries = m.entries ++ [(k, v)] :=
    setL_of_notMem m.entries ((get_eq_none_iff m k).mp h)
  rw [keys, he, List.map_append]
  rfl

theorem keysOf_set (p : α → Bool) {k : κ} (h : m.get k = none) (v : α) :
    (m.set k v).keysOf p = m.keysOf p ++ if p v then [k] else [] := by
  have hs : (m.set k v).entries = m.entries ++ [(k, v)] :=
    setL_of_notMem m.entries ((get_eq_none_iff m k).mp h)
  rw [keysOf, hs, List.filter_append, List.map_append, keysOf]
  cases hp : p v <;> simp [hp]

theorem filter_deleteL {k : κ} (p : α → Bool) :
    ∀ l : List (κ × α), (l.map Prod.fst).Nodup →
      ((deleteL k l).filter fun e => p e.2).map Prod.fst =
        ((l.filter fun e => p e.2).map Prod.fst).erase k
  | [], _ => rfl
  | e :: l, h => by
      simp only [List.map_cons, List.nodup_cons] at h
      rw [deleteL]
      split
      · rename_i he
        subst he
        have hl : e.1 ∉ (l.filter fun e => p e.2).map Prod.fst := fun hm =>
          h.1 ((List.filter_sublist.map _).subset hm)
        cases hp : p e.2 with
        | true => simp [hp]
        | false => simp [hp, List.erase_of_not_mem hl]
      · rename_i he
        have ih := filter_deleteL (k := k) p l h.2
        cases hp : p e.2 with
        | true => simp [hp, ih, List.erase_cons_tail, he]
        | false => simp [hp, ih]

theorem keysOf_delete (p : α → Bool) (k : κ) :
    (m.delete k).keysOf p = (m.keysOf p).erase k :=
  filter_deleteL p m.entries m.nodup

end OMap
