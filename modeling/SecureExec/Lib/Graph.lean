import SecureExec.Lib.PartialMap
import Mathlib.Data.Set.Card

/-!
# Lib — Graph — nodes that name other nodes

A partial map `E : ν × κ → Option ν` is a graph whose edges have names: `E (a, k) = some b` when the
node `a` has an edge named `k` to `b`.

* `count E P`: the number of edges with the property `P`; `count_set` and `count_erase` say how it
  changes.
* `Edge`, `Reaches`: there is an edge, there is a path.  An edge that is added closes no cycle
  unless its end already reached its start (`acyclic_add`); a node stays reached when an edge is
  removed that no path to it needs (`reaches_erase`), or moved (`reaches_move`).
-/

namespace Graph
open Function PartialMap

variable {α β ν κ : Type}

/-! ### Counting entries of a partial map -/

/-- The keys of a partial map. -/
def dom (E : α → Option β) : Set α := {a | ∃ b, E a = some b}

/-- The number of entries with the property `P`. -/
noncomputable def count (E : α → Option β) (P : α → β → Prop) : Nat :=
  {a | ∃ b, E a = some b ∧ P a b}.ncard

section Count
variable {E : α → Option β} {P Q : α → β → Prop} {a : α} {b : β}

theorem finite_of_dom (h : (dom E).Finite) (P : α → β → Prop) :
    {a | ∃ b, E a = some b ∧ P a b}.Finite :=
  h.subset fun _ ⟨b, hb, _⟩ => ⟨b, hb⟩

theorem count_congr (h : ∀ a b, E a = some b → (P a b ↔ Q a b)) : count E P = count E Q := by
  refine congrArg Set.ncard (Set.ext fun a => ?_)
  exact exists_congr fun b => and_congr_right fun hb => h a b hb

theorem count_pos (h : (dom E).Finite) : 0 < count E P ↔ ∃ a b, E a = some b ∧ P a b :=
  Set.ncard_pos (finite_of_dom h P)

theorem count_eq_zero (h : (dom E).Finite) : count E P = 0 ↔ ∀ a b, E a = some b → ¬ P a b := by
  rw [← Nat.le_zero, ← Nat.not_lt, count_pos h]
  push Not
  rfl

/-- An entry more with the property counts one more. -/
theorem count_le_of_sub {E' : α → Option β} (h : (dom E').Finite)
    (hs : ∀ a b, E a = some b → P a b → E' a = some b ∧ Q a b) : count E P ≤ count E' Q :=
  Set.ncard_le_ncard (fun a ⟨b, hb, hP⟩ => ⟨b, hs a b hb hP⟩) (finite_of_dom h Q)

theorem eq_of_count_le_one (h : (dom E).Finite) (hc : count E P ≤ 1) {a' : α} {b' : β}
    (hb : E a = some b) (hP : P a b) (hb' : E a' = some b') (hP' : P a' b') : a = a' :=
  (Set.ncard_le_one (finite_of_dom h P)).mp hc a ⟨b, hb, hP⟩ a' ⟨b', hb', hP'⟩

variable [DecidableEq α]

variable (h : (dom E).Finite)
include h

theorem finite_update (a : α) (x : Option β) :
    (dom (update E a x)).Finite := by
  refine (h.insert a).subset fun a' ⟨b, hb⟩ => ?_
  rcases update_eq_some.mp hb with ⟨rfl, -⟩ | ⟨-, hb⟩
  · exact .inl rfl
  · exact .inr ⟨b, hb⟩

/-- An entry is added. -/
theorem count_set (ha : E a = none) (b : β) (P : α → β → Prop)
    [Decidable (P a b)] :
    count (update E a (some b)) P = count E P + if P a b then 1 else 0 := by
  split
  · rename_i hP
    have hset : {x | ∃ y, update E a (some b) x = some y ∧ P x y} =
        insert a {x | ∃ y, E x = some y ∧ P x y} := by
      refine Set.ext fun x => ⟨?_, ?_⟩
      · rintro ⟨y, hy, hPy⟩
        rcases set_eq_some.mp hy with ⟨rfl, rfl⟩ | ⟨-, hy⟩
        · exact .inl rfl
        · exact .inr ⟨y, hy, hPy⟩
      · rintro (rfl | ⟨y, hy, hPy⟩)
        · exact ⟨b, by simp, hP⟩
        · exact ⟨y, set_eq_some.mpr (.inr ⟨fun e => by simp [e, ha] at hy, hy⟩), hPy⟩
    have hnot : a ∉ {x | ∃ y, E x = some y ∧ P x y} := by
      rintro ⟨y, hy, -⟩
      rw [ha] at hy
      cases hy
    rw [count, hset, Set.ncard_insert_of_notMem hnot (finite_of_dom h P), count]
  · rename_i hP
    refine congrArg Set.ncard (Set.ext fun x => exists_congr fun y => ?_)
    rw [set_eq_some]
    constructor
    · rintro ⟨⟨rfl, rfl⟩ | ⟨-, hy⟩, hPy⟩
      · exact absurd hPy hP
      · exact ⟨hy, hPy⟩
    · rintro ⟨hy, hPy⟩
      exact ⟨.inr ⟨fun e => by simp [e, ha] at hy, hy⟩, hPy⟩

/-- An entry is removed. -/
theorem count_erase (ha : E a = some b) (P : α → β → Prop)
    [Decidable (P a b)] :
    count (update E a none) P + (if P a b then 1 else 0) = count E P := by
  have hself : update (update E a none) a (some b) = E := by
    rw [update_idem, ← ha, update_eq_self]
  have hset := count_set (finite_update h a none) (update_self ..) b P
  rw [hself] at hset
  exact hset.symm

end Count

/-! ### Paths -/

/-- There is an edge from `a` to `b`. -/
def Edge (E : ν × κ → Option ν) (a b : ν) : Prop := ∃ k, E (a, k) = some b

/-- There is a path from `a` to `b`. -/
def Reaches (E : ν × κ → Option ν) : ν → ν → Prop := Relation.ReflTransGen (Edge E)

/-- No node is on a cycle. -/
def Acyclic (E : ν × κ → Option ν) : Prop := ∀ a, ¬ Relation.TransGen (Edge E) a a

section Paths
variable {E E' : ν × κ → Option ν} {e e' : ν × κ} {a b c : ν}

theorem Reaches.mono (h : ∀ a b, Edge E a b → Edge E' a b) (hr : Reaches E a b) :
    Reaches E' a b :=
  Relation.ReflTransGen.mono h _ _ hr

theorem Acyclic.mono (h : ∀ a b, Edge E' a b → Edge E a b) (hE : Acyclic E) : Acyclic E' :=
  fun a hc => hE a (Relation.TransGen.mono h a a hc)

/-- A path through a new edge, up to its first and from its last use of it. -/
theorem transGen_added {p : ν} (h : ∀ a b, Edge E' a b → Edge E a b ∨ (a = p ∧ b = c))
    (hr : Relation.TransGen (Edge E') a b) :
    Relation.TransGen (Edge E) a b ∨ (Reaches E a p ∧ Reaches E c b) := by
  induction hr with
  | single hab =>
      rcases h _ _ hab with hab | ⟨rfl, rfl⟩
      · exact .inl (.single hab)
      · exact .inr ⟨.refl, .refl⟩
  | tail _ hbc ih =>
      rcases h _ _ hbc with hbc | ⟨rfl, rfl⟩
      · exact ih.imp (·.tail hbc) fun ⟨h₁, h₂⟩ => ⟨h₁, h₂.tail hbc⟩
      · exact .inr ⟨ih.elim (·.to_reflTransGen) And.left, .refl⟩

/-- A new edge closes no cycle when its end does not reach its start. -/
theorem acyclic_add {p : ν} (hE : Acyclic E)
    (h : ∀ a b, Edge E' a b → Edge E a b ∨ (a = p ∧ b = c)) (hcp : ¬ Reaches E c p) :
    Acyclic E' := by
  intro a hc
  rcases transGen_added h hc with hc | ⟨h₁, h₂⟩
  · exact hE a hc
  · exact hcp (h₂.trans h₁)

/-- A node that no path from `c` leads to is reached without the edge `e` to `c`. -/
theorem reaches_avoid (he : E e = some c)
    (h : ∀ x b, x ≠ e → E x = some b → E' x = some b) (hr : Reaches E a b)
    (hcb : ¬ Reaches E c b) : Reaches E' a b := by
  induction hr with
  | refl => exact .refl
  | @tail b' b _ hbc ih =>
      obtain ⟨k, hk⟩ := hbc
      refine (ih fun hcb' => hcb (hcb'.tail ⟨k, hk⟩)).tail ⟨k, h (b', k) b ?_ hk⟩
      rintro rfl
      rw [he] at hk
      cases hk
      exact hcb .refl

/-- What is reached from elsewhere has an edge from elsewhere. -/
theorem Reaches.edge_into (hr : Reaches E a b) (hne : a ≠ b) :
    ∃ x k, x ≠ b ∧ E (x, k) = some b := by
  induction hr with
  | refl => exact absurd rfl hne
  | @tail b' b _ hbc ih =>
      by_cases hb : b' = b
      · subst hb
        exact ih hne
      · obtain ⟨k, hk⟩ := hbc
        exact ⟨b', k, hb, hk⟩

/-- A node with no edges of its own does not lie on the way to another. -/
theorem not_reaches_of_leaf (hc : ∀ k, E (c, k) = none) (hne : c ≠ b) : ¬ Reaches E c b := by
  intro hr
  rcases Relation.ReflTransGen.cases_head hr with rfl | ⟨x, ⟨k, hk⟩, -⟩
  · exact hne rfl
  · rw [hc k] at hk
    cases hk

variable [DecidableEq ν] [DecidableEq κ]

theorem edge_set (he : Edge (update E e (some c)) a b) :
    Edge E a b ∨ (a = e.1 ∧ b = c) := by
  obtain ⟨k, hk⟩ := he
  rcases set_eq_some.mp hk with ⟨rfl, rfl⟩ | ⟨-, hk⟩
  · exact .inr ⟨rfl, rfl⟩
  · exact .inl ⟨k, hk⟩

theorem edge_erase (he : Edge (update E e none) a b) : Edge E a b := by
  obtain ⟨k, hk⟩ := he
  exact ⟨k, (erase_eq_some.mp hk).2⟩

/-- An edge that was not there is added. -/
theorem edge_set_of (he : E e = none) (hab : Edge E a b) :
    Edge (update E e (some c)) a b := by
  obtain ⟨k, hk⟩ := hab
  exact ⟨k, set_eq_some.mpr (.inr ⟨fun h => by simp [h, he] at hk, hk⟩)⟩

/-- What is reached stays reached when an edge to a leaf `c` is removed, but for `c` itself. -/
theorem reaches_erase (he : E e = some c) (hc : ∀ k, E (c, k) = none) (hr : Reaches E a b)
    (hne : b ≠ c) : Reaches (update E e none) a b :=
  reaches_avoid he (fun _ _ hx hb => erase_eq_some.mpr ⟨hx, hb⟩) hr
    (not_reaches_of_leaf hc hne.symm)

/-- What is reached stays reached when an edge to `c` moves to a place that `c` does not reach. -/
theorem reaches_move (he : E e = some c) (he' : E e' = none) (hr' : Reaches E a e'.1)
    (hc : ¬ Reaches E c e'.1) (hr : Reaches E a b) :
    Reaches (update (update E e none) e' (some c)) a b := by
  have hkeep : ∀ x y, x ≠ e → E x = some y →
      update (update E e none) e' (some c) x = some y := fun x y hx hy =>
    set_eq_some.mpr (.inr ⟨fun h => by simp [h, he'] at hy,
      erase_eq_some.mpr ⟨hx, hy⟩⟩)
  have hc' : Reaches (update (update E e none) e' (some c)) a c :=
    (reaches_avoid he hkeep hr' hc).tail ⟨e'.2, update_self ..⟩
  induction hr with
  | refl => exact .refl
  | @tail b' b _ hbc ih =>
      obtain ⟨k, hk⟩ := hbc
      by_cases hx : (b', k) = e
      · rw [hx, he] at hk
        cases hk
        exact hc'
      · exact ih.tail ⟨k, hkeep _ _ hx hk⟩

end Paths

end Graph
