import Mathlib.Logic.Function.Basic

/-!
# Lib — PartialMap — partial maps as functions

A map that is only looked up is a function to `Option`, and `Function.update` sets or removes an
entry of it.  Here: where an entry of an updated map comes from.
-/

namespace PartialMap

variable {α β : Type} [DecidableEq α] {f : α → Option β} {a a' x : α} {y : β}

theorem update_eq_some {b : Option β} :
    Function.update f a b x = some y ↔ (x = a ∧ b = some y) ∨ (x ≠ a ∧ f x = some y) := by
  by_cases hx : x = a
  · subst hx
    simp
  · simp [hx]

/-- An entry is set. -/
theorem set_eq_some {b : β} :
    Function.update f a (some b) x = some y ↔ (x = a ∧ y = b) ∨ (x ≠ a ∧ f x = some y) := by
  rw [update_eq_some, Option.some.injEq, eq_comm (a := b)]

/-- An entry is removed. -/
theorem erase_eq_some : Function.update f a none x = some y ↔ x ≠ a ∧ f x = some y := by
  simp [update_eq_some]

/-- Two entries are set. -/
theorem setPair_eq_some {b b' : β} (h : a ≠ a') :
    Function.update (Function.update f a (some b)) a' (some b') x = some y ↔
      (x = a ∧ y = b) ∨ (x = a' ∧ y = b') ∨ (x ≠ a ∧ x ≠ a' ∧ f x = some y) := by
  rw [set_eq_some, set_eq_some]
  constructor
  · rintro (h' | ⟨hx', h' | ⟨hx, hf⟩⟩)
    · exact .inr (.inl h')
    · exact .inl h'
    · exact .inr (.inr ⟨hx, hx', hf⟩)
  · rintro (⟨rfl, hy⟩ | h' | ⟨hx, hx', hf⟩)
    · exact .inr ⟨h, .inl ⟨rfl, hy⟩⟩
    · exact .inl h'
    · exact .inr ⟨hx', .inr ⟨hx, hf⟩⟩

end PartialMap
