import Mathlib.Data.List.Basic

/-!
# Lib — Recency — lists in the order of last use

A cache that forgets its least recently used key keeps its keys in a list.  `uses` is the history
of uses, the oldest first.

* `Since uses x y`: `y` was used after the last use of `x`.
* `InOrder uses l`: the keys of `l` stand in the order of their last uses.
* `InOrder.use`: a key that is used goes to the end of the list.
* `InOrder.head`: the first key is the one that was not used for the longest time.
-/

namespace Recency

variable {α : Type} {uses : List α} {l l' : List α} {x y z : α}

/-- `y` was used after the last use of `x`. -/
def Since (uses : List α) (x y : α) : Prop :=
  ∃ before after, uses = before ++ after ∧ x ∉ after ∧ y ∈ after

theorem Since.use (h : Since uses x y) (hz : z ≠ x) : Since (uses ++ [z]) x y := by
  obtain ⟨before, after, rfl, hx, hy⟩ := h
  refine ⟨before, after ++ [z], List.append_assoc _ _ _, ?_, List.mem_append_left _ hy⟩
  intro hmem
  rcases List.mem_append.mp hmem with hmem | hmem
  · exact hx hmem
  · exact hz (List.mem_singleton.mp hmem).symm

theorem Since.last (hz : z ≠ x) : Since (uses ++ [z]) x z := by
  refine ⟨uses, [z], rfl, ?_, List.mem_cons_self⟩
  intro hmem
  exact hz (List.mem_singleton.mp hmem).symm

/-- The keys stand in the order of their last uses. -/
def InOrder (uses l : List α) : Prop := l.Pairwise (Since uses)

theorem InOrder.nil : InOrder uses [] := List.Pairwise.nil

theorem InOrder.sublist (h : InOrder uses l) (hl : l'.Sublist l) : InOrder uses l' :=
  List.Pairwise.sublist hl h

/-- A key that is used goes to the end. -/
theorem InOrder.use (h : InOrder uses l) (hx : x ∉ l) : InOrder (uses ++ [x]) (l ++ [x]) := by
  have hne : ∀ {y}, y ∈ l → x ≠ y := by
    rintro y hy rfl
    exact hx hy
  refine List.pairwise_append.mpr ⟨?_, List.pairwise_singleton _ _, ?_⟩
  · exact List.Pairwise.imp_of_mem (fun hy _ hs => hs.use (hne hy)) h
  · intro y hy z hz
    rw [List.mem_singleton.mp hz]
    exact .last (hne hy)

/-- The first key was not used for the longest time. -/
theorem InOrder.head (h : InOrder uses (x :: l)) (hy : y ∈ l) : Since uses x y :=
  List.rel_of_pairwise_cons h hy

end Recency
