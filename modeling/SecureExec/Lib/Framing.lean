import Mathlib.Data.List.Basic

/-!
# Lib — Framing — items at the head of a stream

`next` takes an item off the head of what there is and gives what is left of it.  Where more bytes
behind an item do not change it, the items of a stream do not depend on how it comes in.
-/

namespace Framing

variable {α ι : Type} {next : List α → Option (ι × List α)} {b left rest rest' : List α} {i : ι}
  {is js : List ι}

/-- More behind an item changes nothing. -/
def Stable (next : List α → Option (ι × List α)) : Prop :=
  ∀ b i rest x, next b = some (i, rest) → next (b ++ x) = some (i, rest ++ x)

/-- The items are taken off the stream one after another, and `rest` is left. -/
inductive Taken (next : List α → Option (ι × List α)) : List α → List ι → List α → Prop where
  | done (b : List α) : Taken next b [] b
  | take {b left rest : List α} {i : ι} {is : List ι} (hi : next b = some (i, left))
      (h : Taken next left is rest) : Taken next b (i :: is) rest

theorem Taken.append (hn : Stable next) (h : Taken next b is rest) (x : List α) :
    Taken next (b ++ x) is (rest ++ x) := by
  induction h with
  | done b => exact .done _
  | take hi _ ih => exact .take (hn _ _ _ x hi) ih

theorem Taken.snoc (h : Taken next b is rest) (hi : next rest = some (i, left)) :
    Taken next b (is ++ [i]) left := by
  induction h with
  | done b => exact .take hi (.done _)
  | take hj _ ih => exact .take hj (ih hi)

/-- Where nothing more can be taken, everything is. -/
theorem Taken.isPrefix (h : Taken next b is rest) (h' : Taken next b js rest')
    (hr : next rest' = none) : is <+: js := by
  induction h generalizing js with
  | done b => exact List.nil_prefix
  | take hi _ ih =>
      cases h' with
      | done b => cases hi.symm.trans hr
      | take hj h' =>
          cases hi.symm.trans hj
          exact List.cons_prefix_cons.mpr ⟨rfl, ih h'⟩

end Framing
