import Mathlib.Logic.Basic

/-!
# Lib — Index — indexes of objects by key

An `Index` is a family of maps from keys to objects, one for each kind, beside what the objects
say of themselves: which are live, the key each has, and the maps each needs to be found in.  It
is `Consistent` when every entry names a live object of its kind under the key that object has,
and every live object is found in the maps it needs to be in.

Three changes keep it so: one that leaves the entries alone (`quiet`), one that moves an object to
a key which no other object needs (`assign`), and one that drops an object with its entries
(`drop`).
-/

structure Index (D K X : Type) where
  entry : D → K → Option X
  live : X → Prop
  key : X → Option K
  kind : X → D
  /-- The object needs to be found in the map. -/
  needs : D → X → Prop

namespace Index

variable {D K X : Type} {v v' : Index D K X}

/-- The entry of the object's key is its own. -/
def Holds (v : Index D K X) (d : D) (x : X) : Prop := ∃ k, v.key x = some k ∧ v.entry d k = some x

structure Consistent (v : Index D K X) : Prop where
  names : ∀ d k x, v.entry d k = some x → v.live x ∧ v.key x = some k ∧ v.kind x = d
  held : ∀ d x, v.live x → v.needs d x → v.Holds d x

namespace Consistent

variable (h : v.Consistent)
include h

/-- What needs an entry under one key is one object. -/
theorem unique {d : D} {x y : X} (hx : v.live x) (hy : v.live y)
    (hnx : v.needs d x) (hny : v.needs d y) (hk : v.key x = v.key y) : x = y := by
  obtain ⟨k, hkx, hex⟩ := h.held d x hx hnx
  obtain ⟨k', hky, hey⟩ := h.held d y hy hny
  rw [hk, hky] at hkx
  cases hkx
  exact Option.some.inj (hex.symm.trans hey)

/-- The entries stay; an object gets a key only when it had none, and needs only what it needed
before or has. -/
theorem quiet (he : v'.entry = v.entry) (hl : ∀ x, v.live x → v'.live x)
    (hk : ∀ x, v.live x → v'.key x = v.key x ∨ v.key x = none)
    (hd : ∀ x, v.live x → v'.kind x = v.kind x)
    (hn : ∀ d x, v'.live x → v'.needs d x → v.live x ∧ (v.needs d x ∨ v.Holds d x)) :
    v'.Consistent := by
  have hkey : ∀ x k, v.live x → v.key x = some k → v'.key x = some k := by
    intro x k hx hxk
    rcases hk x hx with h' | h'
    · exact h'.trans hxk
    · rw [h'] at hxk
      cases hxk
  refine ⟨fun d k x hx => ?_, fun d x hx hneeds => ?_⟩
  · rw [he] at hx
    obtain ⟨hlive, hxk, hkind⟩ := h.names d k x hx
    exact ⟨hl x hlive, hkey x k hlive hxk, (hd x hlive).trans hkind⟩
  · obtain ⟨hlive, hor⟩ := hn d x hx hneeds
    obtain ⟨k, hxk, hent⟩ := hor.elim (h.held d x hlive) id
    exact ⟨k, hkey x k hlive hxk, he ▸ hent⟩

/-- The object `x` moves to the key `k`, which no other object needs. -/
theorem assign [DecidableEq D] [DecidableEq K] [DecidableEq X] {x : X} {k : K}
    (he : ∀ d k', v'.entry d k' =
      if d = v.kind x ∧ k' = k then some x
      else if v.entry d k' = some x then none else v.entry d k')
    (hx : v.live x) (hl : ∀ y, v'.live y ↔ v.live y)
    (hkx : v'.key x = some k) (hk : ∀ y, y ≠ x → v'.key y = v.key y)
    (hd : ∀ y, v'.kind y = v.kind y)
    (hvacant : ∀ y, v.entry (v.kind x) k = some y → y ≠ x → ¬ v.needs (v.kind x) y)
    (hnx : ∀ d, v'.needs d x → d = v.kind x)
    (hn : ∀ d y, y ≠ x → v'.needs d y → v.needs d y) : v'.Consistent := by
  refine ⟨fun d k' y hy => ?_, fun d y hy hneeds => ?_⟩
  · rw [he] at hy
    split at hy
    · rename_i hat
      cases hy
      exact ⟨(hl x).mpr hx, hat.2 ▸ hkx, (hd x).trans hat.1.symm⟩
    · split at hy
      · cases hy
      · rename_i hnot
        have hyx : y ≠ x := fun hyx => hnot (hyx ▸ hy)
        obtain ⟨hlive, hyk, hkind⟩ := h.names d k' y hy
        exact ⟨(hl y).mpr hlive, (hk y hyx).trans hyk, (hd y).trans hkind⟩
  · by_cases hyx : y = x
    · subst hyx
      refine ⟨k, hkx, ?_⟩
      rw [he, if_pos ⟨hnx d hneeds, rfl⟩]
    · obtain ⟨k', hyk, hent⟩ := h.held d y ((hl y).mp hy) (hn d y hyx hneeds)
      refine ⟨k', (hk y hyx).trans hyk, ?_⟩
      rw [he, if_neg, if_neg, hent]
      · intro hx'
        exact hyx (Option.some.inj (hent.symm.trans hx'))
      · rintro ⟨rfl, rfl⟩
        exact hvacant y hent hyx (hn _ y hyx hneeds)

/-- The object `x` is dropped, with its entries. -/
theorem drop [DecidableEq X] {x : X}
    (he : ∀ d k, v'.entry d k = if v.entry d k = some x then none else v.entry d k)
    (hl : ∀ y, v'.live y ↔ v.live y ∧ y ≠ x) (hk : ∀ y, v'.key y = v.key y)
    (hd : ∀ y, v'.kind y = v.kind y) (hn : ∀ d y, y ≠ x → v'.needs d y → v.needs d y) :
    v'.Consistent := by
  refine ⟨fun d k y hy => ?_, fun d y hy hneeds => ?_⟩
  · rw [he] at hy
    split at hy
    · cases hy
    · rename_i hnot
      have hyx : y ≠ x := fun hyx => hnot (hyx ▸ hy)
      obtain ⟨hlive, hyk, hkind⟩ := h.names d k y hy
      exact ⟨(hl y).mpr ⟨hlive, hyx⟩, (hk y).trans hyk, (hd y).trans hkind⟩
  · obtain ⟨hlive, hyx⟩ := (hl y).mp hy
    obtain ⟨k, hyk, hent⟩ := h.held d y hlive (hn d y hyx hneeds)
    refine ⟨k, (hk y).trans hyk, ?_⟩
    rw [he, if_neg, hent]
    intro hx
    exact hyx (Option.some.inj (hent.symm.trans hx))

end Consistent

end Index
