import Mathlib.Data.List.Basic

/-!
# Lib — Overrides — a variable that calls replace and put back

Calls come one after another, and each saves what a variable holds, installs a value of its own
and, at some later time, puts back what it saved.  Calls may overlap in any way, so that what is
put back need not be what the variable held before.

* `Closed`: the last call to put its value back came at a time when the same was true; this is the
  order of notes after which the variable holds what it held first (`Cell.Sound.value_iff`).
* `Nested`: every call ends before those that were under way when it began; `Nested.closed`.
* `Cell.Sound.install`, `Cell.Sound.restore`: the steps of the variable, with what each call saved.
-/

namespace Overrides

/-- A call has replaced the value, or put back the one it saved. -/
inductive Note where
  | installed (call : ℕ)
  | restored (call : ℕ)
  deriving DecidableEq

/-- No call has come yet, or the last to put a value back came when this was so. -/
inductive Closed : List Note → Prop where
  | nil : Closed []
  | restored {before mid : List Note} {d : ℕ} (h : Closed before) :
      Closed (before ++ .installed d :: (mid ++ [.restored d]))

/-- Every call ends before those under way when it began. -/
inductive Nested : List Note → Prop where
  | nil : Nested []
  | call {before inner : List Note} {d : ℕ} (h : Nested before) (h' : Nested inner) :
      Nested (before ++ .installed d :: (inner ++ [.restored d]))

theorem Nested.closed {notes : List Note} (h : Nested notes) : Closed notes := by
  induction h with
  | nil => exact .nil
  | call _ _ ih _ => exact .restored ih

theorem not_closed_installed {notes : List Note} {d : ℕ} : ¬ Closed (notes ++ [.installed d]) := by
  intro h
  generalize hn : notes ++ [.installed d] = ns at h
  cases h with
  | nil => simp at hn
  | @restored before mid d' _ =>
      rw [← List.cons_append, ← List.append_assoc] at hn
      have hl := (List.append_inj' hn rfl).2
      cases hl

/-- What a call that puts its value back leaves depends on when it came. -/
theorem closed_restored {before after : List Note} {d : ℕ} (hb : .installed d ∉ before)
    (ha : .installed d ∉ after) :
    Closed (before ++ .installed d :: after ++ [.restored d]) ↔ Closed before := by
  refine ⟨fun h => ?_, fun h => ?_⟩
  · generalize hn : before ++ .installed d :: after ++ [.restored d] = ns at h
    cases h with
    | nil => simp at hn
    | @restored before' mid d' h' =>
        rw [← List.cons_append, ← List.append_assoc] at hn
        obtain ⟨hn, hd⟩ := List.append_inj' hn rfl
        cases hd
        obtain ⟨rfl, -⟩ := (List.append_cons_inj_of_notMem hb ha).mp hn
        exact h'
  · rw [List.append_assoc, List.cons_append]
    exact .restored h

/-! ### The variable -/

/-- A variable, with what each call saved of it, in the order in which they came. -/
structure Cell (V : Type) where
  value : V
  saved : List V

namespace Cell

variable {V : Type}

/-- The next call saves the value and puts `mine` in its place. -/
def install (c : Cell V) (mine : V) : Cell V := ⟨mine, c.saved ++ [c.value]⟩

/-- A call puts back `v`. -/
def restore (c : Cell V) (v : V) : Cell V := { c with value := v }

/-- The variable, and each call's saved value, is `v₀` just where the notes up to there are
closed. -/
structure Sound (v₀ : V) (c : Cell V) (notes : List Note) : Prop where
  value_iff : c.value = v₀ ↔ Closed notes
  saved : ∀ d v, c.saved[d]? = some v → ∃ before after, notes = before ++ .installed d :: after ∧
    .installed d ∉ before ∧ .installed d ∉ after ∧ (v = v₀ ↔ Closed before)
  fresh : ∀ d, .installed d ∈ notes → d < c.saved.length

theorem Sound.init (v₀ : V) : Sound v₀ ⟨v₀, []⟩ [] where
  value_iff := ⟨fun _ => .nil, fun _ => rfl⟩
  saved := fun _ _ h => by simp at h
  fresh := fun _ h => by simp at h

variable {v₀ : V} {c : Cell V} {notes : List Note}

theorem Sound.install (h : Sound v₀ c notes) {mine : V} (hm : mine ≠ v₀) :
    Sound v₀ (c.install mine) (notes ++ [.installed c.saved.length]) where
  value_iff := iff_of_false hm not_closed_installed
  saved := by
    intro d v hd
    simp only [Cell.install, List.getElem?_append] at hd
    split at hd
    · rename_i hlt
      obtain ⟨before, after, rfl, hb, ha, hv⟩ := h.saved d v hd
      refine ⟨before, after ++ [.installed c.saved.length], by simp, hb, ?_, hv⟩
      have hne : d ≠ c.saved.length := Nat.ne_of_lt hlt
      simp [ha, hne]
    · rename_i hge
      have hlen : d = c.saved.length := by
        have := (List.getElem?_eq_some_iff.mp hd).1
        simp at this
        omega
      subst hlen
      have hnew : .installed c.saved.length ∉ notes := fun hm => Nat.lt_irrefl _ (h.fresh _ hm)
      refine ⟨notes, [], rfl, hnew, by simp, ?_⟩
      simp only [Nat.sub_self, List.getElem?_cons_zero, Option.some.injEq] at hd
      rw [← hd]
      exact h.value_iff
  fresh := by
    intro d hd
    rw [Cell.install, List.length_append, List.length_singleton]
    rcases List.mem_append.mp hd with hd | hd
    · exact Nat.lt_succ_of_lt (h.fresh d hd)
    · cases List.mem_singleton.mp hd
      exact Nat.lt_succ_self _

theorem Sound.restore (h : Sound v₀ c notes) {d : ℕ} {v : V} (hd : c.saved[d]? = some v) :
    Sound v₀ (c.restore v) (notes ++ [.restored d]) where
  value_iff := by
    obtain ⟨before, after, rfl, hb, ha, hv⟩ := h.saved d v hd
    exact hv.trans (closed_restored hb ha).symm
  saved := by
    intro d' v' hd'
    obtain ⟨before, after, rfl, hb, ha, hv⟩ := h.saved d' v' hd'
    exact ⟨before, after ++ [.restored d], by simp, hb, by simpa using ha, hv⟩
  fresh := fun d' hd' => h.fresh d' (by simpa using hd')

end Cell

end Overrides
