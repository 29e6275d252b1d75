import Mathlib.Logic.Basic

/-!
# Lib — Lts — runs of a labelled step function

A component is a partial step function `step : S → A → Option S`: `step s a = some t` when the
action `a` is enabled at `s` and leads to `t`.  `Reach step C s t` says that `t` is reached from
`s` by steps each of which meets the condition `C` at the state it starts from; the condition
`Any` is no condition.

* `Reach.invariant`: what holds at the start and is kept by every step holds wherever a run goes.
* `exec`, `execIf`: the run of a list of actions, computed; `Reach.of_exec` and `Reach.of_execIf`
  turn it into a `Reach`.
* `execIf_length_le`: a run whose steps lower a measure is no longer than the measure says.
* `recorded`: steps that also report what they did, the reports of a run kept in order.
-/

namespace Lts

variable {S A : Type}

/-- `t` is reached from `s` by steps that each meet `C`. -/
inductive Reach (step : S → A → Option S) (C : S → A → Prop) (s : S) : S → Prop where
  | start : Reach step C s s
  | next {t u : S} {a : A} (r : Reach step C s t) (hC : C t a) (h : step t a = some u) :
      Reach step C s u

/-- No condition on the steps. -/
def Any (_ : S) (_ : A) : Prop := True

/-- The run of a list of actions. -/
def exec (step : S → A → Option S) : S → List A → Option S
  | s, [] => some s
  | s, a :: as =>
    match step s a with
    | none => none
    | some t => exec step t as

/-- The run of a list of actions, as long as each step meets `C`. -/
def execIf (step : S → A → Option S) (C : S → A → Prop) [∀ s a, Decidable (C s a)] :
    S → List A → Option S
  | s, [] => some s
  | s, a :: as =>
    if C s a then
      match step s a with
      | none => none
      | some t => execIf step C t as
    else none

namespace Reach

variable {step : S → A → Option S} {C D : S → A → Prop} {s t u : S}

/-- **The invariant rule.** -/
theorem invariant {I : S → Prop} (h₀ : I s)
    (hs : ∀ t a u, I t → C t a → step t a = some u → I u) (r : Reach step C s t) : I t := by
  induction r with
  | start => exact h₀
  | next _ hC h ih => exact hs _ _ _ ih hC h

theorem mono (hCD : ∀ t a, C t a → D t a) (r : Reach step C s t) : Reach step D s t := by
  induction r with
  | start => exact .start
  | next _ hC h ih => exact .next ih (hCD _ _ hC) h

theorem trans (r₁ : Reach step C s t) (r₂ : Reach step C t u) : Reach step C s u := by
  induction r₂ with
  | start => exact r₁
  | next _ hC h ih => exact .next ih hC h

theorem one {a : A} (hC : C s a) (h : step s a = some t) : Reach step C s t :=
  .next .start hC h

/-- A computed run reaches its last state. -/
theorem of_exec {as : List A} (h : exec step s as = some t) : Reach step Any s t := by
  induction as generalizing s with
  | nil => cases h; exact .start
  | cons a as ih =>
      simp only [exec] at h
      split at h
      · cases h
      · rename_i s' hs
        exact (one trivial hs).trans (ih h)

theorem of_execIf [∀ s a, Decidable (C s a)] {as : List A} (h : execIf step C s as = some t) :
    Reach step C s t := by
  induction as generalizing s with
  | nil => cases h; exact .start
  | cons a as ih =>
      simp only [execIf] at h
      split at h
      · rename_i hC
        split at h
        · cases h
        · rename_i s' hs
          exact (one hC hs).trans (ih h)
      · cases h

variable (step)

/-- A computed run, with what holds of its last state. -/
theorem exists_of_exec (s : S) (as : List A) {P : S → Prop}
    [DecidablePred P] (h : (exec step s as).any (P ·) = true) :
    ∃ t, Reach step Any s t ∧ P t := by
  obtain ⟨t, ht, hP⟩ := (Option.any_eq_true _ _).mp h
  exact ⟨t, of_exec ht, of_decide_eq_true hP⟩

theorem exists_of_execIf (C : S → A → Prop)
    [∀ s a, Decidable (C s a)] (s : S) (as : List A) {P : S → Prop} [DecidablePred P]
    (h : (execIf step C s as).any (P ·) = true) : ∃ t, Reach step C s t ∧ P t := by
  obtain ⟨t, ht, hP⟩ := (Option.any_eq_true _ _).mp h
  exact ⟨t, of_execIf ht, of_decide_eq_true hP⟩

end Reach

/-- **The variant rule.**  Steps that keep `I` and lower `m` are at most `m s` from `s` on. -/
theorem execIf_length_le {step : S → A → Option S} {C : S → A → Prop} [∀ s a, Decidable (C s a)]
    {I : S → Prop} {m : S → Nat}
    (hs : ∀ t a u, I t → C t a → step t a = some u → I u ∧ m u < m t) {s t : S} {as : List A}
    (h₀ : I s) (h : execIf step C s as = some t) : as.length ≤ m s := by
  induction as generalizing s with
  | nil => exact Nat.zero_le _
  | cons a as ih =>
      simp only [execIf] at h
      split at h
      · rename_i hC
        split at h
        · cases h
        · rename_i u hu
          obtain ⟨hI, hm⟩ := hs _ _ _ h₀ hC hu
          exact Nat.lt_of_le_of_lt (ih hI h) hm
      · cases h

/-! ### Steps that report -/

section Recorded

variable {N : Type} {step : S → A → Option (S × List N)}

/-- The step on a state with the reports so far. -/
def recorded (step : S → A → Option (S × List N)) (s : S × List N) (a : A) : Option (S × List N) :=
  (step s.1 a).map fun r => (r.1, s.2 ++ r.2)

theorem recorded_eq_some {s t : S × List N} {a : A} :
    recorded step s a = some t ↔ ∃ r, step s.1 a = some r ∧ t = (r.1, s.2 ++ r.2) := by
  rw [recorded, Option.map_eq_some_iff]
  simp only [eq_comm]

end Recorded

end Lts
