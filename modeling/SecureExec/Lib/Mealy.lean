import Mathlib.Data.List.Basic

/-!
# Lib — Mealy — machines that take every input and report what they do

A machine answers every input with its next state and a list of reports.  Two machines over the
same states are compared on one list of inputs.

* `Along`: every step of a run meets a condition at the state that it starts from.
* `run_congr`: a machine that does the same as another wherever the run meets a condition has the
  same run.
* `forall_run_iff`: every report of a run is of a kind just if every step reports such only.
* `Along.mono`: conditions that follow from others.
-/

namespace Mealy

variable {S A N : Type}

/-- The state after a list of inputs, and the reports in order. -/
def run (step : S → A → S × List N) : S → List A → S × List N
  | s, [] => (s, [])
  | s, a :: as =>
    let (t, more) := step s a
    ((run step t as).1, more ++ (run step t as).2)

/-- Every step of the run meets `C`. -/
def Along (step : S → A → S × List N) (C : S → A → Prop) : S → List A → Prop
  | _, [] => True
  | s, a :: as => C s a ∧ Along step C (step s a).1 as

variable {step step' : S → A → S × List N} {C D : S → A → Prop} {s : S} {as : List A}

theorem Along.mono (h : Along step C s as) (hCD : ∀ s a, C s a → D s a) : Along step D s as := by
  induction as generalizing s with
  | nil => exact trivial
  | cons a as ih => exact ⟨hCD s a h.1, ih h.2⟩

theorem run_congr (h : Along step C s as) (hC : ∀ s a, C s a → step s a = step' s a) :
    run step s as = run step' s as := by
  induction as generalizing s with
  | nil => rfl
  | cons a as ih =>
      have ht := ih h.2
      rw [hC s a h.1] at ht
      simp only [run, hC s a h.1, ht]

theorem forall_run_iff {P : N → Prop} :
    (∀ n ∈ (run step s as).2, P n) ↔ Along step (fun s a => ∀ n ∈ (step s a).2, P n) s as := by
  induction as generalizing s with
  | nil => simp [run, Along]
  | cons a as ih =>
      simp only [run, Along, List.mem_append, ← ih, or_imp, forall_and]

end Mealy
