import SecureExec.Lib.Rely
import Mathlib.Logic.Hydra

/-!
# Lib — Ends — pools come to an end

A turn leaves a part of the program (`Coro.rest_advance`), and a program is well founded; so
finitely many programs take finitely many turns, in whatever order (`Pool.ends`).
-/

namespace Coro

variable {ε σ L α : Type}

/-- What is left of a program after one of its nodes. -/
inductive Next : Coro ε σ L α → Coro ε σ L α → Prop where
  | step (f : σ → σ) (k : σ → Coro ε σ L α) (s : σ) : Next (k s) (.step f k)
  | pause (k : Coro ε σ L α) : Next k (.pause k)
  | acquire (l : L) (k : Coro ε σ L α) : Next k (.acquire l k)
  | release (l : L) (k : Coro ε σ L α) : Next k (.release l k)

theorem wellFounded_next : WellFounded (Next : Coro ε σ L α → Coro ε σ L α → Prop) := by
  refine ⟨fun c => ?_⟩
  induction c with
  | pure a => exact ⟨_, fun _ h => nomatch h⟩
  | throw e => exact ⟨_, fun _ h => nomatch h⟩
  | step f k ih =>
      refine ⟨_, fun c h => ?_⟩
      cases h with
      | step _ _ s => exact ih s
  | pause _ ih | acquire _ _ ih | release _ _ ih =>
      refine ⟨_, fun c h => ?_⟩
      cases h
      exact ih

variable [DecidableEq L]

/-- A turn leaves the program or a part of it. -/
theorem rest_advance (c : Coro ε σ L α) :
    ∀ (held : L → Bool) (s : σ), Relation.ReflTransGen Next (c.advance held s).rest c := by
  induction c with
  | pure a => exact fun _ _ => .refl
  | throw e => exact fun _ _ => .refl
  | step f k ih => exact fun held s => (ih s held (f s)).tail (.step f k s)
  | pause k ih => exact fun _ _ => .single (.pause k)
  | acquire l k ih =>
      intro held s
      rw [advance]
      split
      · exact .refl
      · exact (ih _ s).tail (.acquire l k)
  | release l k ih => exact fun held s => (ih _ s).tail (.release l k)

/-- A turn of a program that has something to do leaves less. -/
theorem rest_advance_lt {c : Coro ε σ L α} {held : L → Bool} (h : Pool.idle held c = false)
    (s : σ) : Relation.TransGen Next (c.advance held s).rest c := by
  cases c with
  | pure a => cases h
  | throw e => cases h
  | step f k => exact .tail' (rest_advance (k s) held (f s)) (.step f k s)
  | pause k => exact .single (.pause k)
  | acquire l k =>
      have hl : held l ≠ true := Bool.eq_false_iff.mp h
      rw [advance, if_neg hl]
      exact .tail' (rest_advance k _ s) (.acquire l k)
  | release l k => exact .tail' (rest_advance k _ s) (.release l k)

end Coro

namespace Pool

variable {I ε σ L α : Type} [DecidableEq I] [DecidableEq L] [Fintype I]

/-- The programs, in no order. -/
def rests (w : Pool I ε σ L α) : Multiset (Coro ε σ L α) := Finset.univ.val.map w.tasks

omit [DecidableEq L] in
/-- One program is replaced by another. -/
theorem map_update (tasks : I → Coro ε σ L α) (i : I) (c : Coro ε σ L α) :
    Finset.univ.val.map (Function.update tasks i c) + {tasks i} =
      Finset.univ.val.map tasks + {c} := by
  have huniv : (Finset.univ : Finset I).val = i ::ₘ (Finset.univ.erase i).val := by
    rw [Finset.erase_val, Multiset.cons_erase (Finset.mem_univ_val i)]
  have hother : (Finset.univ.erase i).val.map (Function.update tasks i c) =
      (Finset.univ.erase i).val.map tasks := by
    refine Multiset.map_congr rfl fun j hj => Function.update_of_ne ?_ _ _
    exact (Finset.mem_erase.mp hj).1
  rw [huniv, Multiset.map_cons, Multiset.map_cons, hother, Function.update_self]
  rw [← Multiset.singleton_add, ← Multiset.singleton_add, add_right_comm,
    add_comm ({c} : Multiset (Coro ε σ L α)),
    add_right_comm]

/-- **Every run ends.** -/
theorem ends : WellFounded fun w' w : Pool I ε σ L α => ∃ i, w.step i = some w' := by
  refine Subrelation.wf ?_ (InvImage.wf rests Coro.wellFounded_next.transGen.cutExpand)
  rintro w' w ⟨i, hs⟩
  rw [step] at hs
  split at hs
  · cases hs
  rename_i hidle
  cases hs
  refine ⟨{((w.tasks i).advance w.held w.state).rest}, w.tasks i, fun c hc => ?_, map_update _ _ _⟩
  rw [Multiset.mem_singleton.mp hc]
  exact Coro.rest_advance_lt (Bool.eq_false_iff.mpr hidle) _

omit [Fintype I] in
/-- No run goes on for ever. -/
theorem no_endless_run [Finite I] :
    ¬ ∃ run : Nat → Pool I ε σ L α, ∀ n, ∃ i, (run n).step i = some (run (n + 1)) := by
  rintro ⟨run, hrun⟩
  have : Fintype I := Fintype.ofFinite I
  exact (wellFounded_iff_isEmpty_descending_chain.mp ends).false ⟨run, hrun⟩

end Pool
