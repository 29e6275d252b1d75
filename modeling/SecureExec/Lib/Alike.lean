import SecureExec.Lib.Prog

/-!
# Lib — Alike — two programs that have the same outcome

`Prog.Alike stop R p q`: from states that `R` relates, `q` has the outcome of `p` and they end in
states that `R` relates; but for runs of `p` that end with a `stop` error, of which nothing is said.
With no `stop` errors this is a bisimulation of the states; with `R` equality, it says that `q` goes
on where `p` was stopped.

There is one rule for each statement of a program.
-/

namespace Prog
open MonadExcept

variable {ε σ τ α β : Type} {stop : ε → Prop} {R : σ → τ → Prop}

/-- The outcome is a `stop` error. -/
def Stopped (stop : ε → Prop) (x : Except ε α) : Prop := ∃ e, x = .error e ∧ stop e

def Alike (stop : ε → Prop) (R : σ → τ → Prop) (p : Prog ε σ α) (q : Prog ε τ α) : Prop :=
  ∀ s t, R s t → Stopped stop (p.exec s).1 ∨
    (q.exec t).1 = (p.exec s).1 ∧ R (p.exec s).2 (q.exec t).2

namespace Alike

theorem pure (a : α) : Alike stop R (Pure.pure a : Prog ε σ α) (Pure.pure a) :=
  fun _ _ h => .inr ⟨rfl, h⟩

theorem throw (e : ε) : Alike stop R (throw e : Prog ε σ α) (throw e) :=
  fun _ _ h => .inr ⟨rfl, h⟩

theorem refl (p : Prog ε σ α) : Alike stop Eq p p := by
  rintro s _ rfl
  exact .inr ⟨rfl, rfl⟩

/-- A program that stops. -/
theorem stopped {e : ε} (h : stop e) (q : Prog ε τ α) :
    Alike stop R (MonadExcept.throw e : Prog ε σ α) q :=
  fun _ _ _ => .inl ⟨e, rfl, h⟩

variable {p : Prog ε σ α} {q : Prog ε τ α}

theorem bind {f : α → Prog ε σ β} {g : α → Prog ε τ β} (h : Alike stop R p q)
    (hf : ∀ a, Alike stop R (f a) (g a)) : Alike stop R (p >>= f) (q >>= g) := by
  intro s t hst
  have hs := h s t hst
  rw [exec_bind, exec_bind]
  rcases hp : p.exec s with ⟨e | a, s'⟩ <;> rcases hq : q.exec t with ⟨e' | b, t'⟩ <;>
    rw [hp, hq] at hs
  · rcases hs with ⟨d, hd, hstop⟩ | ⟨heq, hR⟩
    · cases hd
      exact .inl ⟨e, rfl, hstop⟩
    · cases heq
      exact .inr ⟨rfl, hR⟩
  · rcases hs with ⟨d, hd, hstop⟩ | ⟨heq, -⟩
    · cases hd
      exact .inl ⟨e, rfl, hstop⟩
    · cases heq
  · rcases hs with ⟨d, hd, -⟩ | ⟨heq, -⟩
    · cases hd
    · cases heq
  · rcases hs with ⟨d, hd, -⟩ | ⟨heq, hR⟩
    · cases hd
    · cases heq
      exact hf a s' t' hR

/-- The handler hands `stop` errors on. -/
theorem tryCatch {h : ε → Prog ε σ α} {k : ε → Prog ε τ α} (hp : Alike stop R p q)
    (hh : ∀ e, Alike stop R (h e) (k e))
    (hstop : ∀ e, stop e → ∀ s, Stopped stop ((h e).exec s).1) :
    Alike stop R (tryCatch p h) (tryCatch q k) := by
  intro s t hst
  have hs := hp s t hst
  rw [exec_tryCatch, exec_tryCatch]
  rcases hp : p.exec s with ⟨e | a, s'⟩ <;> rcases hq : q.exec t with ⟨e' | b, t'⟩ <;>
    rw [hp, hq] at hs
  · rcases hs with ⟨d, hd, hd'⟩ | ⟨heq, hR⟩
    · cases hd
      exact .inl (hstop e hd' s')
    · cases heq
      exact hh e s' t' hR
  · rcases hs with ⟨d, hd, hd'⟩ | ⟨heq, -⟩
    · cases hd
      exact .inl (hstop e hd' s')
    · cases heq
  · rcases hs with ⟨d, hd, -⟩ | ⟨heq, -⟩
    · cases hd
    · cases heq
  · exact .inr ((hs.resolve_left fun ⟨d, hd, _⟩ => by cases hd))

theorem ite {c : Prop} [Decidable c] {p' : Prog ε σ α} {q' : Prog ε τ α} (h : Alike stop R p q)
    (h' : Alike stop R p' q') : Alike stop R (if c then p else p') (if c then q else q') := by
  split
  · exact h
  · exact h'

end Alike

end Prog
