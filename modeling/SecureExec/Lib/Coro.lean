import SecureExec.Lib.Prog
import Mathlib.Logic.Function.Basic

/-!
# Lib — Coro — programs that pause

`Coro ε σ L α` is a program over a shared state `σ` that pauses: what stands between two pauses is
one turn, which nothing interrupts; at a pause other programs take their turns.  It returns an `α`
or throws an `ε`, and it takes and gives back locks named by `L`.

* `run`: the program with nobody else around, as a `Prog`.  It distributes over the statements
  (`run_bind`, `run_await`), so what is known of a `Prog` is known of a `Coro` that runs alone.
* `advance`: one turn, up to the next pause, to the end, or to a lock that is held.
-/

/-- A program over `σ` that pauses, may throw an `ε` and takes locks of `L`. -/
inductive Coro (ε σ L α : Type) where
  | pure (a : α)
  | throw (e : ε)
  /-- Change the state; what follows may depend on the state before. -/
  | step (f : σ → σ) (k : σ → Coro ε σ L α)
  | pause (k : Coro ε σ L α)
  | acquire (l : L) (k : Coro ε σ L α)
  | release (l : L) (k : Coro ε σ L α)

namespace Coro

variable {ε σ L α β γ : Type}

protected def bind : Coro ε σ L α → (α → Coro ε σ L β) → Coro ε σ L β
  | .pure a, g => g a
  | .throw e, _ => .throw e
  | .step f k, g => .step f fun s => (k s).bind g
  | .pause k, g => .pause (k.bind g)
  | .acquire l k, g => .acquire l (k.bind g)
  | .release l k, g => .release l (k.bind g)

/-- `try c catch e => h e`. -/
protected def tryCatch : Coro ε σ L α → (ε → Coro ε σ L α) → Coro ε σ L α
  | .pure a, _ => .pure a
  | .throw e, h => h e
  | .step f k, h => .step f fun s => (k s).tryCatch h
  | .pause k, h => .pause (k.tryCatch h)
  | .acquire l k, h => .acquire l (k.tryCatch h)
  | .release l k, h => .release l (k.tryCatch h)

instance : Monad (Coro ε σ L) where
  pure := .pure
  bind := Coro.bind

instance : MonadExceptOf ε (Coro ε σ L) where
  throw := .throw
  tryCatch := Coro.tryCatch

/-- A result that is already there, or its error. -/
def ofExcept : Except ε α → Coro ε σ L α
  | .ok a => .pure a
  | .error e => .throw e

/-- The statements of a `Prog`, without a pause. -/
def ofProg (p : Prog ε σ α) : Coro ε σ L α :=
  .step (fun s => (p.exec s).2) fun s => ofExcept (p.exec s).1

instance : MonadLift (Prog ε σ) (Coro ε σ L) where
  monadLift := ofProg

/-- `await p`: the call is made at once, its outcome is seen after a pause. -/
def await (p : Prog ε σ α) : Coro ε σ L α :=
  .step (fun s => (p.exec s).2) fun s => .pause (ofExcept (p.exec s).1)

/-- A pause of its own. -/
def yield : Coro ε σ L PUnit := .pause (.pure ⟨⟩)

/-- The lock is given back at the end, whether the program returns or throws. -/
def releasing (l : L) : Coro ε σ L α → Coro ε σ L α
  | .pure a => .release l (.pure a)
  | .throw e => .release l (.throw e)
  | .step f k => .step f fun s => (k s).releasing l
  | .pause k => .pause (k.releasing l)
  | .acquire l' k => .acquire l' (k.releasing l)
  | .release l' k => .release l' (k.releasing l)

/-- `const release = await acquire(l); try { c } finally { release() }`. -/
def withLock (l : L) (c : Coro ε σ L α) : Coro ε σ L α :=
  .acquire l (.pause (c.releasing l))

/-! ### Monad laws -/

instance : LawfulMonad (Coro ε σ L) := by
  refine LawfulMonad.mk' (m := Coro ε σ L) (fun c => ?_) (fun _ _ => rfl) fun c f g => ?_
  · change c.bind _ = c
    induction c with
    | pure a => rfl
    | throw e => rfl
    | step f k ih => exact congrArg (Coro.step f) (funext ih)
    | pause k ih => exact congrArg Coro.pause ih
    | acquire l k ih => exact congrArg (Coro.acquire l) ih
    | release l k ih => exact congrArg (Coro.release l) ih
  · change (c.bind f).bind g = c.bind fun a => (f a).bind g
    induction c with
    | pure a => rfl
    | throw e => rfl
    | step h k ih => exact congrArg (Coro.step h) (funext ih)
    | pause k ih => exact congrArg Coro.pause ih
    | acquire l k ih => exact congrArg (Coro.acquire l) ih
    | release l k ih => exact congrArg (Coro.release l) ih

/-! ### A program that runs alone -/

/-- The program with nobody else around: the pauses and the locks do nothing. -/
def run : Coro ε σ L α → Prog ε σ α
  | .pure a => Pure.pure a
  | .throw e => MonadExcept.throw e
  | .step f k => fun s => (k s).run (f s)
  | .pause k => k.run
  | .acquire _ k => k.run
  | .release _ k => k.run

@[simp] theorem run_pure (a : α) : (Pure.pure a : Coro ε σ L α).run = Pure.pure a := rfl

@[simp] theorem run_throw (e : ε) : (MonadExcept.throw e : Coro ε σ L α).run = MonadExcept.throw e := rfl

@[simp] theorem run_pause (k : Coro ε σ L α) : (Coro.pause k).run = k.run := rfl

@[simp] theorem run_yield : (yield : Coro ε σ L PUnit).run = Pure.pure ⟨⟩ := rfl

variable (p : Prog ε σ α)

@[simp] theorem run_ofProg : (ofProg p : Coro ε σ L α).run = p := by
  funext s
  change ((ofExcept (p s).1 : Coro ε σ L α).run (p s).2) = p s
  rcases p s with ⟨_ | _, _⟩ <;> rfl

@[simp] theorem run_lift : (liftM p : Coro ε σ L α).run = p := run_ofProg p

@[simp] theorem run_await : (await p : Coro ε σ L α).run = p := run_ofProg (L := L) p

@[simp] theorem run_bind (c : Coro ε σ L α) (g : α → Coro ε σ L β) :
    (c >>= g).run = c.run >>= fun a => (g a).run := by
  have hexec : ∀ s, (c >>= g).run.exec s = (c.run >>= fun a => (g a).run).exec s := by
    induction c with
    | pure a => exact fun s => rfl
    | throw e => exact fun s => rfl
    | step f k ih =>
        intro s
        refine (ih s (f s)).trans ?_
        rw [Prog.exec_bind, Prog.exec_bind]
        rfl
    | pause k ih => exact ih
    | acquire l k ih => exact ih
    | release l k ih => exact ih
  exact funext hexec

@[simp] theorem run_map (f : α → β) (c : Coro ε σ L α) : (f <$> c).run = f <$> c.run := by
  rw [map_eq_pure_bind, map_eq_pure_bind, run_bind]
  rfl

@[simp] theorem run_ite {P : Prop} [Decidable P] (c d : Coro ε σ L α) :
    (if P then c else d).run = if P then c.run else d.run := by
  split <;> rfl

@[simp] theorem run_releasing (l : L) (c : Coro ε σ L α) : (c.releasing l).run = c.run := by
  induction c with
  | pure a => rfl
  | throw e => rfl
  | step f k ih =>
      funext s
      exact congrFun (ih s) (f s)
  | pause k ih => exact ih
  | acquire l k ih => exact ih
  | release l k ih => exact ih

@[simp] theorem run_withLock (l : L) (c : Coro ε σ L α) : (withLock l c).run = c.run :=
  run_releasing l c

/-- What the program came to, when it is at its end. -/
def outcome? : Coro ε σ L α → Option (Except ε α)
  | .pure a => some (.ok a)
  | .throw e => some (.error e)
  | _ => none

/-! ### One turn -/

/-- What a turn leaves: the rest of the program, the locks that are held, the state. -/
structure Turn (ε σ L α : Type) where
  rest : Coro ε σ L α
  held : L → Bool
  state : σ

section Advance
variable [DecidableEq L]

/-- One turn. -/
def advance : Coro ε σ L α → (L → Bool) → σ → Turn ε σ L α
  | .pure a, held, s => ⟨.pure a, held, s⟩
  | .throw e, held, s => ⟨.throw e, held, s⟩
  | .step f k, held, s => (k s).advance held (f s)
  | .pause k, held, s => ⟨k, held, s⟩
  | .acquire l k, held, s =>
    if held l then ⟨.acquire l k, held, s⟩ else k.advance (Function.update held l true) s
  | .release l k, held, s => k.advance (Function.update held l false) s

end Advance

end Coro
