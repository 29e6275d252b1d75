import SecureExec.Lib.Coro
import SecureExec.Lib.Lts

/-!
# Lib — Rely — programs that take their turns beside others

A `Pool` is a family of programs with their locks and one state; a step is one turn of one of them.

A `Protocol` is what the programs agree on.  Each has something to itself, a `W`; `step` is what a
statement may do to the state and to what its program has, `rely` what the others may do meanwhile
to one that has a `W`, `take` and `give` what a lock is worth, and `guard d` what may be supposed of
the state in which a turn begins with `d`.  `Turns`: one program keeps to the protocol and
comes to its end with `Q`, whatever the others do; it distributes over the statements as the
weakest precondition of a `Prog` does.

`Pool.ok_step`, `Pool.ok_reach`: programs that keep to the protocol, one by one, keep to it
together, when what they have fits together (`Fits`) and every turn begins as its guard supposes.
-/

namespace Coro

variable {ε σ L α β W : Type}

/-! ### How a program begins -/

/-- `c` begins with `d`: what follows `d`, and the locks that are given back after it, are left. -/
inductive Begins (d : Coro ε σ L PUnit) : {α : Type} → Coro ε σ L α → Prop where
  | self : Begins d d
  | bind {α β : Type} {c : Coro ε σ L α} (h : Begins d c) (g : α → Coro ε σ L β) :
      Begins d (c >>= g)
  | releasing {α : Type} {c : Coro ε σ L α} (h : Begins d c) (l : L) : Begins d (c.releasing l)

namespace Begins

variable {c : Coro ε σ L α}

theorem step {f : σ → σ} {k : σ → Coro ε σ L PUnit} (h : Begins (.step f k) c) :
    ∃ k', c = .step f k' ∧ ∀ s, Begins (k s) (k' s) := by
  induction h with
  | self => exact ⟨k, rfl, fun _ => .self⟩
  | bind _ g ih =>
      obtain ⟨k', rfl, hk⟩ := ih
      exact ⟨_, rfl, fun s => (hk s).bind g⟩
  | releasing _ l ih =>
      obtain ⟨k', rfl, hk⟩ := ih
      exact ⟨_, rfl, fun s => (hk s).releasing l⟩

end Begins

end Coro

/-! ### One program -/

/-- What programs that run beside each other agree on. -/
structure Protocol (ε σ L W : Type) where
  step : W → σ → W → σ → Prop
  rely : W → σ → σ → Prop
  take : L → W → W → Prop
  give : L → W → W → Prop
  guard : Coro ε σ L PUnit → σ → Prop
  refl : ∀ w s, rely w s s
  trans : ∀ w s s₁ s₂, rely w s s₁ → rely w s₁ s₂ → rely w s s₂

namespace Protocol

open Coro

variable {ε σ L α β W : Type} {P : Protocol ε σ L W} {w w' : W} {s s' : σ}
  {Q R : Except ε α → W → σ → Prop}

/-- The turn begins as its guard supposes, whatever it is seen to begin with. -/
def Allowed (P : Protocol ε σ L W) (c : Coro ε σ L α) (s : σ) : Prop :=
  ∀ f k, Begins (.step f k) c → P.guard (.step f k) s

variable {c : Coro ε σ L α} {g : α → Coro ε σ L β}

theorem Allowed.of_bind (h : P.Allowed (c >>= g) s) :
    P.Allowed c s := fun f k hd => h f k (hd.bind g)

variable {l : L}

theorem Allowed.of_releasing (h : P.Allowed (c.releasing l) s) :
    P.Allowed c s := fun f k hd => h f k (hd.releasing l)

/-- A turn that begins with the call `p`. -/
theorem Allowed.guard {p : Prog ε σ PUnit} {g : PUnit → Coro ε σ L β}
    (h : P.Allowed (await p >>= g) s) : P.guard (await p) s := h _ _ (Begins.self.bind g)

/-- A turn that is to begin without a statement. -/
theorem allowed_of_ne (h : ∀ f k, c ≠ .step f k) : P.Allowed c s := by
  intro f k hd
  obtain ⟨k', hk, -⟩ := hd.step
  exact absurd hk (h f k')

/-- The program keeps to the protocol and ends with `Q`. -/
def Turns (P : Protocol ε σ L W) (Q : Except ε α → W → σ → Prop) :
    Coro ε σ L α → W → σ → Prop
  | .pure a, w, s => Q (.ok a) w s
  | .throw e, w, s => Q (.error e) w s
  | .step f k, w, s => ∃ w', P.step w s w' (f s) ∧ P.Turns Q (k s) w' (f s)
  | .pause k, w, s => ∀ s', P.rely w s s' → P.Allowed k s' → P.Turns Q k w s'
  | .acquire l k, w, s => ∃ w', P.take l w w' ∧ ∀ s', P.rely w s s' → P.Turns Q k w' s'
  | .release l k, w, s => ∃ w', P.give l w w' ∧ P.Turns Q k w' s

theorem Turns.mono (h : P.Turns Q c w s)
    (hQ : ∀ r w s, Q r w s → R r w s) : P.Turns R c w s := by
  induction c generalizing w s with
  | pure a => exact hQ _ _ _ h
  | throw e => exact hQ _ _ _ h
  | step f k ih => exact h.imp fun w' h' => ⟨h'.1, ih _ h'.2⟩
  | pause k ih => exact fun s' hr ha => ih (h s' hr ha)
  | acquire l k ih => exact h.imp fun w' h' => ⟨h'.1, fun s' hr => ih (h'.2 s' hr)⟩
  | release l k ih => exact h.imp fun w' h' => ⟨h'.1, ih h'.2⟩

/-- What has to hold after the first of two programs. -/
def Then (P : Protocol ε σ L W) (g : α → Coro ε σ L β) (Q : Except ε β → W → σ → Prop) :
    Except ε α → W → σ → Prop
  | .ok a, w, s => P.Turns Q (g a) w s
  | .error e, w, s => Q (.error e) w s

variable {T : Except ε β → W → σ → Prop}

/-- **One statement after another.** -/
theorem Turns.bind (h : P.Turns (P.Then g T) c w s) : P.Turns T (c >>= g) w s := by
  induction c generalizing w s with
  | pure a => exact h
  | throw e => exact h
  | step f k ih => exact h.imp fun w' h' => ⟨h'.1, ih _ h'.2⟩
  | pause k ih => exact fun s' hr ha => ih (h s' hr ha.of_bind)
  | acquire l k ih => exact h.imp fun w' h' => ⟨h'.1, fun s' hr => ih (h'.2 s' hr)⟩
  | release l k ih => exact h.imp fun w' h' => ⟨h'.1, ih h'.2⟩

variable {p : Prog ε σ α}

section

variable (hs : P.step w s w' (p.exec s).2)
include hs

/-- A statement within a turn. -/
theorem Turns.lift (h : P.Then g T (p.exec s).1 w' (p.exec s).2) :
    P.Turns T (Coro.ofProg p >>= g) w s := by
  refine Turns.bind ⟨w', hs, ?_⟩
  change P.Turns (P.Then g T) (Coro.ofExcept (p.exec s).1) w' (p.exec s).2
  rcases hp : (p.exec s).1 with e | a <;> rw [hp] at h <;> exact h

/-- A call, and what follows its return after the others' turns. -/
theorem Turns.await (h : ∀ s', P.rely w' (p.exec s).2 s' →
      match (p.exec s).1 with
      | .ok a => P.Allowed (g a) s' → P.Turns T (g a) w' s'
      | .error e => T (.error e) w' s') :
    P.Turns T (Coro.await p >>= g) w s := by
  refine ⟨w', hs, fun s' hr ha => ?_⟩
  have h' := h s' hr
  rcases hp : (p.exec s).1 with e | a
  · rw [hp] at h' ha
    exact h'
  · rw [hp] at h' ha
    exact h' ha

/-- A call that ends the program. -/
theorem Turns.await_last (h : ∀ s', P.rely w' (p.exec s).2 s' → Q (p.exec s).1 w' s') :
    P.Turns Q (Coro.await p) w s := by
  refine ⟨w', hs, fun s' hr _ => ?_⟩
  have h' := h s' hr
  rcases hp : (p.exec s).1 with e | a <;> rw [hp] at h' <;> exact h'

end

variable {R : α → σ → Prop}

/-- A statement that returns. -/
theorem Turns.lift_returns (hp : p.Returns s R)
    (h : ∀ a s₁, R a s₁ → ∃ w', P.step w s w' s₁ ∧ P.Turns T (g a) w' s₁) :
    P.Turns T (Coro.ofProg p >>= g) w s := by
  obtain ⟨a, s₁, he, hR⟩ := Prog.returns_iff.mp hp
  obtain ⟨w', hs, ht⟩ := h a s₁ hR
  have hs' : P.step w s w' (p.exec s).2 := by rw [he]; exact hs
  refine Turns.lift hs' ?_
  rw [he]
  exact ht

/-- A call that returns. -/
theorem Turns.await_returns (hp : p.Returns s R)
    (h : ∀ a s₁, R a s₁ → ∃ w', P.step w s w' s₁ ∧
      ∀ s', P.rely w' s₁ s' → P.Allowed (g a) s' → P.Turns T (g a) w' s') :
    P.Turns T (Coro.await p >>= g) w s := by
  obtain ⟨a, s₁, he, hR⟩ := Prog.returns_iff.mp hp
  obtain ⟨w', hs, ht⟩ := h a s₁ hR
  have hs' : P.step w s w' (p.exec s).2 := by rw [he]; exact hs
  refine Turns.await hs' ?_
  rw [he]
  exact ht

/-- A call that looks. -/
theorem Turns.await_read {f : σ → α} (hs : P.step w s w s)
    (h : ∀ s', P.rely w s s' → P.Allowed (g (f s)) s' → P.Turns T (g (f s)) w s') :
    P.Turns T (Coro.await (Prog.read f) >>= g) w s :=
  Turns.await (p := Prog.read f) hs h

/-- A call that returns and ends the program. -/
theorem Turns.await_last_returns (hp : p.Returns s R)
    (h : ∀ a s₁, R a s₁ → ∃ w', P.step w s w' s₁ ∧
      ∀ s', P.rely w' s₁ s' → Q (.ok a) w' s') :
    P.Turns Q (Coro.await p) w s := by
  obtain ⟨a, s₁, he, hR⟩ := Prog.returns_iff.mp hp
  obtain ⟨w', hs, ht⟩ := h a s₁ hR
  have hs' : P.step w s w' (p.exec s).2 := by rw [he]; exact hs
  refine Turns.await_last hs' ?_
  rw [he]
  exact ht

theorem Turns.yield {g : PUnit → Coro ε σ L β}
    (h : ∀ s', P.rely w s s' → P.Allowed (g ⟨⟩) s' → P.Turns T (g ⟨⟩) w s') :
    P.Turns T (Coro.yield >>= g) w s := h

theorem Turns.releasing
    (h : P.Turns (fun r w s => ∃ w', P.give l w w' ∧ Q r w' s) c w s) :
    P.Turns Q (c.releasing l) w s := by
  induction c generalizing w s with
  | pure a => exact h
  | throw e => exact h
  | step f k ih => exact h.imp fun w' h' => ⟨h'.1, ih _ h'.2⟩
  | pause k ih => exact fun s' hr ha => ih (h s' hr ha.of_releasing)
  | acquire l k ih => exact h.imp fun w' h' => ⟨h'.1, fun s' hr => ih (h'.2 s' hr)⟩
  | release l k ih => exact h.imp fun w' h' => ⟨h'.1, ih h'.2⟩

/-- A stretch under a lock. -/
theorem Turns.withLock (ht : P.take l w w')
    (h : ∀ s₁ s₂, P.rely w s s₁ → P.rely w' s₁ s₂ → P.Allowed c s₂ →
      P.Turns (fun r w s => ∃ w', P.give l w w' ∧ Q r w' s) c w' s₂) :
    P.Turns Q (Coro.withLock l c) w s :=
  ⟨w', ht, fun s₁ hr s₂ hr' ha => Turns.releasing (h s₁ s₂ hr hr' ha.of_releasing)⟩

/-- Between its turns: the others may go on. -/
def Ready (P : Protocol ε σ L W) (Q : Except ε α → W → σ → Prop) (c : Coro ε σ L α) (w : W)
    (s : σ) : Prop :=
  ∀ s', P.rely w s s' → P.Allowed c s' → P.Turns Q c w s'

theorem Ready.later (h : P.Ready Q c w s) (hr : P.rely w s s') :
    P.Ready Q c w s' := fun _ hr' => h _ (P.trans _ _ _ _ hr hr')

end Protocol

/-! ### Many programs -/

/-- Programs with their locks and their state. -/
structure Pool (I ε σ L α : Type) where
  tasks : I → Coro ε σ L α
  held : L → Bool
  state : σ

namespace Pool

open Coro Protocol

variable {I ε σ L α W : Type} [DecidableEq I] [DecidableEq L]

/-- There is nothing to do: the program has ended, or waits for a lock that is held. -/
def idle (held : L → Bool) : Coro ε σ L α → Bool
  | .pure _ => true
  | .throw _ => true
  | .acquire l _ => held l
  | _ => false

/-- One turn of the program `i`. -/
def step (w : Pool I ε σ L α) (i : I) : Option (Pool I ε σ L α) :=
  if idle w.held (w.tasks i) then none
  else
    let t := (w.tasks i).advance w.held w.state
    some ⟨Function.update w.tasks i t.rest, t.held, t.state⟩

/-- What the programs have fits together: what one does to the state the others rely on. -/
structure Fits (P : Protocol ε σ L W) (J : (I → W) → (L → Bool) → σ → Prop) : Prop where
  step : ∀ {ws held s i w' s'}, J ws held s → P.step (ws i) s w' s' →
    J (Function.update ws i w') held s' ∧ ∀ j, j ≠ i → P.rely (ws j) s s'
  take : ∀ {ws held s i l w'}, J ws held s → P.take l (ws i) w' → held l = false →
    J (Function.update ws i w') (Function.update held l true) s
  give : ∀ {ws held s i l w'}, J ws held s → P.give l (ws i) w' →
    J (Function.update ws i w') (Function.update held l false) s

variable {P : Protocol ε σ L W} {J : (I → W) → (L → Bool) → σ → Prop}
  {Q : I → Except ε α → W → σ → Prop}

/-- **One turn of a program that keeps to the protocol.** -/
theorem turn (hJ : Fits P J) {i : I}
    (hQ : ∀ r w s s', Q i r w s → P.rely w s s' → Q i r w s') (c : Coro ε σ L α) :
    ∀ {ws : I → W} {held : L → Bool} {s : σ}, J ws held s → P.Turns (Q i) c (ws i) s →
      ∃ w', J (Function.update ws i w') (c.advance held s).held (c.advance held s).state ∧
        (∀ j, j ≠ i → P.rely (ws j) s (c.advance held s).state) ∧
        P.Ready (Q i) (c.advance held s).rest w' (c.advance held s).state := by
  induction c with
  | pure | throw =>
      intro ws held s hj h
      exact ⟨ws i, (Function.update_eq_self i ws).symm ▸ hj, fun j _ => P.refl _ _,
        fun s' hr _ => hQ _ _ _ _ h hr⟩
  | step f k ih =>
      intro ws held s hj h
      obtain ⟨w₁, hs, h⟩ := h
      obtain ⟨hj₁, hrely⟩ := hJ.step hj hs
      obtain ⟨w', hj', hrely', hready⟩ := ih s hj₁ (by rwa [Function.update_self])
      rw [Function.update_idem] at hj'
      refine ⟨w', hj', fun j hne => P.trans _ _ _ _ (hrely j hne) ?_, hready⟩
      have hj₂ := hrely' j hne
      rwa [Function.update_of_ne hne] at hj₂
  | pause k ih =>
      intro ws held s hj h
      exact ⟨ws i, (Function.update_eq_self i ws).symm ▸ hj, fun j _ => P.refl _ _, h⟩
  | acquire l k ih =>
      intro ws held s hj h
      rw [advance]
      obtain ⟨w₁, ht, h⟩ := h
      split
      · exact ⟨ws i, (Function.update_eq_self i ws).symm ▸ hj, fun j _ => P.refl _ _,
          fun s' hr _ => ⟨w₁, ht, fun s'' hr' => h s'' (P.trans _ _ _ _ hr hr')⟩⟩
      · rename_i hl
        have hj₁ := hJ.take hj ht (Bool.eq_false_iff.mpr hl)
        obtain ⟨w', hj', hrely', hready⟩ := ih hj₁ (by
          rw [Function.update_self]
          exact h s (P.refl _ _))
        rw [Function.update_idem] at hj'
        refine ⟨w', hj', fun j hne => ?_, hready⟩
        have hj₂ := hrely' j hne
        rwa [Function.update_of_ne hne] at hj₂
  | release l k ih =>
      intro ws held s hj h
      obtain ⟨w₁, hg, h⟩ := h
      have hj₁ := hJ.give hj hg
      obtain ⟨w', hj', hrely', hready⟩ := ih hj₁ (by rwa [Function.update_self])
      rw [Function.update_idem] at hj'
      refine ⟨w', hj', fun j hne => ?_, hready⟩
      have hj₂ := hrely' j hne
      rwa [Function.update_of_ne hne] at hj₂

/-- The programs keep to the protocol, and what they have fits together. -/
def Ok (P : Protocol ε σ L W) (J : (I → W) → (L → Bool) → σ → Prop)
    (Q : I → Except ε α → W → σ → Prop) (w : Pool I ε σ L α) : Prop :=
  ∃ ws, J ws w.held w.state ∧ ∀ i, P.Ready (Q i) (w.tasks i) (ws i) w.state

/-- The condition on a run: every turn begins as its guard supposes. -/
def Heeds (P : Protocol ε σ L W) (w : Pool I ε σ L α) (i : I) : Prop :=
  P.Allowed (w.tasks i) w.state

variable {w w' : Pool I ε σ L α} {i : I}

/-- **One turn.** -/
theorem ok_step (hJ : Fits P J) (hQ : ∀ i r w s s', Q i r w s → P.rely w s s' → Q i r w s')
    (h : Ok P J Q w) (ha : Heeds P w i) (hs : w.step i = some w') : Ok P J Q w' := by
  obtain ⟨ws, hj, hready⟩ := h
  obtain ⟨w₁, hj₁, hrely, hready₁⟩ := turn hJ (hQ i) (w.tasks i) hj
    (hready i _ (P.refl _ _) ha)
  rw [step] at hs
  split at hs
  · cases hs
  cases hs
  refine ⟨_, hj₁, fun j => ?_⟩
  by_cases hne : j = i
  · subst hne
    simp only [Function.update_self]
    exact hready₁
  · simp only [Function.update_of_ne hne]
    exact (hready j).later (hrely j hne)

/-- **Every run.** -/
theorem ok_reach (hJ : Fits P J) (hQ : ∀ i r w s s', Q i r w s → P.rely w s s' → Q i r w s')
    (h : Ok P J Q w) (r : Lts.Reach step (Heeds P) w w') : Ok P J Q w' :=
  r.invariant h fun _ _ _ hok ha hs => ok_step hJ hQ hok ha hs

omit [DecidableEq I] [DecidableEq L] in
/-- What programs that have ended came to. -/
theorem Ok.outcomes (h : Ok P J Q w) : ∃ ws, J ws w.held w.state ∧
    ∀ i r, (w.tasks i).outcome? = some r → Q i r (ws i) w.state := by
  obtain ⟨ws, hj, hready⟩ := h
  refine ⟨ws, hj, fun i r hr => ?_⟩
  have hi := hready i w.state (P.refl _ _)
  cases hc : w.tasks i with
  | pure | throw =>
      rw [hc] at hr hi
      cases hr
      exact hi (allowed_of_ne fun _ _ => nofun)
  | step f k => rw [hc] at hr; cases hr
  | pause k => rw [hc] at hr; cases hr
  | acquire l k => rw [hc] at hr; cases hr
  | release l k => rw [hc] at hr; cases hr

omit [DecidableEq I] [DecidableEq L] in
/-- What a program that has ended came to. -/
theorem Ok.outcome (h : Ok P J Q w) {r : Except ε α} (hr : (w.tasks i).outcome? = some r) :
    ∃ ws, J ws w.held w.state ∧ Q i r (ws i) w.state :=
  h.outcomes.imp fun _ hws => ⟨hws.1, hws.2 i r hr⟩

/-- A program that has not ended has something to do, if it takes free locks only. -/
theorem Ok.can_step (h : Ok P J Q w)
    (hfree : ∀ {ws held s l w'}, J ws held s → P.take l (ws i) w' → held l = false)
    (hi : (w.tasks i).outcome? = none) : (w.step i).isSome := by
  obtain ⟨ws, hj, hready⟩ := h
  have hidle : idle w.held (w.tasks i) = false := by
    have hr := hready i w.state (P.refl _ _)
    cases hc : w.tasks i with
    | pure a => rw [hc] at hi; cases hi
    | throw e => rw [hc] at hi; cases hi
    | step f k => rfl
    | pause k => rfl
    | acquire l k =>
        rw [hc] at hr
        obtain ⟨w', ht, -⟩ := hr (allowed_of_ne fun _ _ => nofun)
        exact hfree hj ht
    | release l k => rfl
  rw [step, if_neg (Bool.eq_false_iff.mp hidle)]
  rfl

end Pool
