import Mathlib.Logic.Relation

/-!
# Lib — Prog — programs that keep their state when they throw

`Prog ε σ α` is a program over the state `σ` that returns an `α` or throws an `ε`; what it did to
the state before it threw stays done.  `p.exec s` is the outcome of `p` at `s` with the state
after it.

`p.wp s Q E` is the weakest precondition at `s`: `Q` of the value and the state when `p` returns,
`E` of the error and the state when it throws.  `p.Returns s Q` says that `p` returns.  Both
distribute over the statements of a program (`wp_bind`, `Returns.bind`), so a program is verified
one statement at a time.

`p.Within R` says that `p` changes the state by steps of `R` only, whether it returns or throws;
`p.Steps R s` says so of one state it starts from.
-/

/-- A program over `σ` that may throw an `ε`. -/
abbrev Prog (ε σ α : Type) : Type := ExceptT ε (StateM σ) α

namespace Prog

variable {ε σ α β : Type}

/-- The outcome and the state after it. -/
def exec (p : Prog ε σ α) (s : σ) : Except ε α × σ := p s

/-- The part of the state a pure reader sees. -/
def read (f : σ → α) : Prog ε σ α := fun s => (.ok (f s), s)

/-- Change the state. -/
def update (f : σ → σ) : Prog ε σ PUnit := fun s => (.ok ⟨⟩, f s)

/-- A result that is already there, or its error. -/
def lift : Except ε α → Prog ε σ α
  | .ok a => pure a
  | .error e => throw e

@[simp] theorem exec_pure (a : α) (s : σ) : (pure a : Prog ε σ α).exec s = (.ok a, s) := rfl

@[simp] theorem exec_throw (e : ε) (s : σ) : (throw e : Prog ε σ α).exec s = (.error e, s) := rfl

@[simp] theorem exec_read (f : σ → α) (s : σ) :
    (read f : Prog ε σ α).exec s = (.ok (f s), s) := rfl

@[simp] theorem exec_update (f : σ → σ) (s : σ) :
    (update f : Prog ε σ PUnit).exec s = (.ok ⟨⟩, f s) := rfl

theorem exec_bind (p : Prog ε σ α) (f : α → Prog ε σ β) (s : σ) :
    (p >>= f).exec s =
      match p.exec s with
      | (.ok a, s') => (f a).exec s'
      | (.error e, s') => (.error e, s') := by
  have hb : (p >>= f) s = (match p s with
      | (.ok a, s') => f a s'
      | (.error e, s') => (.error e, s')) := by
    simp only [bind, ExceptT.bind, ExceptT.mk, StateT.bind, ExceptT.bindCont]
    rcases p s with ⟨_ | _, _⟩ <;> rfl
  exact hb

theorem exec_tryCatch (p : Prog ε σ α) (h : ε → Prog ε σ α) (s : σ) :
    (tryCatch p h).exec s =
      match p.exec s with
      | (.ok a, s') => (.ok a, s')
      | (.error e, s') => (h e).exec s' := by
  have ht : (tryCatch p h) s = (match p s with
      | (.ok a, s') => (.ok a, s')
      | (.error e, s') => h e s') := by
    simp only [tryCatch, tryCatchThe, MonadExceptOf.tryCatch, ExceptT.tryCatch, ExceptT.mk, bind,
      StateT.bind]
    rcases p s with ⟨_ | _, _⟩ <;> rfl
  exact ht

@[simp] theorem exec_lift (x : Except ε α) (s : σ) : (lift x : Prog ε σ α).exec s = (x, s) := by
  cases x with
  | ok a => rfl
  | error e => rfl

variable {f : α → Prog ε σ β}

/-- Two programs that go on alike after a common start. -/
theorem exec_bind_congr {p : Prog ε σ α} {g : α → Prog ε σ β} {s : σ}
    (h : ∀ a s', p.exec s = (.ok a, s') → (f a).exec s' = (g a).exec s') :
    (p >>= f).exec s = (p >>= g).exec s := by
  rw [exec_bind, exec_bind]
  rcases hp : p.exec s with ⟨e | a, s'⟩
  · rfl
  · exact h a s' hp

/-! ### Weakest preconditions -/

/-- `Q` after a return, `E` after a throw. -/
def wp (p : Prog ε σ α) (s : σ) (Q : α → σ → Prop) (E : ε → σ → Prop) : Prop :=
  match p.exec s with
  | (.ok a, s') => Q a s'
  | (.error e, s') => E e s'

variable {Q R : α → σ → Prop} {E F : ε → σ → Prop} {p : Prog ε σ α} {s : σ}

@[simp] theorem wp_pure (a : α) : (pure a : Prog ε σ α).wp s Q E ↔ Q a s := Iff.rfl

@[simp] theorem wp_read (f : σ → α) : (read f : Prog ε σ α).wp s Q E ↔ Q (f s) s := Iff.rfl

@[simp] theorem wp_update {Q : PUnit → σ → Prop} (f : σ → σ) :
    (update f : Prog ε σ PUnit).wp s Q E ↔ Q ⟨⟩ (f s) := Iff.rfl

@[simp] theorem wp_lift_ok (a : α) : (lift (.ok a) : Prog ε σ α).wp s Q E ↔ Q a s := Iff.rfl

@[simp] theorem wp_bind {Q : β → σ → Prop} :
    (p >>= f).wp s Q E ↔ p.wp s (fun a s' => (f a).wp s' Q E) E := by
  rw [wp, exec_bind, wp]
  rcases p.exec s with ⟨_ | _, _⟩ <;> rfl

@[simp] theorem wp_map {g : α → β} {Q : β → σ → Prop} :
    (g <$> p).wp s Q E ↔ p.wp s (fun a s' => Q (g a) s') E := by
  rw [map_eq_pure_bind, wp_bind]
  rfl

@[simp] theorem wp_tryCatch {h : ε → Prog ε σ α} :
    (tryCatch p h).wp s Q E ↔ p.wp s Q fun e s' => (h e).wp s' Q E := by
  rw [wp, exec_tryCatch, wp]
  rcases p.exec s with ⟨_ | _, _⟩ <;> rfl

theorem wp_mono (h : p.wp s Q E) (hQ : ∀ a s', Q a s' → R a s') (hE : ∀ e s', E e s' → F e s') :
    p.wp s R F := by
  unfold wp at h ⊢
  rcases hp : p.exec s with ⟨_ | _, _⟩ <;> rw [hp] at h
  · exact hE _ _ h
  · exact hQ _ _ h

/-- Two facts about one run. -/
theorem wp_and (h : p.wp s Q E) (h' : p.wp s R F) :
    p.wp s (fun a s' => Q a s' ∧ R a s') fun e s' => E e s' ∧ F e s' := by
  unfold wp at h h' ⊢
  rcases hp : p.exec s with ⟨_ | _, _⟩ <;> rw [hp] at h h' <;> exact ⟨h, h'⟩

/-- A result that is already there, by cases. -/
theorem wp_lift_of {x : Except ε α} (hok : ∀ a, x = .ok a → Q a s)
    (he : ∀ e, x = .error e → E e s) : (lift x : Prog ε σ α).wp s Q E := by
  cases x with
  | ok a => exact hok a rfl
  | error e => exact he e rfl

theorem wp_of_exec (hok : ∀ a s', p.exec s = (.ok a, s') → Q a s')
    (he : ∀ e s', p.exec s = (.error e, s') → E e s') : p.wp s Q E := by
  unfold wp
  split
  · exact hok _ _ (by assumption)
  · exact he _ _ (by assumption)

theorem of_wp_ok (h : p.wp s Q E) {a : α} {s' : σ} (he : p.exec s = (.ok a, s')) : Q a s' := by
  rw [wp, he] at h
  exact h

/-- What holds after a return and after a throw holds of the state after. -/
theorem state_of_wp {I : σ → Prop} (h : p.wp s (fun _ s' => I s') fun _ s' => I s') :
    I (p.exec s).2 := by
  unfold wp at h
  rcases hp : p.exec s with ⟨_ | _, _⟩ <;> rw [hp] at h <;> exact h

/-- What holds of the state after holds after a return and after a throw. -/
theorem wp_of_state {I : σ → Prop} (h : I (p.exec s).2) :
    p.wp s (fun _ s' => I s') fun _ s' => I s' := by
  unfold wp
  rcases hp : p.exec s with ⟨_ | _, _⟩ <;> rw [hp] at h <;> exact h

/-- The program returns, with `Q`. -/
def Returns (p : Prog ε σ α) (s : σ) (Q : α → σ → Prop) : Prop := p.wp s Q fun _ _ => False

theorem returns_iff : p.Returns s Q ↔ ∃ a s', p.exec s = (.ok a, s') ∧ Q a s' := by
  unfold Returns wp
  rcases hp : p.exec s with ⟨_ | a, s'⟩
  · simp
  · refine ⟨fun h => ⟨a, s', rfl, h⟩, fun ⟨_, _, he, h⟩ => ?_⟩
    cases he
    exact h

theorem Returns.mono (h : p.Returns s Q) (hQ : ∀ a s', Q a s' → R a s') : p.Returns s R :=
  wp_mono h hQ fun _ _ => id

/-- A statement that returned is stepped over. -/
theorem Returns.bind {Q : β → σ → Prop} (h : p.Returns s R)
    (hf : ∀ a s', R a s' → (f a).Returns s' Q) : (p >>= f).Returns s Q :=
  wp_bind.mpr (wp_mono h hf fun _ _ => id)

/-- A statement that is executed under a condition. -/
theorem Returns.bind_ite {P : Prop} [Decidable P] {p : Prog ε σ PUnit} {R : PUnit → σ → Prop}
    {f : PUnit → Prog ε σ β} {Q : β → σ → Prop} (h : (if P then p else pure ⟨⟩).Returns s R)
    (hf : ∀ s', R ⟨⟩ s' → (f ⟨⟩).Returns s' Q) : (if P then p >>= f else f ⟨⟩).Returns s Q := by
  by_cases hP : P
  · rw [if_pos hP] at h ⊢
    exact h.bind fun _ => hf
  · rw [if_neg hP] at h ⊢
    exact hf s h

/-! ### Steps from one state -/

/-- From `s` on the program changes the state by steps of `T` only, whether it returns or throws. -/
def Steps (T : σ → σ → Prop) (s : σ) (p : Prog ε σ α) : Prop :=
  p.wp s (fun _ s' => Relation.ReflTransGen T s s') fun _ s' => Relation.ReflTransGen T s s'

namespace Steps

variable {T : σ → σ → Prop}

theorem pure (a : α) : Steps T s (pure a : Prog ε σ α) := .refl

theorem throw (e : ε) : Steps T s (throw e : Prog ε σ α) := .refl

variable {f : β → Prog ε σ α}

theorem read {g : σ → β} (h : Steps T s (f (g s))) :
    Steps T s (Prog.read g >>= f) := wp_bind.mpr h

theorem lift {x : Except ε β} (h : ∀ b, x = .ok b → Steps T s (f b)) :
    Steps T s (Prog.lift x >>= f) := wp_bind.mpr (wp_lift_of h fun _ _ => .refl)

theorem bind {p : Prog ε σ β} (hp : Steps T s p)
    (hf : ∀ b s₁, Relation.ReflTransGen T s s₁ → Steps T s₁ (f b)) : Steps T s (p >>= f) := by
  refine wp_bind.mpr (wp_mono hp (fun b s₁ hq => ?_) fun _ _ he => he)
  exact wp_mono (hf b s₁ hq) (fun _ _ hr => hq.trans hr) fun _ _ hr => hq.trans hr

theorem update {u : σ → σ} {f : PUnit → Prog ε σ α} (hu : T s (u s))
    (h : Steps T (u s) (f ⟨⟩)) : Steps T s (Prog.update u >>= f) := by
  rw [Steps, wp_bind, wp_update]
  exact wp_mono h (fun _ _ hr => .head hu hr) fun _ _ hr => .head hu hr

/-- The last statement. -/
theorem last {u : σ → σ} (hu : Relation.ReflTransGen T s (u s)) :
    Steps T s (Prog.update u : Prog ε σ PUnit) := hu

theorem map {p : Prog ε σ β} (g : β → α) (h : Steps T s p) : Steps T s (g <$> p) := wp_map.mpr h

theorem ite {c : Prop} [Decidable c] {q : Prog ε σ α} (hp : Steps T s p) (hq : Steps T s q) :
    Steps T s (if c then p else q) := by
  split
  · exact hp
  · exact hq

theorem state (h : Steps T s p) : Relation.ReflTransGen T s (p.exec s).2 :=
  state_of_wp h

end Steps

/-! ### A part of the state -/

section Zoom
variable {τ : Type}

/-- A program over the part `get` of the state. -/
def zoom (get : τ → σ) (set : σ → τ → τ) (p : Prog ε σ α) : Prog ε τ α := fun t =>
  ((p.exec (get t)).1, set (p.exec (get t)).2 t)

variable {get : τ → σ} {set : σ → τ → τ} {t : τ}

theorem exec_zoom : (zoom get set p).exec t = ((p.exec (get t)).1, set (p.exec (get t)).2 t) := rfl

@[simp] theorem wp_zoom {Q : α → τ → Prop} {E : ε → τ → Prop} :
    (zoom get set p).wp t Q E ↔
      p.wp (get t) (fun a s' => Q a (set s' t)) fun e s' => E e (set s' t) := by
  rw [wp, exec_zoom, wp]
  rcases p.exec (get t) with ⟨_ | _, _⟩ <;> rfl

theorem map_zoom (g : α → β) (p : Prog ε σ α) : g <$> zoom get set p = zoom get set (g <$> p) := by
  funext t
  change (g <$> zoom get set p).exec t = (zoom get set (g <$> p)).exec t
  rw [exec_zoom, map_eq_pure_bind, map_eq_pure_bind, exec_bind, exec_bind, exec_zoom]
  rcases p.exec (get t) with ⟨_ | _, _⟩ <;> rfl

end Zoom

/-! ### Programs that change the state by given steps -/

/-- The state changes by steps of `R` only, whether the program returns or throws. -/
def Within (R : σ → σ → Prop) (p : Prog ε σ α) : Prop :=
  ∀ s, Relation.ReflTransGen R s (p.exec s).2

namespace Within

variable {T : σ → σ → Prop}

theorem pure (a : α) : Within T (pure a : Prog ε σ α) := fun _ => .refl

theorem throw (e : ε) : Within T (throw e : Prog ε σ α) := fun _ => .refl

theorem read (f : σ → α) : Within T (Prog.read f : Prog ε σ α) := fun _ => .refl

theorem lift (x : Except ε α) : Within T (Prog.lift x : Prog ε σ α) := by
  cases x with
  | ok a => exact pure a
  | error e => exact throw e

theorem update {f : σ → σ} (h : ∀ s, Relation.ReflTransGen T s (f s)) :
    Within T (Prog.update f : Prog ε σ PUnit) := h

theorem bind (h : Within T p) (hf : ∀ a, Within T (f a)) :
    Within T (p >>= f) := by
  intro s
  have hs := h s
  rw [exec_bind]
  rcases hp : p.exec s with ⟨e | a, s'⟩
  · simpa [hp] using hs
  · rw [hp] at hs
    exact hs.trans (hf a s')

theorem map (g : α → β) (h : Within T p) : Within T (g <$> p) := by
  rw [map_eq_pure_bind]
  exact h.bind fun a => pure (g a)

/-- A program that takes no steps leaves the state. -/
theorem state_eq (h : Within Eq p) (s : σ) : (p.exec s).2 = s := by
  have hs := h s
  generalize (p.exec s).2 = s' at hs
  induction hs with
  | refl => rfl
  | tail _ he ih => exact he.symm.trans ih

theorem ite {c : Prop} [Decidable c] {q : Prog ε σ α} (hp : Within T p) (hq : Within T q) :
    Within T (if c then p else q) := by
  split
  · exact hp
  · exact hq

/-- What the program returns or throws is dropped. -/
theorem dropped (h : Within T p) (b : β) :
    Within T (fun s => (.ok b, (p.exec s).2) : Prog ε σ β) := h

theorem mapM (h : ∀ a, Within T (f a)) : ∀ l : List α, Within T (l.mapM f)
  | [] => pure []
  | a :: l => by
      rw [List.mapM_cons]
      exact (h a).bind fun b => (mapM h l).bind fun bs => pure (b :: bs)

end Within

end Prog
