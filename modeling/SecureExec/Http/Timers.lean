import SecureExec.Lib.Lts
import SecureExec.Lib.Overrides

/-!
# Http — Timers — the timer globals while requests are dispatched

`dispatchServerRequest` and `dispatchLoopbackServerRequest` install timer functions of their own
while they wait for the listener and for what it scheduled, and put back what they found.  Between
two awaits of one dispatch any other dispatch may run.

* `step`: what can happen between two awaits, with the notes of which dispatch replaced the globals
  and which put its own back.
* `Effect`: a step installs, restores, or leaves the globals and what was saved as they are.
* `timers_put_back`: the globals are the functions that were there first exactly when the order of
  the notes is closed (`Overrides.Closed`), or when there is no timer function at all.
-/

namespace Http
open Lts Overrides

inductive TimerName where
  | setImmediate
  | setTimeout
  | clearTimeout
  deriving DecidableEq

/-- What a timer global holds: a value from outside, or the function that a dispatch installed. -/
inductive Timer (F : Type) where
  | outside (f : F)
  | tracking (dispatch : ℕ)
  deriving DecidableEq

/-- The timer globals. -/
abbrev Timers (F : Type) := TimerName → Timer F

/-- Where a dispatch waits. -/
inductive Await where
  /-- For the listener's result. -/
  | listener
  /-- For the timers and immediates that were scheduled when it last looked. -/
  | scheduled
  /-- For the response to be closed; the globals are put back. -/
  | close
  /-- For the timers and immediates scheduled when the response was closed. -/
  | settled (timers immediates : ℕ)
  | finished
  deriving DecidableEq

/-- A dispatch: the globals it found, and for each timer and immediate scheduled through the
functions it installed whether its promise is resolved. -/
structure Dispatch (F : Type) where
  original : Timers F
  pendingTimers : List Bool
  pendingImmediates : List Bool
  consumedTimerCount : ℕ
  consumedImmediateCount : ℕ
  await : Await

/-- The timer globals, with the dispatches in the order in which they began. -/
structure Isolate (F : Type) where
  globals : Timers F
  dispatches : List (Dispatch F)

inductive Event where
  /-- A dispatch installs its functions and calls the listener. -/
  | begin
  /-- A timer is scheduled through the function of a dispatch, by whoever holds it. -/
  | setTimeout (d : ℕ)
  | setImmediate (d : ℕ)
  /-- A timer has fired or was cleared, an immediate has run. -/
  | timerDone (d i : ℕ)
  | immediateDone (d i : ℕ)
  /-- The listener, or the promise it returned, has ended. -/
  | returned (d : ℕ)
  | threw (d : ℕ)
  /-- What was scheduled when the dispatch last looked is done. -/
  | scheduledDone (d : ℕ)
  /-- The error response could not be ended. -/
  | endFailed (d : ℕ)
  | closed (d : ℕ)
  | finish (d : ℕ)
  deriving DecidableEq

variable {F : Type}

/-- `typeof … === "function"`; `callable` says it of the values from outside. -/
def Timer.isFunction (callable : F → Bool) : Timer F → Bool
  | .outside f => callable f
  | .tracking _ => true

/-- A dispatch replaces those globals that are functions. -/
def Timers.install (callable : F → Bool) (d : ℕ) (g : Timers F) : Timers F := fun n =>
  if (g n).isFunction callable then .tracking d else g n

/-- A dispatch puts back those that it found to be functions. -/
def Timers.restore (callable : F → Bool) (original g : Timers F) : Timers F := fun n =>
  if (original n).isFunction callable then original n else g n

namespace Isolate

/-- The globals hold `g`, and no request has come. -/
def init (g : TimerName → F) : Isolate F := ⟨fun n => .outside (g n), []⟩

variable (callable : F → Bool) (s : Isolate F)

def put (d : ℕ) (x : Dispatch F) : Isolate F := { s with dispatches := s.dispatches.set d x }

/-- The `finally` of a dispatch. -/
def restore (d : ℕ) (x : Dispatch F) : Isolate F × List Note :=
  (⟨x.original.restore callable s.globals, s.dispatches.set d { x with await := .close }⟩,
    [.restored d])

/-- The test of the loop over what was scheduled. -/
def loop (d : ℕ) (x : Dispatch F) : Isolate F × List Note :=
  if x.consumedTimerCount < x.pendingTimers.length ∨
      x.consumedImmediateCount < x.pendingImmediates.length then
    (s.put d { x with
      consumedTimerCount := x.pendingTimers.length
      consumedImmediateCount := x.pendingImmediates.length
      await := .scheduled }, [])
  else s.restore callable d x

def begin : Isolate F × List Note :=
  (⟨s.globals.install callable s.dispatches.length,
    s.dispatches ++ [⟨s.globals, [], [], 0, 0, .listener⟩]⟩, [.installed s.dispatches.length])

/-- What happens to dispatch `d`, which is `x`. -/
def advance (d : ℕ) (x : Dispatch F) : Event → Option (Isolate F × List Note)
  | .setTimeout _ => some (s.put d { x with pendingTimers := x.pendingTimers ++ [false] }, [])
  | .setImmediate _ =>
    some (s.put d { x with pendingImmediates := x.pendingImmediates ++ [false] }, [])
  | .timerDone _ i => some (s.put d { x with pendingTimers := x.pendingTimers.set i true }, [])
  | .immediateDone _ i =>
    some (s.put d { x with pendingImmediates := x.pendingImmediates.set i true }, [])
  | .returned _ => if x.await = .listener then some (s.loop callable d x) else none
  | .threw _ => if x.await = .listener then some (s.restore callable d x) else none
  | .scheduledDone _ =>
    if x.await = .scheduled ∧ (x.pendingTimers.take x.consumedTimerCount).all id ∧
        (x.pendingImmediates.take x.consumedImmediateCount).all id then
      some (s.loop callable d x)
    else none
  | .endFailed _ =>
    if x.await = .close then some (s.put d { x with await := .finished }, []) else none
  | .closed _ =>
    if x.await = .close then
      some (s.put d { x with
        await := .settled x.pendingTimers.length x.pendingImmediates.length }, [])
    else none
  | .finish _ =>
    match x.await with
    | .settled timers immediates =>
      if (x.pendingTimers.take timers).all id ∧ (x.pendingImmediates.take immediates).all id then
        some (s.put d { x with await := .finished }, [])
      else none
    | _ => none
  | .begin => none

end Isolate

/-- The dispatch that an event is about. -/
def Event.dispatch : Event → Option ℕ
  | .begin => none
  | .setTimeout d | .setImmediate d | .timerDone d _ | .immediateDone d _ | .returned d | .threw d
  | .scheduledDone d | .endFailed d | .closed d | .finish d => some d

/-- A request whose server is unknown, or that does not parse, is refused before its dispatch
touches the globals, and is no event. -/
def step (callable : F → Bool) (s : Isolate F) (e : Event) : Option (Isolate F × List Note) :=
  match e.dispatch with
  | none => some (s.begin callable)
  | some d => (s.dispatches[d]?).bind fun x => s.advance callable d x e

/-! ### What a step does to the globals -/

namespace Isolate

variable {callable : F → Bool} {s t : Isolate F} {notes more : List Note}

/-- What the dispatches saved. -/
def saved (s : Isolate F) : List (Timers F) := s.dispatches.map (·.original)

variable {d : ℕ} {x : Dispatch F}

theorem saved_put {y : Dispatch F} (hx : s.dispatches[d]? = some x)
    (hy : y.original = x.original) : (s.dispatches.set d y).map (·.original) = s.saved := by
  have hs : s.saved[d]? = some x.original := by simp [saved, hx]
  rw [List.map_set, hy, ← saved]
  obtain ⟨hlt, hd⟩ := List.getElem?_eq_some_iff.mp hs
  rw [← hd]
  exact List.set_getElem_self hlt

/-- A step installs, restores, or leaves the globals and what was saved as they are. -/
inductive Effect (callable : F → Bool) (s t : Isolate F) : List Note → Prop where
  | install (hg : t.globals = s.globals.install callable s.saved.length)
      (hs : t.saved = s.saved ++ [s.globals]) : Effect callable s t [.installed s.saved.length]
  | restore {d : ℕ} {original : Timers F} (hd : s.saved[d]? = some original)
      (hg : t.globals = original.restore callable s.globals) (hs : t.saved = s.saved) :
      Effect callable s t [.restored d]
  | keep (hg : t.globals = s.globals) (hs : t.saved = s.saved) : Effect callable s t []

section

variable (hx : s.dispatches[d]? = some x)
include hx

theorem effect_put {y : Dispatch F}
    (hy : y.original = x.original) : Effect callable s (s.put d y) [] :=
  .keep rfl (saved_put hx hy)

theorem effect_restore (h : s.restore callable d x = (t, notes)) : Effect callable s t notes := by
  cases h
  have hd : s.saved[d]? = some x.original := by simp [saved, hx]
  exact .restore hd rfl (saved_put hx rfl)

theorem effect_loop (h : s.loop callable d x = (t, notes)) : Effect callable s t notes := by
  rw [loop] at h
  split at h
  · cases h
    exact effect_put hx rfl
  · exact effect_restore hx h

end

theorem effect_begin : Effect callable s (s.begin callable).1 (s.begin callable).2 := by
  have hl : s.dispatches.length = s.saved.length := by simp [saved]
  rw [begin, hl]
  exact .install rfl (by simp [saved])

theorem advance_effect {e : Event} (hx : s.dispatches[d]? = some x)
    (h : s.advance callable d x e = some (t, notes)) : Effect callable s t notes := by
  cases e with
  | begin => cases h
  | setTimeout _ | setImmediate _ | timerDone _ _ | immediateDone _ _ =>
      cases h
      exact effect_put hx rfl
  | returned _ | scheduledDone _ =>
      simp only [advance, Option.ite_none_right_eq_some] at h
      exact effect_loop hx (Option.some.inj h.2)
  | threw _ =>
      simp only [advance, Option.ite_none_right_eq_some] at h
      exact effect_restore hx (Option.some.inj h.2)
  | endFailed _ | closed _ =>
      simp only [advance, Option.ite_none_right_eq_some] at h
      cases h.2
      exact effect_put hx rfl
  | finish _ =>
      simp only [advance] at h
      split at h
      · simp only [Option.ite_none_right_eq_some] at h
        cases h.2
        exact effect_put hx rfl
      · cases h

theorem step_effect {e : Event} (h : step callable s e = some (t, notes)) :
    Effect callable s t notes := by
  rw [step] at h
  split at h
  · cases h
    exact effect_begin
  · obtain ⟨x, hx, h⟩ := Option.bind_eq_some_iff.mp h
    exact advance_effect hx h

/-! ### One global -/

/-- One of the globals, with what the dispatches saved of it. -/
def cell (s : Isolate F) (n : TimerName) : Cell (Timer F) := ⟨s.globals n, s.saved.map (· n)⟩

/-- What a global holds, and what was saved of it, is a function just if what it held at the start
is one. -/
structure Typed (callable : F → Bool) (g : TimerName → F) (s : Isolate F) : Prop where
  globals : ∀ n, (s.globals n).isFunction callable = callable (g n)
  saved : ∀ original ∈ s.saved, ∀ n, (original n).isFunction callable = callable (g n)

theorem isFunction_install (g : Timers F) (d : ℕ) (n : TimerName) :
    (g.install callable d n).isFunction callable = (g n).isFunction callable := by
  rw [Timers.install]
  split
  · rename_i h
    rw [h]
    rfl
  · rfl

variable {n : TimerName}

theorem isFunction_restore {original g : Timers F}
    (h : (original n).isFunction callable = (g n).isFunction callable) :
    (original.restore callable g n).isFunction callable = (g n).isFunction callable := by
  rw [Timers.restore]
  split
  · exact h
  · rfl

variable {g : TimerName → F}

theorem Typed.init : Typed callable g (init g) where
  globals := fun _ => rfl
  saved := fun _ h => by simp [Isolate.init, Isolate.saved] at h

theorem Typed.effect (hs : Typed callable g s) (h : Effect callable s t more) :
    Typed callable g t := by
  cases h with
  | install hg hsv =>
      refine ⟨fun n => ?_, fun original ho => ?_⟩
      · rw [hg, isFunction_install]
        exact hs.globals n
      · rw [hsv, List.mem_append, List.mem_singleton] at ho
        rcases ho with ho | rfl
        · exact hs.saved original ho
        · exact hs.globals
  | restore hd hg hsv =>
      refine ⟨fun n => ?_, hsv ▸ hs.saved⟩
      have ho := hs.saved _ (List.mem_of_getElem? hd) n
      rw [hg, isFunction_restore (ho.trans (hs.globals n).symm)]
      exact hs.globals n
  | keep hg hsv => exact ⟨hg ▸ hs.globals, hsv ▸ hs.saved⟩

/-- A step replaces a function and puts one back as `Cell.install` and `Cell.restore` do. -/
theorem sound_effect (hn : callable (g n)) (hs : Typed callable g s)
    (hc : (s.cell n).Sound (.outside (g n)) notes) (h : Effect callable s t more) :
    (t.cell n).Sound (.outside (g n)) (notes ++ more) := by
  cases h with
  | install hg hsv =>
      have hl : (s.cell n).saved.length = s.saved.length := List.length_map _
      have ht : t.cell n = (s.cell n).install (.tracking s.saved.length) := by
        simp [cell, Cell.install, hg, hsv, Timers.install, hs.globals n, hn]
      rw [ht, ← hl]
      exact hc.install (fun h => by cases h)
  | @restore d original hd hg hsv =>
      have ht : t.cell n = (s.cell n).restore (original n) := by
        have ho := hs.saved _ (List.mem_of_getElem? hd) n
        simp [cell, Cell.restore, hg, hsv, Timers.restore, ho, hn]
      rw [ht]
      exact hc.restore (by simp [cell, hd])
  | keep hg hsv =>
      have ht : t.cell n = s.cell n := by rw [cell, cell, hg, hsv]
      rw [ht, List.append_nil]
      exact hc

/-- A global that is no function stays what it is. -/
theorem kept_effect (hn : callable (g n) = false) (hs : Typed callable g s)
    (hc : s.globals n = .outside (g n)) (h : Effect callable s t more) :
    t.globals n = .outside (g n) := by
  cases h with
  | install hg _ =>
      have hf := hs.globals n
      rw [hn] at hf
      rw [hg, Timers.install, hf]
      exact hc
  | restore hd hg _ =>
      simp [hg, Timers.restore, hs.saved _ (List.mem_of_getElem? hd) n, hn, hc]
  | keep hg _ => rw [hg, hc]

/-- What a run keeps. -/
structure Kept (callable : F → Bool) (g : TimerName → F) (s : Isolate F) (notes : List Note) :
    Prop where
  typed : Typed callable g s
  sound : ∀ n, callable (g n) → (s.cell n).Sound (.outside (g n)) notes
  kept : ∀ n, callable (g n) = false → s.globals n = .outside (g n)

theorem Kept.run (r : Reach (recorded (step callable)) Any (init g, []) (s, notes)) :
    Kept callable g s notes := by
  refine r.invariant (I := fun p => Kept callable g p.1 p.2) ?_ ?_
  · exact ⟨.init, fun n _ => .init _, fun _ _ => rfl⟩
  · rintro ⟨s, notes⟩ e p hs - h
    obtain ⟨⟨t, more⟩, hstep, rfl⟩ := recorded_eq_some.mp h
    have he := step_effect hstep
    exact ⟨hs.typed.effect he, fun n hn => sound_effect hn hs.typed (hs.sound n hn) he,
      fun n hn => kept_effect hn hs.typed (hs.kept n hn) he⟩

end Isolate

/-! ### The globals after a run -/

variable {callable : F → Bool} {g : TimerName → F} {s : Isolate F} {notes : List Note}

/-- **The timer globals are put back just if the dispatch that put them back last began when they
were what they were at the start**, and so on back to the first: whichever dispatches come, however
they overlap and however they end.  Where none of them is a function nothing is ever replaced. -/
theorem timers_put_back
    (r : Reach (recorded (step callable)) Any (Isolate.init g, []) (s, notes)) :
    s.globals = (Isolate.init g).globals ↔ (∀ n, callable (g n) = false) ∨ Closed notes := by
  have hk := Isolate.Kept.run r
  constructor
  · intro hg
    by_cases hf : ∃ n, callable (g n) = true
    · obtain ⟨n, hn⟩ := hf
      exact .inr ((hk.sound n hn).value_iff.mp (congrFun hg n))
    · exact .inl (by simpa using hf)
  · intro h
    funext n
    cases hn : callable (g n) with
    | false => exact hk.kept n hn
    | true =>
        rcases h with h | h
        · rw [h n] at hn
          cases hn
        · exact (hk.sound n hn).value_iff.mpr h

/-- Two requests one after the other, both finished, and the globals are back. -/
theorem timers_put_back_two :
    ∃ (s : Isolate Bool) (notes : List Note),
      Reach (recorded (step id)) Any (Isolate.init fun _ => true, []) (s, notes) ∧
      (∀ x ∈ s.dispatches, x.await = .finished) ∧
      s.globals = (Isolate.init fun _ => true).globals := by
  obtain ⟨⟨s, _⟩, hs, rfl, hd⟩ := Reach.exists_of_exec (recorded (step id))
    (Isolate.init fun _ => true, [])
    [.begin, .setTimeout 0, .returned 0, .timerDone 0 0, .scheduledDone 0, .closed 0, .finish 0,
      .begin, .threw 1, .closed 1, .finish 1]
    (P := fun p => p.2 = [.installed 0, .restored 0, .installed 1, .restored 1] ∧
      ∀ x ∈ p.1.dispatches, x.await = .finished) (by decide +kernel)
  exact ⟨s, _, hs, hd, (timers_put_back hs).mpr
    (.inr (Nested.closed (.call (.call .nil .nil) .nil)))⟩

/-- Two requests that overlap: the first to begin is the first to put back, and the second leaves
the functions of the first in place, with both finished. -/
theorem timers_of_finished_dispatch :
    ∃ (s : Isolate Bool) (notes : List Note),
      Reach (recorded (step id)) Any (Isolate.init fun _ => true, []) (s, notes) ∧
      (∀ x ∈ s.dispatches, x.await = .finished) ∧
      s.globals .setTimeout = .tracking 0 ∧ s.globals .setImmediate = .tracking 0 ∧
      s.globals .clearTimeout = .tracking 0 := by
  obtain ⟨⟨s, notes⟩, h⟩ := Reach.exists_of_exec (recorded (step id))
    (Isolate.init fun _ => true, [])
    [.begin, .begin, .returned 0, .returned 1, .closed 0, .finish 0, .closed 1, .finish 1]
    (P := fun p => (∀ x ∈ p.1.dispatches, x.await = .finished) ∧
      p.1.globals .setTimeout = .tracking 0 ∧ p.1.globals .setImmediate = .tracking 0 ∧
      p.1.globals .clearTimeout = .tracking 0) (by decide +kernel)
  exact ⟨s, notes, h⟩

end Http
