import SecureExec.Lib.Lts
import SecureExec.Kernel.LockView

/-!
# Kernel — LockSafety — mutual exclusion of `flock`

The runs of the lock manager: calls of `flock` and `releaseByDescription`, and waiting calls that
run on, in any order.  `granted` is a record beside the code of what each description was told: the
lock type its last grant on a path gave it, until it releases the path.

An exclusive grant is the only grant of its path in every state of every run whose waiting calls
clean up their own state object only (`CleansOwn`): `exclusive_of_cleansOwn`.  Without that
condition it is not (`exclusive_fails`): the `finally` block of a waiting call deletes the entry
of the path although another call's lock is recorded there by then.
-/

namespace SecureExec.Kernel
open SecureExec FileLockManager

inductive LockAction where
  | flock (path : String) (descId : Nat) (operation : BitVec 32)
  | releaseByDescription (descId : Nat)
  /-- The waiting call with this handle runs on. -/
  | resume (handle : Nat)

/-- What each description was granted on each path and has not released since. -/
abbrev Grants : Type := String → Nat → Option LockType

namespace Grants

def set (g : Grants) (path : String) (d : Nat) (t : Option LockType) : Grants :=
  Function.update g path (Function.update (g path) d t)

/-- What a call is told at the end of a turn. -/
def record (g : Grants) (path : String) (d : Nat) : FlockOutcome → Grants
  | .granted t => g.set path d (some t)
  | .released => g.set path d none
  | _ => g

end Grants

/-- The lock manager with the record of its grants. -/
structure LockRun where
  locks : LockState
  granted : Grants

namespace LockRun

def start : LockRun := ⟨.new, fun _ _ => none⟩

def step (s : LockRun) : LockAction → Option LockRun
  | .flock path d operation =>
    let r := s.locks.flock path d operation
    some ⟨r.2, s.granted.record path d r.1⟩
  | .releaseByDescription d =>
    match s.locks.mgr.descToPath d with
    | none => some s
    | some path => some ⟨s.locks.releaseByDescription d, s.granted.set path d none⟩
  | .resume h =>
    match s.locks.resume h with
    | none => none
    | some (c, r, l) => some ⟨l, s.granted.record c.path c.descId r⟩

/-- An exclusive grant is the only grant of its path. -/
def Exclusive (s : LockRun) : Prop :=
  ∀ path d, s.granted path d = some .ex → ∀ d', d' ≠ d → s.granted path d' = none

/-- A waiting call that runs on cleans up its own state object only. -/
def Clean (s : LockRun) : LockAction → Prop
  | .resume h => ∀ c, s.locks.calls h = some c → CleansOwn s.locks.mgr c.path c.state
  | _ => True

instance (s : LockRun) (a : LockAction) : Decidable (s.Clean a) :=
  match a with
  | .flock .. => isTrue trivial
  | .releaseByDescription _ => isTrue trivial
  | .resume h =>
    match hc : s.locks.calls h with
    | none => isTrue fun c h' => by rw [hc] at h'; cases h'
    | some c =>
      decidable_of_iff (CleansOwn s.locks.mgr c.path c.state)
        ⟨fun h' c' hc' => by rw [hc] at hc'; cases hc'; exact h', fun h' => h' c hc⟩

/-! ### The invariant -/

/-- The grants are entries of the holders of the path, and the holders exclude each other. -/
structure Inv (s : LockRun) : Prop where
  mgr : MgrOk s.locks.mgr
  holders : ∀ p, HoldersOk (s.locks.mgr.heldAt p)
  granted : ∀ p d t, s.granted p d = some t → ⟨d, t⟩ ∈ s.locks.mgr.heldAt p

variable {s s' : LockRun}

theorem Inv.exclusive (h : Inv s) : Exclusive s := by
  intro p d hd d' hne
  cases hd' : s.granted p d' with
  | none => rfl
  | some t =>
      have he := (h.holders p).exclusive _ (h.granted p d .ex hd) rfl _ (h.granted p d' t hd')
      exact absurd (congrArg LockEntry.descriptionId he) hne

theorem Inv.start : Inv start :=
  ⟨.new, fun _ => .nil, fun _ _ _ h => by cases h⟩

theorem set_eq_some {g : Grants} {path p : String} {d x : Nat} {r : Option LockType} {t : LockType}
    (h : g.set path d r p x = some t) :
    (p = path ∧ x = d ∧ r = some t) ∨ (¬ (p = path ∧ x = d) ∧ g p x = some t) := by
  rw [Grants.set] at h
  by_cases hp : p = path
  · subst hp
    rw [Function.update_self] at h
    rcases PartialMap.update_eq_some.mp h with ⟨hx, ht⟩ | ⟨hx, ht⟩
    · exact .inl ⟨rfl, hx, ht⟩
    · exact .inr ⟨fun h' => hx h'.2, ht⟩
  · rw [Function.update_of_ne hp] at h
    exact .inr ⟨fun h' => hp h'.1, h⟩

/-- A turn of a call, from any state with the same holders. -/
theorem Inv.turn {m₀ m : FileLockManager} {g : Grants} {path : String} {d : Nat} {op : BitVec 32}
    {nb : Bool} {r : FlockOutcome} (hh : ∀ p, HoldersOk (m₀.heldAt p))
    (hg : ∀ p d t, g p d = some t → ⟨d, t⟩ ∈ m₀.heldAt p) (ht : TurnSpec m₀ path d op nb r m) :
    (∀ p, HoldersOk (m.heldAt p)) ∧
      ∀ p x t, g.record path d r p x = some t → ⟨x, t⟩ ∈ m.heldAt p := by
  cases ht with
  | thrown _ _ held | blocked _ _ _ _ held =>
      exact ⟨fun p => held p ▸ hh p, fun p x t h => held p ▸ hg p x t h⟩
  | @granted t₀ _ type free ok held queue waits desc =>
      refine ⟨fun p => ?_, fun p x t h => ?_⟩
      · rw [held]
        split
        · exact (hh path).grant free
        · exact hh p
      · rw [held]
        rcases set_eq_some h with ⟨rfl, rfl, he⟩ | ⟨hne, hold⟩
        · cases he
          rw [if_pos rfl]
          exact ((hh p).mem_grant _).mpr (.inl rfl)
        · split
          · rename_i hp
            subst hp
            exact ((hh p).mem_grant _).mpr (.inr ⟨hg p x t hold, fun hx => hne ⟨rfl, hx⟩⟩)
          · exact hg p x t hold

/-- A release. -/
theorem Inv.unlock (h : Inv s) (path : String) (d : Nat) :
    Inv ⟨{ s.locks with mgr := s.locks.mgr.unlock path d }, s.granted.set path d none⟩ := by
  obtain ⟨hm, hheld, -⟩ := unlock_spec h.mgr path d
  refine ⟨hm, fun p => ?_, fun p x t hx => ?_⟩
  · rw [hheld]
    split
    · exact (h.holders path).release d
    · exact h.holders p
  · rw [hheld]
    rcases set_eq_some hx with ⟨-, -, he⟩ | ⟨hne, hold⟩
    · cases he
    · split
      · rename_i hp
        subst hp
        exact ((h.holders p).mem_release _).mpr ⟨h.granted p x t hold, fun he => hne ⟨rfl, he⟩⟩
      · exact h.granted p x t hold

/-- **One step.** -/
theorem Inv.step (h : Inv s) {a : LockAction} (hc : Clean s a) (hs : s.step a = some s') :
    Inv s' := by
  cases a with
  | flock path d operation =>
      cases hs
      simp only [LockState.flock, FileLockManager.flock]
      split
      · exact h.unlock path d
      · have ht := flockTurn_spec h.mgr path d (operation &&& ~~~LOCK_NB)
          (decide (operation &&& LOCK_NB ≠ 0))
        obtain ⟨hh, hg⟩ := Inv.turn h.holders h.granted ht
        refine ⟨?_, fun p => ?_, fun p x t hx => ?_⟩
        · rw [afterTurn_mgr]
          exact ht.ok
        · rw [afterTurn_mgr]
          exact hh p
        · rw [afterTurn_mgr]
          exact hg p x t hx
  | releaseByDescription d =>
      simp only [LockRun.step] at hs
      split at hs
      · cases hs
        exact h
      · rename_i path hp
        cases hs
        simp only [LockState.releaseByDescription, FileLockManager.releaseByDescription, hp]
        exact h.unlock path d
  | resume k =>
      simp only [LockRun.step] at hs
      cases hr : s.locks.resume k with
      | none => rw [hr] at hs; cases hs
      | some r =>
          obtain ⟨c, r, l⟩ := r
          rw [hr] at hs
          cases hs
          obtain ⟨hk, hset, rfl, rfl⟩ := resume_cases hr
          obtain ⟨hm, -, -, hheld, -⟩ := afterWait_view h.mgr hset (hc c hk)
          have ht := flockTurn_spec hm c.path c.descId c.op false
          obtain ⟨hh, hg⟩ := Inv.turn (fun p => hheld p ▸ h.holders p)
            (fun p d t hd => hheld p ▸ h.granted p d t hd) ht
          refine ⟨?_, fun p => ?_, fun p x t hx => ?_⟩
          · rw [afterTurn_mgr]
            exact ht.ok
          · rw [afterTurn_mgr]
            exact hh p
          · rw [afterTurn_mgr]
            exact hg p x t hx

end LockRun

open LockRun in
/-- **Mutual exclusion**: in every run whose waiting calls clean up their own state object only, an
exclusive grant is the only grant of its path in every state. -/
theorem exclusive_of_cleansOwn {s : LockRun} (h : Lts.Reach LockRun.step LockRun.Clean .start s) :
    s.Exclusive :=
  (h.invariant Inv.start fun _ _ _ hi hc hs => hi.step hc hs).exclusive

/-- The run in which two descriptions come to hold one path exclusively.  The second call waits on
the state object of the path; the unlock wakes it and deletes the object; the third call locks a
new one; and the second, running on, deletes the third's. -/
def lockRace : List LockAction :=
  [.flock "/f" 1 LOCK_EX, .flock "/f" 2 LOCK_EX, .flock "/f" 1 LOCK_UN, .flock "/f" 3 LOCK_EX,
    .resume 0]

theorem exclusive_fails :
    ¬ ∀ s, Lts.Reach LockRun.step Lts.Any .start s → s.Exclusive := by
  intro hall
  obtain ⟨s, hs, h₂, h₃⟩ := Lts.Reach.exists_of_exec LockRun.step .start lockRace
    (P := fun s => s.granted "/f" 2 = some .ex ∧ s.granted "/f" 3 = some .ex) (by decide)
  have := hall s hs "/f" 2 h₂ 3 (by decide)
  rw [h₃] at this
  cases this

/-- A hand-over that meets the condition: the waiting call is woken and runs on next. -/
theorem exclusive_of_cleansOwn_handover :
    ∃ s, Lts.Reach LockRun.step LockRun.Clean .start s ∧ s.granted "/f" 2 = some .ex ∧
      s.Exclusive :=
  (Lts.Reach.exists_of_execIf LockRun.step _ .start
    [.flock "/f" 1 LOCK_EX, .flock "/f" 2 LOCK_EX, .flock "/f" 1 LOCK_UN, .resume 0]
    (by decide)).imp fun _ h => ⟨h.1, h.2, exclusive_of_cleansOwn h.1⟩

end SecureExec.Kernel
