import SecureExec.Kernel.Types
import SecureExec.Kernel.Wait

/-!
# Kernel — FileLock — the advisory lock manager

`packages/core/src/kernel/file-lock.ts`.  A `PathLockState` is an object: the manager's map points
to the one in use for a path, and a `flock` call that waits keeps a reference to the one it queued
on.  So the objects live in a heap (`states`), and a reference is an index.

A `flock` call runs without interruption up to its `await` (`flockTurn`).  A waiting call is kept
under its wait handle (`calls`); once the handle is settled, `resume` runs the `finally` block and
the next turn of the loop.
-/

namespace SecureExec.Kernel
open SecureExec Function

def LOCK_SH : BitVec 32 := 1
def LOCK_EX : BitVec 32 := 2
def LOCK_UN : BitVec 32 := 8
def LOCK_NB : BitVec 32 := 4

inductive LockType where
  | sh | ex
  deriving DecidableEq

structure LockEntry where
  descriptionId : Nat
  type : LockType
  deriving DecidableEq

structure PathLockState where
  holders : List LockEntry
  waiters : WaitQueue

/-- `FileLockManager`, with the heap its state objects live in. -/
structure FileLockManager where
  locks : String → Option Nat
  descToPath : Nat → Option String
  states : Nat → PathLockState
  nextState : Nat
  waits : WaitHandles

/-! ### Holders -/

/-- The `conflict` of `tryAcquire`. -/
def conflict (holders : List LockEntry) (descId : Nat) : LockType → Bool
  | .sh => holders.any fun h => h.type == .ex && h.descriptionId != descId
  | .ex => holders.any fun h => h.descriptionId != descId

/-- `holders[existingIdx].type = type`. -/
def setType (descId : Nat) (type : LockType) : List LockEntry → List LockEntry
  | [] => []
  | e :: l =>
    if e.descriptionId = descId then { e with type := type } :: l else e :: setType descId type l

/-- The holders after a grant. -/
def grantHolder (holders : List LockEntry) (descId : Nat) (type : LockType) : List LockEntry :=
  if holders.any (fun h => h.descriptionId == descId) then setType descId type holders
  else holders ++ [⟨descId, type⟩]

/-- `holders.splice(idx, 1)` at the first entry of the description. -/
def releaseHolder (holders : List LockEntry) (descId : Nat) : List LockEntry :=
  holders.eraseP fun h => h.descriptionId == descId

/-- The lock type an operation asks for. -/
def lockType? (op : BitVec 32) : Option LockType :=
  if op = LOCK_SH then some .sh else if op = LOCK_EX then some .ex else none

namespace FileLockManager

def new : FileLockManager where
  locks := fun _ => none
  descToPath := fun _ => none
  states := fun _ => ⟨[], []⟩
  nextState := 0
  waits := .empty

def setState (m : FileLockManager) (o : Nat) (st : PathLockState) : FileLockManager :=
  { m with states := update m.states o st }

def getOrCreate (m : FileLockManager) (path : String) : Nat × FileLockManager :=
  match m.locks path with
  | some o => (o, m)
  | none =>
    (m.nextState, { m with
      locks := update m.locks path (some m.nextState)
      states := update m.states m.nextState ⟨[], []⟩
      nextState := m.nextState + 1 })

/-- `holders.length === 0 && waiters.pending === 0`. -/
def isIdle (m : FileLockManager) (o : Nat) : Prop :=
  (m.states o).holders = [] ∧ WaitQueue.pending m.waits (m.states o).waiters = 0

instance (m : FileLockManager) (o : Nat) : Decidable (m.isIdle o) :=
  inferInstanceAs (Decidable (_ ∧ _))

def cleanupState (m : FileLockManager) (path : String) (o : Nat) : FileLockManager :=
  if m.isIdle o then { m with locks := update m.locks path none } else m

/-- `state.waiters.wakeOne()`. -/
def wakeOne (m : FileLockManager) (o : Nat) : FileLockManager :=
  let (w, q) := WaitQueue.wakeOne m.waits (m.states o).waiters
  { m with waits := w, states := update m.states o { m.states o with waiters := q } }

def unlock (m : FileLockManager) (path : String) (descId : Nat) : FileLockManager :=
  match m.locks path with
  | none => m
  | some o =>
    let st := m.states o
    let m :=
      if st.holders.any (fun h => h.descriptionId == descId) then
        wakeOne
          { m with
            states := update m.states o
              { st with holders := releaseHolder st.holders descId }
            descToPath := update m.descToPath descId none } o
      else m
    m.cleanupState path o

def releaseByDescription (m : FileLockManager) (descId : Nat) : FileLockManager :=
  match m.descToPath descId with
  | none => m
  | some path => m.unlock path descId

def hasLock (m : FileLockManager) (descId : Nat) : Bool := (m.descToPath descId).isSome

/-- `tryAcquire` for a supported operation; `none` is `false`. -/
def tryAcquire (m : FileLockManager) (path : String) (o descId : Nat) (type : LockType) :
    Option FileLockManager :=
  let st := m.states o
  if conflict st.holders descId type then none
  else
    some { m with
      states := update m.states o
        { st with holders := grantHolder st.holders descId type }
      descToPath :=
        if st.holders.any (fun h => h.descriptionId == descId) then m.descToPath
        else update m.descToPath descId (some path) }

end FileLockManager

/-! ### Calls -/

/-- How a turn of `flock` ends. -/
inductive FlockOutcome where
  | released
  | granted (type : LockType)
  | thrown (e : Failure)
  | blocked (state handle : Nat)

namespace FileLockManager

/-- One turn of the loop of `flock`, up to the `await`. -/
def flockTurn (m : FileLockManager) (path : String) (descId : Nat) (op : BitVec 32)
    (nonBlocking : Bool) : FlockOutcome × FileLockManager :=
  let (o, m) := m.getOrCreate path
  match lockType? op with
  | none =>
    (.thrown (.kernelError .EINVAL ("unsupported flock operation " ++ toString op.toInt)), m)
  | some type =>
    match m.tryAcquire path o descId type with
    | some m => (.granted type, m)
    | none =>
      if nonBlocking then (.thrown (.kernelError .EAGAIN "resource temporarily unavailable"), m)
      else
        let (h, w, q) := WaitQueue.enqueue m.waits (m.states o).waiters
        (.blocked o h, { m with
          waits := w
          states := update m.states o { m.states o with waiters := q } })

/-- `flock` up to its first `await`. -/
def flock (m : FileLockManager) (path : String) (descId : Nat) (operation : BitVec 32) :
    FlockOutcome × FileLockManager :=
  let op := operation &&& ~~~LOCK_NB
  let nonBlocking := operation &&& LOCK_NB ≠ 0
  if op = LOCK_UN then (.released, m.unlock path descId)
  else m.flockTurn path descId op nonBlocking

/-- The `finally` block after the `await`. -/
def afterWait (m : FileLockManager) (path : String) (o h : Nat) : FileLockManager :=
  (m.setState o { m.states o with waiters := WaitQueue.remove (m.states o).waiters h }).cleanupState
    path o

end FileLockManager

/-- A `flock` call that waits. -/
structure FlockCall where
  path : String
  descId : Nat
  op : BitVec 32
  state : Nat
  deriving DecidableEq

/-- The manager and the calls that wait, each under its handle. -/
structure LockState where
  mgr : FileLockManager
  calls : Nat → Option FlockCall

namespace LockState

def new : LockState := ⟨.new, fun _ => none⟩

/-- What a turn leaves: a call that blocks is kept under its handle. -/
def afterTurn (calls : Nat → Option FlockCall) (path : String) (descId : Nat) (op : BitVec 32) :
    FlockOutcome × FileLockManager → LockState
  | (.blocked o h, m) => ⟨m, update calls h (some ⟨path, descId, op, o⟩)⟩
  | (_, m) => ⟨m, calls⟩

def flock (s : LockState) (path : String) (descId : Nat) (operation : BitVec 32) :
    FlockOutcome × LockState :=
  let r := s.mgr.flock path descId operation
  (r.1, afterTurn s.calls path descId (operation &&& ~~~LOCK_NB) r)

def releaseByDescription (s : LockState) (descId : Nat) : LockState :=
  { s with mgr := s.mgr.releaseByDescription descId }

/-- The turn of the waiting call `c` with the handle `h`, once the handle is settled. -/
def resumeTurn (s : LockState) (h : Nat) (c : FlockCall) : FlockOutcome × FileLockManager :=
  (s.mgr.afterWait c.path c.state h).flockTurn c.path c.descId c.op false

/-- The waiting call with the handle `h` runs on. -/
def resume (s : LockState) (h : Nat) : Option (FlockCall × FlockOutcome × LockState) :=
  match s.calls h with
  | none => none
  | some c =>
    if s.mgr.waits.settled h then
      let r := s.resumeTurn h c
      some (c, r.1, afterTurn (update s.calls h none) c.path c.descId c.op r)
    else none

end LockState

/-! ### The holders of a path -/

/-- At most one entry for each description, and an exclusive one is alone. -/
structure HoldersOk (l : List LockEntry) : Prop where
  nodup : (l.map (·.descriptionId)).Nodup
  exclusive : ∀ e ∈ l, e.type = .ex → ∀ e' ∈ l, e' = e

theorem mem_setType {d : Nat} {t : LockType} {l : List LockEntry}
    (hn : (l.map (·.descriptionId)).Nodup) (hd : ∃ e ∈ l, e.descriptionId = d) (e : LockEntry) :
    e ∈ setType d t l ↔ e = ⟨d, t⟩ ∨ (e ∈ l ∧ e.descriptionId ≠ d) := by
  induction l with
  | nil =>
      obtain ⟨_, h, -⟩ := hd
      cases h
  | cons a l ih =>
      obtain ⟨ha, hn'⟩ := List.nodup_cons.mp hn
      rw [setType]
      by_cases had : a.descriptionId = d
      · rw [if_pos had]
        have hrest : ∀ x ∈ l, x.descriptionId ≠ d := fun x hx he =>
          ha (List.mem_map.mpr ⟨x, hx, he.trans had.symm⟩)
        constructor
        · rintro (_ | ⟨_, h⟩)
          · exact .inl (by rw [← had])
          · exact .inr ⟨List.mem_cons_of_mem _ h, hrest e h⟩
        · rintro (rfl | ⟨h, hne⟩)
          · rw [← had]
            exact List.mem_cons_self
          · rcases List.mem_cons.mp h with rfl | h
            · exact absurd had hne
            · exact List.mem_cons_of_mem _ h
      · rw [if_neg had]
        have hd' : ∃ e ∈ l, e.descriptionId = d := by
          obtain ⟨x, hx, hxd⟩ := hd
          rcases List.mem_cons.mp hx with rfl | hx
          · exact absurd hxd had
          · exact ⟨x, hx, hxd⟩
        rw [List.mem_cons, List.mem_cons, ih hn' hd']
        constructor
        · rintro (rfl | h | ⟨h, hne⟩)
          · exact .inr ⟨.inl rfl, had⟩
          · exact .inl h
          · exact .inr ⟨.inr h, hne⟩
        · rintro (h | ⟨rfl | h, hne⟩)
          · exact .inr (.inl h)
          · exact .inl rfl
          · exact .inr (.inr ⟨h, hne⟩)

theorem mem_releaseHolder {d : Nat} {l : List LockEntry} (hn : (l.map (·.descriptionId)).Nodup)
    (e : LockEntry) : e ∈ releaseHolder l d ↔ e ∈ l ∧ e.descriptionId ≠ d := by
  induction l with
  | nil => simp [releaseHolder]
  | cons a l ih =>
      obtain ⟨ha, hn'⟩ := List.nodup_cons.mp hn
      have ih := ih hn'
      unfold releaseHolder at ih ⊢
      by_cases had : a.descriptionId = d
      · rw [List.eraseP_cons_of_pos (by simpa using had)]
        have hrest : e ∈ l → e.descriptionId ≠ d := fun hx he =>
          ha (List.mem_map.mpr ⟨e, hx, he.trans had.symm⟩)
        constructor
        · exact fun hx => ⟨List.mem_cons_of_mem _ hx, hrest hx⟩
        · rintro ⟨hx, hne⟩
          rcases List.mem_cons.mp hx with rfl | hx
          · exact absurd had hne
          · exact hx
      · rw [List.eraseP_cons_of_neg (by simpa using had), List.mem_cons, List.mem_cons, ih]
        constructor
        · rintro (rfl | ⟨hx, hne⟩)
          · exact ⟨.inl rfl, had⟩
          · exact ⟨.inr hx, hne⟩
        · rintro ⟨rfl | hx, hne⟩
          · exact .inl rfl
          · exact .inr ⟨hx, hne⟩

theorem map_setType (d : Nat) (t : LockType) (l : List LockEntry) :
    (setType d t l).map (·.descriptionId) = l.map (·.descriptionId) := by
  induction l with
  | nil => rfl
  | cons a l ih =>
      rw [setType]
      split
      · rfl
      · rw [List.map_cons, List.map_cons, ih]

namespace HoldersOk

variable {l : List LockEntry} {d : Nat} {t : LockType}

theorem nil : HoldersOk [] := ⟨List.nodup_nil, fun _ h => by cases h⟩

theorem any_iff : l.any (fun h => h.descriptionId == d) = true ↔ ∃ e ∈ l, e.descriptionId = d := by
  simp

variable (h : HoldersOk l)
include h

theorem mem_grant (e : LockEntry) :
    e ∈ grantHolder l d t ↔ e = ⟨d, t⟩ ∨ (e ∈ l ∧ e.descriptionId ≠ d) := by
  unfold grantHolder
  split
  · rename_i ha
    exact mem_setType h.nodup (any_iff.mp ha) e
  · rename_i ha
    rw [List.mem_append, List.mem_singleton, or_comm]
    refine or_congr_right ⟨fun he => ⟨he, fun hd => ha (any_iff.mpr ⟨e, he, hd⟩)⟩, And.left⟩

theorem mem_release (e : LockEntry) :
    e ∈ releaseHolder l d ↔ e ∈ l ∧ e.descriptionId ≠ d := mem_releaseHolder h.nodup e

/-- A grant that does not conflict keeps an exclusive lock alone. -/
theorem grant (hc : conflict l d t = false) : HoldersOk (grantHolder l d t) := by
  constructor
  · unfold grantHolder
    split
    · rw [map_setType]
      exact h.nodup
    · rename_i ha
      rw [List.map_append, List.map_singleton]
      refine List.nodup_append.mpr ⟨h.nodup, List.pairwise_singleton _ _, fun x hx y hy => ?_⟩
      rintro rfl
      obtain ⟨e, he, rfl⟩ := List.mem_map.mp hx
      exact ha (any_iff.mpr ⟨e, he, List.mem_singleton.mp hy⟩)
  · intro e he hex e' he'
    rw [h.mem_grant] at he he'
    cases t with
    | sh =>
        -- an exclusive holder is the description itself, whose entry is now shared
        have hno : ∀ x ∈ l, x.type = .ex → x.descriptionId = d := by simpa [conflict] using hc
        rcases he with rfl | ⟨he, hne⟩
        · cases hex
        · exact absurd (hno e he hex) hne
    | ex =>
        have hno : ∀ x ∈ l, x.descriptionId = d := by simpa [conflict] using hc
        rcases he with rfl | ⟨he, hne⟩
        · rcases he' with rfl | ⟨he', hne'⟩
          · rfl
          · exact absurd (hno e' he') hne'
        · exact absurd (hno e he) hne

theorem release (d : Nat) : HoldersOk (releaseHolder l d) := by
  constructor
  · exact h.nodup.sublist (List.eraseP_sublist.map _)
  · intro e he hex e' he'
    exact h.exclusive e ((h.mem_release e).mp he).1 hex e' ((h.mem_release e').mp he').1

end HoldersOk

end SecureExec.Kernel
