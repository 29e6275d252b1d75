import SecureExec.Kernel.LockSafety

/-!
# Kernel — LockWakeup — waiting calls of `flock` and their wakeups

A release wakes the first waiting call of the path, and nothing else wakes one.  So a call can be
left waiting although nothing conflicts with what it asks for: a second shared request when an
exclusive lock goes (`waiting_fails`), a request behind one that still conflicts, a shared request
when an exclusive lock is downgraded.

`Wakes` is the condition on a step under which this does not happen: a call that could now be
granted is left in the queue only if one that is already woken, or the one this step wakes, could
be granted too.  In every run whose steps meet it, and whose waiting calls clean up their own state
object only, a call that still waits when nothing is left to run asks for a lock that conflicts
with the holders (`waiting_conflicts_of_wakes`).
-/

namespace SecureExec.Kernel
open SecureExec FileLockManager LockState LockRun Function

/-- Nothing the holders have conflicts with what the call asks for. -/
def canTake (holders : List LockEntry) (c : FlockCall) : Bool :=
  match lockType? c.op with
  | some t => !conflict holders c.descId t
  | none => false

namespace LockState

/-- The call with the handle `h` waits for the path and could be granted. -/
def canTakeAt (s : LockState) (path : String) (holders : List LockEntry) (h : Nat) : Bool :=
  match s.calls h with
  | some c => c.path == path && canTake holders c
  | none => false

/-- A call in the queue of the path could be granted. -/
def queuedCanTake (s : LockState) (path : String) (holders : List LockEntry) : Bool :=
  (s.mgr.queueAt path).any (s.canTakeAt path holders)

/-- A call of the path that has been woken could be granted. -/
def wokenCanTake (s : LockState) (path : String) (holders : List LockEntry) : Bool :=
  (List.range s.mgr.waits.next).any fun h => s.mgr.waits.settled h && s.canTakeAt path holders h

/-- A release: the call it wakes, or one already woken, could be granted if any in the queue
could. -/
def ReleaseWakes (s : LockState) (path : String) (d : Nat) : Prop :=
  (s.mgr.heldAt path).any (fun h => h.descriptionId == d) →
  s.queuedCanTake path (releaseHolder (s.mgr.heldAt path) d) →
    (s.mgr.queueAt path).head?.any (s.canTakeAt path (releaseHolder (s.mgr.heldAt path) d)) ∨
      s.wokenCanTake path (releaseHolder (s.mgr.heldAt path) d)

/-- A grant, which wakes nobody: a woken call could still be granted if any in the queue could. -/
def GrantWakes (s : LockState) (path : String) (d : Nat) (op : BitVec 32) : Prop :=
  ∀ t ∈ lockType? op, conflict (s.mgr.heldAt path) d t = false →
    s.queuedCanTake path (grantHolder (s.mgr.heldAt path) d t) →
      s.wokenCanTake path (grantHolder (s.mgr.heldAt path) d t)

instance (s : LockState) (path : String) (d : Nat) : Decidable (s.ReleaseWakes path d) :=
  inferInstanceAs (Decidable (_ → _ → _))

instance (s : LockState) (path : String) (d : Nat) (op : BitVec 32) :
    Decidable (s.GrantWakes path d op) :=
  inferInstanceAs (Decidable (∀ _ ∈ _, _))

end LockState

namespace LockRun

variable {s s' : LockRun}

/-- No woken call has code left to run. -/
def Quiescent (s : LockRun) : Prop :=
  ∀ h c, s.locks.calls h = some c → s.locks.mgr.waits.settled h = false

/-- Every waiting call asks for a lock that conflicts with the holders of its path. -/
def WaitingConflicts (s : LockRun) : Prop :=
  ∀ h c, s.locks.calls h = some c → ∃ t, lockType? c.op = some t ∧
    conflict (s.locks.mgr.heldAt c.path) c.descId t = true

/-- The condition on a step. -/
def Wakes (s : LockRun) : LockAction → Prop
  | .flock path d operation =>
    if operation &&& ~~~LOCK_NB = LOCK_UN then s.locks.ReleaseWakes path d
    else s.locks.GrantWakes path d (operation &&& ~~~LOCK_NB)
  | .releaseByDescription d => ∀ path ∈ s.locks.mgr.descToPath d, s.locks.ReleaseWakes path d
  | .resume h => ∀ c ∈ s.locks.calls h, CleansOwn s.locks.mgr c.path c.state ∧
      GrantWakes { s.locks with calls := update s.locks.calls h none }
        c.path c.descId c.op

instance (s : LockRun) (a : LockAction) : Decidable (s.Wakes a) :=
  match a with
  | .flock path d operation =>
    inferInstanceAs (Decidable (if operation &&& ~~~LOCK_NB = LOCK_UN then
      s.locks.ReleaseWakes path d else s.locks.GrantWakes path d (operation &&& ~~~LOCK_NB)))
  | .releaseByDescription _ => inferInstanceAs (Decidable (∀ _ ∈ _, _))
  | .resume _ => inferInstanceAs (Decidable (∀ _ ∈ _, _))

/-! ### The invariant -/

/-- The waiting calls that are not woken are those in the queues, and a call in a queue that could
be granted has a woken one beside it that could. -/
structure WakeInv (s : LockState) : Prop where
  mgr : MgrOk s.mgr
  typed : ∀ h c, s.calls h = some c → lockType? c.op ≠ none
  bound : ∀ h c, s.calls h = some c → h < s.mgr.waits.next
  blocked : ∀ h c, s.calls h = some c → s.mgr.waits.settled h = false → h ∈ s.mgr.queueAt c.path
  queued : ∀ p, ∀ h ∈ s.mgr.queueAt p, ∃ c, s.calls h = some c ∧ c.path = p
  served : ∀ p, s.queuedCanTake p (s.mgr.heldAt p) → s.wokenCanTake p (s.mgr.heldAt p)

theorem WakeInv.new : WakeInv .new := by
  refine ⟨.new, fun _ _ h => ?_, fun _ _ h => ?_, fun _ _ h => ?_, fun _ _ h => ?_,
    fun _ h => ?_⟩ <;> cases h

variable {l : LockState} {path : String} {H : List LockEntry}

theorem wokenCanTake_iff :
    l.wokenCanTake path H = true ↔
      ∃ h < l.mgr.waits.next, l.mgr.waits.settled h = true ∧ l.canTakeAt path H h = true := by
  simp [wokenCanTake]

theorem canTakeAt_iff {h : Nat} :
    l.canTakeAt path H h = true ↔ ∃ c, l.calls h = some c ∧ c.path = path ∧ canTake H c = true := by
  unfold canTakeAt
  cases l.calls h with
  | none => simp
  | some c => simp

theorem queuedCanTake_iff :
    l.queuedCanTake path H = true ↔
      ∃ h ∈ l.mgr.queueAt path, l.canTakeAt path H h = true := by
  simp [queuedCanTake]

/-- In a quiescent state nobody is woken, so nobody in a queue could be granted. -/
theorem WakeInv.waitingConflicts (h : WakeInv s.locks) (hq : Quiescent s) :
    WaitingConflicts s := by
  intro k c hk
  have hset := hq k c hk
  have hmem := h.blocked k c hk hset
  cases ht : lockType? c.op with
  | none => exact absurd ht (h.typed k c hk)
  | some t =>
      refine ⟨t, rfl, ?_⟩
      cases hc : conflict (s.locks.mgr.heldAt c.path) c.descId t with
      | true => rfl
      | false =>
          have hcan : canTake (s.locks.mgr.heldAt c.path) c = true := by
            simp [canTake, ht, hc]
          have hw := h.served c.path (queuedCanTake_iff.mpr
            ⟨k, hmem, canTakeAt_iff.mpr ⟨c, hk, rfl, hcan⟩⟩)
          obtain ⟨w, -, hws, hwc⟩ := wokenCanTake_iff.mp hw
          obtain ⟨c', hc', -⟩ := canTakeAt_iff.mp hwc
          rw [hq w c' hc'] at hws
          cases hws

/-- A release. -/
theorem WakeInv.unlock (h : WakeInv l) {d : Nat}
    (hr : l.ReleaseWakes path d) : WakeInv { l with mgr := l.mgr.unlock path d } := by
  obtain ⟨hm, hheld, ⟨hno, hw, -, hq⟩ | ⟨hsome, hw, -, hq⟩⟩ := unlock_spec h.mgr path d
  · -- nothing was held: only an idle entry can have gone
    have hheld' : ∀ p, (l.mgr.unlock path d).heldAt p = l.mgr.heldAt p := fun p => by
      rw [hheld]
      split
      · rename_i hp
        rw [hp, releaseHolder, List.eraseP_of_forall_not fun e he => by simpa using hno e he]
      · rfl
    refine ⟨hm, h.typed, fun k c hk => ?_, fun k c hk hs => ?_, fun p k hk => ?_, fun p hp => ?_⟩
    · rw [hw]
      exact h.bound k c hk
    · rw [hq]
      exact h.blocked k c hk (hw ▸ hs)
    · rw [hq] at hk
      exact h.queued p k hk
    · rw [hheld'] at hp ⊢
      rw [queuedCanTake_iff, hq] at hp
      obtain ⟨w, h₁, h₂, h₃⟩ := wokenCanTake_iff.mp (h.served p (queuedCanTake_iff.mpr hp))
      exact wokenCanTake_iff.mpr ⟨w, by rw [hw]; exact h₁, by rw [hw]; exact h₂, h₃⟩
  · have hr := hr (HoldersOk.any_iff.mpr hsome)
    have hset : ∀ x, (l.mgr.unlock path d).waits.settled x = true ↔
        l.mgr.waits.settled x = true ∨ (l.mgr.queueAt path).head? = some x := fun x => by
      rw [hw]
      exact h.mgr.settled_wakeOne path x
    have hnext : (l.mgr.unlock path d).waits.next = l.mgr.waits.next := by
      rw [hw]
      exact h.mgr.next_wakeOne path
    have hmem : ∀ p x, x ∈ (l.mgr.unlock path d).queueAt p ↔
        x ∈ l.mgr.queueAt p ∧ (l.mgr.queueAt path).head? ≠ some x := fun p x => by
      rw [hq]
      exact h.mgr.mem_wakeOne path p x
    -- a woken call that could be granted is still one
    have hwoken : ∀ p H, l.wokenCanTake p H →
        wokenCanTake { l with mgr := l.mgr.unlock path d } p H := fun p H hp => by
      obtain ⟨w, h₁, h₂, h₃⟩ := wokenCanTake_iff.mp hp
      exact wokenCanTake_iff.mpr ⟨w, by rw [hnext]; exact h₁, (hset w).mpr (.inl h₂), h₃⟩
    refine ⟨hm, h.typed, fun k c hk => ?_, fun k c hk hs => ?_, fun p k hk => ?_, fun p hp => ?_⟩
    · rw [hnext]
      exact h.bound k c hk
    · have hno := fun h' => Bool.eq_false_iff.mp hs ((hset k).mpr h')
      refine (hmem _ k).mpr ⟨h.blocked k c hk ?_, fun h' => hno (.inr h')⟩
      exact Bool.eq_false_iff.mpr fun h' => hno (.inl h')
    · exact h.queued p k ((hmem p k).mp hk).1
    · obtain ⟨k, hk, hcan⟩ := queuedCanTake_iff.mp hp
      have hk' := ((hmem p k).mp hk).1
      rw [hheld] at hcan ⊢
      by_cases hpp : p = path
      · subst hpp
        rw [if_pos rfl] at hcan ⊢
        -- the call this release wakes could be granted, or one that was woken before
        rcases hr (queuedCanTake_iff.mpr ⟨k, hk', hcan⟩) with hhead | hold
        · obtain ⟨x, hx, hxc⟩ := (Option.any_eq_true _ _).mp hhead
          obtain ⟨c, hc, -⟩ := canTakeAt_iff.mp hxc
          exact wokenCanTake_iff.mpr
            ⟨x, by rw [hnext]; exact h.bound x c hc, (hset x).mpr (.inr hx), hxc⟩
        · exact hwoken p _ hold
      · rw [if_neg hpp] at hcan ⊢
        exact hwoken p _ (h.served p (queuedCanTake_iff.mpr ⟨k, hk', hcan⟩))

/-- The queues and the handles stay, and perhaps a woken call is gone. -/
theorem WakeInv.sameQueues (h : WakeInv l) {calls : Nat → Option FlockCall}
    {m : FileLockManager} (hsub : ∀ k c, calls k = some c → l.calls k = some c)
    (hkeep : ∀ p, ∀ k ∈ l.mgr.queueAt p, ∃ c, calls k = some c ∧ c.path = p) (ok : MgrOk m)
    (hq : ∀ p, m.queueAt p = l.mgr.queueAt p) (hw : m.waits = l.mgr.waits)
    (hserved : ∀ p, (∃ k ∈ l.mgr.queueAt p,
        canTakeAt { l with calls := calls } p (m.heldAt p) k = true) →
      ∃ w < l.mgr.waits.next, l.mgr.waits.settled w = true ∧
        canTakeAt { l with calls := calls } p (m.heldAt p) w = true) :
    WakeInv ⟨m, calls⟩ := by
  refine ⟨ok, fun k c hk => h.typed k c (hsub k c hk), fun k c hk => ?_, fun k c hk hs => ?_,
    fun p k hk => hkeep p k (hq p ▸ hk), fun p hp => ?_⟩
  · rw [hw]
    exact h.bound k c (hsub k c hk)
  · rw [hq]
    exact h.blocked k c (hsub k c hk) (hw ▸ hs)
  · obtain ⟨k, hk, hcan⟩ := queuedCanTake_iff.mp hp
    rw [hq] at hk
    obtain ⟨w, h₁, h₂, h₃⟩ := hserved p ⟨k, hk, hcan⟩
    exact wokenCanTake_iff.mpr ⟨w, by rw [hw]; exact h₁, by rw [hw]; exact h₂, h₃⟩

/-- The other calls that wait when a call has its turn: all of them, or all but the woken one whose
turn it is. -/
structure Others (l : LockState) (calls : Nat → Option FlockCall) (path : String) (d : Nat)
    (op : BitVec 32) (nb : Bool) : Prop where
  sub : ∀ k c, calls k = some c → l.calls k = some c
  gone : ∀ k c, l.calls k = some c → calls k = some c ∨
    (l.mgr.waits.settled k = true ∧ c.path = path ∧ c.descId = d ∧ c.op = op ∧ nb = false)

section Turn

variable {l : LockState} {calls : Nat → Option FlockCall} {path : String} {d : Nat}
  {op : BitVec 32} {nb : Bool}

variable (ho : Others l calls path d op nb) (h : WakeInv l)
include ho h

/-- A call in a queue is not the one whose turn it is. -/
theorem Others.keep : ∀ p, ∀ k ∈ l.mgr.queueAt p, ∃ c, calls k = some c ∧ c.path = p := by
  intro p k hk
  obtain ⟨c, hc, hcp⟩ := h.queued p k hk
  rcases ho.gone k c hc with hc' | ⟨hs, -⟩
  · exact ⟨c, hc', hcp⟩
  · rw [(h.mgr.unsettled p k hk).1] at hs
    cases hs

/-- A woken call that could be granted is not the one whose turn it is, if that one cannot. -/
theorem Others.served {p : String}
    (hnot : ∀ c : FlockCall, c.descId = d → c.op = op → nb = false → p = path →
      canTake (l.mgr.heldAt p) c = false)
    (hex : ∃ k ∈ l.mgr.queueAt p,
      canTakeAt { l with calls := calls } p (l.mgr.heldAt p) k = true) :
    ∃ w < l.mgr.waits.next, l.mgr.waits.settled w = true ∧
      canTakeAt { l with calls := calls } p (l.mgr.heldAt p) w = true := by
  obtain ⟨k, hk, hcan⟩ := hex
  obtain ⟨c, hc, hcp, hct⟩ := canTakeAt_iff.mp hcan
  have hold := queuedCanTake_iff.mpr ⟨k, hk, canTakeAt_iff.mpr ⟨c, ho.sub k c hc, hcp, hct⟩⟩
  obtain ⟨w, h₁, h₂, h₃⟩ := wokenCanTake_iff.mp (h.served p hold)
  obtain ⟨c', hc', hcp', hct'⟩ := canTakeAt_iff.mp h₃
  refine ⟨w, h₁, h₂, canTakeAt_iff.mpr ⟨c', ?_, hcp', hct'⟩⟩
  rcases ho.gone w c' hc' with hw | ⟨-, h₁, h₂, h₃, h₄⟩
  · exact hw
  · rw [hnot c' h₂ h₃ h₄ (hcp'.symm.trans h₁)] at hct'
    cases hct'

/-- A call that conflicts queues up. -/
theorem WakeInv.enqueue {m : FileLockManager} {o : Nat} {t : LockType} (type : lockType? op = some t)
    (busy : conflict (l.mgr.heldAt path) d t = true) (ok : MgrOk m)
    (held : ∀ p, m.heldAt p = l.mgr.heldAt p)
    (queue : ∀ p, m.queueAt p =
      if p = path then l.mgr.queueAt path ++ [l.mgr.waits.next] else l.mgr.queueAt p)
    (waits : m.waits =
      ⟨l.mgr.waits.next + 1, update l.mgr.waits.settled l.mgr.waits.next false⟩) :
    WakeInv ⟨m, update calls l.mgr.waits.next (some ⟨path, d, op, o⟩)⟩ := by
  have hnew : ∀ c : FlockCall, c.descId = d → c.op = op →
      canTake (l.mgr.heldAt path) c = false := fun c hcd hco => by
    simp [canTake, hco, hcd, type, busy]
  have hq : ∀ p x, x ∈ m.queueAt p ↔
      x ∈ l.mgr.queueAt p ∨ (p = path ∧ x = l.mgr.waits.next) := fun p x => by
    rw [queue]
    split
    · rename_i hp
      rw [List.mem_append, List.mem_singleton, hp]
      simp
    · rename_i hp
      simp [hp]
  have hset : ∀ k, k ≠ l.mgr.waits.next → m.waits.settled k = l.mgr.waits.settled k :=
    fun k hk => by rw [waits]; exact update_of_ne hk _ _
  have hnext : m.waits.next = l.mgr.waits.next + 1 := by rw [waits]
  -- the calls that waited before have other handles
  have hback : ∀ k c, calls k = some c →
      update calls l.mgr.waits.next (some ⟨path, d, op, o⟩) k = some c :=
    fun k c hk => by
      rw [update_of_ne (Nat.ne_of_lt (h.bound k c (ho.sub k c hk))), hk]
  refine ⟨ok, fun k c hk => ?_, fun k c hk => ?_, fun k c hk hs => ?_, fun p k hk => ?_,
    fun p hp => ?_⟩
  · rcases PartialMap.set_eq_some.mp hk with ⟨-, rfl⟩ | ⟨-, hk⟩
    · rw [type]
      exact Option.some_ne_none t
    · exact h.typed k c (ho.sub k c hk)
  · rw [hnext]
    rcases PartialMap.set_eq_some.mp hk with ⟨rfl, -⟩ | ⟨-, hk⟩
    · exact Nat.lt_succ_self _
    · exact Nat.lt_succ_of_lt (h.bound k c (ho.sub k c hk))
  · rcases PartialMap.set_eq_some.mp hk with ⟨rfl, rfl⟩ | ⟨hkn, hk⟩
    · exact (hq _ _).mpr (.inr ⟨rfl, rfl⟩)
    · exact (hq _ _).mpr (.inl (h.blocked k c (ho.sub k c hk) ((hset k hkn).symm.trans hs)))
  · rcases (hq p k).mp hk with hk | ⟨rfl, rfl⟩
    · obtain ⟨c, hc, hcp⟩ := ho.keep h p k hk
      exact ⟨c, hback k c hc, hcp⟩
    · exact ⟨_, update_self .., rfl⟩
  · obtain ⟨k, hk, hcan⟩ := queuedCanTake_iff.mp hp
    obtain ⟨c, hc, hcp, hct⟩ := canTakeAt_iff.mp hcan
    change canTake (m.heldAt p) c = true at hct
    change wokenCanTake _ p (m.heldAt p) = true
    rw [held] at hct ⊢
    have hk' : k ∈ l.mgr.queueAt p ∧ calls k = some c := by
      rcases PartialMap.set_eq_some.mp hc with ⟨rfl, rfl⟩ | ⟨hkn, hc⟩
      · -- the call that has just queued up conflicts
        rw [← hcp, hnew _ rfl rfl] at hct
        cases hct
      · exact ⟨((hq p k).mp hk).resolve_right fun h => hkn h.2, hc⟩
    obtain ⟨w, h₁, h₂, h₃⟩ := ho.served h (fun c hcd hco _ he => he ▸ hnew c hcd hco)
      ⟨k, hk'.1, canTakeAt_iff.mpr ⟨c, hk'.2, hcp, hct⟩⟩
    obtain ⟨c', hc', hcp', hct'⟩ := canTakeAt_iff.mp h₃
    refine wokenCanTake_iff.mpr ⟨w, ?_, (hset w (Nat.ne_of_lt h₁)).trans h₂,
      canTakeAt_iff.mpr ⟨c', hback w c' hc', hcp', hct'⟩⟩
    rw [hnext]
    exact Nat.lt_succ_of_lt h₁

/-- A turn of a call, from a manager with the same holders and queues. -/
theorem WakeInv.turn {r : FlockOutcome × FileLockManager} {m₀ : FileLockManager}
    (hw₀ : m₀.waits = l.mgr.waits) (hheld₀ : ∀ p, m₀.heldAt p = l.mgr.heldAt p)
    (hqueue₀ : ∀ p, m₀.queueAt p = l.mgr.queueAt p)
    (hg : GrantWakes { l with calls := calls } path d op)
    (ht : TurnSpec m₀ path d op nb r.1 r.2) :
    WakeInv (afterTurn calls path d op r) := by
  obtain ⟨r, m⟩ := r
  cases ht with
  | thrown cause ok held queue waits desc =>
      refine h.sameQueues ho.sub (ho.keep h) ok (fun p => (queue p).trans (hqueue₀ p))
        (waits.trans hw₀) fun p hp => ?_
      rw [show m.heldAt p = _ from (held p).trans (hheld₀ p)] at hp ⊢
      refine ho.served h (fun c _ hop hnb _ => ?_) hp
      -- a call whose turn comes after a wait asked for a lock, and does not throw
      rcases cause with hnone | hnb'
      · simp [canTake, hop, hnone]
      · rw [hnb] at hnb'
        cases hnb'
  | @granted t _ type free ok held queue waits desc =>
      refine h.sameQueues ho.sub (ho.keep h) ok (fun p => (queue p).trans (hqueue₀ p))
        (waits.trans hw₀) fun p hp => ?_
      rw [show m.heldAt p = _ from held p] at hp ⊢
      rw [hheld₀] at free hp ⊢
      by_cases hpp : p = path
      · subst hpp
        rw [if_pos rfl] at hp ⊢
        exact wokenCanTake_iff.mp (hg t type free (queuedCanTake_iff.mpr hp))
      · rw [if_neg hpp, hheld₀] at hp ⊢
        exact ho.served h (fun _ _ _ _ he => absurd he hpp) hp
  | @blocked t o _ blocking type busy ok held queue waits desc =>
      rw [hheld₀] at busy
      rw [hw₀] at waits queue ⊢
      refine h.enqueue ho type busy ok (fun p => (held p).trans (hheld₀ p)) (fun p => ?_) waits
      rw [show m.queueAt p = _ from queue p, hqueue₀, hqueue₀]

end Turn

/-- **One step.** -/
theorem WakeInv.step (h : WakeInv s.locks) {a : LockAction} (hc : Wakes s a)
    (hs : s.step a = some s') : WakeInv s'.locks := by
  cases a with
  | flock path d operation =>
      cases hs
      simp only [Wakes] at hc
      simp only [LockState.flock, FileLockManager.flock]
      split
      · rename_i hun
        rw [if_pos hun] at hc
        exact h.unlock hc
      · rename_i hun
        rw [if_neg hun] at hc
        exact h.turn ⟨fun _ _ => id, fun _ _ => .inl⟩ rfl (fun _ => rfl) (fun _ => rfl) hc
          (flockTurn_spec h.mgr path d _ _)
  | releaseByDescription d =>
      simp only [LockRun.step] at hs
      split at hs
      · cases hs
        exact h
      · rename_i path hp
        cases hs
        simp only [LockState.releaseByDescription, FileLockManager.releaseByDescription, hp]
        exact h.unlock (hc path hp)
  | resume k =>
      simp only [LockRun.step] at hs
      cases hr : s.locks.resume k with
      | none => rw [hr] at hs; cases hs
      | some r =>
          obtain ⟨c, r, l⟩ := r
          rw [hr] at hs
          cases hs
          obtain ⟨hk, hset, rfl, rfl⟩ := resume_cases hr
          obtain ⟨hown, hgrant⟩ := hc c hk
          obtain ⟨hm, hw, -, hheld, hqueue⟩ := afterWait_view h.mgr hset hown
          refine h.turn ⟨fun x c' hx => ?_, fun x c' hx => ?_⟩ hw hheld hqueue hgrant
            (flockTurn_spec hm c.path c.descId c.op false)
          · exact (PartialMap.erase_eq_some.mp hx).2
          · by_cases hxk : x = k
            · subst hxk
              rw [hk] at hx
              cases hx
              exact .inr ⟨hset, rfl, rfl, rfl, rfl⟩
            · exact .inl ((update_of_ne hxk _ _).trans hx)

end LockRun

open LockRun in
/-- **No lost wakeup**: in every run whose steps meet `Wakes`, a call that still waits when no woken
call has code left to run asks for a lock that conflicts with the holders of its path. -/
theorem waiting_conflicts_of_wakes {s : LockRun} (h : Lts.Reach step Wakes .start s)
    (hq : s.Quiescent) : s.WaitingConflicts :=
  (h.invariant (I := fun s => WakeInv s.locks) WakeInv.new
    fun _ _ _ hi hc hs => hi.step hc hs).waitingConflicts hq

/-- Two shared requests wait for an exclusive lock; its release wakes the first only. -/
def lostWakeup : List LockAction :=
  [.flock "/f" 1 LOCK_EX, .flock "/f" 2 LOCK_SH, .flock "/f" 3 LOCK_SH, .flock "/f" 1 LOCK_UN,
    .resume 0]

theorem waiting_fails :
    ¬ ∀ s, Lts.Reach step Lts.Any .start s → s.Quiescent → s.WaitingConflicts := by
  intro hall
  obtain ⟨s, hs⟩ : ∃ s, Lts.exec step .start lostWakeup = some s := ⟨_, rfl⟩
  have hq : s.Quiescent := by
    cases hs
    intro h c hc
    rcases h with _ | _ | h
    · cases hc
    · rfl
    · cases hc
  have hwait : (Lts.exec step .start lostWakeup).map (fun s => s.locks.calls 1) =
      some (some ⟨"/f", 3, LOCK_SH, 0⟩) := by decide
  have hheld : (Lts.exec step .start lostWakeup).map (fun s => s.locks.mgr.heldAt "/f") =
      some [⟨2, .sh⟩] := by decide
  rw [hs] at hwait hheld
  have hheld' : s.locks.mgr.heldAt "/f" = [⟨2, .sh⟩] := Option.some.inj hheld
  obtain ⟨t, ht, hc⟩ := hall s (.of_exec hs) hq 1 _ (Option.some.inj hwait)
  change conflict (s.locks.mgr.heldAt "/f") 3 t = true at hc
  rw [hheld'] at hc
  cases ht
  cases hc

/-- A run that meets the condition, and in which a call still waits: the lock is handed over from
the first to the second of three. -/
theorem waiting_conflicts_of_wakes_handover :
    ∃ s, Lts.Reach step Wakes .start s ∧ s.Quiescent ∧
      s.locks.calls 1 = some ⟨"/f", 3, LOCK_EX, 0⟩ ∧ s.WaitingConflicts := by
  obtain ⟨s, hs⟩ : ∃ s, Lts.execIf step Wakes .start
      [.flock "/f" 1 LOCK_EX, .flock "/f" 2 LOCK_EX, .flock "/f" 3 LOCK_EX, .flock "/f" 1 LOCK_UN,
        .resume 0] = some s := ⟨_, rfl⟩
  have hq : s.Quiescent := by
    cases hs
    intro h c hc
    rcases h with _ | _ | h
    · cases hc
    · rfl
    · cases hc
  refine ⟨s, .of_execIf hs, hq, ?_, waiting_conflicts_of_wakes (.of_execIf hs) hq⟩
  cases hs
  rfl

end SecureExec.Kernel
