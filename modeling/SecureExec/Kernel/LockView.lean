import SecureExec.Lib.PartialMap
import SecureExec.Kernel.FileLock

/-!
# Kernel — LockView — what each lock operation does, path by path

The state objects and their map are seen through two functions of a path: the entries that hold
its lock (`heldAt`) and the handles that wait for it (`queueAt`).  `MgrOk` is what holds of every
manager: the map is injective, and the handles in the queues are unsettled, each in one queue.

Each operation is then told by one lemma: `unlock_spec`, `flockTurn_spec`, `afterWait_view`.  The
`finally` block of a waiting call deletes the entry of the path when *its* state object is idle,
whatever object the path has now; `afterWait_view` is the case where that does no harm.
-/

namespace SecureExec.Kernel
open SecureExec Function WaitQueue FileLockManager

namespace FileLockManager

/-- The entries that hold the lock of a path. -/
def heldAt (m : FileLockManager) (path : String) : List LockEntry :=
  match m.locks path with
  | none => []
  | some o => (m.states o).holders

/-- The handles that wait for the lock of a path. -/
def queueAt (m : FileLockManager) (path : String) : WaitQueue :=
  match m.locks path with
  | none => []
  | some o => (m.states o).waiters

end FileLockManager

open FileLockManager

/-- What holds of every manager. -/
structure MgrOk (m : FileLockManager) : Prop where
  valid : ∀ p o, m.locks p = some o → o < m.nextState
  inj : ∀ p p' o, m.locks p = some o → m.locks p' = some o → p = p'
  nodup : ∀ p, (m.queueAt p).Nodup
  unsettled : ∀ p, ∀ h ∈ m.queueAt p, m.waits.settled h = false ∧ h < m.waits.next
  apart : ∀ p p' h, h ∈ m.queueAt p → h ∈ m.queueAt p' → p = p'

variable {m m' : FileLockManager} {path : String} {o d : Nat}

theorem heldAt_eq (h : m.locks path = some o) : m.heldAt path = (m.states o).holders := by
  rw [heldAt, h]

theorem queueAt_eq (h : m.locks path = some o) : m.queueAt path = (m.states o).waiters := by
  rw [queueAt, h]

theorem MgrOk.new : MgrOk new := by
  refine ⟨fun _ _ h => ?_, fun _ _ _ h => ?_, fun _ => List.nodup_nil, fun _ _ h => ?_,
    fun _ _ _ h => ?_⟩ <;> cases h

/-- The invariant speaks about the map, the queues and the handles only. -/
theorem MgrOk.congr (hm : MgrOk m) (hl : m'.locks = m.locks) (hn : m'.nextState = m.nextState)
    (hq : ∀ p, m'.queueAt p = m.queueAt p) (hw : m'.waits = m.waits) : MgrOk m' := by
  refine ⟨fun p o h => ?_, fun p p' o h h' => ?_, fun p => ?_, fun p h hh => ?_,
    fun p p' h hh hh' => ?_⟩
  · rw [hl] at h
    rw [hn]
    exact hm.valid p o h
  · rw [hl] at h h'
    exact hm.inj p p' o h h'
  · rw [hq]
    exact hm.nodup p
  · rw [hq] at hh
    rw [hw]
    exact hm.unsettled p h hh
  · rw [hq] at hh hh'
    exact hm.apart p p' h hh hh'

/-! ### The state object of a path is replaced -/

section SetState

variable {st : PathLockState}

theorem heldAt_setState (hm : MgrOk m) (ho : m.locks path = some o) (p : String) :
    (m.setState o st).heldAt p = if p = path then st.holders else m.heldAt p := by
  by_cases hp : p = path
  · rw [if_pos hp, hp]
    simp [heldAt, setState, ho]
  · rw [if_neg hp]
    cases hl : m.locks p with
    | none => simp [heldAt, setState, hl]
    | some o' =>
        have hne : o' ≠ o := fun he => hp (hm.inj p path o (he ▸ hl) ho)
        simp [heldAt, setState, hl, hne]

theorem queueAt_setState (hm : MgrOk m) (ho : m.locks path = some o) (p : String) :
    (m.setState o st).queueAt p = if p = path then st.waiters else m.queueAt p := by
  by_cases hp : p = path
  · rw [if_pos hp, hp]
    simp [queueAt, setState, ho]
  · rw [if_neg hp]
    cases hl : m.locks p with
    | none => simp [queueAt, setState, hl]
    | some o' =>
        have hne : o' ≠ o := fun he => hp (hm.inj p path o (he ▸ hl) ho)
        simp [queueAt, setState, hl, hne]

end SetState

/-! ### Cleaning up -/

variable (m) (path)

theorem locks_cleanupState (o : Nat) : (m.cleanupState path o).locks = m.locks ∨
      (m.isIdle o ∧ (m.cleanupState path o).locks = update m.locks path none) := by
  unfold cleanupState
  split
  · rename_i h
    exact .inr ⟨h, rfl⟩
  · exact .inl rfl

theorem cleanupState_rest (o : Nat) :
    (m.cleanupState path o).states = m.states ∧ (m.cleanupState path o).waits = m.waits ∧
      (m.cleanupState path o).nextState = m.nextState ∧
      (m.cleanupState path o).descToPath = m.descToPath := by
  unfold cleanupState
  split <;> exact ⟨rfl, rfl, rfl, rfl⟩

theorem queueAt_cleanup_sub (o : Nat) (p : String) :
    (m.cleanupState path o).queueAt p = m.queueAt p ∨ (m.cleanupState path o).queueAt p = [] := by
  obtain ⟨hs, -⟩ := cleanupState_rest m path o
  rcases locks_cleanupState m path o with h | ⟨-, h⟩
  · exact .inl (by rw [queueAt, queueAt, h, hs])
  · by_cases hp : p = path
    · exact .inr (by rw [queueAt, h, hp, update_self])
    · exact .inl (by rw [queueAt, queueAt, h, hs, update_of_ne hp])

variable {path}

variable {m}

section

variable (hm : MgrOk m)
include hm

theorem MgrOk.cleanup (path : String) (o : Nat) :
    MgrOk (m.cleanupState path o) := by
  obtain ⟨-, hw, hn, -⟩ := cleanupState_rest m path o
  have hlocks : ∀ p o', (m.cleanupState path o).locks p = some o' → m.locks p = some o' := by
    intro p o' h
    rcases locks_cleanupState m path o with hl | ⟨-, hl⟩
    · rwa [hl] at h
    · rw [hl, PartialMap.erase_eq_some] at h
      exact h.2
  have hsub : ∀ p h, h ∈ (m.cleanupState path o).queueAt p → h ∈ m.queueAt p := by
    intro p h hh
    rcases queueAt_cleanup_sub m path o p with hq | hq
    · rwa [hq] at hh
    · rw [hq] at hh
      cases hh
  refine ⟨fun p o' h => hn ▸ hm.valid p o' (hlocks p o' h),
    fun p p' o' h h' => hm.inj p p' o' (hlocks p o' h) (hlocks p' o' h'), fun p => ?_,
    fun p h hh => hw ▸ hm.unsettled p h (hsub p h hh),
    fun p p' h hh hh' => hm.apart p p' h (hsub p h hh) (hsub p' h hh')⟩
  rcases queueAt_cleanup_sub m path o p with hq | hq
  · rw [hq]
    exact hm.nodup p
  · rw [hq]
    exact List.nodup_nil

/-- An object in use that is idle has no holders and nobody waits on it. -/
theorem MgrOk.idle_view (ho : m.locks path = some o) (hi : m.isIdle o) :
    m.heldAt path = [] ∧ m.queueAt path = [] := by
  refine ⟨by rw [heldAt_eq ho]; exact hi.1, ?_⟩
  have hs := pending_eq_zero_iff.mp hi.2
  rw [← queueAt_eq ho] at hs
  rw [List.eq_nil_iff_forall_not_mem]
  intro h hh
  have h₁ := hs h hh
  rw [(hm.unsettled path h hh).1] at h₁
  cases h₁

/-- A cleanup that finds the path's own object idle changes nothing one can see. -/
theorem cleanup_view (path : String) (o : Nat)
    (hc : m.isIdle o → ∀ o', m.locks path = some o' → m.isIdle o') (p : String) :
    (m.cleanupState path o).heldAt p = m.heldAt p ∧
      (m.cleanupState path o).queueAt p = m.queueAt p := by
  obtain ⟨hs, -⟩ := cleanupState_rest m path o
  rcases locks_cleanupState m path o with h | ⟨hi, h⟩
  · exact ⟨by rw [heldAt, heldAt, h, hs], by rw [queueAt, queueAt, h, hs]⟩
  · by_cases hp : p = path
    · subst hp
      have hnone : (m.cleanupState p o).locks p = none := by rw [h, update_self]
      cases hl : m.locks p with
      | none => exact ⟨by simp [heldAt, hl, hnone], by simp [queueAt, hl, hnone]⟩
      | some o' =>
          obtain ⟨h₁, h₂⟩ := hm.idle_view hl (hc hi o' hl)
          exact ⟨by rw [h₁, heldAt, hnone], by rw [h₂, queueAt, hnone]⟩
    · exact ⟨by rw [heldAt, heldAt, h, hs, update_of_ne hp],
        by rw [queueAt, queueAt, h, hs, update_of_ne hp]⟩

/-! ### Release -/

/-- The first handle of a queue in use is the one that is woken. -/
theorem MgrOk.wakeOne_queue (path : String) :
    wakeOne m.waits (m.queueAt path) =
      match m.queueAt path with
      | [] => (m.waits, [])
      | h :: q => (m.waits.wake h, q) := by
  cases hq : m.queueAt path with
  | nil => rfl
  | cons h q =>
      have hh : h ∈ m.queueAt path := by rw [hq]; exact List.mem_cons_self
      exact wakeOne_cons (hm.unsettled path h hh).1

theorem MgrOk.next_wakeOne (path : String) :
    (wakeOne m.waits (m.queueAt path)).1.next = m.waits.next := by
  rw [hm.wakeOne_queue]
  cases m.queueAt path <;> rfl

theorem MgrOk.settled_wakeOne (path : String) (x : Nat) :
    (wakeOne m.waits (m.queueAt path)).1.settled x = true ↔
      m.waits.settled x = true ∨ (m.queueAt path).head? = some x := by
  rw [hm.wakeOne_queue]
  cases hq : m.queueAt path with
  | nil => simp
  | cons h q =>
      by_cases hx : x = h
      · simp [WaitHandles.wake, hx]
      · simp [WaitHandles.wake, hx, Ne.symm hx]

/-- What is left in the queues is what was there, less the woken handle. -/
theorem MgrOk.mem_wakeOne (path p : String) (x : Nat) :
    (x ∈ if p = path then (wakeOne m.waits (m.queueAt path)).2 else m.queueAt p) ↔
      x ∈ m.queueAt p ∧ (m.queueAt path).head? ≠ some x := by
  rw [hm.wakeOne_queue]
  cases hq : m.queueAt path with
  | nil =>
      split
      · rename_i hp
        simp [hp, hq]
      · simp
  | cons h q =>
      have hnd : h ∉ q ∧ q.Nodup := List.nodup_cons.mp (hq ▸ hm.nodup path)
      have hmem : h ∈ m.queueAt path := by rw [hq]; exact List.mem_cons_self
      rw [List.head?_cons, ne_eq, Option.some.injEq]
      split
      · rename_i hp
        rw [hp, hq, List.mem_cons]
        refine ⟨fun hx => ⟨.inr hx, fun he => hnd.1 (he ▸ hx)⟩, ?_⟩
        rintro ⟨rfl | hx, hne⟩
        · exact absurd rfl hne
        · exact hx
      · rename_i hp
        exact ⟨fun hx => ⟨hx, fun he => hp (hm.apart p path h (he ▸ hx) hmem)⟩, And.left⟩

theorem MgrOk.of_wake (path : String) (hl : m'.locks = m.locks) (hn : m'.nextState = m.nextState)
    (hw : m'.waits = (wakeOne m.waits (m.queueAt path)).1)
    (hq : ∀ p, m'.queueAt p =
      if p = path then (wakeOne m.waits (m.queueAt path)).2 else m.queueAt p) :
    MgrOk m' := by
  have hsub : ∀ p x, x ∈ m'.queueAt p → x ∈ m.queueAt p ∧ (m.queueAt path).head? ≠ some x :=
    fun p x hx => (hm.mem_wakeOne path p x).mp (hq p ▸ hx)
  refine ⟨fun p o ho => hn ▸ hm.valid p o (hl ▸ ho),
    fun p p' o ho ho' => hm.inj p p' o (hl ▸ ho) (hl ▸ ho'), fun p => ?_, fun p x hx => ?_,
    fun p p' x hx hx' => hm.apart p p' x (hsub p x hx).1 (hsub p' x hx').1⟩
  · rw [hq]
    split
    · rw [hm.wakeOne_queue]
      cases hqs : m.queueAt path with
      | nil => exact List.nodup_nil
      | cons h q => exact (List.nodup_cons.mp (hqs ▸ hm.nodup path)).2
    · exact hm.nodup p
  · obtain ⟨hx, hne⟩ := hsub p x hx
    obtain ⟨h₁, h₂⟩ := hm.unsettled p x hx
    refine ⟨Bool.eq_false_iff.mpr fun hs => ?_, by rw [hw, hm.next_wakeOne]; exact h₂⟩
    rw [hw, hm.settled_wakeOne] at hs
    rcases hs with hs | hs
    · rw [h₁] at hs
      cases hs
    · exact hne hs

/-- **Release.**  The description's entry goes, and when there was one the first waiter is
woken. -/
theorem unlock_spec (path : String) (d : Nat) :
    MgrOk (m.unlock path d) ∧
    (∀ p, (m.unlock path d).heldAt p =
      if p = path then releaseHolder (m.heldAt path) d else m.heldAt p) ∧
    ((∀ e ∈ m.heldAt path, e.descriptionId ≠ d) ∧
        (m.unlock path d).waits = m.waits ∧ (m.unlock path d).descToPath = m.descToPath ∧
        (∀ p, (m.unlock path d).queueAt p = m.queueAt p) ∨
      (∃ e ∈ m.heldAt path, e.descriptionId = d) ∧
        (m.unlock path d).waits = (wakeOne m.waits (m.queueAt path)).1 ∧
        (m.unlock path d).descToPath = update m.descToPath d none ∧
        ∀ p, (m.unlock path d).queueAt p =
          if p = path then (wakeOne m.waits (m.queueAt path)).2 else m.queueAt p) := by
  cases hl : m.locks path with
  | none =>
      have hu : m.unlock path d = m := by rw [unlock, hl]
      have hh : m.heldAt path = [] := by rw [heldAt, hl]
      rw [hu]
      refine ⟨hm, fun p => ?_, .inl ⟨fun e he => ?_, rfl, rfl, fun _ => rfl⟩⟩
      · split
        · rename_i hp
          rw [hp, hh]
          rfl
        · rfl
      · rw [hh] at he
        cases he
  | some o =>
      have hh := heldAt_eq hl
      have hq := queueAt_eq hl
      -- the release itself, before the cleanup
      let m₁ : FileLockManager := { m with
        waits := (wakeOne m.waits (m.queueAt path)).1
        descToPath := update m.descToPath d none
        states := update m.states o
          ⟨releaseHolder (m.heldAt path) d, (wakeOne m.waits (m.queueAt path)).2⟩ }
      have hown : ∀ n : FileLockManager, n.locks path = some o →
          n.isIdle o → ∀ o', n.locks path = some o' → n.isIdle o' := fun n hn hi o' ho' => by
        rw [hn] at ho'
        cases ho'
        exact hi
      by_cases ha : ∃ e ∈ m.heldAt path, e.descriptionId = d
      · have hu : m.unlock path d = m₁.cleanupState path o := by
          have ha' : (m.states o).holders.any (fun h => h.descriptionId == d) = true :=
            HoldersOk.any_iff.mpr (hh ▸ ha)
          simp only [unlock, hl, ha', if_true, FileLockManager.wakeOne, update_self,
            update_idem, m₁, hh, hq]
        have hheld : ∀ p, m₁.heldAt p =
            if p = path then releaseHolder (m.heldAt path) d else m.heldAt p :=
          fun p => heldAt_setState hm hl p
        have hqueue : ∀ p, m₁.queueAt p =
            if p = path then (wakeOne m.waits (m.queueAt path)).2 else m.queueAt p :=
          fun p => queueAt_setState hm hl p
        have hm₁ : MgrOk m₁ := hm.of_wake path rfl rfl rfl hqueue
        rw [hu]
        obtain ⟨hs, hw, -, hd⟩ := cleanupState_rest m₁ path o
        have hv := cleanup_view hm₁ path o (hown m₁ hl)
        exact ⟨hm₁.cleanup path o, fun p => (hv p).1.trans (hheld p),
          .inr ⟨ha, hw, hd, fun p => (hv p).2.trans (hqueue p)⟩⟩
      · have ha' : ∀ e ∈ m.heldAt path, e.descriptionId ≠ d := fun e he hd => ha ⟨e, he, hd⟩
        have hu : m.unlock path d = m.cleanupState path o := by
          have hf : ¬ (m.states o).holders.any (fun h => h.descriptionId == d) = true :=
            fun h => ha (hh ▸ HoldersOk.any_iff.mp h)
          simp only [unlock, hl, if_neg hf]
        rw [hu]
        obtain ⟨hs, hw, -, hd⟩ := cleanupState_rest m path o
        have hv := cleanup_view hm path o (hown m hl)
        refine ⟨hm.cleanup path o, fun p => (hv p).1.trans ?_,
          .inl ⟨ha', hw, hd, fun p => (hv p).2⟩⟩
        split
        · rename_i hp
          rw [hp, releaseHolder, List.eraseP_of_forall_not fun e he => by simpa using ha' e he]
        · rfl

/-! ### A turn of `flock` -/

theorem getOrCreate_spec (path : String) :
    MgrOk (m.getOrCreate path).2 ∧
      (m.getOrCreate path).2.locks path = some (m.getOrCreate path).1 ∧
      (m.getOrCreate path).2.waits = m.waits ∧
      (m.getOrCreate path).2.descToPath = m.descToPath ∧
      (∀ p, (m.getOrCreate path).2.heldAt p = m.heldAt p) ∧
      ∀ p, (m.getOrCreate path).2.queueAt p = m.queueAt p := by
  cases hl : m.locks path with
  | some o =>
      have he : m.getOrCreate path = (o, m) := by rw [getOrCreate, hl]
      rw [he]
      exact ⟨hm, hl, rfl, rfl, fun _ => rfl, fun _ => rfl⟩
  | none =>
      have he : m.getOrCreate path = (m.nextState, { m with
          locks := update m.locks path (some m.nextState)
          states := update m.states m.nextState ⟨[], []⟩
          nextState := m.nextState + 1 }) := by rw [getOrCreate, hl]
      rw [he]
      -- the new object is no other path's
      have hne : ∀ p o, m.locks p = some o → o ≠ m.nextState := fun p o ho =>
        Nat.ne_of_lt (hm.valid p o ho)
      have hloc : ∀ p o, update m.locks path (some m.nextState) p = some o →
          (p = path ∧ o = m.nextState) ∨ (p ≠ path ∧ m.locks p = some o) :=
        fun p o ho => PartialMap.set_eq_some.mp ho
      have hheld : ∀ p, heldAt { m with
          locks := update m.locks path (some m.nextState)
          states := update m.states m.nextState ⟨[], []⟩
          nextState := m.nextState + 1 } p = m.heldAt p := fun p => by
        by_cases hp : p = path
        · simp [heldAt, hp, hl]
        · simp only [heldAt, update_of_ne hp]
          cases ho : m.locks p with
          | none => rfl
          | some o => simp [hne p o ho]
      have hqueue : ∀ p, queueAt { m with
          locks := update m.locks path (some m.nextState)
          states := update m.states m.nextState ⟨[], []⟩
          nextState := m.nextState + 1 } p = m.queueAt p := fun p => by
        by_cases hp : p = path
        · simp [queueAt, hp, hl]
        · simp only [queueAt, update_of_ne hp]
          cases ho : m.locks p with
          | none => rfl
          | some o => simp [hne p o ho]
      refine ⟨⟨fun p o ho => ?_, fun p p' o ho ho' => ?_, fun p => ?_, fun p h hh => ?_,
        fun p p' h hh hh' => ?_⟩, update_self .., rfl, rfl, hheld, hqueue⟩
      · rcases hloc p o ho with ⟨-, rfl⟩ | ⟨-, ho⟩
        · exact Nat.lt_succ_self _
        · exact Nat.lt_succ_of_lt (hm.valid p o ho)
      · rcases hloc p o ho with ⟨rfl, rfl⟩ | ⟨-, ho⟩
        · rcases hloc p' _ ho' with ⟨rfl, -⟩ | ⟨-, ho'⟩
          · rfl
          · exact absurd rfl (hne p' _ ho')
        · rcases hloc p' _ ho' with ⟨-, rfl⟩ | ⟨-, ho'⟩
          · exact absurd rfl (hne p _ ho)
          · exact hm.inj p p' o ho ho'
      · rw [hqueue]
        exact hm.nodup p
      · rw [hqueue] at hh
        exact hm.unsettled p h hh
      · rw [hqueue] at hh hh'
        exact hm.apart p p' h hh hh'

end

/-- What a turn of `flock` can do: throw and change nothing, be granted when nothing conflicts, or
queue up. -/
inductive TurnSpec (m : FileLockManager) (path : String) (d : Nat) (op : BitVec 32) (nb : Bool) :
    FlockOutcome → FileLockManager → Prop where
  | thrown {e : Failure} {m' : FileLockManager} (cause : lockType? op = none ∨ nb = true)
      (ok : MgrOk m')
      (held : ∀ p, m'.heldAt p = m.heldAt p) (queue : ∀ p, m'.queueAt p = m.queueAt p)
      (waits : m'.waits = m.waits) (desc : m'.descToPath = m.descToPath) :
      TurnSpec m path d op nb (.thrown e) m'
  | granted {t : LockType} {m' : FileLockManager} (type : lockType? op = some t)
      (free : conflict (m.heldAt path) d t = false) (ok : MgrOk m')
      (held : ∀ p, m'.heldAt p = if p = path then grantHolder (m.heldAt path) d t else m.heldAt p)
      (queue : ∀ p, m'.queueAt p = m.queueAt p) (waits : m'.waits = m.waits)
      (desc : m'.descToPath = if (m.heldAt path).any (fun h => h.descriptionId == d)
        then m.descToPath else update m.descToPath d (some path)) :
      TurnSpec m path d op nb (.granted t) m'
  | blocked {t : LockType} {o : Nat} {m' : FileLockManager} (blocking : nb = false)
      (type : lockType? op = some t) (busy : conflict (m.heldAt path) d t = true) (ok : MgrOk m')
      (held : ∀ p, m'.heldAt p = m.heldAt p)
      (queue : ∀ p, m'.queueAt p =
        if p = path then m.queueAt path ++ [m.waits.next] else m.queueAt p)
      (waits : m'.waits =
        ⟨m.waits.next + 1, update m.waits.settled m.waits.next false⟩)
      (desc : m'.descToPath = m.descToPath) :
      TurnSpec m path d op nb (.blocked o m.waits.next) m'

theorem MgrOk.of_enqueue (hm : MgrOk m) (hl : m'.locks = m.locks)
    (hn : m'.nextState = m.nextState)
    (hw : m'.waits = ⟨m.waits.next + 1, update m.waits.settled m.waits.next false⟩)
    (hq : ∀ p, m'.queueAt p =
      if p = path then m.queueAt path ++ [m.waits.next] else m.queueAt p) : MgrOk m' := by
  have hnew : ∀ p, m.waits.next ∉ m.queueAt p := fun p h =>
    Nat.lt_irrefl _ (hm.unsettled p _ h).2
  have hmem : ∀ p x, x ∈ m'.queueAt p →
      x ∈ m.queueAt p ∨ (p = path ∧ x = m.waits.next) := by
    intro p x hx
    rw [hq] at hx
    split at hx
    · rename_i hp
      rcases List.mem_append.mp hx with hx | hx
      · exact .inl (hp ▸ hx)
      · exact .inr ⟨hp, List.mem_singleton.mp hx⟩
    · exact .inl hx
  refine ⟨fun p o ho => hn ▸ hm.valid p o (hl ▸ ho),
    fun p p' o ho ho' => hm.inj p p' o (hl ▸ ho) (hl ▸ ho'), fun p => ?_, fun p x hx => ?_,
    fun p p' x hx hx' => ?_⟩
  · rw [hq]
    split
    · refine List.nodup_append.mpr ⟨hm.nodup path, List.pairwise_singleton _ _, ?_⟩
      rintro a ha b hb rfl
      rw [List.mem_singleton.mp hb] at ha
      exact hnew path ha
    · exact hm.nodup p
  · rw [hw]
    rcases hmem p x hx with hx | ⟨-, rfl⟩
    · obtain ⟨h₁, h₂⟩ := hm.unsettled p x hx
      exact ⟨(update_of_ne (Nat.ne_of_lt h₂) _ _).trans h₁, Nat.lt_succ_of_lt h₂⟩
    · exact ⟨update_self .., Nat.lt_succ_self _⟩
  · rcases hmem p x hx with hx | ⟨rfl, rfl⟩
    · rcases hmem p' x hx' with hx' | ⟨-, rfl⟩
      · exact hm.apart p p' x hx hx'
      · exact absurd hx (hnew p)
    · rcases hmem p' _ hx' with hx' | ⟨rfl, -⟩
      · exact absurd hx' (hnew p')
      · rfl

/-- **A turn of `flock`.** -/
theorem flockTurn_spec (hm : MgrOk m) (path : String) (d : Nat) (op : BitVec 32) (nb : Bool) :
    TurnSpec m path d op nb (m.flockTurn path d op nb).1 (m.flockTurn path d op nb).2 := by
  obtain ⟨hok, hl, hw, hd, hheld, hqueue⟩ := getOrCreate_spec hm path
  unfold flockTurn
  generalize m.getOrCreate path = r at *
  obtain ⟨o, m₁⟩ := r
  dsimp only at hok hl hw hd hheld hqueue ⊢
  have hh : (m₁.states o).holders = m.heldAt path := (heldAt_eq hl).symm.trans (hheld path)
  have hq : (m₁.states o).waiters = m.queueAt path := (queueAt_eq hl).symm.trans (hqueue path)
  cases ht : lockType? op with
  | none => exact .thrown (.inl ht) hok hheld hqueue hw hd
  | some t =>
      dsimp only
      cases hc : conflict (m.heldAt path) d t with
      | false =>
          rw [tryAcquire, hh, if_neg (by rw [hc]; decide)]
          refine .granted ht hc (hok.congr rfl rfl (fun p => ?_) rfl) (fun p => ?_) (fun p => ?_) hw ?_
          · exact (queueAt_setState hok hl p).trans (by split; (· rename_i hp; rw [hp, queueAt_eq hl]); rfl)
          · exact (heldAt_setState hok hl p).trans (by rw [hheld])
          · refine (queueAt_setState hok hl p).trans ?_
            split
            · rename_i hp
              rw [hp, hq]
            · exact hqueue p
          · dsimp only
            rw [hd]
      | true =>
          have htry : m₁.tryAcquire path o d t = none := by rw [tryAcquire, hh, if_pos hc]
          rw [htry]
          cases nb with
          | true => exact .thrown (.inr rfl) hok hheld hqueue hw hd
          | false =>
              have hqe : ∀ p, (m₁.setState o { m₁.states o with
                  waiters := (m₁.states o).waiters ++ [m₁.waits.next] }).queueAt p =
                  if p = path then m₁.queueAt path ++ [m₁.waits.next] else m₁.queueAt p := fun p => by
                rw [queueAt_setState hok hl, queueAt_eq hl]
              have hres : TurnSpec m path d op false (.blocked o m.waits.next)
                  { m₁ with
                    waits := ⟨m₁.waits.next + 1,
                      update m₁.waits.settled m₁.waits.next false⟩
                    states := update m₁.states o { m₁.states o with
                      waiters := (m₁.states o).waiters ++ [m₁.waits.next] } } := by
                refine .blocked rfl ht hc (hok.of_enqueue rfl rfl rfl hqe) (fun p => ?_)
                  (fun p => ?_) ?_ hd
                · refine (heldAt_setState hok hl p).trans ?_
                  split
                  · rename_i hp
                    rw [hp, hh]
                  · exact hheld p
                · refine (hqe p).trans ?_
                  rw [hqueue, hqueue, hw]
                · rw [hw]
              rw [← hw] at hres
              exact hres

/-! ### After the wait -/

variable {h : Nat}

/-- The woken handle is in no queue any more: taking it out of one changes nothing. -/
theorem removeSettled_view (hm : MgrOk m) (hs : m.waits.settled h = true) (o : Nat) (p : String) :
    (m.setState o { m.states o with
        waiters := remove (m.states o).waiters h }).heldAt p = m.heldAt p ∧
      (m.setState o { m.states o with
        waiters := remove (m.states o).waiters h }).queueAt p = m.queueAt p := by
  cases hl : m.locks p with
  | none => exact ⟨by simp [heldAt, setState, hl], by simp [queueAt, setState, hl]⟩
  | some o' =>
      by_cases ho : o' = o
      · subst ho
        have hnot : h ∉ (m.states o').waiters := fun hh => by
          have := (hm.unsettled p h (by rwa [queueAt_eq hl])).1
          rw [hs] at this
          cases this
        rw [heldAt_setState hm hl, queueAt_setState hm hl, if_pos rfl, if_pos rfl, heldAt_eq hl,
          queueAt_eq hl]
        exact ⟨rfl, List.erase_of_not_mem hnot⟩
      · exact ⟨by simp [heldAt, setState, hl, ho], by simp [queueAt, setState, hl, ho]⟩

theorem isIdle_removeSettled (hs : m.waits.settled h = true) (o o' : Nat) :
    (m.setState o { m.states o with
      waiters := remove (m.states o).waiters h }).isIdle o' ↔ m.isIdle o' := by
  by_cases ho : o' = o
  · subst ho
    simp only [isIdle, setState, update_self, pending_eq_zero_iff]
    refine and_congr_right fun _ => ⟨fun h' x hx => ?_, fun h' x hx => h' x (List.mem_of_mem_erase hx)⟩
    by_cases hxh : x = h
    · rw [hxh, hs]
    · exact h' x ((List.mem_erase_of_ne hxh).mpr hx)
  · simp only [isIdle, setState, update_of_ne ho]

/-- The path's entry is the caller's own state object, or an idle one, when the caller's is idle. -/
def CleansOwn (m : FileLockManager) (path : String) (o : Nat) : Prop :=
  m.isIdle o → ∀ o', m.locks path = some o' → m.isIdle o'

instance (m : FileLockManager) (path : String) (o : Nat) : Decidable (CleansOwn m path o) :=
  match h : m.locks path with
  | none => isTrue fun _ o' ho' => by rw [h] at ho'; cases ho'
  | some o₁ =>
    decidable_of_iff (m.isIdle o → m.isIdle o₁)
      ⟨fun hi hio o' ho' => by rw [h] at ho'; cases ho'; exact hi hio, fun hi hio => hi hio o₁ h⟩

/-- **After the wait**, when the cleanup is of the caller's own object. -/
theorem afterWait_view (hm : MgrOk m) (hs : m.waits.settled h = true) (hc : CleansOwn m path o) :
    MgrOk (m.afterWait path o h) ∧ (m.afterWait path o h).waits = m.waits ∧
      (m.afterWait path o h).descToPath = m.descToPath ∧
      (∀ p, (m.afterWait path o h).heldAt p = m.heldAt p) ∧
      ∀ p, (m.afterWait path o h).queueAt p = m.queueAt p := by
  unfold afterWait
  have hv := removeSettled_view hm hs o
  have hi := isIdle_removeSettled hs o
  have hm₁ : MgrOk (m.setState o { m.states o with
      waiters := remove (m.states o).waiters h }) :=
    hm.congr rfl rfl (fun p => (hv p).2) rfl
  have hview := cleanup_view hm₁ path o fun hio o' ho' =>
    (hi o').mpr (hc ((hi o).mp hio) o' ho')
  obtain ⟨-, hw, -, hd⟩ := cleanupState_rest (m.setState o { m.states o with
    waiters := remove (m.states o).waiters h }) path o
  exact ⟨hm₁.cleanup path o, hw, hd, fun p => (hview p).1.trans (hv p).1,
    fun p => (hview p).2.trans (hv p).2⟩

theorem afterTurn_mgr (calls : Nat → Option FlockCall) (path : String) (d : Nat) (op : BitVec 32)
    (r : FlockOutcome × FileLockManager) :
    (LockState.afterTurn calls path d op r).mgr = r.2 := by
  obtain ⟨r, m⟩ := r
  cases r <;> rfl

theorem TurnSpec.ok {op : BitVec 32} {nb : Bool}
    {r : FlockOutcome} (h : TurnSpec m path d op nb r m') : MgrOk m' := by
  cases h with
  | thrown _ ok => exact ok
  | granted _ _ ok => exact ok
  | blocked _ _ _ ok => exact ok

theorem resume_cases {s l : LockState} {c : FlockCall} {r : FlockOutcome}
    (hr : s.resume h = some (c, r, l)) :
    s.calls h = some c ∧ s.mgr.waits.settled h = true ∧ (s.resumeTurn h c).1 = r ∧
      LockState.afterTurn (update s.calls h none) c.path c.descId c.op
        (s.resumeTurn h c) = l := by
  unfold LockState.resume at hr
  split at hr
  · cases hr
  · rename_i c' hc
    split at hr
    · rename_i hset
      cases hr
      exact ⟨hc, hset, rfl, rfl⟩
    · cases hr

end SecureExec.Kernel
