import SecureExec.Kernel.LockView
import SecureExec.Kernel.RefCount

/-!
# Kernel — LockOwner — the locks of descriptions that are closed

A lock belongs to a description, and goes with its last descriptor: `fdClose` and `fdDup2` release
the locks of the description they drop, process exit those it files as locks.  Two ways are left for
a lock to outlive its description.  A call of `flock` that still waits when the description is closed
is granted when it is woken (`staleOwner_fails`), and process exit files a pipe or a PTY end as such
and does not release its lock.

`Owned` says that every holder is an owner of the path and is found under its id; `LocksKept` is the
condition on a step under which the owners are the live descriptions.
-/

namespace SecureExec.Kernel
open SecureExec Lts FileLockManager Function KernelImpl

/-! ### Owners -/

/-- Every holder of a path is found under its id, and owns the path. -/
structure Owned (m : FileLockManager) (owner : Nat → String → Prop) : Prop where
  mgr : MgrOk m
  holders : ∀ p, HoldersOk (m.heldAt p)
  named : ∀ p, ∀ e ∈ m.heldAt p, m.descToPath e.descriptionId = some p
  owner : ∀ p, ∀ e ∈ m.heldAt p, owner e.descriptionId p

namespace Owned

variable {m m' : FileLockManager} {owner owner' : Nat → String → Prop} {path : String} {d : Nat}

theorem new : Owned FileLockManager.new owner :=
  ⟨.new, fun _ => .nil, fun _ _ h => (nomatch h), fun _ _ h => (nomatch h)⟩

variable (h : Owned m owner)
include h

theorem mono (ho : ∀ d p, owner d p → m.descToPath d = some p → owner' d p) : Owned m owner' :=
  ⟨h.mgr, h.holders, h.named, fun p e he => ho _ p (h.owner p e he) (h.named p e he)⟩

/-- The holders are as before, or gone. -/
theorem of_fewer (hm : MgrOk m') (hd : m'.descToPath = m.descToPath)
    (hh : ∀ p, m'.heldAt p = m.heldAt p ∨ m'.heldAt p = []) : Owned m' owner := by
  have hsub : ∀ p, ∀ e ∈ m'.heldAt p, e ∈ m.heldAt p := by
    intro p e he
    rcases hh p with hp | hp
    · rwa [hp] at he
    · rw [hp] at he
      cases he
  refine ⟨hm, fun p => ?_, fun p e he => hd ▸ h.named p e (hsub p e he),
    fun p e he => h.owner p e (hsub p e he)⟩
  rcases hh p with hp | hp
  · rw [hp]
    exact h.holders p
  · rw [hp]
    exact .nil

/-- An unlock takes away the description's entry, which is the only one under its id. -/
theorem unlock (path : String) (d : Nat) :
    Owned (m.unlock path d) owner ∧
      ∀ p, ∀ e ∈ (m.unlock path d).heldAt p, e ∈ m.heldAt p ∧ (p = path → e.descriptionId ≠ d) := by
  obtain ⟨hm, hheld, hdesc⟩ := unlock_spec h.mgr path d
  have hsub : ∀ p, ∀ e ∈ (m.unlock path d).heldAt p,
      e ∈ m.heldAt p ∧ (p = path → e.descriptionId ≠ d) := by
    intro p e he
    rw [hheld] at he
    split at he
    · rename_i hp
      subst hp
      obtain ⟨he, hne⟩ := ((h.holders p).mem_release e).mp he
      exact ⟨he, fun _ => hne⟩
    · rename_i hp
      exact ⟨he, fun hp' => absurd hp' hp⟩
  refine ⟨⟨hm, fun p => ?_, fun p e he => ?_, fun p e he => h.owner p e (hsub p e he).1⟩, hsub⟩
  · rw [hheld]
    split
    · exact (h.holders path).release d
    · exact h.holders p
  · obtain ⟨hold, hne⟩ := hsub p e he
    have hn := h.named p e hold
    rcases hdesc with ⟨-, -, hd, -⟩ | ⟨⟨e', he', rfl⟩, -, hd, -⟩
    · rw [hd]
      exact hn
    · rw [hd, update_of_ne]
      · exact hn
      · intro hid
        have hp : some p = some path := by
          rw [← hn, hid]
          exact h.named path e' he'
        exact hne (Option.some.inj hp) hid

/-- **Release**: no holder is left under the id. -/
theorem release (d : Nat) :
    Owned (m.releaseByDescription d) fun d' p => owner d' p ∧ d' ≠ d := by
  unfold releaseByDescription
  cases hd : m.descToPath d with
  | none =>
      refine h.mono fun d' p ho hn => ⟨ho, ?_⟩
      rintro rfl
      rw [hd] at hn
      cases hn
  | some path =>
      obtain ⟨hu, hsub⟩ := h.unlock path d
      refine ⟨hu.mgr, hu.holders, hu.named, fun p e he => ⟨hu.owner p e he, fun hid => ?_⟩⟩
      obtain ⟨hold, hne⟩ := hsub p e he
      have hp : some path = some p := by
        rw [← hd, ← hid]
        exact h.named p e hold
      exact hne (Option.some.inj hp).symm hid

/-- **A turn of `flock`** for an owner of the path. -/
theorem turn {op : BitVec 32} {nb : Bool} {r : FlockOutcome}
    (ht : TurnSpec m path d op nb r m')
    (ho : ∀ t, lockType? op = some t → conflict (m.heldAt path) d t = false →
      owner d path ∧ ∀ p, owner d p → p = path) : Owned m' owner := by
  cases ht with
  | thrown _ hm hheld _ _ hd => exact h.of_fewer hm hd fun p => .inl (hheld p)
  | blocked _ _ _ hm hheld _ _ hd => exact h.of_fewer hm hd fun p => .inl (hheld p)
  | @granted t _ htype hfree hm hheld _ _ hd =>
      obtain ⟨hown, huniq⟩ := ho t htype hfree
      have hmem : ∀ p, ∀ e ∈ m'.heldAt p,
          (p = path ∧ e.descriptionId = d) ∨ (e ∈ m.heldAt p ∧ (p = path → e.descriptionId ≠ d)) := by
        intro p e he
        rw [hheld] at he
        split at he
        · rename_i hp
          subst hp
          rcases ((h.holders p).mem_grant e).mp he with rfl | ⟨he, hne⟩
          · exact .inl ⟨rfl, rfl⟩
          · exact .inr ⟨he, fun _ => hne⟩
        · rename_i hp
          exact .inr ⟨he, fun hp' => absurd hp' hp⟩
      refine ⟨hm, fun p => ?_, fun p e he => ?_, fun p e he => ?_⟩
      · rw [hheld]
        split
        · exact (h.holders path).grant hfree
        · exact h.holders p
      · rw [hd]
        split
        · rename_i hany
          rcases hmem p e he with ⟨rfl, hid⟩ | ⟨hold, -⟩
          · obtain ⟨e', he', hid'⟩ := HoldersOk.any_iff.mp hany
            rw [hid, ← hid']
            exact h.named p e' he'
          · exact h.named p e hold
        · rcases hmem p e he with ⟨rfl, hid⟩ | ⟨hold, hne⟩
          · rw [hid, update_self]
          · have hid : e.descriptionId ≠ d := fun hid =>
              hne (huniq p (hid ▸ h.owner p e hold)) hid
            rw [update_of_ne hid]
            exact h.named p e hold
      · rcases hmem p e he with ⟨rfl, hid⟩ | ⟨hold, -⟩
        · rw [hid]
          exact hown
        · exact h.owner p e hold

/-- The `finally` block of a waiting call can only take holders away. -/
theorem afterWait (path : String) (o : Nat) {w : Nat}
    (hs : m.waits.settled w = true) :
    Owned (m.afterWait path o w) owner := by
  have hv := removeSettled_view h.mgr hs o
  have hm : MgrOk (m.setState o { m.states o with
      waiters := WaitQueue.remove (m.states o).waiters w }) :=
    h.mgr.congr rfl rfl (fun p => (hv p).2) rfl
  unfold FileLockManager.afterWait
  obtain ⟨hst, -, -, hd⟩ := cleanupState_rest (m.setState o { m.states o with
    waiters := WaitQueue.remove (m.states o).waiters w }) path o
  refine h.of_fewer (hm.cleanup path o) hd fun p => ?_
  rw [← (hv p).1]
  rcases locks_cleanupState (m.setState o { m.states o with
      waiters := WaitQueue.remove (m.states o).waiters w }) path o with hl | ⟨-, hl⟩
  · exact .inl (by rw [heldAt, heldAt, hl, hst])
  · by_cases hp : p = path
    · exact .inr (by rw [heldAt, hl, hp, update_self])
    · exact .inl (by rw [heldAt, heldAt, hl, hst, update_of_ne hp])

end Owned

/-! ### The condition on a step -/

namespace KernelImpl

/-- A live description has this id and this path. -/
def OwnerLive (k : KernelImpl) (d : Nat) (p : String) : Prop :=
  ∃ r < k.fds.descs.next, k.Live r ∧ (k.desc r).id = d ∧ (k.desc r).path = p

instance (k : KernelImpl) (d : Nat) (p : String) : Decidable (k.OwnerLive d p) :=
  inferInstanceAs (Decidable (∃ r < k.fds.descs.next, _ ∧ _))

/-- A waiting call that would be granted now is of a live description. -/
def ResumeOwned (k : KernelImpl) (h : Nat) : Prop :=
  ∀ c ∈ k.locks.calls h, ∀ t ∈ lockType? c.op,
    conflict ((k.locks.mgr.afterWait c.path c.state h).heldAt c.path) c.descId t = false →
      k.OwnerLive c.descId c.path

/-- A pipe or PTY end that is closed with the process has no lock. -/
def ExitOwned (k : KernelImpl) (pid : Nat) : Prop :=
  ∀ t ∈ k.fds.get pid, ∀ e ∈ t.entries.values,
    (k.pipes.isPipe (k.desc e.description).id || k.ptys.isPty (k.desc e.description).id) = true →
      k.fds.refs e.description = t.refs e.description →
        k.locks.mgr.hasLock (k.desc e.description).id = false

instance (k : KernelImpl) (h : Nat) : Decidable (k.ResumeOwned h) :=
  inferInstanceAs (Decidable (∀ c ∈ k.locks.calls h, ∀ t ∈ lockType? c.op, _ → _))

instance (k : KernelImpl) (pid : Nat) : Decidable (k.ExitOwned pid) :=
  inferInstanceAs (Decidable (∀ t ∈ k.fds.get pid, ∀ e ∈ t.entries.values, _ → _ → _))

/-- The condition of a step under which no lock outlives its description. -/
def LocksKept (k : KernelImpl) (a : Syscall) : Prop :=
  k.FreshIds a ∧
    match a with
    | .resume h => k.ResumeOwned h
    | .exit pid => k.ExitOwned pid
    | _ => True

instance (k : KernelImpl) (a : Syscall) : Decidable (k.LocksKept a) := by
  unfold LocksKept
  cases a <;> infer_instance

/-! ### The invariant -/

structure OwnersOk (k : KernelImpl) : Prop where
  kernel : KernelOk k
  unique : UniqueIds k
  owned : Owned k.locks.mgr k.OwnerLive

variable {k k' : KernelImpl} {a : Syscall}

theorem OwnersOk.boot (mounted : List (String × List String)) (max : Option Nat) :
    OwnersOk (boot mounted max) :=
  ⟨.boot mounted max, fun _ _ h => absurd h (Nat.lt_irrefl 0), .new⟩

/-- An owner owns one path. -/
theorem UniqueIds.owner (hu : UniqueIds k) {d : Nat} {p p' : String} (h : k.OwnerLive d p)
    (h' : k.OwnerLive d p') : p = p' := by
  obtain ⟨r, -, hr, hid, rfl⟩ := h
  obtain ⟨r', -, hr', hid', rfl⟩ := h'
  rw [hu r r' hr hr' (hid.trans hid'.symm)]

theorem OwnerLive.of_live {d : Nat} {p : String} (hk' : KernelOk k')
    (hn : ∀ r < k.fds.descs.next,
      (k'.desc r).id = (k.desc r).id ∧ (k'.desc r).path = (k.desc r).path)
    (hl : ∀ r, k.Live r → (k.desc r).id = d → k'.Live r) (h : k.OwnerLive d p) :
    k'.OwnerLive d p := by
  obtain ⟨r, hr, hlr, hid, hpath⟩ := h
  have hl' := hl r hlr hid
  exact ⟨r, hk'.lt_next hl', hl', (hn r hr).1.trans hid, (hn r hr).2.trans hpath⟩

theorem releaseDescription_locks {r : Nat} (hr : (k.desc r).refCount ≤ 0) :
    (k.releaseDescription r).locks = k.locks.releaseByDescription (k.desc r).id := by
  have hpty : ∀ (k : KernelImpl) d, (k.closePty d).locks = k.locks := fun k d => by
    unfold closePty
    split <;> rfl
  have hpipe : ∀ d, (k.closePipe d).locks = k.locks := fun d => by
    unfold closePipe
    split <;> rfl
  rw [releaseDescription, if_pos hr, releaseLock]
  dsimp only
  rw [hpty, hpipe]

/-- A descriptor of `r` is gone: the locks go with the last one. -/
theorem OwnersOk.dropped {k₁ : KernelImpl} {r : Nat} (h : OwnersOk k) (hk' : KernelOk k')
    (hn : Keeps k k₁) (hm : SameManagers k k₁) (hr : k.Live r)
    (hl : ∀ x, x ≠ r → (k₁.Live x ↔ k.Live x)) (hc : (k₁.desc r).refCount = k₁.fds.refs r)
    (he : k' = k₁.releaseDescription r)
    (hnames : ∀ x < k.fds.descs.next,
      (k'.desc x).id = (k.desc x).id ∧ (k'.desc x).path = (k.desc x).path) :
    Owned k'.locks.mgr k'.OwnerLive := by
  rcases dropped_cases hr hl hc with ⟨hsame, hlive⟩ | ⟨hdead, hlive⟩
  · rw [← he] at hsame
    subst hsame
    rw [hm.locks]
    exact h.owned.mono fun d p ho _ => ho.of_live hk' hnames fun x hx _ => (hlive x).mpr hx
  · have hlocks := releaseDescription_locks hdead
    rw [← he, hm.locks, (hn.names r (h.kernel.lt_next hr)).1] at hlocks
    rw [hlocks]
    refine (h.owned.release (k.desc r).id).mono fun d p ho _ =>
      ho.1.of_live hk' hnames fun x hx hid => he ▸ (hlive x).mpr ⟨hx, ?_⟩
    rintro rfl
    exact ho.2 hid.symm

/-! ### Process exit -/

/-- The loop of `cleanupProcessFDs` releases what is filed as a lock and is dead. -/
theorem Owned.foldl_closeManaged :
    ∀ (l : List (Nat × ManagedKind)) (k : KernelImpl) (owner : Nat → String → Prop),
      Owned k.locks.mgr owner →
      Owned (l.foldl (fun k m => k.closeManaged m.1 m.2) k).locks.mgr fun d p => owner d p ∧
        ∀ r, (r, .lock) ∈ l → (k.desc r).refCount ≤ 0 → (k.desc r).id ≠ d := by
  intro l
  induction l with
  | nil => exact fun k owner h => h.mono fun d p ho _ => ⟨ho, fun _ hr => by cases hr⟩
  | cons m l ih =>
      intro k owner h
      obtain ⟨r, kind⟩ := m
      obtain ⟨hf, -⟩ := closeManaged_fds k r kind
      have hdesc : ∀ x, (k.closeManaged r kind).desc x = k.desc x := fun x => by
        rw [desc, hf, desc]
      have hstep : Owned (k.closeManaged r kind).locks.mgr fun d p => owner d p ∧
          (kind = .lock → (k.desc r).refCount ≤ 0 → (k.desc r).id ≠ d) := by
        unfold closeManaged
        split
        · cases kind with
          | pipe => exact h.mono fun d p ho _ => ⟨ho, fun hk => by cases hk⟩
          | pty => exact h.mono fun d p ho _ => ⟨ho, fun hk => by cases hk⟩
          | lock => exact (h.release _).mono fun d p ho _ => ⟨ho.1, fun _ _ => Ne.symm ho.2⟩
        · rename_i hpos
          exact h.mono fun d p ho _ => ⟨ho, fun _ hd => absurd hd hpos⟩
      rw [List.foldl_cons]
      refine (ih _ _ hstep).mono fun d p ho _ => ⟨ho.1.1, fun x hx hdead => ?_⟩
      rcases List.mem_cons.mp hx with he | hx
      · obtain ⟨rfl, rfl⟩ := Prod.mk.inj he
        exact ho.1.2 rfl hdead
      · rw [← hdesc x] at hdead ⊢
        exact ho.2 x hx hdead

theorem OwnersOk.exited {k₀ : KernelImpl} {pid : Nat} (h : OwnersOk k) (hs : SameCore k k₀)
    (hk' : KernelOk (k₀.cleanupProcessFDs pid)) (ho : k.ExitOwned pid)
    (hnames : ∀ r < k.fds.descs.next, ((k₀.cleanupProcessFDs pid).desc r).id = (k.desc r).id ∧
      ((k₀.cleanupProcessFDs pid).desc r).path = (k.desc r).path) :
    Owned (k₀.cleanupProcessFDs pid).locks.mgr (k₀.cleanupProcessFDs pid).OwnerLive := by
  have howned : Owned k₀.locks.mgr fun d p => k.OwnerLive d p ∧ k.locks.mgr.hasLock d = true := by
    rw [hs.locks]
    refine h.owned.mono fun d p ho hn => ⟨ho, ?_⟩
    rw [hasLock, hn]
    rfl
  obtain ⟨hfds, -⟩ := cleanupProcessFDs_fds k₀ pid
  have hlive : ∀ r, (k₀.cleanupProcessFDs pid).Live r ↔ 0 < (k.fds.remove pid).refs r :=
    fun r => by rw [Live, hfds, hs.fds]
  cases hg : k.fds.get pid with
  | none =>
      have hsame : k₀.cleanupProcessFDs pid = k₀ := by rw [cleanupProcessFDs, hs.fds, hg]
      have hrem : k.fds.remove pid = k.fds := by rw [FDTableManager.remove, hg]
      rw [hrem] at hlive
      refine hsame.symm ▸ howned.mono fun d p ho _ => ?_
      exact ho.1.of_live (hsame ▸ hk') (hsame ▸ hnames) fun r hr _ => hsame ▸ (hlive r).mpr hr
  | some t =>
      have hrefs := FDTableManager.refs_remove hg
      have hcl : k₀.cleanupProcessFDs pid = (k₀.managedDescs t).foldl
          (fun k m => k.closeManaged m.1 m.2) { k₀ with fds := k₀.fds.remove pid } := by
        rw [cleanupProcessFDs, hs.fds, hg]
      have hfold := Owned.foldl_closeManaged (k₀.managedDescs t)
        { k₀ with fds := k₀.fds.remove pid } _ howned
      rw [← hcl] at hfold
      refine hfold.mono fun d p hown _ => ?_
      obtain ⟨⟨hlo, hlock⟩, hreleased⟩ := hown
      refine hlo.of_live hk' hnames fun r hr hid => (hlive r).mpr ?_
      by_contra hdead
      have hlast := hrefs r
      have htr : 0 < t.refs r := by
        rw [Live] at hr
        omega
      have hdesc : ({ k₀ with fds := k₀.fds.remove pid } : KernelImpl).desc r =
          (k₀.cleanupProcessFDs pid).desc r := by rw [desc, desc, hfds]
      have hcount : ((k₀.cleanupProcessFDs pid).desc r).refCount ≤ 0 := by
        rw [desc, hk'.fds.counts, hfds, hs.fds]
        omega
      -- the description is filed as a lock
      have hkind : k₀.managedKind (k₀.desc r).id = some .lock := by
        obtain ⟨e, he, rfl⟩ := (ProcessFDTable.refs_pos_iff t r).mp htr
        have hsame : k₀.desc e.description = k.desc e.description := by rw [desc, hs.fds, desc]
        have hneither : ¬ (k.pipes.isPipe (k.desc e.description).id ||
            k.ptys.isPty (k.desc e.description).id) = true := fun hend => by
          have hno := ho t hg e he hend (by omega)
          rw [hid, hlock] at hno
          cases hno
        rw [Bool.or_eq_true, not_or] at hneither
        rw [managedKind, hsame, hs.pipes, hs.ptys, hs.locks, if_neg hneither.1, if_neg hneither.2,
          hid, if_pos hlock]
      have hne := hreleased r (mem_managedDescs.mpr ⟨htr, hkind⟩) (hdesc ▸ hcount)
      rw [hdesc, (hnames r (h.kernel.lt_next hr)).1] at hne
      exact hne hid

/-! ### Every call -/

theorem OwnersOk.step (h : OwnersOk k) (ha : ofProcess a = true) (hkept : k.LocksKept a)
    (hs : k.step a = some k') : OwnersOk k' := by
  obtain ⟨hk', heff⟩ := step_effect h.kernel ha hs
  have hu := heff.unique h.kernel hkept.1 h.unique
  have hnames : ∀ r < k.fds.descs.next,
      (k'.desc r).id = (k.desc r).id ∧ (k'.desc r).path = (k.desc r).path := fun r => heff.names
  have hmore : k'.locks = k.locks → (∀ r, k.Live r → k'.Live r) →
      Owned k'.locks.mgr k'.OwnerLive := fun hl hlive =>
    hl ▸ h.owned.mono fun d p ho _ => ho.of_live hk' hnames fun r hr _ => hlive r hr
  refine ⟨hk', hu, ?_⟩
  cases heff with
  | quiet hq => exact hmore hq.managers.locks fun r => (hq.live r).mpr
  | opened n _ hm hl _ => exact hmore hm.locks fun r hr => (hl r).mpr (.inl hr)
  | paired k₁ _ _ hp _ hm hl _ =>
      refine hmore (hm.locks.trans ?_) fun r hr => (hl r).mpr (.inl hr)
      rcases hp with ⟨rfl, -⟩ | ⟨rfl, -⟩ <;> rfl
  | dropped k₁ r hn hm hr hl hc he => exact h.dropped hk' hn hm hr hl hc he hnames
  | exited k₀ pid hexit hcore he =>
      subst he hexit
      exact h.exited hcore hk' hkept.2 hnames
  | locked r op hr he =>
      subst he
      have howner : k.OwnerLive (k.desc r).id (k.desc r).path :=
        ⟨r, h.kernel.lt_next hr, hr, rfl, rfl⟩
      show Owned (k.locks.flock (k.desc r).path (k.desc r).id op).2.mgr k.OwnerLive
      rw [LockState.flock, afterTurn_mgr, FileLockManager.flock]
      split
      · exact (h.owned.unlock _ _).1
      · exact h.owned.turn (flockTurn_spec h.owned.mgr _ _ _ _)
          fun _ _ _ => ⟨howner, fun p hp => h.unique.owner hp howner⟩
  | resumed w c out l hresume hr he =>
      subst he hresume
      obtain ⟨hc, hset, -, hl⟩ := resume_cases hr
      have hwait := h.owned.afterWait c.path c.state hset
      show Owned l.mgr k.OwnerLive
      rw [← hl, afterTurn_mgr]
      refine hwait.turn (flockTurn_spec hwait.mgr _ _ _ _) fun t ht hfree => ?_
      have howner := hkept.2 c hc t ht hfree
      exact ⟨howner, fun p hp => h.unique.owner hp howner⟩

/-- Every lock is held by a description that still has a descriptor. -/
def NoStaleOwner (k : KernelImpl) : Prop :=
  ∀ p, ∀ e ∈ k.locks.mgr.heldAt p, ∃ r < k.fds.descs.next,
    (k.desc r).id = e.descriptionId ∧ (k.desc r).path = p ∧ 0 < (k.desc r).refCount

/-- No call of `flock` that waits can run on. -/
def LocksQuiescent (k : KernelImpl) : Prop :=
  ∀ h c, k.locks.calls h = some c → k.locks.mgr.waits.settled h = false

theorem OwnersOk.noStaleOwner (h : OwnersOk k) : k.NoStaleOwner := by
  intro p e he
  obtain ⟨r, hr, hl, hid, hpath⟩ := h.owned.owner p e he
  refine ⟨r, hr, hid, hpath, ?_⟩
  rw [desc, h.kernel.fds.counts]
  exact Int.natCast_pos.mpr hl

end KernelImpl

open KernelImpl

/-- **No stale lock owner**: in every run of processes' calls that meet the condition, a lock is
held by a description that still has a descriptor. -/
theorem noStaleOwner_of_locksKept {mounted : List (String × List String)} {max : Option Nat}
    {k : KernelImpl}
    (h : Reach step (fun k a => ofProcess a = true ∧ k.LocksKept a) (boot mounted max) k) :
    k.NoStaleOwner :=
  (h.invariant (OwnersOk.boot mounted max) fun _ _ _ hi hc hs => hi.step hc.1 hc.2 hs).noStaleOwner

/-- Two descriptions of a file; the second waits for the lock of the first, which is closed. -/
def lockTwice : List Syscall :=
  [.spawn "sh" ⟨none, none, none⟩ answered, .fdOpen "sh" 1 "/f" 0 none (.ok false),
    .fdOpen "sh" 1 "/f" 0 none (.ok false), .flock "sh" 1 3 LOCK_EX, .flock "sh" 1 4 LOCK_EX]

/-- The waiting description gets the lock when the first is closed. -/
theorem noStaleOwner_of_locksKept_handover :
    ∃ k, Reach step (fun k a => ofProcess a = true ∧ k.LocksKept a)
      (boot [("sh", ["sh"])] none) k ∧ k.locks.mgr.heldAt "/f" = [⟨5, .ex⟩] ∧ k.NoStaleOwner :=
  (Reach.exists_of_execIf step _ (boot [("sh", ["sh"])] none)
    (lockTwice ++ [.fdClose "sh" 1 3, .resume 0]) (by decide +kernel)).imp fun _ h =>
      ⟨h.1, h.2, noStaleOwner_of_locksKept h.1⟩

/-- The waiting description is closed before the lock is free: it is granted the lock after that,
and nobody is left to release it. -/
theorem staleOwner_fails :
    ¬ ∀ mounted max k, Reach step (fun _ a => ofProcess a = true) (boot mounted max) k →
      k.LocksQuiescent → k.NoStaleOwner := by
  intro hall
  have hrun : (execIf step (fun _ a => ofProcess a = true)
      (boot [("sh", ["sh"])] none)
      (lockTwice ++ [.fdClose "sh" 1 4, .fdClose "sh" 1 3, .resume 0])).map
      (fun k => (k.locks.mgr.heldAt "/f",
        (List.range k.fds.descs.next).all fun r => (k.desc r).id != 5 || (k.desc r).refCount == 0)) =
        some ([⟨5, .ex⟩], true) := by decide +kernel
  obtain ⟨k, hk, hv⟩ := Option.map_eq_some_iff.mp hrun
  obtain ⟨hheld, hdead⟩ := Prod.mk.inj hv
  have hcalls : some k.locks.calls = some (update
      (update (fun _ => none) 0 (some ⟨"/f", 5, LOCK_EX, 0⟩)) 0 none) := by
    rw [← Option.map_some (f := fun k : KernelImpl => k.locks.calls), ← hk]
    rfl
  have hq : k.LocksQuiescent := by
    intro h c hc
    rw [Option.some.inj hcalls, update_idem, update_apply] at hc
    split at hc <;> cases hc
  obtain ⟨r, hr, hid, -, hpos⟩ := hall _ none k (.of_execIf hk) hq "/f" ⟨5, .ex⟩
    (by rw [hheld]; exact List.mem_singleton_self _)
  have hr := List.all_eq_true.mp hdead r (List.mem_range.mpr hr)
  simp only [hid, bne_self_eq_false, Bool.false_or, beq_iff_eq] at hr
  rw [hr] at hpos
  exact Int.lt_irrefl 0 hpos

end SecureExec.Kernel
