import SecureExec.Kernel.RefCount

/-!
# Kernel — SpawnTrace — what a `spawn` that throws leaves behind

A spawn is refused before anything is allocated when the kernel is disposed, the caller is not the
driver's, no driver has the command, the permission is denied or the process limit is reached
(`refused`); then nothing changes that a process could see (`SameTrace`).  When the driver's own
`spawn` throws, the child's descriptor table and what it holds stay: the exit path that would remove
them is only set up once the process is registered.  `openShell` makes the table of its controller
and a PTY before it spawns, so it leaves them whatever the reason.
-/

namespace SecureExec.Kernel
open SecureExec Lts Prog

namespace KernelImpl

variable {k k' : KernelImpl} {a : Syscall} {pid : Nat}

/-! ### The invariant of every kernel, for the calls of the host too -/

theorem KernelOk.closeSlave (hk : KernelOk k) (controllerPid slaveFd : Nat) :
    KernelOk (k.closeSlave controllerPid slaveFd) := by
  unfold KernelImpl.closeSlave
  split
  · exact hk
  · have hc := hk.closeFd controllerPid slaveFd
    dsimp only
    split
    · exact ⟨hc.fds, hc.pids, hc.ends⟩
    · exact hc

/-- The controller's table. -/
theorem KernelOk.controller (hk : KernelOk k) :
    KernelOk { k with nextPid := k.nextPid + 1, fds := k.fds.create k.nextPid } := by
  obtain ⟨hg, hother⟩ := FDTableManager.create_grows (m := k.fds) hk.get_nextPid
  refine ⟨hg.ok hk.fds, fun pid t ht => ?_, fun r hr => hk.ends r ?_⟩
  · by_cases hp : pid = k.nextPid
    · exact hp ▸ Nat.lt_succ_self _
    · exact Nat.lt_succ_of_lt (hk.pids pid t (hother pid hp ▸ ht))
  · exact Nat.le_trans (Nat.le_add_right _ 3) (hg.next ▸ hr)

variable {E : Failure → KernelImpl → Prop} {Q : Unit → KernelImpl → Prop}

theorem setOwnPgid_wp
    (hQ : ∀ p, Q () { k with processes := p }) (hE : ∀ e, E e k) : (setOwnPgid pid).wp k Q E := by
  simp only [setOwnPgid, wp_bind, wp_read]
  split
  · exact hE _
  · exact hQ _

theorem onPtys_wp {f : PtyManager → Except Failure PtyManager} (hQ : ∀ m, Q () { k with ptys := m })
    (hE : ∀ e, E e k) : (onPtys f).wp k Q E := by
  simp only [onPtys, wp_bind, wp_read]
  cases f k.ptys with
  | error e => exact hE e
  | ok m => exact hQ m

theorem createPtyFDs_wp (hk : KernelOk k) :
    (createPtyFDs pid).wp k (fun _ k' => KernelOk k') fun _ k' => KernelOk k' := by
  simp only [createPtyFDs, wp_bind, wp_read, wp_update]
  refine wp_mono (openPair_wp (createPty_ok hk) (Nat.lt_succ_self _)) (fun _ k' h => h.1)
    fun _ k' h => ?_
  obtain ⟨_, _, h⟩ := h
  exact h.1

theorem openShell_wp (hk : KernelOk k) (command : String) (ans : SpawnAnswers) :
    (openShell command ans).wp k (fun _ k' => KernelOk k') fun _ k' => KernelOk k' := by
  simp only [openShell, assertNotDisposed, wp_bind, wp_read]
  split
  · exact hk
  · simp only [wp_pure, wp_update]
    refine wp_mono (createPtyFDs_wp hk.controller) (fun fds k₁ hk₁ => ?_) fun _ _ h => h
    refine getEntry_wp (fun t e _ _ => ?_) fun _ => hk₁
    refine wp_mono (spawnInternal_wp hk₁ command _ _ ans) (fun pid k₂ h₂ => ?_) fun _ _ h => h.1
    have hk₂ := h₂.1
    have hk₃ : ∀ (p : OMap Nat ProcessEntry) (m : PtyManager),
        KernelOk { k₂ with processes := p, ptys := m } :=
      fun p m => ⟨hk₂.fds, hk₂.pids, hk₂.ends⟩
    refine setOwnPgid_wp (fun p => ?_) fun _ => hk₂
    refine onPtys_wp (fun m => ?_) fun _ => hk₃ p _
    refine onPtys_wp (fun m => ?_) fun _ => hk₃ p _
    have hk₄ := (hk₃ p m).closeSlave k.nextPid fds.2
    exact ⟨hk₄.fds, hk₄.pids, hk₄.ends⟩

/-- Every call keeps what holds of every kernel. -/
theorem KernelOk.step (hk : KernelOk k) (hs : k.step a = some k') : KernelOk k' := by
  by_cases ha : ofProcess a = true
  · exact (step_effect hk ha hs).1
  · cases a with
    | openShell command ans =>
        exact step_of_wp (P := fun _ => KernelOk) (by simp)
          (wp_map.mpr (openShell_wp hk command ans)) hs
    | shellDone pid =>
        cases hs
        show KernelOk (k.shellDone pid)
        unfold shellDone
        split
        · exact hk
        · have hc := cleanupProcessFDs_ok hk ‹Nat›
          exact ⟨hc.fds, hc.pids, hc.ends⟩
    | _ => exact absurd rfl ha

/-! ### Tables stay -/

/-- The process has a descriptor table. -/
def HasTable (k : KernelImpl) (pid : Nat) : Prop := ∃ t, k.fds.get pid = some t

section

variable (h : k.HasTable pid)
include h

theorem HasTable.setTable {s : Descs × ProcessFDTable} {pid' : Nat} :
    HasTable { k with fds := k.fds.setTable pid' s } pid := by
  obtain ⟨t, ht⟩ := h
  rw [HasTable, get_setTable]
  split
  · exact ⟨_, rfl⟩
  · exact ⟨t, ht⟩

omit h in
theorem hasTable_setTable (k : KernelImpl) (pid : Nat) (s : Descs × ProcessFDTable) :
    HasTable { k with fds := k.fds.setTable pid s } pid :=
  ⟨s.2, by rw [get_setTable, if_pos rfl]⟩

theorem HasTable.withTable (pid' : Nat) (f : Descs → ProcessFDTable → Descs × ProcessFDTable) :
    (k.withTable pid' f).HasTable pid := by
  unfold KernelImpl.withTable
  split
  · exact h
  · exact h.setTable

theorem HasTable.applyStdioOverride (child : Nat) (ct : ProcessFDTable)
    (target : Nat) (override : Option Nat) :
    (k.applyStdioOverride child ct target override).HasTable pid := by
  unfold KernelImpl.applyStdioOverride
  cases override with
  | none => exact h
  | some fd =>
      dsimp only
      split
      · exact h
      · cases ct.get fd with
        | none => exact h
        | some e =>
            refine HasTable.withTable ?_ child _
            cases (k.fds.get child).bind (·.get target) with
            | none => exact h.withTable child _
            | some x =>
                rw [HasTable, (releaseDescription_fds _ _).1]
                exact h.withTable child _

theorem HasTable.closeCounterparts (child : Nat) : (k.closeCounterparts child).HasTable pid := by
  unfold KernelImpl.closeCounterparts
  split
  · exact h
  · rename_i t ht
    generalize k.counterparts t = l
    clear ht
    induction l generalizing k with
    | nil => exact h
    | cons fd l ih => exact ih (h.withTable child _)

end

variable (k)

/-- The child has a table, and nobody loses one. -/
theorem hasTable_createChildFDTable (child : Nat) (o : SpawnOptions)
    (callerPid : Option Nat) (h : k.HasTable pid ∨ pid = child) :
    (k.createChildFDTable child o callerPid).HasTable pid := by
  have hset : ∀ s, HasTable { k with fds := k.fds.setTable child s } pid := fun s => by
    rcases h with h | rfl
    · exact h.setTable
    · exact hasTable_setTable k pid s
  unfold createChildFDTable
  split
  · -- `create` sets the table after it has made the three descriptions
    have hget : ∀ (m : FDTableManager) s, m.tables = k.fds.tables →
        HasTable { k with fds := m.setTable child s } pid := fun m s hm => by
      obtain ⟨t, ht⟩ := hset s
      refine ⟨t, ?_⟩
      rw [get_setTable] at ht ⊢
      rw [← ht, FDTableManager.get, hm, FDTableManager.get]
    exact hget _ _ rfl
  · rename_i ct _
    have hfork : HasTable { k with fds := k.fds.fork ct child } pid := hset _
    dsimp only
    split
    · exact (((hfork.applyStdioOverride child ct 0 _).applyStdioOverride child ct 1
        _).applyStdioOverride child ct 2 _).closeCounterparts child
    · exact hfork

theorem hasTable_prepareChild (driver : String) (o : SpawnOptions)
    (callerPid : Option Nat) (h : k.HasTable pid ∨ pid = k.nextPid) :
    (k.prepareChild driver o callerPid).HasTable pid := by
  refine hasTable_createChildFDTable _ _ o callerPid (h.imp_left fun h => ?_)
  rw [HasTable, (recordOwners_core _ _ _ _).1.fds]
  exact h

/-! ### Refusals -/

/-- The first driver that resolves an unknown command. -/
def firstResolving (ans : SpawnAnswers) : List String → Except Failure (Option String)
  | [] => .ok none
  | d :: ds =>
    match ans.tryResolve d with
    | .error e => .error e
    | .ok true => .ok (some d)
    | .ok false => firstResolving ans ds

/-- The driver a command runs on. -/
def driverOf (k : KernelImpl) (command : String) (ans : SpawnAnswers) :
    Except Failure (Option String) :=
  match k.resolve command with
  | some d => .ok (some d)
  | none => if basename command ≠ "" then firstResolving ans k.drivers else .ok none

/-- The command is refused: no driver has it, the permission is denied, or the limit is reached. -/
def refuses (k : KernelImpl) (command : String) (ans : SpawnAnswers) : Bool :=
  match k.driverOf command ans with
  | .error _ => true
  | .ok none => true
  | .ok (some _) =>
    match checkChildProcess command ans with
    | .error _ => true
    | .ok _ => k.overBudget

/-- The calls that start a process. -/
def isSpawn : Syscall → Bool
  | .spawn .. => true
  | .spawnFrom .. => true
  | .openShell .. => true
  | _ => false

/-- The call is refused before anything is allocated. -/
def refused (k : KernelImpl) : Syscall → Bool
  | .spawn command _ ans => k.disposed || k.refuses command ans
  | .spawnFrom driver command ppid _ ans =>
    (ppid != 0 && !k.owns driver ppid) || k.refuses command ans
  | .openShell .. => k.disposed
  | _ => false

/-- Only the command registry has changed. -/
def OnlyCommands (k k' : KernelImpl) : Prop := ∃ c, k' = { k with commands := c }

theorem OnlyCommands.refl : OnlyCommands k k := ⟨k.commands, rfl⟩

variable {k}

theorem discover_spec (name : String) (ans : SpawnAnswers) : ∀ (l : List String) (k : KernelImpl),
    (discover name ans l).wp k
      (fun d k' => firstResolving ans l = .ok d ∧ OnlyCommands k k')
      fun e k' => firstResolving ans l = .error e ∧ OnlyCommands k k' := by
  intro l
  induction l with
  | nil => exact fun k => ⟨rfl, .refl k⟩
  | cons d l ih =>
      intro k
      rw [discover, wp_bind]
      cases ht : ans.tryResolve d with
      | error e => exact ⟨by rw [firstResolving, ht], .refl k⟩
      | ok found =>
          rw [wp_lift_ok]
          cases found with
          | true => exact ⟨by rw [firstResolving, ht], _, rfl⟩
          | false =>
              rw [firstResolving, ht]
              exact ih k

variable (command : String) (ans : SpawnAnswers)

theorem resolveDriver_spec (k : KernelImpl) :
    (resolveDriver command ans).wp k
      (fun d k' => k.driverOf command ans = .ok d ∧ OnlyCommands k k')
      fun e k' => k.driverOf command ans = .error e ∧ OnlyCommands k k' := by
  simp only [resolveDriver, wp_bind, wp_read]
  cases hr : k.resolve command with
  | some d => exact ⟨by rw [driverOf, hr], .refl k⟩
  | none =>
      have hd : k.driverOf command ans =
          if basename command ≠ "" then firstResolving ans k.drivers else .ok none := by
        rw [driverOf, hr]
      by_cases hb : basename command ≠ ""
      · rw [if_pos hb] at hd
        simp only [hd, if_pos hb, wp_bind, wp_read]
        exact discover_spec _ ans _ k
      · rw [if_neg hb] at hd
        simp only [hd, if_neg hb]
        exact ⟨rfl, .refl k⟩

/-- What comes before the PID is allocated. -/
theorem selectDriver_spec (k : KernelImpl) :
    (selectDriver command ans).wp k
      (fun _ k' => k.refuses command ans = false ∧ OnlyCommands k k')
      fun _ k' => k.refuses command ans = true ∧ OnlyCommands k k' := by
  rw [selectDriver, wp_bind]
  refine wp_mono (resolveDriver_spec command ans k) (fun d k₁ h => ?_) fun e k₁ h =>
    ⟨by rw [refuses, h.1], h.2⟩
  obtain ⟨hd, c, rfl⟩ := h
  cases d with
  | none => exact ⟨by rw [refuses, hd], c, rfl⟩
  | some d =>
      rw [wp_bind]
      cases hc : checkChildProcess command ans with
      | error e => exact ⟨by simp only [refuses, hd, hc], c, rfl⟩
      | ok _ =>
          have hr : k.refuses command ans = k.overBudget := by simp only [refuses, hd, hc]
          simp only [wp_lift_ok, wp_bind, wp_read, hr]
          split
          · rename_i hover
            exact ⟨hover, c, rfl⟩
          · rename_i hover
            exact ⟨Bool.eq_false_iff.mpr hover, c, rfl⟩

/-! ### What is left -/

/-- A spawn that throws has changed nothing but the registry, or has left the child's table. -/
theorem spawnInternal_left (o : SpawnOptions) (callerPid : Option Nat)
    (ans : SpawnAnswers) (k : KernelImpl) :
    (spawnInternal command o callerPid ans).wp k (fun _ _ => True)
      fun _ k' => (k.refuses command ans = true ∧ OnlyCommands k k') ∨
        (k.refuses command ans = false ∧ k'.HasTable k.nextPid) := by
  rw [spawnInternal, wp_bind]
  refine wp_mono (selectDriver_spec command ans k) (fun driver k₁ h => ?_) fun _ _ h => .inl h
  obtain ⟨hr, c, rfl⟩ := h
  simp only [wp_bind, wp_read, wp_update]
  cases ans.driverSpawn with
  | error e => exact .inr ⟨hr, hasTable_prepareChild _ _ _ _ (.inr rfl)⟩
  | ok _ => trivial

/-- Nobody loses a table to a spawn. -/
theorem spawnInternal_tables (o : SpawnOptions) (callerPid : Option Nat)
    (ans : SpawnAnswers) (h : k.HasTable pid) :
    (spawnInternal command o callerPid ans).wp k (fun _ k' => k'.HasTable pid)
      fun _ k' => k'.HasTable pid := by
  rw [spawnInternal, wp_bind]
  refine wp_mono (selectDriver_spec command ans k) (fun driver k₁ hs => ?_) fun _ k₁ hs => ?_
  · obtain ⟨-, c, rfl⟩ := hs
    have hp : HasTable (({ k with commands := c } : KernelImpl).prepareChild driver o callerPid)
      pid := hasTable_prepareChild _ _ _ _ (.inl h)
    simp only [wp_bind, wp_read, wp_update]
    cases ans.driverSpawn with
    | error e => exact hp
    | ok _ => exact hp
  · obtain ⟨-, c, rfl⟩ := hs
    exact h

theorem onTable_tables {α : Type} {pid' : Nat}
    {f : Descs → ProcessFDTable → Except Failure (α × Descs × ProcessFDTable)}
    (h : k.HasTable pid) :
    (onTable pid' f).wp k (fun _ k' => k'.HasTable pid) fun _ k' => k'.HasTable pid :=
  onTable_wp (fun _ _ _ _ _ => h.setTable) fun _ => h

theorem openPair_tables {pid' r filetype : Nat} (h : k.HasTable pid) :
    (openPair pid' r filetype).wp k (fun _ k' => k'.HasTable pid) fun _ k' => k'.HasTable pid := by
  rw [openPair, wp_bind]
  refine wp_mono (onTable_tables h) (fun _ k₁ h₁ => ?_) fun _ _ h => h
  rw [wp_bind]
  exact wp_mono (onTable_tables h₁) (fun _ _ h => h) fun _ _ h => h

/-- A shell that could not be opened has left the table of its controller. -/
theorem openShell_left (k : KernelImpl) :
    (openShell command ans).wp k (fun _ _ => True)
      fun _ k' => (k.disposed = true ∧ OnlyCommands k k') ∨
        (k.disposed = false ∧ k'.HasTable k.nextPid) := by
  simp only [openShell, assertNotDisposed, wp_bind, wp_read]
  split
  · rename_i hd
    exact .inl ⟨hd, .refl k⟩
  · rename_i hd
    have hd := Bool.eq_false_iff.mpr hd
    have hleft : ∀ k' : KernelImpl, k'.HasTable k.nextPid →
        (k.disposed = true ∧ OnlyCommands k k') ∨ (k.disposed = false ∧ k'.HasTable k.nextPid) :=
      fun k' h => .inr ⟨hd, h⟩
    have hcontroller : HasTable (createPty
        { k with nextPid := k.nextPid + 1, fds := k.fds.create k.nextPid }) k.nextPid :=
      ⟨_, OMap.get_set_self _ _ _⟩
    simp only [wp_pure, wp_update, createPtyFDs, wp_bind, wp_read]
    refine wp_mono (openPair_tables hcontroller) (fun fds k₁ h₁ => ?_)
      fun _ _ => hleft _
    refine getEntry_wp (fun t e _ _ => ?_) fun _ => hleft _ h₁
    refine wp_mono (spawnInternal_tables command _ _ ans h₁) (fun pid k₂ h₂ => ?_)
      fun _ _ => hleft _
    refine setOwnPgid_wp (fun _ => ?_) fun _ => hleft _ h₂
    refine onPtys_wp (fun _ => ?_) fun _ => hleft _ h₂
    exact onPtys_wp (fun _ => trivial) fun _ => hleft _ h₂

/-- What a call that starts a process leaves when it throws. -/
theorem spawn_left (ha : isSpawn a = true) (k : KernelImpl) :
    (perform a).wp k (fun _ _ => True)
      fun _ k' => (k.refused a = true ∧ OnlyCommands k k') ∨
        (k.refused a = false ∧ k'.HasTable k.nextPid) := by
  cases a with
  | spawn command o ans =>
      refine wp_map.mpr ?_
      simp only [spawn, assertNotDisposed, wp_bind, wp_read, refused]
      split
      · rename_i hd
        exact .inl ⟨by rw [hd]; rfl, .refl k⟩
      · rename_i hd
        rw [Bool.eq_false_iff.mpr hd]
        exact spawnInternal_left command o none ans k
  | spawnFrom driver command ppid o ans =>
      refine wp_map.mpr ?_
      have hleft := spawnInternal_left command o (some ppid) ans k
      unfold spawnFrom
      split
      · rename_i hp
        rw [show k.refused (.spawnFrom driver command ppid o ans) = k.refuses command ans by
          simp [refused, hp]]
        exact hleft
      · rename_i hp
        simp only [assertOwns, wp_bind, wp_read]
        cases ho : k.owns driver ppid with
        | true =>
            rw [show k.refused (.spawnFrom driver command ppid o ans) = k.refuses command ans by
              simp [refused, ho]]
            exact hleft
        | false =>
            have hr : k.refused (.spawnFrom driver command ppid o ans) = true := by
              simp [refused, ho, hp]
            rw [hr]
            simp only [Bool.false_eq_true, if_false]
            split
            · exact .inl ⟨trivial, .refl k⟩
            · exact .inl ⟨trivial, .refl k⟩
  | openShell command ans => exact wp_map.mpr (openShell_left command ans k)
  | _ => cases ha

/-- Nothing of the call can be seen: the tables, the counts, the pipes, the terminals and the owned
PIDs are the same. -/
structure SameTrace (k k' : KernelImpl) : Prop where
  tables : ∀ pid, k'.HasTable pid ↔ k.HasTable pid
  counts : ∀ r < k.fds.descs.next, (k'.desc r).refCount = (k.desc r).refCount
  pipes : k'.pipes.pipes = k.pipes.pipes
  ptys : k'.ptys.ptys = k.ptys.ptys
  owned : ∀ driver pid, k'.owns driver pid = k.owns driver pid

theorem OnlyCommands.sameTrace (h : OnlyCommands k k') : SameTrace k k' := by
  obtain ⟨c, rfl⟩ := h
  exact ⟨fun _ => Iff.rfl, fun _ _ => rfl, rfl, rfl, fun _ _ => rfl⟩

end KernelImpl

open KernelImpl

/-- **A spawn that throws** leaves no trace exactly when it was refused before anything was
allocated. -/
theorem sameTrace_iff_refused {mounted : List (String × List String)} {max : Option Nat}
    {k k' : KernelImpl} {a : Syscall} (h : Reach KernelImpl.step Any (boot mounted max) k)
    (ha : isSpawn a = true) (ht : k.throws a = true) (hs : k.step a = some k') :
    SameTrace k k' ↔ k.refused a = true := by
  have hk : KernelOk k := h.invariant (KernelOk.boot mounted max) fun _ _ _ hi _ hs => hi.step hs
  have hne : ∀ w, a ≠ .resume w := by
    rintro w rfl
    cases ha
  have hleft := step_of_wp (P := fun ok k' => ok = false →
      (k.refused a = true ∧ OnlyCommands k k') ∨ (k.refused a = false ∧ k'.HasTable k.nextPid)) hne
    (wp_mono (spawn_left ha k) (fun _ _ _ h => (nomatch h)) fun _ _ h _ => h) hs
    (by rw [ht]; rfl)
  rcases hleft with ⟨hr, hc⟩ | ⟨hr, ht'⟩
  · exact iff_of_true hc.sameTrace hr
  · refine iff_of_false (fun hsame => ?_) (by rw [hr]; decide)
    obtain ⟨t, hg⟩ := (hsame.tables _).mp ht'
    rw [hk.get_nextPid] at hg
    cases hg

/-- An unknown command is refused. -/
theorem sameTrace_iff_refused_unknown :
    ∃ k', (boot [("sh", ["sh"])] none).throws (.spawn "ls" ⟨none, none, none⟩ answered) = true ∧
      (boot [("sh", ["sh"])] none).step (.spawn "ls" ⟨none, none, none⟩ answered) = some k' ∧
      SameTrace (boot [("sh", ["sh"])] none) k' := by
  have ht : (boot [("sh", ["sh"])] none).throws (.spawn "ls" ⟨none, none, none⟩ answered) = true := by
    decide +kernel
  exact ⟨_, ht, rfl, (sameTrace_iff_refused .start rfl ht rfl).mpr (by decide +kernel)⟩

/-- The driver's `spawn` throws: the table of the process that never started stays. -/
theorem sameTrace_fails :
    ¬ ∀ mounted max k k' a, Reach KernelImpl.step Any (boot mounted max) k → isSpawn a = true →
      k.throws a = true → k.step a = some k' → SameTrace k k' := by
  intro hall
  have ht : (boot [("sh", ["sh"])] none).throws (.spawn "sh" ⟨none, none, none⟩
      ⟨fun _ => .ok false, none, .error (.error "worker failed")⟩) = true := by decide +kernel
  have hsame := hall _ none _ _ _ .start rfl ht rfl
  obtain ⟨t, hg⟩ := (hsame.tables 1).mp ⟨_, rfl⟩
  cases hg

end SecureExec.Kernel
