import SecureExec.Kernel.Effects

/-!
# Kernel — StepEffect — processes, and what any call does

A child's table is made from its parent's: until the child runs it holds nothing its parent does
not hold (`ChildOk`), so that preparing it closes nothing.  With process exit, which closes what
the process was the last to hold, this gives the effect of every call (`step_effect`); the
invariants of the managers are derived from it.
-/

namespace SecureExec.Kernel
open SecureExec FDTableManager ProcessFDTable Prog Function

namespace KernelImpl

variable {k k' k'' : KernelImpl} {a : Syscall} {b : Bool} {pid : Nat}

/-! ### The table of a child -/

/-- While the table of a child is prepared: the child holds what its parent holds. -/
structure ChildOk (k : KernelImpl) (caller child : Nat) (ct : ProcessFDTable) (k' : KernelImpl) :
    Prop where
  ok : KernelOk k'
  quiet : Quiet k k'
  pids : k'.nextPid = k.nextPid
  caller : k'.fds.get caller = some ct
  child : ∃ t, k'.fds.get child = some t ∧ ∀ r, 0 < t.refs r → 0 < ct.refs r

section Child

variable {caller child : Nat} {ct : ProcessFDTable}

theorem ChildOk.fork (hk : KernelOk k) (hg : k.fds.get caller = some ct)
    (hn : k.fds.get child = none) (hc : child < k.nextPid) :
    ChildOk k caller child ct { k with fds := k.fds.fork ct child } := by
  have hne : caller ≠ child := fun e => by rw [e, hn] at hg; cases hg
  have hb := Balanced.fork k.fds.descs ct
  have hr : ∀ r, 0 < (ct.fork k.fds.descs).2.refs r → 0 < ct.refs r :=
    fun r => refs_fork k.fds.descs ct
  have hv : ∀ r, k.fds.descs.next ≤ r → (ct.fork k.fds.descs).2.refs r = 0 := fun r h => by
    have h₁ := hk.fds.table_valid hg r h
    have h₂ := hr r
    omega
  refine ⟨⟨hk.fds.addTable hn hb hv, fun pid' t' ht => ?_, fun r h => ?_⟩,
    ⟨.of_counts hb.only, fun r => ?_, ⟨rfl, rfl, rfl, rfl⟩⟩, rfl, ?_, _, ?_, hr⟩
  · rw [FDTableManager.fork, get_setTable] at ht
    split at ht
    · rename_i hp
      exact hp ▸ hc
    · exact hk.pids pid' t' ht
  · exact hk.ends r (hb.only.next ▸ h)
  · have h₁ := FDTableManager.refs_addTable hn (ct.fork k.fds.descs) r
    have h₂ := FDTableManager.refs_le hg r
    have h₃ := hr r
    rw [Live, Live, FDTableManager.fork, h₁]
    omega
  · rw [FDTableManager.fork, get_setTable, if_neg hne]
    exact hg
  · rw [FDTableManager.fork, get_setTable, if_pos rfl]

variable (h : ChildOk k caller child ct k')
include h

variable (hne : caller ≠ child)
include hne

/-- An operation of the child's table after which it still holds what its parent holds. -/
theorem ChildOk.table {t : ProcessFDTable} {s : Descs × ProcessFDTable}
    (ht : k'.fds.get child = some t)
    (htr : ∀ r, 0 < t.refs r → 0 < ct.refs r) (hb : Balanced k'.fds.descs t s)
    (hs : ∀ r, 0 < s.2.refs r → 0 < ct.refs r) :
    ChildOk k caller child ct { k' with fds := k'.fds.setTable child s } := by
  have hcaller : (k'.fds.setTable child s).get caller = some ct := by
    rw [get_setTable, if_neg hne]
    exact h.caller
  have hv : ∀ r, k'.fds.descs.next ≤ r → s.2.refs r = 0 := fun r hr => by
    have h₁ := h.ok.fds.table_valid h.caller r hr
    have h₂ := hs r
    omega
  have hl : ∀ r, ({ k' with fds := k'.fds.setTable child s } : KernelImpl).Live r ↔ k'.Live r := by
    intro r
    have h₁ := refs_setTable ht s r
    have h₂ := refs_le h.caller r
    have h₃ : ct.refs r ≤ (k'.fds.setTable child s).refs r := refs_le hcaller r
    have h₄ := htr r
    have h₅ := hs r
    unfold Live
    dsimp only
    omega
  exact ⟨h.ok.setTable ht hb hv, h.quiet.trans ⟨keeps_setTable hb, hl, ⟨rfl, rfl, rfl, rfl⟩⟩,
    h.pids, hcaller, s.2, by rw [get_setTable, if_pos rfl], hs⟩

theorem ChildOk.close (fd : Nat) :
    ChildOk k caller child ct (k'.withTable child fun d t => close d t fd) := by
  obtain ⟨t, ht, htr⟩ := h.child
  rw [withTable_eq ht]
  refine h.table hne ht htr (.close _ _ _) fun r hr => htr r ?_
  exact Nat.lt_of_lt_of_le hr (refs_close_le _ t fd r)

theorem ChildOk.applyStdioOverride (target : Nat) (override : Option Nat) :
    ChildOk k caller child ct (k'.applyStdioOverride child ct target override) := by
  unfold KernelImpl.applyStdioOverride
  cases override with
  | none => exact h
  | some fd =>
      simp only
      split
      · exact h
      · cases he : ct.get fd with
        | none => exact h
        | some e =>
            obtain ⟨t, ht, htr⟩ := h.child
            have h₁ := h.close hne target
            have hstay : ∀ (x : FDEntry), t.get target = some x →
                (k'.withTable child fun d t => ProcessFDTable.close d t target).releaseDescription
                  x.description =
                k'.withTable child fun d t => ProcessFDTable.close d t target := by
              intro x hx
              refine releaseDescription_live (h₁.ok.fds.counts _) (Nat.lt_of_lt_of_le ?_
                (refs_le h₁.caller _))
              exact htr _ (ProcessFDTable.refs_pos hx)
            have hopen : ChildOk k caller child ct
                ((k'.withTable child fun d t => ProcessFDTable.close d t target).withTable child
                  fun d t => ProcessFDTable.openWithAt d t e.description e.filetype target) := by
              obtain ⟨t₁, ht₁, htr₁⟩ := h₁.child
              have hfree : t₁.get target = none := by
                rw [withTable_eq ht, get_setTable, if_pos rfl] at ht₁
                cases ht₁
                exact ProcessFDTable.get_close_self _ t target
              rw [withTable_eq ht₁]
              refine h₁.table hne ht₁ htr₁ (.openWithAt _ hfree _ _) fun r hr => ?_
              rw [ProcessFDTable.refs_openWithAt _ hfree] at hr
              split at hr
              · rename_i hre
                exact hre ▸ ProcessFDTable.refs_pos he
              · exact htr₁ r hr
            simp only [ht, Option.bind_some]
            cases hx : t.get target with
            | none => exact hopen
            | some x =>
                simp only [hstay x hx]
                exact hopen

theorem ChildOk.closeCounterparts :
    ChildOk k caller child ct (k'.closeCounterparts child) := by
  obtain ⟨t, ht, -⟩ := h.child
  rw [KernelImpl.closeCounterparts, ht]
  simp only
  generalize k'.counterparts t = l
  clear ht
  induction l generalizing k' with
  | nil => exact h
  | cons fd l ih => exact ih (h.close hne fd)

end Child

/-- What making a child's table does. -/
def Spawned (k : KernelImpl) (callerPid : Option Nat) (k' : KernelImpl) : Prop :=
  Quiet k k' ∨ (k.callerTable callerPid = none ∧ Grows k.fds k'.fds 3 ∧ SameManagers k k')

theorem createChildFDTable_spec (hk : KernelOk k) (child : Nat) (o : SpawnOptions)
    (callerPid : Option Nat) (hn : k.fds.get child = none) (hc : child < k.nextPid) :
    KernelOk (k.createChildFDTable child o callerPid) ∧
      (k.createChildFDTable child o callerPid).nextPid = k.nextPid ∧
      Spawned k callerPid (k.createChildFDTable child o callerPid) := by
  unfold createChildFDTable
  cases hct : k.callerTable callerPid with
  | none =>
      obtain ⟨hg, hother⟩ := create_grows (m := k.fds) hn
      refine ⟨⟨hg.ok hk.fds, fun pid' t' ht => ?_, fun r hr => hk.ends r ?_⟩, rfl,
        .inr ⟨hct, hg, ⟨rfl, rfl, rfl, rfl⟩⟩⟩
      · by_cases hp : pid' = child
        · exact hp ▸ hc
        · rw [hother pid' hp] at ht
          exact hk.pids pid' t' ht
      · exact Nat.le_trans (Nat.le_add_right _ 3) (hg.next ▸ hr)
  | some ct =>
      obtain ⟨caller, -, hcaller⟩ : ∃ c, callerPid = some c ∧ k.fds.get c = some ct := by
        cases callerPid with
        | none => cases hct
        | some c =>
            refine ⟨c, rfl, ?_⟩
            simp only [callerTable] at hct
            split at hct
            · cases hct
            · exact hct
      have hne : caller ≠ child := fun e => by rw [e, hn] at hcaller; cases hcaller
      have h := ChildOk.fork hk hcaller hn hc
      simp only
      split
      · have h' := (((h.applyStdioOverride hne 0 o.stdinFd).applyStdioOverride hne 1
          o.stdoutFd).applyStdioOverride hne 2 o.stderrFd).closeCounterparts hne
        exact ⟨h'.ok, h'.pids, .inl h'.quiet⟩
      · exact ⟨h.ok, h.pids, .inl h.quiet⟩

/-! ### Spawning -/

theorem discover_wp {name : String} {ans : SpawnAnswers} : ∀ (l : List String) (k : KernelImpl),
    (discover name ans l).wp k (fun _ k' => SameCore k k' ∧ k'.nextPid = k.nextPid)
      fun _ k' => SameCore k k' ∧ k'.nextPid = k.nextPid := by
  intro l
  induction l with
  | nil => exact fun k => ⟨⟨rfl, rfl, rfl, rfl, rfl⟩, rfl⟩
  | cons d l ih =>
      intro k
      rw [discover, wp_bind]
      cases ans.tryResolve d with
      | error e => exact ⟨⟨rfl, rfl, rfl, rfl, rfl⟩, rfl⟩
      | ok found =>
          simp only [wp_lift_ok]
          split
          · exact ⟨⟨rfl, rfl, rfl, rfl, rfl⟩, rfl⟩
          · exact ih k

/-- What comes before the PID changes no descriptor. -/
theorem selectDriver_wp (command : String) (ans : SpawnAnswers) (k : KernelImpl) :
    (selectDriver command ans).wp k (fun _ k' => SameCore k k' ∧ k'.nextPid = k.nextPid)
      fun _ k' => SameCore k k' ∧ k'.nextPid = k.nextPid := by
  have hsame : SameCore k k ∧ k.nextPid = k.nextPid := ⟨⟨rfl, rfl, rfl, rfl, rfl⟩, rfl⟩
  have hres : (resolveDriver command ans).wp k
      (fun _ k' => SameCore k k' ∧ k'.nextPid = k.nextPid)
      fun _ k' => SameCore k k' ∧ k'.nextPid = k.nextPid := by
    simp only [resolveDriver, wp_bind, wp_read]
    split
    · exact hsame
    · split
      · exact discover_wp _ k
      · exact hsame
  rw [selectDriver, wp_bind]
  refine wp_mono hres (fun d k₁ h₁ => ?_) fun _ _ h => h
  cases d with
  | none => exact h₁
  | some d =>
      rw [wp_bind]
      cases checkChildProcess command ans with
      | error e => exact h₁
      | ok _ =>
          simp only [wp_lift_ok, wp_bind, wp_read]
          split
          · exact h₁
          · exact h₁

theorem recordOwners_core (k : KernelImpl) (driver : String) (pid : Nat)
    (callerPid : Option Nat) : SameCore k (k.recordOwners driver pid callerPid) ∧
      (k.recordOwners driver pid callerPid).nextPid = k.nextPid := by
  unfold recordOwners
  split
  · exact ⟨⟨rfl, rfl, rfl, rfl, rfl⟩, rfl⟩
  · dsimp only
    split
    · exact ⟨⟨rfl, rfl, rfl, rfl, rfl⟩, rfl⟩
    · exact ⟨⟨rfl, rfl, rfl, rfl, rfl⟩, rfl⟩

theorem SameCore.callerTable (h : SameCore k k') (callerPid : Option Nat) :
    k'.callerTable callerPid = k.callerTable callerPid := by
  cases callerPid with
  | none => rfl
  | some c => rw [KernelImpl.callerTable, KernelImpl.callerTable, h.fds]

theorem Spawned.of_core {callerPid : Option Nat} (h : SameCore k k')
    (hs : Spawned k' callerPid k'') : Spawned k callerPid k'' := by
  rcases hs with hq | ⟨hc, hg, hm⟩
  · exact .inl (h.quiet.trans hq)
  · rw [h.callerTable] at hc
    rw [h.fds] at hg
    exact .inr ⟨hc, hg, h.managers.trans hm⟩

section

variable (hk : KernelOk k)
include hk

theorem KernelOk.get_nextPid : k.fds.get k.nextPid = none := by
  cases hg : k.fds.get k.nextPid with
  | none => rfl
  | some t => exact absurd (hk.pids _ t hg) (Nat.lt_irrefl _)

theorem prepareChild_spec (driver : String) (o : SpawnOptions)
    (callerPid : Option Nat) :
    KernelOk (k.prepareChild driver o callerPid) ∧
      (k.prepareChild driver o callerPid).nextPid = k.nextPid + 1 ∧
      Spawned k callerPid (k.prepareChild driver o callerPid) := by
  obtain ⟨hs, hn⟩ := recordOwners_core { k with nextPid := k.nextPid + 1 } driver k.nextPid
    callerPid
  have hs' : SameCore k
      (({ k with nextPid := k.nextPid + 1 } : KernelImpl).recordOwners driver k.nextPid
        callerPid) := ⟨hs.fds, hs.pipes, hs.ptys, hs.ends, hs.locks⟩
  have hk' := hs'.ok hk (hn ▸ Nat.le_succ _)
  obtain ⟨h₁, h₂, h₃⟩ := createChildFDTable_spec hk' k.nextPid o callerPid
    (by rw [hs'.fds]; exact hk.get_nextPid) (by rw [hn]; exact Nat.lt_succ_self _)
  exact ⟨h₁, h₂.trans hn, h₃.of_core hs'⟩

theorem spawnInternal_wp (command : String) (o : SpawnOptions)
    (callerPid : Option Nat) (ans : SpawnAnswers) :
    (spawnInternal command o callerPid ans).wp k
      (fun _ k' => KernelOk k' ∧ Spawned k callerPid k')
      fun _ k' => KernelOk k' ∧ Spawned k callerPid k' := by
  rw [spawnInternal, wp_bind]
  refine wp_mono (selectDriver_wp command ans k) (fun driver k₁ h => ?_) fun _ k₁ h => ?_
  · obtain ⟨hs, hn⟩ := h
    have hk₁ := hs.ok hk (Nat.le_of_eq hn.symm)
    obtain ⟨h₁, -, h₃⟩ := prepareChild_spec hk₁ driver o callerPid
    have h₃' := h₃.of_core hs
    simp only [wp_bind, wp_read, wp_update]
    cases ans.driverSpawn with
    | error e => exact ⟨h₁, h₃'⟩
    | ok _ =>
        have hreg : SameCore (k₁.prepareChild driver o callerPid)
            ((k₁.prepareChild driver o callerPid).register k₁.nextPid (callerPid.getD 0) driver) :=
          ⟨rfl, rfl, rfl, rfl, rfl⟩
        refine ⟨hreg.ok h₁ (Nat.le_refl _), ?_⟩
        rcases h₃' with hq | ⟨hc, hg, hm⟩
        · exact .inl (hq.trans hreg.quiet)
        · exact .inr ⟨hc, hg, hm.trans hreg.managers⟩
  · exact ⟨h.1.ok hk (Nat.le_of_eq h.2.symm), .inl h.1.quiet⟩

theorem Spawned.post {callerPid : Option Nat} (hk' : KernelOk k')
    (h : Spawned k callerPid k') (ha : k.callerTable callerPid = none →
      ∀ i < 3, k.fds.nextDescriptionId + i ∈ k.allocs a) : Post k a b k' := by
  rcases h with hq | ⟨hc, hg, hm⟩
  · exact .quiet hk' hq
  · exact grows_post hk hg hk'.pids rfl hm (ha hc)

end

/-- The ids of a new table's stdio. -/
theorem mem_stdioIds (n : Nat) : ∀ i < 3, n + i ∈ [0, 1, 2].map (n + ·) := by
  intro i hi
  have hi' : i = 0 ∨ i = 1 ∨ i = 2 := by omega
  rcases hi' with rfl | rfl | rfl <;> simp

theorem spawn_wp (hk : KernelOk k) (command : String) (o : SpawnOptions) (ans : SpawnAnswers) :
    (spawn command o ans).wp k (fun _ k' => Post k (.spawn command o ans) true k')
      fun _ k' => Post k (.spawn command o ans) false k' := by
  have ha : k.callerTable none = none → ∀ i < 3,
      k.fds.nextDescriptionId + i ∈ k.allocs (.spawn command o ans) := fun _ => mem_stdioIds _
  simp only [spawn, assertNotDisposed, wp_bind, wp_read]
  split
  · exact Post.same hk
  · rw [wp_pure]
    exact wp_mono (spawnInternal_wp hk command o none ans)
      (fun _ _ h => h.2.post hk h.1 ha) fun _ _ h => h.2.post hk h.1 ha

theorem spawnFrom_wp (hk : KernelOk k) (driver command : String) (ppid : Nat) (o : SpawnOptions)
    (ans : SpawnAnswers) :
    (spawnFrom driver command ppid o ans).wp k
      (fun _ k' => Post k (.spawnFrom driver command ppid o ans) true k')
      fun _ k' => Post k (.spawnFrom driver command ppid o ans) false k' := by
  have ha : k.callerTable (some ppid) = none → ∀ i < 3,
      k.fds.nextDescriptionId + i ∈ k.allocs (.spawnFrom driver command ppid o ans) := by
    intro hc
    rw [allocs, hc, Option.isNone_none, if_pos rfl]
    exact mem_stdioIds _
  have hspawn := wp_mono (spawnInternal_wp hk command o (some ppid) ans)
    (R := fun _ k' => Post k (.spawnFrom driver command ppid o ans) true k')
    (F := fun _ k' => Post k (.spawnFrom driver command ppid o ans) false k')
    (fun _ _ h => h.2.post hk h.1 ha) fun _ _ h => h.2.post hk h.1 ha
  unfold spawnFrom
  split
  · exact hspawn
  · rw [wp_bind]
    exact assertOwns_wp hspawn fun e => .same hk

/-! ### Process exit -/

theorem closeManaged_fds (k : KernelImpl) (r : Nat) (kind : ManagedKind) :
    (k.closeManaged r kind).fds = k.fds ∧ (k.closeManaged r kind).ends = k.ends ∧
      (k.closeManaged r kind).nextPid = k.nextPid := by
  unfold closeManaged releaseLock
  split
  · cases kind <;> exact ⟨rfl, rfl, rfl⟩
  · exact ⟨rfl, rfl, rfl⟩

theorem foldl_closeManaged_fds (l : List (Nat × ManagedKind)) : ∀ k : KernelImpl,
    (l.foldl (fun k m => k.closeManaged m.1 m.2) k).fds = k.fds ∧
      (l.foldl (fun k m => k.closeManaged m.1 m.2) k).ends = k.ends ∧
      (l.foldl (fun k m => k.closeManaged m.1 m.2) k).nextPid = k.nextPid := by
  induction l with
  | nil => exact fun _ => ⟨rfl, rfl, rfl⟩
  | cons m l ih =>
      intro k
      obtain ⟨h₁, h₂, h₃⟩ := closeManaged_fds k m.1 m.2
      obtain ⟨h₁', h₂', h₃'⟩ := ih (k.closeManaged m.1 m.2)
      exact ⟨h₁'.trans h₁, h₂'.trans h₂, h₃'.trans h₃⟩

theorem cleanupProcessFDs_fds (k : KernelImpl) (pid : Nat) :
    (k.cleanupProcessFDs pid).fds = k.fds.remove pid ∧
      (k.cleanupProcessFDs pid).ends = k.ends ∧
      (k.cleanupProcessFDs pid).nextPid = k.nextPid := by
  unfold cleanupProcessFDs
  split
  · rename_i hg
    rw [remove, hg]
    exact ⟨rfl, rfl, rfl⟩
  · exact foldl_closeManaged_fds _ _

theorem cleanupProcessFDs_ok (hk : KernelOk k) (pid : Nat) : KernelOk (k.cleanupProcessFDs pid) := by
  obtain ⟨hf, he, hn⟩ := cleanupProcessFDs_fds k pid
  refine ⟨hf ▸ hk.fds.remove pid, fun pid' t ht => ?_, fun r hr => ?_⟩
  · rw [hf, remove] at ht
    rw [hn]
    split at ht
    · exact hk.pids pid' t ht
    · have hd : (k.fds.tables.delete pid).get pid' = some t := ht
      rw [OMap.get_delete] at hd
      split at hd
      · cases hd
      · exact hk.pids pid' t hd
  · rw [he]
    refine hk.ends r ?_
    rw [hf, remove] at hr
    split at hr
    · exact hr
    · exact (Descs.CountsOnly.foldl _ (-1) k.fds.descs).next ▸ hr

theorem markExited_post (hk : KernelOk k) (pid : Nat) :
    Post k (.exit pid) b (k.markExited pid) := by
  unfold markExited
  split
  · exact .same hk
  · split
    · exact .same hk
    · rename_i e _ _
      have hs : SameCore k
          { k with processes := k.processes.set pid { e with status := .exited } } :=
        ⟨rfl, rfl, rfl, rfl, rfl⟩
      exact ⟨cleanupProcessFDs_ok (hs.ok hk (Nat.le_refl _)) pid, .exited _ pid rfl hs rfl⟩

theorem reap_core (k : KernelImpl) (pid : Nat) :
    SameCore k (k.reap pid) ∧ (k.reap pid).nextPid = k.nextPid := by
  unfold reap
  split
  · exact ⟨⟨rfl, rfl, rfl, rfl, rfl⟩, rfl⟩
  · split
    · exact ⟨⟨rfl, rfl, rfl, rfl, rfl⟩, rfl⟩
    · exact ⟨⟨rfl, rfl, rfl, rfl, rfl⟩, rfl⟩

/-! ### Every call -/

/-- The calls made by processes, and their exit; `openShell` is a call of the host. -/
def ofProcess : Syscall → Bool
  | .openShell .. => false
  | .shellDone _ => false
  | _ => true

theorem perform_wp (hk : KernelOk k) (ha : ofProcess a = true) (hr : ∀ h, a ≠ .resume h) :
    (perform a).wp k (fun _ k' => Post k a true k') fun _ k' => Post k a false k' := by
  cases a with
  | fdOpen driver pid path flags mode prepared =>
      exact wp_map.mpr (fdOpen_wp hk driver path flags mode prepared)
  | fdClose driver pid fd => exact fdClose_wp hk driver fd
  | fdDup driver pid fd =>
      refine wp_map.mpr (wp_bind.mpr (assertOwns_wp (dup_wp hk fd) fun e => .same hk))
  | fdDup2 driver pid oldFd newFd => exact fdDup2_wp hk driver oldFd newFd
  | fdDupMin driver pid fd minFd =>
      refine wp_map.mpr (wp_bind.mpr (assertOwns_wp ?_ fun e => .same hk))
      refine wp_mono (dupMinFd_wp hk pid fd minFd) (fun _ _ h => .quiet h.1 h.2) ?_
      rintro _ _ rfl
      exact .same hk
  | fdSetCloexec driver pid fd value => exact fdSetCloexec_wp hk driver fd value
  | fcntl driver pid fd cmd arg => exact wp_map.mpr (fcntl_wp hk driver fd cmd arg)
  | pipe driver pid => exact wp_map.mpr (pipe_wp hk driver)
  | openpty driver pid => exact wp_map.mpr (openpty_wp hk driver)
  | flock driver pid fd operation => exact flock_wp hk driver fd operation
  | resume h => exact absurd rfl (hr h)
  | spawn command o ans => exact wp_map.mpr (spawn_wp hk command o ans)
  | spawnFrom driver command ppid o ans =>
      exact wp_map.mpr (spawnFrom_wp hk driver command ppid o ans)
  | openShell command ans => cases ha
  | exit pid => exact markExited_post hk pid
  | reap pid =>
      obtain ⟨hs, hn⟩ := reap_core k pid
      exact .quiet (hs.ok hk (Nat.le_of_eq hn.symm)) hs.quiet
  | shellDone pid => cases ha
  | dispose =>
      have hs : SameCore k { k with disposed := true } := ⟨rfl, rfl, rfl, rfl, rfl⟩
      exact .quiet (hs.ok hk (Nat.le_refl _)) hs.quiet

/-- A step is the call's program: `P` of whether it returned and of the state after it. -/
theorem step_of_wp {P : Bool → KernelImpl → Prop} (hne : ∀ h, a ≠ .resume h)
    (hwp : (perform a).wp k (fun _ k' => P true k') fun _ k' => P false k')
    (hs : k.step a = some k') : P (!k.throws a) k' := by
  have hk' : k' = ((perform a).exec k).2 := by
    unfold step at hs
    split at hs
    · exact absurd rfl (hne _)
    · exact (Option.some.inj hs).symm
  unfold wp at hwp
  unfold throws
  subst hk'
  split at hwp
  · rename_i v k₁ he
    rw [he]
    exact hwp
  · rename_i e k₁ he
    rw [he]
    exact hwp

/-- What any call of a process does. -/
theorem step_effect (hk : KernelOk k) (ha : ofProcess a = true) (hs : k.step a = some k') :
    KernelOk k' ∧ Effect k a (!k.throws a) k' := by
  by_cases hr : ∃ h, a = .resume h
  · obtain ⟨h, rfl⟩ := hr
    obtain ⟨⟨c, out, l⟩, hl, rfl⟩ := Option.map_eq_some_iff.mp hs
    exact ⟨⟨hk.fds, hk.pids, hk.ends⟩, .resumed h c out l rfl hl rfl⟩
  · have hne : ∀ h, a ≠ .resume h := fun h e => hr ⟨h, e⟩
    exact step_of_wp (P := Post k a) hne (perform_wp hk ha hne) hs

/-! ### Ids -/

variable {r : Nat}

theorem KernelOk.lt_next (hk : KernelOk k) (hr : k.Live r) : r < k.fds.descs.next :=
  hk.fds.lt_next hr

theorem Unused.ne (hk : KernelOk k) {id : Nat} (h : k.Unused id) (hr : k.Live r) :
    (k.desc r).id ≠ id := h r (hk.lt_next hr) hr

/-- No two live descriptions have one id. -/
def UniqueIds (k : KernelImpl) : Prop :=
  ∀ r r', k.Live r → k.Live r' → (k.desc r).id = (k.desc r').id → r = r'

theorem cleanupProcessFDs_keeps (k : KernelImpl) (pid : Nat) :
    Keeps k (k.cleanupProcessFDs pid) := by
  refine .of_counts ?_
  rw [(cleanupProcessFDs_fds k pid).1, remove]
  split
  · exact .refl _
  · exact .foldl _ _ _

/-- Process exit makes no description live. -/
theorem live_of_cleanup (hr : (k.cleanupProcessFDs pid).Live r) : k.Live r := by
  rw [Live, (cleanupProcessFDs_fds k pid).1] at hr
  cases hg : k.fds.get pid with
  | none =>
      rw [remove, hg] at hr
      exact hr
  | some t =>
      have h := refs_remove hg r
      rw [Live]
      omega

/-- The descriptions a call makes live have ids of their own. -/
theorem UniqueIds.of_new (hu : UniqueIds k) {new : Nat → Prop}
    (hl : ∀ r, k'.Live r → k.Live r ∨ new r)
    (hold : ∀ r, k.Live r → (k'.desc r).id = (k.desc r).id)
    (hnew : ∀ r x, new r → k.Live x → (k.desc x).id ≠ (k'.desc r).id)
    (hinj : ∀ r r', new r → new r' → (k'.desc r).id = (k'.desc r').id → r = r') :
    UniqueIds k' := by
  intro r r' hr hr' he
  rcases hl r hr with h | h <;> rcases hl r' hr' with h' | h'
  · rw [hold r h, hold r' h'] at he
    exact hu r r' h h' he
  · rw [hold r h] at he
    exact absurd he (hnew r' r h' h)
  · rw [hold r' h'] at he
    exact absurd he.symm (hnew r r' h h')
  · exact hinj r r' h h' he

theorem UniqueIds.of_sub (hu : UniqueIds k) (hl : ∀ r, k'.Live r → k.Live r)
    (hold : ∀ r, k.Live r → (k'.desc r).id = (k.desc r).id) : UniqueIds k' := by
  refine hu.of_new (fun r hr => .inl (hl r hr)) hold (fun r _ (h : False) => h.elim) ?_
  exact fun r _ h => h.elim

/-- The two new descriptions of `createPipe` and `createPty`. -/
theorem addPair_desc (k : KernelImpl) (d₁ d₂ : FileDescription) (e₁ e₂ : DescEnd) :
    (k.addPair d₁ d₂ e₁ e₂).desc k.fds.descs.next = d₁ ∧
      (k.addPair d₁ d₂ e₁ e₂).desc (k.fds.descs.next + 1) = d₂ ∧
      ∀ r < k.fds.descs.next, (k.addPair d₁ d₂ e₁ e₂).desc r = k.desc r := by
  refine ⟨?_, update_self .., fun r hr => ?_⟩
  · show update (update _ _ _) (k.fds.descs.next + 1) _ _ = _
    rw [update_of_ne (Nat.ne_of_lt (Nat.lt_succ_self _)), update_self]
  · show update (update _ _ _) (k.fds.descs.next + 1) _ _ = _
    rw [update_of_ne (Nat.ne_of_lt (Nat.lt_succ_of_lt hr)),
      update_of_ne (Nat.ne_of_lt hr)]
    rfl

/-- What a call that makes a pair gives the two new descriptions, and leaves to the others. -/
theorem paired_ids {k₁ : KernelImpl}
    (hp : (k₁ = k.createPipe ∧ k.allocs a = [k.pipes.nextDescId, k.pipes.nextDescId + 1]) ∨
      (k₁ = k.createPty ∧ k.allocs a = [k.ptys.nextPtyDescId, k.ptys.nextPtyDescId + 1]))
    (hn : Keeps k₁ k') :
    ∃ d, k.allocs a = [d, d + 1] ∧ (k'.desc k.fds.descs.next).id = d ∧
      (k'.desc (k.fds.descs.next + 1)).id = d + 1 ∧
      ∀ r < k.fds.descs.next, (k'.desc r).id = (k.desc r).id ∧ (k'.desc r).path = (k.desc r).path := by
  have hlift : ∀ d₁ d₂ e₁ e₂, k₁.fds = (k.addPair d₁ d₂ e₁ e₂).fds →
      (k'.desc k.fds.descs.next).id = d₁.id ∧ (k'.desc (k.fds.descs.next + 1)).id = d₂.id ∧
      ∀ r < k.fds.descs.next,
        (k'.desc r).id = (k.desc r).id ∧ (k'.desc r).path = (k.desc r).path := by
    intro d₁ d₂ e₁ e₂ hf
    have hd : ∀ r, k₁.desc r = (k.addPair d₁ d₂ e₁ e₂).desc r := fun r => by rw [desc, hf]; rfl
    have hnext : k₁.fds.descs.next = k.fds.descs.next + 2 := by rw [hf]; rfl
    obtain ⟨h₁, h₂, h₃⟩ := addPair_desc k d₁ d₂ e₁ e₂
    refine ⟨?_, ?_, fun r hr => ?_⟩
    · rw [(hn.names _ (by omega)).1, hd, h₁]
    · rw [(hn.names _ (by omega)).1, hd, h₂]
    · rw [← h₃ r hr, ← hd]
      exact hn.names r (by omega)
  rcases hp with ⟨rfl, ha⟩ | ⟨rfl, ha⟩
  · obtain ⟨h₁, h₂, h₃⟩ := hlift k.pipes.createPipe.1 k.pipes.createPipe.2.1
      (.pipe ⟨k.pipes.nextPipeId, .read⟩) (.pipe ⟨k.pipes.nextPipeId, .write⟩) rfl
    exact ⟨_, ha, h₁, h₂, h₃⟩
  · obtain ⟨h₁, h₂, h₃⟩ := hlift k.ptys.createPty.1 k.ptys.createPty.2.1
      (.pty ⟨k.ptys.nextPtyId, .master⟩) (.pty ⟨k.ptys.nextPtyId, .slave⟩) rfl
    exact ⟨_, ha, h₁, h₂, h₃⟩

/-- What was there keeps its id and its path. -/
theorem Effect.names {ok : Bool} (h : Effect k a ok k') (hr : r < k.fds.descs.next) :
    (k'.desc r).id = (k.desc r).id ∧ (k'.desc r).path = (k.desc r).path := by
  cases h with
  | quiet h => exact h.names.names r hr
  | opened n hn _ _ _ => exact hn.names r hr
  | paired k₁ _ _ hp hn _ _ _ =>
      obtain ⟨_, _, _, _, h⟩ := paired_ids hp hn
      exact h r hr
  | dropped k₁ x hn _ _ _ _ he =>
      subst he
      rw [desc, (releaseDescription_fds k₁ x).1]
      exact hn.names r hr
  | exited k₀ pid _ hs he =>
      subst he
      exact (hs.keeps.trans (cleanupProcessFDs_keeps k₀ pid)).names r hr
  | locked _ _ _ he => subst he; exact ⟨rfl, rfl⟩
  | resumed _ _ _ _ _ _ he => subst he; exact ⟨rfl, rfl⟩

theorem Effect.unique {ok : Bool} (h : Effect k a ok k') (hk : KernelOk k)
    (ha : ∀ id ∈ k.allocs a, k.Unused id) (hu : UniqueIds k) : UniqueIds k' := by
  have hold : ∀ r, k.Live r → (k'.desc r).id = (k.desc r).id :=
    fun r hr => (h.names (hk.lt_next hr)).1
  cases h with
  | quiet h => exact hu.of_sub (fun r => (h.live r).mp) hold
  | opened n hn _ hl hid =>
      refine hu.of_new (fun r => (hl r).mp) hold ?_ ?_
      · rintro _ x ⟨i, hi, rfl⟩ hx
        rw [(hid i hi).1]
        exact (ha _ (hid i hi).2).ne hk hx
      · rintro _ _ ⟨i, hi, rfl⟩ ⟨j, hj, rfl⟩ he
        rw [(hid i hi).1, (hid j hj).1] at he
        rw [Nat.add_left_cancel he]
  | paired k₁ o₁ o₂ hp hn _ hl _ =>
      obtain ⟨d, had, hd₁, hd₂, -⟩ := paired_ids hp hn
      rw [had] at ha
      refine hu.of_new (fun r => (hl r).mp) hold ?_ ?_
      · rintro _ x (⟨-, rfl⟩ | ⟨-, rfl⟩) hx
        · rw [hd₁]
          exact (ha d (by simp)).ne hk hx
        · rw [hd₂]
          exact (ha (d + 1) (by simp)).ne hk hx
      · rintro _ _ (⟨-, rfl⟩ | ⟨-, rfl⟩) (⟨-, rfl⟩ | ⟨-, rfl⟩) he
        · rfl
        · omega
        · omega
        · rfl
  | dropped k₁ x _ _ hx hl _ he =>
      subst he
      refine hu.of_sub (fun r hr => ?_) hold
      by_cases hrx : r = x
      · exact hrx ▸ hx
      · rw [Live, (releaseDescription_fds k₁ x).1] at hr
        exact (hl r hrx).mp hr
  | exited k₀ pid _ hs he =>
      subst he
      exact hu.of_sub (fun r hr => (hs.live r).mp (live_of_cleanup hr)) hold
  | locked _ _ _ he => subst he; exact hu
  | resumed _ _ _ _ _ _ he => subst he; exact hu

end KernelImpl

end SecureExec.Kernel
