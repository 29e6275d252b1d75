import SecureExec.Kernel.Terminal
import SecureExec.Kernel.PipeBlocking
import SecureExec.Kernel.FileIo
import SecureExec.Kernel.RefCount

/-!
# Kernel — Devices — the kernel with its pipes and terminals at work

An `IoKernel` is the kernel with the writes that wait in its pipes and the line state of its
terminals.  A descriptor call finds its entry and goes on by description id; so do the pump of a
shell and the output callbacks, and the steps here are by description id.

A system call touches the managers by their own operations only (`ManagerStep`); what these and
the reads and writes keep holds in every state (`DevicesOk`): a pipe buffers no empty chunk, and an
end that is registered is open and its PTY known.
-/

namespace SecureExec.Kernel
open SecureExec Lts Terminal Prog Function

/-! ### The state -/

structure IoKernel where
  kernel : KernelImpl
  /-- The writes that wait, by pipe and handle. -/
  calls : Nat → Nat → Option WriteCall
  logs : Nat → PipeLog
  /-- The line state of each PTY. -/
  lines : Nat → LineState
  ttyReads : Nat

/-- The PTY end of a description, as `read` and `write` look it up. -/
def PtyManager.endOf (m : PtyManager) (descriptionId : Nat) : Except Failure PtyRef :=
  match m.descToPty descriptionId with
  | none => .error (.kernelError .EBADF "not a PTY end")
  | some ref =>
    if m.ptys ref.ptyId then .ok ref else .error (.kernelError .EBADF "PTY not found")

namespace IoKernel

def boot (mounted : List (String × List String)) (max : Option Nat) : IoKernel where
  kernel := .boot mounted max
  calls := fun _ _ => none
  logs := fun _ => .new
  lines := fun _ => .new
  ttyReads := 0

def pipes (s : IoKernel) : PipeSys := ⟨s.kernel.pipes, s.calls, s.logs⟩

def setPipes (s : IoKernel) (p : PipeSys) : IoKernel :=
  { s with kernel := { s.kernel with pipes := p.mgr }, calls := p.calls, logs := p.logs }

def terminal (s : IoKernel) (ptyId : Nat) : Terminal :=
  { s.kernel.ptys.states ptyId, s.lines ptyId with }

def setTerminal (s : IoKernel) (ptyId : Nat) (t : Terminal) : IoKernel :=
  { s with
    kernel := { s.kernel with ptys := { s.kernel.ptys with
      states := update s.kernel.ptys.states ptyId t.toPtyState } }
    lines := update s.lines ptyId t.toLineState }

/-! ### Reads and writes of a terminal -/

def ttyRead (s : IoKernel) (descriptionId length : Nat) :
    Except Failure (PipeState.ReadOutcome × IoKernel) :=
  match s.kernel.ptys.endOf descriptionId with
  | .error e => .error e
  | .ok ref =>
    match read ref.side s.ttyReads length (s.terminal ref.ptyId) with
    | .error e => .error e
    | .ok (out, t) =>
      .ok (out, { s.setTerminal ref.ptyId t with ttyReads := s.ttyReads + 1 })

def ttyWrite (s : IoKernel) (descriptionId : Nat) (answer : Nat → Nat) (data : ByteArray8) :
    Except Failure Nat × IoKernel :=
  match s.kernel.ptys.endOf descriptionId with
  | .error e => (.error e, s)
  | .ok ref =>
    let r := (write ref.side answer data).exec (s.terminal ref.ptyId)
    (r.1, s.setTerminal ref.ptyId r.2)

/-- A change of the terminal of a description. -/
def onTty (s : IoKernel) (descriptionId : Nat) (f : Terminal → Terminal) : IoKernel :=
  match s.kernel.ptys.ptyOf descriptionId with
  | .error _ => s
  | .ok id => s.setTerminal id (f (s.terminal id))

end IoKernel

/-! ### Steps -/

inductive IoAction where
  | sys (a : Syscall)
  | pipeRead (descriptionId length : Nat)
  | pipeWrite (descriptionId : Nat) (flags : Flags) (data : ByteArray8)
  /-- The write that waits in the pipe under this handle runs on. -/
  | pipeResume (pipeId handle : Nat)
  | waitForPoll (descriptionId : Nat)
  | ttyRead (descriptionId length : Nat)
  | ttyWrite (descriptionId : Nat) (answer : Nat → Nat) (data : ByteArray8)
  | setTermios (descriptionId : Nat) (c : TermiosChange)
  | setDiscipline (descriptionId : Nat) (canonical echo isig : Option Bool)
  | setForegroundPgid (descriptionId pgid : Nat)

namespace IoKernel

def step (s : IoKernel) : IoAction → Option IoKernel
  | .sys a => (s.kernel.step a).map fun k => { s with kernel := k }
  | .pipeRead d length => (s.pipes.step (.read d length)).map s.setPipes
  | .pipeWrite d flags data => (s.pipes.step (.write d flags data)).map s.setPipes
  | .pipeResume p h => (s.pipes.step (.resume p h)).map s.setPipes
  | .waitForPoll d => (s.pipes.step (.waitForPoll d)).map s.setPipes
  | .ttyRead d length =>
    match s.ttyRead d length with
    | .error _ => some s
    | .ok (_, s') => some s'
  | .ttyWrite d answer data => some (s.ttyWrite d answer data).2
  | .setTermios d c => some (s.onTty d (·.setTermios c))
  | .setDiscipline d canonical echo isig => some (s.onTty d (·.setDiscipline canonical echo isig))
  | .setForegroundPgid d pgid => some (s.onTty d ({ · with foregroundPgid := pgid }))

end IoKernel

/-! ### What a system call does to the managers -/

namespace KernelImpl

/-- One operation of a manager, or none. -/
inductive ManagerStep (k k' : KernelImpl) : Prop where
  | same (hp : k'.pipes = k.pipes) (ht : k'.ptys = k.ptys)
  | createPipe (hp : k'.pipes = k.pipes.createPipe.2.2) (ht : k'.ptys = k.ptys)
  | closePipe (d : Nat) (hp : k'.pipes = k.pipes.close d) (ht : k'.ptys = k.ptys)
  | createPty (hp : k'.pipes = k.pipes) (ht : k'.ptys = k.ptys.createPty.2.2)
  | closePty (d : Nat) (hp : k'.pipes = k.pipes) (ht : k'.ptys = k.ptys.close d)
  | setForegroundPgid (d pgid : Nat) (hp : k'.pipes = k.pipes)
      (ht : k.ptys.setForegroundPgid d pgid = .ok k'.ptys)
  | setSessionLeader (d pgid : Nat) (hp : k'.pipes = k.pipes)
      (ht : k.ptys.setSessionLeader d pgid = .ok k'.ptys)

/-- Operations of the managers, one after the other. -/
abbrev Managed : KernelImpl → KernelImpl → Prop := Relation.ReflTransGen ManagerStep

/-- A call that touches the managers by their operations only. -/
abbrev Manages {α : Type} (p : Sys α) : Prop := Within ManagerStep p

variable {k k' : KernelImpl} (driver : String) (pid : Nat)

theorem manages_assertOwns : Manages (assertOwns driver pid) :=
  .bind (.read _) fun _ => .bind (.read _) fun _ => .ite (.pure _) (.ite (.throw _) (.throw _))

theorem manages_getTable : Manages (getTable pid) := by
  refine .bind (.read _) fun t => ?_
  cases t with
  | none => exact .throw _
  | some t => exact .pure t

theorem manages_getEntry (pid fd : Nat) : Manages (getEntry pid fd) := by
  refine .bind (manages_getTable pid) fun t => ?_
  split
  · exact .pure _
  · exact .throw _

theorem manages_onTable {α : Type}
    (f : Descs → ProcessFDTable → Except Failure (α × Descs × ProcessFDTable)) :
    Manages (onTable pid f) :=
  .bind (manages_getTable pid) fun _ => .bind (.read _) fun _ => .bind (.lift _) fun _ =>
    .bind (.update fun _ => .single (.same rfl rfl)) fun _ => .pure _

variable (k)

theorem withTable_managers (pid : Nat) (f : Descs → ProcessFDTable → Descs × ProcessFDTable) :
    (k.withTable pid f).pipes = k.pipes ∧ (k.withTable pid f).ptys = k.ptys := by
  unfold withTable
  split <;> exact ⟨rfl, rfl⟩

theorem managed_withTable (pid : Nat)
    (f : Descs → ProcessFDTable → Descs × ProcessFDTable) : Managed k (k.withTable pid f) :=
  .single (.same (k.withTable_managers pid f).1 (k.withTable_managers pid f).2)

theorem managed_releaseDescription (r : Nat) :
    Managed k (k.releaseDescription r) := by
  unfold releaseDescription
  split
  · have h₁ : Managed k (k.closePipe (k.desc r).id) :=
      .single (.closePipe _ (closePipe_pipes k _) (by unfold closePipe; split <;> rfl))
    have h₂ : Managed (k.closePipe (k.desc r).id)
        ((k.closePipe (k.desc r).id).closePty (k.desc r).id) :=
      .single (.closePty _ (by unfold closePty; split <;> rfl) (closePty_ptys _ _))
    exact (h₁.trans h₂).trans (.single (.same rfl rfl))
  · exact .refl

variable {k}

theorem manages_openPath (path : String) (flags : Flags) (mode : Option Nat)
    (created : Bool) : Manages (openPath pid path flags mode created) := by
  refine .bind (manages_getTable pid) fun _ => .bind (.read _) fun _ => .bind (.lift _) fun r => ?_
  refine .bind (.update fun _ => .single (.same rfl rfl)) fun _ => ?_
  exact .ite (.bind (.update fun _ => .single (.same rfl rfl)) fun _ => .pure _) (.pure _)

theorem manages_fdOpen (path : String) (flags : Flags)
    (mode : Option Nat) (prepared : Except Failure Bool) :
    Manages (fdOpen driver pid path flags mode prepared) := by
  refine .bind (manages_assertOwns driver pid) fun _ => ?_
  split
  · split
    · exact .throw _
    · exact manages_onTable pid _
  · exact .ite (.bind (.lift _) fun _ => manages_openPath pid path flags mode _)
      (manages_openPath pid path flags mode false)

theorem manages_fdClose (pid fd : Nat) : Manages (fdClose driver pid fd) := by
  refine .bind (manages_assertOwns driver pid) fun _ => .bind (manages_getTable pid) fun t => ?_
  split
  · exact .pure _
  · exact .update fun k => (managed_withTable k pid _).trans (managed_releaseDescription _ _)

theorem manages_fdDup2 (pid oldFd newFd : Nat) :
    Manages (fdDup2 driver pid oldFd newFd) := by
  refine .bind (manages_assertOwns driver pid) fun _ => .bind (manages_getTable pid) fun t => ?_
  refine .bind (manages_onTable pid _) fun _ => ?_
  split
  · exact .pure _
  · exact .update fun k => managed_releaseDescription k _

theorem manages_setCloexec (pid fd : Nat) (value : Bool) : Manages (setCloexec pid fd value) :=
  .update fun k => managed_withTable k pid _

theorem manages_fcntl (pid fd cmd : Nat) (arg : Option Nat) :
    Manages (fcntl driver pid fd cmd arg) := by
  refine .bind (manages_assertOwns driver pid) fun _ => .bind (manages_getEntry pid fd) fun e => ?_
  refine .ite (manages_onTable pid _) (.ite ?_ (.ite (.pure _) (.ite ?_ (.ite (.read _) (.throw _)))))
  · exact .bind (manages_onTable pid _) fun _ => .bind (manages_setCloexec pid _ _) fun _ => .pure _
  · exact .bind (manages_setCloexec pid fd _) fun _ => .pure _

/-! ### Pipes and terminals -/

theorem manages_openPair (pid r filetype : Nat) : Manages (openPair pid r filetype) :=
  .bind (manages_onTable pid _) fun _ => .bind (manages_onTable pid _) fun _ => .pure _

theorem manages_createPipeFDs : Manages (createPipeFDs pid) :=
  .bind (.read _) fun r =>
    .bind (.update fun _ => .single (.createPipe rfl rfl)) fun _ => manages_openPair pid r _

theorem manages_createPtyFDs : Manages (createPtyFDs pid) :=
  .bind (.read _) fun r =>
    .bind (.update fun _ => .single (.createPty rfl rfl)) fun _ => manages_openPair pid r _

theorem manages_flock (pid fd : Nat) (operation : BitVec 32) :
    Manages (flock driver pid fd operation) := by
  refine .bind (manages_assertOwns driver pid) fun _ => .bind (manages_getEntry pid fd) fun e => ?_
  refine .bind (.read _) fun r => .bind (.update fun _ => .single (.same rfl rfl)) fun _ => ?_
  split
  · exact .throw _
  · exact .pure _

/-! ### Processes -/

variable (k) (child : Nat)

theorem managed_applyStdioOverride (ct : ProcessFDTable)
    (target : Nat) (fd : Option Nat) : Managed k (k.applyStdioOverride child ct target fd) := by
  unfold applyStdioOverride
  split
  · exact .refl
  · split
    · exact .refl
    · split
      · exact .refl
      · refine .trans ?_ (managed_withTable _ _ _)
        split
        · exact managed_withTable _ _ _
        · exact (managed_withTable _ _ _).trans (managed_releaseDescription _ _)

theorem managed_closeCounterparts :
    Managed k (k.closeCounterparts child) := by
  have hfold : ∀ (l : List Nat) (k : KernelImpl), Managed k
      (l.foldl (fun k fd => k.withTable child fun h t => ProcessFDTable.close h t fd) k) := by
    intro l
    induction l with
    | nil => exact fun _ => .refl
    | cons fd l ih => exact fun k => (managed_withTable k child _).trans (ih _)
  unfold closeCounterparts
  split
  · exact .refl
  · exact hfold _ k

theorem managed_createChildFDTable (o : SpawnOptions)
    (caller : Option Nat) : Managed k (k.createChildFDTable child o caller) := by
  unfold createChildFDTable
  split
  · exact .single (.same rfl rfl)
  · rename_i ct hct
    have h₀ : Managed k { k with fds := k.fds.fork ct child } := .single (.same rfl rfl)
    split
    · have h₁ := h₀.trans (managed_applyStdioOverride _ child ct 0 o.stdinFd)
      have h₂ := h₁.trans (managed_applyStdioOverride _ child ct 1 o.stdoutFd)
      have h₃ := h₂.trans (managed_applyStdioOverride _ child ct 2 o.stderrFd)
      exact h₃.trans (managed_closeCounterparts _ child)
    · exact h₀

theorem recordOwners_managers (driver : String) (pid : Nat)
    (caller : Option Nat) : (k.recordOwners driver pid caller).pipes = k.pipes ∧
      (k.recordOwners driver pid caller).ptys = k.ptys := by
  unfold recordOwners
  split
  · exact ⟨rfl, rfl⟩
  · simp only
    split <;> exact ⟨rfl, rfl⟩

theorem managed_prepareChild (driver : String) (o : SpawnOptions)
    (caller : Option Nat) : Managed k (k.prepareChild driver o caller) := by
  have hr := recordOwners_managers { k with nextPid := k.nextPid + 1 } driver k.nextPid caller
  exact .trans (.single (.same hr.1 hr.2)) (managed_createChildFDTable _ k.nextPid o caller)

variable {k}

theorem manages_discover (name : String) (a : SpawnAnswers) (l : List String) :
    Manages (discover name a l) := by
  induction l with
  | nil => exact .pure _
  | cons d l ih =>
    refine .bind (.lift _) fun _ => .ite ?_ ih
    exact .bind (.update fun _ => .single (.same rfl rfl)) fun _ => .pure _

variable (command : String)

theorem manages_selectDriver (a : SpawnAnswers) :
    Manages (selectDriver command a) := by
  have hr : Manages (resolveDriver command a) := by
    refine .bind (.read _) fun d => ?_
    split
    · exact .pure _
    · exact .ite (.bind (.read _) fun _ => manages_discover _ a _) (.pure _)
  refine .bind hr fun d => ?_
  split
  · exact .throw _
  · exact .bind (.lift _) fun _ => .bind (.read _) fun _ => .ite (.throw _) (.pure _)

theorem manages_spawnInternal (o : SpawnOptions) (caller : Option Nat)
    (a : SpawnAnswers) : Manages (spawnInternal command o caller a) :=
  .bind (manages_selectDriver command a) fun driver => .bind (.read _) fun _ =>
    .bind (.update fun k => managed_prepareChild k driver o caller) fun _ =>
      .bind (.lift _) fun _ => .bind (.update fun _ => .single (.same rfl rfl)) fun _ => .pure _

theorem manages_assertNotDisposed : Manages assertNotDisposed :=
  .bind (.read _) fun _ => .ite (.throw _) (.pure _)

theorem manages_spawnFrom (driver command : String) (ppid : Nat) (o : SpawnOptions)
    (a : SpawnAnswers) : Manages (spawnFrom driver command ppid o a) :=
  .ite (manages_spawnInternal command o _ a)
    (.bind (manages_assertOwns driver ppid) fun _ => manages_spawnInternal command o _ a)

theorem manages_setOwnPgid : Manages (setOwnPgid pid) := by
  refine .bind (.read _) fun e => ?_
  split
  · exact .throw _
  · exact .update fun _ => .single (.same rfl rfl)

/-- An operation of the PTY manager is looked up and written back in one go. -/
theorem manages_onPtys {f : PtyManager → Except Failure PtyManager}
    (hf : ∀ k m, f k.ptys = .ok m → ManagerStep k { k with ptys := m }) : Manages (onPtys f) := by
  intro k
  refine state_of_wp (I := Managed k) ?_
  simp only [onPtys, wp_bind, wp_read, wp_update]
  exact wp_lift_of (fun m hm => .single (hf k m hm)) fun _ _ => .refl

theorem managed_closeSlave (k : KernelImpl) (pid fd : Nat) : Managed k (k.closeSlave pid fd) := by
  unfold closeSlave
  split
  · exact .refl
  · have h₀ := managed_withTable k pid fun h t => ProcessFDTable.close h t fd
    simp only
    split
    · exact h₀.tail (.closePty _ rfl rfl)
    · exact h₀

theorem manages_openShell (a : SpawnAnswers) :
    Manages (openShell command a) := by
  refine .bind manages_assertNotDisposed fun _ => .bind (.read _) fun pid => ?_
  refine .bind (.update fun _ => .single (.same rfl rfl)) fun _ => ?_
  refine .bind (manages_createPtyFDs pid) fun fds => ?_
  refine .bind (manages_getEntry pid _) fun _ => .bind (.read _) fun d => ?_
  refine .bind (manages_spawnInternal command _ _ a) fun shell => ?_
  refine .bind (manages_setOwnPgid shell) fun _ => ?_
  refine .bind (manages_onPtys fun k m h => .setForegroundPgid d shell rfl h) fun _ => ?_
  refine .bind (manages_onPtys fun k m h => .setSessionLeader d shell rfl h) fun _ => ?_
  refine .bind (.update fun k => ?_) fun _ => .pure _
  exact (managed_closeSlave k pid _).trans (.single (.same rfl rfl))

/-! ### Process exit -/

variable (k)

theorem managed_closeManaged (r : Nat) (kind : ManagedKind) :
    Managed k (k.closeManaged r kind) := by
  unfold closeManaged
  split
  · cases kind with
    | pipe => exact .single (.closePipe _ rfl rfl)
    | pty => exact .single (.closePty _ rfl rfl)
    | lock => exact .single (.same rfl rfl)
  · exact .refl

theorem managed_cleanupProcessFDs (pid : Nat) :
    Managed k (k.cleanupProcessFDs pid) := by
  have hfold : ∀ (l : List (Nat × ManagedKind)) (k : KernelImpl), Managed k
      (l.foldl (fun k m => k.closeManaged m.1 m.2) k) := by
    intro l
    induction l with
    | nil => exact fun _ => .refl
    | cons m l ih => exact fun k => (managed_closeManaged k m.1 m.2).trans (ih _)
  unfold cleanupProcessFDs
  split
  · exact .refl
  · have h₀ : Managed k { k with fds := k.fds.remove pid } := .single (.same rfl rfl)
    exact h₀.trans (hfold _ _)

theorem managed_markExited (pid : Nat) : Managed k (k.markExited pid) := by
  unfold markExited
  split
  · exact .refl
  · split
    · exact .refl
    · rename_i e _ _
      have h₀ : Managed k { k with processes := k.processes.set pid { e with status := .exited } } :=
        .single (.same rfl rfl)
      exact h₀.trans (managed_cleanupProcessFDs _ pid)

theorem managed_reap (pid : Nat) : Managed k (k.reap pid) := by
  unfold reap
  split
  · exact .refl
  · split
    · exact .single (.same rfl rfl)
    · exact .refl

theorem managed_shellDone (pid : Nat) : Managed k (k.shellDone pid) := by
  unfold shellDone
  split
  · exact .refl
  · exact (managed_cleanupProcessFDs k _).trans (.single (.same rfl rfl))

variable {k}

theorem manages_perform (a : Syscall) : Manages (perform a) := by
  cases a with
  | fdOpen driver pid path flags mode prepared =>
    exact (manages_fdOpen driver pid path flags mode prepared).map _
  | fdClose driver pid fd => exact manages_fdClose driver pid fd
  | fdDup driver pid | fdDupMin driver pid =>
    exact .map _ (.bind (manages_assertOwns driver pid) fun _ => manages_onTable pid _)
  | fdDup2 driver pid oldFd newFd => exact manages_fdDup2 driver pid oldFd newFd
  | fdSetCloexec driver pid fd value =>
    exact .bind (manages_assertOwns driver pid) fun _ =>
      .bind (manages_getEntry pid fd) fun _ => manages_setCloexec pid fd value
  | fcntl driver pid fd cmd arg => exact (manages_fcntl driver pid fd cmd arg).map _
  | pipe driver pid =>
    exact .map _ (.bind (manages_assertOwns driver pid) fun _ =>
      .bind (manages_getTable pid) fun _ => manages_createPipeFDs pid)
  | openpty driver pid =>
    exact .map _ (.bind (manages_assertOwns driver pid) fun _ =>
      .bind (manages_getTable pid) fun _ => manages_createPtyFDs pid)
  | flock driver pid fd operation => exact manages_flock driver pid fd operation
  | resume h =>
    refine .update fun k => ?_
    split
    · exact .refl
    · exact .single (.same rfl rfl)
  | spawn command o a =>
    exact .map _ (.bind manages_assertNotDisposed fun _ => manages_spawnInternal command o _ a)
  | spawnFrom driver command ppid o a => exact (manages_spawnFrom driver command ppid o a).map _
  | openShell command a => exact (manages_openShell command a).map _
  | exit pid => exact .update fun k => managed_markExited k pid
  | reap pid => exact .update fun k => managed_reap k pid
  | shellDone pid => exact .update fun k => managed_shellDone k pid
  | dispose => exact .update fun _ => .single (.same rfl rfl)

theorem managed_step {a : Syscall} (h : k.step a = some k') : Managed k k' := by
  unfold step at h
  split at h
  · obtain ⟨r, -, rfl⟩ := Option.map_eq_some_iff.mp h
    exact .single (.same rfl rfl)
  · cases h
    exact manages_perform a k

end KernelImpl

/-! ### Pipes buffer no empty chunk -/

namespace PipeState

variable {st : PipeState} {data : ByteArray8}

/-- No chunk is empty. -/
def Solid (st : PipeState) : Prop := ∀ b ∈ st.buffer, b ≠ []

theorem TakenSpec.solid {t : Taken} (h : TakenSpec st data t) (hs : st.Solid) : t.st.Solid := by
  cases h with
  | nothing | full => exact hs
  | direct hd hr hb => exact hs
  | buffered hd hn hf =>
      intro b hb
      rcases List.mem_append.mp hb with hb | hb
      · exact hs b hb
      · rw [List.mem_singleton.mp hb]
        have hpos := List.length_pos_iff.mpr hd
        rw [← List.length_pos_iff, List.length_take]
        omega

variable (hs : st.Solid)
include hs

theorem Solid.write (flags : Flags) (data : ByteArray8) :
    (st.write flags data).st.Solid := by
  unfold PipeState.write
  split
  · exact hs
  · rename_i t ht
    have h := (writeAvailable_cases ht).2.2.solid hs
    split
    · exact h
    · split
      · split <;> exact h
      · exact h

theorem Solid.writeMore (handle offset : Nat) (data : ByteArray8) :
    (st.writeMore handle data offset).st.Solid := by
  have hs' : Solid { st with writeWaiters := WaitQueue.remove st.writeWaiters handle } := hs
  unfold PipeState.writeMore
  simp only
  split
  · exact hs
  · rename_i t ht
    have h := (writeAvailable_cases ht).2.2.solid hs'
    split <;> exact h

theorem Solid.read (reader n : Nat) : (st.read reader n).2.Solid := by
  rcases st.read_spec reader n with ⟨-, h⟩ | ⟨-, -, h⟩ | ⟨-, -, h⟩
  · rw [h]
    exact PipeRun.BlockInv.drainChunks_ne_nil st.buffer n hs
  · rwa [h]
  · rw [h]
    exact hs

theorem Solid.close (side : PipeEnd) : (st.close side).Solid := by
  cases side <;> exact hs

/-- A read that finds something to return finds bytes. -/
theorem Solid.bufferSize_pos (hb : st.buffer ≠ []) : 0 < st.bufferSize := by
  obtain ⟨b, rest, hbr⟩ := List.exists_cons_of_ne_nil hb
  have hpos := List.length_pos_iff.mpr (hs b (by simp [hbr]))
  simp only [bufferSize, hbr, List.map_cons, List.sum_cons]
  omega

end PipeState

theorem PipeRun.solid_step {r r' : PipeRun} {a : PipeAction} (h : r.st.Solid)
    (hs : r.step a = some r') : r'.st.Solid := by
  cases a with
  | write flags data =>
      cases hs
      exact h.write flags data
  | read length =>
      cases hs
      exact h.read _ length
  | close side =>
      cases hs
      exact h.close side
  | resume k =>
      simp only [PipeRun.step] at hs
      split at hs
      · cases hs
      · split at hs
        · cases hs
          exact h.writeMore k _ _
        · cases hs
  | waitForPoll =>
      cases hs
      exact h

theorem PipeManager.solid_close {m : PipeManager} (h : ∀ p, (m.states p).Solid) (d p : Nat) :
    ((m.close d).states p).Solid := by
  unfold PipeManager.close
  split
  · exact h p
  · rename_i ref hd
    split
    · simp only [update_apply]
      split
      · exact (h ref.pipeId).close ref.side
      · exact h p
    · exact h p

/-! ### Terminals open and close only by their descriptions -/

namespace Terminal

/-- The ends stay as open as they are. -/
def Stays (t t' : Terminal) : Prop :=
  t'.closedMaster = t.closedMaster ∧ t'.closedSlave = t.closedSlave

abbrev StaysBy {α : Type} (p : Tty α) : Prop := Within Stays p

variable {t t' : Terminal}

theorem Stays.of_reflTransGen (h : Relation.ReflTransGen Stays t t') : Stays t t' := by
  induction h with
  | refl => exact ⟨rfl, rfl⟩
  | tail _ hs ih => exact ⟨hs.1.trans ih.1, hs.2.trans ih.2⟩

theorem staysBy_via {f : Terminal → Except Failure Terminal}
    (hf : ∀ t t', f t = .ok t' → Stays t t') : StaysBy (via f) := by
  intro t
  refine state_of_wp (I := Relation.ReflTransGen Stays t) ?_
  simp only [via, wp_bind, wp_read, wp_update, id]
  exact wp_lift_of (fun t' ht => .single (hf t t' ht)) fun _ _ => .refl

theorem stays_deliverInput {data : ByteArray8} (h : t.deliverInput data = .ok t') :
    Stays t t' := by
  unfold deliverInput at h
  split at h
  · cases h
    exact ⟨rfl, rfl⟩
  · split at h <;> cases h
    exact ⟨rfl, rfl⟩

theorem stays_deliverOutput {full : String} {data : ByteArray8}
    (h : t.deliverOutput full data = .ok t') : Stays t t' := by
  unfold deliverOutput at h
  split at h
  · cases h
    exact ⟨rfl, rfl⟩
  · split at h <;> cases h
    exact ⟨rfl, rfl⟩

theorem staysBy_echoIf (data : ByteArray8) : StaysBy (echoIf data) :=
  .bind (.read _) fun _ => .ite (staysBy_via fun _ _ h => stays_deliverOutput h) (.pure _)

theorem staysBy_line (f : ByteArray8 → ByteArray8) :
    StaysBy (update fun t => { t with lineBuffer := f t.lineBuffer }) :=
  .update fun _ => .single ⟨rfl, rfl⟩

theorem staysBy_deliver {f : Terminal → ByteArray8} :
    StaysBy (via fun t => t.deliverInput (f t)) :=
  staysBy_via fun _ _ h => stays_deliverInput h

variable (answer : Nat → Nat)

theorem staysBy_signalForeground (signal : Nat) (excl : Bool) :
    StaysBy (signalForeground answer signal excl) :=
  .bind (.read _) fun _ =>
    .ite (.bind (.update fun _ => .single ⟨rfl, rfl⟩) fun _ => .pure _) (.pure _)

theorem staysBy_signalByte (signal : Nat) :
    StaysBy (signalByte answer signal) := by
  refine .bind (.update fun t => ?_) fun _ => .bind (.read _) fun _ => .ite ?_ ?_
  · split
    · exact .single ⟨rfl, rfl⟩
    · exact .refl
  · refine .bind (staysBy_echoIf _) fun _ => .bind (staysBy_signalForeground answer _ _) fun _ => ?_
    exact .ite staysBy_deliver (.pure _)
  · refine .bind ?_ fun _ => .map _ (staysBy_signalForeground answer _ _)
    exact .ite (staysBy_echoIf _) (.ite (staysBy_echoIf _) (.pure _))

theorem staysBy_canonByte (byte : UInt8) : StaysBy (canonByte byte) := by
  have hclear : StaysBy clearLine := staysBy_line fun _ => []
  refine .bind (.read _) fun _ => .ite ?_ (.ite ?_ (.ite ?_ ?_))
  · exact .bind (.read _) fun _ =>
      .ite staysBy_deliver (.bind staysBy_deliver fun _ => hclear)
  · exact .bind (.read _) fun _ =>
      .ite (.pure _) (.bind (staysBy_line List.dropLast) fun _ => staysBy_echoIf _)
  · exact .bind (staysBy_line (· ++ [0x0a])) fun _ => .bind (staysBy_echoIf _) fun _ =>
      .bind staysBy_deliver fun _ => hclear
  · exact .bind (.read _) fun _ =>
      .ite (.pure _) (.bind (staysBy_line (· ++ [byte])) fun _ => staysBy_echoIf _)

theorem staysBy_processByte (byte : UInt8) :
    StaysBy (processByte answer byte) := by
  refine .bind (.read _) fun t => ?_
  simp only
  split
  · exact staysBy_signalByte answer _
  · exact .ite (staysBy_canonByte _) (.bind (staysBy_echoIf _) fun _ => staysBy_deliver)

theorem staysBy_processInput (data : ByteArray8) :
    StaysBy (processInput answer data) := by
  have hbytes : ∀ data, StaysBy (processBytes answer data) := by
    intro data
    induction data with
    | nil => exact .pure _
    | cons byte rest ih => exact .bind (staysBy_processByte answer byte) fun _ => ih
  refine .bind (.read _) fun _ => .ite ?_ ?_
  · exact .bind (hbytes data) fun _ => .pure _
  · exact .bind staysBy_deliver fun _ => .pure _

theorem staysBy_write (side : PtyEnd) (answer : Nat → Nat) (data : ByteArray8) :
    StaysBy (write side answer data) := by
  refine .bind (.read _) fun t => ?_
  cases side with
  | master => exact .ite (.throw _) (.ite (.throw _) (staysBy_processInput answer data))
  | slave =>
    refine .ite (.throw _) (.ite (.throw _) ?_)
    exact .bind (staysBy_via fun _ _ h => stays_deliverOutput h) fun _ => .pure _

theorem stays_read {side : PtyEnd} {reader length : Nat} {o : PipeState.ReadOutcome}
    (h : read side reader length t = .ok (o, t')) : Stays t t' := by
  cases side <;>
  · simp only [read, readMaster, readSlave] at h
    split at h
    · cases h
    · split at h
      · cases h
        exact ⟨rfl, rfl⟩
      · split at h <;> cases h <;> exact ⟨rfl, rfl⟩

end Terminal

/-! ### The invariant -/

namespace PtyManager

variable {m m' : PtyManager}

/-- What is registered in the manager is open and known. -/
def Tidy (m : PtyManager) : Prop := m.view.Tidy PtyRef.ptyId m.nextPtyDescId

/-- The states of the PTYs change, but not which ends are closed. -/
theorem Tidy.setStates (h : m.Tidy) {states : Nat → PtyState}
    (hs : ∀ id, (states id).closedMaster = (m.states id).closedMaster ∧
      (states id).closedSlave = (m.states id).closedSlave) :
    Tidy { m with states := states } := by
  have hc : ∀ e : PtyRef, (states e.ptyId).closedAt e.side = (m.states e.ptyId).closedAt e.side :=
    fun e => by
      cases he : e.side with
      | master => exact (hs e.ptyId).1
      | slave => exact (hs e.ptyId).2
  have hv : view { m with states := states } = m.view := by
    simp only [view, Registry.ofStates, hc]
  unfold Tidy
  rw [hv]
  exact h

/-- One PTY changes, but not which of its ends are closed. -/
theorem Tidy.setState (h : m.Tidy) {id : Nat} {st : PtyState}
    (hm : st.closedMaster = (m.states id).closedMaster)
    (hs : st.closedSlave = (m.states id).closedSlave) :
    Tidy { m with states := update m.states id st } := by
  refine h.setStates fun x => ?_
  rw [update_apply]
  split
  · rename_i hx
    exact hx ▸ ⟨hm, hs⟩
  · exact ⟨rfl, rfl⟩

end PtyManager

/-- Pipes buffer no empty chunk; PTY ends that are registered are open. -/
structure DevicesOk (k : KernelImpl) : Prop where
  solid : ∀ p, (k.pipes.states p).Solid
  tidy : k.ptys.Tidy

namespace DevicesOk

variable {k k' : KernelImpl}

theorem boot (mounted : List (String × List String)) (max : Option Nat) :
    DevicesOk (.boot mounted max) where
  solid := fun _ _ hb => absurd hb List.not_mem_nil
  tidy := ⟨fun _ _ h => (nomatch h), fun _ _ h => (nomatch h), fun _ _ _ h => (nomatch h)⟩

theorem managerStep (h : DevicesOk k) (hs : KernelImpl.ManagerStep k k') : DevicesOk k' := by
  -- the pipes are the same, and the PTY manager is tidy
  have hpty : k'.pipes = k.pipes → k'.ptys.Tidy → DevicesOk k' := fun hp ht => ⟨hp ▸ h.solid, ht⟩
  cases hs with
  | same hp ht => exact hpty hp (ht ▸ h.tidy)
  | createPipe hp ht =>
      refine ⟨fun p => ?_, ht ▸ h.tidy⟩
      rw [hp]
      simp only [PipeManager.createPipe, update_apply]
      split
      · exact fun b hb => absurd hb List.not_mem_nil
      · exact h.solid p
  | closePipe d hp ht =>
      refine ⟨fun p => ?_, ht ▸ h.tidy⟩
      rw [hp]
      exact PipeManager.solid_close h.solid d p
  | createPty hp ht =>
      refine hpty hp ?_
      rw [ht]
      exact Registry.Tidy.create h.tidy (k.ptys.createPty_creates)
  | closePty d hp ht =>
      refine hpty hp ?_
      have hn : (k.ptys.close d).nextPtyDescId = k.ptys.nextPtyDescId := by
        unfold PtyManager.close
        split
        · rfl
        · split <;> rfl
      rw [ht, PtyManager.Tidy, hn]
      exact Registry.Tidy.close h.tidy (k.ptys.close_closes d)
  | setForegroundPgid d pgid hp ht =>
      refine hpty hp ?_
      unfold PtyManager.setForegroundPgid at ht
      cases hi : k.ptys.ptyOf d with
      | error e => simp [hi, bind, Except.bind] at ht
      | ok id =>
          simp only [hi, bind, Except.bind, pure, Except.pure, Except.ok.injEq] at ht
          exact ht ▸ h.tidy.setState rfl rfl
  | setSessionLeader d pgid hp ht =>
      refine hpty hp ?_
      unfold PtyManager.setSessionLeader at ht
      cases hi : k.ptys.ptyOf d with
      | error e => simp [hi, bind, Except.bind] at ht
      | ok id =>
          simp only [hi, bind, Except.bind, pure, Except.pure, Except.ok.injEq] at ht
          exact ht ▸ h.tidy.setState rfl rfl

theorem managed (h : DevicesOk k) (hs : KernelImpl.Managed k k') : DevicesOk k' := by
  induction hs with
  | refl => exact h
  | tail _ hs ih => exact ih.managerStep hs

variable {s s' : IoKernel} {a : IoAction}

section

variable (h : DevicesOk s.kernel)
include h

theorem setTerminal {id : Nat} {t : Terminal}
    (ht : (s.terminal id).Stays t) : DevicesOk (s.setTerminal id t).kernel :=
  ⟨h.solid, h.tidy.setState ht.1 ht.2⟩

theorem setPipes {b : PipeSysAction}
    (hs : (s.pipes.step b).map s.setPipes = some s') : DevicesOk s'.kernel := by
  obtain ⟨p, hp, rfl⟩ := Option.map_eq_some_iff.mp hs
  refine ⟨fun q => ?_, h.tidy⟩
  rcases PipeSys.run_step hp q with he | he | ⟨c, hc, -⟩
  · have hst : p.mgr.states q = s.kernel.pipes.states q := congrArg PipeRun.st he
    exact hst ▸ h.solid q
  · have hst : p.mgr.states q = .new := congrArg PipeRun.st he
    exact hst ▸ fun b hb => absurd hb List.not_mem_nil
  · exact PipeRun.solid_step (r := s.pipes.run q) (h.solid q) hc

theorem onTty {d : Nat} {f : Terminal → Terminal}
    (hf : ∀ t, Stays t (f t)) : DevicesOk (s.onTty d f).kernel := by
  unfold IoKernel.onTty
  split
  · exact h
  · exact h.setTerminal (hf _)

theorem step (hs : s.step a = some s') : DevicesOk s'.kernel := by
  cases a with
  | sys a =>
      obtain ⟨k, hk, rfl⟩ := Option.map_eq_some_iff.mp hs
      exact h.managed (KernelImpl.managed_step hk)
  | pipeRead | pipeWrite | pipeResume | waitForPoll => exact h.setPipes hs
  | ttyRead d length =>
      simp only [IoKernel.step, IoKernel.ttyRead] at hs
      split at hs
      · cases hs
        exact h
      · rename_i o s₁ hr
        cases hs
        split at hr
        · cases hr
        · split at hr
          · cases hr
          · rename_i t hrd
            cases hr
            exact h.setTerminal (stays_read hrd)
  | ttyWrite d answer data =>
      cases hs
      unfold IoKernel.ttyWrite
      split
      · exact h
      · exact h.setTerminal (Stays.of_reflTransGen (staysBy_write _ _ _ _))
  | setTermios | setDiscipline | setForegroundPgid =>
      cases hs
      exact h.onTty fun _ => ⟨rfl, rfl⟩

end

/-- In every state of every run. -/
theorem reach {mounted : List (String × List String)} {max : Option Nat}
    (h : Reach IoKernel.step Any (.boot mounted max) s) : DevicesOk s.kernel :=
  h.invariant (I := fun s => DevicesOk s.kernel) (boot mounted max) fun _ _ _ hd _ hs => hd.step hs

end DevicesOk

end SecureExec.Kernel
