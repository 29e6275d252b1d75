import SecureExec.Lib.Prog
import SecureExec.Kernel.FdTable
import SecureExec.Kernel.FileLock
import SecureExec.Kernel.Pipe
import SecureExec.Kernel.Pty

/-!
# Kernel — Syscalls — the kernel and its calls

`packages/core/src/kernel/kernel.ts` with the parts of `process-table.ts` and
`command-registry.ts` it uses.  A call is a program over the kernel that may throw; what it did
before it threw stays done.

What the code outside the kernel answers is an argument of the call: the file system's
`prepareOpenSync`, and in a `spawn` the permission callback, the drivers' `tryResolve` and the
driver's `spawn`.  Calls that a driver makes from inside its `spawn` come after the call here: past
that point `spawn` only registers the process.
-/

namespace SecureExec.Kernel
open SecureExec ProcessFDTable Prog

/-! ### The process table -/

inductive ProcessStatus where
  | running | stopped | exited
  deriving DecidableEq

/-- `ProcessEntry`, as far as descriptors and ownership depend on it. -/
structure ProcessEntry where
  ppid : Nat
  pgid : Nat
  sid : Nat
  driver : String
  status : ProcessStatus
  umask : Nat

/-! ### The kernel -/

/-- The pipe or PTY end a description was made for: `readDescription`, `writeDescription` of a
`PipeState`, `masterDescription`, `slaveDescription` of a `PtyState`. -/
inductive DescEnd where
  | pipe (ref : PipeRef)
  | pty (ref : PtyRef)
  deriving DecidableEq

structure KernelImpl where
  fds : FDTableManager
  pipes : PipeManager
  ptys : PtyManager
  ends : Nat → Option DescEnd
  locks : LockState
  processes : OMap Nat ProcessEntry
  nextPid : Nat
  /-- `commandRegistry`: the driver of each command, by name. -/
  commands : OMap String String
  /-- The drivers in the order they were mounted, by name. -/
  drivers : List String
  driverPids : OMap String (List Nat)
  maxProcesses : Option Nat
  disposed : Bool
  /-- The controller PID of each open shell. -/
  shells : Nat → Option Nat

/-- A system call: a program over the kernel. -/
abbrev Sys (α : Type) : Type := Prog Failure KernelImpl α

namespace KernelImpl

/-- A kernel with the given drivers mounted, each with its commands. -/
def boot (mounted : List (String × List String)) (maxProcesses : Option Nat) : KernelImpl where
  fds := .new
  pipes := .new
  ptys := .new
  ends := fun _ => none
  locks := .new
  processes := .empty
  nextPid := 1
  commands := mounted.foldl (fun m d => d.2.foldl (fun m c => m.set c d.1) m) .empty
  drivers := mounted.map Prod.fst
  driverPids := mounted.foldl (fun m d => if m.has d.1 then m else m.set d.1 []) .empty
  maxProcesses := maxProcesses
  disposed := false
  shells := fun _ => none

/-- The description object of a reference. -/
def desc (k : KernelImpl) (r : Nat) : FileDescription := k.fds.descs.objs r

def owns (k : KernelImpl) (driver : String) (pid : Nat) : Bool :=
  ((k.driverPids.get driver).getD []).contains pid

def assertOwns (driver : String) (pid : Nat) : Sys Unit := do
  let own ← read fun k => k.owns driver pid
  let any ← read fun k => k.driverPids.values.any (·.contains pid)
  if own then pure ()
  else if any then
    throw (.kernelError .EPERM ("driver \"" ++ driver ++ "\" does not own PID " ++ toString pid))
  else throw (.kernelError .ESRCH ("no such process " ++ toString pid))

def getTable (pid : Nat) : Sys ProcessFDTable := do
  match ← read fun k => k.fds.get pid with
  | some t => pure t
  | none => throw (.kernelError .ESRCH ("no FD table for PID " ++ toString pid))

def assertNotDisposed : Sys Unit := do
  if ← read KernelImpl.disposed then throw (.error "Kernel is disposed") else pure ()

/-- An operation of the table of a process. -/
def onTable {α : Type} (pid : Nat)
    (f : Descs → ProcessFDTable → Except Failure (α × Descs × ProcessFDTable)) : Sys α := do
  let t ← getTable pid
  let (a, s) ← lift (f (← read (·.fds.descs)) t)
  update fun k => { k with fds := k.fds.setTable pid s }
  return a

/-- An operation of the table of a process that cannot throw. -/
def withTable (k : KernelImpl) (pid : Nat) (f : Descs → ProcessFDTable → Descs × ProcessFDTable) :
    KernelImpl :=
  match k.fds.get pid with
  | none => k
  | some t => { k with fds := k.fds.setTable pid (f k.fds.descs t) }

/-! ### The end of a description -/

def closePipe (k : KernelImpl) (descId : Nat) : KernelImpl :=
  if k.pipes.isPipe descId then { k with pipes := k.pipes.close descId } else k

def closePty (k : KernelImpl) (descId : Nat) : KernelImpl :=
  if k.ptys.isPty descId then { k with ptys := k.ptys.close descId } else k

def releaseLock (k : KernelImpl) (descId : Nat) : KernelImpl :=
  { k with locks := k.locks.releaseByDescription descId }

/-- Signal pipe, PTY and lock closure when the last reference is dropped. -/
def releaseDescription (k : KernelImpl) (r : Nat) : KernelImpl :=
  if (k.desc r).refCount ≤ 0 then
    ((k.closePipe (k.desc r).id).closePty (k.desc r).id).releaseLock (k.desc r).id
  else k

/-! ### Descriptor calls -/

/-- The digits of a number in canonical form: `String(parseInt(raw, 10)) === raw`. -/
def parseFd (raw : List Char) : Option Nat :=
  let n := raw.foldl (fun n c => 10 * n + (c.toNat - '0'.toNat)) 0
  if raw.all Char.isDigit && Nat.toDigits 10 n == raw then some n else none

/-- What stands behind `/dev/fd/`. -/
def devFd? (path : String) : Option (List Char) :=
  if path.toList.take 8 = "/dev/fd/".toList then some (path.toList.drop 8) else none

/-- `mode & ~umask`. -/
def effectiveMode (mode umask : Nat) : Nat :=
  (BitVec.ofNat 32 mode &&& ~~~BitVec.ofNat 32 umask).toNat

def umaskOf (k : KernelImpl) (pid : Nat) : Nat :=
  match k.processes.get pid with
  | some e => e.umask
  | none => 0o022

/-- The rest of `fdOpen` for a path outside `/dev/fd`. -/
def openPath (pid : Nat) (path : String) (flags : Flags) (mode : Option Nat) (created : Bool) :
    Sys Nat := do
  let t ← getTable pid
  let (fd, r, m) ← lift
    ((← read KernelImpl.fds).openIn pid t path flags FILETYPE_REGULAR_FILE)
  update fun k => { k with fds := m }
  if created && flags.has O_CREAT then
    update fun k => { k with fds := { k.fds with
      descs := k.fds.descs.modify r fun d =>
        { d with creationMode := some (effectiveMode (mode.getD 0o666) (k.umaskOf pid)) } } }
    return fd
  else return fd

/-- `fdOpen`; `prepared` is what the file system's `prepareOpenSync` answers. -/
def fdOpen (driver : String) (pid : Nat) (path : String) (flags : Flags) (mode : Option Nat)
    (prepared : Except Failure Bool) : Sys Nat := do
  assertOwns driver pid
  match devFd? path with
  | some raw =>
    match parseFd raw with
    | none => throw (.kernelError .EBADF ("bad file descriptor: " ++ path))
    | some n => onTable pid fun h t => dup h t n
  | none =>
    if flags.has (O_CREAT ||| O_EXCL ||| O_TRUNC) then
      let created ← lift prepared
      openPath pid path flags mode created
    else openPath pid path flags mode false

def fdClose (driver : String) (pid fd : Nat) : Sys Unit := do
  assertOwns driver pid
  let t ← getTable pid
  match t.get fd with
  | none => pure ()
  | some e =>
    update fun k =>
      (k.withTable pid fun h t => close h t fd).releaseDescription e.description

def fdDup (driver : String) (pid fd : Nat) : Sys Nat := do
  assertOwns driver pid
  onTable pid fun h t => dup h t fd

def fdDup2 (driver : String) (pid oldFd newFd : Nat) : Sys Unit := do
  assertOwns driver pid
  let t ← getTable pid
  let target := t.get newFd
  onTable pid fun h t => (dup2 h t oldFd newFd).map fun s => ((), s)
  match target with
  | none => pure ()
  | some e => update fun k => k.releaseDescription e.description

def fdDupMin (driver : String) (pid fd minFd : Nat) : Sys Nat := do
  assertOwns driver pid
  onTable pid fun h t => dupMinFd h t fd minFd

/-- The entry of a descriptor. -/
def getEntry (pid fd : Nat) : Sys FDEntry := do
  let t ← getTable pid
  match t.get fd with
  | some e => pure e
  | none => throw (ebadf fd)

def setCloexec (pid fd : Nat) (value : Bool) : Sys Unit :=
  update fun k => k.withTable pid fun h t => (h, t.setCloexec fd value)

def fdSetCloexec (driver : String) (pid fd : Nat) (value : Bool) : Sys Unit := do
  assertOwns driver pid
  let _ ← getEntry pid fd
  setCloexec pid fd value

def F_DUPFD : Nat := 0
def F_GETFD : Nat := 1
def F_SETFD : Nat := 2
def F_GETFL : Nat := 3
def F_DUPFD_CLOEXEC : Nat := 1030
def FD_CLOEXEC : Nat := 1

def fcntl (driver : String) (pid fd cmd : Nat) (arg : Option Nat) : Sys Nat := do
  assertOwns driver pid
  let e ← getEntry pid fd
  if cmd = F_DUPFD then onTable pid fun h t => dupMinFd h t fd (arg.getD 0)
  else if cmd = F_DUPFD_CLOEXEC then
    let newFd ← onTable pid fun h t => dupMinFd h t fd (arg.getD 0)
    setCloexec pid newFd true
    return newFd
  else if cmd = F_GETFD then return if e.cloexec then FD_CLOEXEC else 0
  else if cmd = F_SETFD then
    setCloexec pid fd ((BitVec.ofNat 32 (arg.getD 0)).getLsbD 0)
    return 0
  else if cmd = F_GETFL then read fun k => (k.desc e.description).flags.toNat
  else throw (.kernelError .EINVAL ("unsupported fcntl command " ++ toString cmd))

/-! ### Pipes and terminals -/

/-- The two descriptions of a new pipe or PTY as objects. -/
def addPair (k : KernelImpl) (d₁ d₂ : FileDescription) (e₁ e₂ : DescEnd) : KernelImpl :=
  let r := k.fds.descs.next
  { k with
    fds := { k.fds with descs := ((k.fds.descs.alloc d₁).2.alloc d₂).2 }
    ends := Function.update (Function.update k.ends r (some e₁)) (r + 1) (some e₂) }

/-- The new pair's descriptors. -/
def openPair (pid : Nat) (r filetype : Nat) : Sys (Nat × Nat) := do
  let fd₁ ← onTable pid fun h t => openWith h t r filetype
  let fd₂ ← onTable pid fun h t => openWith h t (r + 1) filetype
  return (fd₁, fd₂)

/-- `pipeManager.createPipe`, in the kernel. -/
def createPipe (k : KernelImpl) : KernelImpl :=
  let (readDesc, writeDesc, m) := k.pipes.createPipe
  let id := k.pipes.nextPipeId
  { k.addPair readDesc writeDesc (.pipe ⟨id, .read⟩) (.pipe ⟨id, .write⟩) with pipes := m }

/-- `ptyManager.createPty`, in the kernel. -/
def createPty (k : KernelImpl) : KernelImpl :=
  let (masterDesc, slaveDesc, m) := k.ptys.createPty
  let id := k.ptys.nextPtyId
  { k.addPair masterDesc slaveDesc (.pty ⟨id, .master⟩) (.pty ⟨id, .slave⟩) with ptys := m }

def createPipeFDs (pid : Nat) : Sys (Nat × Nat) := do
  let r ← read (·.fds.descs.next)
  update createPipe
  openPair pid r FILETYPE_PIPE

def createPtyFDs (pid : Nat) : Sys (Nat × Nat) := do
  let r ← read (·.fds.descs.next)
  update createPty
  openPair pid r FILETYPE_CHARACTER_DEVICE

def pipe (driver : String) (pid : Nat) : Sys (Nat × Nat) := do
  assertOwns driver pid
  let _ ← getTable pid
  createPipeFDs pid

def openpty (driver : String) (pid : Nat) : Sys (Nat × Nat) := do
  assertOwns driver pid
  let _ ← getTable pid
  createPtyFDs pid

/-! ### Locks -/

/-- `flock` up to its first `await`. -/
def flock (driver : String) (pid fd : Nat) (operation : BitVec 32) : Sys Unit := do
  assertOwns driver pid
  let e ← getEntry pid fd
  let r ← read fun k =>
    k.locks.flock (k.desc e.description).path (k.desc e.description).id operation
  update fun k => { k with locks := r.2 }
  match r.1 with
  | .thrown err => throw err
  | _ => pure ()

/-! ### Processes -/

structure SpawnOptions where
  stdinFd : Option Nat
  stdoutFd : Option Nat
  stderrFd : Option Nat

def SpawnOptions.hasFdOverrides (o : SpawnOptions) : Bool :=
  o.stdinFd.isSome || o.stdoutFd.isSome || o.stderrFd.isSome

/-- `PermissionDecision`. -/
structure Decision where
  allow : Bool
  reason : Option String

/-- What the code outside the kernel answers in one `spawn`. -/
structure SpawnAnswers where
  /-- `d.tryResolve?.(basename)`, by driver. -/
  tryResolve : String → Except Failure Bool
  /-- `permissions.childProcess(request)`; `none` when there is no such permission. -/
  childProcess : Option (Except Failure Decision)
  /-- `driver.spawn(command, args, ctx)`. -/
  driverSpawn : Except Failure Unit

/-- The answers when nothing fails. -/
def answered : SpawnAnswers := ⟨fun _ => .ok false, none, .ok ()⟩

/-- What stands behind the last `/`. -/
def basename (command : String) : String :=
  String.ofList (command.toList.reverse.takeWhile (· ≠ '/')).reverse

/-- `commandRegistry.resolve`. -/
def resolve (k : KernelImpl) (command : String) : Option String :=
  match k.commands.get command with
  | some d => some d
  | none =>
    if command.toList.contains '/' && basename command ≠ "" then k.commands.get (basename command)
    else none

/-- On-demand discovery: ask mounted drivers to resolve unknown commands. -/
def discover (name : String) (a : SpawnAnswers) : List String → Sys (Option String)
  | [] => pure none
  | d :: ds => do
    if ← lift (a.tryResolve d) then
      update fun k => { k with commands := k.commands.set name d }
      return some d
    else discover name a ds

def resolveDriver (command : String) (a : SpawnAnswers) : Sys (Option String) := do
  match ← read fun k => k.resolve command with
  | some d => return some d
  | none =>
    if basename command ≠ "" then discover (basename command) a (← read KernelImpl.drivers)
    else return none

/-- `checkChildProcess`. -/
def checkChildProcess (command : String) (a : SpawnAnswers) : Except Failure Unit :=
  match a.childProcess with
  | none => .ok ()
  | some (.error e) => .error e
  | some (.ok d) =>
    if d.allow then .ok ()
    else
      match d.reason with
      | some reason =>
        .error (.kernelError .EACCES ("permission denied, spawn '" ++ command ++ "': " ++ reason))
      | none => .error (.kernelError .EACCES ("permission denied, spawn '" ++ command ++ "'"))

def runningCount (k : KernelImpl) : Nat := k.processes.values.countP (·.status == .running)

def overBudget (k : KernelImpl) : Bool :=
  match k.maxProcesses with
  | none => false
  | some max => max ≤ k.runningCount

/-- `driverPids.get(driver)?.add(pid)`. -/
def addPid (m : OMap String (List Nat)) (driver : String) (pid : Nat) : OMap String (List Nat) :=
  match m.get driver with
  | none => m
  | some pids => m.set driver (if pids.contains pid then pids else pids ++ [pid])

/-- The new PID belongs to the driver, and to the first other driver that owns the caller. -/
def recordOwners (k : KernelImpl) (driver : String) (pid : Nat) (callerPid : Option Nat) :
    KernelImpl :=
  let pids := addPid k.driverPids driver pid
  match callerPid with
  | none => { k with driverPids := pids }
  | some caller =>
    match pids.entries.find? fun e => e.1 ≠ driver && e.2.contains caller with
    | none => { k with driverPids := pids }
    | some e => { k with driverPids := addPid pids e.1 pid }

def NULL_FD : Nat := 0xFFFFFFFF

/-- Close the inherited stdio FD and install an override from the caller's table. -/
def applyStdioOverride (k : KernelImpl) (childPid : Nat) (callerTable : ProcessFDTable)
    (targetFd : Nat) (overrideFd : Option Nat) : KernelImpl :=
  match overrideFd with
  | none => k
  | some fd =>
    if fd = NULL_FD then k
    else
      match callerTable.get fd with
      | none => k
      | some e =>
        let existing := (k.fds.get childPid).bind (·.get targetFd)
        let k := k.withTable childPid fun h t => close h t targetFd
        let k := match existing with
          | none => k
          | some x => k.releaseDescription x.description
        k.withTable childPid fun h t =>
          openWithAt h t e.description e.filetype targetFd

/-- The descriptors above stdio that share a pipe with stdio. -/
def counterparts (k : KernelImpl) (t : ProcessFDTable) : List Nat :=
  let stdioPipes := [0, 1, 2].filterMap fun fd =>
    (t.get fd).bind fun e => k.pipes.pipeIdFor (k.desc e.description).id
  (t.entries.entries.filter fun e => decide (2 < e.1) &&
    match k.pipes.pipeIdFor (k.desc e.2.description).id with
    | none => false
    | some id => stdioPipes.contains id).map Prod.fst

def closeCounterparts (k : KernelImpl) (childPid : Nat) : KernelImpl :=
  match k.fds.get childPid with
  | none => k
  | some t =>
    (k.counterparts t).foldl
      (fun k fd => k.withTable childPid fun h t => close h t fd) k

/-- The table of the caller, when there is one; PID `0` is no caller. -/
def callerTable (k : KernelImpl) : Option Nat → Option ProcessFDTable
  | none => none
  | some pid => if pid = 0 then none else k.fds.get pid

def createChildFDTable (k : KernelImpl) (childPid : Nat) (o : SpawnOptions)
    (callerPid : Option Nat) : KernelImpl :=
  match k.callerTable callerPid with
  | none => { k with fds := k.fds.create childPid }
  | some ct =>
    let k := { k with fds := k.fds.fork ct childPid }
    if o.hasFdOverrides then
      let k := k.applyStdioOverride childPid ct 0 o.stdinFd
      let k := k.applyStdioOverride childPid ct 1 o.stdoutFd
      let k := k.applyStdioOverride childPid ct 2 o.stderrFd
      k.closeCounterparts childPid
    else k

/-- `processTable.register`. -/
def register (k : KernelImpl) (pid ppid : Nat) (driver : String) : KernelImpl :=
  let parent := if ppid = 0 then none else k.processes.get ppid
  let entry : ProcessEntry :=
    ⟨ppid, (parent.map (·.pgid)).getD pid, (parent.map (·.sid)).getD pid, driver, .running,
      (parent.map (·.umask)).getD 0o022⟩
  { k with processes := k.processes.set pid entry }

/-- What comes before the PID is allocated: the driver the command runs on. -/
def selectDriver (command : String) (a : SpawnAnswers) : Sys String := do
  match ← resolveDriver command a with
  | none => throw (.kernelError .ENOENT ("command not found: " ++ command))
  | some driver =>
    lift (checkChildProcess command a)
    if ← read overBudget then
      throw (.kernelError .EAGAIN "maximum process limit reached")
    else return driver

/-- The PID, its owners and its FD table. -/
def prepareChild (k : KernelImpl) (driver : String) (o : SpawnOptions) (callerPid : Option Nat) :
    KernelImpl :=
  let pid := k.nextPid
  (({ k with nextPid := pid + 1 }).recordOwners driver pid callerPid).createChildFDTable pid o
    callerPid

def spawnInternal (command : String) (o : SpawnOptions) (callerPid : Option Nat)
    (a : SpawnAnswers) : Sys Nat := do
  let driver ← selectDriver command a
  let pid ← read KernelImpl.nextPid
  update fun k => k.prepareChild driver o callerPid
  lift a.driverSpawn
  update fun k => k.register pid (callerPid.getD 0) driver
  return pid

/-- `kernel.spawn`. -/
def spawn (command : String) (o : SpawnOptions) (a : SpawnAnswers) : Sys Nat := do
  assertNotDisposed
  spawnInternal command o none a

/-- `KernelInterface.spawn`, by a driver. -/
def spawnFrom (driver : String) (command : String) (ppid : Nat) (o : SpawnOptions)
    (a : SpawnAnswers) : Sys Nat :=
  if ppid = 0 then spawnInternal command o (some ppid) a
  else do
    assertOwns driver ppid
    spawnInternal command o (some ppid) a

/-- `processTable.setpgid(pid, pid)`. -/
def setOwnPgid (pid : Nat) : Sys Unit := do
  match ← read fun k => k.processes.get pid with
  | none => throw (.kernelError .ESRCH ("no such process " ++ toString pid))
  | some e =>
    update fun k => { k with processes := k.processes.set pid { e with pgid := pid } }

def onPtys (f : PtyManager → Except Failure PtyManager) : Sys Unit := do
  let m ← lift (f (← read KernelImpl.ptys))
  update fun k => { k with ptys := m }

/-- Close the controller's copy of the slave. -/
def closeSlave (k : KernelImpl) (controllerPid slaveFd : Nat) : KernelImpl :=
  match (k.fds.get controllerPid).bind (·.get slaveFd) with
  | none => k
  | some e =>
    let k := k.withTable controllerPid fun h t => close h t slaveFd
    if (k.desc e.description).refCount ≤ 0 then
      { k with ptys := k.ptys.close (k.desc e.description).id }
    else k

/-- `openShell` up to the pump. -/
def openShell (command : String) (a : SpawnAnswers) : Sys Nat := do
  assertNotDisposed
  let controllerPid ← read KernelImpl.nextPid
  update fun k =>
    { k with nextPid := controllerPid + 1, fds := k.fds.create controllerPid }
  let (masterFd, slaveFd) ← createPtyFDs controllerPid
  let master ← getEntry controllerPid masterFd
  let masterDescId ← read fun k => (k.desc master.description).id
  let pid ← spawnInternal command ⟨some slaveFd, some slaveFd, some slaveFd⟩ (some controllerPid) a
  setOwnPgid pid
  onPtys fun m => m.setForegroundPgid masterDescId pid
  onPtys fun m => m.setSessionLeader masterDescId pid
  update fun k =>
    { k.closeSlave controllerPid slaveFd with
      shells := Function.update k.shells pid (some controllerPid) }
  return pid

/-! ### Process exit -/

inductive ManagedKind where
  | pipe | pty | lock
  deriving DecidableEq

/-- How `cleanupProcessFDs` files a description, before it closes anything. -/
def managedKind (k : KernelImpl) (descId : Nat) : Option ManagedKind :=
  if k.pipes.isPipe descId then some .pipe
  else if k.ptys.isPty descId then some .pty
  else if k.locks.mgr.hasLock descId then some .lock
  else none

def closeManaged (k : KernelImpl) (r : Nat) (kind : ManagedKind) : KernelImpl :=
  if (k.desc r).refCount ≤ 0 then
    match kind with
    | .pipe => { k with pipes := k.pipes.close (k.desc r).id }
    | .pty => { k with ptys := k.ptys.close (k.desc r).id }
    | .lock => k.releaseLock (k.desc r).id
  else k

/-- The descriptions of a table that need closing, each with its kind. -/
def managedDescs (k : KernelImpl) (t : ProcessFDTable) : List (Nat × ManagedKind) :=
  t.entries.values.filterMap fun e =>
    (k.managedKind (k.desc e.description).id).map fun kind => (e.description, kind)

def cleanupProcessFDs (k : KernelImpl) (pid : Nat) : KernelImpl :=
  match k.fds.get pid with
  | none => k
  | some t =>
    (k.managedDescs t).foldl (fun k m => k.closeManaged m.1 m.2) { k with fds := k.fds.remove pid }

/-- `markExited`, when the driver's process has exited. -/
def markExited (k : KernelImpl) (pid : Nat) : KernelImpl :=
  match k.processes.get pid with
  | none => k
  | some e =>
    if e.status = .exited then k
    else
      { k with processes := k.processes.set pid { e with status := .exited } }.cleanupProcessFDs pid

/-- `reap`, when the zombie timer fires. -/
def reap (k : KernelImpl) (pid : Nat) : KernelImpl :=
  match k.processes.get pid with
  | none => k
  | some e =>
    if e.status = .exited then
      { k with
        driverPids := match k.driverPids.get e.driver with
          | none => k.driverPids
          | some pids => k.driverPids.set e.driver (pids.filter (· ≠ pid))
        processes := k.processes.delete pid }
    else k

/-- The end of `openShell`'s `wait`: the controller's descriptors go when the shell has exited. -/
def shellDone (k : KernelImpl) (pid : Nat) : KernelImpl :=
  match k.shells pid with
  | none => k
  | some controllerPid =>
    { k.cleanupProcessFDs controllerPid with shells := Function.update k.shells pid none }

end KernelImpl

/-! ### Runs -/

inductive Syscall where
  | fdOpen (driver : String) (pid : Nat) (path : String) (flags : Flags) (mode : Option Nat)
      (prepared : Except Failure Bool)
  | fdClose (driver : String) (pid fd : Nat)
  | fdDup (driver : String) (pid fd : Nat)
  | fdDup2 (driver : String) (pid oldFd newFd : Nat)
  | fdDupMin (driver : String) (pid fd minFd : Nat)
  | fdSetCloexec (driver : String) (pid fd : Nat) (value : Bool)
  | fcntl (driver : String) (pid fd cmd : Nat) (arg : Option Nat)
  | pipe (driver : String) (pid : Nat)
  | openpty (driver : String) (pid : Nat)
  | flock (driver : String) (pid fd : Nat) (operation : BitVec 32)
  /-- The `flock` call that waits under this handle runs on. -/
  | resume (handle : Nat)
  | spawn (command : String) (o : KernelImpl.SpawnOptions) (a : KernelImpl.SpawnAnswers)
  | spawnFrom (driver command : String) (ppid : Nat) (o : KernelImpl.SpawnOptions)
      (a : KernelImpl.SpawnAnswers)
  | openShell (command : String) (a : KernelImpl.SpawnAnswers)
  | exit (pid : Nat)
  | reap (pid : Nat)
  | shellDone (pid : Nat)
  | dispose

namespace KernelImpl

/-- A call, without its value. -/
def perform : Syscall → Sys Unit
  | .fdOpen driver pid path flags mode prepared =>
    discard (fdOpen driver pid path flags mode prepared)
  | .fdClose driver pid fd => fdClose driver pid fd
  | .fdDup driver pid fd => discard (fdDup driver pid fd)
  | .fdDup2 driver pid oldFd newFd => fdDup2 driver pid oldFd newFd
  | .fdDupMin driver pid fd minFd => discard (fdDupMin driver pid fd minFd)
  | .fdSetCloexec driver pid fd value => fdSetCloexec driver pid fd value
  | .fcntl driver pid fd cmd arg => discard (fcntl driver pid fd cmd arg)
  | .pipe driver pid => discard (pipe driver pid)
  | .openpty driver pid => discard (openpty driver pid)
  | .flock driver pid fd operation => flock driver pid fd operation
  | .resume h => update fun k =>
    match k.locks.resume h with
    | none => k
    | some r => { k with locks := r.2.2 }
  | .spawn command o a => discard (spawn command o a)
  | .spawnFrom driver command ppid o a => discard (spawnFrom driver command ppid o a)
  | .openShell command a => discard (openShell command a)
  | .exit pid => update (·.markExited pid)
  | .reap pid => update (·.reap pid)
  | .shellDone pid => update (·.shellDone pid)
  | .dispose => update ({ · with disposed := true })

/-- Every call can be made; a lock call runs on only when it has been woken. -/
def step (k : KernelImpl) (a : Syscall) : Option KernelImpl :=
  match a with
  | .resume h => (k.locks.resume h).map fun r => { k with locks := r.2.2 }
  | a => some ((perform a).exec k).2

/-- The call throws. -/
def throws (k : KernelImpl) (a : Syscall) : Bool :=
  match ((perform a).exec k).1 with
  | .ok _ => false
  | .error _ => true

end KernelImpl

end SecureExec.Kernel
