import SecureExec.Process.Signals
import SecureExec.Lib.Lts

/-!
# Process — Table — the process table as a machine

`packages/core/src/kernel/process-table.ts` with the process budget of `spawnInternal`
(`kernel.ts`).  The table calls code outside it at four places: a signal handler, the `kill` of a
driver process, the exit hook `onProcessExit` and `driver.spawn`.  That code may call any operation
of the table before it returns or throws, to any depth.  So the machine keeps the stack of what is
on its way: a frame is either such outside code, or the rest of a loop or a function of the table
that waits for the call above it.

* A call of an operation is made with an empty stack or by outside code on top of it.
* `ret` and `throw` end the outside code on top; an exception takes the table's own frames below
  with it, up to the outside code that made the call.
* `run` takes the table's own frame on top one turn further.
* The two timers fire with an empty stack: JavaScript runs them after the current turn.

`onProcessReap` is no such place: the kernel's hook only forgets which driver owns the process.

`log` records what the statements speak of: which signals were directed at whom and what became of
them, the masks that `sigprocmask` left, the exits and the answers of `waitpid`.  No function reads
it.
-/

namespace SecureExec.Process

/-- A frame of the stack. -/
inductive Frame where
  /-- A handler is running; `since` is the length of the log when it was called. -/
  | handler (pid signal : Nat) (registration : SignalHandler) (savedBlocked : List Nat)
      (since : Nat)
  /-- `entry.driverProcess.kill(signal)` is running. -/
  | driverKill (pid signal : Nat)
  /-- `onProcessExit(pid)` is running, called by `markExited`. -/
  | exitHook (pid : Nat) (wstatus : BitVec 32)
  /-- `driver.spawn` is running for the allocated `pid`. -/
  | driverSpawn (pid ppid : Nat) (driver : String)
  /-- The loop of `deliverPendingSignals`. -/
  | pending (pid : Nat) (rest : List Nat)
  /-- The same, after a dispatch. -/
  | dispatched (pid : Nat) (rest : List Nat)
  /-- The loop of a group kill, before the entry in place `next`. -/
  | group (pgid signal : Nat) (excludeLeaders : Bool) (next count : Nat)
  /-- The end of `markExited`. -/
  | notify (pid : Nat) (wstatus : BitVec 32)
  deriving DecidableEq

namespace Frame

/-- Is it code outside the table? -/
def outside : Frame → Bool
  | handler .. | driverKill .. | exitHook .. | driverSpawn .. => true
  | pending .. | dispatched .. | group .. | notify .. => false

/-- Is it a handler of `pid`? -/
def handlerOf (pid : Nat) : Frame → Bool
  | handler p .. => p == pid
  | _ => false

/-- The frame of a call made for `pid`. -/
def ofCall (pid since : Nat) : Call → Frame
  | .handler signal registration savedBlocked =>
      handler pid signal registration savedBlocked since
  | .kill signal => driverKill pid signal

end Frame

/-- What `waitpid` answers. -/
structure WaitInfo where
  pid : Nat
  status : BitVec 32
  termSignal : Nat
  deriving DecidableEq

/-- The log. -/
inductive Event where
  /-- An operation, a child's exit or a timer directs `signal` at `pid`, which has not exited. -/
  | directed (pid signal : Nat)
  | fate (pid signal : Nat) (fate : Fate)
  /-- `sigprocmask` left `blocked`; `callers` is the stack it was called on. -/
  | masked (pid : Nat) (blocked : List Nat) (callers : List Frame)
  | exited (pid : Nat) (exitCode : Int) (termSignal : Nat)
  | reaped (pid : Nat)
  /-- The promise `call` of a `waitpid` waits for `pid`. -/
  | waiting (call pid : Nat)
  | answered (call : Nat) (info : WaitInfo)
  /-- The loop of a group kill has signalled `count` processes. -/
  | groupDone (pgid signal : Nat) (excludeLeaders : Bool) (count : Nat)
  deriving DecidableEq

/-- An alarm: when it was scheduled, in milliseconds, and for how long. -/
structure Alarm where
  scheduledAt : Nat
  seconds : Nat
  deriving DecidableEq

/-- `ProcessTable`, with the kernel's `maxProcesses`. -/
structure Machine where
  entries : OMap Nat ProcessEntry
  nextPid : Nat
  maxProcesses : Option Nat
  /-- The promises that wait for each process. -/
  waiters : Nat → List Nat
  nextCall : Nat
  alarmTimers : OMap Nat Alarm
  zombieTimers : List Nat
  stack : List Frame
  log : List Event

/-- The new table. -/
def Machine.boot (maxProcesses : Option Nat) : Machine where
  entries := .empty
  nextPid := 1
  maxProcesses := maxProcesses
  waiters := fun _ => []
  nextCall := 0
  alarmTimers := .empty
  zombieTimers := []
  stack := []
  log := []

/-- The operations. -/
inductive Op where
  /-- `spawnInternal`; `found` is the driver that has the command, or what the search for it or the
  permission check throws (`Kernel.Syscalls` has both). -/
  | spawn (found : Except Failure String) (callerPid : Option Nat)
  | allocatePid
  | markExited (pid : Nat) (exitCode : Int)
  | waitpid (pid : Nat) (options : Flags)
  | kill (pid signal : Int)
  | killGroupExcludeLeaders (pgid : Nat) (signal : Int)
  /-- `now` is the clock. -/
  | alarm (pid seconds now : Nat)
  | sigaction (pid : Nat) (signal : Int) (handler : SignalHandler)
  | sigprocmask (pid : Nat) (how : Int) (set : List Nat)
  | stop (pid : Nat)
  | cont (pid : Nat)
  | setpgid (pid pgid : Nat)
  | setsid (pid : Nat)

/-- What an operation returns; for `spawn`, `kill` of a process and `sigprocmask`, once the frames
above the caller are done. -/
inductive Value where
  | undefined
  | null
  | pid (pid : Nat)
  | remaining (seconds : Nat)
  | handler (previous : Option SignalHandler)
  | mask (previous : List Nat)
  | promise (call : Nat)
  deriving DecidableEq

def noSuchProcess {α : Type} (pid : Int) : Except Failure α :=
  .error (.kernelError .ESRCH s!"no such process {pid}")

namespace Machine

def push (m : Machine) (f : Frame) : Machine := { m with stack := f :: m.stack }

def emit (m : Machine) (e : Event) : Machine := { m with log := m.log ++ [e] }

def setEntry (m : Machine) (pid : Nat) (e : ProcessEntry) : Machine :=
  { m with entries := m.entries.set pid e }

/-- The entry of `pid`, or `ESRCH`. -/
def lookup (m : Machine) (pid : Nat) : Except Failure ProcessEntry :=
  match m.entries.get pid with
  | none => noSuchProcess pid
  | some e => .ok e

/-! ### Counting -/

/-- `runningCount`. -/
def runningCount (m : Machine) : Nat := m.entries.values.countP fun e => e.status == .running

/-- The processes that have not exited. -/
def liveCount (m : Machine) : Nat := m.entries.values.countP fun e => e.live

/-! ### Signals -/

/-- The outcome of a delivery to `pid`: its entry, what became of the signal, the call to make. -/
def settle (m : Machine) (pid signal : Nat) (o : Outcome) : Machine :=
  { m with
    entries := m.entries.set pid o.entry
    log := m.log ++ [.fate pid signal o.fate]
    stack := (o.call.map (Frame.ofCall pid (m.log.length + 1))).toList ++ m.stack }

/-- `deliverSignal(entry, signal)`. -/
def deliverSignal (m : Machine) (pid signal : Nat) : Machine :=
  match m.entries.get pid with
  | none => m
  | some e => m.settle pid signal (e.deliverSignal signal)

/-- `dispatchSignal(entry, signal)`. -/
def dispatchSignal (m : Machine) (pid signal : Nat) : Machine :=
  match m.entries.get pid with
  | none => m
  | some e => m.settle pid signal (e.dispatchSignal signal)

/-- `deliverPendingSignals(entry)`: the loop over the pending signals in ascending order. -/
def deliverPendingSignals (m : Machine) (pid : Nat) : Machine :=
  match m.entries.get pid with
  | none => m
  | some e =>
    if e.pending = [] then m else m.push (.pending pid (e.pending.insertionSort (· ≤ ·)))

/-- One turn of that loop. -/
def runPending (m : Machine) (pid : Nat) : List Nat → Machine
  | [] => m
  | signal :: rest =>
    match m.entries.get pid with
    | none => m
    | some e =>
      if signal ∉ e.blocked ∧ signal ∈ e.pending then
        ((m.setEntry pid (e.deletePending signal)).push (.dispatched pid rest)).dispatchSignal
          pid signal
      else m.push (.pending pid rest)

/-- The end of a turn that dispatched: `if (entry.status === "exited") break`. -/
def runDispatched (m : Machine) (pid : Nat) (rest : List Nat) : Machine :=
  match m.entries.get pid with
  | none => m
  | some e => if e.live then m.push (.pending pid rest) else m

/-- A signal for a process that has not exited. -/
def direct (m : Machine) (pid signal : Nat) : Machine :=
  (m.emit (.directed pid signal)).deliverSignal pid signal

/-- A signal for a process that has not exited, which gets it only if it is running. -/
def directIfRunning (m : Machine) (pid signal : Nat) : Machine :=
  match m.entries.get pid with
  | none => m
  | some e =>
    match e.status with
    | .exited => m
    | .stopped => m.emit (.directed pid signal)
    | .running => m.direct pid signal

/-- One turn of the loop of `kill` at a group and of `killGroupExcludeLeaders`, which skips session
leaders.  Iteration over a `Map` is by place, and sees the entries added meanwhile. -/
def runGroup (m : Machine) (pgid signal : Nat) (excludeLeaders : Bool) (next count : Nat) :
    Machine :=
  match m.entries.entries[next]? with
  | none => m.emit (.groupDone pgid signal excludeLeaders count)
  | some (pid, e) =>
    if e.pgid = pgid ∧ e.live ∧ ¬ (excludeLeaders ∧ pid = e.sid) then
      let m := m.push (.group pgid signal excludeLeaders (next + 1) (count + 1))
      if signal ≠ 0 then m.direct pid signal else m
    else m.push (.group pgid signal excludeLeaders (next + 1) count)

/-- What a group kill returns, or throws, when its loop has signalled `count` processes. -/
def groupResult (pgid : Nat) (excludeLeaders : Bool) (count : Nat) : Except Failure Nat :=
  if count = 0 ∧ !excludeLeaders then
    .error (.kernelError .ESRCH s!"no such process group {pgid}")
  else .ok count

/-- `signal < 0 || signal > 64`. -/
def checkSignal (signal : Int) : Except Failure Nat :=
  if signal < 0 ∨ signal > 64 then .error (.kernelError .EINVAL s!"invalid signal {signal}")
  else .ok signal.toNat

/-- `kill`. -/
def kill (m : Machine) (pid signal : Int) : Except Failure (Machine × Value) := do
  let signal ← checkSignal signal
  if pid < 0 then
    .ok (m.push (.group (-pid).toNat signal false 0 0), .undefined)
  else
    match m.entries.get pid.toNat with
    | none => noSuchProcess pid
    | some e =>
      if !e.live ∨ signal = 0 then .ok (m, .undefined)
      else .ok (m.direct pid.toNat signal, .undefined)

/-- `killGroupExcludeLeaders`. -/
def killGroupExcludeLeaders (m : Machine) (pgid : Nat) (signal : Int) :
    Except Failure (Machine × Value) := do
  let signal ← checkSignal signal
  return (m.push (.group pgid signal true 0 0), .undefined)

/-- `sigaction`. -/
def sigaction (m : Machine) (pid : Nat) (signal : Int) (handler : SignalHandler) :
    Except Failure (Machine × Value) := do
  let e ← m.lookup pid
  if signal < 1 ∨ signal > 64 then
    .error (.kernelError .EINVAL s!"invalid signal {signal}")
  else if signal.toNat = SIGKILL ∨ signal.toNat = SIGSTOP then
    .error (.kernelError .EINVAL s!"cannot catch or ignore signal {signal}")
  else
    .ok (m.setEntry pid (e.setHandler signal.toNat handler),
      .handler (e.signalState.handlers.get signal.toNat))

/-- `sigprocmask`. -/
def sigprocmask (m : Machine) (pid : Nat) (how : Int) (set : List Nat) :
    Except Failure (Machine × Value) := do
  let e ← m.lookup pid
  let mask ← e.newMask how set
  return (((m.setEntry pid (e.setBlocked mask)).emit
    (.masked pid mask m.stack)).deliverPendingSignals pid, .mask e.blocked)

/-! ### Alarms -/

/-- What is left of an alarm: `Math.max(0, Math.ceil(seconds - elapsed))`. -/
def remaining (a : Alarm) (now : Nat) : Nat :=
  (1000 * a.seconds - (now - a.scheduledAt) + 999) / 1000

/-- `alarm`. -/
def alarm (m : Machine) (pid seconds now : Nat) : Except Failure (Machine × Value) := do
  let _ ← m.lookup pid
  let left := (m.alarmTimers.get pid).elim 0 (remaining · now)
  let timers := m.alarmTimers.delete pid
  if seconds = 0 then .ok ({ m with alarmTimers := timers }, .remaining left)
  else .ok ({ m with alarmTimers := timers.set pid ⟨now, seconds⟩ }, .remaining left)

/-- The callback of the timer of `alarm`. -/
def alarmExpiry (m : Machine) (pid : Nat) : Machine :=
  { m with alarmTimers := m.alarmTimers.delete pid }.directIfRunning pid SIGALRM

/-! ### Exit and wait -/

/-- `markExited`, up to its call of `onProcessExit`. -/
def markExited (m : Machine) (pid : Nat) (exitCode : Int) : Machine :=
  match m.entries.get pid with
  | none => m
  | some e =>
    if e.live then
      (({ m with alarmTimers := m.alarmTimers.delete pid }.setEntry pid (e.exit exitCode)).emit
        (.exited pid exitCode e.termSignal)).push (.exitHook pid (e.exit exitCode).wstatus)
    else m

/-- `markExited` after that call: `SIGCHLD` to the parent, then the rest. -/
def exitHookReturned (m : Machine) (pid : Nat) (wstatus : BitVec 32) : Machine :=
  match m.entries.get pid with
  | none => m.push (.notify pid wstatus)
  | some e =>
    if 0 < e.ppid then (m.push (.notify pid wstatus)).directIfRunning e.ppid SIGCHLD
    else m.push (.notify pid wstatus)

/-- The end of `markExited`: the waiters are answered, the zombie timer is set. -/
def notifyWaiters (m : Machine) (pid : Nat) (wstatus : BitVec 32) : Machine :=
  match m.entries.get pid with
  | none => m
  | some e =>
    { m with
      log := m.log ++ (m.waiters pid).map fun call =>
        .answered call ⟨pid, wstatus, e.termSignal⟩
      waiters := Function.update m.waiters pid []
      zombieTimers := m.zombieTimers.insert pid }

/-- `waitpid`. -/
def waitpid (m : Machine) (pid : Nat) (options : Flags) : Except Failure (Machine × Value) :=
  match m.entries.get pid with
  | none => .error (.error s!"ESRCH: no such process {pid}")
  | some e =>
    if !e.live then
      .ok ({ m.emit (.answered m.nextCall ⟨pid, e.wstatus, e.termSignal⟩) with
        nextCall := m.nextCall + 1 }, .promise m.nextCall)
    else if options.has WNOHANG then .ok (m, .null)
    else
      .ok ({ m.emit (.waiting m.nextCall pid) with
        nextCall := m.nextCall + 1
        waiters := Function.update m.waiters pid (m.waiters pid ++ [m.nextCall]) },
        .promise m.nextCall)

/-- `reap`, called by the zombie timer. -/
def reap (m : Machine) (pid : Nat) : Machine :=
  match m.entries.get pid with
  | none => m
  | some e => if e.live then m else { m with entries := m.entries.delete pid }.emit (.reaped pid)

/-! ### Spawning, groups and sessions -/

/-- The budget check of `spawnInternal`. -/
def overBudget (m : Machine) : Bool :=
  m.maxProcesses.elim false fun max => decide (max ≤ m.runningCount)

/-- `spawnInternal`, up to its call of `driver.spawn`.  Where `createChildFDTable` throws, the
frame throws at once. -/
def spawn (m : Machine) (found : Except Failure String) (callerPid : Option Nat) :
    Except Failure (Machine × Value) := do
  let driver ← found
  if m.overBudget then .error (.kernelError .EAGAIN "maximum process limit reached")
  else
    .ok ({ m with nextPid := m.nextPid + 1 }.push
      (.driverSpawn m.nextPid (callerPid.getD 0) driver), .pid m.nextPid)

/-- `register`: group, session and umask are the parent's, if it has an entry. -/
def register (m : Machine) (pid ppid : Nat) (driver : String) : Machine :=
  let parent := if ppid = 0 then none else m.entries.get ppid
  m.setEntry pid
    { ppid := ppid
      pgid := parent.elim pid (·.pgid)
      sid := parent.elim pid (·.sid)
      driver := driver
      status := .running
      exitCode := none
      exitReason := none
      termSignal := 0
      umask := parent.elim 0o022 (·.umask)
      signalState := .initial }

/-- The check of `setpgid`: a group other than the process's own has a member, and the first is in
the session of `e`. -/
def checkGroup (m : Machine) (e : ProcessEntry) (pid targetPgid : Nat) : Except Failure Unit :=
  if targetPgid ≠ pid then
    match m.entries.values.find? fun e => e.pgid == targetPgid && e.live with
    | none => .error (.kernelError .EPERM s!"no such process group {targetPgid}")
    | some member =>
      if member.sid ≠ e.sid then
        .error (.kernelError .EPERM "cannot join process group in different session")
      else .ok ()
  else .ok ()

/-- `setpgid`. -/
def setpgid (m : Machine) (pid pgid : Nat) : Except Failure (Machine × Value) := do
  let e ← m.lookup pid
  let targetPgid := if pgid = 0 then pid else pgid
  m.checkGroup e pid targetPgid
  return (m.setEntry pid { e with pgid := targetPgid }, .undefined)

/-- `setsid`. -/
def setsid (m : Machine) (pid : Nat) : Except Failure (Machine × Value) := do
  let e ← m.lookup pid
  if e.pgid = pid then
    .error (.kernelError .EPERM s!"process {pid} is already a process group leader")
  else .ok (m.setEntry pid { e with sid := pid, pgid := pid }, .pid pid)

/-- `stop` and `cont`, as operations. -/
def change (m : Machine) (pid : Nat) (f : ProcessEntry → ProcessEntry) :
    Except Failure (Machine × Value) := do
  let e ← m.lookup pid
  return (m.setEntry pid (f e), .undefined)

/-! ### Steps -/

/-- An operation. -/
def perform (m : Machine) : Op → Except Failure (Machine × Value)
  | .spawn found callerPid => m.spawn found callerPid
  | .allocatePid => .ok ({ m with nextPid := m.nextPid + 1 }, .pid m.nextPid)
  | .markExited pid exitCode => .ok (m.markExited pid exitCode, .undefined)
  | .waitpid pid options => m.waitpid pid options
  | .kill pid signal => m.kill pid signal
  | .killGroupExcludeLeaders pgid signal => m.killGroupExcludeLeaders pgid signal
  | .alarm pid seconds now => m.alarm pid seconds now
  | .sigaction pid signal handler => m.sigaction pid signal handler
  | .sigprocmask pid how set => m.sigprocmask pid how set
  | .stop pid => m.change pid ProcessEntry.stop
  | .cont pid => m.change pid ProcessEntry.cont
  | .setpgid pid pgid => m.setpgid pid pgid
  | .setsid pid => m.setsid pid

/-- May an operation be called: by the host, or by the outside code on top. -/
def callable (m : Machine) : Bool :=
  match m.stack with
  | [] => true
  | f :: _ => f.outside

/-- Outside code has returned. -/
def resume (m : Machine) : Frame → Machine
  | .handler pid signal registration savedBlocked _ =>
    match m.entries.get pid with
    | none => m
    | some e =>
      (m.setEntry pid
        (e.handlerReturned signal registration savedBlocked)).deliverPendingSignals pid
  | .exitHook pid wstatus => m.exitHookReturned pid wstatus
  | .driverSpawn pid ppid driver => m.register pid ppid driver
  | _ => m

/-- Outside code has thrown: the `finally` of `dispatchSignal` restores the mask. -/
def abandon (m : Machine) : Frame → Machine
  | .handler pid _ _ savedBlocked _ =>
    match m.entries.get pid with
    | none => m
    | some e => m.setEntry pid (e.setBlocked savedBlocked)
  | _ => m

/-- One turn of a frame of the table. -/
def turn (m : Machine) : Frame → Machine
  | .pending pid rest => m.runPending pid rest
  | .dispatched pid rest => m.runDispatched pid rest
  | .group pgid signal excludeLeaders next count => m.runGroup pgid signal excludeLeaders next count
  | .notify pid wstatus => m.notifyWaiters pid wstatus
  | _ => m

end Machine

/-- The actions. -/
inductive Action where
  | call (op : Op)
  | ret
  | throw
  | run
  | alarmExpiry (pid : Nat)
  | zombieExpiry (pid : Nat)

open Machine in
/-- A step.  An operation that throws leaves the machine as it was. -/
def step (m : Machine) : Action → Option Machine
  | .call op =>
    if m.callable then
      match m.perform op with
      | .ok (m', _) => some m'
      | .error _ => some m
    else none
  | .ret =>
    match m.stack with
    | [] => none
    | f :: k => if f.outside then some ({ m with stack := k }.resume f) else none
  | .throw =>
    match m.stack with
    | [] => none
    | f :: k =>
      if f.outside then some ({ m with stack := k.dropWhile (!·.outside) }.abandon f) else none
  | .run =>
    match m.stack with
    | [] => none
    | f :: k => if f.outside then none else some ({ m with stack := k }.turn f)
  | .alarmExpiry pid =>
    if m.stack = [] ∧ m.alarmTimers.has pid then some (m.alarmExpiry pid) else none
  | .zombieExpiry pid =>
    if m.stack = [] ∧ pid ∈ m.zombieTimers then
      some ({ m with zombieTimers := m.zombieTimers.erase pid }.reap pid)
    else none

end SecureExec.Process
