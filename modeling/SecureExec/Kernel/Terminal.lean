import SecureExec.Lib.Prog
import SecureExec.Kernel.Pipe
import SecureExec.Kernel.Pty

/-!
# Kernel — Terminal — the line discipline and the buffers of a PTY

The rest of `packages/core/src/kernel/pty.ts`: a `Terminal` is a `PtyState` with its termios, its
line buffer and the buffers of its two directions.  A write is a program over the terminal; what it
did before it threw stays done.

A read that waits is its place among the waiters.  What `onSignal` answers is a parameter: the
number of processes signalled, by the number of the call, and `0` where the callback throws or is
missing.  What the signalled processes do comes after the write.
-/

namespace SecureExec.Kernel
open SecureExec KernelErrorCode Prog PipeState

/-- Maximum buffered bytes per PTY direction before writes are rejected. -/
def MAX_PTY_BUFFER_BYTES : Nat := 65536

/-- Maximum canonical-mode line buffer size. -/
def MAX_CANON : Nat := 4096

structure TermiosCC where
  vintr : Nat
  vquit : Nat
  vsusp : Nat
  veof : Nat
  verase : Nat
  deriving DecidableEq

structure Termios where
  icrnl : Bool
  opost : Bool
  onlcr : Bool
  icanon : Bool
  echo : Bool
  isig : Bool
  cc : TermiosCC
  deriving DecidableEq

def defaultTermios : Termios where
  icrnl := true
  opost := true
  onlcr := true
  icanon := true
  echo := true
  isig := true
  cc := ⟨0x03, 0x1c, 0x1a, 0x04, 0x7f⟩

/-- `Partial<Termios>`. -/
structure TermiosChange where
  icrnl : Option Bool
  opost : Option Bool
  onlcr : Option Bool
  icanon : Option Bool
  echo : Option Bool
  isig : Option Bool
  vintr : Option Nat
  vquit : Option Nat
  vsusp : Option Nat
  veof : Option Nat
  verase : Option Nat

/-- The change that changes nothing. -/
def TermiosChange.none : TermiosChange :=
  ⟨.none, .none, .none, .none, .none, .none, .none, .none, .none, .none, .none⟩

/-- A call of `onSignal`. -/
structure SignalCall where
  pgid : Nat
  signal : Nat
  excludeLeaders : Bool
  deriving DecidableEq

/-- A read that resolved with data: the end it reads, the call, and what it got. -/
structure Resolved where
  side : PtyEnd
  reader : Nat
  data : ByteArray8
  deriving DecidableEq

structure LineState where
  termios : Termios
  lineBuffer : ByteArray8
  inputBuffer : List ByteArray8
  outputBuffer : List ByteArray8
  /-- The reads that have resolved with data, in order. -/
  resolved : List Resolved
  /-- The calls of `onSignal`, in order. -/
  signals : List SignalCall

def LineState.new : LineState := ⟨defaultTermios, [], [], [], [], []⟩

structure Terminal extends PtyState, LineState

/-- A call on a terminal. -/
abbrev Tty (α : Type) : Type := Prog Failure Terminal α

namespace Terminal

/-- `createPty`. -/
def new : Terminal := { PtyState.new, LineState.new with }

def bufferBytes (buffer : List ByteArray8) : Nat := (buffer.map List.length).sum

/-! ### The two directions -/

/-- Deliver input data to the slave: to a read that waits, or to the buffer. -/
def deliverInput (data : ByteArray8) (t : Terminal) : Except Failure Terminal :=
  match t.inputWaiters with
  | waiter :: rest =>
    .ok { t with inputWaiters := rest, resolved := t.resolved ++ [⟨.slave, waiter, data⟩] }
  | [] =>
    if MAX_PTY_BUFFER_BYTES < bufferBytes t.inputBuffer + data.length then
      .error (.kernelError .EAGAIN "PTY input buffer full")
    else .ok { t with inputBuffer := t.inputBuffer ++ [data] }

/-- The output direction; `echoOutput` and a slave's `write` differ in the text of the error. -/
def deliverOutput (full : String) (data : ByteArray8) (t : Terminal) : Except Failure Terminal :=
  match t.outputWaiters with
  | waiter :: rest =>
    .ok { t with outputWaiters := rest, resolved := t.resolved ++ [⟨.master, waiter, data⟩] }
  | [] =>
    if MAX_PTY_BUFFER_BYTES < bufferBytes t.outputBuffer + data.length then
      .error (.kernelError .EAGAIN full)
    else .ok { t with outputBuffer := t.outputBuffer ++ [data] }

def echoOutput (data : ByteArray8) (t : Terminal) : Except Failure Terminal :=
  t.deliverOutput "PTY output buffer full (echo backpressure)" data

/-- A call that changes the terminal or throws. -/
def via (f : Terminal → Except Failure Terminal) : Tty Unit := do
  let t ← lift (f (← read id))
  update fun _ => t

/-- `if (termios.echo) this.echoOutput(state, data)`. -/
def echoIf (data : ByteArray8) : Tty Unit := do
  if ← read (·.termios.echo) then via (echoOutput data) else pure ()

/-! ### The line discipline -/

/-- Map control byte to signal number, or none if not a signal char. -/
def signalForByte (t : Terminal) (byte : UInt8) : Option Nat :=
  if byte.toNat = t.termios.cc.vintr then some 2
  else if byte.toNat = t.termios.cc.vsusp then some 20
  else if byte.toNat = t.termios.cc.vquit then some 3
  else none

/-- `onSignal`, when there is a foreground group. -/
def signalForeground (answer : Nat → Nat) (signal : Nat) (excludeLeaders : Bool) : Tty Nat := do
  let t ← read id
  if 0 < t.foregroundPgid then
    update fun t => { t with
      signals := t.signals ++ [⟨t.foregroundPgid, signal, excludeLeaders⟩] }
    return answer t.signals.length
  else return 0

/-- The shell is in the foreground: its children are signalled, and it is given a newline when
there are none. -/
def interceptSigint (answer : Nat → Nat) : Tty Unit := do
  echoIf [0x5e, 0x43, 0x0d, 0x0a]
  let childrenKilled ← signalForeground answer 2 true
  if childrenKilled = 0 then via (deliverInput [0x0a]) else pure ()

/-- `^Z` and `^\`, echoed. -/
def echoSignal (signal : Nat) : Tty Unit :=
  if signal = 20 then echoIf [0x5e, 0x5a, 0x0d, 0x0a]
  else if signal = 3 then echoIf [0x5e, 0x5c, 0x0d, 0x0a]
  else pure ()

def clearLine : Tty Unit := update fun t => { t with lineBuffer := [] }

/-- The session leader intercepts this signal. -/
def intercepts (t : Terminal) (signal : Nat) : Bool :=
  signal == 2 && decide (0 < t.sessionLeaderPgid) && t.foregroundPgid == t.sessionLeaderPgid

/-- A signal character. -/
def signalByte (answer : Nat → Nat) (signal : Nat) : Tty Unit := do
  update fun t => if t.termios.icanon then { t with lineBuffer := [] } else t
  if ← read (·.intercepts signal) then interceptSigint answer
  else
    echoSignal signal
    discard (signalForeground answer signal false)

/-- The newline ends the line and delivers it. -/
def newlineByte : Tty Unit := do
  update fun t => { t with lineBuffer := t.lineBuffer ++ [0x0a] }
  echoIf [0x0d, 0x0a]
  via fun t => t.deliverInput t.lineBuffer
  clearLine

/-- EOF char: flush or signal EOF. -/
def eofByte : Tty Unit := do
  if (← read (·.lineBuffer)) = [] then via (deliverInput [])
  else
    via fun t => t.deliverInput t.lineBuffer
    clearLine

/-- Erase char: erase last char. -/
def eraseByte : Tty Unit := do
  if (← read (·.lineBuffer)) = [] then pure ()
  else
    update fun t => { t with lineBuffer := t.lineBuffer.dropLast }
    echoIf [0x08, 0x20, 0x08]

/-- Regular char: buffer, capped at `MAX_CANON`. -/
def regularByte (byte : UInt8) : Tty Unit := do
  if MAX_CANON ≤ (← read (·.lineBuffer)).length then pure ()
  else
    update fun t => { t with lineBuffer := t.lineBuffer ++ [byte] }
    echoIf [byte]

def canonByte (byte : UInt8) : Tty Unit := do
  let cc ← read (·.termios.cc)
  if byte.toNat = cc.veof then eofByte
  else if byte.toNat = cc.verase ∨ byte = 0x08 then eraseByte
  else if byte = 0x0a then newlineByte
  else regularByte byte

/-- Raw mode: deliver immediately. -/
def rawByte (byte : UInt8) : Tty Unit := do
  echoIf [byte]
  via (deliverInput [byte])

/-- ICRNL: convert CR to NL before all other processing. -/
def translate (icrnl : Bool) (byte : UInt8) : UInt8 :=
  if icrnl && byte == 0x0d then 0x0a else byte

/-- The signal of a byte, when signal characters are on. -/
def signalOf (t : Terminal) (byte : UInt8) : Option Nat :=
  if t.termios.isig then t.signalForByte byte else none

/-- The body of the loop of `processInput`. -/
def processByte (answer : Nat → Nat) (byte : UInt8) : Tty Unit := do
  let t ← read id
  let byte := translate t.termios.icrnl byte
  match t.signalOf byte with
  | some signal => signalByte answer signal
  | none => if t.termios.icanon then canonByte byte else rawByte byte

def processBytes (answer : Nat → Nat) : ByteArray8 → Tty Unit
  | [] => pure ()
  | byte :: rest => do
    processByte answer byte
    processBytes answer rest

def applyInputTranslations (icrnl : Bool) (data : ByteArray8) : ByteArray8 :=
  data.map (translate icrnl)

/-- Raw-mode input delivers atomically. -/
def processInput (answer : Nat → Nat) (data : ByteArray8) : Tty Nat := do
  let termios ← read (·.termios)
  if termios.icanon || termios.echo || termios.isig then
    processBytes answer data
    return data.length
  else
    via (deliverInput (applyInputTranslations termios.icrnl data))
    return data.length

/-! ### Output processing -/

/-- A CR before each LF that has none; `prev` is the byte before. -/
def insertCR : Option UInt8 → ByteArray8 → ByteArray8
  | _, [] => []
  | prev, byte :: rest =>
    if byte = 0x0a ∧ prev ≠ some 0x0d then 0x0d :: byte :: insertCR (some byte) rest
    else byte :: insertCR (some byte) rest

def processOutput (t : Terminal) (data : ByteArray8) : ByteArray8 :=
  if t.termios.opost && t.termios.onlcr then insertCR none data else data

/-! ### The calls of a terminal -/

def write (side : PtyEnd) (answer : Nat → Nat) (data : ByteArray8) : Tty Nat := do
  let t ← read id
  match side with
  | .master =>
    if t.closedMaster then throw (.kernelError EIO "master closed")
    else if t.closedSlave then throw (.kernelError EIO "slave closed")
    else processInput answer data
  | .slave =>
    if t.closedSlave then throw (.kernelError EIO "slave closed")
    else if t.closedMaster then throw (.kernelError EIO "master closed")
    else
      via (deliverOutput "PTY output buffer full" (t.processOutput data))
      return data.length

/-- A master's `read`, by the call `reader`. -/
def readMaster (reader length : Nat) (t : Terminal) :
    Except Failure (ReadOutcome × Terminal) :=
  if t.closedMaster then .error (.kernelError EIO "master closed")
  else if t.outputBuffer ≠ [] then
    let r := drainChunks t.outputBuffer length
    .ok (.data r.1.flatten, { t with
      outputBuffer := r.2, resolved := t.resolved ++ [⟨.master, reader, r.1.flatten⟩] })
  else if t.closedSlave then .ok (.eof, t)
  else .ok (.waits, { t with outputWaiters := t.outputWaiters ++ [reader] })

/-- A slave's `read`, by the call `reader`. -/
def readSlave (reader length : Nat) (t : Terminal) :
    Except Failure (ReadOutcome × Terminal) :=
  if t.closedSlave then .error (.kernelError EIO "slave closed")
  else if t.inputBuffer ≠ [] then
    let r := drainChunks t.inputBuffer length
    .ok (.data r.1.flatten, { t with
      inputBuffer := r.2, resolved := t.resolved ++ [⟨.slave, reader, r.1.flatten⟩] })
  else if t.closedMaster then .ok (.eof, t)
  else .ok (.waits, { t with inputWaiters := t.inputWaiters ++ [reader] })

def read : PtyEnd → Nat → Nat → Terminal → Except Failure (ReadOutcome × Terminal)
  | .master => readMaster
  | .slave => readSlave

def setTermios (c : TermiosChange) (t : Terminal) : Terminal :=
  { t with termios :=
    { icrnl := c.icrnl.getD t.termios.icrnl
      opost := c.opost.getD t.termios.opost
      onlcr := c.onlcr.getD t.termios.onlcr
      icanon := c.icanon.getD t.termios.icanon
      echo := c.echo.getD t.termios.echo
      isig := c.isig.getD t.termios.isig
      cc :=
        { vintr := c.vintr.getD t.termios.cc.vintr
          vquit := c.vquit.getD t.termios.cc.vquit
          vsusp := c.vsusp.getD t.termios.cc.vsusp
          veof := c.veof.getD t.termios.cc.veof
          verase := c.verase.getD t.termios.cc.verase } } }

/-- `setDiscipline` sets three of the attributes. -/
def setDiscipline (canonical echo isig : Option Bool) (t : Terminal) : Terminal :=
  t.setTermios { TermiosChange.none with icanon := canonical, echo := echo, isig := isig }

end Terminal

end SecureExec.Kernel
