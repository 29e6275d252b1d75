import SecureExec.Kernel.Types
import SecureExec.Lib.OMap

/-!
# Process — Signals — what a signal does to one process

The entry of a process and the functions of `packages/core/src/kernel/process-table.ts` that work
on one entry: `deliverSignal`, `dispatchSignal`, `applyDefaultAction` and the parts of `sigaction`
and `sigprocmask` that change it, with the status words of `wstatus.ts`.

A dispatch ends in a call of code outside the table, the handler or `driverProcess.kill`, which may
call back into the table before it returns.  So these functions stop at that call: an `Outcome` is
the entry at that moment and the `Call` to make, and the table (`Process.Table`) makes it and goes
on when it returns.

A set of signals is the list of its elements.
-/

namespace SecureExec.Process

/-! ### Constants -/

def SIGKILL : Nat := 9
def SIGALRM : Nat := 14
def SIGCHLD : Nat := 17
def SIGCONT : Nat := 18
def SIGSTOP : Nat := 19
def SIGTSTP : Nat := 20
def SIGWINCH : Nat := 28

def SA_RESETHAND : Flags := 0x80000000

def SIG_BLOCK : Int := 0
def SIG_UNBLOCK : Int := 1
def SIG_SETMASK : Int := 2

def WNOHANG : Flags := 1

/-! ### Status words -/

/-- `encodeExitStatus`. -/
def encodeExitStatus (exitCode : Int) : BitVec 32 := (BitVec.ofInt 32 exitCode &&& 0xff) <<< 8

/-- `encodeSignalStatus`. -/
def encodeSignalStatus (signal : Nat) : BitVec 32 := BitVec.ofNat 32 signal &&& 0x7f

def WIFEXITED (status : BitVec 32) : Bool := (status &&& 0x7f) == 0
def WEXITSTATUS (status : BitVec 32) : BitVec 32 := status.sshiftRight 8 &&& 0xff
def WIFSIGNALED (status : BitVec 32) : Bool := (status &&& 0x7f) != 0
def WTERMSIG (status : BitVec 32) : BitVec 32 := status &&& 0x7f

/-! ### The entry of a process -/

/-- `SignalDisposition`; a function is known by a number. -/
inductive SignalDisposition where
  | default
  | ignore
  | user (handler : Nat)
  deriving DecidableEq

/-- `SignalHandler`. -/
structure SignalHandler where
  handler : SignalDisposition
  mask : List Nat
  flags : Flags
  deriving DecidableEq

/-- `ProcessSignalState`, without `signalWaiters`, on which only the socket table waits. -/
structure ProcessSignalState where
  handlers : OMap Nat SignalHandler
  blockedSignals : List Nat
  pendingSignals : List Nat
  deliverySeq : Nat
  lastDeliveredSignal : Option Nat
  lastDeliveredFlags : Flags

/-- The signal state of a new process. -/
def ProcessSignalState.initial : ProcessSignalState := ⟨.empty, [], [], 0, none, 0⟩

inductive ProcessStatus where
  | running
  | stopped
  | exited
  deriving DecidableEq

inductive ExitReason where
  | normal
  | signal
  deriving DecidableEq

/-- `ProcessEntry`: the fields that the modelled functions read. -/
structure ProcessEntry where
  ppid : Nat
  pgid : Nat
  sid : Nat
  driver : String
  status : ProcessStatus
  exitCode : Option Int
  exitReason : Option ExitReason
  termSignal : Nat
  umask : Nat
  signalState : ProcessSignalState

/-- Code outside the table that a dispatch calls: a handler, with the registration it is called for
and the mask to restore when it returns, or `driverProcess.kill`. -/
inductive Call where
  | handler (signal : Nat) (registration : SignalHandler) (savedBlocked : List Nat)
  | kill (signal : Nat)
  deriving DecidableEq

/-- What became of a signal: it was blocked and is recorded as pending, or it was dispatched. -/
inductive Fate where
  | pended (blocked : List Nat)
  | handled (handler : Nat)
  | ignored
  | defaulted
  deriving DecidableEq

/-- Was the signal dispatched? -/
def Fate.dispatched : Fate → Bool
  | pended _ => false
  | handled _ | ignored | defaulted => true

/-- Where `deliverSignal` and `dispatchSignal` end: the entry, the call to make, and what became of
the signal. -/
structure Outcome where
  entry : ProcessEntry
  call : Option Call
  fate : Fate

namespace ProcessEntry

/-- `entry.status !== "exited"`. -/
def live (e : ProcessEntry) : Bool := e.status != .exited

/-- The status word of `markExited` and `waitpid`. -/
def wstatus (e : ProcessEntry) : BitVec 32 :=
  if 0 < e.termSignal then encodeSignalStatus e.termSignal
  else encodeExitStatus (e.exitCode.getD 0)

/-- `signalState.blockedSignals` and `signalState.pendingSignals`. -/
def blocked (e : ProcessEntry) : List Nat := e.signalState.blockedSignals
def pending (e : ProcessEntry) : List Nat := e.signalState.pendingSignals

/-- `signalState.blockedSignals = set`. -/
def setBlocked (e : ProcessEntry) (set : List Nat) : ProcessEntry :=
  { e with signalState := { e.signalState with blockedSignals := set } }

/-- `signalState.pendingSignals.add(signal)`. -/
def addPending (e : ProcessEntry) (signal : Nat) : ProcessEntry :=
  { e with signalState :=
      { e.signalState with pendingSignals := e.signalState.pendingSignals.insert signal } }

/-- `signalState.pendingSignals.delete(signal)`. -/
def deletePending (e : ProcessEntry) (signal : Nat) : ProcessEntry :=
  { e with signalState :=
      { e.signalState with
        pendingSignals := e.signalState.pendingSignals.filter (· != signal) } }

/-- `signalState.handlers.set(signal, handler)`. -/
def setHandler (e : ProcessEntry) (signal : Nat) (handler : SignalHandler) : ProcessEntry :=
  { e with signalState :=
      { e.signalState with handlers := e.signalState.handlers.set signal handler } }

/-! ### Delivery -/

/-- `stop`. -/
def stop (e : ProcessEntry) : ProcessEntry :=
  if e.status = .running then { e with status := .stopped } else e

/-- `cont`. -/
def cont (e : ProcessEntry) : ProcessEntry :=
  if e.status = .stopped then { e with status := .running } else e

/-- `recordSignalDelivery`. -/
def recordSignalDelivery (e : ProcessEntry) (signal : Nat) (flags : Flags) : ProcessEntry :=
  { e with signalState :=
      { e.signalState with
        lastDeliveredSignal := some signal
        lastDeliveredFlags := flags
        deliverySeq := e.signalState.deliverySeq + 1 } }

/-- The signals whose default action is to terminate the process. -/
def terminates (signal : Nat) : Bool :=
  !(signal == SIGTSTP || signal == SIGSTOP || signal == SIGCONT || signal == SIGCHLD ||
    signal == SIGWINCH)

/-- `applyDefaultAction`, up to its call of `driverProcess.kill`. -/
def applyDefaultAction (e : ProcessEntry) (signal : Nat) : Outcome :=
  if signal = SIGTSTP ∨ signal = SIGSTOP then ⟨e.stop, some (.kill signal), .defaulted⟩
  else if signal = SIGCONT then ⟨e.cont, some (.kill signal), .defaulted⟩
  else if signal = SIGCHLD ∨ signal = SIGWINCH then ⟨e, none, .defaulted⟩
  else ⟨{ e with termSignal := signal }, some (.kill signal), .defaulted⟩

/-- The branches of `dispatchSignal` that apply the default action. -/
def dispatchDefault (e : ProcessEntry) (signal : Nat) : Outcome :=
  (if signal ≠ SIGCHLD then e.recordSignalDelivery signal 0 else e).applyDefaultAction signal

/-- `dispatchSignal`, up to its call of the handler. -/
def dispatchSignal (e : ProcessEntry) (signal : Nat) : Outcome :=
  match e.signalState.handlers.get signal with
  | none => e.dispatchDefault signal
  | some registration =>
    match registration.handler with
    | .ignore => ⟨e, none, .ignored⟩
    | .default => e.dispatchDefault signal
    | .user handler =>
      ⟨(e.recordSignalDelivery signal registration.flags).setBlocked
          ((e.blocked ∪ registration.mask).insert signal),
        some (.handler signal registration e.blocked), .handled handler⟩

/-- A signal that is blocked is recorded as pending, any other is dispatched. -/
def pendOrDispatch (e : ProcessEntry) (signal : Nat) : Outcome :=
  if signal ∈ e.blocked then ⟨e.addPending signal, none, .pended e.blocked⟩
  else e.dispatchSignal signal

/-- `deliverSignal`. -/
def deliverSignal (e : ProcessEntry) (signal : Nat) : Outcome :=
  if signal = SIGKILL ∨ signal = SIGSTOP then e.applyDefaultAction signal
  else if signal = SIGCONT then e.cont.pendOrDispatch signal
  else e.pendOrDispatch signal

/-- What `dispatchSignal` does when the handler has returned, before it delivers what is pending:
the mask is restored and a one-shot handler is reset. -/
def handlerReturned (e : ProcessEntry) (signal : Nat) (registration : SignalHandler)
    (savedBlocked : List Nat) : ProcessEntry :=
  if registration.flags.has SA_RESETHAND then
    (e.setBlocked savedBlocked).setHandler signal ⟨.default, [], 0⟩
  else e.setBlocked savedBlocked

/-- The mask that `sigprocmask` leaves, or its `EINVAL`. -/
def newMask (e : ProcessEntry) (how : Int) (set : List Nat) : Except Failure (List Nat) :=
  let filtered := set.filter fun s => s != SIGKILL && s != SIGSTOP
  if how = SIG_BLOCK then .ok (e.blocked ∪ filtered)
  else if how = SIG_UNBLOCK then .ok (e.blocked.filter (· ∉ filtered))
  else if how = SIG_SETMASK then .ok filtered
  else .error (.kernelError .EINVAL s!"invalid sigprocmask how: {how}")

/-- `markExited`, on the entry. -/
def exit (e : ProcessEntry) (exitCode : Int) : ProcessEntry :=
  { e with
    status := .exited
    exitCode := some exitCode
    exitReason := some (if 0 < e.termSignal then .signal else .normal) }

/-! ### What a delivery can do -/

/-- Would a dispatch of `signal` apply the default action? -/
def defaults (e : ProcessEntry) (signal : Nat) : Bool :=
  match e.signalState.handlers.get signal with
  | none => true
  | some registration => registration.handler == .default

/-- What a dispatch leaves of an entry, and which call it ends in. -/
structure DispatchSpec (e : ProcessEntry) (signal : Nat) (o : Outcome) : Prop where
  dispatched : o.fate.dispatched
  pending : o.entry.pending = e.pending
  exitCode : o.entry.exitCode = e.exitCode
  /-- A handler is called with its mask added, to be taken back afterwards. -/
  handler : ∀ x registration saved, o.call = some (.handler x registration saved) →
    x = signal ∧ saved = e.blocked ∧
      o.entry.blocked = (e.blocked ∪ registration.mask).insert signal
  /-- Nothing else changes the mask. -/
  blocked : (∀ x registration saved, o.call ≠ some (.handler x registration saved)) →
    o.entry.blocked = e.blocked
  /-- Only a default action that terminates sets `termSignal`. -/
  termSignal : o.entry.termSignal = e.termSignal ∨
    o.entry.termSignal = signal ∧ terminates signal ∧ (e.defaults signal ∨ signal = SIGKILL)

section Spec

variable {e : ProcessEntry} {signal : Nat}

@[simp] theorem pending_stop : e.stop.pending = e.pending := by unfold stop; split <;> rfl
@[simp] theorem blocked_stop : e.stop.blocked = e.blocked := by unfold stop; split <;> rfl
@[simp] theorem exitCode_stop : e.stop.exitCode = e.exitCode := by unfold stop; split <;> rfl
@[simp] theorem termSignal_stop : e.stop.termSignal = e.termSignal := by unfold stop; split <;> rfl
@[simp] theorem pending_cont : e.cont.pending = e.pending := by unfold cont; split <;> rfl
@[simp] theorem blocked_cont : e.cont.blocked = e.blocked := by unfold cont; split <;> rfl
@[simp] theorem exitCode_cont : e.cont.exitCode = e.exitCode := by unfold cont; split <;> rfl
@[simp] theorem termSignal_cont : e.cont.termSignal = e.termSignal := by unfold cont; split <;> rfl

theorem terminates_iff : terminates signal ↔ ¬ (signal = SIGTSTP ∨ signal = SIGSTOP) ∧
    ¬ signal = SIGCONT ∧ ¬ (signal = SIGCHLD ∨ signal = SIGWINCH) := by
  simp only [terminates, Bool.not_eq_true', Bool.or_eq_false_iff, beq_eq_false_iff_ne]
  tauto

theorem applyDefaultAction_spec (h : e.defaults signal ∨ signal = SIGKILL) :
    DispatchSpec e signal (e.applyDefaultAction signal) := by
  unfold applyDefaultAction
  split_ifs with h₁ h₂ h₃
  · exact ⟨rfl, pending_stop, exitCode_stop, nofun, fun _ => blocked_stop, .inl termSignal_stop⟩
  · exact ⟨rfl, pending_cont, exitCode_cont, nofun, fun _ => blocked_cont, .inl termSignal_cont⟩
  · exact ⟨rfl, rfl, rfl, nofun, fun _ => rfl, .inl rfl⟩
  · exact ⟨rfl, rfl, rfl, nofun, fun _ => rfl, .inr ⟨rfl, terminates_iff.mpr ⟨h₁, h₂, h₃⟩, h⟩⟩

theorem dispatchDefault_spec (h : e.defaults signal) :
    DispatchSpec e signal (e.dispatchDefault signal) := by
  unfold dispatchDefault
  split
  · -- recording the delivery touches none of these fields
    have hs : (e.recordSignalDelivery signal 0).defaults signal := h
    have hd := applyDefaultAction_spec (.inl hs)
    exact ⟨hd.dispatched, hd.pending, hd.exitCode, hd.handler, hd.blocked, hd.termSignal⟩
  · exact applyDefaultAction_spec (.inl h)

variable (e)

theorem dispatchSignal_spec (signal : Nat) :
    DispatchSpec e signal (e.dispatchSignal signal) := by
  unfold dispatchSignal
  split
  · rename_i hn
    exact dispatchDefault_spec (by simp [defaults, hn])
  · rename_i registration hr
    split
    · exact ⟨rfl, rfl, rfl, fun _ _ _ h => (by cases h), fun _ => rfl, .inl rfl⟩
    · rename_i hd
      exact dispatchDefault_spec (by simp [defaults, hr, hd])
    · refine ⟨rfl, rfl, rfl, ?_, fun h => absurd rfl (h _ _ _), .inl rfl⟩
      rintro x registration' saved ⟨⟩
      exact ⟨rfl, rfl, rfl⟩

/-- What a delivery leaves of an entry: the signal is pending because it is blocked, or it was
dispatched. -/
inductive DeliverSpec (e : ProcessEntry) (signal : Nat) (o : Outcome) : Prop where
  | pended (hb : signal ∈ e.blocked) (hs : signal ≠ SIGKILL ∧ signal ≠ SIGSTOP)
      (ho : o.fate = .pended e.blocked) (hc : o.call = none)
      (hp : o.entry.pending = e.pending.insert signal) (hm : o.entry.blocked = e.blocked)
      (hx : o.entry.exitCode = e.exitCode) (ht : o.entry.termSignal = e.termSignal)
  | dispatched (h : DispatchSpec e signal o)

theorem pendOrDispatch_spec (hs : signal ≠ SIGKILL ∧ signal ≠ SIGSTOP) :
    DeliverSpec e signal (e.pendOrDispatch signal) := by
  unfold pendOrDispatch
  split
  · rename_i hb
    exact .pended hb hs rfl rfl rfl rfl rfl rfl
  · exact .dispatched (dispatchSignal_spec e signal)

theorem deliverSignal_spec (signal : Nat) :
    DeliverSpec e signal (e.deliverSignal signal) := by
  unfold deliverSignal
  split_ifs with h₁ h₂
  · rcases h₁ with h | h
    · exact .dispatched (applyDefaultAction_spec (.inr h))
    · -- `SIGSTOP` does not terminate
      subst h
      exact .dispatched ⟨rfl, pending_stop, exitCode_stop, nofun, fun _ => blocked_stop,
        .inl termSignal_stop⟩
  · rw [not_or] at h₁
    have hd : e.cont.defaults signal = e.defaults signal := by
      unfold cont
      split <;> rfl
    cases pendOrDispatch_spec e.cont h₁ with
    | pended hb hs ho hc hp hm hx ht =>
        simp only [blocked_cont, pending_cont, exitCode_cont, termSignal_cont] at hb ho hp hm hx ht
        exact .pended hb hs ho hc hp hm hx ht
    | dispatched h =>
        obtain ⟨h₁, h₂, h₃, h₄, h₅, h₆⟩ := h
        simp only [blocked_cont, pending_cont, exitCode_cont, termSignal_cont, hd] at h₂ h₃ h₄ h₅ h₆
        exact .dispatched ⟨h₁, h₂, h₃, h₄, h₅, h₆⟩
  · rw [not_or] at h₁
    exact pendOrDispatch_spec e h₁

end Spec

end ProcessEntry

end SecureExec.Process
