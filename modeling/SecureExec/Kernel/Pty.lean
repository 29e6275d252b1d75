import SecureExec.Kernel.Types
import SecureExec.Kernel.Wait

/-!
# Kernel — Pty — the PTY manager

The part of `packages/core/src/kernel/pty.ts` that makes, names and closes terminals: which
description ids are the ends of which PTY, and which ends are closed.  The line discipline and the
buffers are not part of it.

What a driver does with the `SIGHUP` of a closed master is a step of that driver.
-/

namespace SecureExec.Kernel
open SecureExec Function

inductive PtyEnd where
  | master | slave
  deriving DecidableEq

structure PtyRef where
  ptyId : Nat
  side : PtyEnd
  deriving DecidableEq

structure PtyState where
  closedMaster : Bool
  closedSlave : Bool
  /-- The slave reads that wait, by call. -/
  inputWaiters : List Nat
  /-- The master reads that wait, by call. -/
  outputWaiters : List Nat
  foregroundPgid : Nat
  sessionLeaderPgid : Nat

namespace PtyState

def new : PtyState := ⟨false, false, [], [], 0, 0⟩

/-- `close` of one end; every read that waits gets an end of file. -/
def close (st : PtyState) : PtyEnd → PtyState
  | .master => { st with closedMaster := true, inputWaiters := [], outputWaiters := [] }
  | .slave => { st with closedSlave := true, inputWaiters := [], outputWaiters := [] }

end PtyState

/-- `PtyManager`. -/
structure PtyManager where
  states : Nat → PtyState
  ptys : Nat → Bool
  descToPty : Nat → Option PtyRef
  nextPtyId : Nat
  nextPtyDescId : Nat

namespace PtyManager

def new : PtyManager where
  states := fun _ => .new
  ptys := fun _ => false
  descToPty := fun _ => none
  nextPtyId := 0
  nextPtyDescId := 200000

/-- `createPty`: the master and the slave description, and the manager with the PTY. -/
def createPty (m : PtyManager) : FileDescription × FileDescription × PtyManager :=
  let id := m.nextPtyId
  let masterDesc : FileDescription :=
    ⟨m.nextPtyDescId, "pty:" ++ toString id ++ ":master", 0, O_RDWR, 0, none⟩
  let slaveDesc : FileDescription :=
    ⟨m.nextPtyDescId + 1, "/dev/pts/" ++ toString id, 0, O_RDWR, 0, none⟩
  (masterDesc, slaveDesc, { m with
    states := update m.states id .new
    ptys := update m.ptys id true
    descToPty := update (update m.descToPty masterDesc.id (some ⟨id, .master⟩))
      slaveDesc.id (some ⟨id, .slave⟩)
    nextPtyId := id + 1
    nextPtyDescId := m.nextPtyDescId + 2 })

def close (m : PtyManager) (descriptionId : Nat) : PtyManager :=
  match m.descToPty descriptionId with
  | none => m
  | some ref =>
    if m.ptys ref.ptyId then
      let st := (m.states ref.ptyId).close ref.side
      { m with
        states := update m.states ref.ptyId st
        descToPty := update m.descToPty descriptionId none
        ptys :=
          if st.closedMaster && st.closedSlave then update m.ptys ref.ptyId false
          else m.ptys }
    else m

def isPty (m : PtyManager) (descriptionId : Nat) : Bool := (m.descToPty descriptionId).isSome

/-- The PTY of a description, as `setForegroundPgid` and `setSessionLeader` look it up. -/
def ptyOf (m : PtyManager) (descriptionId : Nat) : Except Failure Nat :=
  match m.descToPty descriptionId with
  | none => .error (.kernelError .EBADF "not a PTY end")
  | some ref =>
    if m.ptys ref.ptyId then .ok ref.ptyId else .error (.kernelError .EBADF "PTY not found")

def setForegroundPgid (m : PtyManager) (descriptionId pgid : Nat) : Except Failure PtyManager := do
  let id ← m.ptyOf descriptionId
  return { m with
    states := update m.states id { m.states id with foregroundPgid := pgid } }

def setSessionLeader (m : PtyManager) (descriptionId pgid : Nat) : Except Failure PtyManager := do
  let id ← m.ptyOf descriptionId
  return { m with
    states := update m.states id { m.states id with sessionLeaderPgid := pgid } }

end PtyManager

end SecureExec.Kernel
