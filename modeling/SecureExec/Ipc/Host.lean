import SecureExec.Ipc.Native

/-!
# Ipc — Host — the wire format in the host

The binary frames of `ipc-binary.ts`, `encodeFrame`, `decodeFrame` and `extractSessionId`, over
the `Buffer` methods they call.  A number is the integer it holds (numbers that are no integers
are left out), and `none` where it may be `undefined`; a position is `none` once `undefined` was
added to it (`NaN`).  The methods differ at the end of a buffer: an index gives `undefined`,
`toString` and `subarray` stop at the end, and the fixed-width reads throw.

`toHost` is the frame of the native runtime as the host has it.
-/

namespace Ipc.Host
open Wire

/-! ### Constants -/

/-- Maximum frame payload: 64 MB. -/
def MAX_FRAME_SIZE : Nat := 64 * 1024 * 1024

@[match_pattern] abbrev MSG_AUTHENTICATE : UInt8 := 0x01
@[match_pattern] abbrev MSG_CREATE_SESSION : UInt8 := 0x02
@[match_pattern] abbrev MSG_DESTROY_SESSION : UInt8 := 0x03
@[match_pattern] abbrev MSG_INJECT_GLOBALS : UInt8 := 0x04
@[match_pattern] abbrev MSG_EXECUTE : UInt8 := 0x05
@[match_pattern] abbrev MSG_BRIDGE_RESPONSE : UInt8 := 0x06
@[match_pattern] abbrev MSG_STREAM_EVENT : UInt8 := 0x07
@[match_pattern] abbrev MSG_TERMINATE_EXECUTION : UInt8 := 0x08
@[match_pattern] abbrev MSG_WARM_SNAPSHOT : UInt8 := 0x09
@[match_pattern] abbrev MSG_BRIDGE_CALL : UInt8 := 0x81
@[match_pattern] abbrev MSG_EXECUTION_RESULT : UInt8 := 0x82
@[match_pattern] abbrev MSG_LOG : UInt8 := 0x83
@[match_pattern] abbrev MSG_STREAM_CALLBACK : UInt8 := 0x84

def FLAG_HAS_EXPORTS : UInt8 := 0x01
def FLAG_HAS_ERROR : UInt8 := 0x02

/-! ### Frames -/

/-- Structured error in binary format. -/
structure ExecutionErrorBin where
  errorType : String
  message : String
  stack : String
  code : String
  deriving DecidableEq

/-- A decoded binary frame. -/
inductive BinaryFrame where
  | authenticate (token : String)
  | createSession (sessionId : String) (heapLimitMb cpuTimeLimitMs : Int)
  | destroySession (sessionId : String)
  | injectGlobals (sessionId : String) (payload : List UInt8)
  | execute (sessionId : String) (mode : Option Int)
      (filePath bridgeCode postRestoreScript userCode : String)
  | bridgeResponse (sessionId : String) (callId : Int) (status : Option Int)
      (payload : List UInt8)
  | streamEvent (sessionId eventType : String) (payload : List UInt8)
  | terminateExecution (sessionId : String)
  | warmSnapshot (bridgeCode : String)
  | bridgeCall (sessionId : String) (callId : Int) (method : String) (payload : List UInt8)
  | executionResult (sessionId : String) (exitCode : Int) (exports : Option (List UInt8))
      (error : Option ExecutionErrorBin)
  | log (sessionId : String) (channel : Option Int) (message : String)
  | streamCallback (sessionId callbackType : String) (payload : List UInt8)
  deriving DecidableEq

/-- `new Error(message)`, or the `RangeError` of a `Buffer` method. -/
inductive JsError where
  | error (message : String)
  | rangeError
  deriving DecidableEq

/-! ### Numbers -/

/-- `Number(n)` of a `bigint`: the nearest double, the even one of two. -/
def bigintToNumber (n : Nat) : Nat :=
  if n < 2 ^ 53 then n
  else
    let unit := 2 ^ (Nat.log2 n - 52)
    let q := n / unit
    let r := n % unit
    if 2 * r < unit ∨ 2 * r = unit ∧ q % 2 = 0 then q * unit else (q + 1) * unit

/-- The byte a number is stored as; `undefined` is stored as `0`. -/
def toUint8 (v : Option Int) : UInt8 := UInt8.ofNat (v.getD 0 % 256).toNat

/-! ### Writing to a buffer -/

/-- `writeUInt16BE`, `writeUInt32BE` and `writeBigUInt64BE`: a number of `w` bytes. -/
def writeUInt (w : Nat) (value : Int) : Except JsError (List UInt8) :=
  if value < 0 ∨ 256 ^ w ≤ value then .error .rangeError else .ok (be w value.toNat)

def writeUInt16BE (value : Int) : Except JsError (List UInt8) := writeUInt 2 value

def writeUInt32BE (value : Int) : Except JsError (List UInt8) := writeUInt 4 value

def writeBigUInt64BE (value : Int) : Except JsError (List UInt8) := writeUInt 8 value

def writeInt32BE (value : Int) : Except JsError (List UInt8) :=
  if value < -2147483648 ∨ 2147483647 < value then .error .rangeError
  else .ok (be 4 (value % 4294967296).toNat)

def encodeSessionId (sid : String) : Except JsError (List UInt8) :=
  let bytes := utf8 sid
  if bytes.length > 255 then
    .error (.error s!"Session ID byte length {bytes.length} exceeds maximum 255")
  else .ok (UInt8.ofNat bytes.length :: bytes)

def writeLenPrefixedU16 (s : String) : Except JsError (List UInt8) := do
  let bytes := utf8 s
  if bytes.length > 0xffff then
    throw (.error s!"String byte length {bytes.length} exceeds maximum 65535")
  let len ← writeUInt16BE bytes.length
  return len ++ bytes

/-- `writeUInt16BE(bytes.length)`, then the bytes. -/
def writePrefixedU16 (bytes : List UInt8) : Except JsError (List UInt8) := do
  let len ← writeUInt16BE bytes.length
  return len ++ bytes

/-- `writeUInt32BE(bytes.length)`, then the bytes. -/
def writePrefixedU32 (bytes : List UInt8) : Except JsError (List UInt8) := do
  let len ← writeUInt32BE bytes.length
  return len ++ bytes

/-! ### Encoding -/

/-- The flags byte of an execution result. -/
def resultFlags (exports : Option (List UInt8)) (error : Option ExecutionErrorBin) : UInt8 :=
  (if exports.isSome then FLAG_HAS_EXPORTS else 0) ||| (if error.isSome then FLAG_HAS_ERROR else 0)

def encodeExports : Option (List UInt8) → Except JsError (List UInt8)
  | some exp => writePrefixedU32 exp
  | none => return []

def encodeError : Option ExecutionErrorBin → Except JsError (List UInt8)
  | some err => do
      let errorType ← writeLenPrefixedU16 err.errorType
      let message ← writeLenPrefixedU16 err.message
      let stack ← writeLenPrefixedU16 err.stack
      let code ← writeLenPrefixedU16 err.code
      return errorType ++ message ++ stack ++ code
  | none => return []

def encodeBody : BinaryFrame → Except JsError (List UInt8)
  | .authenticate token =>
      return MSG_AUTHENTICATE :: 0 :: utf8 token
  | .createSession sessionId heapLimitMb cpuTimeLimitMs => do
      let sid ← encodeSessionId sessionId
      let heap ← writeUInt32BE heapLimitMb
      let cpu ← writeUInt32BE cpuTimeLimitMs
      return MSG_CREATE_SESSION :: (sid ++ (heap ++ cpu))
  | .destroySession sessionId => do
      let sid ← encodeSessionId sessionId
      return MSG_DESTROY_SESSION :: sid
  | .injectGlobals sessionId payload => do
      let sid ← encodeSessionId sessionId
      return MSG_INJECT_GLOBALS :: (sid ++ payload)
  | .execute sessionId mode filePath bridgeCode postRestoreScript userCode => do
      let sid ← encodeSessionId sessionId
      let fp ← writePrefixedU16 (utf8 filePath)
      let bc ← writePrefixedU32 (utf8 bridgeCode)
      let prs ← writePrefixedU32 (utf8 postRestoreScript)
      return MSG_EXECUTE :: (sid ++ (toUint8 mode :: (fp ++ (bc ++ (prs ++ utf8 userCode)))))
  | .bridgeResponse sessionId callId status payload => do
      let sid ← encodeSessionId sessionId
      let id ← writeBigUInt64BE callId
      return MSG_BRIDGE_RESPONSE :: (sid ++ (id ++ (toUint8 status :: payload)))
  | .streamEvent sessionId eventType payload => do
      let sid ← encodeSessionId sessionId
      let et ← writePrefixedU16 (utf8 eventType)
      return MSG_STREAM_EVENT :: (sid ++ (et ++ payload))
  | .terminateExecution sessionId => do
      let sid ← encodeSessionId sessionId
      return MSG_TERMINATE_EXECUTION :: sid
  | .warmSnapshot bridgeCode => do
      let bc ← writePrefixedU32 (utf8 bridgeCode)
      return MSG_WARM_SNAPSHOT :: 0 :: bc
  | .bridgeCall sessionId callId method payload => do
      let sid ← encodeSessionId sessionId
      let id ← writeBigUInt64BE callId
      let m ← writePrefixedU16 (utf8 method)
      return MSG_BRIDGE_CALL :: (sid ++ (id ++ (m ++ payload)))
  | .executionResult sessionId exitCode exports error => do
      let sid ← encodeSessionId sessionId
      let code ← writeInt32BE exitCode
      let exp ← encodeExports exports
      let err ← encodeError error
      return MSG_EXECUTION_RESULT :: (sid ++ (code ++ (resultFlags exports error :: (exp ++ err))))
  | .log sessionId channel message => do
      let sid ← encodeSessionId sessionId
      return MSG_LOG :: (sid ++ (toUint8 channel :: utf8 message))
  | .streamCallback sessionId callbackType payload => do
      let sid ← encodeSessionId sessionId
      let ct ← writePrefixedU16 (utf8 callbackType)
      return MSG_STREAM_CALLBACK :: (sid ++ (ct ++ payload))

def encodeFrame (frame : BinaryFrame) : Except JsError (List UInt8) := do
  let body ← encodeBody frame
  if body.length > MAX_FRAME_SIZE then
    throw (.error s!"Frame size {body.length} exceeds maximum {MAX_FRAME_SIZE}")
  let len ← writeUInt32BE body.length
  return len ++ body

/-! ### Reading from a buffer -/

/-- `pos + n`. -/
def plus (pos n : Option Nat) : Option Nat := pos.bind fun p => n.map fun k => p + k

/-- `buf[pos]`. -/
def byteAt (buf : List UInt8) (pos : Option Nat) : Option Nat :=
  pos.bind fun p => buf[p]?.map UInt8.toNat

/-- A bound of `toString` or `subarray`: `NaN` counts as `0`, and it stops at the end. -/
def clamp (buf : List UInt8) (pos : Option Nat) : Nat := min (pos.getD 0) buf.length

/-- `buf.subarray(start, stop)`. -/
def subarray (buf : List UInt8) (start stop : Option Nat) : List UInt8 :=
  (buf.take (clamp buf stop)).drop (clamp buf start)

/-- `buf.subarray(start)`. -/
def subarrayFrom (buf : List UInt8) (start : Option Nat) : List UInt8 := buf.drop (clamp buf start)

/-- `buf.toString("utf8", start, stop)`. -/
def toStringUtf8 (buf : List UInt8) (start stop : Option Nat) : String :=
  lossy (subarray buf start stop)

/-- `buf.toString("utf8", start)`. -/
def toStringUtf8From (buf : List UInt8) (start : Option Nat) : String :=
  lossy (subarrayFrom buf start)

/-- `readUInt16BE`, `readUInt32BE` and `readBigUInt64BE`: a number of `w` bytes. -/
def readUInt (w : Nat) (buf : List UInt8) (pos : Option Nat) : Except JsError Nat :=
  match pos with
  | some p =>
    if w ≤ (buf.drop p).length then .ok (ofBe ((buf.drop p).take w)) else .error .rangeError
  | none => .error .rangeError

def readUInt16BE (buf : List UInt8) (pos : Option Nat) : Except JsError Nat := readUInt 2 buf pos

def readUInt32BE (buf : List UInt8) (pos : Option Nat) : Except JsError Nat := readUInt 4 buf pos

def readBigUInt64BE (buf : List UInt8) (pos : Option Nat) : Except JsError Nat :=
  readUInt 8 buf pos

def readInt32BE (buf : List UInt8) (pos : Option Nat) : Except JsError Int := do
  let n ← readUInt 4 buf pos
  return if n < 2147483648 then n else (n : Int) - 4294967296

/-- The text and the number of bytes read for it. -/
def readLenPrefixedU16 (buf : List UInt8) (pos : Option Nat) :
    Except JsError (String × Nat) := do
  let len ← readUInt16BE buf pos
  let value := toStringUtf8 buf (plus pos (some 2)) (plus (plus pos (some 2)) (some len))
  return (value, 2 + len)

/-! ### Decoding

The arms of `decodeFrame`: what it reads after the session id, from `pos` on. -/

def readCreateSession (buf : List UInt8) (sessionId : String) (pos : Option Nat) :
    Except JsError BinaryFrame := do
  let heapLimitMb ← readUInt32BE buf pos
  let pos := plus pos (some 4)
  let cpuTimeLimitMs ← readUInt32BE buf pos
  return .createSession sessionId heapLimitMb cpuTimeLimitMs

def readExecute (buf : List UInt8) (sessionId : String) (pos : Option Nat) :
    Except JsError BinaryFrame := do
  let mode := byteAt buf pos
  let pos := plus pos (some 1)
  let fpLen ← readUInt16BE buf pos
  let pos := plus pos (some 2)
  let filePath := toStringUtf8 buf pos (plus pos (some fpLen))
  let pos := plus pos (some fpLen)
  let bcLen ← readUInt32BE buf pos
  let pos := plus pos (some 4)
  let bridgeCode := toStringUtf8 buf pos (plus pos (some bcLen))
  let pos := plus pos (some bcLen)
  let prsLen ← readUInt32BE buf pos
  let pos := plus pos (some 4)
  let postRestoreScript := toStringUtf8 buf pos (plus pos (some prsLen))
  let pos := plus pos (some prsLen)
  let userCode := toStringUtf8From buf pos
  return .execute sessionId (mode.map Int.ofNat) filePath bridgeCode postRestoreScript userCode

def readBridgeResponse (buf : List UInt8) (sessionId : String) (pos : Option Nat) :
    Except JsError BinaryFrame := do
  let id ← readBigUInt64BE buf pos
  let callId := bigintToNumber id
  let pos := plus pos (some 8)
  let status := byteAt buf pos
  let pos := plus pos (some 1)
  let payload := subarrayFrom buf pos
  return .bridgeResponse sessionId callId (status.map Int.ofNat) payload

def readStreamEvent (buf : List UInt8) (sessionId : String) (pos : Option Nat) :
    Except JsError BinaryFrame := do
  let etLen ← readUInt16BE buf pos
  let pos := plus pos (some 2)
  let eventType := toStringUtf8 buf pos (plus pos (some etLen))
  let pos := plus pos (some etLen)
  let payload := subarrayFrom buf pos
  return .streamEvent sessionId eventType payload

def readWarmSnapshot (buf : List UInt8) (pos : Option Nat) : Except JsError BinaryFrame := do
  let bcLen ← readUInt32BE buf pos
  let pos := plus pos (some 4)
  let bridgeCode := toStringUtf8 buf pos (plus pos (some bcLen))
  return .warmSnapshot bridgeCode

def readBridgeCall (buf : List UInt8) (sessionId : String) (pos : Option Nat) :
    Except JsError BinaryFrame := do
  let id ← readBigUInt64BE buf pos
  let callId := bigintToNumber id
  let pos := plus pos (some 8)
  let mLen ← readUInt16BE buf pos
  let pos := plus pos (some 2)
  let method := toStringUtf8 buf pos (plus pos (some mLen))
  let pos := plus pos (some mLen)
  let payload := subarrayFrom buf pos
  return .bridgeCall sessionId callId method payload

/-- The exports and the position after them. -/
def readExports (buf : List UInt8) (flags : UInt8) (pos : Option Nat) :
    Except JsError (Option (List UInt8) × Option Nat) :=
  if flags &&& FLAG_HAS_EXPORTS ≠ 0 then do
    let expLen ← readUInt32BE buf pos
    let pos := plus pos (some 4)
    return (some (subarray buf pos (plus pos (some expLen))), plus pos (some expLen))
  else return (none, pos)

def readError (buf : List UInt8) (flags : UInt8) (pos : Option Nat) :
    Except JsError (Option ExecutionErrorBin) :=
  if flags &&& FLAG_HAS_ERROR ≠ 0 then do
    let et ← readLenPrefixedU16 buf pos
    let pos := plus pos (some et.2)
    let msg ← readLenPrefixedU16 buf pos
    let pos := plus pos (some msg.2)
    let st ← readLenPrefixedU16 buf pos
    let pos := plus pos (some st.2)
    let cd ← readLenPrefixedU16 buf pos
    return some ⟨et.1, msg.1, st.1, cd.1⟩
  else return none

def readExecutionResult (buf : List UInt8) (sessionId : String) (pos : Option Nat) :
    Except JsError BinaryFrame := do
  let exitCode ← readInt32BE buf pos
  let pos := plus pos (some 4)
  -- `undefined & FLAG` is `0`
  let flags := toUint8 ((byteAt buf pos).map Int.ofNat)
  let pos := plus pos (some 1)
  let exports ← readExports buf flags pos
  let error ← readError buf flags exports.2
  return .executionResult sessionId exitCode exports.1 error

def readLog (buf : List UInt8) (sessionId : String) (pos : Option Nat) :
    Except JsError BinaryFrame := do
  let channel := byteAt buf pos
  let pos := plus pos (some 1)
  let message := toStringUtf8From buf pos
  return .log sessionId (channel.map Int.ofNat) message

def readStreamCallback (buf : List UInt8) (sessionId : String) (pos : Option Nat) :
    Except JsError BinaryFrame := do
  let ctLen ← readUInt16BE buf pos
  let pos := plus pos (some 2)
  let callbackType := toStringUtf8 buf pos (plus pos (some ctLen))
  let pos := plus pos (some ctLen)
  let payload := subarrayFrom buf pos
  return .streamCallback sessionId callbackType payload

def decodeFields (buf : List UInt8) (msgType : UInt8) (sessionId : String) (pos : Option Nat) :
    Except JsError BinaryFrame :=
  match msgType with
  | MSG_AUTHENTICATE => .ok (.authenticate (toStringUtf8From buf pos))
  | MSG_CREATE_SESSION => readCreateSession buf sessionId pos
  | MSG_DESTROY_SESSION => .ok (.destroySession sessionId)
  | MSG_INJECT_GLOBALS => .ok (.injectGlobals sessionId (subarrayFrom buf pos))
  | MSG_EXECUTE => readExecute buf sessionId pos
  | MSG_BRIDGE_RESPONSE => readBridgeResponse buf sessionId pos
  | MSG_STREAM_EVENT => readStreamEvent buf sessionId pos
  | MSG_TERMINATE_EXECUTION => .ok (.terminateExecution sessionId)
  | MSG_WARM_SNAPSHOT => readWarmSnapshot buf pos
  | MSG_BRIDGE_CALL => readBridgeCall buf sessionId pos
  | MSG_EXECUTION_RESULT => readExecutionResult buf sessionId pos
  | MSG_LOG => readLog buf sessionId pos
  | MSG_STREAM_CALLBACK => readStreamCallback buf sessionId pos
  | _ => .error (.error s!"Unknown message type: 0x{hex2 msgType}")

def decodeFrame (buf : List UInt8) : Except JsError BinaryFrame :=
  match buf with
  | [] => .error (.error "Empty frame")
  | msgType :: _ =>
    let sidLen := byteAt buf (some 1)
    let pos := some 2
    let sessionId := toStringUtf8 buf pos (plus pos sidLen)
    decodeFields buf msgType sessionId (plus pos sidLen)

def extractSessionId (raw : List UInt8) : Except JsError (Option String) :=
  match raw with
  | msgType :: sidLen :: _ =>
    if msgType = MSG_AUTHENTICATE ∨ msgType = MSG_WARM_SNAPSHOT then .ok none
    else if raw.length < 2 + sidLen.toNat then
      .error (.error "Frame too short for session_id")
    else .ok (some (toStringUtf8 raw (some 2) (some (2 + sidLen.toNat))))
  | _ => .error (.error "Frame too short")

/-! ### Frames of the native runtime -/

/-- The error of a native frame. -/
def errorToHost (e : Native.ExecutionErrorBin) : ExecutionErrorBin :=
  ⟨e.errorType, e.message, e.stack, e.code⟩

/-- The frame of the native runtime as the host has it. -/
def toHost : Native.BinaryFrame → BinaryFrame
  | .authenticate token => .authenticate token
  | .createSession sid heap cpu => .createSession sid heap.toNat cpu.toNat
  | .destroySession sid => .destroySession sid
  | .injectGlobals sid payload => .injectGlobals sid payload
  | .execute sid mode fp bc prs uc => .execute sid (some mode.toNat) fp bc prs uc
  | .bridgeResponse sid callId status payload =>
      .bridgeResponse sid callId.toNat (some status.toNat) payload
  | .streamEvent sid et payload => .streamEvent sid et payload
  | .terminateExecution sid => .terminateExecution sid
  | .warmSnapshot bc => .warmSnapshot bc
  | .bridgeCall sid callId method payload => .bridgeCall sid callId.toNat method payload
  | .executionResult sid exitCode exports error =>
      .executionResult sid exitCode.toInt exports (error.map errorToHost)
  | .log sid channel message => .log sid (some channel.toNat) message
  | .streamCallback sid ct payload => .streamCallback sid ct payload

end Ipc.Host
