import Mathlib.Data.UInt
import SecureExec.Lib.Wire

/-!
# Ipc — Native — the wire format in the native runtime

The binary frames of `ipc_binary.rs`, their encoder and their decoder.  A buffer that is written
is the list of the bytes appended to it; a buffer that is read at `pos` is the list of the bytes
from `pos` on.

* `encodeFrameInto`, `readFrame`, `extractSessionId`: the three entry points.
* `decodeBody_encodeBody`: the decoder gives back the frame that was encoded.
* `readFrame_encode`: so does a reader at the encoded frame, and it leaves what follows.
* `encodeFrameInto_isOk_iff`: the encoder fails exactly on a frame that is too large.
-/

namespace Ipc

/-- Two hexadecimal digits. -/
def hex2 (b : UInt8) : String :=
  String.ofList [Nat.digitChar (b.toNat / 16), Nat.digitChar (b.toNat % 16)]

end Ipc

namespace Ipc.Native
open Wire

/-! ### Constants -/

/-- Maximum frame payload: 64 MB. -/
def MAX_FRAME_SIZE : Nat := 64 * 1024 * 1024

@[match_pattern] abbrev MSG_AUTHENTICATE : UInt8 := 0x01
@[match_pattern] abbrev MSG_CREATE_SESSION : UInt8 := 0x02
@[match_pattern] abbrev MSG_DESTROY_SESSION : UInt8 := 0x03
@[match_pattern] abbrev MSG_INJECT_GLOBALS : UInt8 := 0x04
@[match_pattern] abbrev MSG_EXECUTE : UInt8 := 0x05
@[match_pattern] abbrev MSG_BRIDGE_RESPONSE : UInt8 := 0x06
@[match_pattern] abbrev MSG_STREAM_EVENT : UInt8 := 0x07
@[match_pattern] abbrev MSG_TERMINATE_EXECUTION : UInt8 := 0x08
@[match_pattern] abbrev MSG_WARM_SNAPSHOT : UInt8 := 0x09
@[match_pattern] abbrev MSG_BRIDGE_CALL : UInt8 := 0x81
@[match_pattern] abbrev MSG_EXECUTION_RESULT : UInt8 := 0x82
@[match_pattern] abbrev MSG_LOG : UInt8 := 0x83
@[match_pattern] abbrev MSG_STREAM_CALLBACK : UInt8 := 0x84

def FLAG_HAS_EXPORTS : UInt8 := 0x01
def FLAG_HAS_ERROR : UInt8 := 0x02

/-! ### Frames -/

/-- Structured error in binary format. -/
structure ExecutionErrorBin where
  errorType : String
  message : String
  stack : String
  code : String
  deriving DecidableEq

/-- A decoded binary frame. -/
inductive BinaryFrame where
  | authenticate (token : String)
  | createSession (sessionId : String) (heapLimitMb cpuTimeLimitMs : UInt32)
  | destroySession (sessionId : String)
  | injectGlobals (sessionId : String) (payload : List UInt8)
  | execute (sessionId : String) (mode : UInt8)
      (filePath bridgeCode postRestoreScript userCode : String)
  | bridgeResponse (sessionId : String) (callId : UInt64) (status : UInt8) (payload : List UInt8)
  | streamEvent (sessionId eventType : String) (payload : List UInt8)
  | terminateExecution (sessionId : String)
  | warmSnapshot (bridgeCode : String)
  | bridgeCall (sessionId : String) (callId : UInt64) (method : String) (payload : List UInt8)
  | executionResult (sessionId : String) (exitCode : Int32) (exports : Option (List UInt8))
      (error : Option ExecutionErrorBin)
  | log (sessionId : String) (channel : UInt8) (message : String)
  | streamCallback (sessionId callbackType : String) (payload : List UInt8)
  deriving DecidableEq

namespace BinaryFrame

/-- The session a frame belongs to; two kinds belong to none. -/
def sessionId? : BinaryFrame → Option String
  | .authenticate _ => none
  | .createSession sid _ _ => some sid
  | .destroySession sid => some sid
  | .injectGlobals sid _ => some sid
  | .execute sid _ _ _ _ _ => some sid
  | .bridgeResponse sid _ _ _ => some sid
  | .streamEvent sid _ _ => some sid
  | .terminateExecution sid => some sid
  | .warmSnapshot _ => none
  | .bridgeCall sid _ _ _ => some sid
  | .executionResult sid _ _ _ => some sid
  | .log sid _ _ => some sid
  | .streamCallback sid _ _ => some sid

/-- The texts that are written behind a length of two bytes. -/
def shortTexts : BinaryFrame → List String
  | .execute _ _ filePath _ _ _ => [filePath]
  | .streamEvent _ eventType _ => [eventType]
  | .bridgeCall _ _ method _ => [method]
  | .executionResult _ _ _ (some e) => [e.errorType, e.message, e.stack, e.code]
  | .streamCallback _ callbackType _ => [callbackType]
  | _ => []

/-- The bytes of everything behind the message type and the session id. -/
def fieldBytes : BinaryFrame → Nat
  | .authenticate token => (utf8 token).length
  | .createSession _ _ _ => 8
  | .destroySession _ => 0
  | .injectGlobals _ payload => payload.length
  | .execute _ _ fp bc prs uc =>
      1 + (2 + (utf8 fp).length) + (4 + (utf8 bc).length) + (4 + (utf8 prs).length) +
        (utf8 uc).length
  | .bridgeResponse _ _ _ payload => 9 + payload.length
  | .streamEvent _ et payload => (2 + (utf8 et).length) + payload.length
  | .terminateExecution _ => 0
  | .warmSnapshot bc => 4 + (utf8 bc).length
  | .bridgeCall _ _ m payload => 8 + (2 + (utf8 m).length) + payload.length
  | .executionResult _ _ exports error =>
      5 + (exports.elim 0 fun xs => 4 + xs.length) +
        (error.elim 0 fun e => (2 + (utf8 e.errorType).length) + (2 + (utf8 e.message).length) +
          (2 + (utf8 e.stack).length) + (2 + (utf8 e.code).length))
  | .log _ _ message => 1 + (utf8 message).length
  | .streamCallback _ ct payload => (2 + (utf8 ct).length) + payload.length

/-- The call a frame belongs to. -/
def callId? : BinaryFrame → Option Nat
  | .bridgeResponse _ callId _ _ => some callId.toNat
  | .bridgeCall _ callId _ _ => some callId.toNat
  | _ => none

/-- The bytes of the session id. -/
def sidBytes (f : BinaryFrame) : Nat := (utf8 (f.sessionId?.getD "")).length

/-- The format's limits on sizes. -/
structure WithinLimits (f : BinaryFrame) : Prop where
  sid : f.sidBytes ≤ 255
  short : ∀ s ∈ f.shortTexts, (utf8 s).length ≤ 0xFFFF
  body : 2 + f.sidBytes + f.fieldBytes ≤ MAX_FRAME_SIZE

end BinaryFrame

/-- `io::ErrorKind`, the kinds the codec makes. -/
inductive ErrorKind where
  | invalidData
  | invalidInput
  | unexpectedEof
  deriving DecidableEq

/-- `io::Error`: made with a message, or around a UTF-8 error. -/
inductive IoError where
  | new (kind : ErrorKind) (message : String)
  | fromUtf8
  deriving DecidableEq

/-! ### Primitive writers -/

def writeSessionId (sid : String) : Except IoError (List UInt8) :=
  let bytes := utf8 sid
  if bytes.length > 255 then
    .error (.new .invalidInput s!"session ID byte length {bytes.length} exceeds u8 max 255")
  else .ok (UInt8.ofNat bytes.length :: bytes)

def writeLenPrefixedU16 (s : String) : Except IoError (List UInt8) :=
  let bytes := utf8 s
  if bytes.length > 0xFFFF then
    .error (.new .invalidInput s!"string byte length {bytes.length} exceeds u16 max 65535")
  else .ok (be 2 (UInt16.ofNat bytes.length).toNat ++ bytes)

/-- `extend_from_slice(&(bytes.len() as u32).to_be_bytes())`, then the bytes. -/
def writeLenPrefixedU32 (bytes : List UInt8) : List UInt8 :=
  be 4 (UInt32.ofNat bytes.length).toNat ++ bytes

/-! ### Encoding -/

/-- The flags byte of an execution result. -/
def resultFlags (exports : Option (List UInt8)) (error : Option ExecutionErrorBin) : UInt8 :=
  (if exports.isSome then FLAG_HAS_EXPORTS else 0) ||| (if error.isSome then FLAG_HAS_ERROR else 0)

def writeExports : Option (List UInt8) → List UInt8
  | some exp => writeLenPrefixedU32 exp
  | none => []

def writeError : Option ExecutionErrorBin → Except IoError (List UInt8)
  | some err => do
      let errorType ← writeLenPrefixedU16 err.errorType
      let message ← writeLenPrefixedU16 err.message
      let stack ← writeLenPrefixedU16 err.stack
      let code ← writeLenPrefixedU16 err.code
      return errorType ++ message ++ stack ++ code
  | none => return []

/-- What `encode_body` appends to the buffer. -/
def encodeBody : BinaryFrame → Except IoError (List UInt8)
  | .authenticate token =>
      return MSG_AUTHENTICATE :: 0 :: utf8 token
  | .createSession sessionId heapLimitMb cpuTimeLimitMs => do
      let sid ← writeSessionId sessionId
      return MSG_CREATE_SESSION :: (sid ++ (be 4 heapLimitMb.toNat ++ be 4 cpuTimeLimitMs.toNat))
  | .destroySession sessionId => do
      let sid ← writeSessionId sessionId
      return MSG_DESTROY_SESSION :: sid
  | .injectGlobals sessionId payload => do
      let sid ← writeSessionId sessionId
      return MSG_INJECT_GLOBALS :: (sid ++ payload)
  | .execute sessionId mode filePath bridgeCode postRestoreScript userCode => do
      let sid ← writeSessionId sessionId
      let fp ← writeLenPrefixedU16 filePath
      return MSG_EXECUTE :: (sid ++ (mode :: (fp ++ (writeLenPrefixedU32 (utf8 bridgeCode) ++
        (writeLenPrefixedU32 (utf8 postRestoreScript) ++ utf8 userCode)))))
  | .bridgeResponse sessionId callId status payload => do
      let sid ← writeSessionId sessionId
      return MSG_BRIDGE_RESPONSE :: (sid ++ (be 8 callId.toNat ++ (status :: payload)))
  | .streamEvent sessionId eventType payload => do
      let sid ← writeSessionId sessionId
      let et ← writeLenPrefixedU16 eventType
      return MSG_STREAM_EVENT :: (sid ++ (et ++ payload))
  | .terminateExecution sessionId => do
      let sid ← writeSessionId sessionId
      return MSG_TERMINATE_EXECUTION :: sid
  | .warmSnapshot bridgeCode =>
      return MSG_WARM_SNAPSHOT :: 0 :: writeLenPrefixedU32 (utf8 bridgeCode)
  | .bridgeCall sessionId callId method payload => do
      let sid ← writeSessionId sessionId
      let m ← writeLenPrefixedU16 method
      return MSG_BRIDGE_CALL :: (sid ++ (be 8 callId.toNat ++ (m ++ payload)))
  | .executionResult sessionId exitCode exports error => do
      let sid ← writeSessionId sessionId
      let err ← writeError error
      return MSG_EXECUTION_RESULT :: (sid ++ (be 4 exitCode.toUInt32.toNat ++
        (resultFlags exports error :: (writeExports exports ++ err))))
  | .log sessionId channel message => do
      let sid ← writeSessionId sessionId
      return MSG_LOG :: (sid ++ (channel :: utf8 message))
  | .streamCallback sessionId callbackType payload => do
      let sid ← writeSessionId sessionId
      let ct ← writeLenPrefixedU16 callbackType
      return MSG_STREAM_CALLBACK :: (sid ++ (ct ++ payload))

/-- What `encode_frame_into` leaves in the buffer: the length, then the body. -/
def encodeFrameInto (frame : BinaryFrame) : Except IoError (List UInt8) := do
  let body ← encodeBody frame
  let totalLen := body.length
  if totalLen > MAX_FRAME_SIZE then
    throw (.new .invalidData s!"frame size {totalLen} exceeds maximum {MAX_FRAME_SIZE}")
  return be 4 (UInt32.ofNat totalLen).toNat ++ body

/-! ### Primitive readers -/

def unexpectedEnd : IoError := .new .unexpectedEof "unexpected end of frame"

def readU8 : Reader IoError UInt8 := do
  let bytes ← Reader.take unexpectedEnd 1
  return bytes.headD 0

def readU16 : Reader IoError UInt16 := do
  let bytes ← Reader.take unexpectedEnd 2
  return UInt16.ofNat (ofBe bytes)

def readU32 : Reader IoError UInt32 := do
  let bytes ← Reader.take unexpectedEnd 4
  return UInt32.ofNat (ofBe bytes)

def readU64 : Reader IoError UInt64 := do
  let bytes ← Reader.take unexpectedEnd 8
  return UInt64.ofNat (ofBe bytes)

def readI32 : Reader IoError Int32 := do
  let bytes ← Reader.take unexpectedEnd 4
  return (UInt32.ofNat (ofBe bytes)).toInt32

def readBytes (len : Nat) : Reader IoError (List UInt8) := Reader.take unexpectedEnd len

/-- `String::from_utf8`. -/
def fromUtf8 (bytes : List UInt8) : Except IoError String :=
  match ofUtf8? bytes with
  | some s => .ok s
  | none => .error .fromUtf8

def readUtf8 (len : Nat) : Reader IoError String := do
  let bytes ← readBytes len
  Reader.lift (fromUtf8 bytes)

def readLenPrefixedU16 : Reader IoError String := do
  let len ← readU16
  readUtf8 len.toNat

/-! ### Decoding -/

def readExports (flags : UInt8) : Reader IoError (Option (List UInt8)) :=
  if flags &&& FLAG_HAS_EXPORTS ≠ 0 then do
    let expLen ← readU32
    let data ← readBytes expLen.toNat
    return some data
  else return none

def readError (flags : UInt8) : Reader IoError (Option ExecutionErrorBin) :=
  if flags &&& FLAG_HAS_ERROR ≠ 0 then do
    let errorType ← readLenPrefixedU16
    let message ← readLenPrefixedU16
    let stack ← readLenPrefixedU16
    let code ← readLenPrefixedU16
    return some ⟨errorType, message, stack, code⟩
  else return none

/-! The arms of `decode_body`: what it reads after the session id. -/

def readAuthenticate : Reader IoError BinaryFrame := do
  let remaining ← Reader.left
  let token ← readUtf8 remaining
  return .authenticate token

def readCreateSession (sessionId : String) : Reader IoError BinaryFrame := do
  let heapLimitMb ← readU32
  let cpuTimeLimitMs ← readU32
  return .createSession sessionId heapLimitMb cpuTimeLimitMs

def readInjectGlobals (sessionId : String) : Reader IoError BinaryFrame := do
  let payload ← Reader.rest
  return .injectGlobals sessionId payload

def readExecute (sessionId : String) : Reader IoError BinaryFrame := do
  let mode ← readU8
  let fpLen ← readU16
  let filePath ← readUtf8 fpLen.toNat
  let bcLen ← readU32
  let bridgeCode ← readUtf8 bcLen.toNat
  let prsLen ← readU32
  let postRestoreScript ← readUtf8 prsLen.toNat
  let remaining ← Reader.left
  let userCode ← readUtf8 remaining
  return .execute sessionId mode filePath bridgeCode postRestoreScript userCode

def readBridgeResponse (sessionId : String) : Reader IoError BinaryFrame := do
  let callId ← readU64
  let status ← readU8
  let payload ← Reader.rest
  return .bridgeResponse sessionId callId status payload

def readStreamEvent (sessionId : String) : Reader IoError BinaryFrame := do
  let etLen ← readU16
  let eventType ← readUtf8 etLen.toNat
  let payload ← Reader.rest
  return .streamEvent sessionId eventType payload

def readWarmSnapshot : Reader IoError BinaryFrame := do
  let bcLen ← readU32
  let bridgeCode ← readUtf8 bcLen.toNat
  return .warmSnapshot bridgeCode

def readBridgeCall (sessionId : String) : Reader IoError BinaryFrame := do
  let callId ← readU64
  let mLen ← readU16
  let method ← readUtf8 mLen.toNat
  let payload ← Reader.rest
  return .bridgeCall sessionId callId method payload

def readExecutionResult (sessionId : String) : Reader IoError BinaryFrame := do
  let exitCode ← readI32
  let flags ← readU8
  let exports ← readExports flags
  let error ← readError flags
  return .executionResult sessionId exitCode exports error

def readLog (sessionId : String) : Reader IoError BinaryFrame := do
  let channel ← readU8
  let remaining ← Reader.left
  let message ← readUtf8 remaining
  return .log sessionId channel message

def readStreamCallback (sessionId : String) : Reader IoError BinaryFrame := do
  let ctLen ← readU16
  let callbackType ← readUtf8 ctLen.toNat
  let payload ← Reader.rest
  return .streamCallback sessionId callbackType payload

def decodeFields (msgType : UInt8) (sessionId : String) : Reader IoError BinaryFrame :=
  match msgType with
  | MSG_AUTHENTICATE => readAuthenticate
  | MSG_CREATE_SESSION => readCreateSession sessionId
  | MSG_DESTROY_SESSION => return .destroySession sessionId
  | MSG_INJECT_GLOBALS => readInjectGlobals sessionId
  | MSG_EXECUTE => readExecute sessionId
  | MSG_BRIDGE_RESPONSE => readBridgeResponse sessionId
  | MSG_STREAM_EVENT => readStreamEvent sessionId
  | MSG_TERMINATE_EXECUTION => return .terminateExecution sessionId
  | MSG_WARM_SNAPSHOT => readWarmSnapshot
  | MSG_BRIDGE_CALL => readBridgeCall sessionId
  | MSG_EXECUTION_RESULT => readExecutionResult sessionId
  | MSG_LOG => readLog sessionId
  | MSG_STREAM_CALLBACK => readStreamCallback sessionId
  | _ => Reader.lift (.error (.new .invalidData s!"unknown message type: 0x{hex2 msgType}"))

/-- The session id, then the fields of the message type. -/
def decodeTyped (msgType : UInt8) : Reader IoError BinaryFrame := do
  let sidLen ← readU8
  let sessionId ← readUtf8 sidLen.toNat
  decodeFields msgType sessionId

/-- Bytes after the last field are ignored. -/
def decodeBody (buf : List UInt8) : Except IoError BinaryFrame :=
  match buf with
  | [] => .error (.new .invalidData "empty frame")
  | msgType :: buf =>
    match decodeTyped msgType buf with
    | .ok (frame, _) => .ok frame
    | .error e => .error e

/-- `read_exact`: the stream ends before the buffer is full. -/
def readExact (len : Nat) : Reader IoError (List UInt8) :=
  Reader.take (.new .unexpectedEof "failed to fill whole buffer") len

def readFrame : Reader IoError BinaryFrame := do
  let lenBuf ← readExact 4
  let totalLen := ofBe lenBuf
  if totalLen > MAX_FRAME_SIZE then
    Reader.lift
      (.error (.new .invalidData s!"frame size {totalLen} exceeds maximum {MAX_FRAME_SIZE}"))
  else do
    let buf ← readExact totalLen
    Reader.lift (decodeBody buf)

def extractSessionId (raw : List UInt8) : Except IoError (Option String) :=
  match raw with
  | msgType :: sidLen :: bytes =>
    if msgType = MSG_AUTHENTICATE ∨ msgType = MSG_WARM_SNAPSHOT then .ok none
    else if bytes.length < sidLen.toNat then
      .error (.new .invalidData "frame too short for session_id")
    else
      match fromUtf8 (bytes.take sidLen.toNat) with
      | .ok sid => .ok (some sid)
      | .error e => .error e
  | _ => .error (.new .invalidData "frame too short")

/-! ### What the primitive readers read -/

theorem toNat_ofBe16 (bs : List UInt8) :
    (UInt16.ofNat (ofBe (bs.take 2))).toNat = ofBe (bs.take 2) :=
  UInt16.toNat_ofNat_of_lt' (ofBe_take_lt 2 bs)

theorem toNat_ofBe32 (bs : List UInt8) :
    (UInt32.ofNat (ofBe (bs.take 4))).toNat = ofBe (bs.take 4) :=
  UInt32.toNat_ofNat_of_lt' (ofBe_take_lt 4 bs)

theorem toNat_ofBe64 (bs : List UInt8) :
    (UInt64.ofNat (ofBe (bs.take 8))).toNat = ofBe (bs.take 8) :=
  UInt64.toNat_ofNat_of_lt' (ofBe_take_lt 8 bs)

variable {bs bs' : List UInt8}

theorem readU8_eq_ok {b : UInt8} :
    readU8 bs = .ok (b, bs') ↔ 1 ≤ bs.length ∧ b = (bs.take 1).headD 0 ∧ bs' = bs.drop 1 :=
  Reader.take_map_eq_ok

theorem readU16_eq_ok {n : UInt16} :
    readU16 bs = .ok (n, bs') ↔
      2 ≤ bs.length ∧ n = UInt16.ofNat (ofBe (bs.take 2)) ∧ bs' = bs.drop 2 :=
  Reader.take_map_eq_ok

theorem readU32_eq_ok {n : UInt32} :
    readU32 bs = .ok (n, bs') ↔
      4 ≤ bs.length ∧ n = UInt32.ofNat (ofBe (bs.take 4)) ∧ bs' = bs.drop 4 :=
  Reader.take_map_eq_ok

theorem readU64_eq_ok {n : UInt64} :
    readU64 bs = .ok (n, bs') ↔
      8 ≤ bs.length ∧ n = UInt64.ofNat (ofBe (bs.take 8)) ∧ bs' = bs.drop 8 :=
  Reader.take_map_eq_ok

theorem readI32_eq_ok {n : Int32} :
    readI32 bs = .ok (n, bs') ↔
      4 ≤ bs.length ∧ n = (UInt32.ofNat (ofBe (bs.take 4))).toInt32 ∧ bs' = bs.drop 4 :=
  Reader.take_map_eq_ok

variable {n : Nat} {xs : List UInt8}

theorem readBytes_eq_ok :
    readBytes n bs = .ok (xs, bs') ↔ n ≤ bs.length ∧ xs = bs.take n ∧ bs' = bs.drop n :=
  Reader.take_eq_ok

variable {s : String}

theorem readUtf8_eq_ok :
    readUtf8 n bs = .ok (s, bs') ↔
      n ≤ bs.length ∧ ofUtf8? (bs.take n) = some s ∧ bs' = bs.drop n := by
  simp only [readUtf8, Reader.bind_eq_ok_iff, readBytes_eq_ok, fromUtf8]
  constructor
  · rintro ⟨_, _, ⟨hn, rfl, rfl⟩, h⟩
    split at h
    · rename_i hs
      cases h
      exact ⟨hn, hs, rfl⟩
    · cases h
  · rintro ⟨hn, hs, rfl⟩
    refine ⟨_, _, ⟨hn, rfl, rfl⟩, ?_⟩
    rw [hs]
    rfl

theorem readLenPrefixedU16_eq_ok :
    readLenPrefixedU16 bs = .ok (s, bs') ↔
      2 ≤ bs.length ∧ ofBe (bs.take 2) ≤ (bs.drop 2).length ∧
        ofUtf8? ((bs.drop 2).take (ofBe (bs.take 2))) = some s ∧
        bs' = (bs.drop 2).drop (ofBe (bs.take 2)) := by
  simp only [readLenPrefixedU16, Reader.bind_eq_ok_iff, readU16_eq_ok, readUtf8_eq_ok]
  constructor
  · rintro ⟨_, _, ⟨hn, rfl, rfl⟩, h⟩
    rw [toNat_ofBe16] at h
    exact ⟨hn, h⟩
  · rintro ⟨hn, h⟩
    refine ⟨_, _, ⟨hn, rfl, rfl⟩, ?_⟩
    rw [toNat_ofBe16]
    exact h

variable {buf : List UInt8} {f : BinaryFrame}

theorem decodeBody_eq_ok :
    decodeBody buf = .ok f ↔ ∃ msgType sidLen more sid bs, buf = msgType :: sidLen :: more ∧
      sidLen.toNat ≤ more.length ∧ ofUtf8? (more.take sidLen.toNat) = some sid ∧
        decodeFields msgType sid (more.drop sidLen.toNat) = .ok (f, bs) := by
  constructor
  · intro h
    cases buf with
    | nil => cases h
    | cons msgType tail =>
        simp only [decodeBody] at h
        split at h
        · rename_i f' bs hd
          cases h
          obtain ⟨sidLen, b₁, h₁, hd⟩ := Reader.bind_eq_ok hd
          obtain ⟨hl, rfl, rfl⟩ := readU8_eq_ok.mp h₁
          obtain ⟨sid, b₂, h₂, hd⟩ := Reader.bind_eq_ok hd
          obtain ⟨hn, hs, rfl⟩ := readUtf8_eq_ok.mp h₂
          obtain ⟨sidLen, more, rfl⟩ := List.exists_cons_of_length_pos hl
          exact ⟨msgType, sidLen, more, sid, bs, rfl, hn, hs, hd⟩
        · cases h
  · rintro ⟨msgType, sidLen, more, sid, bs, rfl, hn, hs, hd⟩
    have h₂ : readUtf8 sidLen.toNat more = .ok (sid, more.drop sidLen.toNat) :=
      readUtf8_eq_ok.mpr ⟨hn, hs, rfl⟩
    have h₁ : readU8 (sidLen :: more) = .ok (sidLen, more) :=
      readU8_eq_ok.mpr ⟨Nat.le_add_left 1 _, rfl, rfl⟩
    rw [decodeBody, decodeTyped, Reader.run_bind_ok h₁, Reader.run_bind_ok h₂, hd]

/-- A decoded frame belongs to the session that it was read for, or to none. -/
theorem decodeFields_sessionId (msgType : UInt8) (sid : String) :
    Reader.Yields (decodeFields msgType sid) fun f => ∀ s, f.sessionId? = some s → s = sid := by
  have hsome : ∀ s, some sid = some s → s = sid := fun s h => (Option.some.inj h).symm
  have hnone : ∀ s, (none : Option String) = some s → s = sid := fun s h => nomatch h
  unfold decodeFields
  split
  · exact .bind fun _ => .bind fun _ => .pure hnone
  · exact .bind fun _ => .bind fun _ => .pure hsome
  · exact .pure hsome
  · exact .bind fun _ => .pure hsome
  · exact .bind fun _ => .bind fun _ => .bind fun _ => .bind fun _ => .bind fun _ => .bind fun _ =>
      .bind fun _ => .bind fun _ => .bind fun _ => .pure hsome
  · exact .bind fun _ => .bind fun _ => .bind fun _ => .pure hsome
  · exact .bind fun _ => .bind fun _ => .bind fun _ => .pure hsome
  · exact .pure hsome
  · exact .bind fun _ => .bind fun _ => .pure hnone
  · exact .bind fun _ => .bind fun _ => .bind fun _ => .bind fun _ => .pure hsome
  · exact .bind fun _ => .bind fun _ => .bind fun _ => .bind fun _ => .pure hsome
  · exact .bind fun _ => .bind fun _ => .bind fun _ => .pure hsome
  · exact .bind fun _ => .bind fun _ => .bind fun _ => .pure hsome
  · intro bs f bs' h
    cases h

/-- The session id of a decoded frame fits its length byte. -/
theorem sid_of_decodeBody
    (h : decodeBody buf = .ok f) (hs : f.sessionId? = some s) : (utf8 s).length ≤ 255 := by
  obtain ⟨msgType, sidLen, more, sid, bs, rfl, -, hsid, hd⟩ := decodeBody_eq_ok.mp h
  rw [decodeFields_sessionId msgType sid _ _ _ hd s hs, utf8_of_ofUtf8? hsid, List.length_take]
  have hl := sidLen.toNat_lt
  omega

/-! ### What the primitive writers write -/

variable {sid : String} {w : List UInt8}

theorem writeSessionId_eq_ok (h : writeSessionId sid = .ok w) :
    (utf8 sid).length ≤ 255 ∧ w = UInt8.ofNat (utf8 sid).length :: utf8 sid := by
  simp only [writeSessionId] at h
  split at h
  · cases h
  · rename_i hn
    cases h
    exact ⟨Nat.le_of_not_lt hn, rfl⟩

theorem writeLenPrefixedU16_eq_ok
    (h : writeLenPrefixedU16 s = .ok w) :
    (utf8 s).length ≤ 0xFFFF ∧ w = be 2 (UInt16.ofNat (utf8 s).length).toNat ++ utf8 s := by
  simp only [writeLenPrefixedU16] at h
  split at h
  · cases h
  · rename_i hn
    cases h
    exact ⟨Nat.le_of_not_lt hn, rfl⟩

theorem length_writeLenPrefixedU32 (bytes : List UInt8) :
    (writeLenPrefixedU32 bytes).length = 4 + bytes.length := by
  simp [writeLenPrefixedU32]

/-! ### Reading back what was written -/

theorem readU8_cons (b : UInt8) (bs : List UInt8) : readU8 (b :: bs) = .ok (b, bs) := by
  have hl : [b].length = 1 := rfl
  exact Reader.run_bind_ok (Reader.run_take_append hl bs)

theorem readU16_be (n : UInt16) (bs : List UInt8) : readU16 (be 2 n.toNat ++ bs) = .ok (n, bs) := by
  rw [readU16, Reader.run_bind_ok (Reader.run_take_append (length_be 2 n.toNat) bs),
    ofBe_be_of_lt n.toNat_lt, UInt16.ofNat_toNat]
  rfl

theorem readU32_be (n : UInt32) (bs : List UInt8) : readU32 (be 4 n.toNat ++ bs) = .ok (n, bs) := by
  rw [readU32, Reader.run_bind_ok (Reader.run_take_append (length_be 4 n.toNat) bs),
    ofBe_be_of_lt n.toNat_lt, UInt32.ofNat_toNat]
  rfl

theorem readU64_be (n : UInt64) (bs : List UInt8) : readU64 (be 8 n.toNat ++ bs) = .ok (n, bs) := by
  rw [readU64, Reader.run_bind_ok (Reader.run_take_append (length_be 8 n.toNat) bs),
    ofBe_be_of_lt n.toNat_lt, UInt64.ofNat_toNat]
  rfl

theorem readI32_be (n : Int32) (bs : List UInt8) :
    readI32 (be 4 n.toUInt32.toNat ++ bs) = .ok (n, bs) := by
  rw [readI32, Reader.run_bind_ok (Reader.run_take_append (length_be 4 n.toUInt32.toNat) bs),
    ofBe_be_of_lt n.toUInt32.toNat_lt, UInt32.ofNat_toNat]
  rfl

theorem readBytes_append (h : xs.length = n) (bs : List UInt8) :
    readBytes n (xs ++ bs) = .ok (xs, bs) :=
  Reader.run_take_append h bs

theorem readUtf8_append (h : (utf8 s).length = n) (bs : List UInt8) :
    readUtf8 n (utf8 s ++ bs) = .ok (s, bs) := by
  rw [readUtf8, Reader.run_bind_ok (readBytes_append h bs), fromUtf8, ofUtf8?_utf8]
  rfl

/-- The text that is all of what is left. -/
theorem readUtf8_all (s : String) : readUtf8 (utf8 s).length (utf8 s) = .ok (s, []) := by
  have h := readUtf8_append (rfl : (utf8 s).length = _) []
  rwa [List.append_nil] at h

/-- The length of a text, and the text after it. -/
theorem readU16_write (h : writeLenPrefixedU16 s = .ok w)
    (bs : List UInt8) :
    ∃ n : UInt16, (utf8 s).length = n.toNat ∧ readU16 (w ++ bs) = .ok (n, utf8 s ++ bs) := by
  obtain ⟨hl, rfl⟩ := writeLenPrefixedU16_eq_ok h
  refine ⟨UInt16.ofNat (utf8 s).length, ?_, ?_⟩
  · rw [UInt16.toNat_ofNat_of_lt' (Nat.lt_succ_of_le hl)]
  · rw [List.append_assoc, readU16_be]

theorem readLenPrefixedU16_write (h : writeLenPrefixedU16 s = .ok w)
    (bs : List UInt8) : readLenPrefixedU16 (w ++ bs) = .ok (s, bs) := by
  obtain ⟨n, hn, hr⟩ := readU16_write h bs
  rw [readLenPrefixedU16, Reader.run_bind_ok hr]
  exact readUtf8_append hn bs

/-- The length and the bytes after it, where the length fits. -/
theorem readU32_write (xs : List UInt8) (hl : xs.length < 2 ^ 32) (bs : List UInt8) :
    ∃ n : UInt32, xs.length = n.toNat ∧
      readU32 (writeLenPrefixedU32 xs ++ bs) = .ok (n, xs ++ bs) := by
  refine ⟨UInt32.ofNat xs.length, ?_, ?_⟩
  · rw [UInt32.toNat_ofNat_of_lt' hl]
  · rw [writeLenPrefixedU32, List.append_assoc, readU32_be]

variable (exports : Option (List UInt8)) (error : Option ExecutionErrorBin)

theorem flags_exports :
    resultFlags exports error &&& FLAG_HAS_EXPORTS ≠ 0 ↔ exports.isSome = true := by
  simp only [resultFlags]
  generalize exports.isSome = a
  generalize error.isSome = b
  revert a b
  decide

theorem flags_error :
    resultFlags exports error &&& FLAG_HAS_ERROR ≠ 0 ↔ error.isSome = true := by
  simp only [resultFlags]
  generalize exports.isSome = a
  generalize error.isSome = b
  revert a b
  decide

theorem readExports_write {exports : Option (List UInt8)}
    (hl : (writeExports exports).length < 2 ^ 32) (bs : List UInt8) :
    readExports (resultFlags exports error) (writeExports exports ++ bs) = .ok (exports, bs) := by
  cases exports with
  | none =>
      rw [readExports, if_neg (mt (flags_exports none error).mp (by simp))]
      rfl
  | some xs =>
      rw [writeExports, length_writeLenPrefixedU32] at hl
      obtain ⟨n, hn, hr⟩ := readU32_write xs (by omega) bs
      rw [readExports, if_pos ((flags_exports (some xs) error).mpr rfl), writeExports,
        Reader.run_bind_ok hr,
        Reader.run_bind_ok (readBytes_append hn bs)]
      rfl

theorem readError_write {error : Option ExecutionErrorBin}
    (h : writeError error = .ok w) (bs : List UInt8) :
    readError (resultFlags exports error) (w ++ bs) = .ok (error, bs) := by
  cases error with
  | none =>
      cases h
      rw [readError, if_neg (mt (flags_error exports none).mp (by simp))]
      rfl
  | some err =>
      obtain ⟨wt, ht, h⟩ := bind_eq_ok h
      obtain ⟨wm, hm, h⟩ := bind_eq_ok h
      obtain ⟨ws, hs, h⟩ := bind_eq_ok h
      obtain ⟨wc, hc, h⟩ := bind_eq_ok h
      cases h
      simp only [List.append_assoc]
      rw [readError, if_pos ((flags_error exports (some err)).mpr rfl),
        Reader.run_bind_ok (readLenPrefixedU16_write ht _),
        Reader.run_bind_ok (readLenPrefixedU16_write hm _),
        Reader.run_bind_ok (readLenPrefixedU16_write hs _),
        Reader.run_bind_ok (readLenPrefixedU16_write hc _)]
      rfl

/-- The session id is read back, and the fields follow. -/
theorem decodeBody_write (h : writeSessionId sid = .ok w) (msgType : UInt8) (bs : List UInt8)
    (hd : decodeFields msgType sid bs = .ok (f, bs')) :
    decodeBody (msgType :: (w ++ bs)) = .ok f := by
  obtain ⟨hl, rfl⟩ := writeSessionId_eq_ok h
  have hn : (UInt8.ofNat (utf8 sid).length).toNat = (utf8 sid).length :=
    UInt8.toNat_ofNat_of_lt' (Nat.lt_succ_of_le hl)
  rw [decodeBody, decodeTyped, List.cons_append, Reader.run_bind_ok (readU8_cons _ _),
    Reader.run_bind_ok (readUtf8_append hn.symm bs), hd]

/-- A frame without a session id has an empty one. -/
theorem writeSessionId_empty : writeSessionId "" = .ok [0] := rfl

variable {body : List UInt8}

/-- The decoder gives back the frame. -/
theorem decodeBody_encodeBody (h : encodeBody f = .ok body)
    (hl : body.length < 2 ^ 32) : decodeBody body = .ok f := by
  cases f with
  | authenticate token =>
      cases h
      refine decodeBody_write writeSessionId_empty _ (utf8 token)
        (?_ : readAuthenticate _ = .ok (_, []))
      rw [readAuthenticate, Reader.run_bind_ok rfl, Reader.run_bind_ok (readUtf8_all token)]
      rfl
  | createSession sid heap cpu =>
      obtain ⟨ws, hs, h⟩ := bind_eq_ok h
      cases h
      refine decodeBody_write hs _ _ (?_ : readCreateSession sid _ = .ok (_, []))
      have hc := readU32_be cpu []
      rw [List.append_nil] at hc
      rw [readCreateSession, Reader.run_bind_ok (readU32_be heap _), Reader.run_bind_ok hc]
      rfl
  | destroySession sid =>
      obtain ⟨ws, hs, h⟩ := bind_eq_ok h
      cases h
      have ht := decodeBody_write hs MSG_DESTROY_SESSION [] rfl
      rwa [List.append_nil] at ht
  | injectGlobals sid payload =>
      obtain ⟨ws, hs, h⟩ := bind_eq_ok h
      cases h
      exact decodeBody_write hs _ _ rfl
  | execute sid mode fp bc prs uc =>
      obtain ⟨ws, hs, h⟩ := bind_eq_ok h
      obtain ⟨wf, hf, h⟩ := bind_eq_ok h
      cases h
      simp only [List.length_cons, List.length_append, length_writeLenPrefixedU32] at hl
      obtain ⟨nb, hnb, hb⟩ := readU32_write (utf8 bc) (by omega)
        (writeLenPrefixedU32 (utf8 prs) ++ utf8 uc)
      obtain ⟨np, hnp, hp⟩ := readU32_write (utf8 prs) (by omega) (utf8 uc)
      refine decodeBody_write hs _ _ (?_ : readExecute sid _ = .ok (_, []))
      obtain ⟨n, hn, hr⟩ := readU16_write hf _
      rw [readExecute, Reader.run_bind_ok (readU8_cons mode _), Reader.run_bind_ok hr,
        Reader.run_bind_ok (readUtf8_append hn _),
        Reader.run_bind_ok hb, Reader.run_bind_ok (readUtf8_append hnb _),
        Reader.run_bind_ok hp, Reader.run_bind_ok (readUtf8_append hnp _),
        Reader.run_bind_ok rfl, Reader.run_bind_ok (readUtf8_all uc)]
      rfl
  | bridgeResponse sid callId status payload =>
      obtain ⟨ws, hs, h⟩ := bind_eq_ok h
      cases h
      refine decodeBody_write hs _ _ (?_ : readBridgeResponse sid _ = .ok (_, []))
      rw [readBridgeResponse, Reader.run_bind_ok (readU64_be callId _),
        Reader.run_bind_ok (readU8_cons status _)]
      rfl
  | streamEvent sid et payload =>
      obtain ⟨ws, hs, h⟩ := bind_eq_ok h
      obtain ⟨we, he, h⟩ := bind_eq_ok h
      cases h
      refine decodeBody_write hs _ _ (?_ : readStreamEvent sid _ = .ok (_, []))
      obtain ⟨n, hn, hr⟩ := readU16_write he _
      rw [readStreamEvent, Reader.run_bind_ok hr, Reader.run_bind_ok (readUtf8_append hn _)]
      rfl
  | terminateExecution sid =>
      obtain ⟨ws, hs, h⟩ := bind_eq_ok h
      cases h
      have ht := decodeBody_write hs MSG_TERMINATE_EXECUTION [] rfl
      rwa [List.append_nil] at ht
  | warmSnapshot bc =>
      cases h
      simp only [List.length_cons, length_writeLenPrefixedU32] at hl
      obtain ⟨nb, hnb, hb⟩ := readU32_write (utf8 bc) (by omega) []
      refine decodeBody_write writeSessionId_empty _ (writeLenPrefixedU32 (utf8 bc))
        (?_ : readWarmSnapshot _ = .ok (_, []))
      simp only [List.append_nil] at hb
      rw [readWarmSnapshot, Reader.run_bind_ok hb, ← hnb, Reader.run_bind_ok (readUtf8_all bc)]
      rfl
  | bridgeCall sid callId method payload =>
      obtain ⟨ws, hs, h⟩ := bind_eq_ok h
      obtain ⟨wm, hm, h⟩ := bind_eq_ok h
      cases h
      refine decodeBody_write hs _ _ (?_ : readBridgeCall sid _ = .ok (_, []))
      obtain ⟨n, hn, hr⟩ := readU16_write hm _
      rw [readBridgeCall, Reader.run_bind_ok (readU64_be callId _), Reader.run_bind_ok hr,
        Reader.run_bind_ok (readUtf8_append hn _)]
      rfl
  | executionResult sid exitCode exports error =>
      obtain ⟨ws, hs, h⟩ := bind_eq_ok h
      obtain ⟨we, he, h⟩ := bind_eq_ok h
      cases h
      simp only [List.length_cons, List.length_append] at hl
      have hr := readError_write exports he []
      rw [List.append_nil] at hr
      refine decodeBody_write hs _ _ (?_ : readExecutionResult sid _ = .ok (_, []))
      rw [readExecutionResult, Reader.run_bind_ok (readI32_be exitCode _),
        Reader.run_bind_ok (readU8_cons _ _),
        Reader.run_bind_ok (readExports_write error (by omega) _), Reader.run_bind_ok hr]
      rfl
  | log sid channel message =>
      obtain ⟨ws, hs, h⟩ := bind_eq_ok h
      cases h
      refine decodeBody_write hs _ _ (?_ : readLog sid _ = .ok (_, []))
      rw [readLog, Reader.run_bind_ok (readU8_cons channel _), Reader.run_bind_ok rfl,
        Reader.run_bind_ok (readUtf8_all message)]
      rfl
  | streamCallback sid ct payload =>
      obtain ⟨ws, hs, h⟩ := bind_eq_ok h
      obtain ⟨wc, hc, h⟩ := bind_eq_ok h
      cases h
      refine decodeBody_write hs _ _ (?_ : readStreamCallback sid _ = .ok (_, []))
      obtain ⟨n, hn, hr⟩ := readU16_write hc _
      rw [readStreamCallback, Reader.run_bind_ok hr, Reader.run_bind_ok (readUtf8_append hn _)]
      rfl

/-! ### When the encoder succeeds -/

theorem writeSessionId_of_le (h : (utf8 sid).length ≤ 255) :
    ∃ w, writeSessionId sid = .ok w ∧ w.length = 1 + (utf8 sid).length := by
  refine ⟨_, if_neg (Nat.not_lt.mpr h), ?_⟩
  rw [List.length_cons, Nat.add_comm]

theorem writeLenPrefixedU16_of_le (h : (utf8 s).length ≤ 0xFFFF) :
    ∃ w, writeLenPrefixedU16 s = .ok w ∧ w.length = 2 + (utf8 s).length := by
  refine ⟨_, if_neg (Nat.not_lt.mpr h), ?_⟩
  rw [List.length_append, length_be]

theorem length_writeExports :
    (writeExports exports).length = exports.elim 0 fun xs => 4 + xs.length := by
  cases exports with
  | none => rfl
  | some xs => exact length_writeLenPrefixedU32 xs

theorem writeError_of_le {error : Option ExecutionErrorBin}
    (h : ∀ e, error = some e → ∀ s ∈ [e.errorType, e.message, e.stack, e.code],
      (utf8 s).length ≤ 0xFFFF) :
    ∃ w, writeError error = .ok w ∧ w.length = error.elim 0 fun e =>
      (2 + (utf8 e.errorType).length) + (2 + (utf8 e.message).length) +
        (2 + (utf8 e.stack).length) + (2 + (utf8 e.code).length) := by
  cases error with
  | none => exact ⟨[], rfl, rfl⟩
  | some e =>
      obtain ⟨wt, ht, hlt⟩ := writeLenPrefixedU16_of_le (h e rfl e.errorType (by simp))
      obtain ⟨wm, hm, hlm⟩ := writeLenPrefixedU16_of_le (h e rfl e.message (by simp))
      obtain ⟨ws, hs, hls⟩ := writeLenPrefixedU16_of_le (h e rfl e.stack (by simp))
      obtain ⟨wc, hc, hlc⟩ := writeLenPrefixedU16_of_le (h e rfl e.code (by simp))
      refine ⟨wt ++ wm ++ ws ++ wc, ?_, ?_⟩
      · rw [writeError, ht, bind_ok, hm, bind_ok, hs, bind_ok, hc, bind_ok]
        rfl
      · simp only [List.length_append, Option.elim, hlt, hlm, hls, hlc]

/-- A frame with short enough texts is encoded, and its body has the size of its fields. -/
theorem encodeBody_of_fits (hsid : f.sidBytes ≤ 255)
    (hshort : ∀ s ∈ f.shortTexts, (utf8 s).length ≤ 0xFFFF) :
    ∃ body, encodeBody f = .ok body ∧ body.length = 2 + f.sidBytes + f.fieldBytes := by
  obtain ⟨ws, hs, hls⟩ := writeSessionId_of_le hsid
  simp only [BinaryFrame.sidBytes]
  cases f with
  | authenticate | warmSnapshot =>
      refine ⟨_, rfl, ?_⟩
      simp only [List.length_cons, BinaryFrame.fieldBytes, BinaryFrame.sessionId?,
        Option.getD_none, utf8_empty, List.length_nil, length_writeLenPrefixedU32]
      omega
  | createSession | destroySession | injectGlobals | bridgeResponse | terminateExecution | log =>
      simp only [BinaryFrame.sessionId?, Option.getD_some] at hs hls ⊢
      refine ⟨_, by rw [encodeBody, hs, bind_ok]; rfl, ?_⟩
      simp only [List.length_cons, List.length_append, hls, BinaryFrame.fieldBytes, length_be]
      omega
  | execute | streamEvent | bridgeCall | streamCallback =>
      simp only [BinaryFrame.sessionId?, Option.getD_some] at hs hls ⊢
      obtain ⟨w, hw, hlw⟩ := writeLenPrefixedU16_of_le (hshort _ (List.mem_singleton_self _))
      refine ⟨_, by rw [encodeBody, hs, bind_ok, hw, bind_ok]; rfl, ?_⟩
      simp only [List.length_cons, List.length_append, hls, BinaryFrame.fieldBytes, hlw, length_be,
        length_writeLenPrefixedU32]
      omega
  | executionResult sid exitCode exports error =>
      simp only [BinaryFrame.sessionId?, Option.getD_some] at hs hls ⊢
      have hfit : ∀ e, error = some e → ∀ s ∈ [e.errorType, e.message, e.stack, e.code],
          (utf8 s).length ≤ 0xFFFF := by
        rintro e rfl s hmem
        exact hshort s hmem
      obtain ⟨w, hw, hlw⟩ := writeError_of_le hfit
      refine ⟨_, by rw [encodeBody, hs, bind_ok, hw, bind_ok]; rfl, ?_⟩
      simp only [List.length_cons, List.length_append, hls, BinaryFrame.fieldBytes, hlw, length_be,
        length_writeExports]
      omega

theorem writeError_fits {e : ExecutionErrorBin}
    (h : writeError (some e) = .ok w) :
    ∀ s ∈ [e.errorType, e.message, e.stack, e.code], (utf8 s).length ≤ 0xFFFF := by
  obtain ⟨wt, ht, h⟩ := bind_eq_ok h
  obtain ⟨wm, hm, h⟩ := bind_eq_ok h
  obtain ⟨ws, hs, h⟩ := bind_eq_ok h
  obtain ⟨wc, hc, h⟩ := bind_eq_ok h
  intro s hmem
  simp only [List.mem_cons, List.not_mem_nil, or_false] at hmem
  rcases hmem with rfl | rfl | rfl | rfl
  · exact (writeLenPrefixedU16_eq_ok ht).1
  · exact (writeLenPrefixedU16_eq_ok hm).1
  · exact (writeLenPrefixedU16_eq_ok hs).1
  · exact (writeLenPrefixedU16_eq_ok hc).1

/-- The only text of a frame fits when it was written. -/
theorem forall_short_of_ok (h : writeLenPrefixedU16 s = .ok w) :
    ∀ t ∈ [s], (utf8 t).length ≤ 0xFFFF := by
  intro t ht
  rw [List.mem_singleton.mp ht]
  exact (writeLenPrefixedU16_eq_ok h).1

/-- The texts of a frame that was encoded fit their lengths. -/
theorem fits_of_encodeBody (h : encodeBody f = .ok body) :
    f.sidBytes ≤ 255 ∧ ∀ s ∈ f.shortTexts, (utf8 s).length ≤ 0xFFFF := by
  cases f with
  | authenticate token => exact ⟨Nat.zero_le _, List.forall_mem_nil _⟩
  | warmSnapshot bc => exact ⟨Nat.zero_le _, List.forall_mem_nil _⟩
  | createSession | destroySession | injectGlobals | bridgeResponse | terminateExecution | log =>
      obtain ⟨ws, hs, -⟩ := bind_eq_ok h
      exact ⟨(writeSessionId_eq_ok hs).1, List.forall_mem_nil _⟩
  | execute | streamEvent | bridgeCall | streamCallback =>
      obtain ⟨ws, hs, h⟩ := bind_eq_ok h
      obtain ⟨w, hw, -⟩ := bind_eq_ok h
      exact ⟨(writeSessionId_eq_ok hs).1, forall_short_of_ok hw⟩
  | executionResult sid exitCode exports error =>
      obtain ⟨ws, hs, h⟩ := bind_eq_ok h
      obtain ⟨w, hw, -⟩ := bind_eq_ok h
      refine ⟨(writeSessionId_eq_ok hs).1, ?_⟩
      cases error with
      | none => exact List.forall_mem_nil _
      | some e => exact writeError_fits hw

/-! ### Frames on a stream -/

variable {bytes : List UInt8}

/-- What `encode_frame_into` leaves in the buffer, and that the frame was within the limits. -/
theorem encodeFrameInto_eq_ok
    (h : encodeFrameInto f = .ok bytes) :
    ∃ body, encodeBody f = .ok body ∧ body.length ≤ MAX_FRAME_SIZE ∧
      bytes = be 4 (UInt32.ofNat body.length).toNat ++ body := by
  obtain ⟨body, hb, h⟩ := bind_eq_ok h
  dsimp only at h
  split at h
  · cases h
  · rename_i hl
    cases h
    exact ⟨body, hb, Nat.le_of_not_lt hl, rfl⟩

theorem encodeFrameInto_of_body
    (h : encodeBody f = .ok body) (hl : body.length ≤ MAX_FRAME_SIZE) :
    encodeFrameInto f = .ok (be 4 (UInt32.ofNat body.length).toNat ++ body) := by
  rw [encodeFrameInto, h, bind_ok]
  dsimp only
  rw [if_neg (Nat.not_lt.mpr hl)]
  rfl

theorem maxFrame_lt : MAX_FRAME_SIZE < 2 ^ 32 := by decide

/-- The length prefix of a body that is small enough. -/
theorem lengthPrefix (h : n ≤ MAX_FRAME_SIZE) : (UInt32.ofNat n).toNat = n :=
  UInt32.toNat_ofNat_of_lt' (Nat.lt_of_le_of_lt h maxFrame_lt)

/-- **A frame is encoded exactly when it is within the limits.** -/
theorem encodeFrameInto_isOk_iff (f : BinaryFrame) :
    (∃ bytes, encodeFrameInto f = .ok bytes) ↔ f.WithinLimits := by
  constructor
  · rintro ⟨bytes, h⟩
    obtain ⟨body, hb, hl, -⟩ := encodeFrameInto_eq_ok h
    obtain ⟨hsid, hshort⟩ := fits_of_encodeBody hb
    obtain ⟨body', hb', hlen⟩ := encodeBody_of_fits hsid hshort
    rw [hb] at hb'
    cases hb'
    exact ⟨hsid, hshort, hlen ▸ hl⟩
  · intro h
    obtain ⟨body, hb, hlen⟩ := encodeBody_of_fits h.sid h.short
    exact ⟨_, encodeFrameInto_of_body hb (hlen ▸ h.body)⟩

theorem readExact_append (h : xs.length = n) (bs : List UInt8) :
    readExact n (xs ++ bs) = .ok (xs, bs) :=
  Reader.run_take_append h bs

/-- A reader at an encoded frame reads the frame and leaves what follows. -/
theorem readFrame_encode (h : encodeFrameInto f = .ok bytes)
    (more : List UInt8) : readFrame (bytes ++ more) = .ok (f, more) := by
  obtain ⟨body, hb, hl, rfl⟩ := encodeFrameInto_eq_ok h
  have h4 : (be 4 (UInt32.ofNat body.length).toNat).length = 4 := length_be _ _
  have hn : ofBe (be 4 (UInt32.ofNat body.length).toNat) = body.length := by
    rw [lengthPrefix hl, ofBe_be_of_lt (Nat.lt_of_le_of_lt hl maxFrame_lt)]
  have hd := decodeBody_encodeBody hb (Nat.lt_of_le_of_lt hl maxFrame_lt)
  rw [List.append_assoc, readFrame, Reader.run_bind_ok (readExact_append h4 _)]
  simp only [hn]
  rw [if_neg (Nat.not_lt.mpr hl), Reader.run_bind_ok (readExact_append rfl _), hd]
  rfl

/-- Read `n` frames. -/
def readFrames : Nat → Reader IoError (List BinaryFrame)
  | 0 => return []
  | n + 1 => do
      let f ← readFrame
      let fs ← readFrames n
      return f :: fs

/-- The encodings of some frames, one after the other. -/
def encodeFrames : List BinaryFrame → Except IoError (List UInt8)
  | [] => return []
  | f :: fs => do
      let bytes ← encodeFrameInto f
      let more ← encodeFrames fs
      return bytes ++ more

/-- **Encoded frames are read back one by one.** -/
theorem readFrames_encode {fs : List BinaryFrame}
    (h : encodeFrames fs = .ok bytes) (more : List UInt8) :
    readFrames fs.length (bytes ++ more) = .ok (fs, more) := by
  induction fs generalizing bytes with
  | nil =>
      cases h
      rfl
  | cons f fs ih =>
      obtain ⟨b, hb, h⟩ := bind_eq_ok h
      obtain ⟨bs, hbs, h⟩ := bind_eq_ok h
      cases h
      rw [List.length_cons, readFrames, List.append_assoc,
        Reader.run_bind_ok (readFrame_encode hb _), Reader.run_bind_ok (ih hbs)]
      rfl

/-! ### The session id of a raw frame -/

theorem extractSessionId_sid (h : writeSessionId sid = .ok w)
    {msgType : UInt8} (ha : msgType ≠ MSG_AUTHENTICATE) (hw : msgType ≠ MSG_WARM_SNAPSHOT)
    (more : List UInt8) : extractSessionId (msgType :: (w ++ more)) = .ok (some sid) := by
  obtain ⟨hl, rfl⟩ := writeSessionId_eq_ok h
  have hn : (UInt8.ofNat (utf8 sid).length).toNat = (utf8 sid).length :=
    UInt8.toNat_ofNat_of_lt' (Nat.lt_succ_of_le hl)
  rw [List.cons_append, extractSessionId, if_neg (by simp [ha, hw]), hn,
    if_neg (by rw [List.length_append]; omega), List.take_left, fromUtf8, ofUtf8?_utf8]

/-- The session id of a raw frame is the one of the frame. -/
theorem extractSessionId_encodeBody
    (h : encodeBody f = .ok body) : extractSessionId body = .ok f.sessionId? := by
  cases f with
  | authenticate token =>
      cases h
      rfl
  | warmSnapshot bc =>
      cases h
      rfl
  | createSession | injectGlobals | bridgeResponse | log =>
      obtain ⟨ws, hs, h⟩ := bind_eq_ok h
      cases h
      exact extractSessionId_sid hs (by decide) (by decide) _
  | destroySession | terminateExecution =>
      obtain ⟨ws, hs, h⟩ := bind_eq_ok h
      cases h
      rw [← List.append_nil ws]
      exact extractSessionId_sid hs (by decide) (by decide) []
  | execute | streamEvent | bridgeCall | executionResult | streamCallback =>
      obtain ⟨ws, hs, h⟩ := bind_eq_ok h
      obtain ⟨w, hw, h⟩ := bind_eq_ok h
      cases h
      exact extractSessionId_sid hs (by decide) (by decide) _

end Ipc.Native
