import SecureExec.Ipc.Agreement

/-!
# Session — BridgeValues — what the guest gets of what a handler returns

The host answers a bridge call with a status byte and a payload: a `Uint8Array` as its bytes under
status 2, `undefined` as an empty payload and any other value serialised under status 0, the message
of what was thrown under status 1.  The native runtime looks at the status for an error only.  It
takes an empty payload for `undefined`, and any other for a serialised value if it deserialises and
for the bytes of a `Uint8Array` if it does not.

* `answer`: the call and the response, each encoded on one side and decoded on the other.
* `syncOutcome`, `asyncOutcome`: what a blocking call returns and what a promise is settled with;
  `async_eq_sync`: they are the same.
* `values_arrive_iff`: a value arrives unchanged exactly where it is `Recognised`.
* `bytes_arrive_as_other_values`: a `Uint8Array` that arrives as `undefined`, one that arrives as
  `true`.

The serialisers of the two sides are parameters, with `Codec.Lawful` for what the code relies on.
-/

namespace Bridge
open Ipc Wire

/-! ### Values -/

/-- A JavaScript value, as far as the bridge tells values apart. -/
inductive JsValue (α : Type) where
  | undefined
  | uint8Array (bytes : List UInt8)
  | other (a : α)
  deriving DecidableEq

/-- What a JavaScript function throws: an `Error`, or a value that `String` makes a text of, or
one that `String` throws at. -/
inductive Thrown where
  | error (message : String)
  | other (text : Option String)
  deriving DecidableEq

/-- `err instanceof Error ? err.message : String(err)`. -/
def Thrown.errMsg : Thrown → Option String
  | .error message => some message
  | .other text => text

/-- The serialisers: `node:v8` and V8's own, or the CBOR libraries. -/
structure Codec (α : Type) where
  ipcSerialize : JsValue α → Except Thrown (List UInt8)
  ipcDeserialize : List UInt8 → Except Thrown (JsValue α)
  deserializeV8Value : List UInt8 → Except String (JsValue α)
  /-- The elements, where `Array.isArray` holds. -/
  elements : α → Option (List (JsValue α))

/-- What the code relies on: deserialising is the inverse of serialising, and no value is
deserialised from no bytes (the header of the format is missing). -/
structure Codec.Lawful {α : Type} (c : Codec α) : Prop where
  inverse : ∀ a bytes, c.ipcSerialize (.other a) = .ok bytes →
    c.deserializeV8Value bytes = .ok (.other a)
  header : ∀ v, c.deserializeV8Value [] ≠ .ok v

variable {α : Type}

/-! ### The host -/

/-- `bridgeHandlers`.  What a handler returns is awaited. -/
abbrev Handlers (α : Type) : Type :=
  String → Option (List (JsValue α) → Except Thrown (JsValue α))

/-- `Array.isArray(args) ? args : [args]`. -/
def Codec.arguments (c : Codec α) (args : JsValue α) : List (JsValue α) :=
  match args with
  | .other a => (c.elements a).getD [args]
  | _ => [args]

/-- The arguments are deserialised and the handler is called. -/
def callHandler (c : Codec α) (handler : List (JsValue α) → Except Thrown (JsValue α))
    (payload : List UInt8) : Except Thrown (JsValue α) := do
  let args ← c.ipcDeserialize payload
  handler (c.arguments args)

/-- What `encodeFrame` throws. -/
def thrown : Host.JsError → Thrown
  | .error message => .error message
  | .rangeError => .error "The value of \"value\" is out of range."

/-- `client.send`: the bytes that are written to the socket. -/
def send (connected : Bool) (frame : Host.BinaryFrame) : Except Thrown (List UInt8) :=
  if connected then (Host.encodeFrame frame).mapError thrown
  else .error (.error "IPC client is not connected")

/-- The response to a call whose handler returned. -/
def resultFrame (c : Codec α) (sessionId : String) (callId : Int) (result : JsValue α) :
    Except Thrown Host.BinaryFrame :=
  match result with
  | .uint8Array bytes => return .bridgeResponse sessionId callId (some 2) bytes
  | .undefined => return .bridgeResponse sessionId callId (some 0) []
  | .other _ => return .bridgeResponse sessionId callId (some 0) (← c.ipcSerialize result)

def errorFrame (sessionId : String) (callId : Int) (errMsg : String) : Host.BinaryFrame :=
  .bridgeResponse sessionId callId (some 1) (utf8 errMsg)

/-- The `try` block: the handler is called, and the response to its result is sent. -/
def respond (c : Codec α) (handler : List (JsValue α) → Except Thrown (JsValue α))
    (connected : Bool) (sessionId : String) (callId : Int) (payload : List UInt8) :
    Except Thrown (List UInt8) := do
  let result ← callHandler c handler payload
  let frame ← resultFrame c sessionId callId result
  send connected frame

/-- What the host writes for a frame of the session; `none` where nothing is written.  What `String`
or the `send` of the `catch` throws is not caught, and no response is written. -/
def handleFrame (c : Codec α) (handlers : Handlers α) (connected : Bool) (sessionId : String) :
    Host.BinaryFrame → Option (List UInt8)
  | .bridgeCall _ callId method payload =>
    match handlers method with
    | none => (send connected
        (errorFrame sessionId callId s!"No handler for bridge method: {method}")).toOption
    | some handler =>
      match respond c handler connected sessionId callId payload with
      | .ok bytes => some bytes
      | .error err => err.errMsg.bind fun errMsg =>
          (send connected (errorFrame sessionId callId errMsg)).toOption
  | _ => none

/-! ### The wire -/

/-- A frame of the native runtime, as the host decodes it. -/
def hostReceives (f : Native.BinaryFrame) : Option Host.BinaryFrame :=
  (Native.encodeFrameInto f).toOption.bind fun bytes => (Host.decodeFrame (bytes.drop 4)).toOption

/-- Bytes that the host writes, as the native runtime decodes them. -/
def nativeReceives (bytes : List UInt8) : Option Native.BinaryFrame :=
  (Native.decodeBody (bytes.drop 4)).toOption

/-- The frame that the native runtime gets back for one that it writes. -/
def answer (c : Codec α) (handlers : Handlers α) (connected : Bool) (sessionId : String)
    (f : Native.BinaryFrame) : Option Native.BinaryFrame := do
  let frame ← hostReceives f
  let bytes ← handleFrame c handlers connected sessionId frame
  nativeReceives bytes

/-! ### The native runtime -/

/-- What the guest observes of a bridge call. -/
inductive Outcome (α : Type) where
  | returned (v : JsValue α)
  | threw (message : String)
  deriving DecidableEq

/-- `recv_response`: other frames are set aside, and the call waits on. -/
def recvResponse (expectedCallId : UInt64) : Native.BinaryFrame → Option Native.BinaryFrame
  | .bridgeResponse sid callId status payload =>
    if callId = expectedCallId then some (.bridgeResponse sid callId status payload) else none
  | _ => none

/-- `sync_call`, from the response on. -/
def syncCall (callId : UInt64) : Native.BinaryFrame → Except String (Option (List UInt8))
  | .bridgeResponse _ respId status payload =>
    if respId ≠ callId then
      .error s!"call_id mismatch: expected {callId.toNat}, got {respId.toNat}"
    else if status = 1 then .error (lossy payload)
    else if payload.isEmpty then .ok none
    else .ok (some payload)
  | _ => .error "expected BridgeResponse, got different message type"

/-- The bytes of a response as a value: deserialised, or else as they are. -/
def valueOf (c : Codec α) (bytes : List UInt8) : JsValue α :=
  match c.deserializeV8Value bytes with
  | .ok val => val
  | .error _ => .uint8Array bytes

def syncBridgeCallback (c : Codec α) : Except String (Option (List UInt8)) → Outcome α
  | .ok (some resultBytes) => .returned (valueOf c resultBytes)
  | .ok none => .returned .undefined
  | .error errMsg => .threw errMsg

/-- `resolve_pending_promise`: the promise that is settled, and with what. -/
def resolvePendingPromise (c : Codec α) (pending : List UInt64) (callId : UInt64)
    (result : Option (List UInt8)) (error : Option String) : Except String (UInt64 × Outcome α) :=
  if callId ∈ pending then
    match error, result with
    | some errMsg, _ => .ok (callId, .threw errMsg)
    | none, some resultBytes => .ok (callId, .returned (valueOf c resultBytes))
    | none, none => .ok (callId, .returned .undefined)
  else .error s!"no pending promise for call_id {callId.toNat}"

/-- `dispatch_event_loop_frame`, of a response. -/
def dispatchEventLoopFrame (c : Codec α) (pending : List UInt64) :
    Native.BinaryFrame → Option (UInt64 × Outcome α)
  | .bridgeResponse _ callId status payload =>
    let (result, error) :=
      if status = 1 then (none, some (lossy payload))
      else if !payload.isEmpty then (some payload, none)
      else (none, none)
    (resolvePendingPromise c pending callId result error).toOption
  | _ => none

/-- What a blocking call ends with once the frame has arrived; `none`: it still waits. -/
def syncOutcome (c : Codec α) (callId : UInt64) (frame : Option Native.BinaryFrame) :
    Option (Outcome α) :=
  (frame.bind (recvResponse callId)).map fun f => syncBridgeCallback c (syncCall callId f)

/-- What the promise of the call is settled with once the frame has arrived; `none`: it is still
pending. -/
def asyncOutcome (c : Codec α) (pending : List UInt64) (callId : UInt64)
    (frame : Option Native.BinaryFrame) : Option (Outcome α) :=
  (frame.bind (dispatchEventLoopFrame c pending)).bind fun (id, outcome) =>
    if id = callId then some outcome else none

/-! ### The property and the condition -/

/-- The guest observes what the handler did: a value as it is, a throw as an exception. -/
def Arrives (result : Except Thrown (JsValue α)) (observed : Option (Outcome α)) : Prop :=
  match result with
  | .ok v => observed = some (.returned v)
  | .error _ => ∃ message, observed = some (.threw message)

/-- The serialiser accepts a value that the host serialises. -/
def Accepted (c : Codec α) (result : Except Thrown (JsValue α)) : Prop :=
  ∀ a, result = .ok (.other a) → ∃ bytes, c.ipcSerialize (.other a) = .ok bytes

/-- A response of the session with this payload is small enough to be sent. -/
def Fits (sessionId : String) (payload : List UInt8) : Prop :=
  11 + (utf8 sessionId).length + payload.length ≤ Native.MAX_FRAME_SIZE

instance (sessionId : String) (payload : List UInt8) : Decidable (Fits sessionId payload) :=
  inferInstanceAs (Decidable (_ ≤ _))

/-- The payload says what the handler did: it fits a frame, and the bytes of a `Uint8Array` are
neither none nor those of another value; what was thrown has a text. -/
def Recognised (c : Codec α) (sessionId : String) : Except Thrown (JsValue α) → Prop
  | .ok .undefined => True
  | .ok (.uint8Array bytes) =>
    bytes ≠ [] ∧ (∀ v, c.deserializeV8Value bytes = .ok v → v = .uint8Array bytes) ∧
      Fits sessionId bytes
  | .ok (.other a) => ∀ bytes, c.ipcSerialize (.other a) = .ok bytes → Fits sessionId bytes
  | .error err => ∃ errMsg, err.errMsg = some errMsg ∧ Fits sessionId (utf8 errMsg)

/-! ### Sending -/

variable {t : Host.BinaryFrame}

theorem send_eq_ok_iff {bytes : List UInt8} :
    send true t = .ok bytes ↔ Host.encodeFrame t = .ok bytes := by
  rw [send, if_pos rfl]
  cases Host.encodeFrame t with
  | ok b => simp only [Except.mapError, Except.ok.injEq]
  | error e => exact iff_of_false (fun h => nomatch h) (fun h => nomatch h)

/-- What is sent is decoded to the frame that was sent. -/
theorem nativeReceives_of_send {bytes : List UInt8}
    (h : send true t = .ok bytes) : nativeReceives bytes = some (Host.toNative t) := by
  have he := (Host.encodeFrame_iff.mp (send_eq_ok_iff.mp h)).2
  obtain ⟨body, hbody, hl, rfl⟩ := Native.encodeFrameInto_eq_ok he
  have hd := Native.decodeBody_encodeBody hbody (Nat.lt_of_le_of_lt hl Native.maxFrame_lt)
  rw [nativeReceives, List.drop_left' (length_be 4 _), hd]
  rfl

/-- A frame is sent exactly when it is within the limits. -/
theorem send_isOk_iff (t : Host.BinaryFrame) :
    (∃ bytes, send true t = .ok bytes) ↔
      Host.NumbersInRange t ∧ (Host.toNative t).WithinLimits := by
  rw [← Native.encodeFrameInto_isOk_iff]
  simp only [send_eq_ok_iff, Host.encodeFrame_iff, exists_and_left]

variable {callId : UInt64}

/-- The call, as the host decodes it. -/
theorem hostReceives_call {sid method : String} {args : List UInt8}
    (h : (Native.BinaryFrame.bridgeCall sid callId method args).WithinLimits) :
    hostReceives (.bridgeCall sid callId method args) =
      some (.bridgeCall sid (Host.bigintToNumber callId.toNat) method args) := by
  obtain ⟨bytes, hb⟩ := (Native.encodeFrameInto_isOk_iff _).mpr h
  obtain ⟨body, hbody, hl, rfl⟩ := Native.encodeFrameInto_eq_ok hb
  have hd := Native.decodeBody_encodeBody hbody (Nat.lt_of_le_of_lt hl Native.maxFrame_lt)
  rw [hostReceives, hb]
  simp only [Except.toOption, Option.bind_some]
  rw [List.drop_left' (length_be 4 _), Host.decodeFrame_of_native hd]
  rfl

/-- The limits of a response are those of its session id and its payload. -/
theorem response_withinLimits (sid : String) (callId : UInt64) (status : UInt8)
    (payload : List UInt8) :
    (Native.BinaryFrame.bridgeResponse sid callId status payload).WithinLimits ↔
      (utf8 sid).length ≤ 255 ∧ Fits sid payload := by
  constructor
  · rintro ⟨hsid, -, hbody⟩
    refine ⟨hsid, ?_⟩
    simp only [Native.BinaryFrame.sidBytes, Native.BinaryFrame.fieldBytes,
      Native.BinaryFrame.sessionId?, Option.getD_some] at hbody
    rw [Fits]
    omega
  · rintro ⟨hsid, hfits⟩
    refine ⟨hsid, fun s hs => (by cases hs), ?_⟩
    simp only [Native.BinaryFrame.sidBytes, Native.BinaryFrame.fieldBytes,
      Native.BinaryFrame.sessionId?, Option.getD_some]
    rw [Fits] at hfits
    omega

/-! ### The outcome of a response -/

/-- What the native runtime makes of a status and a payload. -/
def outcomeOf (c : Codec α) (status : UInt8) (payload : List UInt8) : Outcome α :=
  if status = 1 then .threw (lossy payload)
  else if payload.isEmpty then .returned .undefined
  else .returned (valueOf c payload)

theorem syncOutcome_response (c : Codec α) (sid : String) (callId : UInt64) (status : UInt8)
    (payload : List UInt8) :
    syncOutcome c callId (some (.bridgeResponse sid callId status payload)) =
      some (outcomeOf c status payload) := by
  simp only [syncOutcome, Option.bind_some, recvResponse, if_true, Option.map_some, syncCall,
    ne_eq, not_true, if_false, outcomeOf]
  split
  · rfl
  · split <;> rfl

/-- A response to another call is no answer. -/
theorem syncOutcome_other (c : Codec α) {sid : String} {id : UInt64} (h : id ≠ callId)
    (status : UInt8) (payload : List UInt8) :
    syncOutcome c callId (some (.bridgeResponse sid id status payload)) = none := by
  simp only [syncOutcome, Option.bind_some, recvResponse, if_neg h, Option.map_none]

theorem dispatchEventLoopFrame_response (c : Codec α) (pending : List UInt64) (sid : String)
    (callId : UInt64) (status : UInt8) (payload : List UInt8) :
    dispatchEventLoopFrame c pending (.bridgeResponse sid callId status payload) =
      if callId ∈ pending then some (callId, outcomeOf c status payload) else none := by
  by_cases hp : callId ∈ pending
  · rw [if_pos hp, outcomeOf]
    by_cases hs : status = 1
    · simp only [dispatchEventLoopFrame, if_pos hs, resolvePendingPromise, if_pos hp,
        Except.toOption]
    · cases hl : payload.isEmpty <;>
        simp [dispatchEventLoopFrame, hs, resolvePendingPromise, hp, hl, Except.toOption]
  · simp only [dispatchEventLoopFrame, resolvePendingPromise, if_neg hp, Except.toOption]

/-- **Both paths give the same value**, whatever frame arrives. -/
theorem async_eq_sync (c : Codec α) {pending : List UInt64}
    (hp : callId ∈ pending) (frame : Option Native.BinaryFrame) :
    asyncOutcome c pending callId frame = syncOutcome c callId frame := by
  cases frame with
  | none => rfl
  | some f =>
    cases f with
    | bridgeResponse sid id status payload =>
      rw [asyncOutcome, Option.bind_some, dispatchEventLoopFrame_response]
      by_cases hid : id = callId
      · subst hid
        rw [syncOutcome_response, if_pos hp, Option.bind_some]
        simp only [if_true]
      · rw [syncOutcome_other c hid]
        split
        · simp only [Option.bind_some, if_neg hid]
        · rfl
    | _ => rfl

/-! ### The response to a call -/

section

variable {c : Codec α} {handlers : Handlers α}
  {handler : List (JsValue α) → Except Thrown (JsValue α)} {sid method : String}
  {callId : UInt64} {args : List UInt8}

variable {v : JsValue α}

theorem resultFrame_response {id : Int} (h : resultFrame c sid id v = .ok t) :
    ∃ status payload, t = .bridgeResponse sid id (some status) payload := by
  cases v with
  | undefined =>
    cases h
    exact ⟨_, _, rfl⟩
  | uint8Array bytes =>
    cases h
    exact ⟨_, _, rfl⟩
  | other a =>
    obtain ⟨bytes, -, h⟩ := bind_eq_ok h
    cases h
    exact ⟨_, _, rfl⟩

/-- What is written for a call is a response with the call id that the host decoded. -/
theorem handleFrame_response {bytes : List UInt8} {sid' : String} {id : Int}
    (h : handleFrame c handlers true sid (.bridgeCall sid' id method args) = some bytes) :
    ∃ status payload, send true (.bridgeResponse sid id (some status) payload) = .ok bytes := by
  have hsend : ∀ {errMsg : String},
      (send true (errorFrame sid id errMsg)).toOption = some bytes →
      ∃ status payload, send true (.bridgeResponse sid id (some status) payload) = .ok bytes := by
    intro errMsg h
    cases he : send true (errorFrame sid id errMsg) with
    | ok b =>
      rw [he] at h
      cases h
      exact ⟨1, utf8 errMsg, he⟩
    | error e =>
      rw [he] at h
      cases h
  rw [handleFrame] at h
  cases hh : handlers method with
  | none =>
    rw [hh] at h
    exact hsend h
  | some handler =>
    rw [hh] at h
    dsimp only at h
    cases hr : respond c handler true sid id args with
    | ok b =>
      rw [hr] at h
      cases h
      obtain ⟨v, -, hr⟩ := bind_eq_ok hr
      obtain ⟨t, ht, hr⟩ := bind_eq_ok hr
      obtain ⟨status, payload, rfl⟩ := resultFrame_response ht
      exact ⟨status, payload, hr⟩
    | error err =>
      rw [hr] at h
      obtain ⟨errMsg, -, h⟩ := Option.bind_eq_some_iff.mp h
      exact hsend h

theorem answer_eq (h : (Native.BinaryFrame.bridgeCall sid callId method args).WithinLimits) :
    answer c handlers true sid (.bridgeCall sid callId method args) =
      (handleFrame c handlers true sid
        (.bridgeCall sid (Host.bigintToNumber callId.toNat) method args)).bind nativeReceives := by
  rw [answer, hostReceives_call h]
  rfl

/-- A call id that no double holds: the response is one to another call. -/
theorem syncOutcome_inexact
    (h : (Native.BinaryFrame.bridgeCall sid callId method args).WithinLimits)
    (hx : ¬ Host.ExactDouble callId.toNat) :
    syncOutcome c callId (answer c handlers true sid (.bridgeCall sid callId method args)) =
      none := by
  rw [answer_eq h]
  cases hb : handleFrame c handlers true sid
      (.bridgeCall sid (Host.bigintToNumber callId.toNat) method args) with
  | none => rfl
  | some bytes =>
    obtain ⟨status, payload, hs⟩ := handleFrame_response hb
    obtain ⟨⟨-, hlt⟩, -⟩ := (send_isOk_iff _).mp ⟨bytes, hs⟩
    rw [Option.bind_some, nativeReceives_of_send hs]
    refine syncOutcome_other c (fun hid => hx ?_) _ _
    rw [← Host.bigintToNumber_eq_iff]
    have hto := congrArg UInt64.toNat hid
    rw [Int.toNat_natCast, UInt64.toNat_ofNat_of_lt' (by exact_mod_cast hlt)] at hto
    exact hto

/-- A response with the call's own id is sent and received exactly if its payload fits. -/
theorem send_response (hsid : (utf8 sid).length ≤ 255) (callId : UInt64) (status : UInt8)
    (payload : List UInt8) :
    (send true (.bridgeResponse sid callId.toNat (some status.toNat) payload)).toOption.bind
        nativeReceives =
      if Fits sid payload then some (.bridgeResponse sid callId status payload) else none := by
  have hnative : Host.toNative (.bridgeResponse sid callId.toNat (some status.toNat) payload) =
      .bridgeResponse sid callId status payload :=
    Host.toNative_toHost (.bridgeResponse sid callId status payload)
  have hiff : (∃ bytes, send true
      (.bridgeResponse sid callId.toNat (some status.toNat) payload) = .ok bytes) ↔
      Fits sid payload := by
    rw [send_isOk_iff, hnative, response_withinLimits]
    constructor
    · exact fun h => h.2.2
    · intro h
      exact ⟨Host.numbersInRange_toHost (.bridgeResponse sid callId status payload), hsid, h⟩
  cases hs : send true (.bridgeResponse sid callId.toNat (some status.toNat) payload) with
  | ok bytes =>
    rw [if_pos (hiff.mp ⟨bytes, hs⟩), ← hnative]
    exact nativeReceives_of_send hs
  | error e =>
    rw [if_neg fun hf => ?_]
    · rfl
    · obtain ⟨bytes, hb⟩ := hiff.mpr hf
      rw [hs] at hb
      cases hb

section

variable (h : (Native.BinaryFrame.bridgeCall sid callId method args).WithinLimits)
include h

variable (hx : Host.ExactDouble callId.toNat)
include hx

variable (hh : handlers method = some handler)
include hh

/-- What a blocking call ends with where the `try` block throws. -/
theorem syncOutcome_error {err : Thrown}
    (hr : respond c handler true sid callId.toNat args = .error err) :
    syncOutcome c callId (answer c handlers true sid (.bridgeCall sid callId method args)) =
      err.errMsg.bind fun errMsg =>
        if Fits sid (utf8 errMsg) then some (.threw errMsg) else none := by
  rw [answer_eq h, (Host.bigintToNumber_eq_iff _).mpr hx, handleFrame, hh]
  dsimp only
  rw [hr]
  dsimp only
  cases err.errMsg with
  | none => rfl
  | some errMsg =>
    rw [Option.bind_some, Option.bind_some]
    have hsid : (utf8 sid).length ≤ 255 := h.sid
    have hs : (send true (errorFrame sid callId.toNat errMsg)).toOption.bind nativeReceives = _ :=
      send_response hsid callId 1 (utf8 errMsg)
    rw [hs]
    split
    · rw [syncOutcome_response, outcomeOf, if_pos rfl, lossy_utf8]
    · rfl

/-- A value that is put in a frame arrives exactly if its payload fits and is read as that value. -/
theorem arrives_ok_iff
    (hr : callHandler c handler args = .ok v) {status : UInt8} {payload : List UInt8}
    (hv : resultFrame c sid callId.toNat v =
      .ok (.bridgeResponse sid callId.toNat (some status.toNat) payload)) :
    Arrives (.ok v) (syncOutcome c callId
        (answer c handlers true sid (.bridgeCall sid callId method args))) ↔
      Fits sid payload ∧ outcomeOf c status payload = .returned v := by
  have hresp : respond c handler true sid callId.toNat args =
      send true (.bridgeResponse sid callId.toNat (some status.toNat) payload) := by
    rw [respond, hr, bind_ok, hv, bind_ok]
  have hsid : (utf8 sid).length ≤ 255 := h.sid
  have hsend := send_response hsid callId status payload
  cases hs : send true (.bridgeResponse sid callId.toNat (some status.toNat) payload) with
  | ok bytes =>
    rw [hs] at hresp hsend
    have hfits : Fits sid payload := by
      by_contra hn
      rw [if_neg hn] at hsend
      exact absurd (hsend.symm.trans (nativeReceives_of_send hs)) nofun
    rw [if_pos hfits] at hsend
    rw [and_iff_right hfits, answer_eq h, (Host.bigintToNumber_eq_iff _).mpr hx, handleFrame, hh]
    dsimp only
    rw [hresp]
    simp only [Except.toOption, Option.bind_some] at hsend ⊢
    rw [hsend, syncOutcome_response, Arrives, Option.some.injEq]
  | error err =>
    rw [hs] at hresp hsend
    have hfits : ¬ Fits sid payload := fun hf => by
      rw [if_pos hf] at hsend
      cases hsend
    refine iff_of_false (fun ha => ?_) (fun ⟨hf, _⟩ => hfits hf)
    rw [Arrives, syncOutcome_error h hx hh hresp] at ha
    obtain ⟨errMsg, -, ha⟩ := Option.bind_eq_some_iff.mp ha
    split at ha <;> cases ha

/-- What was thrown arrives exactly if it has a text that fits. -/
theorem arrives_error_iff {err : Thrown} (hr : callHandler c handler args = .error err) :
    Arrives (.error err) (syncOutcome c callId
        (answer c handlers true sid (.bridgeCall sid callId method args))) ↔
      Recognised c sid (.error err) := by
  have hresp : respond c handler true sid callId.toNat args = .error err := by
    rw [respond, hr, bind_error]
  rw [Arrives, syncOutcome_error h hx hh hresp, Recognised]
  constructor
  · rintro ⟨message, hm⟩
    obtain ⟨errMsg, he, hm⟩ := Option.bind_eq_some_iff.mp hm
    refine ⟨errMsg, he, ?_⟩
    by_contra hn
    rw [if_neg hn] at hm
    cases hm
  · rintro ⟨errMsg, he, hf⟩
    exact ⟨errMsg, by rw [he, Option.bind_some, if_pos hf]⟩

end

/-- The payload of a value is read as that value. -/
theorem arrives_value_iff (hc : c.Lawful)
    (h : (Native.BinaryFrame.bridgeCall sid callId method args).WithinLimits)
    (hx : Host.ExactDouble callId.toNat) (hh : handlers method = some handler)
    (hr : callHandler c handler args = .ok v) (ha : Accepted c (.ok v)) :
    Arrives (.ok v) (syncOutcome c callId
        (answer c handlers true sid (.bridgeCall sid callId method args))) ↔
      Recognised c sid (.ok v) := by
  cases v with
  | undefined =>
    have hsid : (utf8 sid).length ≤ 255 := h.sid
    have hv : resultFrame c sid callId.toNat .undefined =
        .ok (.bridgeResponse sid callId.toNat (some (0 : UInt8).toNat) []) := rfl
    rw [arrives_ok_iff h hx hh hr hv, Recognised]
    refine iff_of_true ⟨?_, rfl⟩ trivial
    rw [Fits, List.length_nil, Native.MAX_FRAME_SIZE]
    omega
  | uint8Array bytes =>
    have hv : resultFrame c sid callId.toNat (.uint8Array bytes) =
        .ok (.bridgeResponse sid callId.toNat (some (2 : UInt8).toNat) bytes) := rfl
    rw [arrives_ok_iff h hx hh hr hv, Recognised, outcomeOf, if_neg (by decide)]
    cases bytes with
    | nil => exact iff_of_false (fun ⟨_, he⟩ => nomatch he) (fun ⟨he, _⟩ => he rfl)
    | cons b bs =>
      rw [List.isEmpty_cons, if_neg Bool.false_ne_true, valueOf]
      have hne : b :: bs ≠ [] := List.cons_ne_nil b bs
      cases hd : c.deserializeV8Value (b :: bs) with
      | ok val => simp [hne, and_comm]
      | error e => simp [hne]
  | other a =>
    obtain ⟨bytes, hs⟩ := ha a rfl
    have hv : resultFrame c sid callId.toNat (.other a) =
        .ok (.bridgeResponse sid callId.toNat (some (0 : UInt8).toNat) bytes) := by
      rw [resultFrame, hs, bind_ok]
      rfl
    have hd := hc.inverse a bytes hs
    have hne : bytes.isEmpty = false := by
      cases bytes with
      | nil => exact absurd hd (hc.header _)
      | cons b bs => rfl
    rw [arrives_ok_iff h hx hh hr hv, Recognised, outcomeOf, if_neg (by decide), hne,
      if_neg Bool.false_ne_true, valueOf, hd]
    constructor
    · rintro ⟨hf, -⟩ bytes' hs'
      rw [hs] at hs'
      cases hs'
      exact hf
    · exact fun hf => ⟨hf bytes hs, rfl⟩

/-- **A result arrives unchanged exactly where it is recognised**: what the handler returns or
throws is observed, blocking or through a promise, if and only if the call id is one that a double
holds, the payload fits a frame, a `Uint8Array` has bytes that are not those of another value, and
what was thrown has a text. -/
theorem values_arrive_iff (hc : c.Lawful)
    (h : (Native.BinaryFrame.bridgeCall sid callId method args).WithinLimits)
    (hh : handlers method = some handler) (ha : Accepted c (callHandler c handler args))
    {pending : List UInt64} (hp : callId ∈ pending) :
    (Arrives (callHandler c handler args) (syncOutcome c callId
        (answer c handlers true sid (.bridgeCall sid callId method args))) ∧
      Arrives (callHandler c handler args) (asyncOutcome c pending callId
        (answer c handlers true sid (.bridgeCall sid callId method args))) ∧
      asyncOutcome c pending callId
          (answer c handlers true sid (.bridgeCall sid callId method args)) =
        syncOutcome c callId
          (answer c handlers true sid (.bridgeCall sid callId method args))) ↔
      Host.ExactDouble callId.toNat ∧ Recognised c sid (callHandler c handler args) := by
  rw [async_eq_sync c hp, eq_self, and_true, and_self]
  by_cases hx : Host.ExactDouble callId.toNat
  · rw [and_iff_right hx]
    cases hr : callHandler c handler args with
    | ok v => exact arrives_value_iff hc h hx hh hr (hr ▸ ha)
    | error err => exact arrives_error_iff h hx hh hr
  · rw [syncOutcome_inexact h hx]
    refine iff_of_false (fun hn => ?_) (fun hn => hx hn.1)
    cases hr : callHandler c handler args with
    | ok v =>
      rw [hr] at hn
      cases hn
    | error err =>
      rw [hr] at hn
      obtain ⟨_, hn⟩ := hn
      cases hn

end

/-! ### The format of V8, for a few values -/

/-- `null`, the booleans and an array without elements. -/
inductive Small where
  | null
  | true
  | false
  | emptyArray
  deriving DecidableEq

/-- The image of a value in version 15 of the format: the header and a tag. -/
def Small.image : Small → List UInt8
  | .null => [0xff, 0x0f, 0x30]
  | .true => [0xff, 0x0f, 0x54]
  | .false => [0xff, 0x0f, 0x46]
  | .emptyArray => [0xff, 0x0f, 0x41, 0x00, 0x24, 0x00, 0x00]

/-- What is behind the header; bytes behind a value are not read. -/
def Small.read : List UInt8 → Except String (JsValue Small)
  | 0x30 :: _ => .ok (.other .null)
  | 0x54 :: _ => .ok (.other .true)
  | 0x46 :: _ => .ok (.other .false)
  | 0x5f :: _ => .ok .undefined
  | 0x41 :: 0x00 :: 0x24 :: 0x00 :: 0x00 :: _ => .ok (.other .emptyArray)
  | _ => .error "V8 ValueDeserializer: failed to deserialize value"

/-- The host serialises no `Uint8Array`. -/
def Small.codec : Codec Small where
  ipcSerialize v :=
    match v with
    | .undefined => .ok [0xff, 0x0f, 0x5f]
    | .other a => .ok a.image
    | .uint8Array _ => .error (.other none)
  ipcDeserialize bytes :=
    match bytes with
    | 0xff :: 0x0f :: bytes => (Small.read bytes).mapError .error
    | _ => .error (.error "Unable to deserialize cloned data due to invalid or unsupported version.")
  deserializeV8Value bytes :=
    match bytes with
    | 0xff :: 0x0f :: bytes => Small.read bytes
    | _ => .error "V8 ValueDeserializer: invalid header"
  elements a := if a = .emptyArray then some [] else none

theorem Small.lawful : Small.codec.Lawful where
  inverse a bytes h := by
    cases h
    cases a <;> rfl
  header _ h := nomatch h

/-- `readFile: () => new Uint8Array(bytes)`. -/
def returning (bytes : List UInt8) : Handlers Small := fun method =>
  if method = "readFile" then some fun _ => .ok (.uint8Array bytes) else none

/-- `readFile()`. -/
def readFile : Native.BinaryFrame :=
  .bridgeCall "s" 1 "readFile" [0xff, 0x0f, 0x41, 0x00, 0x24, 0x00, 0x00]

/-- Two bytes that are no value of the format. -/
theorem values_arrive_two_bytes :
    Arrives (.ok (.uint8Array [1, 2])) (syncOutcome Small.codec 1
        (answer Small.codec (returning [1, 2]) true "s" readFile)) ∧
      Arrives (.ok (.uint8Array [1, 2])) (asyncOutcome Small.codec [1] 1
        (answer Small.codec (returning [1, 2]) true "s" readFile)) := by
  have hlim : readFile.WithinLimits := ⟨by decide +kernel, by decide +kernel, by decide +kernel⟩
  have hrec : Recognised Small.codec "s" (.ok (.uint8Array [1, 2])) :=
    ⟨List.cons_ne_nil 1 [2], (fun v hv => nomatch hv), by decide +kernel⟩
  have hh : returning [1, 2] "readFile" = some fun _ => .ok (.uint8Array [1, 2]) := rfl
  have h := (values_arrive_iff Small.lawful hlim hh (fun a ha => nomatch ha)
    (List.mem_singleton.mpr rfl)).mpr ⟨⟨1, 0, by decide, rfl⟩, hrec⟩
  exact ⟨h.1, h.2.1⟩

/-- An empty `Uint8Array` arrives as `undefined`, and one with the image of `true` as `true`. -/
theorem bytes_arrive_as_other_values :
    ¬ Arrives (.ok (.uint8Array [])) (syncOutcome Small.codec 1
        (answer Small.codec (returning []) true "s" readFile)) ∧
      ¬ Arrives (.ok (.uint8Array Small.true.image)) (syncOutcome Small.codec 1
        (answer Small.codec (returning Small.true.image) true "s" readFile)) := by
  have hempty : syncOutcome Small.codec 1
      (answer Small.codec (returning []) true "s" readFile) = some (.returned .undefined) := by
    decide +kernel
  have htrue : syncOutcome Small.codec 1
      (answer Small.codec (returning Small.true.image) true "s" readFile) =
        some (.returned (.other .true)) := by
    decide +kernel
  rw [hempty, htrue]
  exact ⟨nofun, nofun⟩

end Bridge
