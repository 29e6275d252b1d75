import SecureExec.Ipc.Host

/-!
# Ipc — Encoders — the two encoders write one format

`toNative` is the native frame a host frame is written as: a number is cut to its wire type.
`NumbersInRange` are the checks `Buffer` makes on the numbers of a frame; it makes none on the
numbers that are one byte wide.

* `encodeFrame_iff`: the host encodes a frame exactly when these checks pass and the native runtime
  encodes `toNative` of it, and then both write the same bytes.
* `encodeFrame_toHost`: on the frames of the native runtime the two encoders agree.
-/

namespace Ipc.Host
open Wire

/-- The error of a host frame. -/
def errorToNative (e : ExecutionErrorBin) : Native.ExecutionErrorBin :=
  ⟨e.errorType, e.message, e.stack, e.code⟩

/-- The native frame a host frame is written as. -/
def toNative : BinaryFrame → Native.BinaryFrame
  | .authenticate token => .authenticate token
  | .createSession sid heap cpu =>
      .createSession sid (UInt32.ofNat heap.toNat) (UInt32.ofNat cpu.toNat)
  | .destroySession sid => .destroySession sid
  | .injectGlobals sid payload => .injectGlobals sid payload
  | .execute sid mode fp bc prs uc => .execute sid (toUint8 mode) fp bc prs uc
  | .bridgeResponse sid callId status payload =>
      .bridgeResponse sid (UInt64.ofNat callId.toNat) (toUint8 status) payload
  | .streamEvent sid et payload => .streamEvent sid et payload
  | .terminateExecution sid => .terminateExecution sid
  | .warmSnapshot bc => .warmSnapshot bc
  | .bridgeCall sid callId method payload =>
      .bridgeCall sid (UInt64.ofNat callId.toNat) method payload
  | .executionResult sid exitCode exports error =>
      .executionResult sid (Int32.ofInt exitCode) exports (error.map errorToNative)
  | .log sid channel message => .log sid (toUint8 channel) message
  | .streamCallback sid ct payload => .streamCallback sid ct payload

/-- The numbers a `Buffer` checks are in the ranges of their wire types. -/
def NumbersInRange : BinaryFrame → Prop
  | .createSession _ heap cpu => (0 ≤ heap ∧ heap < 2 ^ 32) ∧ (0 ≤ cpu ∧ cpu < 2 ^ 32)
  | .bridgeResponse _ callId _ _ => 0 ≤ callId ∧ callId < 2 ^ 64
  | .bridgeCall _ callId _ _ => 0 ≤ callId ∧ callId < 2 ^ 64
  | .executionResult _ exitCode _ _ => -2 ^ 31 ≤ exitCode ∧ exitCode < 2 ^ 31
  | _ => True

/-- What is written behind a length of four bytes fits that length. -/
def LongFits : BinaryFrame → Prop
  | .execute _ _ _ bc prs _ => (utf8 bc).length < 2 ^ 32 ∧ (utf8 prs).length < 2 ^ 32
  | .warmSnapshot bc => (utf8 bc).length < 2 ^ 32
  | .executionResult _ _ (some xs) _ => xs.length < 2 ^ 32
  | _ => True

/-! ### The primitive writers -/

theorem be_ofNat16 (n : Nat) : be 2 (UInt16.ofNat n).toNat = be 2 n := by
  rw [UInt16.toNat_ofNat', show 2 ^ 16 = 256 ^ 2 from rfl, be_mod]

theorem be_ofNat32 (n : Nat) : be 4 (UInt32.ofNat n).toNat = be 4 n := by
  rw [UInt32.toNat_ofNat', show 2 ^ 32 = 256 ^ 4 from rfl, be_mod]

theorem be_ofNat64 (n : Nat) : be 8 (UInt64.ofNat n).toNat = be 8 n := by
  rw [UInt64.toNat_ofNat', show 2 ^ 64 = 256 ^ 8 from rfl, be_mod]

theorem toNat_ofInt32 (v : Int) : (Int32.ofInt v).toUInt32.toNat = (v % 4294967296).toNat := by
  have h : (Int32.ofInt v).toUInt32.toNat = (Int32.ofInt v).toBitVec.toNat := rfl
  rw [h, Int32.toBitVec_ofInt, BitVec.toNat_ofInt]
  rfl

variable {v : Int} {w : List UInt8}

theorem writeUInt_eq_ok {n : Nat} :
    writeUInt n v = .ok w ↔ (0 ≤ v ∧ v < 256 ^ n) ∧ w = be n v.toNat := by
  rw [writeUInt]
  split
  · rename_i h
    constructor
    · intro hw
      cases hw
    · rintro ⟨⟨h₀, h₁⟩, -⟩
      omega
  · rename_i h
    constructor
    · intro hw
      cases hw
      exact ⟨by omega, rfl⟩
    · rintro ⟨-, rfl⟩
      rfl

theorem writeUInt32BE_eq_ok :
    writeUInt32BE v = .ok w ↔
      (0 ≤ v ∧ v < 2 ^ 32) ∧ w = be 4 (UInt32.ofNat v.toNat).toNat := by
  rw [writeUInt32BE, writeUInt_eq_ok, be_ofNat32]
  rfl

theorem writeBigUInt64BE_eq_ok :
    writeBigUInt64BE v = .ok w ↔
      (0 ≤ v ∧ v < 2 ^ 64) ∧ w = be 8 (UInt64.ofNat v.toNat).toNat := by
  rw [writeBigUInt64BE, writeUInt_eq_ok, be_ofNat64]
  rfl

theorem writeInt32BE_eq_ok :
    writeInt32BE v = .ok w ↔
      (-2 ^ 31 ≤ v ∧ v < 2 ^ 31) ∧ w = be 4 (Int32.ofInt v).toUInt32.toNat := by
  rw [writeInt32BE, toNat_ofInt32]
  split
  · rename_i h
    constructor
    · intro hw
      cases hw
    · rintro ⟨⟨h₀, h₁⟩, -⟩
      omega
  · rename_i h
    constructor
    · intro hw
      cases hw
      exact ⟨by omega, rfl⟩
    · rintro ⟨-, rfl⟩
      rfl

theorem encodeSessionId_eq_ok {sid : String} :
    encodeSessionId sid = .ok w ↔ Native.writeSessionId sid = .ok w := by
  simp only [encodeSessionId, Native.writeSessionId]
  split
  · constructor <;> intro h <;> cases h
  · constructor <;> intro h <;> cases h <;> rfl

theorem writePrefixedU16_eq_ok {s : String} :
    writePrefixedU16 (utf8 s) = .ok w ↔ Native.writeLenPrefixedU16 s = .ok w := by
  constructor
  · intro h
    obtain ⟨len, hlen, h⟩ := bind_eq_ok h
    obtain ⟨⟨-, hlt⟩, rfl⟩ := writeUInt_eq_ok.mp hlen
    cases h
    rw [Native.writeLenPrefixedU16, if_neg (by omega), be_ofNat16, Int.toNat_natCast]
  · intro h
    obtain ⟨hl, rfl⟩ := Native.writeLenPrefixedU16_eq_ok h
    have hw : writeUInt16BE (utf8 s).length = .ok (be 2 (utf8 s).length) :=
      writeUInt_eq_ok.mpr ⟨⟨by omega, by omega⟩, by rw [Int.toNat_natCast]⟩
    rw [writePrefixedU16, hw, bind_ok, be_ofNat16]
    rfl

/-- The check of `writeLenPrefixedU16` is the one `writeUInt16BE` makes. -/
theorem writeLenPrefixedU16_eq_ok {s : String} :
    writeLenPrefixedU16 s = .ok w ↔ Native.writeLenPrefixedU16 s = .ok w := by
  rw [← writePrefixedU16_eq_ok, writeLenPrefixedU16]
  dsimp only
  split
  · rename_i hl
    constructor
    · intro h
      cases h
    · intro h
      have hle := (Native.writeLenPrefixedU16_eq_ok (writePrefixedU16_eq_ok.mp h)).1
      omega
  · rfl

theorem writePrefixedU32_eq_ok {xs : List UInt8} :
    writePrefixedU32 xs = .ok w ↔ xs.length < 2 ^ 32 ∧ w = Native.writeLenPrefixedU32 xs := by
  constructor
  · intro h
    obtain ⟨len, hlen, h⟩ := bind_eq_ok h
    obtain ⟨⟨-, hlt⟩, rfl⟩ := writeUInt_eq_ok.mp hlen
    cases h
    refine ⟨by omega, ?_⟩
    rw [Native.writeLenPrefixedU32, be_ofNat32, Int.toNat_natCast]
  · rintro ⟨hl, rfl⟩
    have hw : writeUInt32BE xs.length = .ok (be 4 xs.length) :=
      writeUInt_eq_ok.mpr ⟨⟨by omega, by omega⟩, by rw [Int.toNat_natCast]⟩
    rw [writePrefixedU32, hw, bind_ok, Native.writeLenPrefixedU32, be_ofNat32]
    rfl

variable {exports : Option (List UInt8)}

theorem encodeExports_eq_ok :
    encodeExports exports = .ok w ↔
      (∀ xs, exports = some xs → xs.length < 2 ^ 32) ∧ w = Native.writeExports exports := by
  cases exports with
  | none =>
      constructor
      · intro h
        cases h
        refine ⟨?_, rfl⟩
        rintro xs ⟨⟩
      · rintro ⟨-, rfl⟩
        rfl
  | some xs =>
      rw [encodeExports, writePrefixedU32_eq_ok]
      simp [Native.writeExports]

variable {error : Option ExecutionErrorBin}

theorem encodeError_eq_ok :
    encodeError error = .ok w ↔ Native.writeError (error.map errorToNative) = .ok w := by
  cases error with
  | none =>
      constructor <;> intro h <;> cases h <;> rfl
  | some e =>
      simp only [encodeError, Option.map_some, Native.writeError, errorToNative,
        bind_eq_ok_iff, pure_eq_ok_iff, writeLenPrefixedU16_eq_ok]

theorem resultFlags_eq (exports : Option (List UInt8)) (error : Option ExecutionErrorBin) :
    resultFlags exports error = Native.resultFlags exports (error.map errorToNative) := by
  simp only [resultFlags, Native.resultFlags, Option.isSome_map]
  rfl

/-! ### Bodies -/

theorem longFits_executionResult {sid : String} {exitCode : Int} :
    LongFits (.executionResult sid exitCode exports error) ↔
      ∀ xs, exports = some xs → xs.length < 2 ^ 32 := by
  cases exports <;> simp [LongFits]

variable {t : BinaryFrame}

/-- **The two encoders write the same body.** -/
theorem encodeBody_iff {body : List UInt8} :
    encodeBody t = .ok body ↔
      NumbersInRange t ∧ LongFits t ∧ Native.encodeBody (toNative t) = .ok body := by
  cases t with
  | authenticate token =>
      simp only [encodeBody, NumbersInRange, LongFits, toNative, Native.encodeBody, true_and,
        pure_eq_ok_iff]
  | createSession sid heap cpu =>
      simp only [encodeBody, NumbersInRange, LongFits, toNative, Native.encodeBody,
        bind_eq_ok_iff, pure_eq_ok_iff, encodeSessionId_eq_ok, writeUInt32BE_eq_ok]
      constructor
      · rintro ⟨ws, hs, _, ⟨hh, rfl⟩, _, ⟨hc, rfl⟩, h⟩
        exact ⟨⟨hh, hc⟩, trivial, ws, hs, h⟩
      · rintro ⟨⟨hh, hc⟩, -, ws, hs, h⟩
        exact ⟨ws, hs, _, ⟨hh, rfl⟩, _, ⟨hc, rfl⟩, h⟩
  | destroySession | injectGlobals | terminateExecution | log =>
      simp only [encodeBody, NumbersInRange, LongFits, toNative, Native.encodeBody, true_and,
        bind_eq_ok_iff, pure_eq_ok_iff, encodeSessionId_eq_ok]
  | execute sid mode fp bc prs uc =>
      simp only [encodeBody, NumbersInRange, LongFits, toNative, Native.encodeBody, true_and,
        bind_eq_ok_iff, pure_eq_ok_iff, encodeSessionId_eq_ok, writePrefixedU16_eq_ok,
        writePrefixedU32_eq_ok]
      constructor
      · rintro ⟨ws, hs, wf, hf, _, ⟨hb, rfl⟩, _, ⟨hp, rfl⟩, h⟩
        exact ⟨⟨hb, hp⟩, ws, hs, wf, hf, h⟩
      · rintro ⟨⟨hb, hp⟩, ws, hs, wf, hf, h⟩
        exact ⟨ws, hs, wf, hf, _, ⟨hb, rfl⟩, _, ⟨hp, rfl⟩, h⟩
  | bridgeResponse sid callId status payload =>
      simp only [encodeBody, NumbersInRange, LongFits, toNative, Native.encodeBody, true_and,
        bind_eq_ok_iff, pure_eq_ok_iff, encodeSessionId_eq_ok, writeBigUInt64BE_eq_ok]
      constructor
      · rintro ⟨ws, hs, _, ⟨hi, rfl⟩, h⟩
        exact ⟨hi, ws, hs, h⟩
      · rintro ⟨hi, ws, hs, h⟩
        exact ⟨ws, hs, _, ⟨hi, rfl⟩, h⟩
  | streamEvent | streamCallback =>
      simp only [encodeBody, NumbersInRange, LongFits, toNative, Native.encodeBody, true_and,
        bind_eq_ok_iff, pure_eq_ok_iff, encodeSessionId_eq_ok, writePrefixedU16_eq_ok]
  | warmSnapshot bc =>
      simp only [encodeBody, NumbersInRange, LongFits, toNative, Native.encodeBody, true_and,
        bind_eq_ok_iff, pure_eq_ok_iff, writePrefixedU32_eq_ok]
      constructor
      · rintro ⟨_, ⟨hb, rfl⟩, h⟩
        exact ⟨hb, h⟩
      · rintro ⟨hb, h⟩
        exact ⟨_, ⟨hb, rfl⟩, h⟩
  | bridgeCall sid callId method payload =>
      simp only [encodeBody, NumbersInRange, LongFits, toNative, Native.encodeBody, true_and,
        bind_eq_ok_iff, pure_eq_ok_iff, encodeSessionId_eq_ok, writeBigUInt64BE_eq_ok,
        writePrefixedU16_eq_ok]
      constructor
      · rintro ⟨ws, hs, _, ⟨hi, rfl⟩, wm, hm, h⟩
        exact ⟨hi, ws, hs, wm, hm, h⟩
      · rintro ⟨hi, ws, hs, wm, hm, h⟩
        exact ⟨ws, hs, _, ⟨hi, rfl⟩, wm, hm, h⟩
  | executionResult sid exitCode exports error =>
      simp only [encodeBody, NumbersInRange, toNative, Native.encodeBody,
        bind_eq_ok_iff, pure_eq_ok_iff, encodeSessionId_eq_ok, writeInt32BE_eq_ok,
        encodeExports_eq_ok, encodeError_eq_ok, resultFlags_eq, longFits_executionResult]
      constructor
      · rintro ⟨ws, hs, _, ⟨hc, rfl⟩, _, ⟨hx, rfl⟩, we, he, h⟩
        exact ⟨hc, hx, ws, hs, we, he, h⟩
      · rintro ⟨hc, hx, ws, hs, we, he, h⟩
        exact ⟨ws, hs, _, ⟨hc, rfl⟩, _, ⟨hx, rfl⟩, we, he, h⟩

/-! ### Frames -/

/-- What is too long for its length is too long for a frame. -/
theorem longFits_of_body {body : List UInt8}
    (h : Native.encodeBody (toNative t) = .ok body) (hl : body.length ≤ Native.MAX_FRAME_SIZE) :
    LongFits t := by
  obtain ⟨hsid, hshort⟩ := Native.fits_of_encodeBody h
  obtain ⟨body', hb, hlen⟩ := Native.encodeBody_of_fits hsid hshort
  rw [h] at hb
  cases hb
  have hmax := Native.maxFrame_lt
  cases t with
  | execute sid mode fp bc prs uc =>
      simp only [toNative, Native.BinaryFrame.fieldBytes] at hlen
      exact ⟨by omega, by omega⟩
  | warmSnapshot bc =>
      simp only [toNative, Native.BinaryFrame.fieldBytes] at hlen
      simp only [LongFits]
      omega
  | executionResult sid exitCode exports error =>
      rw [longFits_executionResult]
      rintro xs rfl
      simp only [toNative, Native.BinaryFrame.fieldBytes, Option.elim] at hlen
      omega
  | _ => exact trivial

/-- **The host encodes a frame exactly when its numbers are in range and the native runtime
encodes it, and then the bytes are the same.** -/
theorem encodeFrame_iff {bytes : List UInt8} :
    encodeFrame t = .ok bytes ↔
      NumbersInRange t ∧ Native.encodeFrameInto (toNative t) = .ok bytes := by
  constructor
  · intro h
    obtain ⟨body, hb, h⟩ := bind_eq_ok h
    dsimp only at h
    split at h
    · cases h
    · rename_i hl
      obtain ⟨len, hlen, h⟩ := bind_eq_ok h
      cases h
      obtain ⟨hn, -, hb⟩ := encodeBody_iff.mp hb
      obtain ⟨-, rfl⟩ := writeUInt32BE_eq_ok.mp hlen
      rw [Int.toNat_natCast]
      exact ⟨hn, Native.encodeFrameInto_of_body hb (Nat.le_of_not_lt hl)⟩
  · rintro ⟨hn, h⟩
    obtain ⟨body, hb, hl, rfl⟩ := Native.encodeFrameInto_eq_ok h
    have hmax := Native.maxFrame_lt
    have hb' := encodeBody_iff.mpr ⟨hn, longFits_of_body hb hl, hb⟩
    have hlen : writeUInt32BE body.length = .ok (be 4 (UInt32.ofNat body.length).toNat) :=
      writeUInt32BE_eq_ok.mpr ⟨⟨by omega, by omega⟩, by rw [Int.toNat_natCast]⟩
    have hl' : ¬ body.length > MAX_FRAME_SIZE := Nat.not_lt.mpr hl
    rw [encodeFrame, hb', bind_ok]
    dsimp only
    rw [if_neg hl', hlen, bind_ok]
    rfl

/-! ### The frames of the native runtime -/

theorem toUint8_toNat (b : UInt8) : toUint8 (some b.toNat) = b := by
  have hb : b.toNat < 256 := b.toNat_lt
  apply UInt8.toNat_inj.mp
  rw [toUint8, UInt8.toNat_ofNat', Option.getD_some]
  omega

theorem errorToNative_errorToHost (error : Option Native.ExecutionErrorBin) :
    (error.map errorToHost).map errorToNative = error := by
  cases error <;> rfl

variable (f : Native.BinaryFrame)

theorem toNative_toHost : toNative (toHost f) = f := by
  cases f with
  | executionResult sid exitCode exports error =>
      rw [toHost, toNative, errorToNative_errorToHost, Int32.ofInt_toInt]
  | _ => simp [toNative, toHost, toUint8_toNat]

theorem numbersInRange_toHost : NumbersInRange (toHost f) := by
  cases f with
  | createSession sid heap cpu =>
      have hh := heap.toNat_lt
      have hc := cpu.toNat_lt
      simp only [toHost, NumbersInRange]
      omega
  | bridgeResponse _ callId | bridgeCall _ callId =>
      have hi := callId.toNat_lt
      simp only [toHost, NumbersInRange]
      omega
  | executionResult sid exitCode exports error =>
      have hl := exitCode.le_toInt
      have hu := exitCode.toInt_lt
      simp only [toHost, NumbersInRange]
      omega
  | _ => exact trivial

/-- **On the frames of the native runtime the two encoders agree.** -/
theorem encodeFrame_toHost {f : Native.BinaryFrame} {bytes : List UInt8} :
    encodeFrame (toHost f) = .ok bytes ↔ Native.encodeFrameInto f = .ok bytes := by
  rw [encodeFrame_iff, toNative_toHost]
  exact and_iff_right (numbersInRange_toHost f)

end Ipc.Host
