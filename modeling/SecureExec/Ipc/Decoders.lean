import SecureExec.Ipc.Layout

/-!
# Ipc — Decoders — what the two decoders agree on

What the native decoder reads the host decoder reads too, with the call id rounded to a double
(`decodeFrame_of_native`).  The host decoder reads more: where a text or a payload is cut off it
takes what is there.

* `decoders_agree_iff`: the two decoders agree on a body exactly when it is `Unreadable` for both
  or `Whole`.
-/

namespace Ipc.Host
open Wire

/-- A frame as the host decodes it: the call id is a double. -/
def roundCallId : BinaryFrame → BinaryFrame
  | .bridgeResponse sid callId status payload =>
      .bridgeResponse sid (bigintToNumber callId.toNat) status payload
  | .bridgeCall sid callId method payload =>
      .bridgeCall sid (bigintToNumber callId.toNat) method payload
  | t => t

/-! ### Primitive reads at a position -/

section At

variable {buf r : List UInt8} {p : Nat}

theorem subarray_at (n : Nat) : subarray buf (some p) (some (p + n)) = (buf.drop p).take n := by
  rw [subarray, clamp, clamp, Option.getD_some, Option.getD_some, List.take_drop]
  by_cases h : p ≤ buf.length
  · rw [Nat.min_eq_left h, ← List.take_eq_take_min]
  · have hp : buf.length ≤ p := Nat.le_of_not_le h
    rw [Nat.min_eq_right hp, Nat.min_eq_right (by omega), List.drop_eq_nil_of_le (by simp),
      List.drop_eq_nil_of_le (by rw [List.length_take]; omega)]

theorem subarrayFrom_at : subarrayFrom buf (some p) = buf.drop p := by
  rw [subarrayFrom, clamp, Option.getD_some]
  by_cases h : p ≤ buf.length
  · rw [Nat.min_eq_left h]
  · rw [Nat.min_eq_right (Nat.le_of_not_le h), List.drop_length,
      List.drop_eq_nil_of_le (Nat.le_of_not_le h)]

theorem readUInt_at {w : Nat} (h : w ≤ (buf.drop p).length) :
    readUInt w buf (some p) = .ok (ofBe ((buf.drop p).take w)) := if_pos h

theorem readU8_at {b : UInt8} (h : Native.readU8 (buf.drop p) = .ok (b, r)) :
    byteAt buf (some p) = some b.toNat ∧ r = buf.drop (p + 1) := by
  obtain ⟨hl, rfl, rfl⟩ := Native.readU8_eq_ok.mp h
  rw [List.length_drop] at hl
  refine ⟨?_, List.drop_drop⟩
  rw [byteAt, Option.bind_some, List.getElem?_eq_getElem (by omega), Option.map_some,
    List.drop_eq_getElem_cons (by omega)]
  rfl

theorem readU16_at {n : UInt16} (h : Native.readU16 (buf.drop p) = .ok (n, r)) :
    readUInt16BE buf (some p) = .ok n.toNat ∧ r = buf.drop (p + 2) := by
  obtain ⟨hl, rfl, rfl⟩ := Native.readU16_eq_ok.mp h
  rw [Native.toNat_ofBe16]
  exact ⟨readUInt_at hl, List.drop_drop⟩

theorem readU32_at {n : UInt32} (h : Native.readU32 (buf.drop p) = .ok (n, r)) :
    readUInt32BE buf (some p) = .ok n.toNat ∧ r = buf.drop (p + 4) := by
  obtain ⟨hl, rfl, rfl⟩ := Native.readU32_eq_ok.mp h
  rw [Native.toNat_ofBe32]
  exact ⟨readUInt_at hl, List.drop_drop⟩

theorem readU64_at {n : UInt64} (h : Native.readU64 (buf.drop p) = .ok (n, r)) :
    readBigUInt64BE buf (some p) = .ok n.toNat ∧ r = buf.drop (p + 8) := by
  obtain ⟨hl, rfl, rfl⟩ := Native.readU64_eq_ok.mp h
  rw [Native.toNat_ofBe64]
  exact ⟨readUInt_at hl, List.drop_drop⟩

/-- The two's complement of a number of four bytes. -/
theorem toInt_toInt32 (n : UInt32) : n.toInt32.toInt =
    if n.toNat < 2147483648 then (n.toNat : Int) else (n.toNat : Int) - 4294967296 := by
  have h : n.toInt32.toInt = n.toBitVec.toInt := rfl
  have hn : n.toBitVec.toNat = n.toNat := rfl
  rw [h, BitVec.toInt_eq_toNat_cond, hn]
  split
  · rw [if_pos (by omega)]
  · rw [if_neg (by omega)]
    rfl

theorem readI32_at {n : Int32} (h : Native.readI32 (buf.drop p) = .ok (n, r)) :
    readInt32BE buf (some p) = .ok n.toInt ∧ r = buf.drop (p + 4) := by
  obtain ⟨hl, rfl, rfl⟩ := Native.readI32_eq_ok.mp h
  refine ⟨?_, List.drop_drop⟩
  rw [readInt32BE, readUInt_at hl, bind_ok, toInt_toInt32, Native.toNat_ofBe32]
  rfl

theorem readBytes_at {n : Nat} {xs : List UInt8}
    (h : Native.readBytes n (buf.drop p) = .ok (xs, r)) :
    subarray buf (some p) (some (p + n)) = xs ∧ r = buf.drop (p + n) := by
  obtain ⟨hl, rfl, rfl⟩ := Native.readBytes_eq_ok.mp h
  exact ⟨subarray_at n, List.drop_drop⟩

variable {s : String}

theorem readUtf8_at {n : Nat} (h : Native.readUtf8 n (buf.drop p) = .ok (s, r)) :
    toStringUtf8 buf (some p) (some (p + n)) = s ∧ r = buf.drop (p + n) := by
  obtain ⟨hl, hs, rfl⟩ := Native.readUtf8_eq_ok.mp h
  refine ⟨?_, List.drop_drop⟩
  rw [toStringUtf8, subarray_at, lossy_of_ofUtf8? hs]

theorem readUtf8_rest
    (h : Native.readUtf8 (buf.drop p).length (buf.drop p) = .ok (s, r)) :
    toStringUtf8From buf (some p) = s := by
  obtain ⟨-, hs, -⟩ := Native.readUtf8_eq_ok.mp h
  rw [List.take_length] at hs
  rw [toStringUtf8From, subarrayFrom_at, lossy_of_ofUtf8? hs]

theorem readLenPrefixedU16_at
    (h : Native.readLenPrefixedU16 (buf.drop p) = .ok (s, r)) :
    ∃ n, readLenPrefixedU16 buf (some p) = .ok (s, n) ∧ r = buf.drop (p + n) := by
  obtain ⟨len, r', h₁, h⟩ := Reader.bind_eq_ok h
  obtain ⟨e₁, rfl⟩ := readU16_at h₁
  obtain ⟨e₂, rfl⟩ := readUtf8_at h
  refine ⟨2 + len.toNat, ?_, by rw [Nat.add_assoc]⟩
  rw [readLenPrefixedU16, e₁, bind_ok, plus_some, plus_some, e₂]
  rfl

/-! ### The arms -/

theorem readExports_at {flags : UInt8} {exports : Option (List UInt8)}
    (h : Native.readExports flags (buf.drop p) = .ok (exports, r)) :
    ∃ q, readExports buf flags (some p) = .ok (exports, some q) ∧ r = buf.drop q := by
  rw [Native.readExports, Native.FLAG_HAS_EXPORTS] at h
  by_cases hf : flags &&& 0x01 ≠ 0
  · rw [if_pos hf] at h
    obtain ⟨len, r₁, h₁, h⟩ := Reader.bind_eq_ok h
    obtain ⟨e₁, rfl⟩ := readU32_at h₁
    obtain ⟨xs, r₂, h₂, h⟩ := Reader.bind_eq_ok h
    obtain ⟨e₂, rfl⟩ := readBytes_at h₂
    cases h
    refine ⟨p + 4 + len.toNat, ?_, rfl⟩
    rw [readExports, FLAG_HAS_EXPORTS, if_pos hf]
    simp only [e₁, bind_ok, plus_some, e₂]
    rfl
  · rw [if_neg hf] at h
    cases h
    refine ⟨p, ?_, rfl⟩
    rw [readExports, FLAG_HAS_EXPORTS, if_neg hf]
    rfl

theorem readError_at {flags : UInt8} {error : Option Native.ExecutionErrorBin}
    (h : Native.readError flags (buf.drop p) = .ok (error, r)) :
    readError buf flags (some p) = .ok (error.map errorToHost) := by
  rw [Native.readError, Native.FLAG_HAS_ERROR] at h
  by_cases hf : flags &&& 0x02 ≠ 0
  · rw [if_pos hf] at h
    obtain ⟨et, r₁, h₁, h⟩ := Reader.bind_eq_ok h
    obtain ⟨n₁, e₁, rfl⟩ := readLenPrefixedU16_at h₁
    obtain ⟨msg, r₂, h₂, h⟩ := Reader.bind_eq_ok h
    obtain ⟨n₂, e₂, rfl⟩ := readLenPrefixedU16_at h₂
    obtain ⟨st, r₃, h₃, h⟩ := Reader.bind_eq_ok h
    obtain ⟨n₃, e₃, rfl⟩ := readLenPrefixedU16_at h₃
    obtain ⟨cd, r₄, h₄, h⟩ := Reader.bind_eq_ok h
    obtain ⟨n₄, e₄, rfl⟩ := readLenPrefixedU16_at h₄
    cases h
    rw [readError, FLAG_HAS_ERROR, if_pos hf]
    simp only [e₁, bind_ok, plus_some, e₂, e₃, e₄]
    rfl
  · rw [if_neg hf] at h
    cases h
    rw [readError, FLAG_HAS_ERROR, if_neg hf]
    rfl

theorem toUint8_ofNat (b : UInt8) : toUint8 ((some b.toNat).map Int.ofNat) = b := toUint8_toNat b

/-- **What the native decoder reads, the host decoder reads**, with the call id rounded. -/
theorem decodeFields_at {t : UInt8} {sid : String} {f : Native.BinaryFrame}
    (h : Native.decodeFields t sid (buf.drop p) = .ok (f, r)) :
    decodeFields buf t sid (some p) = .ok (roundCallId (toHost f)) := by
  rcases msgType_cases t with rfl | rfl | rfl | rfl | rfl | rfl | rfl | rfl | rfl | rfl | rfl |
    rfl | rfl | ⟨-, hn, -⟩
  · change Native.readAuthenticate _ = _ at h
    obtain ⟨_, _, h₀, h⟩ := Reader.bind_eq_ok h
    obtain ⟨rfl, rfl⟩ := Reader.left_eq_ok.mp h₀
    obtain ⟨token, r₁, h₁, h⟩ := Reader.bind_eq_ok h
    cases h
    change Except.ok (BinaryFrame.authenticate _) = _
    rw [readUtf8_rest h₁]
    rfl
  · change Native.readCreateSession sid _ = _ at h
    obtain ⟨heap, r₁, h₁, h⟩ := Reader.bind_eq_ok h
    obtain ⟨e₁, rfl⟩ := readU32_at h₁
    obtain ⟨cpu, r₂, h₂, h⟩ := Reader.bind_eq_ok h
    obtain ⟨e₂, rfl⟩ := readU32_at h₂
    cases h
    change readCreateSession buf sid (some p) = _
    simp only [readCreateSession, e₁, bind_ok, plus_some, e₂]
    rfl
  · cases h
    rfl
  · change Native.readInjectGlobals sid _ = _ at h
    cases h
    change Except.ok (BinaryFrame.injectGlobals _ _) = _
    rw [subarrayFrom_at]
    rfl
  · change Native.readExecute sid _ = _ at h
    obtain ⟨mode, r₁, h₁, h⟩ := Reader.bind_eq_ok h
    obtain ⟨e₁, rfl⟩ := readU8_at h₁
    obtain ⟨fpLen, r₂, h₂, h⟩ := Reader.bind_eq_ok h
    obtain ⟨e₂, rfl⟩ := readU16_at h₂
    obtain ⟨fp, r₃, h₃, h⟩ := Reader.bind_eq_ok h
    obtain ⟨e₃, rfl⟩ := readUtf8_at h₃
    obtain ⟨bcLen, r₄, h₄, h⟩ := Reader.bind_eq_ok h
    obtain ⟨e₄, rfl⟩ := readU32_at h₄
    obtain ⟨bc, r₅, h₅, h⟩ := Reader.bind_eq_ok h
    obtain ⟨e₅, rfl⟩ := readUtf8_at h₅
    obtain ⟨prsLen, r₆, h₆, h⟩ := Reader.bind_eq_ok h
    obtain ⟨e₆, rfl⟩ := readU32_at h₆
    obtain ⟨prs, r₇, h₇, h⟩ := Reader.bind_eq_ok h
    obtain ⟨e₇, rfl⟩ := readUtf8_at h₇
    obtain ⟨_, _, h₀, h⟩ := Reader.bind_eq_ok h
    obtain ⟨rfl, rfl⟩ := Reader.left_eq_ok.mp h₀
    obtain ⟨uc, r₈, h₈, h⟩ := Reader.bind_eq_ok h
    have e₈ := readUtf8_rest h₈
    cases h
    change readExecute buf sid (some p) = _
    simp only [readExecute, e₁, plus_some, e₂, bind_ok, e₃, e₄, e₅, e₆, e₇, e₈]
    rfl
  · change Native.readBridgeResponse sid _ = _ at h
    obtain ⟨callId, r₁, h₁, h⟩ := Reader.bind_eq_ok h
    obtain ⟨e₁, rfl⟩ := readU64_at h₁
    obtain ⟨status, r₂, h₂, h⟩ := Reader.bind_eq_ok h
    obtain ⟨e₂, rfl⟩ := readU8_at h₂
    cases h
    change readBridgeResponse buf sid (some p) = _
    simp only [readBridgeResponse, e₁, bind_ok, plus_some, e₂, subarrayFrom_at]
    rfl
  · change Native.readStreamEvent sid _ = _ at h
    obtain ⟨len, r₁, h₁, h⟩ := Reader.bind_eq_ok h
    obtain ⟨e₁, rfl⟩ := readU16_at h₁
    obtain ⟨et, r₂, h₂, h⟩ := Reader.bind_eq_ok h
    obtain ⟨e₂, rfl⟩ := readUtf8_at h₂
    cases h
    change readStreamEvent buf sid (some p) = _
    simp only [readStreamEvent, e₁, bind_ok, plus_some, e₂, subarrayFrom_at]
    rfl
  · cases h
    rfl
  · change Native.readWarmSnapshot _ = _ at h
    obtain ⟨len, r₁, h₁, h⟩ := Reader.bind_eq_ok h
    obtain ⟨e₁, rfl⟩ := readU32_at h₁
    obtain ⟨bc, r₂, h₂, h⟩ := Reader.bind_eq_ok h
    obtain ⟨e₂, rfl⟩ := readUtf8_at h₂
    cases h
    change readWarmSnapshot buf (some p) = _
    simp only [readWarmSnapshot, e₁, bind_ok, plus_some, e₂]
    rfl
  · change Native.readBridgeCall sid _ = _ at h
    obtain ⟨callId, r₁, h₁, h⟩ := Reader.bind_eq_ok h
    obtain ⟨e₁, rfl⟩ := readU64_at h₁
    obtain ⟨len, r₂, h₂, h⟩ := Reader.bind_eq_ok h
    obtain ⟨e₂, rfl⟩ := readU16_at h₂
    obtain ⟨method, r₃, h₃, h⟩ := Reader.bind_eq_ok h
    obtain ⟨e₃, rfl⟩ := readUtf8_at h₃
    cases h
    change readBridgeCall buf sid (some p) = _
    simp only [readBridgeCall, e₁, bind_ok, plus_some, e₂, e₃, subarrayFrom_at]
    rfl
  · change Native.readExecutionResult sid _ = _ at h
    obtain ⟨exitCode, r₁, h₁, h⟩ := Reader.bind_eq_ok h
    obtain ⟨e₁, rfl⟩ := readI32_at h₁
    obtain ⟨flags, r₂, h₂, h⟩ := Reader.bind_eq_ok h
    obtain ⟨e₂, rfl⟩ := readU8_at h₂
    obtain ⟨exports, r₃, h₃, h⟩ := Reader.bind_eq_ok h
    obtain ⟨q, e₃, rfl⟩ := readExports_at h₃
    obtain ⟨error, r₄, h₄, h⟩ := Reader.bind_eq_ok h
    have e₄ := readError_at h₄
    cases h
    change readExecutionResult buf sid (some p) = _
    simp only [readExecutionResult, e₁, bind_ok, plus_some, e₂, toUint8_ofNat, e₃, e₄]
    rfl
  · change Native.readLog sid _ = _ at h
    obtain ⟨channel, r₁, h₁, h⟩ := Reader.bind_eq_ok h
    obtain ⟨e₁, rfl⟩ := readU8_at h₁
    obtain ⟨_, _, h₀, h⟩ := Reader.bind_eq_ok h
    obtain ⟨rfl, rfl⟩ := Reader.left_eq_ok.mp h₀
    obtain ⟨message, r₂, h₂, h⟩ := Reader.bind_eq_ok h
    have e₂ := readUtf8_rest h₂
    cases h
    change readLog buf sid (some p) = _
    simp only [readLog, e₁, plus_some, e₂]
    rfl
  · change Native.readStreamCallback sid _ = _ at h
    obtain ⟨len, r₁, h₁, h⟩ := Reader.bind_eq_ok h
    obtain ⟨e₁, rfl⟩ := readU16_at h₁
    obtain ⟨ct, r₂, h₂, h⟩ := Reader.bind_eq_ok h
    obtain ⟨e₂, rfl⟩ := readUtf8_at h₂
    cases h
    change readStreamCallback buf sid (some p) = _
    simp only [readStreamCallback, e₁, bind_ok, plus_some, e₂, subarrayFrom_at]
    rfl
  · obtain ⟨e, he⟩ := hn sid (buf.drop p)
    rw [he] at h
    cases h

end At

/-! ### Bodies -/

/-- What lies behind the session id of a body. -/
def fieldsOf (tail : List UInt8) : List UInt8 := (tail.drop 1).drop (tail.headD 0).toNat

theorem byteAt_one (msgType : UInt8) (tail : List UInt8) :
    byteAt (msgType :: tail) (some 1) = tail.head?.map UInt8.toNat := by
  rw [byteAt, Option.bind_some]
  cases tail <;> rfl

variable (msgType sidLen : UInt8)

theorem decodeFrame_cons (more : List UInt8) :
    decodeFrame (msgType :: sidLen :: more) =
      decodeFields (msgType :: sidLen :: more) msgType (lossy (more.take sidLen.toNat))
        (some (2 + sidLen.toNat)) := by
  have hs : toStringUtf8 (msgType :: sidLen :: more) (some 2) (some (2 + sidLen.toNat))
      = lossy (more.take sidLen.toNat) := by
    rw [toStringUtf8, subarray_at]
    rfl
  simp only [decodeFrame, byteAt_one, List.head?_cons, Option.map_some, plus_some, hs]

/-- A body without a length of the session id: every position is `NaN`. -/
theorem decodeFrame_singleton (msgType : UInt8) :
    decodeFrame [msgType] = decodeFields [msgType] msgType "" none := by
  have hs : toStringUtf8 [msgType] (some 2) none = "" := rfl
  simp only [decodeFrame, byteAt_one, List.head?_nil, Option.map_none, plus, Option.bind_some, hs]

theorem drop_fields (more : List UInt8) :
    (msgType :: sidLen :: more).drop (2 + sidLen.toNat) = more.drop sidLen.toNat := by
  rw [Nat.add_comm]
  rfl

variable {f : Native.BinaryFrame}

/-- **What the native decoder reads, the host decoder reads**, with the call id rounded. -/
theorem decodeFrame_of_native {buf : List UInt8}
    (h : Native.decodeBody buf = .ok f) : decodeFrame buf = .ok (roundCallId (toHost f)) := by
  obtain ⟨msgType, sidLen, more, sid, bs, rfl, hn, hs, hf⟩ := Native.decodeBody_eq_ok.mp h
  rw [decodeFrame_cons, lossy_of_ofUtf8? hs]
  rw [← drop_fields msgType] at hf
  exact decodeFields_at hf

/-! ### Call ids -/

/-- A double holds the number exactly. -/
def ExactDouble (n : Nat) : Prop := ∃ m e, m < 2 ^ 53 ∧ n = m * 2 ^ e

theorem bigintToNumber_of_lt {n : Nat} (h : n < 2 ^ 53) : bigintToNumber n = n := if_pos h

/-- **Rounding changes exactly the numbers that no double holds.** -/
theorem bigintToNumber_eq_iff (n : Nat) : bigintToNumber n = n ↔ ExactDouble n := by
  by_cases hn : n < 2 ^ 53
  · refine iff_of_true (bigintToNumber_of_lt hn) ⟨n, 0, hn, by simp⟩
  · have hn0 : n ≠ 0 := by omega
    have hlog : 53 ≤ Nat.log2 n := (Nat.le_log2 hn0).mpr (by omega)
    have hlt : n < 2 ^ (Nat.log2 n + 1) := Nat.lt_log2_self
    obtain ⟨k, hk⟩ : ∃ k, Nat.log2 n = 53 + k := ⟨_, (Nat.add_sub_cancel' hlog).symm⟩
    have hunit : Nat.log2 n - 52 = k + 1 := by omega
    have hpos : 0 < 2 ^ (k + 1) := Nat.two_pow_pos _
    have hdm := Nat.div_add_mod n (2 ^ (k + 1))
    have hr := Nat.mod_lt n hpos
    rw [Nat.mul_comm] at hdm
    have hexact : bigintToNumber n = n ↔ n % 2 ^ (k + 1) = 0 := by
      rw [bigintToNumber, if_neg hn]
      simp only [hunit]
      split
      · omega
      · rename_i hup
        rw [Nat.add_mul, Nat.one_mul]
        omega
    rw [hexact]
    constructor
    · intro h0
      refine ⟨n / 2 ^ (k + 1), k + 1, ?_, by omega⟩
      refine Nat.div_lt_of_lt_mul ?_
      rw [← Nat.pow_add, show k + 1 + 53 = Nat.log2 n + 1 by omega]
      exact hlt
    · rintro ⟨m, e, hm, hme⟩
      have hle : 2 ^ Nat.log2 n ≤ n := Nat.log2_self_le hn0
      have hlt' : 2 ^ Nat.log2 n < 2 ^ (53 + e) := by
        calc 2 ^ Nat.log2 n ≤ m * 2 ^ e := hme ▸ hle
          _ < 2 ^ 53 * 2 ^ e := (Nat.mul_lt_mul_right (Nat.two_pow_pos e)).mpr hm
          _ = 2 ^ (53 + e) := (Nat.pow_add 2 53 e).symm
      have he : Nat.log2 n < 53 + e := (Nat.pow_lt_pow_iff_right (by decide)).mp hlt'
      refine Nat.mod_eq_zero_of_dvd ?_
      rw [hme]
      exact Dvd.dvd.mul_left (Nat.pow_dvd_pow 2 (by omega)) m

/-- The frame the host decodes has the call id of the native frame exactly when a double holds
it. -/
theorem roundCallId_eq_iff (f : Native.BinaryFrame) :
    roundCallId (toHost f) = toHost f ↔ ∀ n, f.callId? = some n → ExactDouble n := by
  cases f with
  | bridgeResponse sid callId status payload =>
      simp only [toHost, roundCallId, Int.toNat_natCast, BinaryFrame.bridgeResponse.injEq,
        Nat.cast_inj, bigintToNumber_eq_iff, Native.BinaryFrame.callId?, Option.some.injEq,
        forall_eq', true_and, and_true]
  | bridgeCall sid callId method payload =>
      simp only [toHost, roundCallId, Int.toNat_natCast, BinaryFrame.bridgeCall.injEq,
        Nat.cast_inj, bigintToNumber_eq_iff, Native.BinaryFrame.callId?, Option.some.injEq,
        forall_eq', true_and, and_true]
  | _ => simp [toHost, roundCallId, Native.BinaryFrame.callId?]

/-- The call id of a body, where its message type has one, is exact. -/
def ExactCallId (msgType : UInt8) (b : List UInt8) : Prop :=
  msgType = MSG_BRIDGE_RESPONSE ∨ msgType = MSG_BRIDGE_CALL → ExactDouble (ofBe (b.take 8))

variable {t : UInt8} {sid : String} {b bs : List UInt8}

section

variable (h : Native.decodeFields t sid b = .ok (f, bs))
include h

/-- Only two message types have a call id. -/
theorem callId?_none (h₁ : t ≠ MSG_BRIDGE_RESPONSE)
    (h₂ : t ≠ MSG_BRIDGE_CALL) : f.callId? = none := by
  have hy : Reader.Yields (Native.decodeFields t sid) fun f => f.callId? = none := by
    rcases msgType_cases t with rfl | rfl | rfl | rfl | rfl | rfl | rfl | rfl | rfl | rfl | rfl |
      rfl | rfl | ⟨-, hn, -⟩
    · exact .bind fun _ => .bind fun _ => .pure rfl
    · exact .bind fun _ => .bind fun _ => .pure rfl
    · exact .pure rfl
    · exact .bind fun _ => .pure rfl
    · exact .bind fun _ => .bind fun _ => .bind fun _ => .bind fun _ => .bind fun _ =>
        .bind fun _ => .bind fun _ => .bind fun _ => .bind fun _ => .pure rfl
    · exact absurd rfl h₁
    · exact .bind fun _ => .bind fun _ => .bind fun _ => .pure rfl
    · exact .pure rfl
    · exact .bind fun _ => .bind fun _ => .pure rfl
    · exact absurd rfl h₂
    · exact .bind fun _ => .bind fun _ => .bind fun _ => .bind fun _ => .pure rfl
    · exact .bind fun _ => .bind fun _ => .bind fun _ => .pure rfl
    · exact .bind fun _ => .bind fun _ => .bind fun _ => .pure rfl
    · intro b₀ f₀ bs₀ h₀
      obtain ⟨e, he⟩ := hn sid b₀
      rw [he] at h₀
      cases h₀
  exact hy _ _ _ h

/-- The call id is the first number behind the session id. -/
theorem callId?_some
    (ht : t = MSG_BRIDGE_RESPONSE ∨ t = MSG_BRIDGE_CALL) : f.callId? = some (ofBe (b.take 8)) := by
  rcases ht with rfl | rfl
  · obtain ⟨callId, b₁, h₁, h⟩ := Reader.bind_eq_ok h
    obtain ⟨-, rfl, -⟩ := Native.readU64_eq_ok.mp h₁
    obtain ⟨status, b₂, -, h⟩ := Reader.bind_eq_ok h
    cases h
    rw [Native.BinaryFrame.callId?, Native.toNat_ofBe64]
  · obtain ⟨callId, b₁, h₁, h⟩ := Reader.bind_eq_ok h
    obtain ⟨-, rfl, -⟩ := Native.readU64_eq_ok.mp h₁
    obtain ⟨len, b₂, -, h⟩ := Reader.bind_eq_ok h
    obtain ⟨method, b₃, -, h⟩ := Reader.bind_eq_ok h
    cases h
    rw [Native.BinaryFrame.callId?, Native.toNat_ofBe64]

/-- Where the call id of a decoded frame stood. -/
theorem exactCallId_iff : (∀ n, f.callId? = some n → ExactDouble n) ↔ ExactCallId t b := by
  rw [ExactCallId]
  by_cases ht : t = MSG_BRIDGE_RESPONSE ∨ t = MSG_BRIDGE_CALL
  · rw [callId?_some h ht]
    simp [ht]
  · rw [callId?_none h (fun h₁ => ht (.inl h₁)) fun h₂ => ht (.inr h₂)]
    simp [ht]

end

/-! ### The language both decoders accept -/

/-- Neither decoder reads the body: it is empty, its message type is unknown, or one of its
numbers does not lie inside it. -/
def Unreadable : List UInt8 → Prop
  | [] => True
  | msgType :: tail => ∀ l, layout msgType (fieldsOf tail) = some l → CutsNumber l (fieldsOf tail)

/-- All that the body declares lies inside it, its texts are well formed, and a double holds its
call id. -/
def Whole : List UInt8 → Prop
  | msgType :: sidLen :: more =>
      sidLen.toNat ≤ more.length ∧ WellFormed (more.take sidLen.toNat) ∧
        (∃ l, layout msgType (more.drop sidLen.toNat) = some l ∧
          Fits l (more.drop sidLen.toNat)) ∧
        ExactCallId msgType (more.drop sidLen.toNat)
  | _ => False

/-- The host decodes a frame exactly when the native runtime does, and the frames are equal. -/
def SameDecoding (body : List UInt8) : Prop :=
  ∀ t, decodeFrame body = .ok t ↔ ∃ f, Native.decodeBody body = .ok f ∧ toHost f = t

theorem whole_iff {body : List UInt8} :
    Whole body ↔
      ∃ f, Native.decodeBody body = .ok f ∧ ∀ n, f.callId? = some n → ExactDouble n := by
  constructor
  · intro h
    match body with
    | [] => exact h.elim
    | [_] => exact h.elim
    | msgType :: sidLen :: more =>
      obtain ⟨hn, hs, hfit, hx⟩ := h
      obtain ⟨sid, hs⟩ := wellFormed_iff.mp hs
      obtain ⟨⟨f, bs⟩, hf⟩ := (native_accepts_iff msgType sid _).mpr hfit
      exact ⟨f, Native.decodeBody_eq_ok.mpr ⟨_, _, _, sid, bs, rfl, hn, hs, hf⟩,
        (exactCallId_iff hf).mpr hx⟩
  · rintro ⟨f, hf, hx⟩
    obtain ⟨msgType, sidLen, more, sid, bs, rfl, hn, hs, hf⟩ := Native.decodeBody_eq_ok.mp hf
    exact ⟨hn, wellFormed_iff.mpr ⟨sid, hs⟩, (native_accepts_iff msgType sid _).mp ⟨_, hf⟩,
      (exactCallId_iff hf).mp hx⟩

/-- With every position `NaN` the same numbers are cut. -/
theorem singleton_returns_iff (t : UInt8) :
    Returns (decodeFields [t] t "" none) ↔ ∃ l, layout t [] = some l ∧ ¬ CutsNumber l [] := by
  have hthrows : ∀ {x : Except JsError BinaryFrame} {l : List Field}, x = .error .rangeError →
      CutsNumber l [] → (Returns x ↔ ∃ l', some l = some l' ∧ ¬ CutsNumber l' []) := by
    rintro x l rfl hc
    refine iff_of_false ?_ ?_
    · rintro ⟨a, ha⟩
      cases ha
    · rintro ⟨l', hl, hn⟩
      cases hl
      exact hn hc
  rcases msgType_cases t with rfl | rfl | rfl | rfl | rfl | rfl | rfl | rfl | rfl | rfl | rfl |
    rfl | rfl | ⟨hl, -, hn⟩
  · exact iff_of_true ⟨_, rfl⟩ ⟨_, rfl, id⟩
  · exact hthrows rfl (by simp [CutsNumber])
  · exact iff_of_true ⟨_, rfl⟩ ⟨_, rfl, id⟩
  · exact iff_of_true ⟨_, rfl⟩ ⟨_, rfl, id⟩
  · exact hthrows rfl (by simp [CutsNumber])
  · exact hthrows rfl (by simp [CutsNumber])
  · exact hthrows rfl (by simp [CutsNumber])
  · exact iff_of_true ⟨_, rfl⟩ ⟨_, rfl, id⟩
  · exact hthrows rfl (by simp [CutsNumber])
  · exact hthrows rfl (by simp [CutsNumber])
  · exact hthrows rfl (by simp [CutsNumber])
  · exact iff_of_true ⟨_, rfl⟩ ⟨_, rfl, id⟩
  · exact hthrows rfl (by simp [CutsNumber])
  · obtain ⟨e, he⟩ := hn [t] "" none
    rw [he, hl]
    refine iff_of_false ?_ ?_
    · rintro ⟨a, ha⟩
      cases ha
    · rintro ⟨l, hl, -⟩
      cases hl

theorem decodeFrame_returns_iff (body : List UInt8) :
    Returns (decodeFrame body) ↔ ¬ Unreadable body := by
  match body with
  | [] =>
    refine iff_of_false ?_ (not_not.mpr trivial)
    rintro ⟨a, ha⟩
    cases ha
  | [msgType] =>
    rw [decodeFrame_singleton, singleton_returns_iff]
    simp [Unreadable, fieldsOf]
  | msgType :: sidLen :: more =>
    rw [decodeFrame_cons, host_returns_iff, drop_fields]
    simp [Unreadable, fieldsOf]

/-- **The two decoders agree on a body exactly when neither reads it, or all that it declares is
there, in well-formed text, with a call id that a double holds.** -/
theorem decoders_agree_iff (body : List UInt8) :
    SameDecoding body ↔ Unreadable body ∨ Whole body := by
  rw [whole_iff]
  constructor
  · intro h
    by_cases hu : Unreadable body
    · exact .inl hu
    · obtain ⟨t, ht⟩ := (decodeFrame_returns_iff body).mpr hu
      obtain ⟨f, hf, hft⟩ := (h t).mp ht
      have hr := decodeFrame_of_native hf
      rw [ht, ← hft] at hr
      exact .inr ⟨f, hf, (roundCallId_eq_iff f).mp (Except.ok.inj hr).symm⟩
  · rintro (hu | ⟨f, hf, hx⟩) t
    · constructor
      · intro ht
        exact absurd hu ((decodeFrame_returns_iff body).mp ⟨t, ht⟩)
      · rintro ⟨f, hf, -⟩
        exact absurd hu ((decodeFrame_returns_iff body).mp ⟨_, decodeFrame_of_native hf⟩)
    · have hr := decodeFrame_of_native hf
      rw [(roundCallId_eq_iff f).mpr hx] at hr
      rw [hr]
      constructor
      · intro ht
        exact ⟨f, hf, Except.ok.inj ht⟩
      · rintro ⟨f', hf', rfl⟩
        rw [hf] at hf'
        rw [Except.ok.inj hf']

end Ipc.Host
