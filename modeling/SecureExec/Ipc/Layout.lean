import SecureExec.Ipc.Encoders

/-!
# Ipc — Layout — the layouts of the message types

`layout` lists the fields of every message type behind the session id.  `Fits l b` says that all
that the fields `l` declare lies inside the bytes `b`, and that every text is well formed.
`CutsNumber l b` says that one of the fixed-width numbers does not, where a length that runs past
the end only reaches the end.

* `native_accepts_iff`: the native decoder reads the fields exactly when they fit.
* `host_returns_iff`: the host decoder reads them exactly when no number is cut.
-/

namespace Ipc
open Wire Reader

/-- A field of a message. -/
inductive Field where
  /-- One byte. -/
  | byte
  /-- A number of `w` bytes. -/
  | number (w : Nat)
  /-- A length of `w` bytes and that many bytes of text. -/
  | text (w : Nat)
  /-- A length of `w` bytes and that many bytes. -/
  | bytes (w : Nat)
  /-- All that is left, as text. -/
  | restText
  /-- All that is left. -/
  | restBytes
  deriving DecidableEq

/-- The exports of an execution result, as its flags say. -/
def exportFields (flags : UInt8) : List Field := if flags &&& 0x01 ≠ 0 then [.bytes 4] else []

/-- The error of an execution result, as its flags say. -/
def errorFields (flags : UInt8) : List Field :=
  if flags &&& 0x02 ≠ 0 then [.text 2, .text 2, .text 2, .text 2] else []

/-- The fields behind the flags of an execution result. -/
def resultFields (flags : UInt8) : List Field := exportFields flags ++ errorFields flags

/-- The fields of a message type; the bytes `b` behind the session id hold the flags. -/
def layout (msgType : UInt8) (b : List UInt8) : Option (List Field) :=
  match msgType with
  | 0x01 => some [.restText]
  | 0x02 => some [.number 4, .number 4]
  | 0x03 => some []
  | 0x04 => some [.restBytes]
  | 0x05 => some [.byte, .text 2, .text 4, .text 4, .restText]
  | 0x06 => some [.number 8, .byte, .restBytes]
  | 0x07 => some [.text 2, .restBytes]
  | 0x08 => some []
  | 0x09 => some [.text 4]
  | 0x81 => some [.number 8, .text 2, .restBytes]
  | 0x82 => some (.number 4 :: .byte :: resultFields (b.getD 4 0))
  | 0x83 => some [.byte, .restText]
  | 0x84 => some [.text 2, .restBytes]
  | _ => none

/-- All that the fields declare lies inside the bytes, and the texts are well formed. -/
def Fits : List Field → List UInt8 → Prop
  | [], _ => True
  | .byte :: l, b => 1 ≤ b.length ∧ Fits l (b.drop 1)
  | .number w :: l, b => w ≤ b.length ∧ Fits l (b.drop w)
  | .text w :: l, b =>
      w ≤ b.length ∧ ofBe (b.take w) ≤ (b.drop w).length ∧
        WellFormed ((b.drop w).take (ofBe (b.take w))) ∧ Fits l ((b.drop w).drop (ofBe (b.take w)))
  | .bytes w :: l, b =>
      w ≤ b.length ∧ ofBe (b.take w) ≤ (b.drop w).length ∧
        Fits l ((b.drop w).drop (ofBe (b.take w)))
  | .restText :: l, b => WellFormed b ∧ Fits l []
  | .restBytes :: l, _ => Fits l []

/-- A number, or the length of a text or of some bytes, does not lie inside the bytes. -/
def CutsNumber : List Field → List UInt8 → Prop
  | [], _ => False
  | .byte :: l, b => CutsNumber l (b.drop 1)
  | .number w :: l, b => b.length < w ∨ CutsNumber l (b.drop w)
  | .text w :: l, b => b.length < w ∨ CutsNumber l ((b.drop w).drop (ofBe (b.take w)))
  | .bytes w :: l, b => b.length < w ∨ CutsNumber l ((b.drop w).drop (ofBe (b.take w)))
  | .restText :: l, _ => CutsNumber l []
  | .restBytes :: l, _ => CutsNumber l []

/-- The message types. -/
theorem msgType_cases (t : UInt8) :
    t = 0x01 ∨ t = 0x02 ∨ t = 0x03 ∨ t = 0x04 ∨ t = 0x05 ∨ t = 0x06 ∨ t = 0x07 ∨ t = 0x08 ∨
      t = 0x09 ∨ t = 0x81 ∨ t = 0x82 ∨ t = 0x83 ∨ t = 0x84 ∨
      ((∀ b, layout t b = none) ∧
        (∀ sid b, ∃ e, Native.decodeFields t sid b = .error e) ∧
        ∀ buf sid pos, ∃ e, Host.decodeFields buf t sid pos = .error e) := by
  by_cases h : t ∈ ([0x01, 0x02, 0x03, 0x04, 0x05, 0x06, 0x07, 0x08, 0x09, 0x81, 0x82, 0x83, 0x84] :
      List UInt8)
  · simp only [List.mem_cons, List.not_mem_nil, or_false] at h
    tauto
  · iterate 13 right
    refine ⟨?_, ?_, ?_⟩
    · intro b
      unfold layout
      split <;> first | rfl | exact absurd (by decide) h
    · intro sid b
      unfold Native.decodeFields
      split <;> first | exact absurd (by decide) h | exact ⟨_, rfl⟩
    · intro buf sid pos
      unfold Host.decodeFields
      split <;> first | exact absurd (by decide) h | exact ⟨_, rfl⟩

/-- The layout of the body is known. -/
theorem iff_layout {R : Prop} {P : List Field → Prop} {l : List Field} (h : R ↔ P l) :
    R ↔ ∃ l', some l = some l' ∧ P l' := by
  simp only [Option.some.injEq, exists_eq_left', h]

/-! ### The native decoder -/

section Native
open Native

variable {β : Type} {b : List UInt8}

theorem accepts_readU8 {f : UInt8 → Reader IoError β} :
    Accepts (readU8 >>= f) b ↔
      1 ≤ b.length ∧ Accepts (f ((b.take 1).headD 0)) (b.drop 1) :=
  accepts_bind_of fun _ _ => readU8_eq_ok

theorem accepts_readU16 {f : UInt16 → Reader IoError β} :
    Accepts (readU16 >>= f) b ↔
      2 ≤ b.length ∧ Accepts (f (UInt16.ofNat (ofBe (b.take 2)))) (b.drop 2) :=
  accepts_bind_of fun _ _ => readU16_eq_ok

theorem accepts_readU32 {f : UInt32 → Reader IoError β} :
    Accepts (readU32 >>= f) b ↔
      4 ≤ b.length ∧ Accepts (f (UInt32.ofNat (ofBe (b.take 4)))) (b.drop 4) :=
  accepts_bind_of fun _ _ => readU32_eq_ok

theorem accepts_readU64 {f : UInt64 → Reader IoError β} :
    Accepts (readU64 >>= f) b ↔
      8 ≤ b.length ∧ Accepts (f (UInt64.ofNat (ofBe (b.take 8)))) (b.drop 8) :=
  accepts_bind_of fun _ _ => readU64_eq_ok

theorem accepts_readI32 {f : Int32 → Reader IoError β} :
    Accepts (readI32 >>= f) b ↔
      4 ≤ b.length ∧ Accepts (f (UInt32.ofNat (ofBe (b.take 4))).toInt32) (b.drop 4) :=
  accepts_bind_of fun _ _ => readI32_eq_ok

theorem accepts_readBytes {n : Nat} {f : List UInt8 → Reader IoError β} :
    Accepts (readBytes n >>= f) b ↔
      n ≤ b.length ∧ Accepts (f (b.take n)) (b.drop n) :=
  accepts_bind_of fun _ _ => readBytes_eq_ok

variable {f : String → Reader IoError β}

theorem accepts_readUtf8 {n : Nat} :
    Accepts (readUtf8 n >>= f) b ↔
      n ≤ b.length ∧ ∃ s, ofUtf8? (b.take n) = some s ∧ Accepts (f s) (b.drop n) := by
  rw [accepts_bind]
  constructor
  · rintro ⟨s, bs', hr, hf⟩
    obtain ⟨hn, hs, rfl⟩ := readUtf8_eq_ok.mp hr
    exact ⟨hn, s, hs, hf⟩
  · rintro ⟨hn, s, hs, hf⟩
    exact ⟨s, _, readUtf8_eq_ok.mpr ⟨hn, hs, rfl⟩, hf⟩

theorem accepts_readLenPrefixedU16 :
    Accepts (readLenPrefixedU16 >>= f) b ↔
      2 ≤ b.length ∧ ofBe (b.take 2) ≤ (b.drop 2).length ∧
        ∃ s, ofUtf8? ((b.drop 2).take (ofBe (b.take 2))) = some s ∧
          Accepts (f s) ((b.drop 2).drop (ofBe (b.take 2))) := by
  rw [accepts_bind]
  constructor
  · rintro ⟨s, bs', hr, hf⟩
    obtain ⟨h2, hn, hs, rfl⟩ := readLenPrefixedU16_eq_ok.mp hr
    exact ⟨h2, hn, s, hs, hf⟩
  · rintro ⟨h2, hn, s, hs, hf⟩
    exact ⟨s, _, readLenPrefixedU16_eq_ok.mpr ⟨h2, hn, hs, rfl⟩, hf⟩

theorem headD_take_drop (i : Nat) : ((b.drop i).take 1).headD 0 = b.getD i 0 := by
  rw [List.headD_eq_head?_getD, List.head?_take, if_neg Nat.one_ne_zero, List.head?_drop,
    List.getD_eq_getElem?_getD]

theorem accepts_readError {flags : UInt8} {g : Option ExecutionErrorBin → BinaryFrame} :
    Accepts (readError flags >>= fun error => pure (g error)) b ↔
      Fits (errorFields flags) b := by
  by_cases h : flags &&& 0x02 ≠ 0
  · rw [readError, FLAG_HAS_ERROR, if_pos h, errorFields, if_pos h]
    simp only [bind_assoc, pure_bind, accepts_readLenPrefixedU16, accepts_pure, Fits,
      and_true, wellFormed_iff, exists_and_right]
  · rw [readError, FLAG_HAS_ERROR, if_neg h, errorFields, if_neg h]
    simp only [pure_bind, accepts_pure, Fits]

/-- The exports and the error, as the flags say. -/
theorem accepts_result {flags : UInt8}
    {g : Option (List UInt8) → Option ExecutionErrorBin → BinaryFrame} :
    Accepts (readExports flags >>= fun exports => readError flags >>= fun error =>
      pure (g exports error)) b ↔ Fits (resultFields flags) b := by
  by_cases h : flags &&& 0x01 ≠ 0
  · rw [readExports, FLAG_HAS_EXPORTS, if_pos h, resultFields, exportFields, if_pos h]
    simp only [bind_assoc, pure_bind, accepts_readU32, accepts_readBytes, toNat_ofBe32,
      accepts_readError, List.cons_append, List.nil_append, Fits]
  · rw [readExports, FLAG_HAS_EXPORTS, if_neg h, resultFields, exportFields, if_neg h]
    simp only [pure_bind, accepts_readError, List.nil_append]

/-- **The native decoder reads the fields exactly when they fit.** -/
theorem native_accepts_iff (t : UInt8) (sid : String) (b : List UInt8) :
    Accepts (decodeFields t sid) b ↔ ∃ l, layout t b = some l ∧ Fits l b := by
  rcases msgType_cases t with rfl | rfl | rfl | rfl | rfl | rfl | rfl | rfl | rfl | rfl | rfl |
    rfl | rfl | ⟨hl, hn, -⟩
  · refine iff_layout (?_ : Accepts readAuthenticate b ↔ _)
    simp only [readAuthenticate, accepts_left, accepts_readUtf8, accepts_pure, Fits,
      le_refl, true_and, and_true, List.take_length, wellFormed_iff]
  · refine iff_layout (?_ : Accepts (readCreateSession sid) b ↔ _)
    simp only [readCreateSession, accepts_readU32, accepts_pure, Fits, and_true]
  · change Accepts (pure _) b ↔ ∃ l, some _ = some l ∧ _
    simp [Fits]
  · refine iff_layout (?_ : Accepts (readInjectGlobals sid) b ↔ _)
    simp only [readInjectGlobals, accepts_rest, accepts_pure, Fits]
  · refine iff_layout (?_ : Accepts (readExecute sid) b ↔ _)
    simp only [readExecute, accepts_readU8, accepts_readU16, accepts_readU32, accepts_readUtf8,
      accepts_left, accepts_pure, toNat_ofBe16, toNat_ofBe32, List.take_length, Fits,
      le_refl, true_and, and_true, wellFormed_iff, exists_and_right]
  · refine iff_layout (?_ : Accepts (readBridgeResponse sid) b ↔ _)
    simp only [readBridgeResponse, accepts_readU64, accepts_readU8, accepts_rest,
      accepts_pure, Fits, and_true]
  · refine iff_layout (?_ : Accepts (readStreamEvent sid) b ↔ _)
    simp only [readStreamEvent, accepts_readU16, accepts_readUtf8, accepts_rest,
      accepts_pure, toNat_ofBe16, Fits, and_true, wellFormed_iff]
  · change Accepts (pure _) b ↔ ∃ l, some _ = some l ∧ _
    simp [Fits]
  · refine iff_layout (?_ : Accepts readWarmSnapshot b ↔ _)
    simp only [readWarmSnapshot, accepts_readU32, accepts_readUtf8, accepts_pure,
      toNat_ofBe32, Fits, and_true, wellFormed_iff]
  · refine iff_layout (?_ : Accepts (readBridgeCall sid) b ↔ _)
    simp only [readBridgeCall, accepts_readU64, accepts_readU16, accepts_readUtf8,
      accepts_rest, accepts_pure, toNat_ofBe16, Fits, and_true, wellFormed_iff]
  · refine iff_layout (?_ : Accepts (readExecutionResult sid) b ↔ _)
    simp only [readExecutionResult, accepts_readI32, accepts_readU8, headD_take_drop, Fits,
      accepts_result]
  · refine iff_layout (?_ : Accepts (readLog sid) b ↔ _)
    simp only [readLog, accepts_readU8, accepts_left, accepts_readUtf8, accepts_pure,
      Fits, le_refl, true_and, and_true, List.take_length, wellFormed_iff]
  · refine iff_layout (?_ : Accepts (readStreamCallback sid) b ↔ _)
    simp only [readStreamCallback, accepts_readU16, accepts_readUtf8, accepts_rest,
      accepts_pure, toNat_ofBe16, Fits, and_true, wellFormed_iff]
  · simp only [hl, reduceCtorEq, false_and, exists_false, iff_false]
    obtain ⟨e, he⟩ := hn sid b
    rintro ⟨r, hr⟩
    rw [he] at hr
    cases hr

end Native

/-! ### The host decoder -/

namespace Host

variable {α β : Type} {buf : List UInt8} {p : Nat}

@[simp] theorem plus_some (p n : Nat) : plus (some p) (some n) = some (p + n) := rfl

/-- The result is there. -/
def Returns (x : Except JsError α) : Prop := ∃ a, x = .ok a

@[simp] theorem returns_ok (a : α) : Returns (.ok a) := ⟨a, rfl⟩

@[simp] theorem returns_pure (a : α) : Returns (pure a) := ⟨a, rfl⟩

variable {f : Nat → Except JsError β}

theorem returns_readUInt {w : Nat} :
    Returns (readUInt w buf (some p) >>= f) ↔
      ¬ (buf.drop p).length < w ∧ Returns (f (ofBe ((buf.drop p).take w))) := by
  rw [readUInt, Nat.not_lt]
  by_cases h : w ≤ (buf.drop p).length
  · rw [if_pos h, bind_ok]
    exact (and_iff_right h).symm
  · rw [if_neg h, bind_error]
    refine iff_of_false ?_ fun hr => h hr.1
    rintro ⟨a, ha⟩
    cases ha

theorem returns_readUInt16BE :
    Returns (readUInt16BE buf (some p) >>= f) ↔
      ¬ (buf.drop p).length < 2 ∧ Returns (f (ofBe ((buf.drop p).take 2))) :=
  returns_readUInt

theorem returns_readUInt32BE :
    Returns (readUInt32BE buf (some p) >>= f) ↔
      ¬ (buf.drop p).length < 4 ∧ Returns (f (ofBe ((buf.drop p).take 4))) :=
  returns_readUInt

theorem returns_readBigUInt64BE :
    Returns (readBigUInt64BE buf (some p) >>= f) ↔
      ¬ (buf.drop p).length < 8 ∧ Returns (f (ofBe ((buf.drop p).take 8))) :=
  returns_readUInt

/-- The value is not needed to tell whether the rest returns. -/
theorem returns_readInt32BE {f : Int → Except JsError β} {P : Prop}
    (hf : ∀ v, Returns (f v) ↔ P) :
    Returns (readInt32BE buf (some p) >>= f) ↔ ¬ (buf.drop p).length < 4 ∧ P := by
  rw [readInt32BE, bind_assoc, returns_readUInt]
  simp only [pure_bind, hf]

theorem returns_readLenPrefixedU16 {f : String × Nat → Except JsError β} {P : Prop}
    (hf : ∀ s, Returns (f (s, 2 + ofBe ((buf.drop p).take 2))) ↔ P) :
    Returns (readLenPrefixedU16 buf (some p) >>= f) ↔ ¬ (buf.drop p).length < 2 ∧ P := by
  rw [readLenPrefixedU16, bind_assoc, returns_readUInt16BE]
  simp only [pure_bind, hf]

theorem returns_readError {flags : UInt8} {g : Option ExecutionErrorBin → BinaryFrame} :
    Returns (readError buf flags (some p) >>= fun error => pure (g error)) ↔
      ¬ CutsNumber (errorFields flags) (buf.drop p) := by
  by_cases h : flags &&& 0x02 ≠ 0
  · rw [readError, FLAG_HAS_ERROR, if_pos h, errorFields, if_pos h]
    simp only [bind_assoc, pure_bind, CutsNumber, List.drop_drop, not_or, not_false_eq_true]
    refine returns_readLenPrefixedU16 fun _ => ?_
    rw [plus_some, ← Nat.add_assoc]
    refine returns_readLenPrefixedU16 fun _ => ?_
    rw [plus_some, ← Nat.add_assoc]
    refine returns_readLenPrefixedU16 fun _ => ?_
    rw [plus_some, ← Nat.add_assoc]
    refine returns_readLenPrefixedU16 fun _ => ?_
    exact iff_true_intro (returns_pure _)
  · rw [readError, FLAG_HAS_ERROR, if_neg h, errorFields, if_neg h]
    simp only [pure_bind, returns_pure, CutsNumber, not_false_eq_true]

/-- The exports and the error, as the flags say. -/
theorem returns_result {flags : UInt8}
    {g : Option (List UInt8) → Option ExecutionErrorBin → BinaryFrame} :
    Returns (readExports buf flags (some p) >>= fun exports =>
        readError buf flags exports.2 >>= fun error => pure (g exports.1 error)) ↔
      ¬ CutsNumber (resultFields flags) (buf.drop p) := by
  by_cases h : flags &&& 0x01 ≠ 0
  · rw [readExports, FLAG_HAS_EXPORTS, if_pos h, resultFields, exportFields, if_pos h]
    simp only [bind_assoc, pure_bind, returns_readUInt32BE, plus_some, returns_readError,
      List.cons_append, List.nil_append, CutsNumber, List.drop_drop, not_or]
  · rw [readExports, FLAG_HAS_EXPORTS, if_neg h, resultFields, exportFields, if_neg h]
    simp only [pure_bind, returns_readError, List.nil_append]

theorem flags_at (buf : List UInt8) (p i : Nat) :
    toUint8 ((byteAt buf (some (p + i))).map Int.ofNat) = (buf.drop p).getD i 0 := by
  rw [List.getD_eq_getElem?_getD, List.getElem?_drop, byteAt, Option.bind_some]
  cases buf[p + i]? with
  | none => rfl
  | some b => exact toUint8_toNat b

/-- **The host decoder reads the fields exactly when no number is cut.** -/
theorem host_returns_iff (t : UInt8) (sid : String) (buf : List UInt8) (p : Nat) :
    Returns (decodeFields buf t sid (some p)) ↔
      ∃ l, layout t (buf.drop p) = some l ∧ ¬ CutsNumber l (buf.drop p) := by
  rcases msgType_cases t with rfl | rfl | rfl | rfl | rfl | rfl | rfl | rfl | rfl | rfl | rfl |
    rfl | rfl | ⟨hl, -, hn⟩
  · change Returns (.ok _) ↔ ∃ l, some _ = some l ∧ _
    simp [CutsNumber]
  · refine iff_layout (?_ : Returns (readCreateSession buf sid (some p)) ↔ _)
    simp only [readCreateSession, plus_some, returns_readUInt32BE, returns_pure, CutsNumber,
      List.drop_drop, not_or, not_false_eq_true, and_true]
  · change Returns (.ok _) ↔ ∃ l, some _ = some l ∧ _
    simp [CutsNumber]
  · change Returns (.ok _) ↔ ∃ l, some _ = some l ∧ _
    simp [CutsNumber]
  · refine iff_layout (?_ : Returns (readExecute buf sid (some p)) ↔ _)
    simp only [readExecute, plus_some, returns_readUInt16BE, returns_readUInt32BE, returns_pure,
      CutsNumber, List.drop_drop, not_or, not_false_eq_true, and_true]
  · refine iff_layout (?_ : Returns (readBridgeResponse buf sid (some p)) ↔ _)
    simp only [readBridgeResponse, plus_some, returns_readBigUInt64BE, returns_pure, CutsNumber,
      not_or, not_false_eq_true, and_true]
  · refine iff_layout (?_ : Returns (readStreamEvent buf sid (some p)) ↔ _)
    simp only [readStreamEvent, plus_some, returns_readUInt16BE, returns_pure, CutsNumber, not_or,
      not_false_eq_true, and_true]
  · change Returns (.ok _) ↔ ∃ l, some _ = some l ∧ _
    simp [CutsNumber]
  · refine iff_layout (?_ : Returns (readWarmSnapshot buf (some p)) ↔ _)
    simp only [readWarmSnapshot, plus_some, returns_readUInt32BE, returns_pure, CutsNumber, not_or,
      not_false_eq_true, and_true]
  · refine iff_layout (?_ : Returns (readBridgeCall buf sid (some p)) ↔ _)
    simp only [readBridgeCall, plus_some, returns_readBigUInt64BE, returns_readUInt16BE,
      returns_pure, CutsNumber, List.drop_drop, not_or, not_false_eq_true, and_true]
  · refine iff_layout (?_ : Returns (readExecutionResult buf sid (some p)) ↔ _)
    simp only [readExecutionResult, plus_some, flags_at, CutsNumber, List.drop_drop, not_or]
    rw [returns_readInt32BE fun v => returns_result]
  · refine iff_layout (?_ : Returns (readLog buf sid (some p)) ↔ _)
    simp only [readLog, returns_pure, CutsNumber, not_false_eq_true]
  · refine iff_layout (?_ : Returns (readStreamCallback buf sid (some p)) ↔ _)
    simp only [readStreamCallback, plus_some, returns_readUInt16BE, returns_pure, CutsNumber,
      not_or, not_false_eq_true, and_true]
  · simp only [hl, reduceCtorEq, false_and, exists_false, iff_false]
    obtain ⟨e, he⟩ := hn buf sid (some p)
    rintro ⟨r, hr⟩
    rw [he] at hr
    cases hr

end Host

end Ipc
