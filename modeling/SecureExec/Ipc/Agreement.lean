import SecureExec.Ipc.Reassembly

/-!
# Ipc — Agreement — the two codecs implement one format

* `one_format`: within the limits both encoders write the same bytes, both decoders and both
  `extractSessionId` read them, and any number of frames is read back one by one on both sides;
  each encoder fails exactly on what is too large, the host's also on a number out of range.
* `encodes_large_call_id`: a call id that no double holds is no reason to fail.
* `decoders_disagree`: a text that is cut off, which the host decodes and the native runtime
  rejects.
-/

namespace Ipc.Host
open Wire IpcClient

/-- The session id of a raw frame, as the native runtime extracts it. -/
theorem extractSessionId_of_native {raw : List UInt8} {o : Option String}
    (h : Native.extractSessionId raw = .ok o) : extractSessionId raw = .ok o := by
  match raw with
  | [] => cases h
  | [_] => cases h
  | msgType :: sidLen :: bytes =>
    rw [Native.extractSessionId] at h
    rw [extractSessionId]
    split at h
    · rename_i ht
      rw [if_pos ht]
      cases h
      rfl
    · rename_i ht
      rw [if_neg ht]
      split at h
      · cases h
      · rename_i hl
        have hl' : ¬ (msgType :: sidLen :: bytes).length < 2 + sidLen.toNat := by
          simp only [List.length_cons]
          omega
        rw [if_neg hl', toStringUtf8, subarray_at]
        split at h
        · rename_i sid hs
          cases h
          have hu : ofUtf8? (bytes.take sidLen.toNat) = some sid := by
            rw [Native.fromUtf8] at hs
            split at hs
            · rename_i s' hs'
              cases hs
              exact hs'
            · cases hs
          rw [← lossy_of_ofUtf8? hu]
          rfl
        · cases h

theorem exactDouble_of_lt {n : Nat} (h : n < 2 ^ 53) : ExactDouble n := ⟨n, 0, h, by simp⟩

/-- A frame within the limits, encoded and read back on both sides. -/
theorem codec_of_limits {f : Native.BinaryFrame} (h : f.WithinLimits)
    (hx : ∀ n, f.callId? = some n → n < 2 ^ 53) :
    ∃ body, Native.encodeFrameInto f = .ok (be 4 body.length ++ body) ∧
      encodeFrame (toHost f) = .ok (be 4 body.length ++ body) ∧
      Native.decodeBody body = .ok f ∧ decodeFrame body = .ok (toHost f) ∧
      Native.extractSessionId body = .ok f.sessionId? ∧
      extractSessionId body = .ok f.sessionId? := by
  obtain ⟨bytes, hb⟩ := (Native.encodeFrameInto_isOk_iff f).mpr h
  obtain ⟨body, hbody, hl, rfl⟩ := Native.encodeFrameInto_eq_ok hb
  have hsid := Native.extractSessionId_encodeBody hbody
  have hlt := Nat.lt_of_le_of_lt hl Native.maxFrame_lt
  rw [be_ofNat32] at hb
  exact ⟨body, hb, encodeFrame_toHost.mpr hb, Native.decodeBody_encodeBody hbody hlt,
    decodeFrame_encodeBody hbody hl fun n hn => exactDouble_of_lt (hx n hn), hsid,
    extractSessionId_of_native hsid⟩

theorem native_fails_iff (f : Native.BinaryFrame) :
    (∃ e, Native.encodeFrameInto f = .error e) ↔ ¬ f.WithinLimits := by
  rw [← Native.encodeFrameInto_isOk_iff]
  cases Native.encodeFrameInto f <;> simp

theorem host_fails_iff (t : BinaryFrame) :
    (∃ e, encodeFrame t = .error e) ↔ ¬ (NumbersInRange t ∧ (toNative t).WithinLimits) := by
  have hok : (∃ bytes, encodeFrame t = .ok bytes) ↔
      NumbersInRange t ∧ (toNative t).WithinLimits := by
    rw [← Native.encodeFrameInto_isOk_iff]
    simp only [encodeFrame_iff, exists_and_left]
  rw [← hok]
  cases encodeFrame t <;> simp

/-- All the frames of a stream that arrives in one chunk. -/
theorem feed_all (alloc : AllocUnsafe) {ts : List BinaryFrame} (hts : ∀ t ∈ ts, Valid t) :
    (feed alloc (connected alloc)
      [(ts.flatMap frameBytes, fun _ => .returns)]).delivered = ts := by
  have hrec : received [(ts.flatMap frameBytes, fun _ => Reaction.returns)] ++ [] =
      ts.flatMap frameBytes := by simp [received]
  obtain ⟨m, hm⟩ := feed_stream alloc hts _ hrec
  have hopen : (feed alloc (connected alloc)
      [(ts.flatMap frameBytes, fun _ => .returns)]).attached = true := by
    by_contra hoff
    obtain ⟨e, he, hs⟩ := hm.closed (Bool.eq_false_iff.mpr hoff)
    rw [List.mem_singleton.mp he] at hs
    simp [Reaction.Stops, Reaction.returns] at hs
  have hall : m = ts.length := by
    by_contra hne
    have hlt := hm.next hopen ts.length (Nat.lt_of_le_of_ne hm.le hne) le_rfl
    rw [List.append_nil] at hrec
    rw [hrec, List.take_length] at hlt
    exact Nat.lt_irrefl _ hlt
  rw [hm.delivered, hall, List.take_length]

/-- **The two codecs implement one format.** -/
theorem one_format (alloc : AllocUnsafe) :
    (∀ f : Native.BinaryFrame, f.WithinLimits → (∀ n, f.callId? = some n → n < 2 ^ 53) →
      ∃ body, Native.encodeFrameInto f = .ok (be 4 body.length ++ body) ∧
        encodeFrame (toHost f) = .ok (be 4 body.length ++ body) ∧
        Native.decodeBody body = .ok f ∧ decodeFrame body = .ok (toHost f) ∧
        Native.extractSessionId body = .ok f.sessionId? ∧
        extractSessionId body = .ok f.sessionId?) ∧
    (∀ (fs : List Native.BinaryFrame) (bytes more : List UInt8),
      Native.encodeFrames fs = .ok bytes →
        Native.readFrames fs.length (bytes ++ more) = .ok (fs, more)) ∧
    (∀ ts : List BinaryFrame, (∀ t ∈ ts, Valid t) →
      (feed alloc (connected alloc)
        [(ts.flatMap frameBytes, fun _ => .returns)]).delivered = ts) ∧
    (∀ f : Native.BinaryFrame,
      (∃ e, Native.encodeFrameInto f = .error e) ↔ ¬ f.WithinLimits) ∧
    ∀ t : BinaryFrame,
      (∃ e, encodeFrame t = .error e) ↔ ¬ (NumbersInRange t ∧ (toNative t).WithinLimits) :=
  ⟨fun _ h hx => codec_of_limits h hx, fun _ _ more h => Native.readFrames_encode h more,
    fun _ hts => feed_all alloc hts, native_fails_iff, host_fails_iff⟩

/-- A frame whose call id is past the integers a double holds is encoded. -/
theorem encodes_large_call_id :
    ¬ ∀ f : Native.BinaryFrame, (∃ e, Native.encodeFrameInto f = .error e) ↔
      ¬ (f.WithinLimits ∧ ∀ n, f.callId? = some n → n < 2 ^ 53) := by
  intro h
  obtain ⟨e, he⟩ := (h (.bridgeCall "s" 9007199254740992 "m" [])).mpr fun hx =>
    absurd (hx.2 _ rfl) (by decide)
  have hok : (Native.encodeFrameInto (.bridgeCall "s" 9007199254740992 "m" [])).toOption.isSome :=
    by decide +kernel
  rw [he] at hok
  cases hok

/-- A stream event whose type is declared five bytes long and is one byte long. -/
theorem decoders_disagree : ¬ SameDecoding [0x07, 1, 115, 0, 5, 97] := by
  intro h
  have ht : decodeFrame [0x07, 1, 115, 0, 5, 97] = .ok (.streamEvent "s" "a" []) := by
    decide +kernel
  obtain ⟨f, hf, -⟩ := (h _).mp ht
  have hr : (Native.decodeBody [0x07, 1, 115, 0, 5, 97]).toOption = none := by decide +kernel
  rw [hf] at hr
  cases hr

end Ipc.Host
