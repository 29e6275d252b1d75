import SecureExec.Streams.ReadStream
import Mathlib.Tactic.Ring

/-!
# Streams — Ranges — a stream delivers its range

What a `ReadStream` emits, in any run in which `open` succeeds and `read` gives what is in the file.

* `Splits`: a decoder that may be applied to pieces of a length.
* `Sent`: where the stream stands in its range.
* `Live`: a stream that flows has work to do, until `end`; `weight` bounds that work.
* `range_delivered`: the chunks up to `end` are the range, and decode to what the range decodes to if
  the decoder allows it; `end` comes once and last; a stream that flows does not stall.
-/

namespace Streams
open Lts ReadStream

/-! ### Decoders -/

variable {A : Type}

/-- Decoding `l` in pieces of `h` bytes is decoding it at once. -/
def Splits (decode : Bytes → List A) (h : ℕ) (l : Bytes) : Prop :=
  ∀ i, decode (l.drop (i * h)) =
    decode ((l.drop (i * h)).take h) ++ decode (l.drop ((i + 1) * h))

namespace Splits

variable {decode : Bytes → List A} {h : ℕ} {l : Bytes}

variable (hd : Splits decode h l)
include hd

theorem head : decode l = decode (l.take h) ++ decode (l.drop h) := by
  have h₀ := hd 0
  rwa [Nat.zero_mul, Nat.zero_add, Nat.one_mul, List.drop_zero] at h₀

theorem drop : Splits decode h (l.drop h) := by
  intro i
  have hi := hd (i + 1)
  rw [List.drop_drop, List.drop_drop]
  rwa [show (i + 1) * h = h + i * h by ring, show (i + 1 + 1) * h = h + (i + 1) * h by ring] at hi

theorem nil (hh : 0 < h) : decode [] = [] := by
  have hl := hd l.length
  have hm : l.length ≤ l.length * h := Nat.le_mul_of_pos_right _ hh
  have hm' : l.length ≤ (l.length + 1) * h := by
    rw [Nat.add_one_mul]
    omega
  rw [List.drop_eq_nil_of_le hm, List.drop_eq_nil_of_le hm', List.take_nil] at hl
  exact List.self_eq_append_right.mp hl

end Splits

/-- The decoder of `utf16le`: an odd byte at the end is dropped. -/
def utf16le : Bytes → List UInt16
  | a :: b :: l => (a.toUInt16 ||| b.toUInt16 <<< 8) :: utf16le l
  | _ => []

theorem utf16le_take_append_drop (n : ℕ) (l : Bytes) :
    utf16le (l.take (2 * n)) ++ utf16le (l.drop (2 * n)) = utf16le l := by
  induction n generalizing l with
  | zero => rfl
  | succ n ih =>
      match l with
      | [] => rfl
      | [_] => rfl
      | a :: b :: l =>
          rw [show 2 * (n + 1) = 2 * n + 1 + 1 by ring]
          simp only [List.take_succ_cons, List.drop_succ_cons, utf16le, List.cons_append, ih]

theorem splits_utf16le (n : ℕ) (l : Bytes) : Splits utf16le (2 * n) l := by
  intro i
  rw [Nat.add_one_mul i, ← List.drop_drop]
  exact (utf16le_take_append_drop n _).symm

/-! ### What a run shows -/

/-- The chunks that were emitted. -/
def chunks (notes : List Note) : List Bytes :=
  notes.filterMap fun n => match n with
    | .data chunk => some chunk
    | _ => none

@[simp] theorem chunks_append (l m : List Note) : chunks (l ++ m) = chunks l ++ chunks m :=
  List.filterMap_append

/-- No data after `end`. -/
def Note.NotAfterEnd : Note → Note → Prop
  | .end, .data _ => False
  | _, _ => True

/-- The events of the stream itself: its microtasks, its listeners and the callbacks. -/
def Event.IsOwn : Event → Prop
  | .listenersReturn | .microtask | .opened _ | .readDone _ | .closeDone => True
  | _ => False

instance : DecidablePred Event.IsOwn := fun a => by
  cases a <;> unfold Event.IsOwn <;> infer_instance

namespace ReadStream

/-- `open` succeeds, and `read` gives what is in the file. -/
def Faithful (content : Bytes) (s : ReadStream) : Event → Prop
  | .opened fd => fd ≠ none
  | .readDone data =>
    data = some ((content.drop (s.position.getD s.bytesRead)).take s.nextLength)
  | _ => True

instance : ∀ (content : Bytes) (s : ReadStream) (a : Event), Decidable (s.Faithful content a) := by
  intro content s a
  unfold Faithful
  split <;> infer_instance

/-- Nothing is to come, neither of the stream nor of the file system. -/
def Still (s : ReadStream) : Prop :=
  s.frames = [] ∧ s.microtasks = [] ∧ s.opening = false ∧ s.reading = false ∧ s.closing = false

end ReadStream

/-- The stream delivers the range of `content`, decoded with `decode`. -/
structure Delivered (o : Range) (content : Bytes) (decode : Bytes → List A) (s : ReadStream)
    (notes : List Note) : Prop where
  data : (chunks notes).flatten <+: o.of content
  whole : .end ∈ notes → (chunks notes).flatten = o.of content
  text : Splits decode o.highWaterMark (o.of content) → .end ∈ notes →
    (chunks notes).flatMap decode = decode (o.of content)
  once : notes.count .end ≤ 1
  last : notes.Pairwise Note.NotAfterEnd
  /-- A stream that flows stands still at its end only. -/
  flows : s.destroyed = false → s.closed = false → s.signalAborted = false →
    s.readableFlowing = some true → s.Still → .end ∈ notes
  /-- And it comes to a standstill, when it is let be. -/
  settles : ∃ n, ∀ (as : List Event) (p : ReadStream × List Note),
    execIf (recorded fun s a => s.step o a) (fun p a => a.IsOwn ∧ p.1.Faithful content a)
      (s, notes) as = some p → as.length ≤ n

/-! ### The place in the range -/

/-- `Math.min(this.readableHighWaterMark, this._remaining)`. -/
def Range.nextLength (o : Range) : Option ℕ → ℕ
  | none => o.highWaterMark
  | some n => min o.highWaterMark n

/-- What a run keeps of the stream of the range `l`. -/
structure Sent (o : Range) (decode : Bytes → List A) (l : Bytes) (s : ReadStream)
    (notes : List Note) : Prop where
  data : (chunks notes).flatten = l.take s.bytesRead
  le : s.bytesRead ≤ l.length
  position : s.position = o.start.map (· + s.bytesRead)
  remaining : s.remaining = o.length.map (· - s.bytesRead)
  reading : s.reading = true →
    s.nextLength = o.nextLength s.remaining ∧ s.remaining ≠ some 0
  ended : s.readableEnded = true → s.bytesRead = l.length
  ends : notes.count .end = s.readableEnded.toNat
  last : notes.Pairwise Note.NotAfterEnd
  text : (chunks notes).flatMap decode ++ decode (l.drop s.bytesRead) = decode l
  splits : Splits decode o.highWaterMark (l.drop s.bytesRead)

theorem take_length_take {α : Type} (l : List α) (n : ℕ) : l.take (l.take n).length = l.take n := by
  rw [List.length_take, List.take_eq_take_iff]
  omega

theorem drop_length_take {α : Type} (l : List α) (n : ℕ) : l.drop (l.take n).length = l.drop n := by
  rw [List.length_take]
  rcases Nat.le_total n l.length with h | h
  · rw [Nat.min_eq_left h]
  · rw [Nat.min_eq_right h, List.drop_length, List.drop_eq_nil_of_le h]

/-- What the file has at the stream's position is what the range has. -/
theorem Range.read_eq (o : Range) (content : Bytes) (k : ℕ) :
    (content.drop ((o.start.map (· + k)).getD k)).take
        (o.nextLength (o.length.map (· - k))) =
      ((o.of content).drop k).take o.highWaterMark := by
  have hp : (o.start.map (· + k)).getD k = o.start.getD 0 + k := by
    cases o.start with
    | none => exact (Nat.zero_add k).symm
    | some a => rfl
  rw [hp, ← List.drop_drop, Range.of]
  cases o.length with
  | none => rfl
  | some n =>
      simp only [Option.map_some, Range.nextLength]
      rw [List.drop_take, List.take_take]

namespace Sent

open ReadStream

variable {o : Range} {decode : Bytes → List A} {l : Bytes} {s t : ReadStream}
  {notes : List Note}

section

variable (h : Sent o decode l s notes)
include h

/-- What changes neither the place nor what was emitted. -/
theorem congr (hb : t.bytesRead = s.bytesRead)
    (hp : t.position = s.position) (hr : t.remaining = s.remaining)
    (he : t.readableEnded = s.readableEnded)
    (hg : t.reading = true → t.nextLength = o.nextLength s.remaining ∧ s.remaining ≠ some 0) :
    Sent o decode l t notes where
  data := by rw [hb]; exact h.data
  le := by rw [hb]; exact h.le
  position := by rw [hp, hb]; exact h.position
  remaining := by rw [hr, hb]; exact h.remaining
  reading := by rw [hr]; exact hg
  ended := by rw [he, hb]; exact h.ended
  ends := by rw [he]; exact h.ends
  last := h.last
  text := by rw [hb]; exact h.text
  splits := by rw [hb]; exact h.splits

/-- An event that is neither data nor the end. -/
theorem note {n : Note} (hd : ∀ c, n ≠ .data c) (he : n ≠ .end) :
    Sent o decode l s (notes ++ [n]) := by
  have hc : chunks (notes ++ [n]) = chunks notes := by
    rw [chunks_append]
    cases n with
    | data c => exact absurd rfl (hd c)
    | _ => exact List.append_nil _
  exact {
    data := by rw [hc]; exact h.data
    le := h.le
    position := h.position
    remaining := h.remaining
    reading := h.reading
    ended := h.ended
    ends := by
      rw [List.count_append, h.ends, List.count_singleton]
      simp [he]
    last := by
      refine List.pairwise_append.mpr ⟨h.last, List.pairwise_singleton _ _, fun m _ k hk => ?_⟩
      cases List.mem_singleton.mp hk
      cases n with
      | data c => exact absurd rfl (hd c)
      | _ => cases m <;> trivial
    text := by rw [hc]; exact h.text
    splits := h.splits }

theorem scheduleRead : Sent o decode l s.scheduleRead notes := by
  rw [ReadStream.scheduleRead]
  split
  · exact h
  · exact h.congr rfl rfl rfl rfl h.reading

theorem openIfNeeded : Sent o decode l s.openIfNeeded notes := by
  rw [ReadStream.openIfNeeded]
  split
  · exact h
  · exact h.congr rfl rfl rfl rfl h.reading

theorem abort :
    Sent o decode l s.abort.1 (notes ++ s.abort.2) := by
  rw [ReadStream.abort]
  split
  · simpa using h
  · exact (h.note (n := .error) (by simp) (by simp)).congr rfl rfl rfl rfl h.reading

theorem destroy (error : Bool) :
    Sent o decode l (s.destroy error).1 (notes ++ (s.destroy error).2) := by
  rw [ReadStream.destroy]
  split
  · simpa using h
  · cases error with
    | false => exact (h.note (n := .destroyed) (by simp) (by simp)).congr rfl rfl rfl rfl h.reading
    | true =>
        rw [if_pos rfl, List.append_cons]
        have hn := (h.note (n := .destroyed) (by simp) (by simp)).note (n := .error) (by simp) (by simp)
        exact hn.congr rfl rfl rfl rfl h.reading

theorem handleClosed : Sent o decode l s.handleClosed.1 (notes ++ s.handleClosed.2) := by
  rw [ReadStream.handleClosed]
  dsimp only
  split
  · rw [List.append_nil]
    exact h.congr rfl rfl rfl rfl h.reading
  · exact (h.note (n := .close) (by simp) (by simp)).congr rfl rfl rfl rfl h.reading

theorem closeUnderlying :
    Sent o decode l s.closeUnderlying.1 (notes ++ s.closeUnderlying.2) := by
  rw [ReadStream.closeUnderlying]
  split
  · exact (h.note (n := .closedFd _) (by simp) (by simp)).congr rfl rfl rfl rfl h.reading
  · exact h.handleClosed
  · rw [List.append_nil]
    exact h
  · rw [List.append_nil]
    exact h.congr rfl rfl rfl rfl h.reading

theorem emitClose :
    Sent o decode l s.emitClose.1 (notes ++ s.emitClose.2) := by
  rw [ReadStream.emitClose]
  split
  · simpa using h
  · exact (h.note (n := .close) (by simp) (by simp)).congr rfl rfl rfl rfl h.reading

/-- The range is at its end, and `end` is emitted. -/
theorem finishReadable (hl : s.bytesRead = l.length) :
    Sent o decode l s.finishReadable.1 (notes ++ s.finishReadable.2) := by
  rw [ReadStream.finishReadable]
  split
  · simpa using h
  · rename_i he
    have hz : notes.count .end = 0 := by
      rw [h.ends, Bool.eq_false_of_not_eq_true he]
      rfl
    have hc : chunks (notes ++ [.end]) = chunks notes := by
      rw [chunks_append]
      exact List.append_nil _
    exact {
      data := by rw [hc]; exact h.data
      le := h.le
      position := h.position
      remaining := h.remaining
      reading := h.reading
      ended := fun _ => hl
      ends := by
        rw [List.count_append, hz]
        rfl
      last := by
        refine List.pairwise_append.mpr ⟨h.last, List.pairwise_singleton _ _, fun m _ k hk => ?_⟩
        cases List.mem_singleton.mp hk
        cases m <;> trivial
      text := by rw [hc]; exact h.text
      splits := h.splits }

end

variable {content : Bytes}

section

variable (h : Sent o decode l s notes)
include h

/-- When nothing remains of a bounded range, the range is at its end. -/
theorem at_end (hl : l = o.of content)
    (hr : s.remaining = some 0) : s.bytesRead = l.length := by
  have hm := h.remaining
  rw [hr] at hm
  obtain ⟨n, hn, hz⟩ := Option.map_eq_some_iff.mp hm.symm
  have hle : l.length ≤ n := by
    rw [hl, Range.of, hn, List.length_take]
    exact Nat.min_le_left _ _
  have := h.le
  omega

/-- A chunk is emitted. -/
theorem emitData {data : Bytes} (hne : data ≠ [])
    (hd : data = (l.drop s.bytesRead).take o.highWaterMark) :
    Sent o decode l
      (emit { s with
        reading := false
        bytesRead := s.bytesRead + data.length
        position := s.position.map (· + data.length)
        remaining := s.remaining.map (· - data.length) } .onRead)
      (notes ++ [.data data]) := by
  have hlen : data.length ≤ l.length - s.bytesRead := by
    rw [hd, List.length_take, List.length_drop]
    exact Nat.min_le_right _ _
  have hpos : 0 < data.length := List.length_pos_iff.mpr hne
  have hne' : s.readableEnded = false := by
    cases he : s.readableEnded with
    | false => rfl
    | true =>
        have := h.ended he
        omega
  have hdrop : l.drop (s.bytesRead + data.length) = (l.drop s.bytesRead).drop o.highWaterMark := by
    rw [← List.drop_drop, hd, drop_length_take]
  have hc : chunks (notes ++ [.data data]) = chunks notes ++ [data] := chunks_append _ _
  exact {
    data := by
      rw [hc, List.flatten_append, h.data, List.flatten_singleton]
      change _ = l.take (s.bytesRead + data.length)
      rw [List.take_add]
      congr 1
      rw [hd, take_length_take]
    le := by
      have := h.le
      change s.bytesRead + data.length ≤ l.length
      omega
    position := by
      change s.position.map _ = _
      rw [h.position, Option.map_map]
      congr 1
      funext n
      exact Nat.add_assoc _ _ _
    remaining := by
      change s.remaining.map _ = _
      rw [h.remaining, Option.map_map]
      congr 1
      funext n
      exact Nat.sub_sub _ _ _
    reading := fun hr => nomatch hr
    ended := fun he => absurd he (by change s.readableEnded ≠ true; rw [hne']; simp)
    ends := by simpa using h.ends
    last := by
      refine List.pairwise_append.mpr ⟨h.last, List.pairwise_singleton _ _, fun m hm k hk => ?_⟩
      cases List.mem_singleton.mp hk
      cases m <;> try trivial
      have hp : 0 < notes.count .end := List.count_pos_iff.mpr hm
      rw [h.ends, hne'] at hp
      cases hp
    text := by
      change _ ++ decode (l.drop (s.bytesRead + data.length)) = _
      rw [hc, List.flatMap_append, hdrop, List.append_assoc, ← h.text, h.splits.head, ← hd]
      simp
    splits := by
      change Splits decode _ (l.drop (s.bytesRead + data.length))
      rw [hdrop]
      exact h.splits.drop }

variable (hl : l = o.of content)
include hl

theorem readNextChunk :
    Sent o decode l (s.readNextChunk o).1 (notes ++ (s.readNextChunk o).2) := by
  rw [ReadStream.readNextChunk]
  split
  · simpa using h
  split
  · simpa using h
  split
  · simpa using h.openIfNeeded
  split
  · rename_i hr
    exact h.finishReadable (h.at_end hl hr)
  · rename_i hr
    rw [List.append_nil]
    refine h.congr rfl rfl rfl rfl fun _ => ⟨?_, hr⟩
    cases hm : s.remaining <;> rfl

theorem onRead
    (hg : s.reading = true) {data : Option Bytes} (hC : s.Faithful content (.readDone data)) :
    Sent o decode l (s.onRead data).1 (notes ++ (s.onRead data).2) := by
  obtain ⟨hn, hz⟩ := h.reading hg
  have hd : data = some ((l.drop s.bytesRead).take o.highWaterMark) := by
    rw [hC, h.position, hn, h.remaining, hl, o.read_eq content s.bytesRead]
  match data with
  | none => cases hd
  | some [] =>
      have hr : Sent o decode l { s with reading := false } notes :=
        h.congr rfl rfl rfl rfl (fun hr => nomatch hr)
      refine hr.finishReadable ?_
      have he : (l.drop s.bytesRead).take o.highWaterMark = [] := (Option.some.inj hd).symm
      have hp := o.pos
      rw [List.take_eq_nil_iff] at he
      have hle := List.drop_eq_nil_iff.mp (he.resolve_left (by omega))
      have := h.le
      change s.bytesRead = l.length
      omega
  | some (b :: bs) => exact h.emitData (by simp) (Option.some.inj hd)

theorem afterListeners
    (f : Frame) : Sent o decode l (s.afterListeners o f).1 (notes ++ (s.afterListeners o f).2) := by
  cases f with
  | emitOpen =>
      rw [ReadStream.afterListeners, List.append_nil]
      split
      · exact h.scheduleRead
      · exact h
  | onRead =>
      rw [ReadStream.afterListeners]
      split
      · rename_i hr
        exact h.finishReadable (h.at_end hl hr)
      · rw [List.append_nil]
        exact h.scheduleRead
  | finishReadable =>
      rw [ReadStream.afterListeners]
      split
      · exact h.destroy false
      · simpa using h
  | handleStreamError =>
      rw [ReadStream.afterListeners]
      split
      · exact h.destroy false
      · rw [List.append_nil]
        exact h.congr rfl rfl rfl rfl h.reading
  | destroy =>
      rw [ReadStream.afterListeners, List.append_nil]
      exact h.congr rfl rfl rfl rfl h.reading
  | abort =>
      have hc := h.note (n := .close) (by simp) (by simp)
      rw [ReadStream.afterListeners]
      split
      · exact hc.congr rfl rfl rfl rfl h.reading
      · split
        · exact h.destroy false
        · exact hc.congr rfl rfl rfl rfl h.reading
  | none =>
      rw [ReadStream.afterListeners, List.append_nil]
      exact h

theorem run (t : Task) :
    Sent o decode l (s.run o t).1 (notes ++ (s.run o t).2) := by
  cases t with
  | openIfNeeded =>
      rw [ReadStream.run, List.append_nil]
      exact h.openIfNeeded
  | readNextChunk =>
      have hr : Sent o decode l { s with readScheduled := false } notes :=
        h.congr rfl rfl rfl rfl h.reading
      exact hr.readNextChunk hl
  | closeUnderlying => exact h.closeUnderlying
  | closed => exact h.emitClose
  | abort => exact h.abort

theorem step {a : Event}
    (hC : s.Faithful content a) {r : ReadStream × List Note} (hs : s.step o a = some r) :
    Sent o decode l r.1 (notes ++ r.2) := by
  cases step_inv hs with
  | onData | resume =>
      rw [List.append_nil]
      have hf : Sent o decode l { s with started := true, readableFlowing := some true } notes :=
        h.congr rfl rfl rfl rfl h.reading
      exact hf.scheduleRead
  | pause | closeDone | handleFd =>
      rw [List.append_nil]
      exact h.congr rfl rfl rfl rfl h.reading
  | handleClose => exact h.handleClosed
  | destroy error => exact h.destroy error
  | close => exact h.destroy false
  | abort =>
      have ha : Sent o decode l { s with signalAborted := true } notes :=
        h.congr rfl rfl rfl rfl h.reading
      exact ha.abort
  | listenersReturn f rest =>
      have hp : Sent o decode l { s with frames := rest } notes :=
        h.congr rfl rfl rfl rfl h.reading
      exact hp.afterListeners hl f
  | microtask t rest =>
      have hp : Sent o decode l { s with microtasks := rest } notes :=
        h.congr rfl rfl rfl rfl h.reading
      exact hp.run hl t
  | notOpened => exact absurd rfl hC
  | opened n => exact (h.note (n := .open n) (by simp) (by simp)).congr rfl rfl rfl rfl h.reading
  | readDone data hg => exact h.onRead hl hg hC

end

theorem init (o : Range)
    (hd : Splits decode o.highWaterMark l) (source : Source) (aborted : Bool) :
    Sent o decode l (init o source aborted) [] where
  data := rfl
  le := Nat.zero_le _
  position := by
    change o.start = _
    cases o.start <;> rfl
  remaining := by
    change o.length = _
    cases o.length <;> rfl
  reading := fun hr => nomatch hr
  ended := fun he => nomatch he
  ends := rfl
  last := .nil
  text := rfl
  splits := hd

end Sent

/-! ### A stream that flows -/

/-- Something is under way that reads on. -/
def ReadStream.Busy (s : ReadStream) : Prop :=
  s.readScheduled = true ∨ s.reading = true ∨ s.opening = true ∨
    (s.fd = .null ∧ .openIfNeeded ∈ s.microtasks) ∨ .emitOpen ∈ s.frames ∨ .onRead ∈ s.frames

/-- The stream is to read on. -/
def ReadStream.Flows (s : ReadStream) : Prop :=
  s.destroyed = false ∧ s.closed = false ∧ s.signalAborted = false ∧
    s.readableFlowing = some true ∧ s.readableEnded = false

/-- A read that is scheduled is queued, and what is being closed was open. -/
structure Queued (s : ReadStream) : Prop where
  scheduled : s.readScheduled = true → .readNextChunk ∈ s.microtasks
  closing : s.closing = true → s.fd ≠ .null

structure Live (s : ReadStream) : Prop extends Queued s where
  busy : s.Flows → s.Busy

namespace Live

open ReadStream

variable {o : Range} {s t : ReadStream}

section

variable (h : Queued s)
include h

/-- A stream that is not to read on. -/
theorem of_not_flows (hf : ¬ s.Flows) : Live s := ⟨h, fun hn => absurd hn hf⟩

omit h in
/-- More microtasks and listeners do no harm. -/
theorem mono (h : Live s) (ht : Queued t) (hd : t.Flows → s.Flows)
    (hr : s.readScheduled = true → t.readScheduled = true) (hg : s.reading = true → t.reading = true)
    (ho : s.opening = true → t.opening = true) (hn : s.fd = .null → t.fd = .null)
    (hm : .openIfNeeded ∈ s.microtasks → .openIfNeeded ∈ t.microtasks)
    (he : .emitOpen ∈ s.frames → .emitOpen ∈ t.frames)
    (hk : .onRead ∈ s.frames → .onRead ∈ t.frames) : Live t := by
  refine ⟨ht, fun hf => ?_⟩
  rcases h.busy (hd hf) with hb | hb | hb | ⟨hb, hq⟩ | hb | hb
  · exact .inl (hr hb)
  · exact .inr (.inl (hg hb))
  · exact .inr (.inr (.inl (ho hb)))
  · exact .inr (.inr (.inr (.inl ⟨hn hb, hm hq⟩)))
  · exact .inr (.inr (.inr (.inr (.inl (he hb)))))
  · exact .inr (.inr (.inr (.inr (.inr (hk hb)))))

theorem scheduleRead : Live s.scheduleRead := by
  rw [ReadStream.scheduleRead]
  split
  · rename_i hg
    refine ⟨h, fun ⟨hd, hk, _, hf, _⟩ => ?_⟩
    rcases hg with hg | hg | hg | hg | hg
    · exact .inl hg
    · exact .inr (.inl hg)
    · rw [hf] at hg
      cases hg
    · rw [hd] at hg
      cases hg
    · rw [hk] at hg
      cases hg
  · exact ⟨⟨fun _ => List.mem_append_right _ List.mem_cons_self, h.closing⟩, fun _ => .inl rfl⟩

theorem openIfNeeded (hb : s.Flows → s.fd = .null ∨ s.Busy) :
    Live s.openIfNeeded := by
  rw [ReadStream.openIfNeeded]
  split
  · rename_i hg
    refine ⟨h, fun hf => ?_⟩
    rcases hb hf with hn | hb
    · rcases hg with hg | hg | hg | hg
      · exact absurd hn hg
      · exact .inr (.inr (.inl hg))
      · rw [hf.1] at hg
        cases hg
      · rw [hf.2.1] at hg
        cases hg
    · exact hb
  · exact ⟨⟨h.scheduled, h.closing⟩, fun _ => .inr (.inr (.inl rfl))⟩

theorem finishReadable : Live s.finishReadable.1 := by
  rw [ReadStream.finishReadable]
  split
  · rename_i he
    exact of_not_flows h fun hf => nomatch he.symm.trans hf.2.2.2.2
  · exact of_not_flows ⟨h.scheduled, h.closing⟩ fun hf => nomatch hf.2.2.2.2

theorem destroy (error : Bool) : Live (s.destroy error).1 := by
  rw [ReadStream.destroy]
  split
  · rename_i hd
    exact of_not_flows h fun hf => nomatch hd.symm.trans hf.1
  · cases error with
    | false =>
        exact of_not_flows ⟨fun hr => List.mem_append_left _ (h.scheduled hr), h.closing⟩
          fun hf => nomatch hf.1
    | true => exact of_not_flows ⟨h.scheduled, h.closing⟩ fun hf => nomatch hf.1

end

theorem abort (h : Live s) : Live s.abort.1 := by
  rw [ReadStream.abort]
  split
  · exact h
  · exact h.mono ⟨h.scheduled, h.closing⟩ id id id id id id (List.mem_cons_of_mem _)
      (List.mem_cons_of_mem _)

theorem handleClosed (h : Live s) (hf : s.fd = .handle .open) : Live s.handleClosed.1 := by
  have hq {t : ReadStream} (ht : t.fd = .handle .closed) : t.closing = true → t.fd ≠ .null :=
    fun _ hn => nomatch ht.symm.trans hn
  rw [ReadStream.handleClosed]
  dsimp only
  split
  · exact h.mono ⟨h.scheduled, hq rfl⟩ id id id id (fun hn => nomatch hf.symm.trans hn) id
      (List.mem_cons_of_mem _) (List.mem_cons_of_mem _)
  · exact of_not_flows ⟨h.scheduled, hq rfl⟩ fun hf => nomatch hf.1

theorem closeUnderlying (h : Live s) : Live s.closeUnderlying.1 := by
  rw [ReadStream.closeUnderlying]
  split
  · rename_i n hf
    refine h.mono ⟨h.scheduled, fun _ => ?_⟩ id id id id id id id id
    change s.fd ≠ .null
    rw [hf]
    simp
  · rename_i hf
    exact h.handleClosed hf
  · exact h
  · exact h.mono ⟨fun hr => List.mem_append_left _ (h.scheduled hr), h.closing⟩ id id id id id
      (List.mem_append_left _) id id

theorem emitClose (h : Queued s) : Live s.emitClose.1 := by
  rw [ReadStream.emitClose]
  split
  · rename_i hc
    exact of_not_flows h fun hf => nomatch hc.symm.trans hf.2.1
  · exact of_not_flows ⟨h.scheduled, h.closing⟩ fun hf => nomatch hf.2.1

theorem readNextChunk (h : Queued s) (o : Range) : Live (s.readNextChunk o).1 := by
  rw [ReadStream.readNextChunk]
  split
  · rename_i hg
    refine ⟨h, fun hf => ?_⟩
    rcases hg with hg | hg | hg | hg
    · exact .inr (.inl hg)
    · exact nomatch hg.symm.trans hf.1
    · exact nomatch hg.symm.trans hf.2.1
    · exact nomatch hg.symm.trans hf.2.2.2.1
  split
  · rename_i ha
    exact of_not_flows h fun hf => nomatch ha.symm.trans hf.2.2.1
  split
  · rename_i hn
    exact openIfNeeded h fun _ => .inl hn
  split
  · exact finishReadable h
  · exact ⟨⟨h.scheduled, h.closing⟩, fun _ => .inr (.inl rfl)⟩

theorem onRead (h : Queued s) {data : Bytes} : Live (s.onRead (some data)).1 := by
  have hr : Queued { s with reading := false } := ⟨h.scheduled, h.closing⟩
  match data with
  | [] => exact finishReadable hr
  | b :: bs =>
      exact ⟨⟨h.scheduled, h.closing⟩,
        fun _ => .inr (.inr (.inr (.inr (.inr List.mem_cons_self))))⟩

/-- The frame of a method is gone, and what the method does next is done. -/
theorem afterListeners {f : Frame} (h : Live { s with frames := f :: s.frames }) (o : Range) :
    Live (s.afterListeners o f).1 := by
  have hq : Queued s := ⟨h.scheduled, h.closing⟩
  have hp : f ≠ .emitOpen → f ≠ .onRead → Live s := fun he hr =>
    h.mono hq id id id id id id (fun hm => (List.mem_cons.mp hm).resolve_left (Ne.symm he))
      (fun hm => (List.mem_cons.mp hm).resolve_left (Ne.symm hr))
  cases f with
  | emitOpen =>
      rw [ReadStream.afterListeners]
      split
      · exact scheduleRead hq
      · rename_i hs
        exact of_not_flows hq fun hf => hs (.inr hf.2.2.2.1)
  | onRead =>
      rw [ReadStream.afterListeners]
      split
      · exact finishReadable hq
      · exact scheduleRead hq
  | finishReadable =>
      rw [ReadStream.afterListeners]
      split
      · exact destroy hq false
      · exact hp (by simp) (by simp)
  | handleStreamError =>
      rw [ReadStream.afterListeners]
      split
      · exact destroy hq false
      · exact (hp (by simp) (by simp)).mono ⟨h.scheduled, h.closing⟩ id id id id id id id id
  | destroy =>
      rw [ReadStream.afterListeners]
      exact (hp (by simp) (by simp)).mono
        ⟨fun hr => List.mem_append_left _ (h.scheduled hr), h.closing⟩ id id id id id
        (List.mem_append_left _) id id
  | abort =>
      rw [ReadStream.afterListeners]
      split
      · exact of_not_flows ⟨h.scheduled, h.closing⟩ fun hf => nomatch hf.1
      · split
        · exact destroy hq false
        · exact of_not_flows ⟨h.scheduled, h.closing⟩ fun hf => nomatch hf.2.1
  | none => exact hp (by simp) (by simp)

/-- A microtask is gone, and is run. -/
theorem run {k : Task} (h : Live { s with microtasks := k :: s.microtasks }) (o : Range) :
    Live (s.run o k).1 := by
  have hq : k ≠ .readNextChunk → Queued s := fun hk =>
    ⟨fun hr => (List.mem_cons.mp (h.scheduled hr)).resolve_left (Ne.symm hk), h.closing⟩
  have hp : k ≠ .readNextChunk → k ≠ .openIfNeeded → Live s := fun hk ho =>
    h.mono (hq hk) id id id id id (fun hm => (List.mem_cons.mp hm).resolve_left (Ne.symm ho)) id id
  cases k with
  | openIfNeeded =>
      refine openIfNeeded (hq (by simp)) fun hf => ?_
      rcases h.busy hf with hb | hb | hb | ⟨hb, -⟩ | hb
      · exact .inr (.inl hb)
      · exact .inr (.inr (.inl hb))
      · exact .inr (.inr (.inr (.inl hb)))
      · exact .inl hb
      · exact .inr (.inr (.inr (.inr (.inr hb))))
  | readNextChunk =>
      have hr : Queued { s with readScheduled := false } := ⟨fun hr => (nomatch hr), h.closing⟩
      exact readNextChunk hr o
  | closeUnderlying => exact (hp (by simp) (by simp)).closeUnderlying
  | closed => exact emitClose (hq (by simp))
  | abort => exact (hp (by simp) (by simp)).abort

theorem step (h : Live s) {content : Bytes} {a : Event} (hC : s.Faithful content a)
    {r : ReadStream × List Note} (hs : s.step o a = some r) : Live r.1 := by
  cases step_inv hs with
  | onData | resume => exact scheduleRead ⟨h.scheduled, h.closing⟩
  | pause => exact of_not_flows ⟨h.scheduled, h.closing⟩ fun hf => nomatch hf.2.2.2.1
  | destroy error => exact destroy h.toQueued error
  | close => exact destroy h.toQueued false
  | abort =>
      have ha : Live { s with signalAborted := true } :=
        of_not_flows ⟨h.scheduled, h.closing⟩ fun hf => nomatch hf.2.2.1
      exact ha.abort
  | listenersReturn f rest hf =>
      refine afterListeners ?_ o
      rw [← hf]
      exact h
  | microtask k rest _ hm =>
      refine run ?_ o
      rw [← hm]
      exact h
  | notOpened => exact absurd rfl hC
  | opened n =>
      exact ⟨⟨h.scheduled, fun _ => by simp [emit]⟩,
        fun _ => .inr (.inr (.inr (.inr (.inl List.mem_cons_self))))⟩
  | readDone data =>
      rw [hC]
      exact onRead h.toQueued
  | closeDone hc =>
      refine ⟨⟨fun hr => List.mem_append_left _ (h.scheduled hr), fun hc => nomatch hc⟩,
        fun hf => ?_⟩
      rcases h.busy hf with hb | hb | hb | ⟨hb, -⟩ | hb
      · exact .inl hb
      · exact .inr (.inl hb)
      · exact .inr (.inr (.inl hb))
      · exact absurd hb (h.closing hc)
      · exact .inr (.inr (.inr (.inr hb)))
  | handleClose hf => exact h.handleClosed hf
  | handleFd isOpen hf =>
      exact h.mono ⟨h.scheduled, fun _ hn => nomatch hn⟩ id id id id
        (fun hn => by rw [hn] at hf; cases hf) id id id

theorem init (o : Range) (source : Source) (aborted : Bool) :
    Live (init o source aborted) where
  scheduled := fun hr => nomatch hr
  closing := fun hc => nomatch hc
  busy := fun hf => nomatch hf.2.2.2.1

end Live

/-! ### What is left to do -/

/-- A bound on the steps that follow from a microtask. -/
def Task.weight : Task → ℕ
  | .openIfNeeded => 1
  | .readNextChunk => 7
  | .closeUnderlying => 4
  | .closed => 2
  | .abort => 6

def Frame.weight : Frame → ℕ
  | .emitOpen | .onRead => 8
  | .finishReadable | .handleStreamError | .destroy | .abort => 5
  | .none => 1

/-- What the descriptor that is not open yet leads to. -/
def Fd.weight : Bool → Fd → ℕ
  | true, _ => 9
  | false, .null => 10
  | false, _ => 0

namespace ReadStream

/-- A bound on the steps of the stream itself, for a range of `size` bytes. -/
def weight (size : ℕ) (s : ReadStream) : ℕ :=
  3 * (size - s.bytesRead) + (s.microtasks.map Task.weight).sum + (s.frames.map Frame.weight).sum +
    6 * s.reading.toNat + 3 * s.closing.toNat + Fd.weight s.opening s.fd

variable {size : ℕ} {s : ReadStream} {o : Range}

theorem weight_queue (k : Task) :
    (s.queueMicrotask k).weight size = s.weight size + k.weight := by
  simp only [weight, queueMicrotask, List.map_append, List.sum_append, List.map_singleton,
    List.sum_singleton]
  omega

theorem weight_emit (f : Frame) : (s.emit f).weight size = s.weight size + f.weight := by
  simp only [weight, emit, List.map_cons, List.sum_cons]
  omega

theorem weight_scheduleRead : s.scheduleRead.weight size ≤ s.weight size + 7 := by
  rw [scheduleRead]
  split
  · exact Nat.le_add_right _ _
  · rw [weight_queue]
    exact Nat.le_refl _

theorem weight_openIfNeeded : s.openIfNeeded.weight size ≤ s.weight size := by
  rw [openIfNeeded]
  split
  · exact Nat.le_refl _
  · rename_i hg
    simp only [not_or, ne_eq, not_not, Bool.not_eq_true] at hg
    simp [weight, hg.1, hg.2.1, Fd.weight]

theorem weight_finishReadable : s.finishReadable.1.weight size ≤ s.weight size + 5 := by
  rw [finishReadable]
  split
  · exact Nat.le_add_right _ _
  · rw [weight_emit]
    exact Nat.le_refl _

theorem weight_destroy : (s.destroy false).1.weight size ≤ s.weight size + 4 := by
  rw [destroy]
  split
  · exact Nat.le_add_right _ _
  · rw [if_neg (by simp), weight_queue]
    exact Nat.le_refl _

theorem weight_abort : s.abort.1.weight size ≤ s.weight size + 5 := by
  rw [abort]
  split
  · exact Nat.le_add_right _ _
  · rw [weight_emit]
    exact Nat.le_refl _

theorem weight_handleClosed (hf : s.fd = .handle .open) :
    s.handleClosed.1.weight size = s.weight size + 1 := by
  have hfd : Fd.weight s.opening (.handle .closed) = Fd.weight s.opening s.fd := by
    rw [hf]
    cases s.opening <;> rfl
  rw [handleClosed]
  dsimp only
  split
  · rw [weight_emit]
    simp only [weight, hfd, Frame.weight]
  · rw [weight_emit]
    simp only [weight, hfd, Frame.weight]

theorem weight_closeUnderlying : s.closeUnderlying.1.weight size ≤ s.weight size + 3 := by
  rw [closeUnderlying]
  split
  · simp only [weight, Bool.toNat_true]
    omega
  · rename_i hf
    rw [weight_handleClosed hf]
    exact Nat.add_le_add_left (by decide) _
  · exact Nat.le_add_right _ _
  · rw [weight_queue]
    exact Nat.add_le_add_left (by decide) _

theorem weight_emitClose : s.emitClose.1.weight size ≤ s.weight size + 1 := by
  rw [emitClose]
  split
  · exact Nat.le_add_right _ _
  · rw [weight_emit]
    exact Nat.le_refl _

theorem weight_readNextChunk : (s.readNextChunk o).1.weight size ≤ s.weight size + 6 := by
  rw [readNextChunk]
  split
  · exact Nat.le_add_right _ _
  split
  · exact Nat.le_add_right _ _
  split
  · exact Nat.le_trans weight_openIfNeeded (Nat.le_add_right _ _)
  split
  · exact Nat.le_trans weight_finishReadable (Nat.add_le_add_left (by decide) _)
  · simp only [weight, Bool.toNat_true]
    omega

theorem weight_afterListeners (f : Frame) :
    (s.afterListeners o f).1.weight size < s.weight size + f.weight := by
  cases f with
  | emitOpen =>
      rw [afterListeners]
      refine Nat.lt_succ_of_le ?_
      split
      · exact weight_scheduleRead
      · exact Nat.le_add_right _ _
  | onRead =>
      rw [afterListeners]
      refine Nat.lt_succ_of_le ?_
      split
      · exact Nat.le_trans weight_finishReadable (Nat.add_le_add_left (by decide) _)
      · exact weight_scheduleRead
  | finishReadable | handleStreamError =>
      rw [afterListeners]
      refine Nat.lt_succ_of_le ?_
      split
      · exact weight_destroy
      · exact Nat.le_add_right _ _
  | destroy =>
      rw [afterListeners, weight_queue]
      exact Nat.lt_succ_self _
  | abort =>
      rw [afterListeners]
      refine Nat.lt_succ_of_le ?_
      split
      · rw [weight_emit]
        exact Nat.add_le_add_left (by decide) _
      · split
        · exact weight_destroy
        · rw [weight_emit]
          exact Nat.add_le_add_left (by decide) _
  | none => exact Nat.lt_succ_self _

theorem weight_run (k : Task) : (s.run o k).1.weight size < s.weight size + k.weight := by
  cases k with
  | openIfNeeded => exact Nat.lt_succ_of_le weight_openIfNeeded
  | readNextChunk => exact Nat.lt_succ_of_le (weight_readNextChunk (s := { s with readScheduled := false }))
  | closeUnderlying => exact Nat.lt_succ_of_le weight_closeUnderlying
  | closed => exact Nat.lt_succ_of_le weight_emitClose
  | abort => exact Nat.lt_succ_of_le weight_abort

/-- Each step of the stream itself leaves less to do. -/
theorem own_lt {decode : Bytes → List A} {l : Bytes} {notes : List Note}
    (h : Sent o decode l s notes) {content : Bytes} (hl : l = o.of content) {a : Event}
    (ha : a.IsOwn) (hC : s.Faithful content a) {r : ReadStream × List Note}
    (hs : s.step o a = some r) : r.1.weight l.length < s.weight l.length := by
  cases step_inv hs with
  | onData | resume | pause | destroy | close | abort | handleClose | handleFd => exact absurd ha id
  | listenersReturn f rest hf =>
      have hw : weight l.length s = weight l.length { s with frames := rest } + f.weight := by
        rw [← weight_emit, emit, ← hf]
      rw [hw]
      exact weight_afterListeners f
  | microtask k rest _ hm =>
      have hw : weight l.length s = weight l.length { s with microtasks := rest } + k.weight := by
        simp only [weight, hm, List.map_cons, List.sum_cons]
        omega
      rw [hw]
      exact weight_run k
  | notOpened => exact absurd rfl hC
  | opened n ho =>
      rw [weight_emit]
      simp only [weight, ho, Fd.weight, Frame.weight]
      omega
  | readDone data hg =>
      have hle := (h.onRead hl hg hC).le
      have hw : weight l.length s = weight l.length { s with reading := false } + 6 := by
        simp only [weight, hg, Bool.toNat_true, Bool.toNat_false]
        omega
      rw [hw]
      match data with
      | none => cases hC
      | some [] => exact Nat.lt_succ_of_le weight_finishReadable
      | some (b :: bs) =>
          have hle : s.bytesRead + (bs.length + 1) ≤ l.length := hle
          simp only [onRead, weight_emit]
          simp only [weight, Frame.weight, List.length_cons]
          omega
  | closeDone hc =>
      have hf : Fd.weight s.opening .closed ≤ Fd.weight s.opening s.fd := by
        cases s.opening
        · exact Nat.zero_le _
        · exact Nat.le_refl _
      rw [weight_queue]
      simp only [weight, hc, Bool.toNat_true, Bool.toNat_false, Task.weight]
      omega

end ReadStream

/-! ### Every run -/

variable {decode : Bytes → List A}

theorem Sent.readableEnded {o : Range} {l : Bytes} {s : ReadStream}
    {notes : List Note} (h : Sent o decode l s notes) (he : .end ∈ notes) :
    s.readableEnded = true := by
  cases hs : s.readableEnded with
  | true => rfl
  | false =>
      have hz := h.ends
      rw [hs] at hz
      exact absurd he (List.count_eq_zero.mp hz)

/-- What is emitted up to `end` decodes to what the range decodes to. -/
theorem Sent.decoded {o : Range} {l : Bytes} {s : ReadStream} {notes : List Note}
    (h : Sent o decode l s notes) (he : .end ∈ notes) :
    (chunks notes).flatMap decode = decode l := by
  have ht := h.text
  rw [h.ended (h.readableEnded he), List.drop_length] at ht
  have hn := h.splits.nil o.pos
  rwa [hn, List.append_nil] at ht

/-- What a run keeps, as it bears on what was delivered. -/
theorem Sent.delivered {o : Range} {content : Bytes} {s : ReadStream}
    {notes : List Note} (h : Sent o (fun _ => ([] : List A)) (o.of content) s notes) (hL : Live s)
    (ht : Splits decode o.highWaterMark (o.of content) → Sent o decode (o.of content) s notes) :
    Delivered o content decode s notes where
  data := by
    rw [h.data]
    exact List.take_prefix _ _
  whole := by
    intro he
    have hk := h.ended (h.readableEnded he)
    rw [h.data, hk, List.take_length]
  text := fun hd he => (ht hd).decoded he
  once := by
    rw [h.ends]
    exact Bool.toNat_le _
  last := h.last
  flows := by
    intro hdes hcl hab hfl ⟨hfr, hmt, hop, hre, _⟩
    by_contra hne
    have he : s.readableEnded = false := by
      cases he : s.readableEnded with
      | false => rfl
      | true =>
          have hz := h.ends
          rw [List.count_eq_zero.mpr hne, he] at hz
          cases hz
    rcases hL.busy ⟨hdes, hcl, hab, hfl, he⟩ with hb | hb | hb | ⟨-, hb⟩ | hb | hb
    · have hm := hL.scheduled hb
      rw [hmt] at hm
      cases hm
    · exact nomatch hre.symm.trans hb
    · exact nomatch hop.symm.trans hb
    · rw [hmt] at hb
      cases hb
    · rw [hfr] at hb
      cases hb
    · rw [hfr] at hb
      cases hb
  settles := by
    refine ⟨s.weight (o.of content).length, fun as p hp => ?_⟩
    refine execIf_length_le (I := fun p => Sent o (fun _ => ([] : List A)) (o.of content) p.1 p.2)
      (m := fun p => p.1.weight (o.of content).length) ?_ h hp
    intro p a q hI ⟨ha, hC⟩ hs
    obtain ⟨r, hr, rfl⟩ := recorded_eq_some.mp hs
    have hw := own_lt hI rfl ha hC hr
    exact ⟨hI.step rfl hC hr, hw⟩

/-- **Ranges.**  In a run of a stream in which `open` succeeds and `read` gives what is in the
file, the stream delivers its range; and the text of it, with an encoding in which the range may be
cut into pieces of `highWaterMark` bytes. -/
theorem range_delivered {o : Range} {content : Bytes} {decode : Bytes → List A} (source : Source)
    (aborted : Bool) {p : ReadStream × List Note}
    (r : Reach (recorded fun s a => s.step o a) (fun p a => p.1.Faithful content a)
      (init o source aborted, []) p) : Delivered o content decode p.1 p.2 := by
  have hsent (decode : Bytes → List A) (hd : Splits decode o.highWaterMark (o.of content)) :
      Sent o decode (o.of content) p.1 p.2 ∧ Live p.1 := by
    refine r.invariant (I := fun p => Sent o decode (o.of content) p.1 p.2 ∧ Live p.1)
      ⟨Sent.init o hd source aborted, Live.init o source aborted⟩ ?_
    intro p a q ⟨hS, hL⟩ hC hs
    obtain ⟨r, hr, rfl⟩ := recorded_eq_some.mp hs
    have hL' : Live r.1 := hL.step hC hr
    exact ⟨hS.step rfl hC hr, hL'⟩
  have hi := hsent (fun _ => []) fun _ => rfl
  exact hi.1.delivered hi.2 fun hd => (hsent decode hd).1

/-- `Hi` in `utf16le`, by two bytes at a time. -/
theorem range_delivered_two :
    (∃ s : ReadStream, Delivered ⟨some 0, some 3, 2, true, by simp, by decide⟩
      [72, 0, 105, 0, 33, 0] utf16le s [.open 3, .data [72, 0], .data [105, 0], .end]) ∧
    Splits utf16le 2 [72, 0, 105, 0] := by
  refine ⟨?_, splits_utf16le 1 _⟩
  obtain ⟨⟨s, notes⟩, hp, rfl⟩ := Reach.exists_of_execIf
    (recorded fun s a => step s ⟨some 0, some 3, 2, true, by simp, by decide⟩ a)
    (fun p a => p.1.Faithful [72, 0, 105, 0, 33, 0] a)
    (init ⟨some 0, some 3, 2, true, by simp, by decide⟩ .path false, [])
    [.onData, .microtask, .opened (some 3), .listenersReturn, .microtask, .readDone (some [72, 0]),
      .pause, .resume, .listenersReturn, .microtask, .readDone (some [105, 0]), .listenersReturn]
    (P := fun p => p.2 = [.open 3, .data [72, 0], .data [105, 0], .end]) (by decide +kernel)
  exact ⟨s, range_delivered .path false hp⟩

/-- **Characters are cut.**  With `highWaterMark` 1 each byte of a character of `utf16le` is decoded
by itself: the text that is emitted is not that of the file. -/
theorem character_cut :
    let o : Range := ⟨none, none, 1, true, by simp, by decide⟩
    let content : Bytes := [72, 0]
    ∃ p : ReadStream × List Note,
      Reach (recorded fun s a => step s o a) (fun p a => p.1.Faithful content a)
        (init o .path false, []) p ∧
      .end ∈ p.2 ∧ (chunks p.2).flatMap utf16le = [] ∧ utf16le (o.of content) = [72] := by
  intro o content
  exact Reach.exists_of_execIf _ _ _
    [.onData, .microtask, .opened (some 3), .listenersReturn, .microtask, .readDone (some [72]),
      .listenersReturn, .microtask, .readDone (some [0]), .listenersReturn, .microtask,
      .readDone (some [])] (by decide +kernel)

end Streams
