import SecureExec.Streams.WriteStream

/-!
# Streams — Writes — what a stream says it has written

The file of a `WriteStream` once `close` was emitted, after any run of its calls and callbacks.

* `Target`: the file, as it was when the stream was made, and where the flags and `start` put data.
* `Keeps`: what a step has to meet so that nothing that was acknowledged is lost or misplaced.
* `Held`: the file holds some chunks; `Kept` is what a run keeps.
* `writes_kept`: in a run of such steps the file holds what was acknowledged, in order and once;
  `data_lost` gives runs of other steps that lose data.
-/

namespace Streams.Writing
open Lts FdLayers SecureExec SecureExec.Kernel WriteStream Function Writing.Source

/-! ### What the stream is for -/

/-- The file of a stream when it was made, and the cursor of the descriptor. -/
structure Target where
  path : String
  flags : Flags
  base : ByteArray8
  cursor : ℕ

namespace Target

variable (w : Target)

/-- The position that the flags and `start` prescribe. -/
def prescribed (start : Option ℕ) : ℕ :=
  if w.flags.has O_APPEND then w.base.length else start.getD w.cursor

/-- The position without `start`. -/
def offset : ℕ := w.prescribed none

/-- The file with the chunks `l` at `pos`. -/
def content (pos : ℕ) (l : List ByteArray8) : ByteArray8 :=
  if l.flatten = [] then w.base else Bytes.overlay w.base pos l.flatten

end Target

/-- What a stream is made for. -/
def Source.target (layer : FdLayer) : Source → Target
  | .path name flags =>
    ⟨name, flags &&& ~~~O_CLOEXEC,
      if flags.has O_TRUNC then [] else (layer.files name).getD [], 0⟩
  | .fd _ n | .handle _ n =>
    match layer.entry n with
    | some e =>
      let d := layer.desc e.description
      ⟨d.path, d.flags, (layer.files d.path).getD [], d.cursor⟩
    | none => ⟨"", 0, (layer.files "").getD [], 0⟩

/-- The chunks whose callback reported no error. -/
def wrote (notes : List Note) : List ByteArray8 :=
  notes.filterMap fun n => match n with
    | .wrote data => some data
    | _ => none

@[simp] theorem wrote_append (l m : List Note) : wrote (l ++ m) = wrote l ++ wrote m :=
  List.filterMap_append

namespace WriteStream

/-- What was accepted and is not stored. -/
def left (s : WriteStream) : List ByteArray8 := (s.chunks.drop s.stored).map (Chunk.data s.memory)

/-- The chunk is kept. -/
def Accepts (s : WriteStream) (data : ByteArray8) : Prop :=
  s.writableEnded = false ∧ s.destroyed = false ∧
    s.writableLength + data.length ≤ MAX_WRITE_STREAM_BYTES

/-- A chunk that can be stored where it belongs: the descriptor `number` is open, and stands where
the data belong; no bytes may come where the file reaches that far. -/
def Storable (w : Target) (number : ℕ) (start : Option ℕ) (s : WriteStream) (data : ByteArray8) :
    Prop :=
  if data = [] then w.offset ≤ w.base.length
  else s.layer.entry number ≠ none ∧ w.prescribed start = w.offset

/-- What a step has to meet.  A chunk that is kept can be stored; the buffer of a chunk that is not
stored yet does not change; `close` and `destroy` close when all is stored; and `end` comes before
the descriptor is closed, or to an empty file. -/
def Keeps (w : Target) (number : ℕ) (start : Option ℕ) (s : WriteStream) : Event → Prop
  | .write chunk | .end (some chunk) =>
    s.Accepts (chunk.data s.memory) → s.Storable w number start (chunk.data s.memory)
  | .mutate buffer data => .view buffer ∈ s.chunks.drop s.stored → data = s.memory buffer
  | .microtask =>
    match s.frames, s.microtasks with
    | [], .closeUnderlying :: _ => s.left.flatten = []
    | [], .flush :: _ =>
      s.fileHandle = none → s.fd = none →
        ∀ path ∈ s.path, path = w.path → s.layer.files path = some []
    | _, _ => True
  | _ => True

instance : ∀ (w : Target) (number : ℕ) (start : Option ℕ) (s : WriteStream) (a : Event),
    Decidable (s.Keeps w number start a) := by
  intro w number start s a
  unfold Keeps Accepts Storable
  split
  · infer_instance
  · infer_instance
  · infer_instance
  · split <;> infer_instance
  · infer_instance

end WriteStream

/-! ### What the file holds -/

/-- The file of `w` holds the chunks `l`, and the descriptor stands behind them. -/
structure Held (w : Target) (number : ℕ) (layer : FdLayer) (l : List ByteArray8) : Prop where
  content : (layer.files w.path).getD [] = w.content w.offset l
  entry : ∀ e ∈ layer.entry number,
    (layer.desc e.description).path = w.path ∧ (layer.desc e.description).flags = w.flags ∧
    (w.flags.has O_APPEND = true ∨
      (layer.desc e.description).cursor = w.offset + l.flatten.length)

namespace Target

variable (w : Target) {l : List ByteArray8} {data : ByteArray8}

/-- The next chunk is written behind those before it. -/
theorem content_snoc (hd : data = [] → w.offset ≤ w.base.length) :
    w.content w.offset (l ++ [data]) =
      Bytes.overlay (w.content w.offset l) (w.offset + l.flatten.length) data := by
  by_cases hl : l.flatten = []
  · rw [content, content, if_pos hl, List.flatten_append, List.flatten_singleton, hl, List.nil_append,
      List.length_nil, Nat.add_zero]
    split
    · rename_i hnil
      rw [hnil, Bytes.overlay_nil (hd hnil)]
    · rfl
  · rw [content, content, if_neg hl, List.flatten_append, List.flatten_singleton,
      if_neg (by simp [hl]), Bytes.overlay_overlay]

/-- A file that is appended to ends behind its chunks. -/
theorem length_content (ha : w.flags.has O_APPEND = true) :
    (w.content w.offset l).length = w.offset + l.flatten.length := by
  have ho : w.offset = w.base.length := if_pos ha
  rw [content]
  split
  · rename_i hl
    rw [hl, ho, List.length_nil, Nat.add_zero]
  · rw [Bytes.length_overlay, ho]
    omega

end Target

/-- A write opens and closes nothing. -/
theorem entry_fdWrite {layer layer' : FdLayer} {number : ℕ} {data : ByteArray8} {reply : Reply}
    (hw : Guest.fdWrite layer number data none = (.ok reply, layer')) :
    layer'.entry number = layer.entry number := by
  rw [Guest.fdWrite] at hw
  split at hw
  · cases hw
  · simp only at hw
    split at hw
    · cases hw
    · cases hw
      rfl

namespace Held

variable {w : Target} {number : ℕ} {layer : FdLayer} {l : List ByteArray8}

/-- A chunk that is written. -/
theorem fdWrite (h : Held w number layer l) {data : ByteArray8} {reply : Reply} {layer' : FdLayer}
    (hd : data = [] → w.offset ≤ w.base.length)
    (hw : Guest.fdWrite layer number data none = (.ok reply, layer')) :
    Held w number layer' (l ++ [data]) ∧ layer'.entry number = layer.entry number := by
  rw [Guest.fdWrite] at hw
  split at hw
  · cases hw
  · rename_i e he
    obtain ⟨hp, hf, hc⟩ := h.entry e he
    simp only [hp, hf, Option.getD_none, Option.isSome_none, Bool.false_eq_true, if_false] at hw
    split at hw
    · cases hw
    · have hpos : (if w.flags.has O_APPEND = true then ((layer.files w.path).getD []).length
          else (layer.desc e.description).cursor) = w.offset + l.flatten.length := by
        split
        · rename_i ha
          rw [h.content, w.length_content ha]
        · rename_i ha
          exact hc.resolve_left ha
      rw [hpos, h.content, ← w.content_snoc hd] at hw
      cases hw
      refine ⟨⟨?_, fun e' he' => ?_⟩, rfl⟩
      · change (update layer.files w.path _ w.path).getD [] = _
        rw [update_self, Option.getD_some]
      · have hee : e' = e := Option.some.inj (he'.symm.trans he)
        subst hee
        have hdesc : (FdLayer.modifyDesc (layer.writeFile w.path (w.content w.offset (l ++ [data])))
            e'.description fun d => { d with
              cursor := w.offset + l.flatten.length + data.length }).desc e'.description =
            { layer.desc e'.description with
              cursor := w.offset + l.flatten.length + data.length } := update_self ..
        rw [hdesc]
        refine ⟨hp, hf, .inr ?_⟩
        simp [Nat.add_assoc]

/-- The descriptor is closed. -/
theorem fdClose (h : Held w number layer l) :
    Held w number (Guest.fdClose layer number).2 l ∧
      (Guest.fdClose layer number).2.entry number = none := by
  rw [Guest.fdClose]
  split
  · rename_i he
    exact ⟨h, he⟩
  · rename_i e he
    obtain ⟨t, ht, hte⟩ := Option.bind_eq_some_iff.mp he
    have hc : layer.close number = { layer with
        fds := layer.fds.setTable pid (t.close layer.fds.descs number) } := by
      rw [FdLayer.close, ht]
    have hz : (layer.close number).entry number = none := by
      rw [hc, FdLayer.entry]
      change ((OMap.set _ pid _).get pid).bind _ = none
      rw [OMap.get_set_self, Option.bind_some, ProcessFDTable.close, hte]
      exact OMap.get_delete_self _ _
    refine ⟨⟨?_, fun e' he' => ?_⟩, hz⟩
    · change ((layer.close number).files w.path).getD [] = _
      rw [hc]
      exact h.content
    · have he'' : (layer.close number).entry number = some e' := he'
      rw [hz] at he''
      cases he''

end Held

/-! ### What a run keeps -/

/-- What a run keeps of the file and of the chunks. -/
structure Kept (w : Target) (number : ℕ) (start : Option ℕ) (s : WriteStream) (notes : List Note) :
    Prop where
  held : Held w number s.layer ((wrote notes).take s.stored)
  length : (wrote notes).length = s.chunks.length
  stored : s.stored ≤ s.chunks.length
  left : s.left = (wrote notes).drop s.stored
  nil : [] ∈ wrote notes → w.offset ≤ w.base.length
  start : (wrote notes).flatten ≠ [] → w.prescribed start = w.offset
  shut : s.layer.entry number = none → s.left.flatten = []
  fd : ∀ n ∈ s.fd, n = number
  fdShut : s.fileHandle = none → s.fd = none → s.layer.entry number = none
  handle : ∀ n, s.fileHandle = some (some n) → n = number
  handleShut : s.fileHandle = some none → s.layer.entry number = none
  close : .close ∈ notes → s.layer.entry number = none

/-- What a run keeps of what is to come: the loop of `end` runs once, and `close` is emitted when
the descriptor is closed. -/
structure Turn (number : ℕ) (s : WriteStream) : Prop where
  loop : s.microtasks.count .flush + s.microtasks.count .flushChunk ≤ s.writableEnded.toNat
  begin : s.writableEnded = false ∨ .flush ∈ s.microtasks → s.stored = 0
  shut : (∃ k, .afterClose k ∈ s.microtasks) ∨ s.closings ≠ [] ∨
    (.finish ∈ s.frames ∧ s.autoClose = true) → s.layer.entry number = none

theorem flatten_drop {l : List ByteArray8} (h : l.flatten = []) (n : ℕ) : (l.drop n).flatten = [] := by
  rw [List.flatten_eq_nil_iff] at h ⊢
  exact fun d hd => h d (List.mem_of_mem_drop hd)

namespace Kept

open WriteStream

variable {w : Target} {number : ℕ} {start : Option ℕ} {s t : WriteStream} {notes : List Note}

section

variable (h : Kept w number start s notes)
include h

/-- What changes neither the file nor the chunks. -/
theorem congr (hl : t.layer = s.layer) (hleft : t.left = s.left)
    (hf : t.fd = s.fd) (hh : t.fileHandle = s.fileHandle) (hc : t.chunks = s.chunks)
    (hs : t.stored = s.stored) : Kept w number start t notes := by
  exact {
    held := by rw [hl, hs]; exact h.held
    length := by rw [hc]; exact h.length
    stored := by rw [hs, hc]; exact h.stored
    left := by rw [hleft, hs]; exact h.left
    nil := h.nil
    start := h.start
    shut := by rw [hl, hleft]; exact h.shut
    fd := by rw [hf]; exact h.fd
    fdShut := by rw [hh, hf, hl]; exact h.fdShut
    handle := by rw [hh]; exact h.handle
    handleShut := by rw [hh, hl]; exact h.handleShut
    close := by rw [hl]; exact h.close }

/-- An event; `close` comes when the descriptor is closed. -/
theorem note {n : Note} (hw : ∀ d, n ≠ .wrote d)
    (hc : n = .close → s.layer.entry number = none) : Kept w number start s (notes ++ [n]) := by
  have hwr : wrote (notes ++ [n]) = wrote notes := by
    rw [wrote_append]
    cases n with
    | wrote d => exact absurd rfl (hw d)
    | _ => exact List.append_nil _
  exact {
    held := by rw [hwr]; exact h.held
    length := by rw [hwr]; exact h.length
    stored := h.stored
    left := by rw [hwr]; exact h.left
    nil := by rw [hwr]; exact h.nil
    start := by rw [hwr]; exact h.start
    shut := h.shut
    fd := h.fd
    fdShut := h.fdShut
    handle := h.handle
    handleShut := h.handleShut
    close := fun hm => by
      rcases List.mem_append.mp hm with hm | hm
      · exact h.close hm
      · exact hc (List.mem_singleton.mp hm).symm }

/-- A chunk that is kept, before anything is stored. -/
theorem accept (hz : s.stored = 0) {chunk : Chunk}
    (hs : s.Storable w number start (chunk.data s.memory)) (n : ℕ) :
    Kept w number start { s with chunks := s.chunks ++ [chunk], writableLength := n }
      (notes ++ [.wrote (chunk.data s.memory)]) := by
  have hwr : wrote (notes ++ [.wrote (chunk.data s.memory)]) =
      wrote notes ++ [chunk.data s.memory] := wrote_append _ _
  have hl := h.left
  have hleft : WriteStream.left { s with chunks := s.chunks ++ [chunk], writableLength := n } =
      s.left ++ [chunk.data s.memory] := by
    simp [WriteStream.left, hz]
  rw [hz, List.drop_zero] at hl
  have hheld := h.held
  rw [hz, List.take_zero] at hheld
  exact {
    held := by
      change Held w number s.layer (List.take s.stored _)
      rw [hz, List.take_zero]
      exact hheld
    length := by
      rw [hwr, List.length_append, List.length_append, h.length]
      rfl
    stored := by
      change s.stored ≤ _
      rw [hz]
      exact Nat.zero_le _
    left := by
      change _ = List.drop s.stored _
      rw [hleft, hwr, hl, hz, List.drop_zero]
    nil := fun hm => by
      rw [hwr] at hm
      rcases List.mem_append.mp hm with hm | hm
      · exact h.nil hm
      · rw [Storable, if_pos (List.mem_singleton.mp hm).symm] at hs
        exact hs
    start := fun hne => by
      by_cases hd : chunk.data s.memory = []
      · refine h.start fun hw => hne ?_
        rw [hwr, List.flatten_append, hw, List.flatten_singleton, hd, List.nil_append]
      · rw [Storable, if_neg hd] at hs
        exact hs.2
    shut := fun he => by
      rw [hleft, List.flatten_append, List.flatten_singleton, h.shut he, List.nil_append]
      by_contra hd
      rw [Storable, if_neg hd] at hs
      exact hs.1 he
    fd := h.fd
    fdShut := h.fdShut
    handle := h.handle
    handleShut := h.handleShut
    close := fun hm => by
      rcases List.mem_append.mp hm with hm | hm
      · exact h.close hm
      · cases List.mem_singleton.mp hm }

theorem write (hT : Turn number s) (chunk : Chunk)
    (hs : s.Accepts (chunk.data s.memory) → s.Storable w number start (chunk.data s.memory)) :
    Kept w number start (s.write chunk).1 (notes ++ (s.write chunk).2) := by
  rw [WriteStream.write]
  split
  · exact h.note (by simp) (by simp)
  split
  · exact (h.note (n := .refused) (by simp) (by simp)).congr rfl rfl rfl rfl rfl rfl
  · rename_i hg hlen
    simp only [not_or, Bool.not_eq_true] at hg
    exact h.accept (hT.begin (.inl hg.1)) (hs ⟨hg.1, hg.2, by omega⟩) _

/-- The descriptor is closed, and all that was accepted is stored. -/
theorem closeUnderlying (hl : s.left.flatten = []) (k : Then) :
    Kept w number start (s.closeUnderlying k).1 (notes ++ (s.closeUnderlying k).2) := by
  unfold WriteStream.closeUnderlying
  split
  · rw [List.append_nil]
    exact h.congr rfl rfl rfl rfl rfl rfl
  · rename_i n hh
    obtain rfl := h.handle n hh
    obtain ⟨hheld, hz⟩ := h.held.fdClose
    split
    · rename_i layer hc
      rw [hc] at hheld hz
      rw [List.append_nil]
      exact {
        held := hheld
        length := h.length
        stored := h.stored
        left := h.left
        nil := h.nil
        start := h.start
        shut := fun _ => hl
        fd := h.fd
        fdShut := fun _ _ => hz
        handle := fun _ hn => nomatch hn
        handleShut := fun _ => hz
        close := fun _ => hz }
    · cases k with
      | close => simpa using h
      | finish => exact (h.note (n := .error) (by simp) (by simp)).congr rfl rfl rfl rfl rfl rfl
  · rename_i hh
    split
    · rename_i n hf
      obtain rfl := h.fd n hf
      obtain ⟨hheld, hz⟩ := h.held.fdClose
      rw [List.append_nil]
      exact {
        held := hheld
        length := h.length
        stored := h.stored
        left := h.left
        nil := h.nil
        start := h.start
        shut := fun _ => hl
        fd := h.fd
        fdShut := fun _ _ => hz
        handle := h.handle
        handleShut := fun _ => hz
        close := fun _ => hz }
    · rw [List.append_nil]
      exact h.congr rfl rfl rfl rfl rfl rfl

/-- The loop has stored the chunks up to `i`. -/
theorem store {layer : FdLayer} {i : ℕ}
    (hh : Held w number layer ((wrote notes).take i))
    (he : layer.entry number = s.layer.entry number) (hi : i ≤ s.chunks.length)
    (hle : s.stored ≤ i) : Kept w number start { s with layer := layer, stored := i } notes := by
  have hleft : WriteStream.left { s with layer := layer, stored := i } =
      s.left.drop (i - s.stored) := by
    rw [WriteStream.left, WriteStream.left, ← List.map_drop, List.drop_drop, Nat.add_sub_cancel' hle]
  exact {
    held := hh
    length := h.length
    stored := hi
    left := by
      rw [hleft, h.left, List.drop_drop, Nat.add_sub_cancel' hle]
    nil := h.nil
    start := h.start
    shut := fun hz => by
      rw [hleft]
      exact flatten_drop (h.shut (he ▸ hz)) _
    fd := h.fd
    fdShut := fun hn hf => he.trans (h.fdShut hn hf)
    handle := h.handle
    handleShut := fun hn => he.trans (h.handleShut hn)
    close := fun hm => he.trans (h.close hm) }

theorem finish :
    Kept w number start s.finish.1 (notes ++ s.finish.2) :=
  (h.note (n := .finish) (by simp) (by simp)).congr rfl rfl rfl rfl rfl rfl

theorem fail :
    Kept w number start s.fail.1 (notes ++ s.fail.2) :=
  (h.note (n := .error) (by simp) (by simp)).congr rfl rfl rfl rfl rfl rfl

theorem emitClose (he : s.layer.entry number = none) :
    Kept w number start s.emitClose.1 (notes ++ s.emitClose.2) := by
  rw [WriteStream.emitClose]
  split
  · simpa using h
  · exact (h.note (n := .close) (by simp) (fun _ => he)).congr rfl rfl rfl rfl rfl rfl

end

/-- When the loop is through, all that was accepted is stored. -/
theorem left_nil (hs : s.chunks.length ≤ s.stored) : s.left.flatten = [] := by
  rw [WriteStream.left, List.drop_eq_nil_of_le hs]
  rfl

theorem flushChunk (h : Kept w number start s notes) :
    Kept w number start s.flushChunk.1 (notes ++ s.flushChunk.2) := by
  rw [WriteStream.flushChunk]
  split
  · rename_i hn
    have hl := left_nil (List.getElem?_eq_none_iff.mp hn)
    split
    · exact h.closeUnderlying hl .finish
    · exact h.finish
  · rename_i chunk hc
    split
    · exact h.fail
    · rename_i n hj
      obtain rfl := h.handle n (Option.join_eq_some_iff.mp hj)
      obtain ⟨hi, hget⟩ := List.getElem?_eq_some_iff.mp hc
      -- the chunk is as it was when it was accepted
      have hw : (wrote notes)[s.stored]? = some (chunk.data s.memory) := by
        have hl := congrArg (fun l => l[0]?) h.left
        simpa [WriteStream.left, hc] using hl.symm
      have hmem : chunk.data s.memory ∈ wrote notes := List.mem_of_getElem? hw
      split
      · exact h.fail
      · rename_i reply layer hfd
        have hnil : chunk.data s.memory = [] → w.offset ≤ w.base.length := fun hd =>
          h.nil (hd ▸ hmem)
        obtain ⟨hheld, he⟩ := h.held.fdWrite hnil hfd
        have htake : (wrote notes).take s.stored ++ [chunk.data s.memory] =
            (wrote notes).take (s.stored + 1) := by
          rw [List.take_add_one, hw]
          rfl
        rw [htake] at hheld
        rw [List.append_nil]
        exact (h.store hheld he hi (Nat.le_succ _)).congr rfl rfl rfl rfl rfl rfl

/-- The chunks that are written up to one that fails. -/
theorem writeChunks (n : ℕ) {layer : FdLayer} {done rest : List ByteArray8}
    (h : Held w n layer done) (hnil : [] ∈ rest → w.offset ≤ w.base.length) :
    Held w n (WriteStream.writeChunks n layer rest).1
        (done ++ rest.take (WriteStream.writeChunks n layer rest).2) ∧
      (WriteStream.writeChunks n layer rest).1.entry n = layer.entry n ∧
      (WriteStream.writeChunks n layer rest).2 ≤ rest.length := by
  induction rest generalizing layer done with
  | nil => simpa [WriteStream.writeChunks] using h
  | cons data rest ih =>
      rw [WriteStream.writeChunks]
      split
      · simpa using h
      · rename_i reply layer' hw
        have hd : data = [] → w.offset ≤ w.base.length := fun hd =>
          hnil (hd ▸ List.mem_cons_self)
        obtain ⟨hheld, he⟩ := h.fdWrite hd hw
        obtain ⟨ih₁, ih₂, ih₃⟩ := ih hheld fun hm => hnil (List.mem_cons_of_mem _ hm)
        refine ⟨?_, ih₂.trans he, Nat.succ_le_succ ih₃⟩
        rwa [List.append_assoc] at ih₁

/-- The chunks are written, as far as that goes. -/
theorem writeAll (h : Kept w number start s notes) (hz : s.stored = 0) :
    Kept w number start { s with
      layer := (WriteStream.writeChunks number s.layer (s.chunks.map (Chunk.data s.memory))).1
      stored := (WriteStream.writeChunks number s.layer (s.chunks.map (Chunk.data s.memory))).2 }
      notes ∧
    (WriteStream.writeChunks number s.layer (s.chunks.map (Chunk.data s.memory))).1.entry number =
      s.layer.entry number := by
  have hl := h.left
  rw [hz, List.drop_zero, WriteStream.left, hz, List.drop_zero] at hl
  have hheld := h.held
  rw [hz, List.take_zero] at hheld
  rw [hl]
  obtain ⟨h₁, h₂, h₃⟩ :
      Held w number (WriteStream.writeChunks number s.layer (wrote notes)).1
          ([] ++ (wrote notes).take (WriteStream.writeChunks number s.layer (wrote notes)).2) ∧
        _ ∧ _ := writeChunks number hheld h.nil
  rw [h.length] at h₃
  rw [List.nil_append] at h₁
  exact ⟨h.store h₁ h₂ h₃ (by rw [hz]; exact Nat.zero_le _), h₂⟩

theorem flush (h : Kept w number start s notes) (hz : s.stored = 0)
    (hC : s.fileHandle = none → s.fd = none →
      ∀ path ∈ s.path, path = w.path → s.layer.files path = some []) :
    Kept w number start s.flush.1 (notes ++ s.flush.2) := by
  have hl := h.left
  rw [hz, List.drop_zero, WriteStream.left, hz, List.drop_zero] at hl
  have hheld := h.held
  rw [hz, List.take_zero] at hheld
  rw [WriteStream.flush]
  split
  · exact h.flushChunk
  · rename_i hh
    have hh : s.fileHandle = none := by simpa using hh
    split
    · rename_i n hf
      obtain rfl := h.fd n hf
      have ht := (h.writeAll hz).1
      dsimp only
      split
      · exact ht.fail
      split
      · rename_i hge _
        exact ht.closeUnderlying (left_nil (Nat.le_of_not_lt hge)) .finish
      · exact ht.finish
    · rename_i hf
      have he := h.fdShut hh hf
      split
      · exact h.fail
      · rename_i path hp
        have hnil : (wrote notes).flatten = [] := by
          have := h.shut he
          rwa [WriteStream.left, hz, List.drop_zero, hl] at this
        have hchunks : s.chunks.flatMap (Chunk.data s.memory) = [] := by
          rw [List.flatMap, hl, hnil]
        have hfile : ((s.layer.writeFile path []).files w.path).getD [] =
            (s.layer.files w.path).getD [] := by
          change (update s.layer.files path (some []) w.path).getD [] = _
          by_cases hw : path = w.path
          · rw [← hw, update_self, hC hh hf path hp hw]
          · rw [update_of_ne (Ne.symm hw)]
        have ht : Held w number (s.layer.writeFile path []) ((wrote notes).take s.chunks.length) := by
          refine ⟨?_, fun e hm => ?_⟩
          · rw [hfile, hheld.content, Target.content, Target.content, if_pos List.flatten_nil,
              ← h.length, List.take_length, if_pos hnil]
          · have hm : s.layer.entry number = some e := hm
            rw [he] at hm
            cases hm
        rw [hchunks]
        exact finish (h.store ht rfl (Nat.le_refl _) h.stored)

end Kept

/-! ### What is to come -/

namespace Turn

open WriteStream

variable {number : ℕ} {s t : WriteStream}

section

variable (h : Turn number s)
include h

/-- Another microtask; one that emits `close` comes when the descriptor is closed. -/
theorem queue {k : Task} (hf : k ≠ .flush) (hc : k ≠ .flushChunk)
    (ha : (∃ j, k = .afterClose j) → s.layer.entry number = none) : Turn number (s.queueMicrotask k) where
  loop := by
    change (s.microtasks ++ [k]).count _ + (s.microtasks ++ [k]).count _ ≤ _
    rw [List.count_append, List.count_append, List.count_singleton, List.count_singleton,
      if_neg (by simpa using hf), if_neg (by simpa using hc)]
    exact h.loop
  begin := by
    rintro (he | hm)
    · exact h.begin (.inl he)
    · rcases List.mem_append.mp hm with hm | hm
      · exact h.begin (.inr hm)
      · exact absurd (List.mem_singleton.mp hm).symm hf
  shut := by
    rintro (⟨j, hm⟩ | hs)
    · rcases List.mem_append.mp hm with hm | hm
      · exact h.shut (.inl ⟨j, hm⟩)
      · exact ha ⟨j, (List.mem_singleton.mp hm).symm⟩
    · exact h.shut (.inr hs)

/-- Listeners run; what emits `close` after them waits for the descriptor. -/
theorem emit {f : Frame}
    (hf : f = .finish → s.autoClose = true → s.layer.entry number = none) :
    Turn number (s.emit f) where
  loop := h.loop
  begin := h.begin
  shut := by
    rintro (ha | hc | ⟨hm, hac⟩)
    · exact h.shut (.inl ha)
    · exact h.shut (.inr (.inl hc))
    · rcases List.mem_cons.mp hm with hm | hm
      · exact hf hm.symm hac
      · exact h.shut (.inr (.inr ⟨hm, hac⟩))

/-- The descriptor is closed. -/
theorem of_shut (he : t.layer.entry number = none)
    (hm : t.microtasks = s.microtasks) (hw : t.writableEnded = s.writableEnded)
    (hs : t.stored = s.stored) : Turn number t where
  loop := by rw [hm, hw]; exact h.loop
  begin := by rw [hm, hw, hs]; exact h.begin
  shut := fun _ => he

theorem write (chunk : Chunk) : Turn number (s.write chunk).1 := by
  rw [WriteStream.write]
  split
  · exact h
  split
  · exact ⟨h.loop, h.begin, h.shut⟩
  · exact ⟨h.loop, h.begin, h.shut⟩

theorem fail : Turn number s.fail.1 := h.emit (by simp)

theorem finish (he : s.autoClose = true → s.layer.entry number = none) :
    Turn number s.finish.1 := h.emit fun _ => he

theorem emitClose : Turn number s.emitClose.1 := by
  rw [WriteStream.emitClose]
  split
  · exact h
  · exact emit (s := { s with closed := true }) ⟨h.loop, h.begin, h.shut⟩ (by simp)

/-- A microtask that is gone. -/
theorem pop {k : Task} {rest : List Task} (hm : s.microtasks = k :: rest) :
    Turn number { s with microtasks := rest } where
  loop := by
    have hl := h.loop
    rw [hm] at hl
    exact Nat.le_trans (Nat.add_le_add List.count_le_count_cons List.count_le_count_cons) hl
  begin := by
    rintro (he | hr)
    · exact h.begin (.inl he)
    · exact h.begin (.inr (hm ▸ List.mem_cons_of_mem _ hr))
  shut := by
    rintro (⟨j, hr⟩ | hs)
    · exact h.shut (.inl ⟨j, hm ▸ List.mem_cons_of_mem _ hr⟩)
    · exact h.shut (.inr hs)

/-- The loop of `end` runs, and is not queued. -/
theorem pop_loop {k : Task} {rest : List Task} (hm : s.microtasks = k :: rest)
    (hk : k = .flush ∨ k = .flushChunk) :
    s.writableEnded = true ∧ .flush ∉ rest ∧ .flushChunk ∉ rest := by
  have hl := h.loop
  rw [hm] at hl
  have hb := Bool.toNat_le s.writableEnded
  have hc : 1 + (rest.count .flush + rest.count .flushChunk) ≤ s.writableEnded.toNat := by
    rcases hk with rfl | rfl
    · rw [List.count_cons_self, List.count_cons_of_ne (by simp)] at hl
      omega
    · rw [List.count_cons_self, List.count_cons_of_ne (by simp)] at hl
      omega
  refine ⟨?_, List.count_eq_zero.mp (by omega), List.count_eq_zero.mp (by omega)⟩
  cases he : s.writableEnded with
  | true => rfl
  | false =>
      rw [he, Bool.toNat_false] at hc
      omega

end

variable {w : Target} {start : Option ℕ} {notes : List Note}

variable (h : Turn number s)
include h

theorem closeUnderlying (hK : Kept w number start s notes) (k : Then) :
    Turn number (s.closeUnderlying k).1 := by
  unfold WriteStream.closeUnderlying
  split
  · rename_i hh
    exact h.queue (by simp) (by simp) fun _ => hK.handleShut hh
  · rename_i n hh
    obtain rfl := hK.handle n hh
    obtain ⟨-, hz⟩ := hK.held.fdClose
    split
    · rename_i layer hc
      rw [hc] at hz
      have ht : Turn n { s with layer := layer, fileHandle := some none } := h.of_shut hz rfl rfl rfl
      exact ht.queue (by simp) (by simp) fun _ => hz
    · cases k with
      | close => exact h
      | finish => exact h.fail
  · rename_i hh
    split
    · rename_i n hf
      obtain rfl := hK.fd n hf
      exact h.of_shut hK.held.fdClose.2 rfl rfl rfl
    · rename_i hf
      exact h.queue (by simp) (by simp) fun _ => hK.fdShut hh hf

variable (hw : s.writableEnded = true) (hf : .flush ∉ s.microtasks)
  (hc : .flushChunk ∉ s.microtasks)
include hw hf

/-- The loop stores chunks. -/
theorem store {layer : FdLayer} (he : layer.entry number = s.layer.entry number) (i : ℕ) :
    Turn number { s with layer := layer, stored := i } where
  loop := h.loop
  begin := by
    rintro (hn | hm)
    · exact nomatch hw.symm.trans hn
    · exact absurd hm hf
  shut := fun hs => he.trans (h.shut hs)

include hc

/-- The loop goes on. -/
theorem again : Turn number (s.queueMicrotask .flushChunk) where
  loop := by
    change (s.microtasks ++ [Task.flushChunk]).count _ + (s.microtasks ++ [Task.flushChunk]).count _ ≤
      s.writableEnded.toNat
    rw [List.count_append, List.count_append, List.count_eq_zero.mpr hf, List.count_eq_zero.mpr hc, hw]
    exact Nat.le_refl _
  begin := by
    rintro (hn | hm)
    · exact nomatch hw.symm.trans hn
    · rcases List.mem_append.mp hm with hm | hm
      · exact absurd hm hf
      · cases List.mem_singleton.mp hm
  shut := by
    rintro (⟨j, hm⟩ | hs)
    · rcases List.mem_append.mp hm with hm | hm
      · exact h.shut (.inl ⟨j, hm⟩)
      · cases List.mem_singleton.mp hm
    · exact h.shut (.inr hs)

theorem flushChunk (hK : Kept w number start s notes) : Turn number s.flushChunk.1 := by
  rw [WriteStream.flushChunk]
  split
  · split
    · exact h.closeUnderlying hK .finish
    · rename_i hn
      refine h.finish fun ha => hK.handleShut ?_
      by_contra hh
      exact hn ⟨ha, hh⟩
  · rename_i chunk hg
    split
    · exact h.fail
    · rename_i n hj
      obtain rfl := hK.handle n (Option.join_eq_some_iff.mp hj)
      split
      · exact h.fail
      · rename_i reply layer hfd
        have he : layer.entry n = s.layer.entry n := entry_fdWrite hfd
        exact (h.store hw hf he (s.stored + 1)).again hw hf hc

theorem flush (hK : Kept w number start s notes) (hz : s.stored = 0) : Turn number s.flush.1 := by
  rw [WriteStream.flush]
  split
  · exact h.flushChunk hw hf hc hK
  · rename_i hh
    have hh : s.fileHandle = none := by simpa using hh
    split
    · rename_i n hfd
      obtain rfl := hK.fd n hfd
      obtain ⟨ht, he⟩ := hK.writeAll hz
      have hT := h.store hw hf he (WriteStream.writeChunks n s.layer
        (s.chunks.map (Chunk.data s.memory))).2
      dsimp only
      split
      · exact hT.fail
      split
      · exact hT.closeUnderlying ht .finish
      · rename_i ha
        exact hT.finish fun hac => absurd hac ha
    · rename_i hfd
      split
      · exact h.fail
      · rename_i path hp
        have he : (s.layer.writeFile path (s.chunks.flatMap (Chunk.data s.memory))).entry number =
            s.layer.entry number := rfl
        exact (h.store hw hf he s.chunks.length).finish fun _ => hK.fdShut hh hfd

end Turn

/-! ### Runs -/

namespace WriteStream

variable {w : Target} {number : ℕ} {start : Option ℕ} {s : WriteStream} {notes : List Note}

theorem write_writableEnded (chunk : Chunk) : (s.write chunk).1.writableEnded = s.writableEnded := by
  rw [write]
  split
  · rfl
  split <;> rfl

/-- A microtask runs when no listener does. -/
theorem step_microtask {r : WriteStream × List Note} (hs : s.step .microtask = some r) :
    ∃ k rest, s.frames = [] ∧ s.microtasks = k :: rest ∧
      r = run { s with microtasks := rest } k := by
  cases hf : s.frames with
  | cons f rest => simp [step, hf] at hs
  | nil =>
      cases hm : s.microtasks with
      | nil => simp [step, hf, hm] at hs
      | cons k rest =>
          refine ⟨k, rest, rfl, rfl, ?_⟩
          simp only [step, hf, hm, Option.some.injEq] at hs
          exact hs.symm

theorem keeps_microtask {k : Task} {rest : List Task} (hf : s.frames = [])
    (hm : s.microtasks = k :: rest) (hC : s.Keeps w number start .microtask) :
    (k = .closeUnderlying → s.left.flatten = []) ∧
      (k = .flush → s.fileHandle = none → s.fd = none →
        ∀ path ∈ s.path, path = w.path → s.layer.files path = some []) := by
  simp only [Keeps, hf, hm] at hC
  constructor
  · rintro rfl
    exact hC
  · rintro rfl
    exact hC

/-- A buffer changes that no chunk to be stored is a view of. -/
theorem left_mutate {buffer : ℕ} {data : ByteArray8}
    (hC : .view buffer ∈ s.chunks.drop s.stored → data = s.memory buffer) :
    left { s with memory := update s.memory buffer data } = s.left := by
  refine List.map_congr_left fun chunk hc => ?_
  cases chunk with
  | bytes d => rfl
  | view b =>
      change update s.memory buffer data b = s.memory b
      by_cases hb : b = buffer
      · subst hb
        rw [update_self, hC hc]
      · rw [update_of_ne hb]

end WriteStream

namespace Kept

open WriteStream

variable {w : Target} {number : ℕ} {start : Option ℕ} {s : WriteStream} {notes : List Note}

variable (h : Kept w number start s notes)
include h

theorem «end» (hT : Turn number s) {chunk : Option Chunk}
    (hC : s.Keeps w number start (.end chunk)) :
    Kept w number start (s.end chunk).1 (notes ++ (s.end chunk).2) := by
  rw [WriteStream.end]
  split
  · rw [List.append_nil]
    exact h
  · cases chunk with
    | none =>
        rw [writeLast, List.append_nil]
        exact h.congr rfl rfl rfl rfl rfl rfl
    | some chunk => exact (h.write hT chunk hC).congr rfl rfl rfl rfl rfl rfl

theorem destroy (error : Bool) :
    Kept w number start (s.destroy error).1 (notes ++ (s.destroy error).2) := by
  rw [WriteStream.destroy]
  split
  · rw [List.append_nil]
    exact h
  · cases error with
    | true => exact (h.note (n := .error) (by simp) (by simp)).congr rfl rfl rfl rfl rfl rfl
    | false =>
        rw [if_neg Bool.false_ne_true, List.append_nil]
        exact h.congr rfl rfl rfl rfl rfl rfl

theorem afterListeners (f : Frame)
    (hf : f = .finish → s.autoClose = true → s.layer.entry number = none) :
    Kept w number start (s.afterListeners f).1 (notes ++ (s.afterListeners f).2) := by
  cases f with
  | finish =>
      rw [WriteStream.afterListeners]
      split
      · rename_i ha
        exact h.emitClose (hf rfl ha)
      · simpa using h
  | destroy =>
      rw [WriteStream.afterListeners, List.append_nil]
      exact h.congr rfl rfl rfl rfl rfl rfl
  | none => simpa [WriteStream.afterListeners] using h

theorem run {k : Task} (hz : k = .flush → s.stored = 0)
    (hc : (∃ j, k = .afterClose j) → s.layer.entry number = none)
    (hC : (k = .closeUnderlying → s.left.flatten = []) ∧
      (k = .flush → s.fileHandle = none → s.fd = none →
        ∀ path ∈ s.path, path = w.path → s.layer.files path = some [])) :
    Kept w number start (s.run k).1 (notes ++ (s.run k).2) := by
  cases k with
  | flush => exact h.flush (hz rfl) (hC.2 rfl)
  | flushChunk => exact h.flushChunk
  | closeUnderlying => exact h.closeUnderlying (hC.1 rfl) .close
  | afterClose j =>
      cases j with
      | close => exact h.emitClose (hc ⟨_, rfl⟩)
      | finish => exact h.finish

theorem step (hT : Turn number s) {a : Event}
    (hC : s.Keeps w number start a) {r : WriteStream × List Note} (hs : s.step a = some r) :
    Kept w number start r.1 (notes ++ r.2) := by
  cases a with
  | write chunk =>
      cases hs
      exact h.write hT chunk hC
  | «end» chunk =>
      cases hs
      exact h.end hT hC
  | close =>
      cases hs
      rw [List.append_nil]
      exact h.congr rfl rfl rfl rfl rfl rfl
  | destroy error =>
      cases hs
      exact h.destroy error
  | mutate buffer data =>
      cases hs
      rw [List.append_nil]
      exact h.congr rfl (left_mutate hC) rfl rfl rfl rfl
  | listenersReturn =>
      cases hf : s.frames with
      | nil => simp [WriteStream.step, hf] at hs
      | cons f rest =>
          simp only [WriteStream.step, hf, Option.some.injEq] at hs
          subst hs
          have ht : Kept w number start { s with frames := rest } notes :=
            h.congr rfl rfl rfl rfl rfl rfl
          refine ht.afterListeners f fun hfin ha => hT.shut (.inr (.inr ⟨?_, ha⟩))
          rw [hf, hfin]
          exact List.mem_cons_self
  | microtask =>
      obtain ⟨k, rest, hf, hm, rfl⟩ := step_microtask hs
      have ht : Kept w number start { s with microtasks := rest } notes :=
        h.congr rfl rfl rfl rfl rfl rfl
      have hk : k ∈ s.microtasks := hm ▸ List.mem_cons_self
      exact ht.run (fun he => hT.begin (.inr (he ▸ hk))) (fun ⟨j, he⟩ => hT.shut (.inl ⟨j, he ▸ hk⟩))
        (keeps_microtask (s := s) hf hm hC)
  | closeDone =>
      cases hc : s.closings with
      | nil => simp [WriteStream.step, hc] at hs
      | cons k rest =>
          simp only [WriteStream.step, hc, Option.some.injEq] at hs
          subst hs
          have hz : s.layer.entry number = none := hT.shut (.inr (.inl (by simp [hc])))
          rw [List.append_nil]
          exact {
            held := h.held
            length := h.length
            stored := h.stored
            left := h.left
            nil := h.nil
            start := h.start
            shut := h.shut
            fd := fun _ hn => nomatch hn
            fdShut := fun _ _ => hz
            handle := h.handle
            handleShut := h.handleShut
            close := h.close }

/-- Once `close` was emitted all is stored that has bytes. -/
theorem written (hc : .close ∈ notes) :
    (s.layer.files w.path).getD [] = w.content (w.prescribed start) (wrote notes) := by
  have hleft : ((wrote notes).drop s.stored).flatten = [] := by
    rw [← h.left]
    exact h.shut (h.close hc)
  have hall : ((wrote notes).take s.stored).flatten = (wrote notes).flatten := by
    rw [← List.append_nil (List.flatten _), ← hleft, ← List.flatten_append, List.take_append_drop]
  rw [h.held.content, Target.content, Target.content, hall]
  split
  · rfl
  · rename_i hne
    rw [h.start hne]

end Kept

namespace Turn

open WriteStream

variable {w : Target} {number : ℕ} {start : Option ℕ} {s : WriteStream} {notes : List Note}

variable (h : Turn number s)
include h

/-- `end` queues the loop, before anything is stored. -/
theorem begin_end (he : s.writableEnded = false) (n : ℕ) :
    Turn number
      (queueMicrotask { s with writableEnded := true, writableLength := n } .flush) where
  loop := by
    have hl := h.loop
    rw [he, Bool.toNat_false] at hl
    change (s.microtasks ++ [Task.flush]).count _ + (s.microtasks ++ [Task.flush]).count _ ≤ 1
    rw [List.count_append, List.count_append, List.count_singleton, List.count_singleton]
    simp only [beq_self_eq_true, if_true, reduceCtorEq, beq_iff_eq, if_false]
    omega
  begin := fun _ => h.begin (.inl he)
  shut := by
    rintro (⟨j, hm⟩ | hs)
    · rcases List.mem_append.mp hm with hm | hm
      · exact h.shut (.inl ⟨j, hm⟩)
      · cases List.mem_singleton.mp hm
    · exact h.shut (.inr hs)

theorem «end» (chunk : Option Chunk) : Turn number (s.end chunk).1 := by
  rw [WriteStream.end]
  split
  · exact h
  · rename_i he
    have he : s.writableEnded = false := by simpa using he
    cases chunk with
    | none => exact h.begin_end he 0
    | some chunk => exact (h.write chunk).begin_end (by rw [write_writableEnded, he]) 0

theorem destroy (error : Bool) : Turn number (s.destroy error).1 := by
  rw [WriteStream.destroy]
  split
  · exact h
  · have ht : Turn number { s with destroyed := true } := ⟨h.loop, h.begin, h.shut⟩
    cases error with
    | true => exact ht.emit (by simp)
    | false => exact ht.queue (by simp) (by simp) (by simp)

theorem afterListeners (f : Frame) : Turn number (s.afterListeners f).1 := by
  cases f with
  | finish =>
      rw [WriteStream.afterListeners]
      split
      · exact h.emitClose
      · exact h
  | destroy => exact h.queue (by simp) (by simp) (by simp)
  | none => exact h

/-- A microtask runs. -/
theorem run (hK : Kept w number start s notes) {k : Task} {rest : List Task}
    (hm : s.microtasks = k :: rest) : Turn number (run { s with microtasks := rest } k).1 := by
  have ht := h.pop hm
  have htK : Kept w number start { s with microtasks := rest } notes :=
    hK.congr rfl rfl rfl rfl rfl rfl
  cases k with
  | flush =>
      obtain ⟨hw, hf, hc⟩ := h.pop_loop hm (.inl rfl)
      exact ht.flush hw hf hc htK (h.begin (.inr (hm ▸ List.mem_cons_self)))
  | flushChunk =>
      obtain ⟨hw, hf, hc⟩ := h.pop_loop hm (.inr rfl)
      exact ht.flushChunk hw hf hc htK
  | closeUnderlying => exact ht.closeUnderlying htK .close
  | afterClose j =>
      have hz : s.layer.entry number = none := h.shut (.inl ⟨j, hm ▸ List.mem_cons_self⟩)
      cases j with
      | close => exact ht.emitClose
      | finish => exact ht.finish fun _ => hz

theorem step (hK : Kept w number start s notes) {a : Event}
    {r : WriteStream × List Note} (hs : s.step a = some r) : Turn number r.1 := by
  cases a with
  | write chunk =>
      cases hs
      exact h.write chunk
  | «end» chunk =>
      cases hs
      exact h.end chunk
  | close =>
      cases hs
      exact h.queue (by simp) (by simp) (by simp)
  | destroy error =>
      cases hs
      exact h.destroy error
  | mutate buffer data =>
      cases hs
      exact ⟨h.loop, h.begin, h.shut⟩
  | listenersReturn =>
      cases hf : s.frames with
      | nil => simp [WriteStream.step, hf] at hs
      | cons f rest =>
          simp only [WriteStream.step, hf, Option.some.injEq] at hs
          subst hs
          have ht : Turn number { s with frames := rest } := by
            refine ⟨h.loop, h.begin, ?_⟩
            rintro (ha | hc | ⟨hm, hac⟩)
            · exact h.shut (.inl ha)
            · exact h.shut (.inr (.inl hc))
            · exact h.shut (.inr (.inr ⟨hf ▸ List.mem_cons_of_mem _ hm, hac⟩))
          exact ht.afterListeners f
  | microtask =>
      obtain ⟨k, rest, -, hm, rfl⟩ := step_microtask hs
      exact h.run hK hm
  | closeDone =>
      cases hc : s.closings with
      | nil => simp [WriteStream.step, hc] at hs
      | cons k rest =>
          simp only [WriteStream.step, hc, Option.some.injEq] at hs
          subst hs
          have hz : s.layer.entry number = none := h.shut (.inr (.inl (by simp [hc])))
          have ht : Turn number { s with fd := none, closings := rest } := h.of_shut hz rfl rfl rfl
          exact ht.queue (by simp) (by simp) fun _ => hz

end Turn

/-! ### The start of a run -/

section Start

open WriteStream

variable {layer layer' : FdLayer} {n : ℕ}

/-- A file that is opened keeps its content, and the descriptor stands at its start. -/
theorem open_ok {path : String} {flags : Flags}
    (h : layer.open path flags = (.ok (.fd n), layer')) :
    layer'.files = layer.files ∧ ∀ e ∈ layer'.entry n, (layer'.desc e.description).path = path ∧
      (layer'.desc e.description).flags = flags &&& ~~~O_CLOEXEC ∧
      (layer'.desc e.description).cursor = 0 := by
  rw [FdLayer.open] at h
  split at h
  · cases h
  · rename_i t ht
    cases ha : t.allocateFd with
    | error e =>
        simp only [FDTableManager.openIn, ha] at h
        cases h
    | ok a =>
        simp only [FDTableManager.openIn, ha] at h
        cases h
        refine ⟨rfl, fun e he => ?_⟩
        have he' : e = ⟨layer.fds.descs.next, FILETYPE_REGULAR_FILE, flags.has O_CLOEXEC⟩ := by
          change ((OMap.set _ pid _).get pid).bind _ = some e at he
          rw [OMap.get_set_self, Option.bind_some] at he
          change (OMap.set _ _ _).get _ = some e at he
          rw [OMap.get_set_self] at he
          exact (Option.some.inj he).symm
        subst he'
        have hd : FdLayer.desc { layer with
            fds := (layer.fds.allocDesc path (flags &&& ~~~O_CLOEXEC)).2 } layer.fds.descs.next =
            ⟨layer.fds.nextDescriptionId, path, 0, flags &&& ~~~O_CLOEXEC, 1, none⟩ :=
          update_self ..
        exact ⟨congrArg FileDescription.path hd, congrArg FileDescription.flags hd,
          congrArg FileDescription.cursor hd⟩

/-- What `fdOpen` leaves of a file. -/
theorem fdOpen_ok {path : String} {flags : Flags}
    (h : Guest.fdOpen layer path flags = (.ok (.fd n), layer')) :
    (layer'.files path).getD [] =
        (if flags.has O_TRUNC then [] else (layer.files path).getD []) ∧
      ∀ e ∈ layer'.entry n, (layer'.desc e.description).path = path ∧
        (layer'.desc e.description).flags = flags &&& ~~~O_CLOEXEC ∧
        (layer'.desc e.description).cursor = 0 := by
  rw [Guest.fdOpen] at h
  split at h
  · rename_i hf
    split at h
    · obtain ⟨hfiles, he⟩ := open_ok h
      refine ⟨?_, he⟩
      rw [hfiles, hf]
      change (update layer.files path _ path).getD [] = _
      rw [update_self]
      simp
    · cases h
  · split at h
    · rename_i ht
      obtain ⟨hfiles, he⟩ := open_ok h
      refine ⟨?_, he⟩
      rw [hfiles, if_pos ht]
      change (update layer.files path _ path).getD [] = _
      rw [update_self]
      rfl
    · rename_i ht
      obtain ⟨hfiles, he⟩ := open_ok h
      exact ⟨by rw [hfiles, if_neg ht], he⟩

theorem Held.new {w : Target} (hb : (layer.files w.path).getD [] = w.base)
    (he : ∀ e ∈ layer.entry n, (layer.desc e.description).path = w.path ∧
      (layer.desc e.description).flags = w.flags ∧
      (layer.desc e.description).cursor = w.cursor) : Held w n layer [] where
  content := by rw [hb, Target.content, if_pos List.flatten_nil]
  entry e hm := by
    obtain ⟨hp, hf, hc⟩ := he e hm
    refine ⟨hp, hf, ?_⟩
    by_cases ha : w.flags.has O_APPEND = true
    · exact .inl ha
    · refine .inr ?_
      rw [Target.offset, Target.prescribed, if_neg ha, hc]
      rfl

/-- A stream of an open descriptor, or of a `FileHandle`. -/
theorem Kept.new {w : Target} (h : Held w n layer []) (memory : Memory) (path : Option String)
    {fileHandle : Option (Option ℕ)} (hh : fileHandle = none ∨ fileHandle = some (some n))
    (autoClose : Bool) (start : Option ℕ) :
    Kept w n start (.new layer memory path (some n) fileHandle autoClose) [] where
  held := h
  length := rfl
  stored := Nat.le_refl _
  left := rfl
  nil := fun hm => nomatch hm
  start := fun hne => absurd rfl hne
  shut := fun _ => rfl
  fd := fun m hm => (Option.some.inj hm).symm
  fdShut := fun _ hf => nomatch hf
  handle := fun m hm => by
    have hm : fileHandle = some (some m) := hm
    rcases hh with rfl | rfl
    · cases hm
    · cases hm
      rfl
  handleShut := fun hm => by
    have hm : fileHandle = some none := hm
    rcases hh with rfl | rfl
    · cases hm
    · cases hm
  close := fun hm => nomatch hm

theorem Turn.new (memory : Memory) (path : Option String) (fd : Option ℕ)
    (fileHandle : Option (Option ℕ)) (autoClose : Bool) :
    Turn n (.new layer memory path fd fileHandle autoClose) where
  loop := Nat.le_refl _
  begin := fun _ => rfl
  shut := by
    rintro (⟨j, hm⟩ | hc | ⟨hm, -⟩)
    · cases hm
    · exact absurd rfl hc
    · cases hm

/-- A stream that has been made. -/
theorem construct_ok {memory : Memory} {source : Source} {autoClose : Bool} {s₀ : WriteStream}
    (h : construct layer memory source autoClose = .ok s₀) (start : Option ℕ) :
    ∃ n, s₀.fd = some n ∧ Kept (source.target layer) n start s₀ [] ∧ Turn n s₀ := by
  have hopened : ∀ m, Held ((fd none m).target layer) m layer [] := fun m => by
    cases he : layer.entry m with
    | none =>
        refine Held.new ?_ fun e hm => ?_
        · simp [target, he]
        · rw [he] at hm
          cases hm
    | some e =>
        refine Held.new ?_ fun e' hm => ?_
        · simp [target, he]
        · rw [he] at hm
          cases hm
          simp [target, he]
  cases source with
  | path path flags =>
      rw [construct] at h
      split at h
      · rename_i n layer' ho
        cases h
        obtain ⟨hb, he⟩ := fdOpen_ok ho
        exact ⟨n, rfl, .new (.new hb he) memory _ (.inl rfl) autoClose start, .new ..⟩
      · cases h
      · cases h
  | fd path m =>
      cases h
      exact ⟨m, rfl, .new (hopened m) memory path (.inl rfl) autoClose start, .new ..⟩
  | handle path m =>
      cases h
      exact ⟨m, rfl, .new (hopened m) memory path (.inr rfl) autoClose start, .new ..⟩

end Start

/-- **Acknowledged data.**  In a run whose steps meet `Keeps`, once `close` was emitted the file
holds the chunks whose callback reported no error, in order and once, where the flags and `start` put
them. -/
theorem writes_kept {layer : FdLayer} {memory : Memory} {source : Source} {autoClose : Bool}
    {s₀ : WriteStream} (h : construct layer memory source autoClose = .ok s₀)
    (start : Option ℕ) {p : WriteStream × List Note}
    (r : Reach (recorded step)
      (fun p a => p.1.Keeps (source.target layer) (s₀.fd.getD 0) start a) (s₀, []) p)
    (hc : .close ∈ p.2) :
    (p.1.layer.files (source.target layer).path).getD [] =
      (source.target layer).content ((source.target layer).prescribed start) (wrote p.2) := by
  obtain ⟨n, hn, hK, hT⟩ := construct_ok h start
  rw [hn, Option.getD_some] at r
  have hi : Kept (source.target layer) n start p.1 p.2 ∧ Turn n p.1 := by
    refine r.invariant (I := fun p => Kept (source.target layer) n start p.1 p.2 ∧ Turn n p.1)
      ⟨hK, hT⟩ ?_
    intro p a q ⟨hK, hT⟩ hC hs
    obtain ⟨r, hr, rfl⟩ := recorded_eq_some.mp hs
    have hT' : Turn n r.1 := hT.step hK hr
    exact ⟨hK.step hT hC hr, hT'⟩
  exact hi.1.written hc

section Three

open WriteStream

/-- A file of three bytes. -/
def three : FdLayer := .init fun path => if path = "/f" then some [1, 2, 3] else none

/-- What is left of the file of a stream, with a buffer that holds `[8]`, and what is reported. -/
def outcome (flags : Flags)
    (run : WriteStream × List Note → Option (WriteStream × List Note)) :
    Option (ByteArray8 × List Note) :=
  (construct three (fun _ => [8]) (.path "/f" flags) true).toOption.bind fun s₀ =>
    (run (s₀, [])).map fun p => ((p.1.layer.files "/f").getD [], p.2)

theorem outcome_eq_some {flags : Flags}
    {run : WriteStream × List Note → Option (WriteStream × List Note)}
    {x : ByteArray8 × List Note} (h : outcome flags run = some x) :
    ∃ s₀ p, construct three (fun _ => [8]) (.path "/f" flags) true = .ok s₀ ∧
      run (s₀, []) = some p ∧ (p.1.layer.files "/f").getD [] = x.1 ∧ p.2 = x.2 := by
  obtain ⟨s₀, hs, h⟩ := Option.bind_eq_some_iff.mp h
  obtain ⟨p, hp, rfl⟩ := Option.map_eq_some_iff.mp h
  refine ⟨s₀, p, ?_, hp, rfl, rfl⟩
  cases hc : construct three (fun _ => [8]) (.path "/f" flags) true with
  | error e =>
      rw [hc] at hs
      cases hs
  | ok s =>
      rw [hc] at hs
      cases hs
      rfl

end Three

/-- Two chunks to a file that is truncated, the second from a buffer. -/
theorem writes_kept_two : ∃ p : WriteStream × List Note,
    p.2 = [.wrote [7], .wrote [8], .finish, .close] ∧
      (p.1.layer.files "/f").getD [] =
        Target.content ⟨"/f", O_WRONLY ||| O_TRUNC, [], 0⟩ 0 [[7], [8]] := by
  have h : outcome (O_WRONLY ||| O_TRUNC) (fun p =>
      execIf (recorded step)
        (fun q a => q.1.Keeps ((path "/f" (O_WRONLY ||| O_TRUNC)).target three)
          (p.1.fd.getD 0) (some 0) a) p
        [.write (.bytes [7]), .end (some (.view 0)), .microtask, .closeDone, .mutate 0 [9],
          .microtask, .listenersReturn, .listenersReturn]) =
      some ([7, 8], [.wrote [7], .wrote [8], .finish, .close]) := by decide +kernel
  obtain ⟨s₀, p, hs, hp, -, hn⟩ := outcome_eq_some h
  have hk := writes_kept hs (some 0) (.of_execIf hp) (by rw [hn]; decide)
  rw [hn] at hk
  exact ⟨p, hn, hk⟩

/-- A run of a stream of the file, opened to be read and written, that does not leave in it what it
acknowledges. -/
def Loses (start : Option ℕ) (notes : List Note) : Prop :=
  let w := (path "/f" O_RDWR).target three
  ∃ s₀ p, construct three (fun _ => [8]) (.path "/f" O_RDWR) true = .ok s₀ ∧
    Reach (recorded step) Any (s₀, []) p ∧ p.2 = notes ∧
    (p.1.layer.files "/f").getD [] ≠ w.content (w.prescribed start) (wrote notes)

theorem loses_of_outcome {start : Option ℕ} {as : List Event} {x : ByteArray8 × List Note}
    (h : outcome O_RDWR (fun p => exec (recorded step) p as) = some x)
    (hx : x.1 ≠ ((path "/f" O_RDWR).target three).content
      (((path "/f" O_RDWR).target three).prescribed start) (wrote x.2)) :
    Loses start x.2 := by
  obtain ⟨s₀, p, hs, hp, hf, hn⟩ := outcome_eq_some h
  exact ⟨s₀, p, hs, .of_exec hp, hn, hf ▸ hx⟩

/-- **Acknowledged data are lost.**  `start` is not used; a stream that is closed before `end` stores
nothing; and of a buffer that is used again the stream stores what it holds later. -/
theorem data_lost : Loses (some 1) [.wrote [7], .finish, .close] ∧
    Loses none [.wrote [7], .close] ∧ Loses none [.wrote [8], .finish, .close] := by
  have h₁ : outcome O_RDWR (fun p => exec (recorded step) p
      [.write (.bytes [7]), .end none, .microtask, .closeDone, .microtask, .listenersReturn]) =
      some ([7, 2, 3], [.wrote [7], .finish, .close]) := by decide +kernel
  have h₂ : outcome O_RDWR (fun p => exec (recorded step) p
      [.write (.bytes [7]), .close, .microtask, .closeDone, .microtask]) =
      some ([1, 2, 3], [.wrote [7], .close]) := by decide +kernel
  have h₃ : outcome O_RDWR (fun p => exec (recorded step) p
      [.write (.view 0), .mutate 0 [9], .end none, .microtask, .closeDone, .microtask,
        .listenersReturn]) =
      some ([9, 2, 3], [.wrote [8], .finish, .close]) := by decide +kernel
  exact ⟨loses_of_outcome h₁ (by decide +kernel), loses_of_outcome h₂ (by decide +kernel),
    loses_of_outcome h₃ (by decide +kernel)⟩

end Streams.Writing
