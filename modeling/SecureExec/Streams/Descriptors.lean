import SecureExec.Streams.ReadStream

/-!
# Streams — Descriptors — a stream closes what it opened

The descriptor of a `ReadStream` with `autoClose`, in any run of its calls and callbacks.

* `Owning`: what a step has to meet: an open that succeeds comes before the closing has looked at the
  descriptor, and a read with data before the stream is destroyed; of a `FileHandle`, `close` does not
  reject, nor is it closed by a listener of the abort.
* `Inv`: where the closing of the stream stands, and what it has closed.
* `descriptors_owned`: in a run of such steps what was opened is closed once, then `close` is
  emitted, and `data` is not emitted after `destroy`.
-/

namespace Streams
open Lts ReadStream

/-! ### What a run shows -/

/-- The descriptors that `open` gave. -/
def openedFds (notes : List Note) : List ℕ :=
  notes.filterMap fun n => match n with
    | .open n => some n
    | _ => none

/-- The descriptor that the stream is given; that of a handle stays the handle's. -/
def Source.given : Source → Option ℕ
  | .fd n => some n
  | _ => none

/-- The descriptors of the stream: the one it was given, and those it opened. -/
def fds (fd : Option ℕ) (notes : List Note) : List ℕ := fd.toList ++ openedFds notes

def closedFds (notes : List Note) : List ℕ :=
  notes.filterMap fun n => match n with
    | .closedFd n => some n
    | _ => none

/-- The reading is over: `end`, `error`, or `destroy`. -/
def Note.IsOver : Note → Prop
  | .end | .error | .destroyed => True
  | _ => False

/-- What may follow what: no data after `destroy`, and no descriptor after `close`. -/
def Note.MayPrecede : Note → Note → Prop
  | .destroyed, .data _ => False
  | .close, .open _ | .close, .closedFd _ => False
  | _, _ => True

instance : DecidablePred Note.IsOver := fun n => by
  cases n <;> unfold Note.IsOver <;> infer_instance

/-- Nothing that the stream does is still to come. -/
def ReadStream.Quiet (s : ReadStream) : Prop :=
  s.frames = [] ∧ s.microtasks = [] ∧ s.closing = false

instance : DecidablePred ReadStream.Quiet := fun _ => inferInstanceAs (Decidable (_ ∧ _ ∧ _))

/-- The stream owns its descriptors. -/
structure Owned (fd : Option ℕ) (s : ReadStream) (notes : List Note) : Prop where
  /-- None is closed twice, nor one that is not the stream's. -/
  once : closedFds notes <+: fds fd notes
  close : notes.count .close ≤ 1
  /-- All are closed before `close`. -/
  closed : .close ∈ notes → closedFds notes = fds fd notes
  /-- What is over is closed. -/
  ended : (∃ n ∈ notes, n.IsOver) → s.Quiet → .close ∈ notes
  ordered : notes.Pairwise Note.MayPrecede

/-! ### Where the closing stands -/

namespace ReadStream

/-- The steps that are still to come before the closing looks at the descriptor. -/
def before (s : ReadStream) : ℕ := s.frames.count .destroy + s.microtasks.count .closeUnderlying

/-- It has looked: the descriptor is being closed, is closed, or `close` was emitted. -/
def after (s : ReadStream) : ℕ := s.closing.toNat + s.microtasks.count .closed + s.closed.toNat

/-- What a step has to meet. -/
def Owning (s : ReadStream) : Event → Prop
  | .opened (some _) => s.closing = false ∧ .closed ∉ s.microtasks ∧ s.closed = false
  | .readDone (some data) => data = [] ∨ s.destroyed = false
  | .microtask => s.microtasks.head? = some .closeUnderlying → s.fd = .handle .lost → s.closed = true
  | .listenersReturn => s.frames.head? = some .abort → s.fd.isHandle = true → s.closed = false
  | _ => True

instance : ∀ (s : ReadStream) (a : Event), Decidable (s.Owning a) := by
  intro s a
  unfold Owning
  split <;> infer_instance

end ReadStream

/-- A frame that ends in the call of `destroy`. -/
def Frame.Ends (f : Frame) : Prop := f = .finishReadable ∨ f = .handleStreamError ∨ f = .abort

/-- What a run keeps. -/
structure Inv (fd : Option ℕ) (s : ReadStream) (notes : List Note) : Prop where
  tokens : s.destroyed.toNat ≤ s.before + s.after ∧
    (s.fd.isHandle = false → s.before + s.after ≤ s.destroyed.toNat)
  closes : notes.count .close = s.closed.toNat
  destroys : .destroyed ∈ notes → s.destroyed = true
  null : s.fd = .null ∨ s.fd.isHandle = true → fds fd notes = [] ∧ closedFds notes = [] ∧ s.closing = false
  «open» : ∀ n, s.fd = .open n →
    fds fd notes = [n] ∧ s.after = s.closing.toNat ∧ closedFds notes = if s.closing then [n] else []
  closed : s.fd = .closed → closedFds notes = fds fd notes ∧ s.closing = false ∧ s.after = 1
  opening : s.opening = true → s.fd = .null
  ordered : notes.Pairwise Note.MayPrecede

/-- What is over has called `destroy`, or will. -/
def Ending (s : ReadStream) (notes : List Note) : Prop :=
  (∃ n ∈ notes, n.IsOver) → s.destroyed = true ∨ ∃ f ∈ s.frames, f.Ends

/-! ### Notes -/

@[simp] theorem openedFds_append (l m : List Note) :
    openedFds (l ++ m) = openedFds l ++ openedFds m := List.filterMap_append

@[simp] theorem closedFds_append (l m : List Note) :
    closedFds (l ++ m) = closedFds l ++ closedFds m := List.filterMap_append

@[simp] theorem fds_append (fd : Option ℕ) (l m : List Note) :
    fds fd (l ++ m) = fds fd l ++ openedFds m := by
  rw [fds, openedFds_append, ← List.append_assoc, fds]

@[simp] theorem openedFds_close : openedFds [.close] = [] := rfl
@[simp] theorem openedFds_destroyed : openedFds [.destroyed] = [] := rfl
@[simp] theorem closedFds_close : closedFds [.close] = [] := rfl
@[simp] theorem closedFds_destroyed : closedFds [.destroyed] = [] := rfl

/-- A note that may come after those there are. -/
theorem ordered_append {l : List Note} (h : l.Pairwise Note.MayPrecede) {n : Note}
    (hn : ∀ m ∈ l, m.MayPrecede n) : (l ++ [n]).Pairwise Note.MayPrecede := by
  refine List.pairwise_append.mpr ⟨h, List.pairwise_singleton _ _, fun m hm k hk => ?_⟩
  cases List.mem_singleton.mp hk
  exact hn m hm

/-! ### The methods -/

namespace ReadStream

variable {fd : Option ℕ} {s : ReadStream} {notes : List Note} {o : Range}

theorem before_queue (t : Task) :
    (s.queueMicrotask t).before = s.before + if t = .closeUnderlying then 1 else 0 := by
  simp only [before, queueMicrotask, List.count_append, List.count_singleton, beq_iff_eq]
  rw [Nat.add_assoc]

theorem after_queue (t : Task) :
    (s.queueMicrotask t).after = s.after + if t = .closed then 1 else 0 := by
  simp only [after, queueMicrotask, List.count_append, List.count_singleton, beq_iff_eq]
  omega

theorem before_emit (f : Frame) :
    (s.emit f).before = s.before + if f = .destroy then 1 else 0 := by
  simp only [before, emit, List.count_cons, beq_iff_eq]
  rw [Nat.add_right_comm]

theorem after_eq_zero :
    s.after = 0 ↔ s.closing = false ∧ .closed ∉ s.microtasks ∧ s.closed = false := by
  rw [after, ← List.count_eq_zero]
  cases s.closing <;> cases s.closed <;> simp

end ReadStream

namespace Inv

open ReadStream

variable {fd : Option ℕ} {s t : ReadStream} {notes : List Note} {o : Range}

section

variable (h : Inv fd s notes)
include h

/-- What does not concern the descriptor. -/
theorem congr (hb : t.before = s.before) (ha : t.after = s.after)
    (hd : t.destroyed = s.destroyed) (hc : t.closed = s.closed) (hf : t.fd = s.fd)
    (hk : t.closing = s.closing) (ho : t.opening = true → s.fd = .null) : Inv fd t notes where
  tokens := by rw [hb, ha, hd, hf]; exact h.tokens
  closes := by rw [hc]; exact h.closes
  destroys := by rw [hd]; exact h.destroys
  null := by rw [hf, hk]; exact h.null
  «open» := by rw [hf, ha, hk]; exact h.open
  closed := by rw [hf, ha, hk]; exact h.closed
  opening := by rw [hf]; exact ho
  ordered := h.ordered

/-- An event of the stream that is not about its descriptor. -/
theorem note {n : Note}
    (hn : n = .end ∨ n = .error ∨ s.destroyed = false ∧ ∃ c, n = .data c) :
    Inv fd s (notes ++ [n]) := by
  have hm : ∀ m ∈ notes, m.MayPrecede n := by
    intro m hm
    rcases hn with rfl | rfl | ⟨hd, c, rfl⟩
    · cases m <;> trivial
    · cases m <;> trivial
    · cases m <;> try trivial
      rw [h.destroys hm] at hd
      cases hd
  have ho : openedFds [n] = [] := by rcases hn with rfl | rfl | ⟨_, c, rfl⟩ <;> rfl
  have hc : closedFds [n] = [] := by rcases hn with rfl | rfl | ⟨_, c, rfl⟩ <;> rfl
  have hne : Note.close ≠ n ∧ Note.destroyed ≠ n := by
    rcases hn with rfl | rfl | ⟨_, c, rfl⟩ <;> simp
  have hf : fds fd (notes ++ [n]) = fds fd notes := by rw [fds_append, ho, List.append_nil]
  have hk : closedFds (notes ++ [n]) = closedFds notes := by
    rw [closedFds_append, hc, List.append_nil]
  exact {
    tokens := h.tokens
    closes := by
      rw [List.count_append, List.count_singleton, h.closes]
      simp [hne.1.symm]
    destroys := by simpa [hne.2] using h.destroys
    null := by rw [hf, hk]; exact h.null
    «open» := by rw [hf, hk]; exact h.open
    closed := by rw [hf, hk]; exact h.closed
    opening := h.opening
    ordered := ordered_append h.ordered hm }

theorem scheduleRead : Inv fd s.scheduleRead notes := by
  rw [ReadStream.scheduleRead]
  split
  · exact h
  · refine h.congr ?_ ?_ rfl rfl rfl rfl h.opening
    · rw [before_queue]; rfl
    · rw [after_queue]; rfl

theorem openIfNeeded : Inv fd s.openIfNeeded notes := by
  rw [ReadStream.openIfNeeded]
  split
  · exact h
  · rename_i hg
    exact h.congr rfl rfl rfl rfl rfl rfl fun _ => by simp_all

/-- A frame whose method does not close the stream itself. -/
theorem emit {f : Frame} (hf : f ≠ .destroy) : Inv fd (s.emit f) notes := by
  refine h.congr ?_ rfl rfl rfl rfl rfl h.opening
  rw [before_emit, if_neg hf, Nat.add_zero]

theorem finishReadable :
    Inv fd s.finishReadable.1 (notes ++ s.finishReadable.2) := by
  rw [ReadStream.finishReadable]
  split
  · simpa using h
  · have ht : Inv fd { s with readable := false, readableEnded := true } notes :=
      h.congr rfl rfl rfl rfl rfl rfl h.opening
    exact (ht.emit (by simp)).note (.inl rfl)

theorem handleStreamError :
    Inv fd s.handleStreamError.1 (notes ++ s.handleStreamError.2) := by
  rw [ReadStream.handleStreamError]
  split
  · simpa using h
  · exact (h.emit (by simp)).note (.inr (.inl rfl))

theorem abort : Inv fd s.abort.1 (notes ++ s.abort.2) := by
  rw [ReadStream.abort]
  split
  · simpa using h
  · exact (h.emit (by simp)).note (.inr (.inl rfl))

/-- `destroy` was called, and what it does next closes the stream. -/
theorem destroyed (hs : s.destroyed = false)
    (hb : t.before = s.before + 1) (ha : t.after = s.after) (hd : t.destroyed = true)
    (hc : t.closed = s.closed) (hf : t.fd = s.fd) (hk : t.closing = s.closing)
    (ho : t.opening = s.opening) : Inv fd t (notes ++ [.destroyed]) := by
  have ht := h.tokens.2
  rw [hs] at ht
  exact {
    tokens := by
      rw [hb, ha, hd, hf, Nat.add_right_comm]
      exact ⟨Nat.le_add_left _ _, fun hh => Nat.succ_le_succ (ht hh)⟩
    closes := by rw [hc, ← h.closes]; simp
    destroys := fun _ => hd
    null := by rw [hf, hk]; simpa using h.null
    «open» := by rw [hf, ha, hk]; simpa using h.open
    closed := by rw [hf, ha, hk]; simpa using h.closed
    opening := by rw [hf, ho]; exact h.opening
    ordered := ordered_append h.ordered fun m _ => by cases m <;> trivial }

theorem destroy (error : Bool) :
    Inv fd (s.destroy error).1 (notes ++ (s.destroy error).2) := by
  rw [ReadStream.destroy]
  split
  · simpa using h
  · rename_i hs
    have hs : s.destroyed = false := by simpa using hs
    split
    · have hd := h.destroyed (t := ReadStream.emit { s with destroyed := true, readable := false } .destroy)
        hs (by rw [before_emit]; rfl) rfl rfl rfl rfl rfl rfl
      rw [List.append_cons]
      exact hd.note (.inr (.inl rfl))
    · exact h.destroyed hs (by rw [before_queue]; rfl) (by rw [after_queue]; rfl) rfl rfl rfl rfl rfl

end

/-- A handle concerns no descriptor of the stream. -/
theorem of_handle (h : Inv fd s notes) (hs : s.fd.isHandle = true) (ht : t.fd.isHandle = true)
    (htokens : t.destroyed.toNat ≤ t.before + t.after) (hd : s.destroyed = true → t.destroyed = true)
    (hc : t.closed = s.closed) (hk : t.closing = s.closing) (ho : t.opening = s.opening) :
    Inv fd t notes where
  tokens := ⟨htokens, fun hf => nomatch hf.symm.trans ht⟩
  closes := by rw [hc]; exact h.closes
  destroys hm := hd (h.destroys hm)
  null _ := by rw [hk]; exact h.null (.inr hs)
  «open» n hn := by rw [hn] at ht; cases ht
  closed hn := by rw [hn] at ht; cases ht
  opening hop := by
    rw [ho] at hop
    rw [h.opening hop] at hs
    cases hs
  ordered := h.ordered

theorem one_le_after (hc : s.closed = true) (n : ℕ) : s.destroyed.toNat ≤ n + s.after := by
  have hd := Bool.toNat_le s.destroyed
  simp only [after, hc, Bool.toNat_true]
  omega

/-- `close` is emitted by a stream of a handle. -/
theorem close_handle (h : Inv fd s notes) (hs : s.fd.isHandle = true) (hsc : s.closed = false)
    (ht : t.fd.isHandle = true) (hd : s.destroyed = true → t.destroyed = true)
    (hc : t.closed = true) (hk : t.closing = s.closing) (ho : t.opening = s.opening) :
    Inv fd t (notes ++ [.close]) := by
  exact {
    tokens := ⟨one_le_after hc _, fun hf => nomatch hf.symm.trans ht⟩
    closes := by rw [List.count_append, h.closes, hsc, hc]; rfl
    destroys := fun hm => hd (h.destroys (by simpa using hm))
    null := fun _ => by rw [hk]; simpa using h.null (.inr hs)
    «open» := fun n hn => by rw [hn] at ht; cases ht
    closed := fun hn => by rw [hn] at ht; cases ht
    opening := fun hop => by
      rw [ho] at hop
      rw [h.opening hop] at hs
      cases hs
    ordered := ordered_append h.ordered fun m _ => by cases m <;> trivial }

/-- The handle is closed. -/
theorem handleClosed {l : List Task} (h : Inv fd { s with microtasks := l } notes)
    (hs : s.fd = .handle .open) : Inv fd s.handleClosed.1 (notes ++ s.handleClosed.2) := by
  have hh : s.fd.isHandle = true := by rw [hs]; rfl
  rw [ReadStream.handleClosed]
  dsimp only
  split
  · rename_i hc
    rw [List.append_nil]
    exact h.of_handle hh rfl (one_le_after hc _) id rfl rfl rfl
  · rename_i hc
    exact h.close_handle hh (eq_false_of_ne_true hc) rfl (fun _ => rfl) rfl rfl rfl

/-- Nothing is closed yet, when the closing is about to look. -/
theorem unlooked (h : Inv fd { s with microtasks := .closeUnderlying :: s.microtasks } notes)
    (hf : s.fd.isHandle = false) : s.destroyed = true ∧ s.before = 0 ∧ s.after = 0 := by
  have ht := Nat.le_antisymm (h.tokens.2 hf) h.tokens.1
  have hb : before { s with microtasks := .closeUnderlying :: s.microtasks } =
      s.before + 1 := by
    simp only [before, List.count_cons, beq_self_eq_true, if_true, Nat.add_assoc]
  have ha : after { s with microtasks := .closeUnderlying :: s.microtasks } = s.after := by
    simp [after]
  rw [hb, ha] at ht
  cases hd : s.destroyed with
  | false => simp [hd] at ht
  | true =>
      rw [hd, Bool.toNat_true] at ht
      exact ⟨rfl, by omega, by omega⟩

/-- `close` was not emitted, when the closing has not looked. -/
theorem not_close (h : Inv fd s notes) (hc : s.closed = false) {m : Note} (hm : m ∈ notes) :
    m ≠ .close := by
  rintro rfl
  have hp : 0 < notes.count .close := List.count_pos_iff.mpr hm
  rw [h.closes, hc] at hp
  cases hp

/-- The closing looks at the descriptor. -/
theorem closeUnderlying
    (h : Inv fd { s with microtasks := .closeUnderlying :: s.microtasks } notes)
    (hC : s.fd = .handle .lost → s.closed = true) :
    Inv fd s.closeUnderlying.1 (notes ++ s.closeUnderlying.2) := by
  rw [ReadStream.closeUnderlying]
  split
  · rename_i n hf
    have hh : s.fd.isHandle = false := by rw [hf]; rfl
    obtain ⟨hd, hb, ha⟩ := h.unlooked hh
    obtain ⟨hk, hq, hc⟩ := after_eq_zero.mp ha
    obtain ⟨hfds, -, hcl⟩ := h.open n hf
    have hat : ReadStream.after { s with closing := true } = 1 := by
      simp only [after, List.count_eq_zero.mpr hq, hc]
      rfl
    have hz : closedFds notes = [] := by simpa [hk] using hcl
    exact {
      tokens := by
        have e : s.before + 1 = s.destroyed.toNat := by rw [hb, hd]; rfl
        rw [hat]
        exact ⟨Nat.le_of_eq e.symm, fun _ => Nat.le_of_eq e⟩
      closes := by simpa using h.closes
      destroys := by simpa using h.destroys
      null := fun hn => by
        rcases hn with hn | hn
        · cases hf.symm.trans hn
        · cases hh.symm.trans hn
      «open» := fun m hm => by
        cases hf.symm.trans hm
        refine ⟨?_, hat, ?_⟩
        · rw [fds_append, hfds]
          rfl
        · rw [closedFds_append, hz]
          rfl
      closed := fun hn => nomatch hf.symm.trans hn
      opening := fun hn => nomatch hf.symm.trans (h.opening hn)
      ordered := ordered_append h.ordered fun m hm => by
        cases m <;> try trivial
        exact absurd rfl (h.not_close hc hm) }
  · rename_i hf
    exact h.handleClosed hf
  · rename_i hf
    have hh : s.fd.isHandle = true := by rw [hf]; rfl
    rw [List.append_nil]
    exact h.of_handle hh hh (one_le_after (hC hf) _) id rfl rfl rfl
  · rename_i hf _ _
    rw [List.append_nil]
    cases hh : s.fd.isHandle with
    | true =>
        refine h.of_handle hh hh ?_ id rfl rfl rfl
        rw [after_queue]
        exact Nat.le_trans (Bool.toNat_le _) (Nat.le_add_left 1 _)
    | false =>
    obtain ⟨hd, hb, ha⟩ := h.unlooked hh
    have hat : (s.queueMicrotask .closed).after = 1 := by rw [after_queue, ha]; rfl
    have hbt : (s.queueMicrotask .closed).before = 0 := by rw [before_queue, hb]; rfl
    exact {
      tokens := by
        have e : 0 + 1 = s.destroyed.toNat := by rw [hd]; rfl
        rw [hat, hbt]
        exact ⟨Nat.le_of_eq e.symm, fun _ => Nat.le_of_eq e⟩
      closes := h.closes
      destroys := h.destroys
      null := h.null
      «open» := fun n hn => absurd hn (hf n)
      closed := fun hn => ⟨(h.closed hn).1, (after_eq_zero.mp ha).1, hat⟩
      opening := h.opening
      ordered := h.ordered }

/-- `close` is emitted. -/
theorem emitClose (h : Inv fd { s with microtasks := .closed :: s.microtasks } notes) :
    Inv fd s.emitClose.1 (notes ++ s.emitClose.2) := by
  cases hh : s.fd.isHandle with
  | true =>
      rw [ReadStream.emitClose]
      split
      · rename_i hc
        rw [List.append_nil]
        exact h.of_handle hh hh (one_le_after hc _) id rfl rfl rfl
      · rename_i hc
        exact h.close_handle hh (eq_false_of_ne_true hc) hh id rfl rfl rfl
  | false =>
  have hat : ReadStream.after { s with microtasks := .closed :: s.microtasks } = s.after + 1 := by
    simp only [after, List.count_cons, beq_self_eq_true, if_true]
    omega
  have hbt : ReadStream.before { s with microtasks := .closed :: s.microtasks } = s.before := by
    simp [before]
  have ht := Nat.le_antisymm (h.tokens.2 hh) h.tokens.1
  rw [hat, hbt] at ht
  have hd : s.destroyed = true := by
    cases hd : s.destroyed with
    | false => simp [hd] at ht
    | true => rfl
  have ht' : s.before = 0 ∧ s.after = 0 := by
    simp only [hd, Bool.toNat_true] at ht
    omega
  obtain ⟨hk, hq, hc⟩ := after_eq_zero.mp ht'.2
  have ha : ReadStream.after (ReadStream.emit { s with closed := true } .none) = 1 := by
    simp only [after, ReadStream.emit, hk, List.count_eq_zero.mpr hq]
    rfl
  rw [ReadStream.emitClose, if_neg (by simp [hc])]
  exact {
    tokens := by
      have e : s.before + 0 + 1 = s.destroyed.toNat := by rw [ht'.1, hd]; rfl
      rw [ha, before_emit]
      exact ⟨Nat.le_of_eq e.symm, fun _ => Nat.le_of_eq e⟩
    closes := by
      rw [List.count_append, h.closes]
      change s.closed.toNat + 1 = 1
      rw [hc]
      rfl
    destroys := by simpa using h.destroys
    null := by simpa using h.null
    «open» := fun n hn => by
      have := (h.open n hn).2.1
      rw [hat, show ({ s with microtasks := .closed :: s.microtasks } : ReadStream).closing = false
        from hk] at this
      cases this
    closed := fun hn => by
      obtain ⟨hcl, -, -⟩ := h.closed hn
      exact ⟨by simpa using hcl, hk, ha⟩
    opening := h.opening
    ordered := ordered_append h.ordered fun m _ => by cases m <;> trivial }

section

variable (h : Inv fd s notes)
include h

/-- The descriptor is closed. -/
theorem closeDone (hk : s.closing = true) :
    Inv fd (queueMicrotask { s with fd := .closed, closing := false } .closed) notes := by
  cases hf : s.fd with
  | null => rw [(h.null (.inl hf)).2.2] at hk; cases hk
  | handle => rw [(h.null (.inr (by rw [hf]; rfl))).2.2] at hk; cases hk
  | closed => rw [(h.closed hf).2.1] at hk; cases hk
  | «open» n =>
      obtain ⟨hfds, ha, hcl⟩ := h.open n hf
      have hat : (queueMicrotask { s with fd := .closed, closing := false } .closed).after = 1 := by
        rw [after_queue, if_pos rfl]
        simp only [after, hk, Bool.toNat_true, Bool.toNat_false] at ha ⊢
        omega
      have ht := h.tokens
      rw [ha, hk, hf] at ht
      exact {
        tokens := by
          rw [hat, before_queue]
          exact ht
        closes := h.closes
        destroys := h.destroys
        null := fun hn => by rcases hn with hn | hn <;> cases hn
        «open» := fun _ hn => nomatch hn
        closed := fun _ => ⟨by simpa [hk, hfds] using hcl, rfl, hat⟩
        opening := fun ho => by
          have := h.opening ho
          rw [hf] at this
          cases this
        ordered := h.ordered }

/-- The descriptor is open, before the closing has looked. -/
theorem opened (ho : s.opening = true) (hk : s.closing = false)
    (hq : .closed ∉ s.microtasks) (hc : s.closed = false) (n : ℕ) :
    Inv fd (ReadStream.emit { s with opening := false, fd := .open n } .emitOpen)
      (notes ++ [.open n]) := by
  have hf := h.opening ho
  obtain ⟨hfds, hcl, -⟩ := h.null (.inl hf)
  have ha : s.after = 0 := after_eq_zero.mpr ⟨hk, hq, hc⟩
  have ht := h.tokens
  rw [hf] at ht
  exact {
    tokens := by
      rw [before_emit]
      exact ht
    closes := by simpa using h.closes
    destroys := by simpa using h.destroys
    null := fun hn => by rcases hn with hn | hn <;> cases hn
    «open» := fun m hm => by
      cases hm
      refine ⟨?_, ?_, ?_⟩
      · rw [fds_append, hfds]
        rfl
      · change s.after = s.closing.toNat
        rw [ha, hk]
        rfl
      · rw [closedFds_append, hcl]
        change [] = if s.closing = true then [n] else []
        rw [hk]
        rfl
    closed := fun hn => nomatch hn
    opening := fun hn => nomatch hn
    ordered := ordered_append h.ordered fun m hm => by
      cases m <;> try trivial
      exact absurd rfl (h.not_close hc hm) }

/-! ### A step -/

theorem readNextChunk (o : Range) :
    Inv fd (s.readNextChunk o).1 (notes ++ (s.readNextChunk o).2) := by
  rw [ReadStream.readNextChunk]
  split
  · simpa using h
  split
  · simpa using h
  split
  · simpa using h.openIfNeeded
  split
  · exact h.finishReadable
  · rw [List.append_nil]
    exact h.congr rfl rfl rfl rfl rfl rfl h.opening

theorem onRead {data : Option Bytes}
    (hd : ∀ d, data = some d → d = [] ∨ s.destroyed = false) :
    Inv fd (s.onRead data).1 (notes ++ (s.onRead data).2) := by
  have hr : Inv fd { s with reading := false } notes :=
    h.congr rfl rfl rfl rfl rfl rfl h.opening
  match data with
  | none => exact hr.handleStreamError
  | some [] => exact hr.finishReadable
  | some (b :: bs) =>
      have hn : s.destroyed = false := (hd _ rfl).resolve_left (by simp)
      have ht := h.congr (t := { s with
          reading := false
          bytesRead := s.bytesRead + (b :: bs).length
          position := s.position.map (· + (b :: bs).length)
          remaining := s.remaining.map (· - (b :: bs).length) }) rfl rfl rfl rfl rfl rfl h.opening
      exact (ht.emit (by simp)).note (.inr (.inr ⟨hn, _, rfl⟩))

end

/-- The frame of a method is gone, and what the method does next is done. -/
theorem afterListeners (ho : o.autoClose = true) {f : Frame}
    (h : Inv fd { s with frames := f :: s.frames } notes)
    (hC : f = .abort → s.fd.isHandle = true → s.closed = false) :
    Inv fd (s.afterListeners o f).1 (notes ++ (s.afterListeners o f).2) := by
  have hp : f ≠ .destroy → Inv fd s notes := fun hf =>
    h.congr (by simp only [before, List.count_cons_of_ne hf]) rfl rfl rfl rfl rfl h.opening
  cases f with
  | emitOpen =>
      rw [ReadStream.afterListeners, List.append_nil]
      split
      · exact (hp (by simp)).scheduleRead
      · exact hp (by simp)
  | onRead =>
      rw [ReadStream.afterListeners]
      split
      · exact (hp (by simp)).finishReadable
      · simpa using (hp (by simp)).scheduleRead
  | finishReadable | handleStreamError =>
      rw [ReadStream.afterListeners, if_pos ho]
      exact (hp (by simp)).destroy false
  | abort =>
      rw [ReadStream.afterListeners, if_pos ho]
      split
      · rename_i hh
        exact h.close_handle hh (hC rfl hh) hh (fun _ => rfl) rfl rfl rfl
      · exact (hp (by simp)).destroy false
  | destroy =>
      rw [ReadStream.afterListeners, List.append_nil]
      refine h.congr ?_ ?_ rfl rfl rfl rfl h.opening
      · rw [before_queue, if_pos rfl]
        simp only [before, List.count_cons, beq_self_eq_true, if_true]
        omega
      · rw [after_queue]
        rfl
  | none => simpa [ReadStream.afterListeners] using hp (by simp)

/-- A microtask is gone, and is run. -/
theorem run {t : Task} (h : Inv fd { s with microtasks := t :: s.microtasks } notes)
    (hC : t = .closeUnderlying → s.fd = .handle .lost → s.closed = true) :
    Inv fd (s.run o t).1 (notes ++ (s.run o t).2) := by
  have hp : t ≠ .closeUnderlying → t ≠ .closed → Inv fd s notes := fun hb ha =>
    h.congr (by simp only [before, List.count_cons_of_ne hb])
      (by simp only [after, List.count_cons_of_ne ha]) rfl rfl rfl rfl h.opening
  cases t with
  | openIfNeeded => simpa [ReadStream.run] using (hp (by simp) (by simp)).openIfNeeded
  | readNextChunk =>
      have hr := (hp (by simp) (by simp)).congr (t := { s with readScheduled := false })
        rfl rfl rfl rfl rfl rfl h.opening
      exact hr.readNextChunk o
  | closeUnderlying => exact h.closeUnderlying (hC rfl)
  | closed => exact h.emitClose
  | abort => exact (hp (by simp) (by simp)).abort

theorem flow (h : Inv fd s notes) : Inv fd s.flow notes :=
  scheduleRead (h.congr rfl rfl rfl rfl rfl rfl h.opening)

theorem step (ho : o.autoClose = true) (h : Inv fd s notes) {a : Event} (hC : s.Owning a)
    {r : ReadStream × List Note} (hs : s.step o a = some r) : Inv fd r.1 (notes ++ r.2) := by
  cases step_inv hs with
  | onData | resume => simpa using h.flow
  | pause =>
      rw [List.append_nil]
      exact h.congr rfl rfl rfl rfl rfl rfl h.opening
  | destroy error => exact h.destroy error
  | close => exact h.destroy false
  | abort => exact abort (h.congr rfl rfl rfl rfl rfl rfl h.opening)
  | listenersReturn f rest hf =>
      refine afterListeners ho ?_ fun hf' => hC (by rw [hf, hf']; rfl)
      rw [← hf]
      exact h
  | microtask t rest _ hm =>
      refine run ?_ fun ht => hC (by rw [hm, ht]; rfl)
      rw [← hm]
      exact h
  | notOpened => exact handleStreamError (h.congr rfl rfl rfl rfl rfl rfl (fun hn => nomatch hn))
  | opened n hop => exact h.opened hop hC.1 hC.2.1 hC.2.2 n
  | readDone data =>
      refine h.onRead fun d hd => ?_
      subst hd
      exact hC
  | closeDone hk =>
      rw [List.append_nil]
      exact h.closeDone hk
  | handleClose hf => exact handleClosed (l := s.microtasks) h hf
  | handleFd isOpen hf =>
      rw [List.append_nil]
      exact h.of_handle hf rfl h.tokens.1 id rfl rfl rfl

theorem init (o : Range) (source : Source) (aborted : Bool) :
    Inv source.given (ReadStream.init o source aborted) [] := by
  have hb : (ReadStream.init o source aborted).before = 0 := by
    cases source <;> cases aborted <;> rfl
  have ha : (ReadStream.init o source aborted).after = 0 := by
    cases source <;> cases aborted <;> rfl
  exact {
    tokens := by
      rw [hb, ha]
      exact ⟨Nat.le_refl 0, fun _ => Nat.le_refl 0⟩
    closes := rfl
    destroys := fun hn => nomatch hn
    null := fun hn => by
      cases source with
      | path | handle => exact ⟨rfl, rfl, rfl⟩
      | fd n => rcases hn with hn | hn <;> cases hn
    «open» := fun n hn => by
      cases source with
      | path | handle => cases hn
      | fd m =>
          cases hn
          exact ⟨rfl, ha, rfl⟩
    closed := fun hn => by cases source <;> cases hn
    opening := fun hn => nomatch hn
    ordered := .nil }

end Inv

/-! ### What is over is destroyed -/

namespace Ending

open ReadStream

variable {s t : ReadStream} {notes more : List Note} {o : Range}

/-- The stream is destroyed. -/
theorem of_destroyed (h : t.destroyed = true) : Ending t notes := fun _ => .inl h

/-- A method that ends the stream waits for its listeners. -/
theorem of_emit {f : Frame} (hf : f.Ends) : Ending (s.emit f) notes :=
  fun _ => .inr ⟨f, List.mem_cons_self, hf⟩

section

variable (h : Ending s notes)
include h

/-- What does not end the stream. -/
theorem congr (hd : t.destroyed = s.destroyed)
    (hf : ∀ f ∈ s.frames, f ∈ t.frames) (hm : ∀ n ∈ more, ¬ n.IsOver) : Ending t (notes ++ more) := by
  rintro ⟨n, hn, ho⟩
  rcases List.mem_append.mp hn with hn | hn
  · rw [hd]
    exact (h ⟨n, hn, ho⟩).imp_right fun ⟨f, hff, he⟩ => ⟨f, hf f hff, he⟩
  · exact absurd ho (hm n hn)

theorem scheduleRead : Ending s.scheduleRead notes := by
  rw [ReadStream.scheduleRead]
  split
  · exact h
  · exact h

theorem openIfNeeded : Ending s.openIfNeeded notes := by
  rw [ReadStream.openIfNeeded]
  split
  · exact h
  · exact h

theorem finishReadable :
    Ending s.finishReadable.1 (notes ++ s.finishReadable.2) := by
  rw [ReadStream.finishReadable]
  split
  · simpa using h
  · exact of_emit (.inl rfl)

theorem handleStreamError :
    Ending s.handleStreamError.1 (notes ++ s.handleStreamError.2) := by
  rw [ReadStream.handleStreamError]
  split
  · simpa using h
  · exact of_emit (.inr (.inl rfl))

theorem abort : Ending s.abort.1 (notes ++ s.abort.2) := by
  rw [ReadStream.abort]
  split
  · simpa using h
  · exact of_emit (.inr (.inr rfl))

end

theorem destroy (s : ReadStream) (error : Bool) (notes : List Note) :
    Ending (s.destroy error).1 notes := by
  refine of_destroyed ?_
  rw [ReadStream.destroy]
  split
  · assumption
  · cases error <;> rfl

theorem readNextChunk (h : Ending s notes) (o : Range) :
    Ending (s.readNextChunk o).1 (notes ++ (s.readNextChunk o).2) := by
  rw [ReadStream.readNextChunk]
  split
  · simpa using h
  split
  · simpa using h
  split
  · simpa using h.openIfNeeded
  split
  · exact h.finishReadable
  · rw [List.append_nil]
    exact h

theorem onRead (h : Ending s notes) (data : Option Bytes) :
    Ending (s.onRead data).1 (notes ++ (s.onRead data).2) := by
  have hr : Ending { s with reading := false } notes := h
  match data with
  | none => exact hr.handleStreamError
  | some [] => exact hr.finishReadable
  | some (b :: bs) =>
      refine h.congr rfl (fun f hf => List.mem_cons_of_mem _ hf) fun n hn => ?_
      cases List.mem_singleton.mp hn
      exact id

theorem afterListeners (ho : o.autoClose = true) {f : Frame}
    (h : Ending { s with frames := f :: s.frames } notes) :
    Ending (s.afterListeners o f).1 (notes ++ (s.afterListeners o f).2) := by
  have hp : ¬ f.Ends → Ending s notes := fun hf hn => (h hn).imp_right fun ⟨g, hg, he⟩ => by
    rcases List.mem_cons.mp hg with rfl | hg
    · exact absurd he hf
    · exact ⟨g, hg, he⟩
  cases f with
  | emitOpen =>
      rw [ReadStream.afterListeners, List.append_nil]
      split
      · exact (hp (by simp [Frame.Ends])).scheduleRead
      · exact hp (by simp [Frame.Ends])
  | onRead =>
      rw [ReadStream.afterListeners]
      split
      · exact (hp (by simp [Frame.Ends])).finishReadable
      · simpa using (hp (by simp [Frame.Ends])).scheduleRead
  | finishReadable | handleStreamError =>
      rw [ReadStream.afterListeners, if_pos ho]
      exact destroy s false _
  | abort =>
      rw [ReadStream.afterListeners, if_pos ho]
      split
      · exact of_destroyed rfl
      · exact destroy s false _
  | destroy | none =>
      rw [ReadStream.afterListeners, List.append_nil]
      exact hp (by simp [Frame.Ends])

theorem handleClosed (h : Ending s notes) :
    Ending s.handleClosed.1 (notes ++ s.handleClosed.2) := by
  rw [ReadStream.handleClosed]
  dsimp only
  split
  · exact h.congr rfl (fun f hf => List.mem_cons_of_mem _ hf) (by simp)
  · exact of_destroyed rfl

theorem run {t : Task} (h : Ending s notes) :
    Ending (s.run o t).1 (notes ++ (s.run o t).2) := by
  cases t with
  | openIfNeeded => simpa [ReadStream.run] using h.openIfNeeded
  | readNextChunk => exact readNextChunk (s := { s with readScheduled := false }) h o
  | closeUnderlying =>
      rw [ReadStream.run, ReadStream.closeUnderlying]
      split
      · exact h.congr rfl (fun f hf => hf) (by simp [Note.IsOver])
      · exact h.handleClosed
      · simpa using h
      · exact h.congr rfl (fun f hf => hf) (by simp)
  | closed =>
      rw [ReadStream.run, ReadStream.emitClose]
      split
      · simpa using h
      · exact h.congr rfl (fun f hf => List.mem_cons_of_mem _ hf) (by simp [Note.IsOver])
  | abort => exact h.abort

theorem step (ho : o.autoClose = true) (h : Ending s notes) {a : Event}
    {r : ReadStream × List Note} (hs : s.step o a = some r) : Ending r.1 (notes ++ r.2) := by
  cases step_inv hs with
  | onData | resume =>
      rw [List.append_nil]
      exact scheduleRead (s := { s with started := true, readableFlowing := some true }) h
  | pause =>
      rw [List.append_nil]
      exact h
  | destroy error => exact destroy s error _
  | close => exact destroy s false _
  | abort => exact abort (s := { s with signalAborted := true }) h
  | listenersReturn f rest hf =>
      refine afterListeners ho fun hn => ?_
      rw [← hf]
      exact h hn
  | microtask t rest => exact run (s := { s with microtasks := rest }) h
  | notOpened => exact handleStreamError (s := { s with opening := false }) h
  | opened n => exact h.congr rfl (fun f hf => List.mem_cons_of_mem _ hf) (by simp [Note.IsOver])
  | readDone data => exact h.onRead data
  | closeDone | handleFd => exact h.congr rfl (fun f hf => hf) (by simp)
  | handleClose => exact h.handleClosed

end Ending

/-! ### Every run -/

/-- What a run keeps, as it bears on the descriptors. -/
theorem Inv.owned {fd : Option ℕ} {s : ReadStream} {notes : List Note} (h : Inv fd s notes)
    (he : Ending s notes) : Owned fd s notes where
  once := by
    cases hf : s.fd with
    | null =>
        rw [(h.null (.inl hf)).2.1]
        exact List.nil_prefix
    | handle =>
        rw [(h.null (.inr (by rw [hf]; rfl))).2.1]
        exact List.nil_prefix
    | «open» n =>
        obtain ⟨hfds, -, hc⟩ := h.open n hf
        rw [hfds, hc]
        split
        · exact List.prefix_rfl
        · exact List.nil_prefix
    | closed =>
        have hc := (h.closed hf).1
        exact ⟨[], by rw [hc, List.append_nil]⟩
  close := by
    rw [h.closes]
    exact Bool.toNat_le _
  closed := by
    intro hm
    have hc : s.closed = true := by
      cases hc : s.closed with
      | true => rfl
      | false => exact absurd rfl (h.not_close hc hm)
    cases hf : s.fd with
    | null =>
        obtain ⟨hfds, hcl, -⟩ := h.null (.inl hf)
        rw [hfds, hcl]
    | handle =>
        obtain ⟨hfds, hcl, -⟩ := h.null (.inr (by rw [hf]; rfl))
        rw [hfds, hcl]
    | «open» n =>
        obtain ⟨hfds, ha, hcl⟩ := h.open n hf
        have hk : s.closing = true := by
          cases hk : s.closing with
          | true => rfl
          | false =>
              rw [hk] at ha
              rw [(after_eq_zero.mp ha).2.2] at hc
              cases hc
        rw [hfds, hcl, if_pos hk]
    | closed => exact (h.closed hf).1
  ended := by
    rintro ho ⟨hfr, hmt, hk⟩
    have hd : s.destroyed = true := by
      rcases he ho with hd | ⟨f, hf, -⟩
      · exact hd
      · rw [hfr] at hf
        cases hf
    have ht := h.tokens.1
    simp only [before, after, hfr, hmt, hk, hd] at ht
    have hc : s.closed = true := by
      cases hc : s.closed with
      | true => rfl
      | false => simp [hc] at ht
    have hp : notes.count .close = 1 := by rw [h.closes, hc]; rfl
    exact List.count_pos_iff.mp (by omega)
  ordered := h.ordered

/-- **Descriptors.**  In a run of a stream with `autoClose` in which no open succeeds once the
closing has looked at the descriptor, no read gives data once the stream is destroyed, and a handle
is closed without an error and by no listener of the abort, each descriptor is closed once, `close`
is emitted once after that, and no `data` after `destroy`. -/
theorem descriptors_owned {o : Range} (ho : o.autoClose = true) (source : Source) (aborted : Bool)
    {p : ReadStream × List Note}
    (r : Reach (recorded fun s a => s.step o a) (fun p a => p.1.Owning a)
      (init o source aborted, []) p) : Owned source.given p.1 p.2 := by
  have hi : Inv source.given p.1 p.2 ∧ Ending p.1 p.2 := by
    refine r.invariant (I := fun p => Inv source.given p.1 p.2 ∧ Ending p.1 p.2)
      ⟨Inv.init o source aborted, fun ⟨_, hn, _⟩ => nomatch hn⟩ ?_
    intro p a q hp hC hs
    obtain ⟨r, hr, rfl⟩ := recorded_eq_some.mp hs
    exact ⟨hp.1.step ho hC hr, hp.2.step ho hr⟩
  exact hi.1.owned hi.2

/-- A stream that is closed after its first chunk. -/
theorem descriptors_owned_three :
    ∃ s : ReadStream, Owned none s [.open 3, .data [1, 2], .destroyed, .closedFd 3, .close] := by
  obtain ⟨⟨s, notes⟩, hp, rfl⟩ := Reach.exists_of_execIf
    (recorded fun s a => step s ⟨none, none, 2, true, by simp, by decide⟩ a)
    (fun p a => p.1.Owning a)
    (init ⟨none, none, 2, true, by simp, by decide⟩ .path false, [])
    [.onData, .microtask, .opened (some 3), .listenersReturn, .microtask, .readDone (some [1, 2]),
      .listenersReturn, .close, .microtask, .microtask, .closeDone, .microtask, .listenersReturn]
    (P := fun p => p.2 = [.open 3, .data [1, 2], .destroyed, .closedFd 3, .close])
    (by decide +kernel)
  exact ⟨s, descriptors_owned rfl .path false hp⟩

/-- **Descriptors leak.**  An `open` of the `fs` that was given calls back after the stream was
destroyed and closed: the descriptor stays open.  A read that calls back after `destroy` still emits
its data.  A handle whose descriptor was closed by its number is not closed, and there is no `close`.
A listener of the abort closes the handle, and there are two. -/
theorem descriptor_leaked :
    let o : Range := ⟨none, none, 2, true, by simp, by decide⟩
    let step := recorded fun s a => step s o a
    let Run := fun source p => Reach step Any (init o source false, []) p
    (∃ p : ReadStream × List Note, Run .path p ∧ p.1.Quiet ∧ p.2 = [.destroyed, .close, .open 3]) ∧
    (∃ p : ReadStream × List Note, Run .path p ∧ p.2 = [.open 3, .destroyed, .data [1, 2]]) ∧
    (∃ p : ReadStream × List Note, Run (.handle .open) p ∧ p.1.Quiet ∧ p.2 = [.destroyed]) ∧
    ∃ p : ReadStream × List Note, Run (.handle .open) p ∧ p.2 = [.error, .close, .close] := by
  intro o step
  refine ⟨?_, ?_, ?_, ?_⟩
  · exact Reach.exists_of_exec step _ [.microtask, .destroy false, .microtask, .microtask,
      .listenersReturn, .opened (some 3), .listenersReturn] (by decide +kernel)
  · exact Reach.exists_of_exec step _ [.onData, .microtask, .opened (some 3), .listenersReturn,
      .microtask, .destroy false, .readDone (some [1, 2])] (by decide +kernel)
  · exact Reach.exists_of_exec step _ [.handleFd false, .destroy false, .microtask]
      (by decide +kernel)
  · exact Reach.exists_of_exec step _ [.abort, .handleClose, .listenersReturn, .listenersReturn]
      (by decide +kernel)

end Streams
