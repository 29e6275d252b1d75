import SecureExec.Kernel.Devices

/-!
# Kernel — Poll — what `fdPoll` says and what a read or write does

`fdPoll` asks the pipe manager about a pipe and calls everything else a regular file, always
readable and writable.  `fdRead` and `fdWrite` decide from the buffers, the waiters and the closed
ends (`PollTruth` compares them).  For a pipe end the answer is right in every state; for a PTY
end it is right exactly when the terminal is `Ready`: there is something to read, and room for what
one more byte would bring.
-/

namespace SecureExec.Kernel
open SecureExec Lts Prog PipeState Terminal ReadOutcome

/-! ### `fdPoll` -/

structure PollResult where
  readable : Bool
  writable : Bool
  hangup : Bool
  invalid : Bool
  deriving DecidableEq

def PollResult.invalidFd : PollResult := ⟨false, false, false, true⟩

/-- `pollState`, of a pipe end. -/
def PipeManager.pollState (m : PipeManager) (descriptionId : Nat) : Option PollResult :=
  match m.descToPipe descriptionId with
  | none => none
  | some ref =>
    if m.pipes ref.pipeId then
      let st := m.states ref.pipeId
      match ref.side with
      | .read => some ⟨decide (0 < st.bufferSize) || st.closedWrite, false, st.closedWrite, false⟩
      | .write => some
          ⟨false, !st.closedRead && decide (st.bufferSize < MAX_PIPE_BUFFER_BYTES), st.closedRead,
            false⟩
    else none

/-- What a read of a pipe description does at this moment. -/
def PipeManager.readOutcome (m : PipeManager) (descriptionId length : Nat) :
    Except Failure ReadOutcome :=
  (m.route descriptionId .read "not a pipe read end").map fun p =>
    ((m.states p).read 0 length).1

/-- What a write to a pipe description does at this moment, at the flags of the write end. -/
def PipeManager.writeOutcome (m : PipeManager) (descriptionId : Nat) (flags : Flags)
    (data : ByteArray8) : WriteOutcome :=
  match m.route descriptionId .write "not a pipe write end" with
  | .error e => .thrown e
  | .ok p => ((m.states p).write flags data).outcome

/-- A write that does not wait. -/
def PipeState.WriteOutcome.ofExcept : Except Failure Nat → WriteOutcome
  | .ok n => .returned n
  | .error e => .thrown e

namespace IoKernel

def fdPoll (s : IoKernel) (pid fd : Nat) : PollResult :=
  match s.kernel.fds.get pid with
  | none => .invalidFd
  | some table =>
    match table.get fd with
    | none => .invalidFd
    | some entry =>
      let descId := (s.kernel.desc entry.description).id
      if s.kernel.pipes.isPipe descId then
        (s.kernel.pipes.pollState descId).getD .invalidFd
      else
        -- regular files are always readable and writable
        ⟨true, true, false, false⟩

/-- What `fdRead` does at this moment; `none` for a file. -/
def fdRead (s : IoKernel) (driver : String) (pid fd length : Nat) :
    Option (Except Failure ReadOutcome) :=
  match ((FileIo.fileEntry driver pid fd).exec s.kernel).1 with
  | .error e => some (.error e)
  | .ok entry =>
    let descId := (s.kernel.desc entry.description).id
    if s.kernel.pipes.isPipe descId then some (s.kernel.pipes.readOutcome descId length)
    else if s.kernel.ptys.isPty descId then some ((s.ttyRead descId length).map Prod.fst)
    else none

/-- What `fdWrite` does at this moment; `none` for a file. -/
def fdWrite (s : IoKernel) (driver : String) (pid fd : Nat) (flags : Flags) (answer : Nat → Nat)
    (data : ByteArray8) : Option WriteOutcome :=
  match ((FileIo.fileEntry driver pid fd).exec s.kernel).1 with
  | .error e => some (.thrown e)
  | .ok entry =>
    let descId := (s.kernel.desc entry.description).id
    if s.kernel.pipes.isPipe descId then some (s.kernel.pipes.writeOutcome descId flags data)
    else if s.kernel.ptys.isPty descId then some (.ofExcept (s.ttyWrite descId answer data).1)
    else none

end IoKernel

/-- The read completes without waiting. -/
def PipeState.ReadOutcome.immediate : ReadOutcome → Prop
  | .waits => False
  | _ => True

/-- The write neither blocks nor fails with `EAGAIN`. -/
def PipeState.WriteOutcome.immediate : WriteOutcome → Prop
  | .blocked _ _ => False
  | .thrown (.kernelError .EAGAIN _) => False
  | _ => True

/-- `fdPoll` agrees with what a read and a write would do. -/
structure PollTruth (s : IoKernel) (driver : String) (pid fd : Nat) : Prop where
  readable : (s.fdPoll pid fd).readable = true → ∀ length, 0 < length →
    ∃ out, s.fdRead driver pid fd length = some (.ok out) ∧ out.immediate
  completes : ∀ length out, 0 < length → s.fdRead driver pid fd length = some (.ok out) →
    out.immediate → (s.fdPoll pid fd).readable = true
  writable : (s.fdPoll pid fd).writable = true → ∀ flags answer byte,
    ∃ out, s.fdWrite driver pid fd flags answer [byte] = some out ∧ out.immediate

/-! ### Pipes -/

section Pipes

variable {m : PipeManager} {d : Nat}

theorem PipeState.read_immediate_iff (st : PipeState) (reader length : Nat) :
    (st.read reader length).1.immediate ↔ st.buffer ≠ [] ∨ st.closedWrite = true := by
  rcases st.read_spec reader length with ⟨hb, h⟩ | ⟨hb, hc, h⟩ | ⟨hb, hc, h⟩
  · simp [h, immediate, hb]
  · simp [h, immediate, hc]
  · simp [h, immediate, hb, hc]

/-- A write is refused only for a closed end. -/
theorem PipeState.writeAvailable_epipe {st : PipeState} {data : ByteArray8} {e : Failure}
    (h : st.writeAvailable data = .error e) : ∃ msg, e = .kernelError .EPIPE msg := by
  unfold writeAvailable at h
  split at h
  · rename_i e' ho
    cases h
    unfold assertWriteOpen at ho
    split at ho
    · cases ho
      exact ⟨_, rfl⟩
    · split at ho <;> cases ho
      exact ⟨_, rfl⟩
  · split at h
    · cases h
    · split at h
      · cases h
      · simp only at h
        split at h <;> cases h

/-- With room for a byte, a byte is taken, or the other end is gone. -/
theorem PipeState.write_immediate {st : PipeState} (hs : st.bufferSize < MAX_PIPE_BUFFER_BYTES)
    (flags : Flags) (byte : UInt8) : (st.write flags [byte]).outcome.immediate := by
  unfold write
  split
  · rename_i e he
    obtain ⟨msg, rfl⟩ := writeAvailable_epipe he
    trivial
  · rename_i t ht
    have hcount : t.count = 1 := by
      cases (writeAvailable_cases ht).2.2 with
      | nothing h => cases h
      | direct hd hr hb => rfl
      | full hd hf => omega
      | buffered hd hn hf =>
          simp only [List.length_cons, List.length_nil]
          omega
    rw [if_pos (by simpa using hcount)]
    trivial

/-- A pipe end that is readable can be read at once, and the other way round. -/
theorem PipeManager.pollState_readable (hs : ∀ p, (m.states p).Solid) {length : Nat} :
    ((m.pollState d).getD .invalidFd).readable = true ↔
      ∃ out, m.readOutcome d length = .ok out ∧ out.immediate := by
  unfold pollState readOutcome route
  cases hd : m.descToPipe d with
  | none => simp [PollResult.invalidFd, Except.map]
  | some ref =>
      by_cases hk : m.pipes ref.pipeId = true
      · cases hside : ref.side with
        | read =>
            have hpos : 0 < (m.states ref.pipeId).bufferSize ↔
                (m.states ref.pipeId).buffer ≠ [] :=
              ⟨fun h hb => by simp [bufferSize, hb] at h, (hs ref.pipeId).bufferSize_pos⟩
            have hi := read_immediate_iff (m.states ref.pipeId) 0 length
            simp only [hk, if_true, Option.getD_some, hside, Except.map, ne_eq, not_true_eq_false,
              if_false, Except.ok.injEq, exists_eq_left', Bool.or_eq_true, decide_eq_true_eq]
            rw [hi, hpos]
        | write => simp [hk, hside, Except.map]
      · by_cases hside : ref.side = .read <;> simp [hk, hside, PollResult.invalidFd, Except.map]

theorem PipeManager.pollState_writable
    (h : ((m.pollState d).getD .invalidFd).writable = true) (flags : Flags) (byte : UInt8) :
    (m.writeOutcome d flags [byte]).immediate := by
  unfold pollState at h
  unfold writeOutcome route
  cases hd : m.descToPipe d with
  | none => trivial
  | some ref =>
      simp only [hd] at h ⊢
      by_cases hk : m.pipes ref.pipeId = true
      · cases hside : ref.side with
        | read => trivial
        | write =>
            simp only [hk, hside, if_true, Option.getD_some, Bool.and_eq_true,
              decide_eq_true_eq] at h
            simp only [hk, ne_eq, not_true_eq_false, if_false, if_true]
            exact write_immediate h.2 flags byte
      · rw [if_neg hk] at h
        cases h

end Pipes

/-! ### Terminals -/

namespace Terminal

variable {t t' : Terminal}

/-- The input direction takes this many bytes: a read waits for them, or they fit the buffer. -/
def inputRoom (t : Terminal) (n : Nat) : Prop :=
  t.inputWaiters ≠ [] ∨ bufferBytes t.inputBuffer + n ≤ MAX_PTY_BUFFER_BYTES

/-- The output direction takes this many bytes. -/
def outputRoom (t : Terminal) (n : Nat) : Prop :=
  t.outputWaiters ≠ [] ∨ bufferBytes t.outputBuffer + n ≤ MAX_PTY_BUFFER_BYTES

/-- Where there is an echo, there is room for it. -/
def echoRoom (t : Terminal) (n : Nat) : Prop := t.termios.echo = true → t.outputRoom n

/-- There is room for what a byte brings in canonical mode. -/
def canonRoom (t : Terminal) (byte : UInt8) : Prop :=
  if byte.toNat = t.termios.cc.veof then t.inputRoom t.lineBuffer.length
  else if byte.toNat = t.termios.cc.verase ∨ byte = 0x08 then t.lineBuffer = [] ∨ t.echoRoom 3
  else if byte = 0x0a then t.echoRoom 2 ∧ t.inputRoom (t.lineBuffer.length + 1)
  else MAX_CANON ≤ t.lineBuffer.length ∨ t.echoRoom 1

/-- There is room for what a signal character brings, when the callback answers `killed`. -/
def signalRoom (t : Terminal) (killed signal : Nat) : Prop :=
  if t.intercepts signal then t.echoRoom 4 ∧ (killed = 0 → t.inputRoom 1)
  else if signal = 20 ∨ signal = 3 then t.echoRoom 4
  else True

/-- There is room for what a byte brings: its echo, and what it delivers. -/
def roomFor (t : Terminal) (killed : Nat) (byte : UInt8) : Prop :=
  let byte := translate t.termios.icrnl byte
  match t.signalOf byte with
  | some signal => t.signalRoom killed signal
  | none => if t.termios.icanon then t.canonRoom byte else t.echoRoom 1 ∧ t.inputRoom 1

/-- The program returns when there is room, with `Q`, and else fails with `EAGAIN`. -/
def Hinges {α : Type} (p : Tty α) (t : Terminal) (room : Prop) (Q : α → Terminal → Prop) : Prop :=
  p.wp t (fun a t' => room ∧ Q a t') fun e _ => (∃ msg, e = .kernelError .EAGAIN msg) ∧ ¬ room

variable {α : Type} {room : Prop}

theorem Hinges.bind {β : Type} {p : Tty α} {f : α → Tty β} {q : Prop}
    {Q : α → Terminal → Prop} {R : β → Terminal → Prop} (h : Hinges p t room Q)
    (hf : ∀ a t', Q a t' → Hinges (f a) t' q R) : Hinges (p >>= f) t (room ∧ q) R := by
  rw [Hinges, wp_bind]
  refine wp_mono h (fun a t' ⟨hr, hq⟩ => ?_) fun e _ ⟨he, hr⟩ => ⟨he, fun h => hr h.1⟩
  exact wp_mono (hf a t' hq) (fun _ _ h => ⟨⟨hr, h.1⟩, h.2⟩)
    fun e _ ⟨he, hr'⟩ => ⟨he, fun h => hr' h.2⟩

theorem Hinges.congr {p : Tty α} {room' : Prop} {Q R : α → Terminal → Prop}
    (h : Hinges p t room Q) (hr : room ↔ room') (hQ : ∀ a t', Q a t' → R a t') :
    Hinges p t room' R :=
  wp_mono h (fun a t' h => ⟨hr.mp h.1, hQ a t' h.2⟩) fun _ _ h => ⟨h.1, fun h' => h.2 (hr.mpr h')⟩

/-- The input direction and the discipline are the same. -/
structure SameInput (t t' : Terminal) : Prop where
  waiters : t'.inputWaiters = t.inputWaiters
  buffer : t'.inputBuffer = t.inputBuffer
  line : t'.lineBuffer = t.lineBuffer
  termios : t'.termios = t.termios
  signals : t'.signals = t.signals
  foreground : t'.foregroundPgid = t.foregroundPgid

theorem SameInput.inputRoom (h : SameInput t t') (n : Nat) : t'.inputRoom n ↔ t.inputRoom n := by
  simp only [Terminal.inputRoom, h.waiters, h.buffer]

theorem hinges_via_input (f : Terminal → ByteArray8) :
    Hinges (via fun t => t.deliverInput (f t)) t (t.inputRoom (f t).length) fun _ _ => True := by
  simp only [Hinges, via, wp_bind, wp_read, id, wp_update]
  refine wp_lift_of (fun t' h => ⟨?_, trivial⟩) fun e h => ?_
  · unfold deliverInput at h
    split at h
    · rename_i hw
      exact .inl (by simp [hw])
    · split at h
      · cases h
      · exact .inr (by omega)
  · unfold deliverInput at h
    split at h
    · cases h
    · rename_i hw
      split at h
      · cases h
        refine ⟨⟨_, rfl⟩, ?_⟩
        rintro (hne | hle)
        · exact hne hw
        · omega
      · cases h

theorem hinges_via_output (full : String) (data : ByteArray8) :
    Hinges (via (deliverOutput full data)) t (t.outputRoom data.length) fun _ t' =>
      SameInput t t' := by
  simp only [Hinges, via, wp_bind, wp_read, id, wp_update]
  refine wp_lift_of (fun t' h => ?_) fun e h => ?_
  · unfold deliverOutput at h
    split at h
    · rename_i hw
      cases h
      exact ⟨.inl (by simp [hw]), rfl, rfl, rfl, rfl, rfl, rfl⟩
    · split at h
      · cases h
      · cases h
        exact ⟨.inr (by omega), rfl, rfl, rfl, rfl, rfl, rfl⟩
  · unfold deliverOutput at h
    split at h
    · cases h
    · rename_i hw
      split at h
      · cases h
        refine ⟨⟨_, rfl⟩, ?_⟩
        rintro (hne | hle)
        · exact hne hw
        · omega
      · cases h

theorem hinges_pure (a : α) (t : Terminal) :
    Hinges (pure a) t True fun _ t' => t' = t := ⟨trivial, rfl⟩

variable (t)

theorem hinges_echoIf (data : ByteArray8) :
    Hinges (echoIf data) t (t.echoRoom data.length) fun _ t' => SameInput t t' := by
  rw [Hinges, echoIf, wp_bind, wp_read]
  cases he : t.termios.echo with
  | true =>
      refine Hinges.congr (hinges_via_output _ data) ?_ fun _ _ h => h
      simp [echoRoom, he]
  | false =>
      refine ⟨?_, rfl, rfl, rfl, rfl, rfl, rfl⟩
      simp [echoRoom, he]

theorem hinges_clearLine : Hinges clearLine t True fun _ _ => True :=
  ⟨trivial, trivial⟩

theorem hinges_flush :
    Hinges (do via fun t => t.deliverInput t.lineBuffer; clearLine) t
      (t.inputRoom t.lineBuffer.length) fun _ _ => True := by
  have h := (hinges_via_input (t := t) (·.lineBuffer)).bind
    (f := fun _ => clearLine) fun _ t' _ => hinges_clearLine t'
  exact h.congr (and_iff_left trivial) fun _ _ _ => trivial

theorem hinges_eofByte :
    Hinges eofByte t (t.inputRoom t.lineBuffer.length) fun _ _ => True := by
  rw [Hinges, eofByte, wp_bind, wp_read]
  split
  · rename_i hl
    rw [hl]
    exact hinges_via_input fun _ => []
  · exact hinges_flush t

theorem hinges_eraseByte :
    Hinges eraseByte t (t.lineBuffer = [] ∨ t.echoRoom 3) fun _ _ => True := by
  rw [Hinges, eraseByte, wp_bind, wp_read]
  split
  · rename_i hl
    exact ⟨.inl hl, trivial⟩
  · rename_i hl
    rw [wp_bind, wp_update]
    exact (hinges_echoIf { t with lineBuffer := t.lineBuffer.dropLast } [0x08, 0x20, 0x08]).congr
      (or_iff_right hl).symm fun _ _ _ => trivial

theorem hinges_newlineByte :
    Hinges newlineByte t (t.echoRoom 2 ∧ t.inputRoom (t.lineBuffer.length + 1))
      fun _ _ => True := by
  rw [Hinges, newlineByte, wp_bind, wp_update]
  have he := hinges_echoIf { t with lineBuffer := t.lineBuffer ++ [0x0a] } [0x0d, 0x0a]
  refine he.bind fun _ t' h => (hinges_flush t').congr ?_ fun _ _ _ => trivial
  rw [h.inputRoom, h.line]
  simp [inputRoom]

variable (byte : UInt8)

theorem hinges_regularByte :
    Hinges (regularByte byte) t (MAX_CANON ≤ t.lineBuffer.length ∨ t.echoRoom 1)
      fun _ _ => True := by
  rw [Hinges, regularByte, wp_bind, wp_read]
  split
  · rename_i hl
    exact ⟨.inl hl, trivial⟩
  · rename_i hl
    rw [wp_bind, wp_update]
    exact (hinges_echoIf { t with lineBuffer := t.lineBuffer ++ [byte] } [byte]).congr
      (or_iff_right hl).symm fun _ _ _ => trivial

theorem hinges_canonByte :
    Hinges (canonByte byte) t (t.canonRoom byte) fun _ _ => True := by
  rw [Hinges, canonByte, wp_bind, wp_read]
  unfold canonRoom
  split
  · exact hinges_eofByte t
  · split
    · exact hinges_eraseByte t
    · split
      · exact hinges_newlineByte t
      · exact hinges_regularByte t byte

theorem hinges_rawByte :
    Hinges (rawByte byte) t (t.echoRoom 1 ∧ t.inputRoom 1) fun _ _ => True :=
  (hinges_echoIf t [byte]).bind fun _ _ h =>
    (hinges_via_input fun _ => [byte]).congr (h.inputRoom 1) fun _ _ h => h

variable {t} (answer : Nat → Nat)

/-- A call of `onSignal` changes neither direction. -/
theorem hinges_signalForeground (signal : Nat) (excl : Bool) :
    Hinges (signalForeground answer signal excl) t True fun n t' =>
      (0 < t.foregroundPgid → n = answer t.signals.length) ∧
        t'.inputWaiters = t.inputWaiters ∧ t'.inputBuffer = t.inputBuffer := by
  simp only [Hinges, signalForeground, wp_bind, wp_read, id]
  split
  · exact ⟨trivial, fun _ => rfl, rfl, rfl⟩
  · rename_i hf
    exact ⟨trivial, fun h => absurd h hf, rfl, rfl⟩

theorem hinges_interceptSigint (hf : 0 < t.foregroundPgid) :
    Hinges (interceptSigint answer) t
      (t.echoRoom 4 ∧ (answer t.signals.length = 0 → t.inputRoom 1)) fun _ _ => True := by
  refine (hinges_echoIf t _).bind fun _ t₁ h₁ => ?_
  have hs := (hinges_signalForeground (t := t₁) answer 2 true).bind
    (f := fun n => if n = 0 then via (deliverInput [0x0a]) else pure ())
    (q := answer t.signals.length = 0 → t.inputRoom 1) (R := fun _ _ => True)
    fun n t₂ ⟨hn, hw, hb⟩ => ?_
  · exact hs.congr (and_iff_right trivial) fun _ _ h => h
  · have hn : n = answer t.signals.length := by rw [hn (h₁.foreground ▸ hf), h₁.signals]
    have hroom : t₂.inputRoom 1 ↔ t.inputRoom 1 := by
      simp only [inputRoom, hw, hb, h₁.waiters, h₁.buffer]
    rw [hn]
    split
    · rename_i h0
      refine (hinges_via_input fun _ => [0x0a]).congr ?_ fun _ _ h => h
      rw [forall_prop_of_true h0]
      exact hroom
    · rename_i h0
      exact ⟨fun h => absurd h h0, trivial⟩

theorem hinges_signalByte (t : Terminal) (answer : Nat → Nat) (signal : Nat) :
    Hinges (signalByte answer signal) t (t.signalRoom (answer t.signals.length) signal)
      fun _ _ => True := by
  rw [Hinges, signalByte, wp_bind, wp_update, wp_bind, wp_read]
  -- the line buffer is not part of what decides
  obtain ⟨t₁, ht₁⟩ : ∃ t₁ : Terminal,
      t₁ = if t.termios.icanon = true then { t with lineBuffer := [] } else t := ⟨_, rfl⟩
  have hi : t₁.intercepts signal = t.intercepts signal := by rw [ht₁]; split <;> rfl
  have hf : t₁.foregroundPgid = t.foregroundPgid := by rw [ht₁]; split <;> rfl
  have hsig : t₁.signals = t.signals := by rw [ht₁]; split <;> rfl
  have he : ∀ n, t₁.echoRoom n ↔ t.echoRoom n := fun n => by rw [ht₁]; split <;> rfl
  have hr : ∀ n, t₁.inputRoom n ↔ t.inputRoom n := fun n => by rw [ht₁]; split <;> rfl
  rw [← ht₁, hi]
  unfold signalRoom
  split
  · rename_i hs
    have hpos : 0 < t₁.foregroundPgid := by
      simp only [intercepts, Bool.and_eq_true, beq_iff_eq, decide_eq_true_eq] at hs
      omega
    refine (hinges_interceptSigint answer hpos).congr ?_ fun _ _ h => h
    rw [he, hr, hsig]
  · have hecho : Hinges (echoSignal signal) t₁
        (if signal = 20 ∨ signal = 3 then t.echoRoom 4 else True) fun _ _ => True := by
      unfold echoSignal
      by_cases h20 : signal = 20
      · simp only [h20, true_or, if_true]
        exact (hinges_echoIf t₁ _).congr (he 4) fun _ _ _ => trivial
      · by_cases h3 : signal = 3
        · simp only [h3, or_true, if_true, Nat.reduceEqDiff, if_false]
          exact (hinges_echoIf t₁ _).congr (he 4) fun _ _ _ => trivial
        · simp only [h20, h3, or_self, if_false]
          exact (hinges_pure () t₁).congr Iff.rfl fun _ _ _ => trivial
    have hb := hecho.bind (f := fun _ => discard (signalForeground answer signal false))
      (q := True) (R := fun _ _ => True) fun _ t₂ _ => by
        refine wp_map.mpr ?_
        exact (hinges_signalForeground (t := t₂) answer signal false).congr Iff.rfl
          fun _ _ _ => trivial
    exact hb.congr (and_iff_left trivial) fun _ _ h => h

/-- A one-byte write of the master hinges on the room for the byte. -/
theorem hinges_processInput (t : Terminal) (answer : Nat → Nat) (byte : UInt8) :
    Hinges (processInput answer [byte]) t (t.roomFor (answer t.signals.length) byte)
      fun _ _ => True := by
  have hbyte : Hinges (processByte answer byte) t (t.roomFor (answer t.signals.length) byte)
      fun _ _ => True := by
    simp only [Hinges, processByte, roomFor, wp_bind, wp_read, id]
    cases hs : t.signalOf (translate t.termios.icrnl byte) with
    | some signal => exact hinges_signalByte t answer signal
    | none =>
        simp only
        split
        · exact hinges_canonByte t _
        · exact hinges_rawByte t _
  rw [Hinges, processInput, wp_bind, wp_read]
  split
  · rw [wp_bind, processBytes, wp_bind]
    exact wp_mono hbyte (fun _ _ h => h) fun _ _ h => h
  · -- raw input without echo and signals is delivered in one go
    rename_i hoff
    simp only [Bool.or_eq_true, not_or, Bool.not_eq_true] at hoff
    have hroom : t.roomFor (answer t.signals.length) byte ↔ t.inputRoom 1 := by
      simp [roomFor, signalOf, hoff.1.1, hoff.1.2, hoff.2, echoRoom]
    rw [wp_bind]
    exact (hinges_via_input fun _ => applyInputTranslations t.termios.icrnl [byte]).congr
      hroom.symm fun _ _ h => h

/-- A callback that finds no children leaves the most to deliver. -/
theorem roomFor_of_zero {byte : UInt8} (h : t.roomFor 0 byte) (killed : Nat) :
    t.roomFor killed byte := by
  unfold roomFor at h ⊢
  cases hs : t.signalOf (translate t.termios.icrnl byte) with
  | none => simpa only [hs] using h
  | some signal =>
      simp only [hs, signalRoom] at h ⊢
      by_cases hi : t.intercepts signal = true
      · rw [if_pos hi] at h ⊢
        exact ⟨h.1, fun _ => h.2 trivial⟩
      · rwa [if_neg hi] at h ⊢

theorem Hinges.immediate_iff {p : Tty Nat} {Q : Nat → Terminal → Prop}
    (h : Hinges p t room Q) : (WriteOutcome.ofExcept (p.exec t).1).immediate ↔ room := by
  unfold Hinges wp at h
  rcases hp : p.exec t with ⟨e | n, t'⟩
  · rw [hp] at h
    obtain ⟨⟨msg, rfl⟩, hr⟩ := h
    exact iff_of_false id hr
  · rw [hp] at h
    exact iff_of_true trivial h.1

/-- There is room for one byte written to this end. -/
def writeRoom (t : Terminal) : PtyEnd → Prop
  | .master => ∀ byte, t.roomFor 0 byte
  | .slave => ∀ byte, t.outputRoom (t.processOutput [byte]).length

variable {side : PtyEnd}

/-- A write where the other end is closed. -/
theorem write_hungUp (ho : t.closedAt side = false)
    (hc : t.closedMaster = true ∨ t.closedSlave = true) (answer : Nat → Nat) (data : ByteArray8) :
    ∃ msg, (write side answer data).exec t =
      (.error (.kernelError KernelErrorCode.EIO msg), t) := by
  cases side with
  | master =>
      have hm : t.closedMaster = false := ho
      have hs : t.closedSlave = true := hc.resolve_left (by simp [hm])
      refine ⟨"slave closed", ?_⟩
      show Prog.exec (if t.closedMaster then _ else if t.closedSlave then _ else _) t = _
      rw [hm, hs]
      rfl
  | slave =>
      have hs : t.closedSlave = false := ho
      have hm : t.closedMaster = true := hc.resolve_right (by simp [hs])
      refine ⟨"master closed", ?_⟩
      show Prog.exec (if t.closedSlave then _ else if t.closedMaster then _ else _) t = _
      rw [hs, hm]
      rfl

/-- A one-byte write hinges on the room for it, where both ends are open. -/
theorem hinges_write (side : PtyEnd) (hm : t.closedMaster = false) (hs : t.closedSlave = false)
    (answer : Nat → Nat) (byte : UInt8) :
    Hinges (write side answer [byte]) t
      (match side with
      | .master => t.roomFor (answer t.signals.length) byte
      | .slave => t.outputRoom (t.processOutput [byte]).length) fun _ _ => True := by
  rw [Hinges, write, wp_bind, wp_read]
  cases side with
  | master =>
      simp only [id, hm, hs, Bool.false_eq_true, if_false]
      exact hinges_processInput t answer byte
  | slave =>
      simp only [id, hm, hs, Bool.false_eq_true, if_false, wp_bind]
      exact (hinges_via_output _ (t.processOutput [byte])).congr Iff.rfl fun _ _ _ => trivial

/-- The write of a byte to an open end comes out at once exactly when there is room, or nobody at
the other end. -/
theorem write_immediate_iff (ho : t.closedAt side = false) :
    (∀ answer byte,
      (WriteOutcome.ofExcept ((write side answer [byte]).exec t).1).immediate) ↔
    (t.closedMaster = true ∨ t.closedSlave = true) ∨ t.writeRoom side := by
  by_cases hc : t.closedMaster = true ∨ t.closedSlave = true
  · refine iff_of_true (fun answer byte => ?_) (.inl hc)
    obtain ⟨msg, hw⟩ := write_hungUp ho hc answer [byte]
    rw [hw]
    trivial
  · have hm : t.closedMaster = false := by simpa using fun h => hc (.inl h)
    have hs : t.closedSlave = false := by simpa using fun h => hc (.inr h)
    rw [or_iff_right hc]
    have hiff := fun answer byte => (hinges_write side hm hs answer byte).immediate_iff
    cases side with
    | master =>
        refine ⟨fun h byte => (hiff (fun _ => 0) byte).mp (h _ byte), fun h answer byte => ?_⟩
        exact (hiff answer byte).mpr (roomFor_of_zero (h byte) _)
    | slave =>
        exact ⟨fun h byte => (hiff (fun _ => 0) byte).mp (h _ byte),
          fun h answer byte => (hiff answer byte).mpr (h byte)⟩

/-- Something is buffered for a read at this end. -/
def hasData (t : Terminal) : PtyEnd → Prop
  | .master => t.outputBuffer ≠ []
  | .slave => t.inputBuffer ≠ []

/-- A read at an open end completes at once exactly when something is buffered, or nobody is at
the other end. -/
theorem read_immediate_iff (ho : t.closedAt side = false) (reader length : Nat) :
    (∃ out t', read side reader length t = .ok (out, t') ∧ out.immediate) ↔
    (t.closedMaster = true ∨ t.closedSlave = true) ∨ t.hasData side := by
  cases side with
  | master =>
      have hm : t.closedMaster = false := ho
      by_cases hb : t.outputBuffer = [] <;> cases hs : t.closedSlave <;>
        simp [read, readMaster, hm, hs, hb, hasData, immediate]
  | slave =>
      have hs : t.closedSlave = false := ho
      by_cases hb : t.inputBuffer = [] <;> cases hm : t.closedMaster <;>
        simp [read, readSlave, hm, hs, hb, hasData, immediate]

/-- There is something to read at this end and room for one byte written to it, or an end is
closed. -/
def Ready (t : Terminal) (side : PtyEnd) : Prop :=
  (t.closedMaster = true ∨ t.closedSlave = true) ∨ (t.hasData side ∧ t.writeRoom side)

end Terminal

/-! ### Descriptors -/

namespace IoKernel

variable {s : IoKernel} {driver : String} {pid fd : Nat} {table : ProcessFDTable} {entry : FDEntry}

section

variable (ho : s.kernel.owns driver pid = true) (ht : s.kernel.fds.get pid = some table)
  (he : table.get fd = some entry)
include ho ht he

/-- The owner of a descriptor gets its entry. -/
theorem fileEntry_ok : ((FileIo.fileEntry driver pid fd).exec s.kernel).1 = .ok entry := by
  have hr : (FileIo.fileEntry driver pid fd).Returns s.kernel fun e _ => e = entry := by
    refine Returns.bind (R := fun _ k => k = s.kernel)
      (assertOwns_returns ho rfl) ?_
    rintro _ _ rfl
    refine Returns.bind (R := fun t k => t = table)
      (getTable_returns ht rfl) ?_
    rintro _ k rfl
    simp only [he]
    exact rfl
  obtain ⟨e, k, hx, rfl⟩ := returns_iff.mp hr
  rw [hx]

/-- A pipe end: `fdPoll` is right. -/
theorem pollTruth_pipe (hd : DevicesOk s.kernel)
    (hp : s.kernel.pipes.isPipe (s.kernel.desc entry.description).id = true) :
    PollTruth s driver pid fd := by
  have hpoll : s.fdPoll pid fd =
      (s.kernel.pipes.pollState (s.kernel.desc entry.description).id).getD .invalidFd := by
    simp only [fdPoll, ht, he, hp, if_true]
  have hread : ∀ length, s.fdRead driver pid fd length =
      some (s.kernel.pipes.readOutcome (s.kernel.desc entry.description).id length) := by
    intro length
    simp only [fdRead, fileEntry_ok ho ht he, hp, if_true]
  have hwrite : ∀ flags answer data, s.fdWrite driver pid fd flags answer data =
      some (s.kernel.pipes.writeOutcome (s.kernel.desc entry.description).id flags data) := by
    intro flags answer data
    simp only [fdWrite, fileEntry_ok ho ht he, hp, if_true]
  refine ⟨fun hr length _ => ?_, fun length out _ hout hi => ?_, fun hw flags answer byte => ?_⟩
  · rw [hpoll] at hr
    obtain ⟨out, hout, hi⟩ := (PipeManager.pollState_readable hd.solid).mp hr
    exact ⟨out, by rw [hread, hout], hi⟩
  · rw [hread] at hout
    rw [hpoll]
    exact (PipeManager.pollState_readable hd.solid).mpr ⟨out, Option.some.inj hout, hi⟩
  · rw [hpoll] at hw
    exact ⟨_, hwrite flags answer [byte], PipeManager.pollState_writable hw flags byte⟩

/-- A PTY end: `fdPoll` is right exactly when the terminal is ready. -/
theorem pollTruth_pty {ref : PtyRef} (hd : DevicesOk s.kernel)
    (hp : s.kernel.pipes.isPipe (s.kernel.desc entry.description).id = false)
    (href : s.kernel.ptys.descToPty (s.kernel.desc entry.description).id = some ref) :
    PollTruth s driver pid fd ↔ (s.terminal ref.ptyId).Ready ref.side := by
  obtain ⟨hk, hopen⟩ := hd.tidy.live _ ref href
  have hk : s.kernel.ptys.ptys ref.ptyId = true := hk
  have hstate : (s.kernel.ptys.states ref.ptyId).closedAt ref.side = false := by
    simpa [PtyManager.view, Registry.ofStates] using hopen
  have hopen : (s.terminal ref.ptyId).closedAt ref.side = false := hstate
  have hpty : s.kernel.ptys.isPty (s.kernel.desc entry.description).id = true := by
    simp [PtyManager.isPty, href]
  have hend : s.kernel.ptys.endOf (s.kernel.desc entry.description).id = .ok ref := by
    simp [PtyManager.endOf, href, hk]
  have hpoll : s.fdPoll pid fd = ⟨true, true, false, false⟩ := by
    simp only [fdPoll, ht, he, hp, Bool.false_eq_true, if_false]
  have hread : ∀ length, s.fdRead driver pid fd length =
      some ((read ref.side s.ttyReads length (s.terminal ref.ptyId)).map Prod.fst) := by
    intro length
    simp only [fdRead, fileEntry_ok ho ht he, hp, hpty, Bool.false_eq_true, if_false, if_true,
      ttyRead, hend]
    cases read ref.side s.ttyReads length (s.terminal ref.ptyId) <;> rfl
  have hwrite : ∀ flags answer data, s.fdWrite driver pid fd flags answer data =
      some (.ofExcept ((write ref.side answer data).exec (s.terminal ref.ptyId)).1) := by
    intro flags answer data
    simp only [fdWrite, fileEntry_ok ho ht he, hp, hpty, Bool.false_eq_true, if_false, if_true,
      ttyWrite, hend]
  have hr := read_immediate_iff (t := s.terminal ref.ptyId) hopen s.ttyReads
  have hw := write_immediate_iff (t := s.terminal ref.ptyId) hopen
  have hread_iff : ∀ length, (∃ out, s.fdRead driver pid fd length = some (.ok out) ∧
      out.immediate) ↔ ∃ out t, read ref.side s.ttyReads length (s.terminal ref.ptyId) =
        .ok (out, t) ∧ out.immediate := by
    intro length
    rw [hread]
    cases read ref.side s.ttyReads length (s.terminal ref.ptyId) with
    | error e => simp [Except.map]
    | ok r =>
        obtain ⟨out, t⟩ := r
        simp [Except.map]
  constructor
  · intro h
    have hdata := (hr 1).mp ((hread_iff 1).mp (h.readable (by rw [hpoll]) 1 Nat.one_pos))
    have hroom := hw.mp fun answer byte => by
      obtain ⟨out, hout, hi⟩ := h.writable (by rw [hpoll]) 0 answer byte
      rw [hwrite] at hout
      cases hout
      exact hi
    rcases hdata with hc | hdata
    · exact .inl hc
    · exact hroom.imp id fun hroom => ⟨hdata, hroom⟩
  · intro h
    refine ⟨fun _ length _ => ?_, fun _ _ _ _ _ => by rw [hpoll], fun _ flags answer byte => ?_⟩
    · exact (hread_iff length).mpr ((hr length).mpr (h.imp id And.left))
    · exact ⟨_, hwrite flags answer [byte], hw.mpr (h.imp id And.right) answer byte⟩

end

/-- `fdPoll` tells the truth about a pipe end, and about a PTY end exactly when the terminal is
ready for a read and for a write. -/
theorem pollTruth_iff_ready {mounted : List (String × List String)} {max : Option Nat}
    (hreach : Reach step Any (boot mounted max) s) (ho : s.kernel.owns driver pid = true)
    (ht : s.kernel.fds.get pid = some table) (he : table.get fd = some entry)
    (hend : s.kernel.pipes.isPipe (s.kernel.desc entry.description).id = true ∨
      s.kernel.ptys.isPty (s.kernel.desc entry.description).id = true) :
    PollTruth s driver pid fd ↔
      (s.kernel.pipes.isPipe (s.kernel.desc entry.description).id = true ∨
        ∃ ref, s.kernel.ptys.descToPty (s.kernel.desc entry.description).id = some ref ∧
          (s.terminal ref.ptyId).Ready ref.side) := by
  have hd := DevicesOk.reach hreach
  cases hp : s.kernel.pipes.isPipe (s.kernel.desc entry.description).id with
  | true => exact iff_of_true (pollTruth_pipe ho ht he hd hp) (.inl rfl)
  | false =>
      have hpty := hend.resolve_left (by simp [hp])
      obtain ⟨ref, href⟩ := Option.isSome_iff_exists.mp hpty
      rw [pollTruth_pty ho ht he hd hp href]
      simp [href]

/-- A process opens a PTY: the master is descriptor 3, the slave descriptor 4. -/
def openTty : List IoAction :=
  [.sys (.spawn "sh" ⟨none, none, none⟩ KernelImpl.answered), .sys (.openpty "sh" 1)]

/-- In addition a line is typed. -/
def typedLine : List IoAction := openTty ++ [.ttyWrite 200000 (fun _ => 0) [0x61, 0x0a]]

theorem length_processOutput_one (t : Terminal) (byte : UInt8) :
    (t.processOutput [byte]).length ≤ 2 := by
  unfold processOutput
  split
  · unfold insertCR
    split <;> simp [insertCR]
  · simp

theorem pollTruth_iff_ready_typed :
    ∃ s, Reach step Any (boot [("sh", ["sh"])] none) s ∧ PollTruth s "sh" 1 4 := by
  obtain ⟨s, hreach, ho, he, href, hin, hout⟩ := Reach.exists_of_exec step
    (boot [("sh", ["sh"])] none) typedLine (P := fun s => s.kernel.owns "sh" 1 = true ∧
      (((s.kernel.fds.get 1).bind (·.get 4)).map fun e => (s.kernel.desc e.description).id) =
        some 200001 ∧
      s.kernel.ptys.descToPty 200001 = some ⟨0, .slave⟩ ∧ (s.terminal 0).inputBuffer.length = 1 ∧
      bufferBytes (s.terminal 0).outputBuffer = 3) (by decide +kernel)
  obtain ⟨entry, he, hid⟩ := Option.map_eq_some_iff.mp he
  obtain ⟨table, ht, he⟩ := Option.bind_eq_some_iff.mp he
  have hpty : s.kernel.ptys.isPty (s.kernel.desc entry.description).id = true := by
    simp [hid, PtyManager.isPty, href]
  refine ⟨s, hreach, (pollTruth_iff_ready hreach ho ht he (.inr hpty)).mpr
    (.inr ⟨⟨0, .slave⟩, ?_, ?_⟩)⟩
  · rw [hid, href]
  · refine .inr ⟨?_, fun byte => .inr ?_⟩
    · exact List.ne_nil_of_length_eq_add_one hin
    · calc
        _ ≤ 3 + 2 := Nat.add_le_add (Nat.le_of_eq hout) (length_processOutput_one _ byte)
        _ ≤ MAX_PTY_BUFFER_BYTES := by decide

/-- Nothing was typed: the slave is called readable, and a read waits. -/
theorem pollTruth_fails :
    ∃ s, Reach step Any (boot [("sh", ["sh"])] none) s ∧
      (s.fdPoll 1 4).readable = true ∧ s.fdRead "sh" 1 4 1 = some (.ok .waits) ∧
      ¬ PollTruth s "sh" 1 4 := by
  obtain ⟨s, hs, hp, hr⟩ := Reach.exists_of_exec step (boot [("sh", ["sh"])] none) openTty
    (P := fun s => (s.fdPoll 1 4).readable = true ∧
      (s.fdRead "sh" 1 4 1).bind Except.toOption = some .waits) (by decide +kernel)
  have hw : s.fdRead "sh" 1 4 1 = some (.ok .waits) := by
    obtain ⟨r, hread, hok⟩ := Option.bind_eq_some_iff.mp hr
    cases r with
    | error e => cases hok
    | ok out => cases hok; exact hread
  refine ⟨s, hs, hp, hw, fun ht => ?_⟩
  obtain ⟨out, hout, hi⟩ := ht.readable hp 1 Nat.one_pos
  rw [hw] at hout
  cases hout
  exact hi

end IoKernel

end SecureExec.Kernel
