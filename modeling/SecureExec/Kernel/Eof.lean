import SecureExec.Kernel.Terminal

/-!
# Kernel — Eof — the end of file of a terminal

In canonical mode an end-of-file character on an empty line delivers the empty chunk.  What is
typed on the master is a stream of bytes and end-of-file marks (`typedBy`); a read that resolves
with no bytes is the observation of a mark (`observed`).

The stream is kept as long as no read takes a mark together with another chunk (`KeepsEof`):
`drainBuffer` joins the chunks it takes, and the empty chunk disappears in the joint.
-/

namespace SecureExec.Kernel
open SecureExec Lts Prog PipeState

/-- What the slave is to see: a byte, or an end of file. -/
inductive Token where
  | byte (b : UInt8)
  | eof
  deriving DecidableEq

/-- A read's data as the slave sees it: no bytes are an end of file. -/
def observed : ByteArray8 → List Token
  | [] => [.eof]
  | data => data.map .byte

theorem observed_of_ne_nil {data : ByteArray8} (h : data ≠ []) :
    observed data = data.map .byte := by
  cases data with
  | nil => exact absurd rfl h
  | cons b bs => rfl

namespace Terminal

/-! ### What is typed -/

/-- What the canonical mode delivers when a byte is processed. -/
def typedBy (t : Terminal) (answer : Nat → Nat) (byte : UInt8) : List Token :=
  let byte := translate t.termios.icrnl byte
  match t.signalOf byte with
  | some signal =>
    -- the session leader gets a newline when `^C` finds no children
    if t.intercepts signal ∧ answer t.signals.length = 0 then [.byte 0x0a] else []
  | none =>
    if byte.toNat = t.termios.cc.veof then
      if t.lineBuffer = [] then [.eof] else t.lineBuffer.map .byte
    else if byte.toNat = t.termios.cc.verase ∨ byte = 0x08 then []
    else if byte = 0x0a then (t.lineBuffer ++ [0x0a]).map .byte
    else []

/-- What a master's write types. -/
def typedIn (answer : Nat → Nat) : ByteArray8 → Terminal → List Token
  | [], _ => []
  | byte :: rest, t =>
    t.typedBy answer byte ++ typedIn answer rest ((processByte answer byte).exec t).2

/-- What a write types; only the master types. -/
def typedOn (side : PtyEnd) (answer : Nat → Nat) (data : ByteArray8) (t : Terminal) :
    List Token :=
  match side with
  | .master => typedIn answer data t
  | .slave => []

/-! ### What the slave has seen and will see -/

/-- The data of the slave's reads, in the order they resolved. -/
def slaveReads (t : Terminal) : List Resolved := t.resolved.filter (·.side = .slave)

/-- The stream of the slave: what its reads returned, and what waits in the buffer. -/
def stream (t : Terminal) : List Token :=
  (t.slaveReads.flatMap fun r => observed r.data) ++ t.inputBuffer.flatMap observed

/-- The slave's reads by call: those that resolved, then those that wait. -/
def readers (t : Terminal) : List Nat := t.slaveReads.map (·.reader) ++ t.inputWaiters

/-- A read waits only on an empty buffer. -/
def Waiting (t : Terminal) : Prop := t.inputWaiters ≠ [] → t.inputBuffer = []

/-- From `t` to `t'` the slave is given these tokens, in the same discipline. -/
structure Gives (t : Terminal) (toks : List Token) (t' : Terminal) : Prop where
  termios : t'.termios = t.termios
  leader : t'.sessionLeaderPgid = t.sessionLeaderPgid
  foreground : t'.foregroundPgid = t.foregroundPgid
  closed : t'.closedMaster = t.closedMaster
  waiting : t.Waiting → t'.Waiting
  stream : t.Waiting → t'.stream = t.stream ++ toks
  readers : t'.readers = t.readers

variable {t t' t'' : Terminal} {toks toks' : List Token}

namespace Gives

theorem trans (h : Gives t toks t') (h' : Gives t' toks' t'') : Gives t (toks ++ toks') t'' where
  termios := h'.termios.trans h.termios
  leader := h'.leader.trans h.leader
  foreground := h'.foreground.trans h.foreground
  closed := h'.closed.trans h.closed
  waiting := fun hw => h'.waiting (h.waiting hw)
  stream := fun hw => by
    rw [h'.stream (h.waiting hw), h.stream hw, List.append_assoc]
  readers := h'.readers.trans h.readers

theorem refl (t : Terminal) : Gives t [] t :=
  ⟨rfl, rfl, rfl, rfl, id, fun _ => (List.append_nil _).symm, rfl⟩

/-- Nothing of the input direction changes. -/
theorem silent (hp : t'.termios = t.termios ∧ t'.sessionLeaderPgid = t.sessionLeaderPgid ∧
    t'.foregroundPgid = t.foregroundPgid ∧ t'.closedMaster = t.closedMaster)
    (hb : t'.inputBuffer = t.inputBuffer) (hw : t'.inputWaiters = t.inputWaiters)
    (hr : t'.slaveReads = t.slaveReads) :
    Gives t [] t' where
  termios := hp.1
  leader := hp.2.1
  foreground := hp.2.2.1
  closed := hp.2.2.2
  waiting := fun h => by rwa [Waiting, hb, hw]
  stream := fun _ => by simp only [Terminal.stream, hr, hb, List.append_nil]
  readers := by simp only [Terminal.readers, hr, hw]

end Gives

/-! ### The calls, one by one -/

variable {f : Terminal → Except Failure Terminal}

theorem via_wp {Q : Unit → Terminal → Prop}
    (h : ∀ t', f t = .ok t' → Q () t') : (via f).wp t Q fun _ _ => True := by
  simp only [via, wp_bind, wp_read, wp_update, id]
  exact wp_lift_of h fun _ _ => trivial

variable {data : ByteArray8}

theorem deliverInput_gives (h : t.deliverInput data = .ok t') :
    Gives t (observed data) t' := by
  unfold deliverInput at h
  split at h
  · rename_i waiter rest hw
    cases h
    refine ⟨rfl, rfl, rfl, rfl, fun ht _ => ht (by simp [hw]), fun ht => ?_, ?_⟩
    · have hb : t.inputBuffer = [] := ht (by simp [hw])
      simp [stream, slaveReads, hb, List.filter_append]
    · simp [readers, slaveReads, List.filter_append, hw]
  · rename_i hw
    split at h
    · cases h
    · cases h
      refine ⟨rfl, rfl, rfl, rfl, fun _ hne => absurd hw hne, fun _ => ?_, rfl⟩
      simp [stream, slaveReads]

theorem deliverOutput_gives {full : String}
    (h : t.deliverOutput full data = .ok t') : Gives t [] t' := by
  unfold deliverOutput at h
  split at h
  · cases h
    refine .silent ⟨rfl, rfl, rfl, rfl⟩ rfl rfl ?_
    simp [slaveReads, List.filter_append]
  · split at h
    · cases h
    · cases h
      exact .silent ⟨rfl, rfl, rfl, rfl⟩ rfl rfl rfl

/-- An echo changes the output direction only. -/
structure Echoed (t t' : Terminal) : Prop extends Gives t [] t' where
  line : t'.lineBuffer = t.lineBuffer
  signals : t'.signals = t.signals

theorem deliverOutput_echoed {full : String}
    (h : t.deliverOutput full data = .ok t') : Echoed t t' := by
  refine ⟨deliverOutput_gives h, ?_, ?_⟩ <;>
  · unfold deliverOutput at h
    split at h
    · cases h
      rfl
    · split at h <;> cases h
      rfl

theorem echoIf_wp (data : ByteArray8) :
    (echoIf data).wp t (fun _ t' => Echoed t t') fun _ _ => True := by
  simp only [echoIf, wp_bind, wp_read]
  split
  · exact via_wp fun t' h => deliverOutput_echoed h
  · exact ⟨.refl t, rfl, rfl⟩

/-- The line buffer is not part of what the slave sees. -/
theorem gives_line (t : Terminal) (l : ByteArray8) : Gives t [] { t with lineBuffer := l } :=
  .silent ⟨rfl, rfl, rfl, rfl⟩ rfl rfl rfl

/-- `p` gives the slave these tokens, when it returns. -/
def GivesBy (p : Tty Unit) (t : Terminal) (toks : List Token) : Prop :=
  p.wp t (fun _ t' => Gives t toks t') fun _ _ => True

theorem GivesBy.bind {p : Tty Unit} {f : Unit → Tty Unit} (h : GivesBy p t toks)
    (hf : ∀ t', Gives t toks t' → GivesBy (f ()) t' toks') :
    GivesBy (p >>= f) t (toks ++ toks') := by
  rw [GivesBy, wp_bind]
  refine wp_mono h (fun _ t' ht => ?_) fun _ _ => id
  exact wp_mono (hf t' ht) (fun _ _ ht' => ht.trans ht') fun _ _ => id

theorem givesBy_via (hf : f t = t.deliverInput data) : GivesBy (via f) t (observed data) :=
  via_wp fun _ h => deliverInput_gives (hf ▸ h)

theorem givesBy_clearLine (t : Terminal) : GivesBy clearLine t [] := gives_line t []

theorem givesBy_echoIf (data : ByteArray8) : GivesBy (echoIf data) t [] :=
  wp_mono (echoIf_wp data) (fun _ _ h => h.toGives) fun _ _ => id

theorem givesBy_pure (t : Terminal) : GivesBy (pure ()) t [] := Gives.refl t

/-- A line is delivered and cleared. -/
theorem givesBy_flush (hl : t.lineBuffer ≠ []) :
    GivesBy (do via fun t => t.deliverInput t.lineBuffer; clearLine) t
      (t.lineBuffer.map .byte) := by
  have h := (givesBy_via (t := t) (f := fun t => t.deliverInput t.lineBuffer) rfl).bind
    (f := fun _ => clearLine) fun t' _ => givesBy_clearLine t'
  rwa [List.append_nil, observed_of_ne_nil hl] at h

variable (t)

theorem givesBy_eofByte :
    GivesBy eofByte t (if t.lineBuffer = [] then [.eof] else t.lineBuffer.map .byte) := by
  rw [eofByte, GivesBy, wp_bind, wp_read]
  split
  · exact givesBy_via rfl
  · rename_i hl
    exact givesBy_flush hl

theorem givesBy_eraseByte : GivesBy eraseByte t [] := by
  rw [eraseByte, GivesBy, wp_bind, wp_read]
  split
  · exact givesBy_pure t
  · have h : GivesBy (update fun t => { t with lineBuffer := t.lineBuffer.dropLast }) t [] :=
      gives_line t _
    exact h.bind fun _ _ => givesBy_echoIf _

theorem givesBy_regularByte (byte : UInt8) : GivesBy (regularByte byte) t [] := by
  rw [regularByte, GivesBy, wp_bind, wp_read]
  split
  · exact givesBy_pure t
  · have h : GivesBy (update fun t => { t with lineBuffer := t.lineBuffer ++ [byte] }) t [] :=
      gives_line t _
    exact h.bind fun _ _ => givesBy_echoIf _

theorem givesBy_newlineByte :
    GivesBy newlineByte t ((t.lineBuffer ++ [0x0a]).map .byte) := by
  rw [newlineByte, GivesBy, wp_bind, wp_update, wp_bind]
  refine wp_mono (echoIf_wp [0x0d, 0x0a]) (fun _ t₁ h₁ => ?_) fun _ _ => id
  have hl : t₁.lineBuffer = t.lineBuffer ++ [0x0a] := h₁.line
  have hf : GivesBy (do via fun t => t.deliverInput t.lineBuffer; clearLine) t₁
      (t₁.lineBuffer.map .byte) := givesBy_flush (by simp [hl])
  rw [hl] at hf
  exact wp_mono hf (fun _ _ h => ((gives_line t _).trans h₁.toGives).trans h) fun _ _ => id

theorem givesBy_canonByte (byte : UInt8) :
    GivesBy (canonByte byte) t
      (if byte.toNat = t.termios.cc.veof then
        if t.lineBuffer = [] then [.eof] else t.lineBuffer.map .byte
      else if byte.toNat = t.termios.cc.verase ∨ byte = 0x08 then []
      else if byte = 0x0a then (t.lineBuffer ++ [0x0a]).map .byte
      else []) := by
  rw [canonByte, GivesBy, wp_bind, wp_read]
  by_cases hv : byte.toNat = t.termios.cc.veof
  · simp only [if_pos hv]
    exact givesBy_eofByte t
  · simp only [if_neg hv]
    by_cases he : byte.toNat = t.termios.cc.verase ∨ byte = 0x08
    · simp only [if_pos he]
      exact givesBy_eraseByte t
    · simp only [if_neg he]
      by_cases hn : byte = 0x0a
      · simp only [if_pos hn]
        exact givesBy_newlineByte t
      · simp only [if_neg hn]
        exact givesBy_regularByte t byte

/-! ### Signal characters -/

theorem gives_signals (l : List SignalCall) : Gives t [] { t with signals := l } :=
  .silent ⟨rfl, rfl, rfl, rfl⟩ rfl rfl rfl

variable {t}

variable (answer : Nat → Nat)

/-- A call of `onSignal` gives the slave nothing; with a foreground group its answer is the
callback's. -/
theorem signalForeground_wp (signal : Nat) (excl : Bool) :
    (signalForeground answer signal excl).wp t
      (fun n t' => Gives t [] t' ∧ (0 < t.foregroundPgid → n = answer t.signals.length))
      fun _ _ => True := by
  simp only [signalForeground, wp_bind, wp_read, id]
  split
  · simp only [wp_bind, wp_update, wp_pure]
    exact ⟨gives_signals t _, fun _ => trivial⟩
  · rename_i hf
    exact ⟨.refl t, fun h => absurd h hf⟩

theorem givesBy_interceptSigint (hf : 0 < t.foregroundPgid) :
    GivesBy (interceptSigint answer) t
      (if answer t.signals.length = 0 then [.byte 0x0a] else []) := by
  rw [interceptSigint, GivesBy, wp_bind]
  refine wp_mono (echoIf_wp _) (fun _ t₁ h₁ => ?_) fun _ _ => id
  rw [wp_bind]
  refine wp_mono (signalForeground_wp answer 2 true) (fun n t₂ h₂ => ?_) fun _ _ => id
  obtain ⟨hg, hn⟩ := h₂
  have hn : n = answer t.signals.length := by rw [hn (h₁.foreground ▸ hf), h₁.signals]
  subst hn
  have h₀ := h₁.toGives.trans hg
  split
  · exact wp_mono (givesBy_via rfl) (fun _ _ h => h₀.trans h) fun _ _ => id
  · exact h₀

theorem givesBy_echoSignal (t : Terminal) (signal : Nat) : GivesBy (echoSignal signal) t [] := by
  unfold echoSignal
  split
  · exact givesBy_echoIf _
  · split
    · exact givesBy_echoIf _
    · exact givesBy_pure t

theorem givesBy_signalByte (signal : Nat) (hc : t.termios.icanon = true) :
    GivesBy (signalByte answer signal) t
      (if t.intercepts signal ∧ answer t.signals.length = 0 then [.byte 0x0a] else []) := by
  simp only [signalByte, GivesBy, wp_bind, wp_update, wp_read, if_pos hc]
  have h₀ := gives_line t []
  have hi : Terminal.intercepts { t with lineBuffer := [] } signal = t.intercepts signal := rfl
  rw [hi]
  by_cases hs : t.intercepts signal
  · simp only [hs, true_and, if_true]
    have hf : 0 < t.foregroundPgid := by
      simp only [intercepts, Bool.and_eq_true, beq_iff_eq, decide_eq_true_eq] at hs
      omega
    exact wp_mono (givesBy_interceptSigint answer hf) (fun _ _ h => h₀.trans h) fun _ _ => id
  · simp only [hs, Bool.false_eq_true, false_and, if_false, wp_bind]
    refine wp_mono (givesBy_echoSignal _ signal) (fun _ t₁ h₁ => ?_) fun _ _ => id
    refine wp_map.mpr ?_
    refine wp_mono (signalForeground_wp answer signal false) (fun n t₂ h₂ => ?_) fun _ _ => id
    exact (h₀.trans h₁).trans h₂.1

/-! ### A byte and a write -/

theorem givesBy_processByte (byte : UInt8) (hc : t.termios.icanon = true) :
    GivesBy (processByte answer byte) t (t.typedBy answer byte) := by
  simp only [processByte, GivesBy, typedBy, wp_bind, wp_read, id]
  cases hs : t.signalOf (translate t.termios.icrnl byte) with
  | some signal => exact givesBy_signalByte answer signal hc
  | none =>
    simp only [if_pos hc]
    exact givesBy_canonByte t _

theorem givesBy_processBytes (data : ByteArray8) :
    ∀ t : Terminal, t.termios.icanon = true →
      GivesBy (processBytes answer data) t (typedIn answer data t) := by
  induction data with
  | nil => exact fun t _ => givesBy_pure t
  | cons byte rest ih =>
    intro t hc
    have h := givesBy_processByte answer byte hc
    simp only [processBytes, typedIn, GivesBy, wp_bind]
    unfold GivesBy wp at h
    unfold wp
    rcases hp : (processByte answer byte).exec t with ⟨_ | _, t₁⟩
    · trivial
    · rw [hp] at h
      exact wp_mono (ih t₁ (h.termios ▸ hc)) (fun _ _ h₁ => h.trans h₁) fun _ _ => id

/-! ### Reads -/

/-- The chunks ahead of the first end-of-file mark. -/
def beforeEof (buffer : List ByteArray8) : List ByteArray8 := buffer.takeWhile (!·.isEmpty)

/-- A read of `length` bytes takes an end-of-file mark only alone. -/
def keepsEof (buffer : List ByteArray8) (length : Nat) : Bool :=
  match buffer with
  | [] :: rest => rest.isEmpty
  | _ =>
    beforeEof buffer == buffer || decide (length ≤ bufferBytes (beforeEof buffer))

/-- The chunks a read takes ahead of a mark it does not reach. -/
theorem drainChunks_beforeEof (buffer : List ByteArray8) : ∀ length : Nat,
    beforeEof buffer = buffer ∨ length ≤ bufferBytes (beforeEof buffer) →
    [] ∉ (drainChunks buffer length).1 ∧
    (drainChunks buffer length).1.flatten.map .byte ++
      (drainChunks buffer length).2.flatMap observed = buffer.flatMap observed := by
  induction buffer with
  | nil => exact fun _ _ => ⟨List.not_mem_nil, rfl⟩
  | cons chunk rest ih =>
    intro length hl
    rw [drainChunks]
    by_cases h0 : length = 0
    · rw [if_pos h0]
      exact ⟨List.not_mem_nil, rfl⟩
    · rw [if_neg h0]
      have hc : chunk ≠ [] := by
        rintro rfl
        have hl : length ≤ 0 := by simpa [beforeEof, bufferBytes] using hl
        omega
      have ho := observed_of_ne_nil hc
      have he : beforeEof (chunk :: rest) = chunk :: beforeEof rest :=
        List.takeWhile_cons_of_pos (by simp [hc])
      simp only [he, List.cons.injEq, true_and, bufferBytes, List.map_cons, List.sum_cons] at hl
      split
      · have hr : beforeEof rest = rest ∨ length - chunk.length ≤ bufferBytes (beforeEof rest) :=
          hl.imp id fun h => by unfold bufferBytes; omega
        obtain ⟨hm, hi⟩ := ih _ hr
        refine ⟨?_, ?_⟩
        · simp only [List.mem_cons, not_or]
          exact ⟨fun h => hc h.symm, hm⟩
        · simp only [List.flatten_cons, List.map_append, List.flatMap_cons, ho,
            List.append_assoc, hi]
      · rename_i hle
        have ht : chunk.take length ≠ [] := by
          simp [hc, h0]
        have hd : chunk.drop length ≠ [] := by
          simp only [ne_eq, List.drop_eq_nil_iff]
          omega
        refine ⟨by simp [Ne.symm ht], ?_⟩
        simp only [List.flatten_cons, List.flatten_nil, List.append_nil, List.flatMap_cons,
          observed_of_ne_nil hd, ho, ← List.append_assoc, ← List.map_append, List.take_append_drop]

variable {length : Nat}

/-- A read that keeps the marks takes the front of the stream. -/
theorem observed_drainChunks {buffer : List ByteArray8} (hb : buffer ≠ [])
    (hl : 0 < length) (hk : keepsEof buffer length = true) :
    observed (drainChunks buffer length).1.flatten ++
      (drainChunks buffer length).2.flatMap observed = buffer.flatMap observed := by
  rcases buffer with - | ⟨- | ⟨b, bs⟩, rest⟩
  · exact absurd rfl hb
  · have hr : rest = [] := by simpa [keepsEof] using hk
    subst hr
    have h0 : length ≠ 0 := Nat.pos_iff_ne_zero.mp hl
    simp [drainChunks, h0]
  · simp only [keepsEof, Bool.or_eq_true, beq_iff_eq, decide_eq_true_eq] at hk
    obtain ⟨hm, hi⟩ := drainChunks_beforeEof _ length hk
    rw [observed_of_ne_nil, hi]
    intro hf
    -- the first chunk is not empty and some of it is taken
    rw [drainChunks, if_neg (Nat.pos_iff_ne_zero.mp hl)] at hf
    split at hf
    · simp at hf
    · simp only [List.flatten_cons, List.flatten_nil, List.append_nil, List.take_eq_nil_iff] at hf
      rcases hf with hf | hf
      · omega
      · cases hf

/-! ### Whole calls -/

theorem write_gives {side : PtyEnd} {answer : Nat → Nat} {n : Nat}
    (hc : t.termios.icanon = true) (h : (write side answer data).exec t = (.ok n, t')) :
    Gives t (typedOn side answer data t) t' := by
  have hw : (write side answer data).wp t (fun _ t' => Gives t (typedOn side answer data t) t')
      fun _ _ => True := by
    cases side with
    | master =>
      simp only [write, wp_bind, wp_read, id]
      split
      · trivial
      · split
        · trivial
        · simp only [processInput, wp_bind, wp_read, hc, Bool.true_or, if_true]
          exact givesBy_processBytes answer data t hc
    | slave =>
      simp only [write, wp_bind, wp_read, id]
      split
      · trivial
      · split
        · trivial
        · rw [wp_bind]
          exact via_wp fun _ ht => deliverOutput_gives ht
  rwa [wp, h] at hw

variable {o : ReadOutcome}

theorem readMaster_gives {reader : Nat}
    (h : t.readMaster reader length = .ok (o, t')) : Gives t [] t' := by
  unfold readMaster at h
  split at h
  · cases h
  · split at h
    · cases h
      refine .silent ⟨rfl, rfl, rfl, rfl⟩ rfl rfl ?_
      simp [slaveReads, List.filter_append]
    · split at h
      · cases h
        exact .refl t
      · cases h
        exact .silent ⟨rfl, rfl, rfl, rfl⟩ rfl rfl rfl

/-- A slave's read: its call is added to the readers, and the stream stays. -/
theorem readSlave_gives {reader : Nat} (hw : t.Waiting)
    (hm : t.closedMaster = false) (hl : 0 < length) (hk : keepsEof t.inputBuffer length = true)
    (h : t.readSlave reader length = .ok (o, t')) :
    t'.termios = t.termios ∧ t'.closedMaster = false ∧ t'.Waiting ∧ t'.stream = t.stream ∧
      t'.readers = t.readers ++ [reader] := by
  unfold readSlave at h
  split at h
  · cases h
  · split at h
    · rename_i hb
      cases h
      have hn : t.inputWaiters = [] := by
        by_contra hne
        exact hb (hw hne)
      refine ⟨rfl, hm, fun hne => absurd hn hne, ?_, ?_⟩
      · simp only [stream, slaveReads, List.filter_append, List.flatMap_append, List.append_assoc]
        congr 1
        simpa using observed_drainChunks hb hl hk
      · simp [readers, slaveReads, List.filter_append, hn]
    · rename_i hb
      rw [if_neg (by simp [hm])] at h
      cases h
      refine ⟨rfl, hm, fun _ => by simpa using hb, rfl, ?_⟩
      simp [readers, slaveReads]

end Terminal

/-! ### Runs -/

/-- A terminal with the record of what was typed and how many reads were issued. -/
structure TerminalRun where
  term : Terminal
  masterReads : Nat
  slaveReads : Nat
  typed : List Token

inductive TerminalAction where
  | write (side : PtyEnd) (answer : Nat → Nat) (data : ByteArray8)
  | read (side : PtyEnd) (length : Nat)
  | setTermios (c : TermiosChange)
  | setForegroundPgid (pgid : Nat)
  | setSessionLeader (pgid : Nat)

namespace TerminalRun

def start : TerminalRun := ⟨.new, 0, 0, []⟩

/-- A write that throws is not a step. -/
def step (r : TerminalRun) : TerminalAction → Option TerminalRun
  | .write side answer data =>
    match (Terminal.write side answer data).exec r.term with
    | (.error _, _) => none
    | (.ok _, t) => some { r with
        term := t, typed := r.typed ++ Terminal.typedOn side answer data r.term }
  | .read .master length =>
    match r.term.readMaster r.masterReads length with
    | .error _ => none
    | .ok (_, t) => some { r with term := t, masterReads := r.masterReads + 1 }
  | .read .slave length =>
    match r.term.readSlave r.slaveReads length with
    | .error _ => none
    | .ok (_, t) => some { r with term := t, slaveReads := r.slaveReads + 1 }
  | .setTermios c => some { r with term := r.term.setTermios c }
  | .setForegroundPgid pgid => some { r with term := { r.term with foregroundPgid := pgid } }
  | .setSessionLeader pgid => some { r with term := { r.term with sessionLeaderPgid := pgid } }

/-- The terminal stays in canonical mode, and reads ask for something. -/
def canonical (_ : TerminalRun) : TerminalAction → Bool
  | .setTermios c => c.icanon != some false
  | .read _ length => decide (0 < length)
  | _ => true

/-- In addition, no slave read takes an end-of-file mark together with other chunks. -/
def keepsEof (r : TerminalRun) (a : TerminalAction) : Bool :=
  r.canonical a &&
    match a with
    | .read .slave length => Terminal.keepsEof r.term.inputBuffer length
    | _ => true

/-- What the slave's reads returned and what is still buffered is what was typed, each end of file
one read of no bytes in its place; the reads resolve in the order they were issued. -/
structure EofInPlace (r : TerminalRun) : Prop where
  stream : r.term.stream = r.typed
  readers : r.term.readers = List.range r.slaveReads

/-- `EofInPlace`, with what keeps it. -/
structure Inv (r : TerminalRun) : Prop extends EofInPlace r where
  canonical : r.term.termios.icanon = true
  openMaster : r.term.closedMaster = false
  waiting : r.term.Waiting

namespace Inv

variable {r r' : TerminalRun} {a : TerminalAction}

theorem start : Inv TerminalRun.start where
  stream := rfl
  readers := rfl
  canonical := rfl
  openMaster := rfl
  waiting := fun _ => rfl

/-- A call of which the slave sees these tokens. -/
theorem gives {t : Terminal} {toks : List Token} {n : Nat} (h : Inv r)
    (hg : r.term.Gives toks t) :
    Inv { r with term := t, typed := r.typed ++ toks, masterReads := n } where
  stream := by rw [hg.stream h.waiting, h.stream]
  readers := by rw [hg.readers, h.readers]
  canonical := by rw [hg.termios, h.canonical]
  openMaster := by rw [hg.closed, h.openMaster]
  waiting := hg.waiting h.waiting

theorem step (h : Inv r) (ha : r.keepsEof a) (hs : r.step a = some r') : Inv r' := by
  cases a with
  | write side answer data =>
    simp only [TerminalRun.step] at hs
    split at hs
    · cases hs
    · rename_i he
      cases hs
      exact h.gives (Terminal.write_gives h.canonical he)
  | read side length =>
    cases side with
    | master =>
      simp only [TerminalRun.step] at hs
      split at hs
      · cases hs
      · rename_i he
        cases hs
        simpa using h.gives (n := r.masterReads + 1) (Terminal.readMaster_gives he)
    | slave =>
      simp only [TerminalRun.step] at hs
      split at hs
      · cases hs
      · rename_i he
        cases hs
        obtain ⟨hl, hk⟩ := Bool.and_eq_true_iff.mp ha
        obtain ⟨ht, hm, hw, hst, hr⟩ :=
          Terminal.readSlave_gives h.waiting h.openMaster (of_decide_eq_true hl) hk he
        refine ⟨⟨hst.trans h.stream, ?_⟩, ht ▸ h.canonical, hm, hw⟩
        rw [hr, h.readers, List.range_succ]
  | setTermios c =>
    cases hs
    refine ⟨⟨h.stream, h.readers⟩, ?_, h.openMaster, h.waiting⟩
    -- the change keeps the canonical mode or asks for it
    have hc : c.icanon ≠ some false := by
      simpa [TerminalRun.keepsEof, TerminalRun.canonical] using ha
    rcases hi : c.icanon with - | - | -
    · simpa [Terminal.setTermios, hi] using h.canonical
    · exact absurd hi hc
    · simp [Terminal.setTermios, hi]
  | setForegroundPgid | setSessionLeader =>
    cases hs
    exact ⟨⟨h.stream, h.readers⟩, h.canonical, h.openMaster, h.waiting⟩

end Inv

/-- As long as no read takes an end-of-file mark together with other chunks, every end of file
typed in canonical mode is one read of no bytes, in its place. -/
theorem eofInPlace_of_keepsEof {r : TerminalRun} (h : Reach step (keepsEof · ·) start r) :
    EofInPlace r :=
  (h.invariant Inv.start fun _ _ _ hi ha hs => hi.step ha hs).toEofInPlace

/-- Two ends of file: one behind a line in the buffer, one for a read that waits. -/
def typeAndRead : List TerminalAction :=
  [.write .master (fun _ => 0) [0x78, 0x0a, 0x04], .read .slave 2, .read .slave 8,
    .read .slave 8, .write .master (fun _ => 0) [0x04]]

theorem eofInPlace_of_keepsEof_twice :
    ∃ r, Reach step (keepsEof · ·) start r ∧ EofInPlace r ∧
      r.typed = [.byte 0x78, .byte 0x0a, .eof, .eof] ∧
      r.term.slaveReads.map (·.data) = [[0x78, 0x0a], [], []] :=
  (Reach.exists_of_execIf step _ start typeAndRead (by decide +kernel)).imp fun _ h =>
    ⟨h.1, eofInPlace_of_keepsEof h.1, h.2⟩

/-- An end of file with a line behind it: one read takes both. -/
def eofThenLine : List TerminalAction :=
  [.write .master (fun _ => 0) [0x04, 0x78, 0x0a], .read .slave 8]

/-- The end of file is lost. -/
theorem eofInPlace_fails :
    ∃ r, Reach step (canonical · ·) start r ∧ ¬ EofInPlace r ∧
      r.typed = [.eof, .byte 0x78, .byte 0x0a] ∧
      r.term.slaveReads.map (·.data) = [[0x78, 0x0a]] ∧ r.term.inputBuffer = [] := by
  obtain ⟨r, hr, ht, hd, hb⟩ := Reach.exists_of_execIf step (canonical · ·) start eofThenLine
    (P := fun r => r.typed = [.eof, .byte 0x78, .byte 0x0a] ∧
      r.term.slaveReads.map (·.data) = [[0x78, 0x0a]] ∧ r.term.inputBuffer = []) (by decide +kernel)
  refine ⟨r, hr, fun hp => ?_, ht, hd, hb⟩
  have hs := hp.stream
  rw [ht, Terminal.stream, hb, ← List.flatMap_map, hd] at hs
  exact absurd hs (by decide)

end TerminalRun

end SecureExec.Kernel
