import SecureExec.Kernel.Terminal

/-!
# Kernel — Discipline — what a write does, one thing after the other

A write to a terminal sets the line buffer, gives chunks to its two directions and sends signals;
the first chunk that does not fit ends it.  Which actions these are (`writeActions`) depends on the
attributes, the process groups, the line and the number of signals sent so far only: what a
terminal looks like without its buffers and its readers is its `view`.

* `processByte_does`: the loop over a byte is its list of actions.
* `write_eq`: a write is its list of actions.
* `dataActions_append`: the bytes of two writes are the bytes of one.
-/

namespace SecureExec.Kernel
open SecureExec Prog

/-- A thing that a write does. -/
inductive TtyAction where
  /-- The line buffer becomes this. -/
  | line (l : ByteArray8)
  /-- A chunk for the slave. -/
  | input (chunk : ByteArray8)
  /-- A chunk for the master, with the text of the error. -/
  | output (full : String) (chunk : ByteArray8)
  | signal (call : SignalCall)
  deriving DecidableEq

namespace TtyAction

def apply : TtyAction → Terminal → Except Failure Terminal
  | .line l, t => .ok { t with lineBuffer := l }
  | .input chunk, t => t.deliverInput chunk
  | .output full chunk, t => t.deliverOutput full chunk
  | .signal call, t => .ok { t with signals := t.signals ++ [call] }

/-- The actions up to one that throws. -/
def perform : List TtyAction → Terminal → Except Failure Unit × Terminal
  | [], t => (.ok (), t)
  | a :: as, t =>
    match a.apply t with
    | .ok t' => perform as t'
    | .error e => (.error e, t)

/-- What an action does to the line and to the signals. -/
def after : TtyAction → Terminal → Terminal
  | .line l, t => { t with lineBuffer := l }
  | .signal call, t => { t with signals := t.signals ++ [call] }
  | _, t => t

def afterAll (as : List TtyAction) (t : Terminal) : Terminal := as.foldl (fun t a => a.after t) t

end TtyAction

namespace Terminal
open TtyAction (apply perform after afterAll)

/-- The terminal without its buffers and its readers. -/
def view (t : Terminal) : Terminal :=
  { t with
    inputWaiters := []
    outputWaiters := []
    inputBuffer := []
    outputBuffer := []
    resolved := [] }

/-! ### The actions of a write -/

/-- The echo of some bytes. -/
def echoes (t : Terminal) (data : ByteArray8) : List TtyAction :=
  if t.termios.echo then [.output "PTY output buffer full (echo backpressure)" data] else []

def signalled (t : Terminal) (signal : Nat) (excludeLeaders : Bool) : List TtyAction :=
  if 0 < t.foregroundPgid then [.signal ⟨t.foregroundPgid, signal, excludeLeaders⟩] else []

/-- What `onSignal` answers now. -/
def childrenKilled (answer : Nat → Nat) (t : Terminal) : Nat :=
  if 0 < t.foregroundPgid then answer t.signals.length else 0

def interceptActions (answer : Nat → Nat) (t : Terminal) : List TtyAction :=
  t.echoes [0x5e, 0x43, 0x0d, 0x0a] ++ (t.signalled 2 true ++
    if t.childrenKilled answer = 0 then [.input [0x0a]] else [])

def echoSignalActions (signal : Nat) (t : Terminal) : List TtyAction :=
  if signal = 20 then t.echoes [0x5e, 0x5a, 0x0d, 0x0a]
  else if signal = 3 then t.echoes [0x5e, 0x5c, 0x0d, 0x0a]
  else []

def signalActions (answer : Nat → Nat) (signal : Nat) (t : Terminal) : List TtyAction :=
  (if t.termios.icanon then [.line []] else []) ++
    if t.intercepts signal then t.interceptActions answer
    else t.echoSignalActions signal ++ t.signalled signal false

def eofActions (t : Terminal) : List TtyAction :=
  if t.lineBuffer = [] then [.input []] else [.input t.lineBuffer, .line []]

def eraseActions (t : Terminal) : List TtyAction :=
  if t.lineBuffer = [] then [] else .line t.lineBuffer.dropLast :: t.echoes [0x08, 0x20, 0x08]

def newlineActions (t : Terminal) : List TtyAction :=
  .line (t.lineBuffer ++ [0x0a]) ::
    (t.echoes [0x0d, 0x0a] ++ [.input (t.lineBuffer ++ [0x0a]), .line []])

def regularActions (byte : UInt8) (t : Terminal) : List TtyAction :=
  if MAX_CANON ≤ t.lineBuffer.length then []
  else .line (t.lineBuffer ++ [byte]) :: t.echoes [byte]

def canonActions (byte : UInt8) (t : Terminal) : List TtyAction :=
  if byte.toNat = t.termios.cc.veof then t.eofActions
  else if byte.toNat = t.termios.cc.verase ∨ byte = 0x08 then t.eraseActions
  else if byte = 0x0a then t.newlineActions
  else t.regularActions byte

def rawActions (byte : UInt8) (t : Terminal) : List TtyAction :=
  t.echoes [byte] ++ [.input [byte]]

/-- What a byte does. -/
def byteActions (answer : Nat → Nat) (byte : UInt8) (t : Terminal) : List TtyAction :=
  let byte := translate t.termios.icrnl byte
  match t.signalOf byte with
  | some signal => t.signalActions answer signal
  | none => if t.termios.icanon then t.canonActions byte else t.rawActions byte

/-- What some bytes do. -/
def dataActions (answer : Nat → Nat) : ByteArray8 → Terminal → List TtyAction
  | [], _ => []
  | byte :: rest, t =>
    t.byteActions answer byte ++
      dataActions answer rest (afterAll (t.byteActions answer byte) t)

/-- What a write to an open terminal does. -/
def writeActions (side : PtyEnd) (answer : Nat → Nat) (data : ByteArray8) (t : Terminal) :
    List TtyAction :=
  match side with
  | .master =>
    if t.termios.icanon || t.termios.echo || t.termios.isig then t.dataActions answer data
    else [.input (applyInputTranslations t.termios.icrnl data)]
  | .slave => [.output "PTY output buffer full" (t.processOutput data)]

/-! ### Actions and the view -/

variable {t t' : Terminal} {as bs : List TtyAction} {answer : Nat → Nat} {byte : UInt8}
  {data : ByteArray8}

theorem perform_append (as bs : List TtyAction) (t : Terminal) :
    perform (as ++ bs) t =
      match perform as t with
      | (.ok _, t') => perform bs t'
      | (.error e, t') => (.error e, t') := by
  induction as generalizing t with
  | nil => rfl
  | cons a as ih =>
      rw [List.cons_append, perform, perform]
      cases a.apply t with
      | ok t' => exact ih t'
      | error e => rfl

theorem perform_append_ok (h : perform as t = (.ok (), t')) :
    perform (as ++ bs) t = perform bs t' := by
  rw [perform_append, h]

theorem afterAll_append (as bs : List TtyAction) (t : Terminal) :
    afterAll (as ++ bs) t = afterAll bs (afterAll as t) := List.foldl_append

theorem view_after (a : TtyAction) (t : Terminal) : (a.after t).view = a.after t.view := by
  cases a <;> rfl

theorem view_afterAll (as : List TtyAction) (t : Terminal) :
    (afterAll as t).view = afterAll as t.view := by
  induction as generalizing t with
  | nil => rfl
  | cons a as ih =>
      rw [afterAll, List.foldl_cons]
      exact (ih (a.after t)).trans (by rw [view_after]; rfl)

theorem view_apply {a : TtyAction} (h : a.apply t = .ok t') : t'.view = (a.after t).view := by
  cases a with
  | line l =>
      cases h
      rfl
  | input chunk =>
      rw [apply, deliverInput] at h
      split at h
      · cases h
        rfl
      · split at h <;> cases h
        rfl
  | output full chunk =>
      rw [apply, deliverOutput] at h
      split at h
      · cases h
        rfl
      · split at h <;> cases h
        rfl
  | signal call =>
      cases h
      rfl

/-- Buffers and readers make no difference to what is seen after some actions. -/
theorem view_perform (h : perform as t = (.ok (), t')) : t'.view = (afterAll as t).view := by
  induction as generalizing t with
  | nil =>
      cases h
      rfl
  | cons a as ih =>
      rw [perform] at h
      split at h
      · rename_i u hu
        rw [ih h, view_afterAll, view_apply hu, ← view_afterAll]
        rfl
      · cases h

theorem byteActions_view (answer : Nat → Nat) (byte : UInt8) (t : Terminal) :
    t.view.byteActions answer byte = t.byteActions answer byte := rfl

theorem dataActions_view (answer : Nat → Nat) (data : ByteArray8) (t : Terminal) :
    t.view.dataActions answer data = t.dataActions answer data := by
  induction data generalizing t with
  | nil => rfl
  | cons byte rest ih =>
      rw [dataActions, dataActions, byteActions_view, ← view_afterAll, ih]

/-- Terminals that look alike. -/
theorem dataActions_congr (h : t.view = t'.view) :
    t.dataActions answer data = t'.dataActions answer data := by
  rw [← dataActions_view, h, dataActions_view]

theorem dataActions_append (answer : Nat → Nat) (xs ys : ByteArray8) (t : Terminal) :
    t.dataActions answer (xs ++ ys) =
      t.dataActions answer xs ++
        (afterAll (t.dataActions answer xs) t).dataActions answer ys := by
  induction xs generalizing t with
  | nil => rfl
  | cons x xs ih =>
      rw [List.cons_append, dataActions, dataActions, ih, afterAll_append, List.append_assoc]

/-! ### A write is its actions -/

/-- At `t` the program is these actions. -/
def Does (p : Tty Unit) (t : Terminal) (as : List TtyAction) : Prop := p.exec t = perform as t

namespace Does

/-- One program after the other, the second at a terminal that looks as the first leaves it. -/
theorem bind {p : Tty Unit} {f : Unit → Tty Unit} (h : Does p t as)
    (hf : ∀ t', t'.view = (afterAll as t).view → Does (f ()) t' bs) :
    Does (p >>= f) t (as ++ bs) := by
  rw [Does, exec_bind, h, perform_append]
  split
  · rename_i t' hp
    rw [hp]
    exact hf t' (view_perform hp)
  · rename_i e t' hp
    rw [hp]

theorem nil (t : Terminal) : Does (pure ()) t [] := rfl

theorem update {f : Terminal → Terminal} {a : TtyAction} (h : a.apply t = .ok (f t)) :
    Does (update f) t [a] := by
  rw [Does, perform, h]
  rfl

theorem via {f : Terminal → Except Failure Terminal} {a : TtyAction} (h : a.apply t = f t) :
    Does (via f) t [a] := by
  rw [Does, Terminal.via, exec_bind, exec_read]
  simp only [id]
  rw [exec_bind, exec_lift, perform, h]
  cases f t <;> rfl

end Does

theorem echoIf_does (data : ByteArray8) (t : Terminal) : Does (echoIf data) t (t.echoes data) := by
  rw [Does, echoIf, exec_bind, exec_read, echoes]
  cases t.termios.echo with
  | true => exact Does.via rfl
  | false => rfl

/-- An echo that the attributes of `t` decide. -/
theorem echoIf_does_of (data : ByteArray8) (h : t'.termios = t.termios) :
    Does (echoIf data) t' (t.echoes data) := by
  have he : t.echoes data = t'.echoes data := by rw [echoes, echoes, h]
  rw [he]
  exact echoIf_does data t'

section

variable (answer) (signal : Nat) (excl : Bool) (t : Terminal)

/-- A call of `onSignal`, for one that does not need its answer. -/
theorem signalForeground_exec : (signalForeground answer signal excl).exec t =
      (.ok (t.childrenKilled answer), afterAll (t.signalled signal excl) t) := by
  rw [signalForeground, exec_bind, exec_read, signalled, childrenKilled]
  simp only [id]
  split <;> rfl

theorem perform_signalled :
    perform (t.signalled signal excl) t = (.ok (), afterAll (t.signalled signal excl) t) := by
  rw [signalled]
  split <;> rfl

theorem signalForeground_does :
    Does (discard (signalForeground answer signal excl)) t (t.signalled signal excl) := by
  rw [Does, perform_signalled]
  have h := signalForeground_exec answer signal excl t
  rw [show discard (signalForeground answer signal excl) =
    (signalForeground answer signal excl >>= fun _ => pure ()) from rfl, exec_bind, h]
  rfl

/-- The answer is the one at the terminal as it is before the echo. -/
theorem interceptSigint_does : Does (interceptSigint answer) t (t.interceptActions answer) := by
  rw [interceptSigint, interceptActions]
  refine (echoIf_does _ t).bind fun t₁ h₁ => ?_
  have hv : t₁.view = t.view := by
    rw [h₁, echoes]
    split <;> rfl
  have hs : t.signalled 2 true = t₁.signalled 2 true :=
    show t.view.signalled 2 true = t₁.view.signalled 2 true by rw [hv]
  have hk : t.childrenKilled answer = t₁.childrenKilled answer :=
    show t.view.childrenKilled answer = t₁.view.childrenKilled answer by rw [hv]
  rw [hs, hk, Does, exec_bind, signalForeground_exec, perform_append, perform_signalled]
  simp only
  split
  · exact Does.via rfl
  · rfl

theorem echoSignal_does : Does (echoSignal signal) t (t.echoSignalActions signal) := by
  rw [echoSignal, echoSignalActions]
  split
  · exact echoIf_does _ t
  · split
    · exact echoIf_does _ t
    · exact .nil t

theorem signalByte_does : Does (signalByte answer signal) t (t.signalActions answer signal) := by
  rw [signalByte, signalActions]
  have hc : Does (update fun t => if t.termios.icanon then { t with lineBuffer := [] } else t)
      t (if t.termios.icanon then [.line []] else []) := by
    rw [Does, exec_update]
    split <;> rfl
  refine hc.bind fun t₁ h₁ => ?_
  -- what was asked of the terminal before is asked of it now: the line is not looked at
  have hi : t.intercepts signal = t₁.intercepts signal :=
    show t.view.intercepts signal = t₁.view.intercepts signal by
      rw [h₁]
      split <;> rfl
  have ha : t.interceptActions answer = t₁.interceptActions answer :=
    show t.view.interceptActions answer = t₁.view.interceptActions answer by
      rw [h₁]
      split <;> rfl
  have he : t.echoSignalActions signal = t₁.echoSignalActions signal :=
    show t.view.echoSignalActions signal = t₁.view.echoSignalActions signal by
      rw [h₁]
      split <;> rfl
  have hs : t.signalled signal false = t₁.signalled signal false :=
    show t.view.signalled signal false = t₁.view.signalled signal false by
      rw [h₁]
      split <;> rfl
  rw [hi, ha, he, hs, Does, exec_bind, exec_read]
  simp only
  split
  · exact interceptSigint_does answer t₁
  · refine (echoSignal_does signal t₁).bind fun t₂ h₂ => ?_
    have hs : t₁.signalled signal false = t₂.signalled signal false :=
      show t₁.view.signalled signal false = t₂.view.signalled signal false by
        rw [h₂, echoSignalActions, echoes, echoes]
        split <;> split <;> (try split) <;> rfl
    rw [hs]
    exact signalForeground_does answer signal false t₂

theorem eofByte_does : Does eofByte t t.eofActions := by
  rw [Does, eofByte, exec_bind, exec_read, eofActions]
  simp only
  split
  · exact Does.via rfl
  · exact Does.bind (Does.via rfl : Does _ t [.input t.lineBuffer]) fun t' _ => Does.update rfl

theorem eraseByte_does : Does eraseByte t t.eraseActions := by
  rw [Does, eraseByte, exec_bind, exec_read, eraseActions]
  simp only
  split
  · rfl
  · exact Does.bind (Does.update rfl : Does _ t [.line t.lineBuffer.dropLast]) fun t' h' =>
      echoIf_does_of _ (congrArg (·.termios) h')

theorem newlineByte_does : Does newlineByte t t.newlineActions := by
  rw [newlineByte, newlineActions]
  refine Does.bind (Does.update rfl : Does _ t [.line (t.lineBuffer ++ [0x0a])]) fun t₁ h₁ => ?_
  refine (echoIf_does_of _ (congrArg (·.termios) h₁) : Does _ t₁ (t.echoes [0x0d, 0x0a])).bind fun t₂ h₂ => ?_
  have hl : t.lineBuffer ++ [0x0a] = t₂.lineBuffer := by
    have h : t₂.view.lineBuffer = t₁.view.lineBuffer := by
      rw [h₂, echoes]
      split <;> rfl
    have h' : t₁.view.lineBuffer = t.lineBuffer ++ [0x0a] := by
      rw [h₁]
      rfl
    exact h'.symm.trans h.symm
  rw [hl]
  refine Does.bind (Does.via rfl : Does _ t₂ [.input t₂.lineBuffer]) fun t' _ => ?_
  exact Does.update rfl

variable (byte)

theorem regularByte_does : Does (regularByte byte) t (t.regularActions byte) := by
  rw [Does, regularByte, exec_bind, exec_read, regularActions]
  simp only
  split
  · rfl
  · exact Does.bind (Does.update rfl : Does _ t [.line (t.lineBuffer ++ [byte])]) fun t' h' =>
      echoIf_does_of _ (congrArg (·.termios) h')

theorem canonByte_does : Does (canonByte byte) t (t.canonActions byte) := by
  rw [Does, canonByte, exec_bind, exec_read, canonActions]
  simp only
  split
  · exact eofByte_does t
  · split
    · exact eraseByte_does t
    · split
      · exact newlineByte_does t
      · exact regularByte_does byte t

theorem rawByte_does : Does (rawByte byte) t (t.rawActions byte) :=
  (echoIf_does [byte] t).bind fun _ _ => Does.via rfl

/-- The loop over a byte is its list of actions. -/
theorem processByte_does : Does (processByte answer byte) t (t.byteActions answer byte) := by
  rw [Does, processByte, exec_bind, exec_read, byteActions]
  simp only [id]
  cases t.signalOf (translate t.termios.icrnl byte) with
  | some signal => exact signalByte_does answer signal t
  | none =>
      cases t.termios.icanon with
      | true => exact canonByte_does _ t
      | false => exact rawByte_does _ t

variable {byte}

theorem processBytes_does (data : ByteArray8) (t : Terminal) :
    Does (processBytes answer data) t (t.dataActions answer data) := by
  induction data generalizing t with
  | nil => rfl
  | cons byte rest ih =>
      rw [processBytes, dataActions]
      refine (processByte_does answer byte t).bind fun t' h' => ?_
      rw [dataActions_congr h'.symm]
      exact ih t'

end

/-- A terminal that takes writes. -/
def Open (t : Terminal) : Prop := t.closedMaster = false ∧ t.closedSlave = false

instance (t : Terminal) : Decidable t.Open := inferInstanceAs (Decidable (_ ∧ _))

/-- A write that has returned all its bytes, or stopped. -/
def returning (n : Nat) : Except Failure Unit × Terminal → Except Failure Nat × Terminal
  | (.ok _, t) => (.ok n, t)
  | (.error e, t) => (.error e, t)

/-- **A write to an open terminal is its list of actions.** -/
theorem write_eq (h : t.Open) (side : PtyEnd) (answer : Nat → Nat) (data : ByteArray8) :
    (write side answer data).exec t =
      returning data.length (perform (t.writeActions side answer data) t) := by
  obtain ⟨hm, hs⟩ := h
  have hr : ∀ {p : Tty Unit} {as : List TtyAction}, Does p t as →
      (p >>= fun _ => pure data.length).exec t = returning data.length (perform as t) := by
    intro p as hp
    rw [exec_bind, hp]
    rcases perform as t with ⟨_ | _, _⟩ <;> rfl
  rw [write, exec_bind, exec_read]
  simp only [id, hm, hs, Bool.false_eq_true, if_false]
  cases side with
  | master =>
      simp only [processInput, writeActions]
      rw [exec_bind, exec_read]
      simp only
      split
      · exact hr (processBytes_does answer data t)
      · exact hr (Does.via rfl)
  | slave => exact hr (Does.via rfl)

/-- Other writes are refused. -/
theorem write_closed (h : ¬ t.Open) (side : PtyEnd) (answer : Nat → Nat) (data : ByteArray8) :
    ∃ msg, (write side answer data).exec t = (.error (.kernelError KernelErrorCode.EIO msg), t) := by
  rw [write, exec_bind, exec_read]
  simp only [id]
  cases side with
  | master =>
      simp only
      split
      · exact ⟨_, rfl⟩
      · rename_i hm
        split
        · exact ⟨_, rfl⟩
        · rename_i hs
          exact absurd ⟨eq_false_of_ne_true hm, eq_false_of_ne_true hs⟩ h
  | slave =>
      simp only
      split
      · exact ⟨_, rfl⟩
      · rename_i hs
        split
        · exact ⟨_, rfl⟩
        · rename_i hm
          exact absurd ⟨eq_false_of_ne_true hm, eq_false_of_ne_true hs⟩ h

end Terminal
end SecureExec.Kernel
