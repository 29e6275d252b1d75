import SecureExec.Kernel.Discipline
import SecureExec.Kernel.PipeRun

/-!
# Kernel — TtyRun — the calls of a terminal and its bounds

A terminal under any calls: writes, which keep what they did when they throw, reads, closes and
changes of the attributes.  The run records what each read asked for and what the writes gave to
each end.

* `apply_cases`: an action gives a chunk to an end, to a read that waits or to the buffer, or it
  sets the line or sends a signal.
* `Along.keeps`: what every action of a write keeps.
* `terminal_bounded`: in a run in which no newline ends a line that has its newline already, the
  buffers and the line are bounded and no read waits for what is there.
* `terminal_bounded_fails`: the newlines of writes that were rejected pile up.
-/

namespace SecureExec.Kernel
open SecureExec Lts TtyAction Terminal PipeState

def PtyEnd.other : PtyEnd → PtyEnd
  | .master => .slave
  | .slave => .master

/-- The end that an action gives a chunk to. -/
def TtyAction.target : TtyAction → Option (PtyEnd × ByteArray8)
  | .input chunk => some (.slave, chunk)
  | .output _ chunk => some (.master, chunk)
  | _ => none

namespace Terminal
open TtyAction (apply perform after afterAll target)

/-! ### The two directions as one -/

/-- What an end can read. -/
def buffer (t : Terminal) : PtyEnd → List ByteArray8
  | .master => t.outputBuffer
  | .slave => t.inputBuffer

/-- The reads of an end that wait. -/
def waiters (t : Terminal) : PtyEnd → List Nat
  | .master => t.outputWaiters
  | .slave => t.inputWaiters

def closed (t : Terminal) : PtyEnd → Bool
  | .master => t.closedMaster
  | .slave => t.closedSlave

def setBuffer (t : Terminal) (b : List ByteArray8) : PtyEnd → Terminal
  | .master => { t with outputBuffer := b }
  | .slave => { t with inputBuffer := b }

def setWaiters (t : Terminal) (w : List Nat) : PtyEnd → Terminal
  | .master => { t with outputWaiters := w }
  | .slave => { t with inputWaiters := w }

/-- A read of an end resolves. -/
def resolve (t : Terminal) (side : PtyEnd) (reader : Nat) (data : ByteArray8) : Terminal :=
  { t with resolved := t.resolved ++ [⟨side, reader, data⟩] }

section Simp
variable (t : Terminal) (b : List ByteArray8) (w : List Nat) (side s : PtyEnd) (n : Nat)
  (d : ByteArray8)

@[simp] theorem buffer_setBuffer :
    (t.setBuffer b side).buffer s = if s = side then b else t.buffer s := by
  cases side <;> cases s <;> rfl

@[simp] theorem buffer_setWaiters : (t.setWaiters w side).buffer s = t.buffer s := by
  cases side <;> cases s <;> rfl

@[simp] theorem buffer_resolve : (t.resolve side n d).buffer s = t.buffer s := by
  cases s <;> rfl

@[simp] theorem waiters_setBuffer : (t.setBuffer b side).waiters s = t.waiters s := by
  cases side <;> cases s <;> rfl

@[simp] theorem waiters_setWaiters :
    (t.setWaiters w side).waiters s = if s = side then w else t.waiters s := by
  cases side <;> cases s <;> rfl

@[simp] theorem waiters_resolve : (t.resolve side n d).waiters s = t.waiters s := by
  cases s <;> rfl

@[simp] theorem closed_setBuffer : (t.setBuffer b side).closed s = t.closed s := by
  cases side <;> cases s <;> rfl

@[simp] theorem closed_setWaiters : (t.setWaiters w side).closed s = t.closed s := by
  cases side <;> cases s <;> rfl

@[simp] theorem closed_resolve : (t.resolve side n d).closed s = t.closed s := by
  cases s <;> rfl

@[simp] theorem line_setBuffer : (t.setBuffer b side).lineBuffer = t.lineBuffer := by
  cases side <;> rfl

@[simp] theorem line_setWaiters : (t.setWaiters w side).lineBuffer = t.lineBuffer := by
  cases side <;> rfl

@[simp] theorem line_resolve : (t.resolve side n d).lineBuffer = t.lineBuffer := rfl

@[simp] theorem signals_setBuffer : (t.setBuffer b side).signals = t.signals := by
  cases side <;> rfl

@[simp] theorem signals_setWaiters : (t.setWaiters w side).signals = t.signals := by
  cases side <;> rfl

@[simp] theorem signals_resolve : (t.resolve side n d).signals = t.signals := rfl

@[simp] theorem resolved_setBuffer : (t.setBuffer b side).resolved = t.resolved := by
  cases side <;> rfl

@[simp] theorem resolved_setWaiters : (t.setWaiters w side).resolved = t.resolved := by
  cases side <;> rfl

@[simp] theorem resolved_resolve :
    (t.resolve side n d).resolved = t.resolved ++ [⟨side, n, d⟩] := rfl

end Simp

variable {t t' : Terminal} {side s : PtyEnd} {as : List TtyAction} {a : TtyAction}
  {answer : Nat → Nat} {data chunk : ByteArray8}

/-- A chunk is given to an end: to a read that waits, or to the buffer. -/
inductive Delivered (e : PtyEnd) (chunk : ByteArray8) (t : Terminal) : Terminal → Prop where
  | direct {w : Nat} {rest : List Nat} (hw : t.waiters e = w :: rest) :
      Delivered e chunk t ((t.setWaiters rest e).resolve e w chunk)
  | buffered (hw : t.waiters e = [])
      (hf : bufferBytes (t.buffer e) + chunk.length ≤ MAX_PTY_BUFFER_BYTES) :
      Delivered e chunk t (t.setBuffer (t.buffer e ++ [chunk]) e)

/-- What an action can do. -/
theorem apply_cases (h : a.apply t = .ok t') :
    (a.target = none ∧ t' = a.after t) ∨
      ∃ side chunk, a.target = some (side, chunk) ∧ Delivered side chunk t t' := by
  cases a with
  | line l =>
      cases h
      exact .inl ⟨rfl, rfl⟩
  | input chunk =>
      rw [apply, deliverInput] at h
      refine .inr ⟨.slave, chunk, rfl, ?_⟩
      split at h
      · rename_i w rest hw
        cases h
        exact .direct (e := .slave) hw
      · rename_i hw
        split at h
        · cases h
        · rename_i hf
          cases h
          exact .buffered (e := .slave) hw (Nat.le_of_not_lt hf)
  | output full chunk =>
      rw [apply, deliverOutput] at h
      refine .inr ⟨.master, chunk, rfl, ?_⟩
      split at h
      · rename_i w rest hw
        cases h
        exact .direct (e := .master) hw
      · rename_i hw
        split at h
        · cases h
        · rename_i hf
          cases h
          exact .buffered (e := .master) hw (Nat.le_of_not_lt hf)
  | signal call =>
      cases h
      exact .inl ⟨rfl, rfl⟩

/-- An action throws when it has a chunk for which there is neither a read nor room. -/
theorem apply_error {e : Failure} (h : a.apply t = .error e) :
    (∃ msg, e = .kernelError .EAGAIN msg) ∧
      ∃ side chunk, a.target = some (side, chunk) ∧ t.waiters side = [] ∧
        MAX_PTY_BUFFER_BYTES < bufferBytes (t.buffer side) + chunk.length := by
  cases a with
  | line l => cases h
  | input chunk =>
      rw [apply, deliverInput] at h
      split at h
      · cases h
      · rename_i hw
        split at h
        · rename_i hf
          cases h
          exact ⟨⟨_, rfl⟩, .slave, chunk, rfl, hw, hf⟩
        · cases h
  | output full chunk =>
      rw [apply, deliverOutput] at h
      split at h
      · cases h
      · rename_i hw
        split at h
        · rename_i hf
          cases h
          exact ⟨⟨_, rfl⟩, .master, chunk, rfl, hw, hf⟩
        · cases h
  | signal call => cases h

/-! ### What an end has read and can read -/

/-- What the reads of an end have got. -/
def readBy (t : Terminal) (side : PtyEnd) : ByteArray8 :=
  ((t.resolved.filter (·.side = side)).map (·.data)).flatten

/-- What an end has read, and then what it can read. -/
def readable (t : Terminal) (side : PtyEnd) : ByteArray8 :=
  t.readBy side ++ (t.buffer side).flatten

/-- A read waits only where nothing is buffered. -/
def Starved (t : Terminal) : Prop := ∀ side, t.waiters side ≠ [] → t.buffer side = []

variable (t)

theorem readBy_resolve (side s : PtyEnd) (n : Nat) (d : ByteArray8) :
    (t.resolve side n d).readBy s = t.readBy s ++ if side = s then d else [] := by
  by_cases h : side = s
  · simp [readBy, resolve, List.filter_append, h]
  · simp [readBy, resolve, List.filter_append, h]

@[simp] theorem readBy_setWaiters (w : List Nat) (side s : PtyEnd) :
    (t.setWaiters w side).readBy s = t.readBy s := by
  rw [readBy, readBy, resolved_setWaiters]

@[simp] theorem readBy_setBuffer (b : List ByteArray8) (side s : PtyEnd) :
    (t.setBuffer b side).readBy s = t.readBy s := by
  rw [readBy, readBy, resolved_setBuffer]

variable {t}

namespace Delivered

theorem starved (h : Delivered side chunk t t') (hs : t.Starved) : t'.Starved := by
  intro s hn
  cases h with
  | direct hw =>
      rw [waiters_resolve, waiters_setWaiters] at hn
      rw [buffer_resolve, buffer_setWaiters]
      refine hs s ?_
      split at hn
      · rename_i he
        rw [he, hw]
        exact List.cons_ne_nil _ _
      · exact hn
  | buffered hw hf =>
      rw [waiters_setBuffer] at hn
      have hne : s ≠ side := fun he => hn (he ▸ hw)
      rw [buffer_setBuffer, if_neg hne]
      exact hs s hn

/-- The chunk goes behind what is there. -/
theorem readable (h : Delivered side chunk t t') (hs : t.Starved) (s : PtyEnd) :
    t'.readable s = t.readable s ++ if side = s then chunk else [] := by
  cases h with
  | direct hw =>
      have hb : t.buffer side = [] := hs side (by simp [hw])
      rw [readable, readable, readBy_resolve, readBy_setWaiters, buffer_resolve,
        buffer_setWaiters]
      split
      · rename_i he
        rw [← he, hb, List.flatten_nil, List.append_nil, List.append_nil]
      · rw [List.append_nil, List.append_nil]
  | buffered hw hf =>
      rw [readable, readable, readBy_setBuffer, buffer_setBuffer]
      by_cases he : s = side
      · rw [if_pos he, if_pos he.symm, he, List.flatten_append, List.flatten_singleton,
          List.append_assoc]
      · rw [if_neg he, if_neg (Ne.symm he), List.append_nil]

end Delivered

/-! ### The actions that are done -/

/-- The actions of a list before the first that throws. -/
def done : List TtyAction → Terminal → List TtyAction
  | [], _ => []
  | a :: as, t =>
    match a.apply t with
    | .ok t' => a :: done as t'
    | .error _ => []

/-- Each action that is done meets `C` where it is done. -/
def Along (C : TtyAction → Terminal → Prop) : List TtyAction → Terminal → Prop
  | [], _ => True
  | a :: as, t =>
    match a.apply t with
    | .ok t' => C a t ∧ Along C as t'
    | .error _ => True

variable {C : TtyAction → Terminal → Prop}

theorem along_of_forall (h : ∀ a ∈ as, ∀ t, C a t) :
    Along C as t := by
  induction as generalizing t with
  | nil => trivial
  | cons a as ih =>
      rw [Along]
      split
      · exact ⟨h a List.mem_cons_self t, ih fun b hb => h b (List.mem_cons_of_mem a hb)⟩
      · trivial

/-- What holds before a list of actions, and is kept by each, with the actions done so far. -/
theorem Along.keeps {I : List TtyAction → Terminal → Prop} (h : Along C as t)
    (hs : ∀ ds t a t', I ds t → C a t → a.apply t = .ok t' → I (ds ++ [a]) t')
    {d : List TtyAction} (h₀ : I d t) : I (d ++ done as t) (perform as t).2 := by
  induction as generalizing t d with
  | nil =>
      rw [done, List.append_nil]
      exact h₀
  | cons a as ih =>
      cases ha : a.apply t with
      | ok t' =>
          simp only [Along, ha] at h
          simp only [done, perform, ha]
          have hi := ih h.2 (hs d t a t' h₀ h.1 ha)
          rwa [List.append_assoc] at hi
      | error e =>
          simp only [done, perform, ha]
          rwa [List.append_nil]

/-- The bytes that actions give to an end. -/
def bytesTo (side : PtyEnd) (as : List TtyAction) : ByteArray8 :=
  as.flatMap fun a =>
    match a.target with
    | some (s, chunk) => if s = side then chunk else []
    | none => []

/-- The actions that a write does. -/
def doneBy (side : PtyEnd) (answer : Nat → Nat) (data : ByteArray8) (t : Terminal) :
    List TtyAction :=
  if t.Open then done (t.writeActions side answer data) t else []

/-! ### The calls -/

/-- `close` of one end; a closed master hangs up. -/
def close (side : PtyEnd) (t : Terminal) : Terminal :=
  { t with
    toPtyState := t.toPtyState.close side
    signals :=
      if side = .master ∧ 0 < t.foregroundPgid then t.signals ++ [⟨t.foregroundPgid, 1, false⟩]
      else t.signals }

/-- What a read can do. -/
inductive ReadSpec (e : PtyEnd) (reader n : Nat) (t : Terminal) :
    ReadOutcome × Terminal → Prop where
  | data (hb : t.buffer e ≠ []) : ReadSpec e reader n t
      (.data (drainChunks (t.buffer e) n).1.flatten,
        (t.setBuffer (drainChunks (t.buffer e) n).2 e).resolve e reader
          (drainChunks (t.buffer e) n).1.flatten)
  | eof (hb : t.buffer e = []) (hc : t.closed e.other = true) :
      ReadSpec e reader n t (.eof, t)
  | waits (hb : t.buffer e = []) (hc : t.closed e.other = false) :
      ReadSpec e reader n t (.waits, t.setWaiters (t.waiters e ++ [reader]) e)

theorem read_cases {reader n : Nat} {r : ReadOutcome × Terminal}
    (h : t.read side reader n = .ok r) : t.closed side = false ∧ ReadSpec side reader n t r := by
  cases side with
  | master =>
      rw [read, readMaster] at h
      split at h
      · cases h
      · rename_i hm
        refine ⟨eq_false_of_ne_true hm, ?_⟩
        split at h
        · rename_i hb
          cases h
          exact .data (e := .master) hb
        · rename_i hb
          split at h
          · rename_i hc
            cases h
            exact .eof (e := .master) (not_not.mp hb) hc
          · rename_i hc
            cases h
            exact .waits (e := .master) (not_not.mp hb) (eq_false_of_ne_true hc)
  | slave =>
      rw [read, readSlave] at h
      split at h
      · cases h
      · rename_i hm
        refine ⟨eq_false_of_ne_true hm, ?_⟩
        split at h
        · rename_i hb
          cases h
          exact .data (e := .slave) hb
        · rename_i hb
          split at h
          · rename_i hc
            cases h
            exact .eof (e := .slave) (not_not.mp hb) hc
          · rename_i hc
            cases h
            exact .waits (e := .slave) (not_not.mp hb) (eq_false_of_ne_true hc)

end Terminal

/-! ### Runs -/

/-- A call of the PTY manager on a terminal. -/
inductive TtyCall where
  | write (side : PtyEnd) (answer : Nat → Nat) (data : ByteArray8)
  | read (side : PtyEnd) (length : Nat)
  | close (side : PtyEnd)
  | setTermios (c : TermiosChange)
  | setDiscipline (canonical echo isig : Option Bool)
  | setForegroundPgid (pgid : Nat)
  | setSessionLeader (pgid : Nat)

/-- A terminal with a record of what the reads asked for and of what the writes gave. -/
structure TtyRun where
  term : Terminal
  /-- The length that each read asked for, by call. -/
  asked : List Nat
  given : PtyEnd → ByteArray8

namespace TtyRun

def start : TtyRun := ⟨.new, [], fun _ => []⟩

/-- A call; one that throws leaves what it did. -/
def step (r : TtyRun) : TtyCall → Option TtyRun
  | .write side answer data =>
    some { r with
      term := ((write side answer data).exec r.term).2
      given := fun s => r.given s ++ bytesTo s (r.term.doneBy side answer data) }
  | .read side length =>
    match r.term.read side r.asked.length length with
    | .ok (_, t) => some { r with term := t, asked := r.asked ++ [length] }
    | .error _ => some r
  | .close side => if r.term.closed side then some r else some { r with term := r.term.close side }
  | .setTermios c => some { r with term := r.term.setTermios c }
  | .setDiscipline canonical echo isig =>
    some { r with term := r.term.setDiscipline canonical echo isig }
  | .setForegroundPgid pgid => some { r with term := { r.term with foregroundPgid := pgid } }
  | .setSessionLeader pgid => some { r with term := { r.term with sessionLeaderPgid := pgid } }

end TtyRun

/-! ### Bounds -/

namespace Terminal
open TtyAction (apply perform after afterAll target)

variable {t t' : Terminal} {side s : PtyEnd} {as : List TtyAction} {a : TtyAction}
  {answer : Nat → Nat} {data chunk : ByteArray8}

theorem starved_new : Starved .new := by
  rintro (_ | _) h <;> exact absurd rfl h

theorem Starved.apply (h : t.Starved) (ha : a.apply t = .ok t') : t'.Starved := by
  obtain ⟨hn, rfl⟩ | ⟨side, chunk, -, hd⟩ := apply_cases ha
  · intro s
    cases a <;> cases s <;> first | exact h .master | exact h .slave
  · exact hd.starved h

theorem Starved.write (h : t.Starved) (side : PtyEnd) (answer : Nat → Nat) (data : ByteArray8) :
    Starved ((write side answer data).exec t).2 := by
  by_cases ho : t.Open
  · rw [write_eq ho]
    have ha : Along (fun _ _ => True) (t.writeActions side answer data) t :=
      along_of_forall fun _ _ _ => trivial
    have hp := ha.keeps (I := fun _ t => Starved t) (fun _ _ _ _ hI _ hap => hI.apply hap)
      (d := []) h
    rcases hr : perform (t.writeActions side answer data) t with ⟨_ | _, _⟩ <;>
    · rw [hr] at hp
      exact hp
  · obtain ⟨msg, he⟩ := write_closed ho side answer data
    rw [he]
    exact h

theorem Starved.read {reader n : Nat} {r : ReadOutcome × Terminal} (h : t.Starved)
    (hr : t.read side reader n = .ok r) : r.2.Starved := by
  obtain ⟨-, hr⟩ := read_cases hr
  intro s hs
  cases hr with
  | data hb =>
      rw [waiters_resolve, waiters_setBuffer] at hs
      have hne : s ≠ side := fun he => hb (h side (he ▸ hs))
      rw [buffer_resolve, buffer_setBuffer, if_neg hne]
      exact h s hs
  | eof hb hc => exact h s hs
  | waits hb hc =>
      rw [waiters_setWaiters] at hs
      rw [buffer_setWaiters]
      split at hs
      · rename_i he
        rw [he]
        exact hb
      · exact h s hs

variable (t)

theorem waiters_close (side s : PtyEnd) : (t.close side).waiters s = [] := by
  cases side <;> cases s <;> rfl

theorem buffer_close (side s : PtyEnd) : (t.close side).buffer s = t.buffer s := by
  cases side <;> cases s <;> rfl

theorem starved_close (side : PtyEnd) : Starved (t.close side) :=
  fun s hs => absurd (waiters_close t side s) hs

variable {t}

/-- The buffers and the line are bounded, and a read waits only where nothing can be read and the
other end is open. -/
structure Bounded (t : Terminal) : Prop where
  buffers : ∀ side, bufferBytes (t.buffer side) ≤ MAX_PTY_BUFFER_BYTES
  line : t.lineBuffer.length ≤ MAX_CANON + 1
  starved : t.Starved
  alive : ∀ side, t.waiters side ≠ [] → t.closed side.other = false

namespace Bounded

theorem new : Bounded .new where
  buffers := by rintro (_ | _) <;> exact Nat.zero_le _
  line := Nat.zero_le _
  starved := starved_new
  alive := by rintro (_ | _) h <;> exact absurd rfl h

variable (h : Bounded t)
include h

theorem delivered (hd : Delivered side chunk t t') : Bounded t' := by
  have hstarved := hd.starved h.starved
  cases hd with
  | direct hw =>
      refine ⟨fun s => by simpa using h.buffers s, by simpa using h.line, hstarved,
        fun s hs => ?_⟩
      have hn : t.waiters s ≠ [] := by
        simp only [waiters_resolve, waiters_setWaiters] at hs
        split at hs
        · rename_i he
          rw [he, hw]
          exact List.cons_ne_nil _ _
        · exact hs
      simpa using h.alive s hn
  | buffered hw hf =>
      refine ⟨fun s => ?_, by simpa using h.line, hstarved, fun s hs => ?_⟩
      · rw [buffer_setBuffer]
        split
        · simpa [bufferBytes] using hf
        · exact h.buffers s
      · rw [waiters_setBuffer] at hs
        simpa using h.alive s hs

theorem apply (ha : a.apply t = .ok t')
    (hl : ∀ l, a = .line l → l.length ≤ MAX_CANON + 1) : Bounded t' := by
  have hstarved := h.starved.apply ha
  obtain ⟨hn, rfl⟩ | ⟨side, chunk, -, hd⟩ := apply_cases ha
  · cases a with
    | line l => exact ⟨h.buffers, hl l rfl, hstarved, h.alive⟩
    | input chunk => cases hn
    | output full chunk => cases hn
    | signal call => exact ⟨h.buffers, h.line, hstarved, h.alive⟩
  · exact h.delivered hd

theorem read {reader n : Nat} {r : ReadOutcome × Terminal}
    (hr : t.read side reader n = .ok r) : Bounded r.2 := by
  have hstarved := h.starved.read hr
  obtain ⟨-, hr⟩ := read_cases hr
  cases hr with
  | data hb =>
      refine ⟨fun s => ?_, by simpa using h.line, hstarved, fun s hs => ?_⟩
      · rw [buffer_resolve, buffer_setBuffer]
        split
        · have hd := drainChunks_flatten (t.buffer side) n
          have hl := congrArg List.length hd
          rw [List.length_append, List.length_flatten, List.length_flatten,
            List.length_flatten] at hl
          have hb := h.buffers side
          simp only [bufferBytes] at hb ⊢
          omega
        · exact h.buffers s
      · rw [waiters_resolve, waiters_setBuffer] at hs
        simpa using h.alive s hs
  | eof hb hc => exact h
  | waits hb hc =>
      refine ⟨fun s => by simpa using h.buffers s, by simpa using h.line, hstarved,
        fun s hs => ?_⟩
      rw [waiters_setWaiters] at hs
      split at hs
      · rename_i he
        rw [closed_setWaiters, he]
        exact hc
      · simpa using h.alive s hs

theorem close (side : PtyEnd) : Bounded (t.close side) := by
  refine ⟨fun s => ?_, h.line, starved_close t side,
    fun s hs => absurd (waiters_close t side s) hs⟩
  rw [buffer_close]
  exact h.buffers s

end Bounded

/-! ### The line -/

/-- Every line that the actions set is bounded. -/
def LinesOk (as : List TtyAction) : Prop := ∀ l, .line l ∈ as → l.length ≤ MAX_CANON + 1

/-- Bounded lines, and one with room for a newline at the end. -/
structure Short (as : List TtyAction) (t : Terminal) : Prop where
  lines : LinesOk as
  room : (afterAll as t).lineBuffer.length ≤ MAX_CANON

theorem line_notMem_echoes {l : ByteArray8} : line l ∉ t.echoes data := by
  rw [echoes]
  split <;> simp

theorem afterAll_echoes (u : Terminal) : afterAll (t.echoes data) u = u := by
  rw [echoes]
  split <;> rfl

theorem line_notMem_signalled {l : ByteArray8} {signal : Nat} {excl : Bool} :
    line l ∉ t.signalled signal excl := by
  rw [signalled]
  split <;> simp

theorem line_afterAll_of_notMem (h : ∀ l, line l ∉ as) (u : Terminal) :
    (afterAll as u).lineBuffer = u.lineBuffer := by
  induction as generalizing u with
  | nil => rfl
  | cons a as ih =>
      rw [afterAll, List.foldl_cons]
      refine (ih (fun l hl => h l (List.mem_cons_of_mem a hl)) (a.after u)).trans ?_
      cases a with
      | line l => exact absurd List.mem_cons_self (h l)
      | input chunk => rfl
      | output full chunk => rfl
      | signal call => rfl

theorem Short.of_notMem (h : ∀ l, line l ∉ as) (hl : t.lineBuffer.length ≤ MAX_CANON) :
    Short as t where
  lines := fun l hm => absurd hm (h l)
  room := by rwa [line_afterAll_of_notMem h]

variable (answer)

theorem signal_notMem (signal : Nat) (t : Terminal) (l : ByteArray8) :
    line l ∉ (if t.intercepts signal then t.interceptActions answer
      else t.echoSignalActions signal ++ t.signalled signal false) := by
  split
  · simp only [interceptActions, List.mem_append, line_notMem_echoes, line_notMem_signalled,
      false_or]
    split <;> simp
  · simp only [echoSignalActions, List.mem_append, line_notMem_signalled, or_false]
    split
    · exact line_notMem_echoes
    · split
      · exact line_notMem_echoes
      · simp

/-- A signal character leaves no line. -/
theorem signalActions_short (signal : Nat) (hc : t.termios.icanon = true) :
    Short (t.signalActions answer signal) t := by
  rw [signalActions, if_pos hc]
  have hn := signal_notMem answer signal t
  refine ⟨fun l hl => ?_, ?_⟩
  · rcases List.mem_append.mp hl with hl | hl
    · simp only [List.mem_singleton, line.injEq] at hl
      rw [hl]
      exact Nat.zero_le _
    · exact absurd hl (hn l)
  · rw [afterAll_append, line_afterAll_of_notMem hn]
    exact Nat.zero_le _

theorem eofActions_short (t : Terminal) : Short t.eofActions t := by
  rw [eofActions]
  split
  · rename_i h
    refine .of_notMem (by simp) ?_
    rw [h]
    exact Nat.zero_le _
  · refine ⟨fun l hl => ?_, Nat.zero_le _⟩
    simp only [List.mem_cons, reduceCtorEq, line.injEq, false_or, List.not_mem_nil,
      or_false] at hl
    rw [hl]
    exact Nat.zero_le _

theorem eraseActions_short (h : t.lineBuffer.length ≤ MAX_CANON + 1) : Short t.eraseActions t := by
  rw [eraseActions]
  split
  · rename_i hn
    refine .of_notMem (by simp) ?_
    rw [hn]
    exact Nat.zero_le _
  · have hd : t.lineBuffer.dropLast.length ≤ MAX_CANON := by
      rw [List.length_dropLast]
      omega
    refine ⟨fun l hl => ?_, ?_⟩
    · rcases List.mem_cons.mp hl with hl | hl
      · cases hl
        omega
      · exact absurd hl line_notMem_echoes
    · have he : afterAll (t.echoes [0x08, 0x20, 0x08])
          { t with lineBuffer := t.lineBuffer.dropLast } = _ := afterAll_echoes _
      exact Nat.le_trans (Nat.le_of_eq (congrArg (fun u : Terminal => u.lineBuffer.length) he)) hd

theorem newlineActions_short (h : t.lineBuffer.length ≤ MAX_CANON) :
    Short t.newlineActions t := by
  rw [newlineActions]
  refine ⟨fun l hl => ?_, ?_⟩
  · simp only [List.mem_cons, List.mem_append, line_notMem_echoes, line.injEq,
      reduceCtorEq, false_or, List.not_mem_nil, or_false] at hl
    obtain rfl | rfl := hl
    · simp only [List.length_append, List.length_singleton]
      omega
    · exact Nat.zero_le _
  · rw [afterAll, List.foldl_cons, List.foldl_append]
    exact Nat.zero_le _

variable (byte : UInt8)

theorem regularActions_short (h : t.lineBuffer.length ≤ MAX_CANON) :
    Short (t.regularActions byte) t := by
  rw [regularActions]
  split
  · exact .of_notMem (by simp) h
  · rename_i hr
    have hd : (t.lineBuffer ++ [byte]).length ≤ MAX_CANON := by
      rw [List.length_append, List.length_singleton]
      omega
    refine ⟨fun l hl => ?_, ?_⟩
    · rcases List.mem_cons.mp hl with hl | hl
      · cases hl
        omega
      · exact absurd hl line_notMem_echoes
    · have he : afterAll (t.echoes [byte])
          { t with lineBuffer := t.lineBuffer ++ [byte] } = _ := afterAll_echoes _
      exact Nat.le_trans (Nat.le_of_eq (congrArg (fun u : Terminal => u.lineBuffer.length) he)) hd

theorem termios_afterAll (as : List TtyAction) (u : Terminal) :
    (afterAll as u).termios = u.termios := by
  induction as generalizing u with
  | nil => rfl
  | cons a as ih =>
      refine (ih (a.after u)).trans ?_
      cases a <;> rfl

/-- Raw mode sets no line. -/
theorem byteActions_raw (hc : t.termios.icanon = false)
    (l : ByteArray8) : line l ∉ t.byteActions answer byte := by
  rw [byteActions]
  simp only [hc, Bool.false_eq_true, if_false]
  split
  · rename_i signal _
    rw [signalActions]
    simp only [hc, Bool.false_eq_true, if_false, List.nil_append]
    exact signal_notMem answer signal t l
  · simp [rawActions, line_notMem_echoes]

/-- A byte on a line with room for a newline. -/
theorem byteActions_short
    (h : t.lineBuffer.length ≤ MAX_CANON) : Short (t.byteActions answer byte) t := by
  cases hc : t.termios.icanon with
  | false => exact .of_notMem (byteActions_raw answer byte hc) h
  | true =>
      rw [byteActions]
      simp only [hc, if_true]
      split
      · exact signalActions_short answer _ hc
      · rw [canonActions]
        split
        · exact eofActions_short t
        · split
          · exact eraseActions_short (by omega)
          · split
            · exact newlineActions_short h
            · exact regularActions_short _ h

variable (data)

theorem dataActions_lines
    (h : t.lineBuffer.length ≤ MAX_CANON) : LinesOk (t.dataActions answer data) := by
  induction data generalizing t with
  | nil => exact fun l hl => absurd hl (by simp [dataActions])
  | cons byte rest ih =>
      have hb := byteActions_short answer byte h
      intro l hl
      rcases List.mem_append.mp hl with hl | hl
      · exact hb.lines l hl
      · exact ih hb.room l hl

/-- The bytes end a line that is full before any of them shortens it. -/
def endsLine (t : Terminal) : ByteArray8 → Bool
  | [] => false
  | byte :: rest =>
    let byte := translate t.termios.icrnl byte
    if (t.signalOf byte).isSome ∨ byte.toNat = t.termios.cc.veof ∨
      byte.toNat = t.termios.cc.verase ∨ byte = 0x08 then false
    else byte == 0x0a || t.endsLine rest

/-- A full line that is not ended again. -/
theorem dataActions_lines_full
    (hc : t.termios.icanon = true) (h : t.lineBuffer.length = MAX_CANON + 1)
    (he : t.endsLine data = false) : LinesOk (t.dataActions answer data) := by
  induction data with
  | nil => exact fun l hl => absurd hl (by simp [dataActions])
  | cons byte rest ih =>
      have hshort : ∀ {as : List TtyAction}, Short as t → as = t.byteActions answer byte →
          LinesOk (t.dataActions answer (byte :: rest)) := by
        rintro as hs rfl l hl
        rcases List.mem_append.mp hl with hl | hl
        · exact hs.lines l hl
        · exact dataActions_lines answer rest hs.room l hl
      rw [endsLine] at he
      cases hs : t.signalOf (translate t.termios.icrnl byte) with
      | some signal =>
          exact hshort (signalActions_short answer signal hc) (by simp only [byteActions, hs])
      | none =>
          have hb : t.byteActions answer byte =
              t.canonActions (translate t.termios.icrnl byte) := by
            simp only [byteActions, hs, hc, if_true]
          rw [canonActions] at hb
          split at hb
          · exact hshort (eofActions_short t) hb.symm
          · rename_i hv
            split at hb
            · exact hshort (eraseActions_short (by omega)) hb.symm
            · rename_i hd
              -- the newline is excluded, and any other byte is dropped
              rw [if_neg (by simp [hs, hv, hd]), Bool.or_eq_false_iff, beq_eq_false_iff_ne] at he
              rw [if_neg he.1, regularActions, if_pos (by omega)] at hb
              rw [dataActions, hb]
              exact ih he.2

/-! ### The actions of a write -/

theorem writeActions_lines (h : t.lineBuffer.length ≤ MAX_CANON + 1)
    (hk : side = .master → t.termios.icanon = true → MAX_CANON < t.lineBuffer.length →
      t.endsLine data = false) : LinesOk (t.writeActions side answer data) := by
  cases side with
  | slave =>
      intro l hl
      simp [writeActions] at hl
  | master =>
      rw [writeActions]
      split
      · rename_i hb
        cases hc : t.termios.icanon with
        | false =>
            -- raw bytes set no line, whatever it is
            intro l hl
            have hn : ∀ data (u : Terminal), u.termios.icanon = false →
                line l ∉ u.dataActions answer data := by
              intro data
              induction data with
              | nil => simp [dataActions]
              | cons byte rest ih =>
                  intro u hu hm
                  rcases List.mem_append.mp hm with hm | hm
                  · exact byteActions_raw answer byte hu l hm
                  · refine ih _ ?_ hm
                    rwa [termios_afterAll]
            exact absurd hl (hn data t hc)
        | true =>
            by_cases hm : t.lineBuffer.length ≤ MAX_CANON
            · exact dataActions_lines answer data hm
            · exact dataActions_lines_full answer data hc (by omega) (hk rfl hc (by omega))
      · intro l hl
        simp at hl

variable {data}

variable {answer}

theorem Bounded.write (h : Bounded t)
    (hk : t.Open → side = .master → t.termios.icanon = true → MAX_CANON < t.lineBuffer.length →
      t.endsLine data = false) : Bounded ((write side answer data).exec t).2 := by
  by_cases ho : t.Open
  · rw [write_eq ho]
    have hl : LinesOk (t.writeActions side answer data) :=
      writeActions_lines answer data h.line (hk ho)
    have ha : Along (fun a _ => ∀ l, a = .line l → l.length ≤ MAX_CANON + 1)
        (t.writeActions side answer data) t :=
      along_of_forall fun a ha t l he => hl l (he ▸ ha)
    have hp := ha.keeps (I := fun _ t => Bounded t) (fun _ _ _ _ hI hC hap => hI.apply hap hC)
      (d := []) h
    rcases hr : perform (t.writeActions side answer data) t with ⟨_ | _, _⟩ <;>
    · rw [hr] at hp
      exact hp
  · obtain ⟨msg, he⟩ := write_closed ho side answer data
    rw [he]
    exact h

end Terminal

namespace TtyRun
open Terminal

/-- A line that has its newline already is not ended again: its echo or its delivery was
rejected, and the bytes of the write drop or shorten it before their first newline. -/
def endsOnce (r : TtyRun) : TtyCall → Bool
  | .write .master _ data =>
    ! (decide r.term.Open && r.term.termios.icanon &&
      decide (MAX_CANON < r.term.lineBuffer.length) && r.term.endsLine data)
  | _ => true

variable {r : TtyRun}

theorem bounded_step {r' : TtyRun} {c : TtyCall} (h : r.term.Bounded) (hk : r.endsOnce c = true)
    (hs : r.step c = some r') : r'.term.Bounded := by
  cases c with
  | write side answer data =>
      cases hs
      refine h.write ?_
      rintro ho rfl hc hl
      simpa [endsOnce, ho, hc, hl] using hk
  | read side length =>
      rw [step] at hs
      split at hs
      · rename_i hr
        cases hs
        exact h.read hr
      · cases hs
        exact h
  | close side =>
      rw [step] at hs
      split at hs
      · cases hs
        exact h
      · cases hs
        exact h.close side
  | setTermios | setDiscipline | setForegroundPgid | setSessionLeader =>
      cases hs
      exact ⟨h.buffers, h.line, h.starved, h.alive⟩

/-- In any run. -/
theorem starved (h : Reach step Any start r) : r.term.Starved := by
  refine h.invariant (I := fun r => r.term.Starved) starved_new fun r c r' hI _ hs => ?_
  cases c with
  | write side answer data =>
      cases hs
      exact hI.write side answer data
  | read side length =>
      rw [step] at hs
      split at hs
      · rename_i hr
        cases hs
        exact hI.read hr
      · cases hs
        exact hI
  | close side =>
      rw [step] at hs
      split at hs
      · cases hs
        exact hI
      · cases hs
        exact starved_close _ side
  | setTermios c =>
      cases hs
      exact hI
  | setDiscipline canonical echo isig =>
      cases hs
      exact hI
  | setForegroundPgid pgid =>
      cases hs
      exact hI
  | setSessionLeader pgid =>
      cases hs
      exact hI

/-- **The bounds of a terminal.**  In a run in which no line is ended twice, the buffers and the
line are bounded, and no read waits where data is buffered or the other end is closed. -/
theorem terminal_bounded {r : TtyRun} (h : Reach step (endsOnce · ·) start r) : r.term.Bounded :=
  h.invariant (I := fun r => r.term.Bounded) .new fun _ _ _ hI hC hs => bounded_step hI hC hs

/-- A line that is delivered, and the start of the next one. -/
theorem terminal_bounded_two_lines : ∃ r, Reach step (endsOnce · ·) start r ∧ r.term.Bounded ∧
    r.term.buffer .slave = [[0x61, 0x0a]] ∧ r.term.lineBuffer = [0x62] :=
  (Reach.exists_of_execIf step _ start [.write .master (fun _ => 0) [0x61, 0x0a, 0x62]]
    (by decide +kernel)).imp fun _ h => ⟨h.1, terminal_bounded h.1, h.2⟩

/-! ### Newlines that pile up -/

/-- Canonical mode without echo and without signals. -/
def quiet : Termios := { defaultTermios with echo := false, isig := false }

/-- Quiet, and nothing more fits for the slave. -/
structure Jammed (t : Terminal) (line : ByteArray8) : Prop where
  opened : t.Open
  termios : t.termios = quiet
  waiters : t.inputWaiters = []
  full : bufferBytes t.inputBuffer = MAX_PTY_BUFFER_BYTES
  line : t.lineBuffer = line

variable {t : Terminal} {l : ByteArray8}

theorem Jammed.setLine (h : Jammed t l) (l' : ByteArray8) :
    Jammed { t with lineBuffer := l' } l' :=
  ⟨h.opened, h.termios, h.waiters, h.full, rfl⟩

theorem Jammed.byteActions (h : Jammed t l)
    (answer : Nat → Nat) (byte : UInt8) :
    t.byteActions answer byte = t.canonActions (translate true byte) := by
  have hs : t.signalOf (translate true byte) = none := by rw [signalOf, h.termios]; rfl
  rw [Terminal.byteActions, h.termios]
  simp only [show quiet.icrnl = true from rfl, hs, show quiet.icanon = true from rfl, if_true]

/-- Characters go into the line while it has room. -/
theorem Jammed.type (answer : Nat → Nat) (n : Nat) :
    ∀ {l : ByteArray8}, Jammed t l → l.length + n ≤ MAX_CANON →
      ∃ t', ((write .master answer (List.replicate n 0x61)).exec t).2 = t' ∧
        Jammed t' (l ++ List.replicate n 0x61) := by
  suffices hp : ∀ {l : ByteArray8} {t : Terminal}, Jammed t l → l.length + n ≤ MAX_CANON →
      ∃ t', perform (t.dataActions answer (List.replicate n 0x61)) t = (.ok (), t') ∧
        Jammed t' (l ++ List.replicate n 0x61) by
    intro l h hl
    obtain ⟨t', ht, hj⟩ := hp h hl
    refine ⟨t', ?_, hj⟩
    rw [write_eq h.opened, writeActions, h.termios]
    simp only [show quiet.icanon = true from rfl, Bool.true_or, if_true]
    rw [ht]
    rfl
  induction n with
  | zero =>
      intro l t h _
      exact ⟨t, rfl, by simpa using h⟩
  | succ n ih =>
      intro l t h hl
      have hb : t.byteActions answer 0x61 = [.line (l ++ [0x61])] := by
        rw [h.byteActions, canonActions, h.termios, if_neg (by decide), if_neg (by decide),
          if_neg (by decide), regularActions, if_neg (by rw [h.line]; omega), echoes, h.termios,
          h.line]
        rfl
      obtain ⟨t', ht, hj⟩ := ih (h.setLine (l ++ [0x61])) (by
        rw [List.length_append, List.length_singleton]
        omega)
      refine ⟨t', ?_, ?_⟩
      · rw [List.replicate_succ, dataActions, hb]
        exact ht
      · rwa [List.append_assoc, List.singleton_append, ← List.replicate_succ] at hj

/-- A newline that is rejected stays in the line. -/
theorem Jammed.newline (h : Jammed t l) (answer : Nat → Nat) :
    Jammed ((write .master answer [0x0a]).exec t).2 (l ++ [0x0a]) := by
  have hb : t.byteActions answer 0x0a =
      [.line (l ++ [0x0a]), .input (l ++ [0x0a]), .line []] := by
    rw [h.byteActions, canonActions, h.termios, if_neg (by decide), if_neg (by decide),
      if_pos (by decide), newlineActions, echoes, h.termios, h.line]
    rfl
  have hin : deliverInput (l ++ [0x0a]) { t with lineBuffer := l ++ [0x0a] } =
      .error (.kernelError .EAGAIN "PTY input buffer full") := by
    rw [deliverInput, h.waiters]
    refine if_pos ?_
    rw [h.full, List.length_append, List.length_singleton]
    omega
  have hp : perform (t.dataActions answer [0x0a]) t =
      (.error (.kernelError .EAGAIN "PTY input buffer full"),
        { t with lineBuffer := l ++ [0x0a] }) := by
    rw [dataActions, hb]
    simp only [dataActions, List.append_nil, perform, apply, hin]
  rw [write_eq h.opened, writeActions, h.termios]
  simp only [show quiet.icanon = true from rfl, Bool.true_or, if_true]
  rw [hp]
  exact h.setLine _

/-- A write that fills the slave's buffer in raw mode. -/
theorem Jammed.fill (ho : t.Open) (hw : t.inputWaiters = [])
    (hb : t.inputBuffer = []) (hl : t.lineBuffer = []) (ht : t.termios = defaultTermios)
    {d : ByteArray8} (hd : d.length = MAX_PTY_BUFFER_BYTES) (answer : Nat → Nat) :
    Jammed ((((write .master answer d).exec
      (t.setDiscipline (some false) (some false) (some false))).2).setDiscipline
        (some true) (some false) (some false)) [] := by
  have hdl : (applyInputTranslations true d).length = MAX_PTY_BUFFER_BYTES := by
    rw [applyInputTranslations, List.length_map, hd]
  have ha : (t.setDiscipline (some false) (some false) (some false)).writeActions .master answer d =
      [.input (applyInputTranslations true d)] := by
    rw [writeActions, setDiscipline, setTermios, ht]
    rfl
  have hin : deliverInput (applyInputTranslations true d)
      (t.setDiscipline (some false) (some false) (some false)) =
      .ok { t.setDiscipline (some false) (some false) (some false) with
        inputBuffer := [applyInputTranslations true d] } := by
    rw [deliverInput, setDiscipline, setTermios]
    simp only [hw, hb, bufferBytes, List.map_nil, List.sum_nil, hdl, Nat.zero_add, Nat.lt_irrefl,
      if_false, List.nil_append]
  rw [write_eq (by exact ho), ha]
  simp only [perform, apply, hin, returning]
  refine ⟨ho, ?_, hw, ?_, hl⟩
  · simp only [setDiscipline, setTermios, ht]
    rfl
  · simp [setDiscipline, setTermios, bufferBytes, hdl]

theorem reach_write (h : Reach step Any start r) (side : PtyEnd)
    (answer : Nat → Nat) (data : ByteArray8) : ∃ r', Reach step Any start r' ∧
      r'.term = ((write side answer data).exec r.term).2 :=
  ⟨_, h.next (a := .write side answer data) trivial rfl, rfl⟩

theorem reach_discipline (h : Reach step Any start r) (canonical echo isig : Option Bool) :
    ∃ r', Reach step Any start r' ∧ r'.term = r.term.setDiscipline canonical echo isig :=
  ⟨_, h.next (a := .setDiscipline canonical echo isig) trivial rfl, rfl⟩

/-- **The line is not bounded.**  The slave's buffer is full; a full line is ended twice, and both
writes are rejected. -/
theorem terminal_bounded_fails : ∃ r, Reach step Any start r ∧
    r.term.lineBuffer.length = MAX_CANON + 2 ∧ ¬ r.term.Bounded := by
  obtain ⟨d, hd⟩ : ∃ d : ByteArray8, d.length = MAX_PTY_BUFFER_BYTES :=
    ⟨_, List.length_replicate (a := 0x61)⟩
  obtain ⟨r₀, h₀, e₀⟩ := reach_discipline .start (some false) (some false) (some false)
  obtain ⟨r₁, h₁, e₁⟩ := reach_write h₀ .master (fun _ => 0) d
  obtain ⟨r₂, h₂, e₂⟩ := reach_discipline h₁ (some true) (some false) (some false)
  have hj₂ : Jammed r₂.term [] := by
    rw [e₂, e₁, e₀]
    exact .fill (t := start.term) ⟨rfl, rfl⟩ rfl rfl rfl rfl hd _
  obtain ⟨r₃, h₃, e₃⟩ := reach_write h₂ .master (fun _ => 0) (List.replicate MAX_CANON 0x61)
  obtain ⟨t₃, ht₃, hj₃⟩ := hj₂.type (fun _ => 0) MAX_CANON (Nat.le_of_eq (Nat.zero_add _))
  rw [← e₃] at ht₃
  obtain ⟨r₄, h₄, e₄⟩ := reach_write h₃ .master (fun _ => 0) [0x0a]
  obtain ⟨r₅, h₅, e₅⟩ := reach_write h₄ .master (fun _ => 0) [0x0a]
  have hj₄ := (ht₃ ▸ hj₃).newline fun _ => 0
  rw [← e₄] at hj₄
  have hj₅ := hj₄.newline fun _ => 0
  rw [← e₅] at hj₅
  have hl : r₅.term.lineBuffer.length = MAX_CANON + 2 := by
    rw [hj₅.line]
    simp only [List.length_append, List.length_replicate, List.length_nil, List.length_singleton,
      Nat.zero_add]
  refine ⟨r₅, h₅, hl, fun hb => ?_⟩
  have := hb.line
  omega

end TtyRun

end SecureExec.Kernel
