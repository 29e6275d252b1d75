import SecureExec.Session.Flow

/-!
# Session — Results — the answers to the executions

Every `Execute` frame that a session thread takes ends in one `ExecutionResult` frame handed to
`send_message`, which drops a frame that the encoder refuses.

* `execute_answered_iff`: an execution is answered by one result exactly when its outcome fits the
  limits of the format.
* `long_message_unanswered`: an error message of 65536 bytes, and no answer.
-/

namespace Session
open Ipc.Native Wire Lts BinaryFrame ExecutionError Note OMap

/-! ### What is counted -/

/-- The execution that a note says has ended. -/
def Note.ended? : Note → Option Execution
  | .ended x => some x
  | _ => none

/-- The `Execute` frame that a note says was taken. -/
def Note.started? : Note → Option BinaryFrame
  | .took (.execute sid mode fp bc prs uc) => some (.execute sid mode fp bc prs uc)
  | _ => none

/-- The executions that session `sid` ended. -/
def ended (sid : String) (log : List Report) : List Execution :=
  (notesOf sid log).filterMap ended?

/-- The `Execute` frames that session `sid` took. -/
def started (sid : String) (log : List Report) : List BinaryFrame :=
  (notesOf sid log).filterMap started?

/-- A frame that is a result of session `sid`. -/
def asResult (sid : String) : BinaryFrame → Option BinaryFrame
  | .executionResult s code exports error =>
    if s = sid then some (.executionResult s code exports error) else none
  | _ => none

/-- A message to the host that is a result of session `sid`. -/
def result? (sid : String) (bytes : List UInt8) : Option BinaryFrame :=
  match readFrame bytes with
  | .ok (frame, []) => asResult sid frame
  | _ => none

/-- The results of session `sid` among the messages to the host. -/
def results (sid : String) (sent : List (List UInt8)) : List BinaryFrame :=
  sent.filterMap (result? sid)

/-- Session `sid` runs nothing. -/
def Idle (c : Connection) (sid : String) : Prop :=
  ∀ t x p, c.sessions.get sid = some t → t.control ≠ .running x p

/-- The bytes of an error in a result frame. -/
def ExecutionError.bytes (e : ExecutionError) : Nat :=
  (2 + (utf8 e.errorType).length) + (2 + (utf8 e.message).length) + (2 + (utf8 e.stack).length) +
    (2 + (utf8 (e.code.getD "")).length)

/-- What the guest's code may end with: it was timed out or terminated, or no text of its error
is longer than 65535 bytes, and error and exports fit a frame together. -/
def Execution.Fits (x : Execution) : Prop :=
  x.timedOut = true ∨ x.terminated = true ∨
    (∀ e, x.error = some e → ∀ s ∈ [e.errorType, e.message, e.stack, e.code.getD ""],
      (utf8 s).length ≤ 65535) ∧
    2 + (utf8 x.sessionId).length + 5 + (x.exports.elim 0 fun xs => 4 + xs.length) +
      (x.error.elim 0 bytes) ≤ 64 * 1024 * 1024

section Counting

variable (sid : String) (l₁ l₂ : List Report)

@[simp] theorem ended_append :
    ended sid (l₁ ++ l₂) = ended sid l₁ ++ ended sid l₂ := by simp [ended]

@[simp] theorem started_append :
    started sid (l₁ ++ l₂) = started sid l₁ ++ started sid l₂ := by simp [started]

@[simp] theorem results_append (l₁ l₂ : List (List UInt8)) :
    results sid (l₁ ++ l₂) = results sid l₁ ++ results sid l₂ := List.filterMap_append

end Counting

/-! ### The frames that are sent -/

theorem result?_of_encode {f : BinaryFrame} {bytes : List UInt8}
    (h : encodeFrameInto f = .ok bytes) (sid : String) : result? sid bytes = asResult sid f := by
  have hr := readFrame_encode h []
  rw [List.append_nil] at hr
  rw [result?, hr]

theorem resultFrame_eq (x : Execution) :
    ∃ code exports error, x.resultFrame = .executionResult x.sessionId code exports error := by
  rw [Execution.resultFrame]
  split
  · exact ⟨_, _, _, rfl⟩
  · split <;> exact ⟨_, _, _, rfl⟩

/-- A result frame that is encoded is one answer, and one that is not is none. -/
theorem results_sendMessage (x : Execution) :
    (x.resultFrame.WithinLimits → results x.sessionId (sendMessage x.resultFrame) =
      [x.resultFrame]) ∧
    (¬ x.resultFrame.WithinLimits → results x.sessionId (sendMessage x.resultFrame) = []) := by
  constructor
  · intro hw
    obtain ⟨bytes, hb⟩ := (encodeFrameInto_isOk_iff _).mpr hw
    obtain ⟨code, exports, error, hx⟩ := resultFrame_eq x
    have hres : result? x.sessionId bytes = some x.resultFrame := by
      rw [result?_of_encode hb, hx]
      exact if_pos rfl
    simp [sendMessage, hb, results, hres]
  · intro hw
    have hb : ¬ ∃ bytes, encodeFrameInto x.resultFrame = .ok bytes := fun h =>
      hw ((encodeFrameInto_isOk_iff _).mp h)
    rw [sendMessage]
    split
    · rename_i bytes h
      exact absurd ⟨bytes, h⟩ hb
    · rfl

variable {x : Execution} {sid : String}

/-- The result of another session's execution is none of this one's. -/
theorem results_sendMessage_other (h : x.sessionId ≠ sid) :
    results sid (sendMessage x.resultFrame) = [] := by
  rw [sendMessage]
  split
  · rename_i bytes hb
    obtain ⟨code, exports, error, hx⟩ := resultFrame_eq x
    have hres : result? sid bytes = none := by
      rw [result?_of_encode hb, hx]
      exact if_neg h
    simp [results, hres]
  · rfl

theorem withinLimits_iff (h : (utf8 x.sessionId).length ≤ 255) :
    x.resultFrame.WithinLimits ↔ x.Fits := by
  have hE : (utf8 "Error").length = 5 := by decide +kernel
  have hM : (utf8 "Script execution timed out").length = 26 := by decide +kernel
  have hT : (utf8 "Execution terminated").length = 20 := by decide +kernel
  have hC : (utf8 "ERR_SCRIPT_EXECUTION_TIMEOUT").length = 28 := by decide +kernel
  have h0 : (utf8 "").length = 0 := by decide +kernel
  rw [Execution.resultFrame, Execution.Fits]
  split
  · rename_i ht
    simp only [ht, true_or, iff_true]
    refine ⟨h, ?_, ?_⟩
    · simp [shortTexts, timedOutError, hE, hM, hC]
    · simp only [sidBytes, sessionId?, fieldBytes,
        timedOutError, Option.getD_some, Option.elim_some, Option.elim_none, hE, hM, hC, h0,
        MAX_FRAME_SIZE]
      omega
  · rename_i hto
    split
    · rename_i ht
      simp only [ht, true_or, or_true, iff_true]
      refine ⟨h, ?_, ?_⟩
      · simp [shortTexts, terminatedError, hE, hT]
      · simp only [sidBytes, sessionId?, fieldBytes,
          terminatedError, Option.getD_some, Option.elim_some, Option.elim_none, hE, hT, h0,
          MAX_FRAME_SIZE]
        omega
    · rename_i hte
      rw [eq_false hto, eq_false hte, false_or, false_or]
      constructor
      · rintro ⟨-, hs, hb⟩
        constructor
        · intro e he
          simp only [he, Option.map_some, shortTexts, toBin] at hs
          exact hs
        · simp only [sidBytes, sessionId?, fieldBytes,
            Option.getD_some, MAX_FRAME_SIZE] at hb
          cases he : x.error with
          | none => simpa only [he, Option.map_none, Option.elim_none, Nat.add_assoc] using hb
          | some e =>
              simpa only [he, Option.map_some, Option.elim_some, toBin,
                bytes, Nat.add_assoc] using hb
      · rintro ⟨hs, hb⟩
        refine ⟨h, ?_, ?_⟩
        · cases he : x.error with
          | none => simp [shortTexts]
          | some e =>
              simpa only [Option.map_some, shortTexts, toBin] using
                hs e he
        · simp only [sidBytes, sessionId?, fieldBytes,
            Option.getD_some, MAX_FRAME_SIZE]
          cases he : x.error with
          | none => simpa only [he, Option.map_none, Option.elim_none, Nat.add_assoc] using hb
          | some e =>
              simpa only [he, Option.map_some, Option.elim_some, toBin,
                bytes, Nat.add_assoc] using hb

/-! ### Moves inside an execution -/

/-- A move inside the execution `x`: no result is written, and the execution goes on. -/
structure GoesOn (t : Thread) (x : Execution) (mv : Move) : Prop where
  control : ∃ x' p, mv.thread.control = .running x' p ∧ x'.sessionId = x.sessionId
  rx : mv.thread.rx ⊆ t.rx
  out : ∀ sid, results sid mv.out = []
  notes : ∀ n ∈ mv.notes, n.Inside

variable {t : Thread} {mv : Move}

theorem GoesOn.of_inside {x' : Execution} {p p' : Point}
    (h : Inside t x p mv x' p') : GoesOn t x mv where
  control := ⟨x', p', h.control, h.sessionId⟩
  rx := (rx_of_flow h.flow).subset
  out := fun sid => by rw [h.out]; rfl
  notes := inside_of_flow h.flow

theorem GoesOn.of_fails {x' : Execution} {p' : Point}
    (h : Fails t x mv x' p') : GoesOn t x mv where
  control := ⟨x', p', h.control, h.sessionId⟩
  rx := by rw [h.rx]; exact List.Subset.refl _
  out := fun sid => by rw [h.out]; rfl
  notes := by rw [h.notes]; simp

/-- A bridge call writes no result. -/
theorem GoesOn.of_call {s : Site} {callId : UInt64}
    (h : Call t x s callId mv) : GoesOn t x mv := by
  have hout : ∀ {method args bytes},
      encodeFrameInto (.bridgeCall x.sessionId callId method args) = .ok bytes →
        ∀ sid, results sid [bytes] = [] := by
    intro method args bytes hb sid
    have hres : result? sid bytes = none := result?_of_encode hb sid
    simp [results, hres]
  have hn := inside_of_call h
  cases h with
  | sync hb => exact ⟨⟨x, _, rfl, rfl⟩, List.Subset.refl _, hout hb, hn⟩
  | async hb => exact ⟨⟨x, _, rfl, rfl⟩, List.Subset.refl _, hout hb, hn⟩
  | unsent => exact ⟨⟨x, _, rfl, rfl⟩, List.Subset.refl _, fun _ => rfl, hn⟩

/-! ### What the handler does to the sessions -/

/-- An `Execute` command names the session whose channel it is on. -/
def FrameOf (sid : String) (cmd : SessionCommand) : Prop :=
  ∀ s mode fp bc prs uc, cmd = .message (.execute s mode fp bc prs uc) → s = sid

/-- What a step of the connection handler may do to session `sid`. -/
inductive Handled (c c' : Connection) (sid : String) : Prop where
  | same (h : c'.sessions.get sid = c.sessions.get sid)
  | queued {t t' : Thread} (ht : c.sessions.get sid = some t) (ht' : c'.sessions.get sid = some t')
      (hc : t'.control = t.control) (hrx : ∀ cmd ∈ t'.rx, cmd ∈ t.rx ∨ FrameOf sid cmd)
  | spawned {cpu : Bool} (ht : c.sessions.get sid = none)
      (ht' : c'.sessions.get sid = some (.spawn cpu)) (hs : (utf8 sid).length ≤ 255)
  | joined {t : Thread} (ht : c.sessions.get sid = some t) (ht' : c'.sessions.get sid = none)
      (hc : t.control = .stopped)

/-- A step of the handler writes nothing, and reports what it handed on. -/
structure HandlerStep (c : Connection) (r : Connection × List Report) : Prop where
  sent : r.1.sent = c.sent
  notes : ∀ sid, ∀ n ∈ notesOf sid r.2, ∃ f, n = .forwarded f
  sessions : ∀ sid, Handled c r.1 sid

variable {c : Connection} {r : Connection × List Report}

theorem HandlerStep.receive {body : List UInt8} {frame : BinaryFrame}
    (hd : decodeBody body = .ok frame)
    (h : c.receive frame = some r) : HandlerStep c r := by
  refine ⟨(receive_quiet h).1, ?_, ?_⟩
  · intro sid n hn
    cases atSession_of_receive h sid with
    | same _ he | creates _ _ _ he | destroys _ _ _ he => rw [he] at hn; cases hn
    | forwards _ _ _ _ he =>
        rw [he] at hn
        exact ⟨frame, List.mem_singleton.mp hn⟩
  · intro sid
    cases atSession_of_receive h sid with
    | same hs _ => exact .same hs
    | creates hf ht hs _ => exact .spawned ht hs (sid_of_decodeBody hd hf)
    | forwards hto ht _ hs _ =>
        refine .queued ht hs rfl ?_
        intro cmd hcmd
        rcases List.mem_append.mp hcmd with hcmd | hcmd
        · exact .inl hcmd
        · rw [List.mem_singleton.mp hcmd]
          refine .inr ?_
          intro s mode fp bc prs uc he
          cases he
          exact Option.some.inj hto
    | destroys _ ht hs _ =>
        refine .queued ht hs rfl ?_
        intro cmd hcmd
        rcases List.mem_append.mp hcmd with hcmd | hcmd
        · exact .inl hcmd
        · rw [List.mem_singleton.mp hcmd]
          exact .inr (by intro s mode fp bc prs uc h; cases h)

theorem HandlerStep.join (h : c.join = some r) :
    HandlerStep c r := by
  refine ⟨(join_session h "").2.1, ?_, ?_⟩
  · intro sid n hn
    rw [(join_session h sid).1] at hn
    cases hn
  · intro sid
    rcases (join_session h sid).2.2 with hs | ⟨t, ht, hc, hs⟩
    · exact .same hs
    · exact .joined ht hs hc

/-! ### The invariant -/

/-- Whether an execution runs: one or none. -/
def Control.active : Control → Nat
  | .running _ _ => 1
  | _ => 0

/-- The executions of session `sid` that run. -/
def active (c : Connection) (sid : String) : Nat :=
  (c.sessions.get sid).elim 0 fun t => t.control.active

/-- What holds of a connection and of its history in every run. -/
structure Kept (c : Connection) (log : List Report) : Prop where
  short : ∀ sid t, c.sessions.get sid = some t → (utf8 sid).length ≤ 255
  frames : ∀ sid t, c.sessions.get sid = some t → ∀ cmd ∈ t.rx, FrameOf sid cmd
  runs : ∀ sid t x p, c.sessions.get sid = some t → t.control = .running x p → x.sessionId = sid
  owner : ∀ sid, ∀ x ∈ ended sid log, x.sessionId = sid ∧ (utf8 sid).length ≤ 255
  count : ∀ sid, (started sid log).length = (ended sid log).length + active c sid
  answers : ∀ sid, results sid c.sent =
    (ended sid log).flatMap fun x => results sid (sendMessage x.resultFrame)

theorem Kept.accepted : Kept .accepted [] where
  short := fun _ _ h => by cases h
  frames := fun _ _ h => by cases h
  runs := fun _ _ _ _ h => by cases h
  owner := fun _ _ h => by cases h
  count := fun _ => rfl
  answers := fun _ => rfl

variable {log : List Report}

/-- A step of the handler keeps the invariant. -/
theorem Kept.handler
    (k : Kept c log) (h : HandlerStep c r) : Kept r.1 (log ++ r.2) := by
  have hnote := h.notes
  have hend : ∀ sid, ended sid r.2 = [] := by
    intro sid
    rw [ended, List.filterMap_eq_nil_iff]
    intro n hn
    obtain ⟨f, rfl⟩ := hnote sid n hn
    rfl
  have hstart : ∀ sid, started sid r.2 = [] := by
    intro sid
    rw [started, List.filterMap_eq_nil_iff]
    intro n hn
    obtain ⟨f, rfl⟩ := hnote sid n hn
    rfl
  have hact : ∀ sid, active r.1 sid = active c sid := by
    intro sid
    rw [active, active]
    cases h.sessions sid with
    | same he => rw [he]
    | queued ht ht' hc hrx => rw [ht, ht', Option.elim_some, Option.elim_some, hc]
    | spawned ht ht' hs => rw [ht, ht']; rfl
    | joined ht ht' hc => rw [ht, ht', Option.elim_some, hc]; rfl
  refine ⟨?_, ?_, ?_, ?_, ?_, ?_⟩
  · intro sid t' ht'
    cases h.sessions sid with
    | same he => exact k.short sid t' (he ▸ ht')
    | queued ht _ _ _ => exact k.short sid _ ht
    | spawned _ _ hs => exact hs
    | joined _ hn _ => rw [hn] at ht'; cases ht'
  · intro sid t' ht' cmd hcmd
    cases h.sessions sid with
    | same he => exact k.frames sid t' (he ▸ ht') cmd hcmd
    | queued ht hq _ hrx =>
        cases Option.some.inj (ht'.symm.trans hq)
        rcases hrx cmd hcmd with hold | hnew
        · exact k.frames sid _ ht cmd hold
        · exact hnew
    | spawned _ hq _ =>
        cases Option.some.inj (ht'.symm.trans hq)
        cases hcmd
    | joined _ hn _ => rw [hn] at ht'; cases ht'
  · intro sid t' x p ht' hx
    cases h.sessions sid with
    | same he => exact k.runs sid t' x p (he ▸ ht') hx
    | queued ht hq hc _ =>
        cases Option.some.inj (ht'.symm.trans hq)
        exact k.runs sid _ x p ht (hc ▸ hx)
    | spawned _ hq _ =>
        cases Option.some.inj (ht'.symm.trans hq)
        cases hx
    | joined _ hn _ => rw [hn] at ht'; cases ht'
  · intro sid x hx
    rw [ended_append, hend, List.append_nil] at hx
    exact k.owner sid x hx
  · intro sid
    rw [started_append, ended_append, hend, hstart, hact, List.append_nil, List.append_nil]
    exact k.count sid
  · intro sid
    rw [h.sent, ended_append, hend, List.append_nil]
    exact k.answers sid

/-- A move of the thread of session `sid` keeps the invariant, when what it reports agrees with
what it does. -/
theorem Kept.moved {c₁ : Connection}
    (k : Kept c log) (hsessions : c₁.sessions = c.sessions) (hsent : c₁.sent = c.sent)
    (ht : c.sessions.get sid = some t) (hrx : mv.thread.rx ⊆ t.rx)
    (hruns : ∀ x p, mv.thread.control = .running x p → x.sessionId = sid)
    (howner : ∀ x ∈ mv.notes.filterMap ended?, x.sessionId = sid)
    (hcount : (mv.notes.filterMap started?).length + t.control.active =
      (mv.notes.filterMap ended?).length + mv.thread.control.active)
    (hself : results sid mv.out =
      (mv.notes.filterMap ended?).flatMap fun x => results sid (sendMessage x.resultFrame))
    (hother : ∀ s, s ≠ sid → results s mv.out = []) :
    Kept (c₁.moved sid mv).1 (log ++ (c₁.moved sid mv).2) := by
  have hget : (c₁.moved sid mv).1.sessions.get sid = some mv.thread := get_set_self _ _ _
  have hne : ∀ {s}, s ≠ sid → (c₁.moved sid mv).1.sessions.get s = c.sessions.get s := by
    intro s hs
    exact (get_set_other _ hs _).trans (by rw [hsessions])
  have hend : ∀ s, ended s (c₁.moved sid mv).2 =
      if s = sid then mv.notes.filterMap ended? else [] := by
    intro s
    split
    · rename_i h
      rw [h, ended, Connection.moved, notesOf_self]
    · rename_i h
      rw [ended, Connection.moved, notesOf_other s (Ne.symm h)]
      rfl
  have hstart : ∀ s, started s (c₁.moved sid mv).2 =
      if s = sid then mv.notes.filterMap started? else [] := by
    intro s
    split
    · rename_i h
      rw [h, started, Connection.moved, notesOf_self]
    · rename_i h
      rw [started, Connection.moved, notesOf_other s (Ne.symm h)]
      rfl
  refine ⟨?_, ?_, ?_, ?_, ?_, ?_⟩
  · intro s t' ht'
    by_cases hs : s = sid
    · exact hs ▸ k.short sid t ht
    · exact k.short s t' (hne hs ▸ ht')
  · intro s t' ht' cmd hcmd
    by_cases hs : s = sid
    · subst hs
      cases Option.some.inj (hget.symm.trans ht')
      exact k.frames s t ht cmd (hrx hcmd)
    · exact k.frames s t' (hne hs ▸ ht') cmd hcmd
  · intro s t' x p ht' hx
    by_cases hs : s = sid
    · subst hs
      cases Option.some.inj (hget.symm.trans ht')
      exact hruns x p hx
    · exact k.runs s t' x p (hne hs ▸ ht') hx
  · intro s x hx
    rw [ended_append, hend] at hx
    rcases List.mem_append.mp hx with hold | hnew
    · exact k.owner s x hold
    · by_cases hs : s = sid
      · subst hs
        rw [if_pos rfl] at hnew
        exact ⟨howner x hnew, k.short s t ht⟩
      · rw [if_neg hs] at hnew
        cases hnew
  · intro s
    rw [started_append, ended_append, hend, hstart, List.length_append, List.length_append,
      k.count s]
    by_cases hs : s = sid
    · subst hs
      have h₁ : active c s = t.control.active := by rw [active, ht]; rfl
      have h₂ : active (c₁.moved s mv).1 s = mv.thread.control.active := by rw [active, hget]; rfl
      rw [if_pos rfl, if_pos rfl, h₁, h₂]
      omega
    · rw [if_neg hs, if_neg hs, active, active, hne hs]
      rfl
  · intro s
    have hout : (c₁.moved sid mv).1.sent = c.sent ++ mv.out := by rw [← hsent]; rfl
    rw [hout, results_append, ended_append, List.flatMap_append, k.answers s, hend]
    by_cases hs : s = sid
    · subst hs
      rw [if_pos rfl, hself]
    · rw [if_neg hs, hother s hs, List.flatMap_nil]

theorem ended?_of_inside {ns : List Note} (h : ∀ n ∈ ns, n.Inside) :
    ns.filterMap ended? = [] := by
  rw [List.filterMap_eq_nil_iff]
  intro n hn
  cases n with
  | ended x => exact (h _ hn).elim
  | _ => rfl

theorem started?_of_inside {ns : List Note} (h : ∀ n ∈ ns, n.Inside) :
    ns.filterMap started? = [] := by
  rw [List.filterMap_eq_nil_iff]
  intro n hn
  cases n with
  | took f => exact (h _ hn).elim
  | _ => rfl

/-- A move inside an execution keeps the invariant. -/
theorem Kept.goesOn {c₁ : Connection}
    {p : Point} (k : Kept c log) (hsessions : c₁.sessions = c.sessions)
    (hsent : c₁.sent = c.sent) (ht : c.sessions.get sid = some t)
    (hx : t.control = .running x p) (h : GoesOn t x mv) :
    Kept (c₁.moved sid mv).1 (log ++ (c₁.moved sid mv).2) := by
  obtain ⟨x', p', hc, hid⟩ := h.control
  have he := ended?_of_inside h.notes
  have hs := started?_of_inside h.notes
  refine k.moved hsessions hsent ht h.rx ?_ ?_ ?_ ?_ fun s _ => h.out s
  · intro y q hy
    cases Control.running.inj (hc.symm.trans hy) |>.1
    exact hid.trans (k.runs sid t x p ht hx)
  · rw [he]
    simp
  · rw [he, hs, hc, hx]
    rfl
  · rw [he, h.out]
    rfl

/-- A command read by the command loop keeps the invariant. -/
theorem Kept.command
    {cmd : SessionCommand} {rx : List SessionCommand} (k : Kept c log)
    (ht : c.sessions.get sid = some t) (hc : t.control = .commandLoop) (hrx : t.rx = cmd :: rx)
    (snapshot : Option String) :
    Kept (c.moved sid ({ t with rx }.command snapshot cmd)).1
      (log ++ (c.moved sid ({ t with rx }.command snapshot cmd)).2) := by
  have hsub : rx ⊆ t.rx := by rw [hrx]; exact List.subset_cons_self _ _
  have hidle : ∀ x p, { t with rx }.control = .running x p → x.sessionId = sid := by
    intro x p h
    rw [hc] at h
    cases h
  cases cmd with
  | shutdown =>
      refine k.moved rfl rfl ht hsub (fun x p h => nomatch h) (fun _ h => nomatch h) ?_ rfl
        fun _ _ => rfl
      rw [hc]
      rfl
  | message f =>
      cases f with
      | execute s mode fp bc prs uc =>
          have hs : s = sid :=
            k.frames sid t ht _ (hrx ▸ List.mem_cons_self) s mode fp bc prs uc rfl
          have hrun : ∃ x p,
              ({ t with rx }.execute snapshot s mode fp bc prs uc).control = .running x p ∧
                x.sessionId = sid := by
            simp only [Thread.execute]
            split
            · exact ⟨_, _, rfl, hs⟩
            · exact ⟨_, _, rfl, hs⟩
          obtain ⟨x, p, hx, hid⟩ := hrun
          refine k.moved rfl rfl ht hsub ?_ (fun _ h => nomatch h) ?_ rfl fun _ _ => rfl
          · intro y q hy
            cases Control.running.inj (hx.symm.trans hy) |>.1
            exact hid
          · have ha : ({ t with rx }.execute snapshot s mode fp bc prs uc).control.active = 1 := by
              rw [hx]
              rfl
            rw [hc]
            exact (congrArg (0 + ·) ha).symm
      | injectGlobals s payload =>
          exact k.moved rfl rfl ht hsub hidle (fun _ h => nomatch h) rfl rfl fun _ _ => rfl
      | _ => exact k.moved rfl rfl ht hsub hidle (fun _ h => nomatch h) rfl rfl fun _ _ => rfl

/-- **Every step keeps the invariant.** -/
theorem Kept.step {e : Event}
    (k : Kept c log) (h : step c e = some r) : Kept r.1 (log ++ r.2) := by
  cases step_does h with
  | receive hd h => exact k.handler (.receive hd h)
  | join h => exact k.handler (.join h)
  | called ht hcall =>
      obtain ⟨x, s, hx, -, hg⟩ := call_of_calls hcall
      exact k.goesOn rfl rfl ht hx (.of_call hg)
  | @moved sid t _ _ ht hmove =>
      cases act_of_moves hmove with
      | goes hx hin | other hx hin _ => exact k.goesOn rfl rfl ht hx (.of_inside hin)
      | fails hx _ hf => exact k.goesOn rfl rfl ht hx (.of_fails hf)
      | @finish _ x hx =>
          have hid := k.runs sid t x _ ht hx
          refine k.moved rfl rfl ht (List.Subset.refl _) (fun y q hy => nomatch hy) ?_ ?_ ?_ ?_
          · intro y hy
            rw [List.mem_singleton.mp hy]
            exact hid
          · rw [hx]
            rfl
          · exact (List.append_nil _).symm
          · intro s hs
            exact results_sendMessage_other (hid ▸ Ne.symm hs)
      | command hc hrx => exact k.command ht hc hrx _
      | stop hc _ _ =>
          refine k.moved rfl rfl ht (List.Subset.refl _) (fun y q hy => nomatch hy)
            (fun _ hy => nomatch hy) ?_ rfl fun _ _ => rfl
          rw [hc]
          rfl

/-- The runs of a connection, with what they report. -/
abbrev Run (s t : Connection × List Report) : Prop := Reach (recorded Session.step) Any s t

variable {s : Connection × List Report}

theorem Kept.of_run {t : Connection × List Report} (r : Run s t) (k : Kept s.1 s.2) :
    Kept t.1 t.2 := by
  refine r.invariant (I := fun u => Kept u.1 u.2) k ?_
  intro u e v hu _ hstep
  obtain ⟨w, hw, rfl⟩ := recorded_eq_some.mp hstep
  exact hu.step hw

/-- The messages to the host, and the history, only grow. -/
theorem grows {t : Connection × List Report} (r : Run s t) :
    s.1.sent <+: t.1.sent ∧ s.2 <+: t.2 := by
  refine r.invariant (I := fun u => s.1.sent <+: u.1.sent ∧ s.2 <+: u.2)
    ⟨List.prefix_rfl, List.prefix_rfl⟩ ?_
  rintro ⟨u, l⟩ e v ⟨hs, hl⟩ _ hstep
  obtain ⟨w, hw, rfl⟩ := recorded_eq_some.mp hstep
  refine ⟨hs.trans ?_, hl.trans (List.prefix_append _ _)⟩
  cases step_does hw with
  | receive hd h => rw [(HandlerStep.receive hd h).sent]
  | join h => rw [(HandlerStep.join h).sent]
  | called _ _ => exact List.prefix_append _ _
  | moved _ _ => exact List.prefix_append _ _

/-! ### One answer to each execution -/

/-- What an execution writes when it ends. -/
theorem length_results (hid : x.sessionId = sid)
    (hs : (utf8 sid).length ≤ 255) :
    (results sid (sendMessage x.resultFrame)).length = 1 ↔ x.Fits := by
  subst hid
  rw [← withinLimits_iff hs]
  obtain ⟨hyes, hno⟩ := results_sendMessage x
  by_cases hw : x.resultFrame.WithinLimits
  · simp [hyes hw, hw]
  · simp [hno hw, hw]

theorem active_of_idle (h : Idle c sid) : active c sid = 0 := by
  rw [active]
  cases ht : c.sessions.get sid with
  | none => rfl
  | some t =>
      rw [Option.elim_some]
      cases hc : t.control with
      | running x p => exact absurd hc (h t x p ht)
      | _ => rfl

/-- One `Execute` frame, from a state in which the session runs nothing to the next such state. -/
theorem answers_of_one {c₀ : Connection} {log₀ : List Report}
    {frame : BinaryFrame} (r₀ : Run (.accepted, []) (c₀, log₀)) (r : Run (c₀, log₀) (c, log))
    (h₀ : Idle c₀ sid) (h : Idle c sid) (hf : started sid log = started sid log₀ ++ [frame]) :
    ∃ x, x.sessionId = sid ∧ (utf8 sid).length ≤ 255 ∧ ended sid log = ended sid log₀ ++ [x] ∧
      results sid (c.sent.drop c₀.sent.length) = results sid (sendMessage x.resultFrame) := by
  have k₀ : Kept c₀ log₀ := Kept.accepted.of_run r₀
  have k : Kept c log := k₀.of_run r
  have hc₀ := k₀.count sid
  have hc := k.count sid
  rw [active_of_idle h₀] at hc₀
  rw [active_of_idle h, hf, List.length_append, List.length_singleton] at hc
  obtain ⟨⟨more, hsent⟩, ⟨new, hlog⟩⟩ := grows r
  simp only at hsent hlog
  rw [← hlog, ended_append, List.length_append] at hc
  obtain ⟨x, hx⟩ : ∃ x, ended sid new = [x] := List.length_eq_one_iff.mp (by omega)
  have hend : ended sid log = ended sid log₀ ++ [x] := by rw [← hlog, ended_append, hx]
  have hmem : x ∈ ended sid log := by
    rw [hend]
    exact List.mem_append_right _ List.mem_cons_self
  refine ⟨x, (k.owner sid x hmem).1, (k.owner sid x hmem).2, hend, ?_⟩
  have ha := k.answers sid
  simp only [← hsent, hend, results_append, List.flatMap_append] at ha
  rw [k₀.answers sid] at ha
  rw [← hsent, List.drop_left]
  simpa using List.append_cancel_left ha

/-! ### An execution that ends in an error -/

/-- A session, and an `Execute` frame on its channel. -/
def executeSent : Connection × List Report :=
  ({ Connection.accepted with
      sessions := empty.set "s"
        { Thread.spawn false with rx := [.message (.execute "s" 0 "" "" "" "1")] } },
    [("s", .forwarded (.execute "s" 0 "" "" "" "1"))])

theorem run_executeSent : Run (.accepted, []) executeSent := by
  have h₁ : decodeBody [2, 1, 115, 0, 0, 0, 0, 0, 0, 0, 0] = .ok (.createSession "s" 0 0) := by
    decide +kernel
  have h₂ : decodeBody [5, 1, 115, 0, 0, 0, 0, 0, 0, 0, 0, 0, 0, 0, 49] =
      .ok (.execute "s" 0 "" "" "" "1") := by decide +kernel
  have s₁ : recorded Session.step (.accepted, [])
      (.host [2, 1, 115, 0, 0, 0, 0, 0, 0, 0, 0]) =
        some ({ Connection.accepted with sessions := empty.set "s" (.spawn false) }, []) := by
    rw [recorded, Session.step, h₁]
    rfl
  have s₂ : recorded Session.step
      ({ Connection.accepted with sessions := empty.set "s" (.spawn false) }, [])
      (.host [5, 1, 115, 0, 0, 0, 0, 0, 0, 0, 0, 0, 0, 0, 49]) = some executeSent := by
    rw [recorded, Session.step, h₂]
    rfl
  exact .next (.next .start trivial s₁) trivial s₂

/-- The execution, when the engine has reported an error with this message. -/
def failedWith (message : String) : Execution where
  sessionId := "s"
  setup := ⟨⟨none⟩, none, "", "", "1", none, 0⟩
  deferred := []
  evaluations := .none
  code := 1
  exports := none
  error := some ⟨"Error", message, "", none⟩
  terminated := false
  guard := false
  timedOut := false

/-- A run goes on with a move of a thread. -/
theorem run_moves
    {e : Event} (r : Run s (c, log))
    (ht : c.sessions.get sid = some t) (h : Moves sid t e mv) :
    Run s ((c.moved sid mv).1, log ++ mv.notes.map (sid, ·)) :=
  r.next trivial (recorded_eq_some.mpr ⟨_, step_of_moves ht h, rfl⟩)

/-- The frame is taken, the engine reports the error, and the execution ends. -/
theorem run_failedWith (message : String) :
    ∃ c log, Run executeSent (c, log) ∧ Idle c "s" ∧
      started "s" log = [.execute "s" 0 "" "" "" "1"] ∧ ended "s" log = [failedWith message] := by
  let x₁ : Execution := { failedWith message with code := 0, error := none }
  let t₁ : Thread :=
    { Thread.spawn false with
      v8Isolate := some ⟨none⟩, control := .running x₁ (.engine .script) }
  let t₂ : Thread := { t₁ with control := .running (failedWith message) .sendResult }
  have m₁ : Moves "s" { Thread.spawn false with rx := [.message (.execute "s" 0 "" "" "" "1")] }
      (.next "s" none) ⟨t₁, [], [.took (.execute "s" 0 "" "" "" "1")]⟩ := .next rfl
  have m₂ : Moves "s" t₁ (.answer "s" ⟨some (1, none, (failedWith message).error), .none⟩)
      ⟨t₂, [], []⟩ := .answer rfl
  have m₃ : Moves "s" t₂ (.next "s" none) (t₂.finish (failedWith message)) := .next rfl
  have r₁ := run_moves (s := executeSent) .start (get_set_self _ _ _) m₁
  have r₂ := run_moves r₁ (get_set_self _ _ _) m₂
  have r₃ := run_moves r₂ (get_set_self _ _ _) m₃
  refine ⟨_, _, r₃, ?_, rfl, rfl⟩
  intro t x p ht hc
  cases Option.some.inj (ht.symm.trans (get_set_self _ _ _))
  cases hc

theorem idle_executeSent : Idle executeSent.1 "s" := by
  intro t x p ht hc
  cases Option.some.inj (ht.symm.trans (get_set_self _ _ _))
  cases hc

/-- **An execution is answered exactly when its outcome fits the format.** -/
theorem execute_answered_iff {c₀ c : Connection} {log₀ log : List Report} {sid : String}
    {frame : BinaryFrame} (r₀ : Run (.accepted, []) (c₀, log₀)) (r : Run (c₀, log₀) (c, log))
    (h₀ : Idle c₀ sid) (h : Idle c sid) (hf : started sid log = started sid log₀ ++ [frame]) :
    ∃ x, ended sid log = ended sid log₀ ++ [x] ∧
      ((results sid (c.sent.drop c₀.sent.length)).length = 1 ↔ x.Fits) := by
  obtain ⟨x, hid, hs, hend, hres⟩ := answers_of_one r₀ r h₀ h hf
  exact ⟨x, hend, by rw [hres]; exact length_results hid hs⟩

/-- A short error message is answered. -/
theorem execute_answered_short : ∃ c log, Run executeSent (c, log) ∧ Idle c "s" ∧
    (results "s" (c.sent.drop executeSent.1.sent.length)).length = 1 := by
  obtain ⟨c, log, r, hidle, hs, he⟩ := run_failedWith "boom"
  obtain ⟨x, hx, hiff⟩ := execute_answered_iff run_executeSent r idle_executeSent hidle hs
  cases List.singleton_inj.mp (he.symm.trans hx)
  refine ⟨c, log, r, hidle, hiff.mpr (.inr (.inr ⟨?_, by decide +kernel⟩))⟩
  intro e h
  cases h
  decide +kernel

/-- An error message of 65536 bytes: the execution ends, and nothing is written. -/
theorem long_message_unanswered :
    ¬ ∀ (c₀ c : Connection) (log₀ log : List Report) (sid : String) (frame : BinaryFrame),
      Run (.accepted, []) (c₀, log₀) → Run (c₀, log₀) (c, log) → Idle c₀ sid → Idle c sid →
        started sid log = started sid log₀ ++ [frame] →
          (results sid (c.sent.drop c₀.sent.length)).length = 1 := by
  intro hall
  obtain ⟨c, log, r, hidle, hs, he⟩ :=
    run_failedWith (String.ofList (List.replicate 65536 'a'))
  have hone := hall _ _ _ _ _ _ run_executeSent r idle_executeSent hidle hs
  obtain ⟨x, hid, hlen, hx, hres⟩ :=
    answers_of_one run_executeSent r idle_executeSent hidle hs
  cases List.singleton_inj.mp (he.symm.trans hx)
  rw [hres] at hone
  rcases (length_results hid hlen).mp hone with ht | ht | ⟨ht, -⟩
  · cases ht
  · cases ht
  · have h := ht _ rfl (String.ofList (List.replicate 65536 'a'))
      (List.mem_cons_of_mem _ List.mem_cons_self)
    rw [length_utf8_replicate (by decide)] at h
    omega

end Session
