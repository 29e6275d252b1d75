import SecureExec.Lib.Lts
import SecureExec.Lib.OMap
import SecureExec.Session.Thread

/-!
# Session — Connection — the sessions of one connection

The threads of a connection and what they share: the counter of call ids, the table that routes a
response to the session that made the call, and the channel to the thread that writes to the
socket.  The connection handler of `main.rs` reads the host's frames and hands them on; the bridge
calls of `host_call.rs` are made by whichever engine runs.

* `Connection.receive`: what the handler does with a frame.
* `Connection.syncCall`, `Connection.asyncCall`: a bridge call.
* `step`: one step of any of the threads; a run is any sequence of steps.
-/

namespace Session
open Ipc.Native

/-- The connection handler reads frames, or it joins the thread of a session it destroys. -/
inductive Handler where
  | reading
  | joining (sessionId : String)
  deriving DecidableEq

structure Connection where
  sessions : OMap String Thread
  /-- `shared_call_id`, the next call id. -/
  sharedCallId : UInt64
  callIdRouter : OMap UInt64 String
  /-- What was handed to the writer thread. -/
  sent : List (List UInt8)
  handler : Handler

/-- A connection that has just been authenticated. -/
def Connection.accepted : Connection where
  sessions := .empty
  sharedCallId := 1
  callIdRouter := .empty
  sent := []
  handler := .reading

/-- A session's note. -/
abbrev Report := String × Note

/-- One step of one of the threads. -/
inductive Event where
  /-- The body of the next frame that the handler reads. -/
  | host (body : List UInt8)
  | joined
  | next (sessionId : String) (snapshot : Option String)
  | tick (sessionId : String)
  | timeout (sessionId : String)
  | abort (sessionId : String)
  | answer (sessionId : String) (a : Answer)
  | syncCall (sessionId method : String) (args : List UInt8)
  | asyncCall (sessionId method : String) (args : List UInt8)
  deriving DecidableEq

/-- The session whose thread takes a step. -/
def Event.sessionId? : Event → Option String
  | .host _ => none
  | .joined => none
  | .next sid _ => some sid
  | .tick sid => some sid
  | .timeout sid => some sid
  | .abort sid => some sid
  | .answer sid _ => some sid
  | .syncCall sid _ _ => some sid
  | .asyncCall sid _ _ => some sid

/-- A bridge call. -/
def Event.IsCall : Event → Prop
  | .syncCall _ _ _ => True
  | .asyncCall _ _ _ => True
  | _ => False

instance (e : Event) : Decidable e.IsCall := by
  induction e using Event.casesOn with
  | syncCall | asyncCall => exact instDecidableTrue
  | _ => exact instDecidableFalse

/-- The thread of session `sid`; a session that does not exist holds what a new one does. -/
def Connection.thread (c : Connection) (sid : String) : Thread :=
  (c.sessions.get sid).getD (.spawn false)

namespace Connection

/-! ### The connection handler -/

/-- `send_to_session`. -/
def sendToSession (c : Connection) (sid : String) (frame : BinaryFrame) :
    Connection × List Report :=
  match c.sessions.get sid with
  | some t =>
    if t.control = .stopped then (c, [])
    else
      ({ c with sessions := c.sessions.set sid { t with rx := t.rx ++ [.message frame] } },
        [(sid, .forwarded frame)])
  | none => (c, [])

/-- `create_session`; a limit of zero is none. -/
def createSession (c : Connection) (sid : String) (cpuTimeLimitMs : UInt32) : Connection :=
  if c.sessions.has sid then c
  else { c with sessions := c.sessions.set sid (.spawn (cpuTimeLimitMs != 0)) }

/-- `destroy_session`, up to the join. -/
def destroySession (c : Connection) (sid : String) : Connection :=
  match c.sessions.get sid with
  | some t =>
    { c with
      sessions := c.sessions.set sid { t with rx := t.rx ++ [.shutdown], closed := true }
      handler := .joining sid }
  | none => c

/-- What the handler does with a frame; an `Authenticate` frame ends the connection. -/
def receive (c : Connection) (frame : BinaryFrame) : Option (Connection × List Report) :=
  match frame with
  | .authenticate _ => none
  | .createSession sid _ cpuTimeLimitMs => some (c.createSession sid cpuTimeLimitMs, [])
  | .destroySession sid => some (c.destroySession sid, [])
  | .bridgeResponse _ callId _ _ =>
    match c.callIdRouter.get callId with
    | some sid =>
      some ({ c with callIdRouter := c.callIdRouter.delete callId }.sendToSession sid frame)
    | none => some (c, [])
  | .execute sid _ _ _ _ _ => some (c.sendToSession sid frame)
  | .injectGlobals sid _ => some (c.sendToSession sid frame)
  | .streamEvent sid _ _ => some (c.sendToSession sid frame)
  | .terminateExecution sid => some (c.sendToSession sid frame)
  | _ => some (c, [])

/-- The end of `destroy_session`: the thread has ended. -/
def join (c : Connection) : Option (Connection × List Report) :=
  match c.handler with
  | .reading => none
  | .joining sid =>
    if (c.sessions.get sid).map Thread.control = some .stopped then
      some ({ c with sessions := c.sessions.delete sid, handler := .reading }, [])
    else none

/-! ### The session threads -/

/-- A move of the thread of session `sid`. -/
def moved (c : Connection) (sid : String) (mv : Move) : Connection × List Report :=
  ({ c with sessions := c.sessions.set sid mv.thread, sent := c.sent ++ mv.out },
    mv.notes.map (sid, ·))

/-- A step of the thread of session `sid`. -/
def run (c : Connection) (sid : String) (move : Thread → Option Move) :
    Option (Connection × List Report) :=
  match c.sessions.get sid with
  | some t => (move t).map (c.moved sid)
  | none => none

/-- The call id is taken and registered, whether or not the call is sent. -/
def register (c : Connection) (sid : String) : Connection :=
  { c with
    sharedCallId := c.sharedCallId + 1
    callIdRouter := c.callIdRouter.set c.sharedCallId sid }

/-- The call `callId` of the execution `x`, which made it at `s`: `waits` is where the thread goes
on when the frame was sent. -/
def send (t : Thread) (x : Execution) (s : Site) (callId : UInt64) (method : String)
    (args : List UInt8) (sent : Move) : Move :=
  match encodeFrameInto (.bridgeCall x.sessionId callId method args) with
  | .ok bytes => { sent with out := [bytes], notes := [.issued callId] }
  | .error _ => t.moved x (.engine s) [.issued callId, .abandoned callId]

/-- `sync_call`. -/
def syncCall (t : Thread) (callId : UInt64) (method : String) (args : List UInt8) :
    Option (String × Move) :=
  match t.control with
  | .running x (.engine s) =>
    some (x.sessionId, send t x s callId method args (t.moved x (.recvResponse callId s) []))
  | _ => none

/-- `async_send`, and the promise that `async_bridge_callback` keeps. -/
def asyncCall (t : Thread) (callId : UInt64) (method : String) (args : List UInt8) :
    Option (String × Move) :=
  match t.control with
  | .running x (.engine s) =>
    some (x.sessionId,
      send t x s callId method args ((t.insertPending callId).moved x (.engine s) []))
  | _ => none

/-- A bridge call of session `sid`. -/
def call (c : Connection) (sid : String) (make : Thread → UInt64 → Option (String × Move)) :
    Option (Connection × List Report) :=
  match c.sessions.get sid with
  | some t =>
    match make t c.sharedCallId with
    | some (owner, mv) => some ((c.register owner).moved sid mv)
    | none => none
  | none => none

end Connection

open Session.Connection in
def step (c : Connection) : Event → Option (Connection × List Report)
  | .host body =>
    match c.handler with
    | .joining _ => none
    | .reading =>
      match decodeBody body with
      | .ok frame => c.receive frame
      | .error _ => none
  | .joined => c.join
  | .next sid snapshot => c.run sid (·.next snapshot)
  | .tick sid => c.run sid Thread.tick
  | .timeout sid => c.run sid Thread.timeout
  | .abort sid => c.run sid Thread.abort
  | .answer sid a => c.run sid (·.answered a)
  | .syncCall sid method args => c.call sid (syncCall · · method args)
  | .asyncCall sid method args => c.call sid (asyncCall · · method args)

/-! ### What a session reports -/

/-- The notes of session `sid`. -/
def notesOf (sid : String) (log : List Report) : List Note :=
  (log.filter fun r => r.1 == sid).map Prod.snd

section

variable (sid : String)

@[simp] theorem notesOf_append (l₁ l₂ : List Report) :
    notesOf sid (l₁ ++ l₂) = notesOf sid l₁ ++ notesOf sid l₂ := by
  simp [notesOf]

@[simp] theorem notesOf_self (ns : List Note) : notesOf sid (ns.map (sid, ·)) = ns := by
  induction ns with
  | nil => rfl
  | cons n ns ih => simpa [notesOf] using ih

theorem notesOf_other {s : String} (h : s ≠ sid) (ns : List Note) :
    notesOf sid (ns.map (s, ·)) = [] := by
  induction ns with
  | nil => rfl
  | cons n ns _ => simp [notesOf, h]

end

/-! ### What a step does -/

/-- A step of the thread `t` of session `sid`, apart from bridge calls. -/
inductive Moves (sid : String) (t : Thread) : Event → Move → Prop where
  | next {snapshot : Option String} {mv : Move} (h : t.next snapshot = some mv) :
      Moves sid t (.next sid snapshot) mv
  | tick {mv : Move} (h : t.tick = some mv) : Moves sid t (.tick sid) mv
  | timeout {mv : Move} (h : t.timeout = some mv) : Moves sid t (.timeout sid) mv
  | abort {mv : Move} (h : t.abort = some mv) : Moves sid t (.abort sid) mv
  | answer {a : Answer} {mv : Move} (h : t.answered a = some mv) : Moves sid t (.answer sid a) mv

/-- A bridge call `callId` of session `sid`, whose thread is `t`. -/
inductive Calls (sid : String) (t : Thread) (callId : UInt64) : Event → String × Move → Prop where
  | sync {method : String} {args : List UInt8} {r : String × Move}
      (h : Connection.syncCall t callId method args = some r) :
      Calls sid t callId (.syncCall sid method args) r
  | async {method : String} {args : List UInt8} {r : String × Move}
      (h : Connection.asyncCall t callId method args = some r) :
      Calls sid t callId (.asyncCall sid method args) r

/-- Everything a step can do. -/
inductive Does (c : Connection) : Event → Connection × List Report → Prop where
  | receive {body : List UInt8} {frame : BinaryFrame} {r : Connection × List Report}
      (hd : decodeBody body = .ok frame) (h : c.receive frame = some r) : Does c (.host body) r
  | join {r : Connection × List Report} (h : c.join = some r) : Does c .joined r
  | moved {sid : String} {t : Thread} {e : Event} {mv : Move}
      (ht : c.sessions.get sid = some t) (h : Moves sid t e mv) : Does c e (c.moved sid mv)
  | called {sid : String} {t : Thread} {e : Event} {r : String × Move}
      (ht : c.sessions.get sid = some t) (h : Calls sid t c.sharedCallId e r) :
      Does c e ((c.register r.1).moved sid r.2)

variable {c : Connection} {sid : String} {r : Connection × List Report}

theorem run_eq_some {move : Thread → Option Move}
    (h : c.run sid move = some r) :
    ∃ t mv, c.sessions.get sid = some t ∧ move t = some mv ∧ r = c.moved sid mv := by
  rw [Connection.run] at h
  split at h
  · rename_i t ht
    obtain ⟨mv, hm, rfl⟩ := Option.map_eq_some_iff.mp h
    exact ⟨t, mv, ht, hm, rfl⟩
  · cases h

theorem call_eq_some
    {make : Thread → UInt64 → Option (String × Move)}
    (h : c.call sid make = some r) :
    ∃ t m, c.sessions.get sid = some t ∧ make t c.sharedCallId = some m ∧
      r = (c.register m.1).moved sid m.2 := by
  rw [Connection.call] at h
  split at h
  · rename_i t ht
    split at h
    · rename_i owner mv hm
      cases h
      exact ⟨t, (owner, mv), ht, hm, rfl⟩
    · cases h
  · cases h

variable {e : Event}

theorem step_does
    (h : step c e = some r) : Does c e r := by
  cases e with
  | host body =>
      simp only [step] at h
      split at h
      · cases h
      · split at h
        · rename_i frame hd
          exact .receive hd h
        · cases h
  | joined => exact .join h
  | next sid snapshot =>
      obtain ⟨t, mv, ht, hm, rfl⟩ := run_eq_some h
      exact .moved ht (.next hm)
  | tick sid =>
      obtain ⟨t, mv, ht, hm, rfl⟩ := run_eq_some h
      exact .moved ht (.tick hm)
  | timeout sid =>
      obtain ⟨t, mv, ht, hm, rfl⟩ := run_eq_some h
      exact .moved ht (.timeout hm)
  | abort sid =>
      obtain ⟨t, mv, ht, hm, rfl⟩ := run_eq_some h
      exact .moved ht (.abort hm)
  | answer sid a =>
      obtain ⟨t, mv, ht, hm, rfl⟩ := run_eq_some h
      exact .moved ht (.answer hm)
  | syncCall sid method args =>
      simp only [step] at h
      obtain ⟨t, m, ht, hm, rfl⟩ := call_eq_some h
      exact .called ht (.sync hm)
  | asyncCall sid method args =>
      simp only [step] at h
      obtain ⟨t, m, ht, hm, rfl⟩ := call_eq_some h
      exact .called ht (.async hm)

/-- A move of the thread of a session is a step of the connection. -/
theorem step_of_moves {t : Thread} {mv : Move}
    (ht : c.sessions.get sid = some t) (h : Moves sid t e mv) : step c e = some (c.moved sid mv) := by
  cases h with
  | next h | tick h | timeout h | abort h | answer h =>
      simp only [step, Connection.run, ht, h, Option.map_some]

/-- A frame that is handed to a session: its thread finds it at the end of its channel. -/
theorem sendToSession_cases (c : Connection) (sid : String) (frame : BinaryFrame) :
    c.sendToSession sid frame = (c, []) ∨
      ∃ t, c.sessions.get sid = some t ∧ t.control ≠ .stopped ∧
        c.sendToSession sid frame =
          ({ c with sessions := c.sessions.set sid { t with rx := t.rx ++ [.message frame] } },
            [(sid, .forwarded frame)]) := by
  rw [Connection.sendToSession]
  split
  · rename_i t ht
    split
    · exact .inl rfl
    · rename_i hs
      exact .inr ⟨t, ht, hs, rfl⟩
  · exact .inl rfl

/-- The session that a frame is for: a response is routed by its call id. -/
def Addressed (c : Connection) (sid : String) : BinaryFrame → Prop
  | .bridgeResponse _ callId _ _ => c.callIdRouter.get callId = some sid
  | frame => frame.sessionId? = some sid

/-- What a frame that the handler reads does to session `sid`. -/
inductive AtSession (c : Connection) (frame : BinaryFrame) (sid : String)
    (r : Connection × List Report) : Prop where
  | same (hs : r.1.sessions.get sid = c.sessions.get sid) (hn : notesOf sid r.2 = [])
  | forwards {t : Thread} (hto : Addressed c sid frame) (ht : c.sessions.get sid = some t)
      (hstop : t.control ≠ .stopped)
      (hs : r.1.sessions.get sid = some { t with rx := t.rx ++ [.message frame] })
      (hn : notesOf sid r.2 = [.forwarded frame])
  | creates {cpu : Bool} (hf : frame.sessionId? = some sid) (ht : c.sessions.get sid = none)
      (hs : r.1.sessions.get sid = some (.spawn cpu)) (hn : notesOf sid r.2 = [])
  | destroys {t : Thread} (hf : frame = .destroySession sid) (ht : c.sessions.get sid = some t)
      (hs : r.1.sessions.get sid = some { t with rx := t.rx ++ [.shutdown], closed := true })
      (hn : notesOf sid r.2 = [])

variable {frame : BinaryFrame}

theorem atSession_of_send {c₁ : Connection} (hc : c₁.sessions = c.sessions) {s : String}
    (hto : Addressed c s frame) (sid : String) :
    AtSession c frame sid (c₁.sendToSession s frame) := by
  rcases sendToSession_cases c₁ s frame with h | ⟨t, ht, hstop, h⟩
  · rw [h]
    exact .same (by rw [hc]) rfl
  · rw [h]
    by_cases hs : s = sid
    · subst hs
      exact .forwards (t := t) hto (hc ▸ ht) hstop (OMap.get_set_self _ _ _) (notesOf_self s [_])
    · refine .same ?_ (notesOf_other sid hs [_])
      exact (OMap.get_set_other _ (Ne.symm hs) _).trans (by rw [hc])

theorem atSession_of_receive
    (h : c.receive frame = some r) (sid : String) :
    AtSession c frame sid r := by
  cases frame with
  | authenticate token => cases h
  | createSession s heap cpu =>
      cases h
      rw [Connection.createSession]
      split
      · exact .same rfl rfl
      · rename_i hhas
        by_cases hs : s = sid
        · subst hs
          exact .creates rfl (Option.not_isSome_iff_eq_none.mp hhas) (OMap.get_set_self _ _ _) rfl
        · exact .same (OMap.get_set_other _ (Ne.symm hs) _) rfl
  | destroySession s =>
      cases h
      rw [Connection.destroySession]
      split
      · rename_i t ht
        by_cases hs : s = sid
        · subst hs
          exact .destroys rfl ht (OMap.get_set_self _ _ _) rfl
        · exact .same (OMap.get_set_other _ (Ne.symm hs) _) rfl
      · exact .same rfl rfl
  | bridgeResponse s callId status payload =>
      simp only [Connection.receive] at h
      split at h
      · rename_i s' hs'
        cases h
        have hto : Addressed c s' (.bridgeResponse s callId status payload) := hs'
        exact atSession_of_send (by rfl) hto sid
      · cases h
        exact .same rfl rfl
  | execute _ _ _ _ _ _ | injectGlobals _ _ | streamEvent _ _ _ | terminateExecution _ =>
      cases h
      exact atSession_of_send rfl (by rfl) sid
  | warmSnapshot _ | bridgeCall _ _ _ _ | executionResult _ _ _ _ | log _ _ _
  | streamCallback _ _ _ =>
      cases h
      exact .same rfl rfl

/-- Reading a frame writes nothing, and reports what is handed on. -/
theorem receive_quiet
    (h : c.receive frame = some r) : r.1.sent = c.sent ∧ r.1.sharedCallId = c.sharedCallId := by
  have hsend : ∀ (c₁ : Connection) (s : String) (f : BinaryFrame),
      (c₁.sendToSession s f).1.sent = c₁.sent ∧
        (c₁.sendToSession s f).1.sharedCallId = c₁.sharedCallId := by
    intro c₁ s f
    rcases sendToSession_cases c₁ s f with h | ⟨t, _, _, h⟩ <;> rw [h] <;> exact ⟨rfl, rfl⟩
  cases frame with
  | authenticate token => cases h
  | createSession s heap cpu =>
      cases h
      rw [Connection.createSession]
      split <;> exact ⟨rfl, rfl⟩
  | destroySession s =>
      cases h
      rw [Connection.destroySession]
      split <;> exact ⟨rfl, rfl⟩
  | bridgeResponse s callId status payload =>
      simp only [Connection.receive] at h
      split at h <;> cases h
      · exact hsend _ _ _
      · exact ⟨rfl, rfl⟩
  | execute _ _ _ _ _ _ | injectGlobals _ _ | streamEvent _ _ _ | terminateExecution _ =>
      cases h
      exact hsend _ _ _
  | warmSnapshot _ | bridgeCall _ _ _ _ | executionResult _ _ _ _ | log _ _ _
  | streamCallback _ _ _ =>
      cases h
      exact ⟨rfl, rfl⟩

/-- The end of a join concerns a session whose thread has ended. -/
theorem join_session (h : c.join = some r)
    (sid : String) : notesOf sid r.2 = [] ∧ r.1.sent = c.sent ∧
      (r.1.sessions.get sid = c.sessions.get sid ∨
        ∃ t, c.sessions.get sid = some t ∧ t.control = .stopped ∧
          r.1.sessions.get sid = none) := by
  rw [Connection.join] at h
  split at h
  · cases h
  · rename_i s hs
    split at h
    · rename_i hstop
      cases h
      obtain ⟨t, ht, hc⟩ := Option.map_eq_some_iff.mp hstop
      refine ⟨rfl, rfl, ?_⟩
      by_cases hsid : sid = s
      · subst hsid
        exact .inr ⟨t, ht, hc, OMap.get_delete_self _ _⟩
      · exact .inl (OMap.get_delete_other _ hsid)
    · cases h

/-! ### Call ids -/

/-- The id after an id is greater, unless the counter wraps around. -/
theorem callId_lt_succ {callId : UInt64} (h : callId + 1 ≠ 0) : callId < callId + 1 := by
  have hne : (callId + 1).toNat ≠ 0 := fun he => h (UInt64.toNat_inj.mp he)
  rw [UInt64.lt_iff_toNat_lt]
  have hsize := callId.toNat_lt
  rw [UInt64.toNat_add] at hne ⊢
  simp only [UInt64.toNat_one] at hne ⊢
  omega

/-- Only a bridge call takes an id. -/
theorem sharedCallId_of_step
    (h : step c e = some r) :
    r.1.sharedCallId = if e.IsCall then c.sharedCallId + 1 else c.sharedCallId := by
  cases step_does h with
  | receive hd hr => exact (receive_quiet hr).2
  | join hj =>
      rw [Connection.join] at hj
      split at hj
      · cases hj
      · split at hj
        · cases hj; rfl
        · cases hj
  | called ht hcall =>
      cases hcall with
      | sync _ | async _ => rfl
  | moved ht hmove =>
      cases hmove with
      | next _ | tick _ | timeout _ | abort _ | answer _ => rfl

/-! ### The thread of a session -/

section

variable {c : Connection} {sid : String}

theorem thread_some {t : Thread} (h : c.sessions.get sid = some t) : c.thread sid = t := by
  rw [Connection.thread, h, Option.getD_some]

theorem thread_none (h : c.sessions.get sid = none) : c.thread sid = .spawn false := by
  rw [Connection.thread, h, Option.getD_none]

end

end Session
