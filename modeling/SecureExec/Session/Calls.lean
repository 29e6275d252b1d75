import SecureExec.Session.Books
import SecureExec.Session.Results

/-!
# Session — Calls — a response reaches the call that asked for it

The sessions of a connection take their call ids from one counter, and one table says which session
made a call.  A response is put on the channel of that session; what becomes of it there depends on
where the thread is.

* `InTurn`: what a step has to meet so that no frame overtakes another or is dropped: the event
  loop reads the channel, and an execution ends, with no frame set aside; an event loop is left with
  no frame in its `for` loop; the command loop reads no response to a pending promise; no session is
  destroyed with a pending promise; and the counter has not wrapped around.
* `responses_reach_calls`: in a run whose steps all meet this, every response is delivered to the
  session that made the call and completes that call, and the other frames are dispatched in their
  order of arrival.
* `frame_overtaken`: two stream events, of which the second is dispatched first.
-/

namespace Session
open Ipc.Native Ledger Lts Session.Connection

/-! ### The property -/

/-- Responses reach the calls of session `sid`, and its other frames keep their order. -/
structure Delivered (c : Connection) (log : List Report) (sid : String) : Prop where
  /-- A response is handed to the session that issued its call id, and there it completes the call,
  or it is not yet read, or the call was given up. -/
  reaches : ∀ f callId, response? f = some callId → .forwarded f ∈ notesOf sid log →
    .issued callId ∈ notesOf sid log ∧
      (∀ s, .issued callId ∈ notesOf s log → s = sid) ∧
      (.completed callId f ∈ notesOf sid log ∨ f ∈ (c.thread sid).transit ∨
        .abandoned callId ∈ notesOf sid log)
  /-- A call is completed by a response with its call id. -/
  completes : ∀ callId f, .completed callId f ∈ notesOf sid log →
    response? f = some callId ∧ .forwarded f ∈ notesOf sid log
  once : (completions (entries (notesOf sid log))).Nodup
  /-- A call that is neither completed nor given up is still waited for. -/
  waits : ∀ callId, .issued callId ∈ notesOf sid log →
    callId ∈ (c.thread sid).opens ∨ (∃ f, .completed callId f ∈ notesOf sid log) ∨
      .abandoned callId ∈ notesOf sid log
  /-- The response to a call that has none so far will be handed to this session. -/
  routes : ∀ callId, .issued callId ∈ notesOf sid log →
    c.callIdRouter.get callId = some sid ∨
      (∃ f, response? f = some callId ∧ .forwarded f ∈ notesOf sid log) ∨
      .abandoned callId ∈ notesOf sid log
  order : receptions (notesOf sid log) = dispatches (notesOf sid log) ++ (c.thread sid).waiting
  arrival : (receptions (notesOf sid log) ++ messages (c.thread sid).rx).Sublist
    (arrivals (notesOf sid log))
  /-- No frame is lost, and none is read twice. -/
  read : ∃ answers : List BinaryFrame,
    (∀ f ∈ answers, ∃ callId, .completed callId f ∈ notesOf sid log) ∧
      (arrivals (notesOf sid log)).Perm (commands (notesOf sid log) ++
        receptions (notesOf sid log) ++ answers ++ messages (c.thread sid).rx)

/-! ### The condition -/

/-- The next frame answers no call with a promise. -/
def Thread.NextIsLate (t : Thread) : Prop :=
  ∀ f ∈ (messages t.rx).head?, ∀ callId ∈ t.pending, response? f ≠ some callId

/-- A step of the thread drops no frame and lets none overtake another. -/
def Thread.InTurn (t : Thread) (e : Event) : Prop :=
  match t.control, e with
  | .running x (.recv _), .next _ _ => t.rx.head? ≠ some .shutdown → x.deferred = []
  | .running x .sendResult, .next _ _ => x.deferred = []
  | .running _ (.frames _ src), .next _ _ =>
    ∀ f ∈ src.rest.head?, IsTerminate f → src.rest.tail = []
  | .running _ (.engine (.dispatch _ src)), .answer _ a => a.result.isSome → src.rest = []
  | .commandLoop, .next _ _ => t.NextIsLate
  | _, _ => True

def InTurn (s : Connection × List Report) (e : Event) : Prop :=
  match e with
  | .joined =>
    match s.1.handler with
    | .joining sid => (s.1.thread sid).pending = []
    | .reading => True
  | .syncCall _ _ _ => s.1.sharedCallId ≠ 0
  | .asyncCall _ _ _ => s.1.sharedCallId ≠ 0
  | e => ∀ sid ∈ e.sessionId?, (s.1.thread sid).InTurn e

section

variable (t : Thread)

-- The ids are searched in the list of pending calls, not among all values of their type.
instance : Decidable t.NextIsLate :=
  letI (f : BinaryFrame) : Decidable (∀ callId ∈ t.pending, response? f ≠ some callId) :=
    List.decidableBAll _ t.pending
  inferInstanceAs (Decidable (∀ f ∈ (messages t.rx).head?, ∀ callId ∈ t.pending,
    response? f ≠ some callId))

instance (e : Event) : Decidable (t.InTurn e) := by
  unfold Thread.InTurn
  induction t.control using Control.casesOn with
  | running x p =>
    induction p using Point.casesOn with
    | engine q =>
      induction q using Site.casesOn <;> induction e using Event.casesOn <;> dsimp only <;>
        infer_instance
    | _ => induction e using Event.casesOn <;> dsimp only <;> infer_instance
  | _ => induction e using Event.casesOn <;> dsimp only <;> infer_instance

instance (s : Connection × List Report) (e : Event) : Decidable (InTurn s e) := by
  induction e using Event.casesOn with
  | joined =>
    unfold InTurn
    induction s.1.handler using Handler.casesOn with
    | joining sid => exact inferInstanceAs (Decidable ((s.1.thread sid).pending = []))
    | _ => exact instDecidableTrue
  | syncCall | asyncCall => exact inferInstanceAs (Decidable (s.1.sharedCallId ≠ 0))
  | _ => exact inferInstanceAs (Decidable (∀ sid ∈ Event.sessionId? _, (s.1.thread sid).InTurn _))

end

/-! ### The channel -/

/-- A shutdown is the last command on a channel, and it closes the channel. -/
structure Tidy (t : Thread) : Prop where
  last : ∀ before after, t.rx = before ++ .shutdown :: after → after = []
  opened : t.closed = false → .shutdown ∉ t.rx ∧ t.control ≠ .stopped
  stopped : t.control = .stopped → t.rx = []

namespace Tidy

variable {t : Thread}

theorem spawn (cpu : Bool) : Tidy (.spawn cpu) where
  last before after h := by cases before <;> cases h
  opened _ := by simp [Thread.spawn]
  stopped h := by cases h

variable (k : Tidy t)
include k

/-- The thread reads from its channel, and goes on. -/
theorem goesOn {t' : Thread} (hrx : t'.rx <:+ t.rx) (hclosed : t'.closed = t.closed)
    (hc : t'.control ≠ .stopped) : Tidy t' where
  last before after h := by
    obtain ⟨l, hl⟩ := hrx
    refine k.last (l ++ before) after ?_
    rw [← hl, h, List.append_assoc]
  opened h := ⟨fun hm => (k.opened (hclosed ▸ h)).1 (hrx.subset hm), hc⟩
  stopped h := absurd h hc

/-- The command loop reads a command; after a shutdown it finds no other. -/
theorem command {cmd : SessionCommand} {rx : List SessionCommand}
    (ht : t.control = .commandLoop) (hrx : t.rx = cmd :: rx) (snapshot : Option String) :
    Tidy ({ t with rx }.command snapshot cmd).thread := by
  have hsuffix : rx <:+ t.rx := by
    rw [hrx]
    exact List.suffix_cons _ _
  cases cmd with
  | shutdown =>
      have hnil : rx = [] := k.last [] rx hrx
      refine ⟨?_, ?_, fun _ => hnil⟩
      · intro before after h
        rw [Thread.command, hnil] at h
        cases before <;> cases h
      · intro h
        exact absurd (hrx ▸ List.mem_cons_self) (k.opened h).1
  | message f =>
      cases f with
      | execute sid mode fp bc prs uc =>
          refine k.goesOn hsuffix rfl ?_
          simp only [Thread.command, Thread.execute]
          split <;> simp
      | _ => exact k.goesOn hsuffix rfl (by simp [Thread.command, ht])

theorem act {sid : String} {e : Event} {mv : Move} (h : Act sid t e mv) :
    Tidy mv.thread ∧ mv.thread.closed = t.closed := by
  cases h with
  | goes _ h | other _ h _ =>
      exact ⟨k.goesOn (rx_of_flow h.flow) h.closed (by rw [h.control]; simp), h.closed⟩
  | fails _ _ h =>
      refine ⟨k.goesOn ?_ h.closed (by rw [h.control]; simp), h.closed⟩
      rw [h.rx]
  | finish _ => exact ⟨k.goesOn List.suffix_rfl rfl (by simp [Thread.finish]), rfl⟩
  | @command snapshot cmd rx ht hrx =>
      refine ⟨k.command ht hrx snapshot, ?_⟩
      cases cmd with
      | shutdown => rfl
      | message f => cases f <;> rfl
  | stop _ hrx hclosed =>
      refine ⟨⟨?_, ?_, fun _ => hrx⟩, rfl⟩
      · intro before after h
        rw [hrx] at h
        cases before <;> cases h
      · intro h
        rw [hclosed] at h
        cases h

theorem call {x : Execution} {s : Site} {callId : UInt64} {mv : Move}
    (h : Call t x s callId mv) : Tidy mv.thread ∧ mv.thread.closed = t.closed := by
  cases h with
  | sync _ | async _ | unsent =>
      exact ⟨k.goesOn List.suffix_rfl rfl (by simp [Thread.goto, Thread.moved]), rfl⟩

/-- A frame is put on an open channel. -/
theorem forwards (hopen : t.closed = false) (f : BinaryFrame) :
    Tidy { t with rx := t.rx ++ [.message f] } := by
  obtain ⟨hrx, hc⟩ := k.opened hopen
  have hnone : .shutdown ∉ t.rx ++ [.message f] := by
    intro h
    rcases List.mem_append.mp h with h | h
    · exact hrx h
    · cases List.mem_singleton.mp h
  refine ⟨?_, fun _ => ⟨hnone, hc⟩, fun h => absurd h hc⟩
  intro before after h
  have heq : t.rx ++ [.message f] = before ++ .shutdown :: after := h
  rw [heq] at hnone
  exact absurd (List.mem_append_right _ List.mem_cons_self) hnone

/-- An open channel is closed. -/
theorem closes (hopen : t.closed = false) :
    Tidy { t with rx := t.rx ++ [.shutdown], closed := true } := by
  obtain ⟨hrx, hc⟩ := k.opened hopen
  refine ⟨?_, (fun h => nomatch h), fun h => absurd h hc⟩
  intro before after h
  rcases List.eq_nil_or_concat after with rfl | ⟨after', cmd, rfl⟩
  · rfl
  · rw [List.concat_eq_append, ← List.cons_append, ← List.append_assoc] at h
    have heq := (List.append_inj' h rfl).1
    exact absurd (heq ▸ List.mem_append_right _ List.mem_cons_self) hrx

end Tidy

/-! ### What a step reports of calls -/

/-- No call is made, and no response is put on a channel. -/
def Note.Passive : Note → Prop
  | .issued _ => False
  | .forwarded f => response? f = none
  | _ => True

variable {ns : List Note}

theorem Note.OfFrame.passive {n : Note} (h : n.OfFrame) : n.Passive := by
  cases n with
  | received _ | dispatched _ | completed _ _ | abandoned _ => trivial
  | _ => exact h.elim

theorem passive_of_act {sid : String} {t : Thread} {e : Event} {mv : Move} (h : Act sid t e mv) :
    ∀ n ∈ mv.notes, n.Passive := by
  cases h with
  | goes _ h | other _ h _ => exact fun n hn => (ofFrame_of_flow h.flow n hn).passive
  | fails _ _ h =>
      rw [h.notes]
      simp
  | finish _ =>
      intro n hn
      rw [List.mem_singleton.mp hn]
      trivial
  | @command snapshot cmd rx _ _ =>
      cases cmd with
      | shutdown =>
          intro n hn
          cases hn
      | message f =>
          intro n hn
          cases f <;> (rw [List.mem_singleton.mp hn]; trivial)
  | stop _ _ _ =>
      intro n hn
      cases hn

theorem mem_notesOf {sid : String} {n : Note} {log : List Report} :
    n ∈ notesOf sid log ↔ (sid, n) ∈ log := by
  simp only [notesOf, List.mem_map, List.mem_filter, beq_iff_eq]
  constructor
  · rintro ⟨⟨s, m⟩, ⟨hm, rfl⟩, rfl⟩
    exact hm
  · intro h
    exact ⟨(sid, n), ⟨h, rfl⟩, rfl⟩

/-! ### Reading a frame -/

/-- What the handler does to the routing table. -/
inductive Routed (c : Connection) (frame : BinaryFrame) (r : Connection × List Report) : Prop where
  | other (hf : response? frame = none) (hr : r.1.callIdRouter = c.callIdRouter)
      (hn : r.2 = [] ∨ ∃ s, r.2 = [(s, .forwarded frame)])
  | response {callId : UInt64} {s : String} (hf : response? frame = some callId)
      (hs : c.callIdRouter.get callId = some s)
      (hr : r.1.callIdRouter = c.callIdRouter.delete callId)
      (hn : r.2 = [(s, .forwarded frame)] ∨ r.2 = [] ∧
        ∀ t, c.sessions.get s = some t → t.control = .stopped)
  | unknown (hr : r = (c, []))

theorem routed_of_receive {c : Connection} {frame : BinaryFrame} {r : Connection × List Report}
    (h : c.receive frame = some r) : Routed c frame r := by
  have hsend : ∀ (c₁ : Connection) (s : String) (f : BinaryFrame),
      (c₁.sendToSession s f).1.callIdRouter = c₁.callIdRouter ∧
        ((c₁.sendToSession s f).2 = [(s, .forwarded f)] ∨ (c₁.sendToSession s f).2 = [] ∧
          ∀ t, c₁.sessions.get s = some t → t.control = .stopped) := by
    intro c₁ s f
    rw [sendToSession]
    split
    · rename_i t ht
      split
      · rename_i hc
        refine ⟨rfl, .inr ⟨rfl, fun t' ht' => ?_⟩⟩
        rw [ht] at ht'
        cases ht'
        exact hc
      · exact ⟨rfl, .inl rfl⟩
    · rename_i hnone
      exact ⟨rfl, .inr ⟨rfl, fun t ht => by rw [hnone] at ht; cases ht⟩⟩
  cases frame with
  | authenticate token => cases h
  | createSession s heap cpu =>
      cases h
      refine .other rfl ?_ (.inl rfl)
      rw [createSession]
      split <;> rfl
  | destroySession s =>
      cases h
      refine .other rfl ?_ (.inl rfl)
      rw [destroySession]
      split <;> rfl
  | bridgeResponse s callId status payload =>
      simp only [receive] at h
      split at h
      · rename_i s' hs'
        cases h
        obtain ⟨hr, hn⟩ := hsend { c with callIdRouter := c.callIdRouter.delete callId } s' _
        exact .response rfl hs' hr hn
      · cases h
        exact .unknown rfl
  | execute s _ _ _ _ _ | injectGlobals s _ | streamEvent s _ _ | terminateExecution s =>
      cases h
      obtain ⟨hr, hn⟩ := hsend c s _
      exact .other rfl hr (hn.symm.imp And.left fun h => ⟨_, h⟩)
  | warmSnapshot _ | bridgeCall _ _ _ _ | executionResult _ _ _ _ | log _ _ _
  | streamCallback _ _ _ =>
      cases h
      exact .other rfl rfl (.inl rfl)

/-! ### Call ids -/

/-- Every call id was issued once, and the table says by whom, until a response is read. -/
structure Routes (c : Connection) (log : List Report) : Prop where
  below : c.sharedCallId ≠ 0 → ∀ sid callId, (sid, .issued callId) ∈ log → callId < c.sharedCallId
  issuer : ∀ s s' callId, (s, .issued callId) ∈ log → (s', .issued callId) ∈ log → s = s'
  router : ∀ callId sid, c.callIdRouter.get callId = some sid →
    (sid, .issued callId) ∈ log ∧ ∀ f, response? f = some callId → (sid, .forwarded f) ∉ log
  answered : ∀ sid f callId, response? f = some callId → (sid, .forwarded f) ∈ log →
    (sid, .issued callId) ∈ log
  routes : ∀ sid callId, (sid, .issued callId) ∈ log →
    c.callIdRouter.get callId = some sid ∨
      (∃ f, response? f = some callId ∧ (sid, .forwarded f) ∈ log) ∨ (sid, .abandoned callId) ∈ log

namespace Routes

variable {c c' : Connection} {log ns : List Report}

theorem accepted : Routes .accepted [] where
  below _ _ _ h := by cases h
  issuer _ _ _ h := by cases h
  router _ _ h := by cases h
  answered _ _ _ _ h := by cases h
  routes _ _ h := by cases h

variable (k : Routes c log)
include k

/-- Nothing is reported of calls. -/
theorem passive (hid : c'.sharedCallId = c.sharedCallId)
    (hr : c'.callIdRouter = c.callIdRouter) (hns : ∀ r ∈ ns, r.2.Passive) :
    Routes c' (log ++ ns) := by
  have hissued : ∀ {sid callId}, (sid, .issued callId) ∈ log ++ ns → (sid, .issued callId) ∈ log := by
    intro sid callId h
    rcases List.mem_append.mp h with h | h
    · exact h
    · exact (hns _ h).elim
  have hforwarded : ∀ {sid f callId}, response? f = some callId →
      (sid, .forwarded f) ∈ log ++ ns → (sid, .forwarded f) ∈ log := by
    intro sid f callId hf h
    rcases List.mem_append.mp h with h | h
    · exact h
    · have hnone : response? f = none := hns _ h
      rw [hf] at hnone
      cases hnone
  refine ⟨?_, ?_, ?_, ?_, ?_⟩
  · intro h sid callId hi
    rw [hid] at h ⊢
    exact k.below h sid callId (hissued hi)
  · intro s s' callId h h'
    exact k.issuer s s' callId (hissued h) (hissued h')
  · intro callId sid h
    rw [hr] at h
    obtain ⟨hi, hf⟩ := k.router callId sid h
    exact ⟨List.mem_append_left _ hi, fun f hf' h => hf f hf' (hforwarded hf' h)⟩
  · intro sid f callId hf h
    exact List.mem_append_left _ (k.answered sid f callId hf (hforwarded hf h))
  · intro sid callId h
    rw [hr]
    rcases k.routes sid callId (hissued h) with h | ⟨f, hf, h⟩ | h
    · exact .inl h
    · exact .inr (.inl ⟨f, hf, List.mem_append_left _ h⟩)
    · exact .inr (.inr (List.mem_append_left _ h))

/-- The response to a call is handed to the session that made it, or that session is gone. -/
theorem response {callId : UInt64} {s : String} {f : BinaryFrame}
    (hf : response? f = some callId) (hs : c.callIdRouter.get callId = some s)
    (hid : c'.sharedCallId = c.sharedCallId) (hr : c'.callIdRouter = c.callIdRouter.delete callId)
    (hns : ns = [(s, .forwarded f)] ∨ ns = [] ∧
      ((∃ g, response? g = some callId ∧ (s, .forwarded g) ∈ log) ∨
        (s, .abandoned callId) ∈ log)) : Routes c' (log ++ ns) := by
  have hmem : ∀ {sid n}, (sid, n) ∈ log ++ ns → (sid, n) ∈ log ∨ sid = s ∧ n = .forwarded f := by
    intro sid n h
    rcases List.mem_append.mp h with h | h
    · exact .inl h
    · rcases hns with rfl | ⟨rfl, -⟩
      · cases List.mem_singleton.mp h
        exact .inr ⟨rfl, rfl⟩
      · cases h
  have hissued : ∀ {sid id}, (sid, .issued id) ∈ log ++ ns → (sid, .issued id) ∈ log := by
    intro sid id h
    rcases hmem h with h | ⟨-, h⟩
    · exact h
    · cases h
  have hrouter : ∀ {id sid}, c'.callIdRouter.get id = some sid →
      id ≠ callId ∧ c.callIdRouter.get id = some sid := by
    intro id sid h
    rw [hr, OMap.get_delete] at h
    split at h
    · cases h
    · rename_i hne
      exact ⟨hne, h⟩
  refine ⟨?_, ?_, ?_, ?_, ?_⟩
  · intro h sid id hi
    rw [hid] at h ⊢
    exact k.below h sid id (hissued hi)
  · intro s₁ s₂ id h₁ h₂
    exact k.issuer s₁ s₂ id (hissued h₁) (hissued h₂)
  · intro id sid h
    obtain ⟨hne, h⟩ := hrouter h
    obtain ⟨hi, hno⟩ := k.router id sid h
    refine ⟨List.mem_append_left _ hi, fun g hg h => ?_⟩
    rcases hmem h with h | ⟨-, h⟩
    · exact hno g hg h
    · cases h
      exact hne (Option.some.inj (hg.symm.trans hf))
  · intro sid g id hg h
    rcases hmem h with h | ⟨rfl, h⟩
    · exact List.mem_append_left _ (k.answered sid g id hg h)
    · cases h
      cases hf.symm.trans hg
      exact List.mem_append_left _ (k.router callId sid hs).1
  · intro sid id h
    have h := hissued h
    by_cases hne : id = callId
    · subst hne
      have hsid : sid = s := k.issuer sid s id h (k.router id s hs).1
      subst hsid
      rcases hns with rfl | ⟨rfl, ⟨g, hg, h⟩ | h⟩
      · exact .inr (.inl ⟨f, hf, List.mem_append_right _ List.mem_cons_self⟩)
      · exact .inr (.inl ⟨g, hg, List.mem_append_left _ h⟩)
      · exact .inr (.inr (List.mem_append_left _ h))
    · rw [hr, OMap.get_delete_other _ hne]
      rcases k.routes sid id h with h | ⟨g, hg, h⟩ | h
      · exact .inl h
      · exact .inr (.inl ⟨g, hg, List.mem_append_left _ h⟩)
      · exact .inr (.inr (List.mem_append_left _ h))

/-- A call takes the next id. -/
theorem call {s : String} {rest : List Note} (hid : c.sharedCallId ≠ 0)
    (hrest : ∀ n ∈ rest, n.Passive) (hc : c'.sharedCallId = c.sharedCallId + 1)
    (hr : c'.callIdRouter = c.callIdRouter.set c.sharedCallId s) :
    Routes c' (log ++ (.issued c.sharedCallId :: rest).map (s, ·)) := by
  have hmem : ∀ {sid n}, (sid, n) ∈ log ++ (.issued c.sharedCallId :: rest).map (s, ·) →
      (sid, n) ∈ log ∨ sid = s ∧ (n = .issued c.sharedCallId ∨ n ∈ rest) := by
    intro sid n h
    rcases List.mem_append.mp h with h | h
    · exact .inl h
    · obtain ⟨m, hm, heq⟩ := List.mem_map.mp h
      cases heq
      exact .inr ⟨rfl, List.mem_cons.mp hm⟩
  have hissued : ∀ {sid id}, (sid, .issued id) ∈ log ++ (.issued c.sharedCallId :: rest).map (s, ·) →
      (sid, .issued id) ∈ log ∨ sid = s ∧ id = c.sharedCallId := by
    intro sid id h
    rcases hmem h with h | ⟨hs, h | h⟩
    · exact .inl h
    · cases h
      exact .inr ⟨hs, rfl⟩
    · exact (hrest _ h).elim
  have hforwarded : ∀ {sid f id}, response? f = some id →
      (sid, .forwarded f) ∈ log ++ (.issued c.sharedCallId :: rest).map (s, ·) →
        (sid, .forwarded f) ∈ log := by
    intro sid f id hf h
    rcases hmem h with h | ⟨-, h | h⟩
    · exact h
    · cases h
    · have hnone : response? f = none := hrest _ h
      rw [hf] at hnone
      cases hnone
  have hfresh : ∀ sid, (sid, .issued c.sharedCallId) ∉ log := by
    intro sid h
    exact absurd (k.below hid sid _ h) (UInt64.lt_irrefl _)
  have hnew : (s, .issued c.sharedCallId) ∈ log ++ (.issued c.sharedCallId :: rest).map (s, ·) :=
    List.mem_append_right _ List.mem_cons_self
  refine ⟨?_, ?_, ?_, ?_, ?_⟩
  · intro hne sid id h
    have hlt : c.sharedCallId < c'.sharedCallId := by
      rw [hc] at hne ⊢
      exact callId_lt_succ hne
    rcases hissued h with h | ⟨-, rfl⟩
    · exact UInt64.lt_trans (k.below hid sid id h) hlt
    · exact hlt
  · intro s₁ s₂ id h₁ h₂
    rcases hissued h₁ with h₁ | ⟨hs₁, hid₁⟩
    · rcases hissued h₂ with h₂ | ⟨-, hid₂⟩
      · exact k.issuer s₁ s₂ id h₁ h₂
      · exact absurd (hid₂ ▸ h₁) (hfresh s₁)
    · rcases hissued h₂ with h₂ | ⟨hs₂, -⟩
      · exact absurd (hid₁ ▸ h₂) (hfresh s₂)
      · rw [hs₁, hs₂]
  · intro id sid h
    rw [hr, OMap.get_set] at h
    split at h
    · rename_i heq
      cases h
      subst heq
      exact ⟨hnew, fun f hf h => hfresh s (k.answered s f _ hf (hforwarded hf h))⟩
    · obtain ⟨hi, hno⟩ := k.router id sid h
      exact ⟨List.mem_append_left _ hi, fun f hf h => hno f hf (hforwarded hf h)⟩
  · intro sid f id hf h
    exact List.mem_append_left _ (k.answered sid f id hf (hforwarded hf h))
  · intro sid id h
    rw [hr, OMap.get_set]
    rcases hissued h with h | ⟨rfl, rfl⟩
    · have hne : id ≠ c.sharedCallId := fun he => hfresh sid (he ▸ h)
      rw [if_neg hne]
      rcases k.routes sid id h with h | ⟨f, hf, h⟩ | h
      · exact .inl h
      · exact .inr (.inl ⟨f, hf, List.mem_append_left _ h⟩)
      · exact .inr (.inr (List.mem_append_left _ h))
    · exact .inl (if_pos rfl)

end Routes

/-! ### Steps -/

/-- The calls and frames of every session are in order. -/
structure Ordered (c : Connection) (log : List Report) : Prop where
  books : ∀ sid, (c.thread sid).Booked (notesOf sid log)
  tidy : ∀ sid, Tidy (c.thread sid)
  closes : ∀ sid, (c.thread sid).closed = true → c.handler = .joining sid
  calls : Routes c log

/-- A session that does not exist has no open call and no frame. -/
theorem booked_spawn {cpu : Bool} :
    (Thread.spawn cpu).Booked ns ↔ Books [] [] none [] ns := Iff.rfl

namespace Ordered

variable {c : Connection} {log : List Report}

theorem accepted : Ordered .accepted [] where
  books _ := booked_spawn.mpr .empty
  tidy _ := .spawn false
  closes _ h := by cases h
  calls := .accepted

variable {s : String}

/-- A step of the thread of one session. -/
theorem moved (k : Ordered c log) {c₁ : Connection} {mv : Move}
    (hs : c₁.sessions = c.sessions) (hh : c₁.handler = c.handler)
    (hb : mv.thread.Booked (notesOf s log ++ mv.notes))
    (ht : Tidy mv.thread ∧ mv.thread.closed = (c.thread s).closed)
    (hr : Routes (c₁.moved s mv).1 (log ++ (c₁.moved s mv).2)) :
    Ordered (c₁.moved s mv).1 (log ++ (c₁.moved s mv).2) := by
  have hself : (c₁.moved s mv).1.thread s = mv.thread := thread_some (OMap.get_set_self _ _ _)
  have hother : ∀ sid, s ≠ sid → (c₁.moved s mv).1.thread sid = c.thread sid := by
    intro sid hne
    have hget : (c₁.moved s mv).1.sessions.get sid = c.sessions.get sid :=
      (OMap.get_set_other _ (Ne.symm hne) _).trans (by rw [hs])
    rw [thread, hget, thread]
  refine ⟨?_, ?_, ?_, hr⟩
  · intro sid
    by_cases h : s = sid
    · subst h
      have hnotes : notesOf s (c₁.moved s mv).2 = mv.notes := notesOf_self s mv.notes
      rw [hself, notesOf_append, hnotes]
      exact hb
    · have hnotes : notesOf sid (c₁.moved s mv).2 = [] := notesOf_other sid h mv.notes
      rw [hother sid h, notesOf_append, hnotes, List.append_nil]
      exact k.books sid
  · intro sid
    by_cases h : s = sid
    · subst h
      rw [hself]
      exact ht.1
    · rw [hother sid h]
      exact k.tidy sid
  · intro sid hclosed
    have hhandler : (c₁.moved s mv).1.handler = c.handler := hh
    rw [hhandler]
    by_cases h : s = sid
    · subst h
      rw [hself, ht.2] at hclosed
      exact k.closes s hclosed
    · rw [hother sid h] at hclosed
      exact k.closes sid hclosed

/-- The responses to a session's calls are handed to it only once. -/
theorem addressed (k : Ordered c log) {frame : BinaryFrame} {sid : String}
    (h : Addressed c sid frame) : ∀ id, response? frame = some id →
      .issued id ∈ notesOf sid log ∧
        ∀ g, response? g = some id → .forwarded g ∉ notesOf sid log := by
  intro id hf
  cases frame with
  | bridgeResponse s callId status payload =>
      cases hf
      obtain ⟨hi, hno⟩ := k.calls.router _ sid h
      exact ⟨mem_notesOf.mpr hi, fun g hg hm => hno g hg (mem_notesOf.mp hm)⟩
  | _ => cases hf

variable {r : Connection × List Report}

/-- The handler reads a frame. -/
theorem receive (k : Ordered c log) {frame : BinaryFrame}
    (hreading : c.handler = .reading) (h : c.receive frame = some r) :
    Ordered r.1 (log ++ r.2) := by
  have hopen : ∀ sid, (c.thread sid).closed = false := by
    intro sid
    by_contra hc
    have hh := k.closes sid (by simpa using hc)
    rw [hreading] at hh
    cases hh
  have hsession : ∀ sid, (r.1.thread sid).Booked (notesOf sid (log ++ r.2)) ∧
      Tidy (r.1.thread sid) ∧ ((r.1.thread sid).closed = true → r.1.handler = .joining sid) := by
    intro sid
    have hfalse : ∀ {b : Bool}, b = false → b = true → r.1.handler = .joining sid := by
      intro b h h'
      rw [h] at h'
      cases h'
    rw [notesOf_append]
    cases atSession_of_receive h sid with
    | same hs hn =>
        have ht : r.1.thread sid = c.thread sid := by
          rw [Connection.thread, hs, Connection.thread]
        rw [ht, hn, List.append_nil]
        exact ⟨k.books sid, k.tidy sid, hfalse (hopen sid)⟩
    | forwards hto ht _ hs hn =>
        rw [thread_some hs, hn, ← thread_some ht]
        exact ⟨(k.books sid).forwards (k.addressed hto), (k.tidy sid).forwards (hopen sid) frame,
          hfalse (hopen sid)⟩
    | creates _ ht hs hn =>
        rw [thread_some hs, hn, List.append_nil]
        have hb := k.books sid
        rw [thread_none ht] at hb
        exact ⟨hb, .spawn _, hfalse rfl⟩
    | destroys hf ht hs hn =>
        rw [thread_some hs, hn, List.append_nil, ← thread_some ht]
        refine ⟨(k.books sid).closes, (k.tidy sid).closes (hopen sid), fun _ => ?_⟩
        subst hf
        simp only [Connection.receive, Connection.destroySession, ht, Option.some.injEq] at h
        rw [← h]
  refine ⟨fun sid => (hsession sid).1, fun sid => (hsession sid).2.1,
    fun sid => (hsession sid).2.2, ?_⟩
  have hid := (receive_quiet h).2
  cases routed_of_receive h with
  | other hf hr hn =>
      refine k.calls.passive hid hr ?_
      rcases hn with hn | ⟨s, hn⟩ <;> rw [hn]
      · intro r hr
        cases hr
      · intro r hr
        rw [List.mem_singleton.mp hr]
        exact hf
  | unknown hr =>
      rw [hr, List.append_nil]
      exact k.calls
  | @response callId s hf hs hr hn =>
      refine k.calls.response hf hs hid hr (hn.imp_right fun hnew => ⟨hnew.1, ?_⟩)
      -- a session that takes no frame does not exist, so its calls are settled
      have hnone : c.sessions.get s = none := by
        cases hget : c.sessions.get s with
        | none => rfl
        | some t =>
            have hc := ((k.tidy s).opened (hopen s)).2
            rw [thread_some hget] at hc
            exact absurd (hnew.2 t hget) hc
      have hb := k.books s
      rw [thread_none hnone, booked_spawn] at hb
      have hi : .issued callId ∈ entries (notesOf s log) :=
        (mem_entries_issued _).mpr (mem_notesOf.mpr (k.calls.router callId s hs).1)
      rcases hb.ledger.issued callId hi with h | h | h
      · cases h
      · obtain ⟨g, hg⟩ := (mem_completions _).mp h
        obtain ⟨hga, harr⟩ := hb.ledger.completed callId g hg
        exact .inl ⟨g, hga, mem_notesOf.mp ((mem_entries_arrived _).mp harr)⟩
      · exact .inr (mem_notesOf.mp ((mem_entries_abandoned _).mp h))

/-- A session is gone that had no pending promise. -/
theorem join (k : Ordered c log) (h : c.join = some r)
    (hturn : InTurn (c, log) .joined) : Ordered r.1 (log ++ r.2) := by
  rw [Connection.join] at h
  split at h
  · cases h
  · rename_i s hs
    split at h
    · rename_i hstop
      cases h
      obtain ⟨t, ht, hc⟩ := Option.map_eq_some_iff.mp hstop
      simp only [InTurn, hs, thread_some ht] at hturn
      have htidy := k.tidy s
      rw [thread_some ht] at htidy
      rw [List.append_nil]
      have hget : ∀ sid, (c.sessions.delete s).get sid =
          if sid = s then none else c.sessions.get sid := fun sid => OMap.get_delete _ _ _
      refine ⟨?_, ?_, ?_, ?_⟩
      · intro sid
        rw [Connection.thread, hget]
        split
        · rename_i he
          subst he
          have hb := k.books sid
          rw [thread_some ht, booked_idle (by simp [hc]), htidy.stopped hc, hturn] at hb
          exact hb
        · exact k.books sid
      · intro sid
        rw [Connection.thread, hget]
        split
        · exact .spawn false
        · exact k.tidy sid
      · intro sid hclosed
        rw [Connection.thread, hget] at hclosed
        split at hclosed
        · cases hclosed
        · rename_i hne
          have hj := k.closes sid hclosed
          rw [hs] at hj
          cases hj
          exact absurd rfl hne
      · have hr : Routes { c with sessions := c.sessions.delete s, handler := .reading }
            (log ++ []) := k.calls.passive rfl rfl (by simp)
        rw [List.append_nil] at hr
        exact hr
    · cases h

variable {e : Event}

variable (k : Ordered c log)
include k

/-- A bridge call takes a new call id. -/
theorem call (kept : Kept c log) {t : Thread}
    {r : String × Move} (hid : c.sharedCallId ≠ 0) (ht : c.sessions.get s = some t)
    (h : Calls s t c.sharedCallId e r) :
    Ordered ((c.register r.1).moved s r.2).1 (log ++ ((c.register r.1).moved s r.2).2) := by
  obtain ⟨x, site, hx, howner, hcall⟩ := call_of_calls h
  have hsid : r.1 = s := howner.trans (kept.runs s t x _ ht hx)
  have hnew : .issued c.sharedCallId ∉ notesOf s log := by
    intro hm
    exact absurd (k.calls.below hid s _ (mem_notesOf.mp hm)) (UInt64.lt_irrefl _)
  have hb := k.books s
  have htidy := k.tidy s
  rw [thread_some ht] at hb htidy
  refine k.moved rfl rfl (hb.call hx hcall hnew) ?_ ?_
  · rw [thread_some ht]
    exact htidy.call hcall
  · have hnotes : ∃ rest, r.2.notes = .issued c.sharedCallId :: rest ∧ ∀ n ∈ rest, n.Passive := by
      obtain ⟨owner, mv⟩ := r
      cases hcall with
      | sync _ | async _ => exact ⟨[], rfl, by simp⟩
      | unsent =>
          refine ⟨_, rfl, ?_⟩
          intro n hn
          rw [List.mem_singleton.mp hn]
          trivial
    obtain ⟨rest, hn, hrest⟩ := hnotes
    have hlog : ((c.register r.1).moved s r.2).2 = (.issued c.sharedCallId :: rest).map (s, ·) := by
      rw [← hn]
      rfl
    rw [hlog]
    exact k.calls.call hid hrest rfl (by rw [← hsid]; rfl)

/-- A step of a thread. -/
theorem act {t : Thread} {mv : Move}
    (ht : c.sessions.get s = some t) (hturn : t.InTurn e) (h : Act s t e mv) :
    Ordered (c.moved s mv).1 (log ++ (c.moved s mv).2) := by
  have hb := k.books s
  have htidy := k.tidy s
  rw [thread_some ht] at hb htidy
  have hpassive := passive_of_act h
  refine k.moved rfl rfl ?_ (by rw [thread_some ht]; exact htidy.act h) ?_
  · cases h with
    | @goes snapshot x x' p p' mv hx hin =>
        refine hb.inside ?_ ?_ hx hin
        · rintro l rfl
          simpa only [Thread.InTurn, hx] using hturn
        · rintro l src rfl
          simpa only [Thread.InTurn, hx] using hturn
    | other hx hin hq => exact hb.still hx hin hq
    | fails hx ha hf =>
        simp only [Thread.InTurn, hx] at hturn
        exact hb.fails hx hf (hturn ha)
    | finish hx =>
        simp only [Thread.InTurn, hx] at hturn
        exact hb.finish hx hturn
    | command hc hrx =>
        simp only [Thread.InTurn, hc] at hturn
        exact hb.command hc hrx hturn _
    | stop hc hrx _ =>
        refine (booked_idle (by simp)).mpr ?_
        rw [List.append_nil]
        exact (booked_idle (t := t) (by simp [hc])).mp hb
  · refine k.calls.passive rfl rfl ?_
    intro r hr
    obtain ⟨n, hn, rfl⟩ := List.mem_map.mp hr
    exact hpassive n hn

/-- **A step in turn keeps the calls and frames in order.** -/
theorem step (kept : Kept c log)
    (hturn : InTurn (c, log) e) (h : step c e = some r) : Ordered r.1 (log ++ r.2) := by
  cases step_does h with
  | receive hd hr =>
      refine k.receive ?_ hr
      simp only [Session.step] at h
      split at h
      · cases h
      · assumption
  | join hj => exact k.join hj hturn
  | called ht hcall =>
      have hid : c.sharedCallId ≠ 0 := by
        cases hcall with
        | sync _ | async _ => exact hturn
      exact k.call kept hid ht hcall
  | @moved s t e mv ht hmove =>
      have hthread : t.InTurn e := by
        have hs : (c.thread s).InTurn e := by
          cases hmove with
          | next _ | tick _ | timeout _ | abort _ | answer _ => exact hturn s rfl
        rwa [thread_some ht] at hs
      exact k.act ht hthread (act_of_moves hmove)

/-- What the claim on a connection's calls needs of one session. -/
theorem delivered (sid : String) : Delivered c log sid := by
  have hb := k.books sid
  refine ⟨?_, ?_, hb.ledger.once, ?_, ?_, hb.order, hb.arrival, hb.read⟩
  · intro f callId hf hm
    obtain ⟨hi, h⟩ := hb.ledger.arrived f callId ((mem_entries_arrived _).mpr hm) hf
    have hi' := (mem_entries_issued _).mp hi
    refine ⟨hi', ?_, ?_⟩
    · intro s hs
      exact k.calls.issuer s sid callId (mem_notesOf.mp hs) (mem_notesOf.mp hi')
    · exact h.imp (mem_entries_completed _).mp (.imp_right (mem_entries_abandoned _).mp)
  · intro callId f hm
    obtain ⟨hf, harr⟩ := hb.ledger.completed callId f ((mem_entries_completed _).mpr hm)
    exact ⟨hf, (mem_entries_arrived _).mp harr⟩
  · intro callId hi
    rcases hb.ledger.issued callId ((mem_entries_issued _).mpr hi) with h | h | h
    · exact .inl h
    · obtain ⟨f, hf⟩ := (mem_completions _).mp h
      exact .inr (.inl ⟨f, (mem_entries_completed _).mp hf⟩)
    · exact .inr (.inr ((mem_entries_abandoned _).mp h))
  · intro callId hi
    rcases k.calls.routes sid callId (mem_notesOf.mp hi) with h | ⟨f, hf, h⟩ | h
    · exact .inl h
    · exact .inr (.inl ⟨f, hf, mem_notesOf.mpr h⟩)
    · exact .inr (.inr (mem_notesOf.mpr h))

end Ordered

/-! ### Runs -/

/-- **A response reaches the call that asked for it, and completes no other.** -/
theorem responses_reach_calls {c : Connection} {log : List Report}
    (r : Reach (recorded step) InTurn (.accepted, []) (c, log)) (sid : String) :
    Delivered c log sid := by
  have k : Ordered c log ∧ Kept c log := by
    refine r.invariant (I := fun s => Ordered s.1 s.2 ∧ Kept s.1 s.2)
      ⟨.accepted, .accepted⟩ ?_
    rintro ⟨u, l⟩ e v ⟨hu, hk⟩ hturn hstep
    obtain ⟨w, hw, rfl⟩ := recorded_eq_some.mp hstep
    exact ⟨hu.step hk hturn hw, hk.step hw⟩
  exact k.1.delivered sid

/-- The response to the timer's call, while the event loop waits for it. -/
theorem responses_reach_calls_timer : ∃ c log,
    .completed 1 (.bridgeResponse "s" 1 0 []) ∈ notesOf "s" log ∧ Delivered c log "s" := by
  obtain ⟨⟨c, log⟩, hs, hc⟩ := Reach.exists_of_execIf (recorded step) InTurn (.accepted, [])
    (waitingRun ++ [.host [6, 1, 115, 0, 0, 0, 0, 0, 0, 0, 1, 0], .next "s" none])
    (P := fun s => .completed 1 (.bridgeResponse "s" 1 0 []) ∈ notesOf "s" s.2) (by decide +kernel)
  exact ⟨c, log, hc, responses_reach_calls hs "s"⟩

/-- A session that waits for a timer; while microtasks are flushed, it makes a synchronous call and
gets the response after a stream event. -/
def overtakenRun : List Event :=
  [.host [2, 1, 115, 0, 0, 0, 0, 0, 0, 0, 0],
    .host [5, 1, 115, 0, 0, 0, 0, 0, 0, 0, 0, 0, 0, 0, 49], .next "s" none,
    .asyncCall "s" "_scheduleTimer" [], .answer "s" ⟨some (0, none, none), .none⟩,
    .next "s" none, .next "s" none, .syncCall "s" "_fsReadFile" [],
    .host [7, 1, 115, 0, 1, 97], .next "s" none,
    .host [6, 1, 115, 0, 0, 0, 0, 0, 0, 0, 2, 0], .next "s" none,
    .answer "s" ⟨none, .none⟩, .host [7, 1, 115, 0, 1, 98], .next "s" none]

/-- The second stream event is dispatched before the first. -/
theorem frame_overtaken :
    ¬ ∀ (c : Connection) (log : List Report), Run (.accepted, []) (c, log) →
      ∀ sid, Delivered c log sid := by
  intro hall
  obtain ⟨⟨c, log⟩, hs, hrec, hdisp, hwait⟩ := Reach.exists_of_exec (recorded step) (.accepted, [])
    overtakenRun (P := fun s =>
      receptions (notesOf "s" s.2) = [.streamEvent "s" "a" [], .streamEvent "s" "b" []] ∧
        dispatches (notesOf "s" s.2) = [.streamEvent "s" "b" []] ∧
        (s.1.thread "s").waiting = [.streamEvent "s" "a" []]) (by decide +kernel)
  have horder := (hall c log hs "s").order
  rw [hrec, hdisp, hwait] at horder
  revert horder
  decide

end Session
