import SecureExec.Session.Connection

/-!
# Session — Flow — where a frame goes that a running session reads

While an execution runs, a frame that the thread reads from its channel is the response that a
synchronous call waits for, or it is dispatched by the event loop, or it is set aside and dispatched
later.  `waiting` is what was read and not yet dispatched: the frames that a `for` loop still holds,
then the deferred queue.

* `Flow`: everything that a move inside an execution can do with frames and calls.
-/

namespace Session
open Ipc.Native Session.Execution Thread

/-! ### What waits -/

/-- The frames that a `for` loop still holds. -/
def Source.rest : Source → List BinaryFrame
  | .drained fs => fs
  | .polled fs => fs
  | .channel => []

def Site.rest : Site → List BinaryFrame
  | .dispatch _ src => src.rest
  | _ => []

def Point.rest : Point → List BinaryFrame
  | .engine s => s.rest
  | .recvResponse _ s => s.rest
  | .frames _ src => src.rest
  | _ => []

/-- What was read from the channel and is not yet dispatched. -/
def Execution.waiting (x : Execution) (p : Point) : List BinaryFrame := p.rest ++ x.deferred

/-- The synchronous call that is waited for. -/
def Point.awaits : Point → Option UInt64
  | .recvResponse callId _ => some callId
  | _ => none

variable {p : Point} {callId : UInt64}

theorem awaits_eq_some (h : p.awaits = some callId) :
    ∃ s, p = .recvResponse callId s := by
  cases p with
  | recvResponse id s =>
      cases h
      exact ⟨s, rfl⟩
  | _ => cases h

/-- A frame is the response to this call. -/
def Responds (callId : UInt64) : BinaryFrame → Prop
  | .bridgeResponse _ id _ _ => id = callId
  | _ => False

def IsTerminate : BinaryFrame → Prop
  | .terminateExecution _ => True
  | _ => False

instance (callId : UInt64) : DecidablePred (Responds callId) := fun f => by
  cases f <;> unfold Responds <;> infer_instance

instance : DecidablePred IsTerminate := fun f => by
  cases f <;> unfold IsTerminate <;> infer_instance

/-! ### Moves inside an execution -/

/-- What the dispatch of a frame does: it settles a promise, it passes, or it ends the loop. -/
inductive Dispatched (pending : List UInt64) (rest : List BinaryFrame) (f : BinaryFrame)
    (x' : Execution) (p' : Point) (pending' : List UInt64) : List Note → Prop where
  | settles {callId : UInt64} (hf : Responds callId f) (hp : callId ∈ pending)
      (hpending : pending' = pending.erase callId) (hrest : p'.rest = rest) :
      Dispatched pending rest f x' p' pending' [.dispatched f, .completed callId f]
  | passes (hf : ∀ callId ∈ pending, ¬ Responds callId f) (ht : ¬ IsTerminate f)
      (hpending : pending' = pending) (hrest : p'.rest = rest) :
      Dispatched pending rest f x' p' pending' [.dispatched f]
  | ends (ht : IsTerminate f) (hx : x'.terminated = true) (hpending : pending' = pending)
      (hrest : p'.rest = []) : Dispatched pending rest f x' p' pending' [.dispatched f]

/-- A move that reads and dispatches no frame. -/
inductive Quiet (t : Thread) (x : Execution) (p : Point) (t' : Thread) (x' : Execution)
    (p' : Point) : List Note → Prop where
  | silent (hrx : t'.rx = t.rx) (hpending : t'.pending = t.pending)
      (hawaits : p'.awaits = p.awaits) (hwaiting : x'.waiting p' = x.waiting p) :
      Quiet t x p t' x' p' []
  /-- A synchronous call fails with no response. -/
  | abandons {callId : UInt64} (hp : p.awaits = some callId) (hp' : p'.awaits = none)
      (hrx : t'.rx = t.rx ∨ t.rx = .shutdown :: t'.rx) (hpending : t'.pending = t.pending)
      (hwaiting : x'.waiting p' = x.waiting p) : Quiet t x p t' x' p' [.abandoned callId]

/-- What a move from the point `p` of the execution `x` does with frames and calls. -/
inductive Flow (t : Thread) (x : Execution) (p : Point) (t' : Thread) (x' : Execution)
    (p' : Point) : List Note → Prop where
  | quiet {ns : List Note} (h : Quiet t x p t' x' p' ns) : Flow t x p t' x' p' ns
  /-- A synchronous call gets its response. -/
  | responds {callId : UInt64} {f : BinaryFrame} (hp : p.awaits = some callId)
      (hp' : p'.awaits = none) (hrx : t.rx = .message f :: t'.rx) (hf : Responds callId f)
      (hpending : t'.pending = t.pending) (hwaiting : x'.waiting p' = x.waiting p) :
      Flow t x p t' x' p' [.completed callId f]
  /-- A frame that a synchronous call does not wait for is set aside. -/
  | defers {callId : UInt64} {f : BinaryFrame} (hp : p.awaits = some callId)
      (hp' : p'.awaits = some callId) (hrx : t.rx = .message f :: t'.rx)
      (hf : ¬ Responds callId f) (hpending : t'.pending = t.pending)
      (hwaiting : x'.waiting p' = x.waiting p ++ [f]) : Flow t x p t' x' p' [.received f]
  /-- The next frame of a `for` loop is dispatched. -/
  | dispatches {f : BinaryFrame} {rest : List BinaryFrame} {ns : List Note}
      (hp : p.awaits = none) (hp' : p'.awaits = none) (hfs : ∃ l src, p = .frames l src)
      (hrest : p.rest = f :: rest) (hrx : t'.rx = t.rx) (hdeferred : x'.deferred = x.deferred)
      (hd : Dispatched t.pending rest f x' p' t'.pending ns) : Flow t x p t' x' p' ns
  /-- A frame is read from the channel and dispatched. -/
  | receives {f : BinaryFrame} {ns : List Note} (hp : ∃ l, p = .recv l) (hp' : p'.awaits = none)
      (hrx : t.rx = .message f :: t'.rx) (hdeferred : x'.deferred = x.deferred)
      (hd : Dispatched t.pending [] f x' p' t'.pending ns) : Flow t x p t' x' p' (.received f :: ns)
  /-- The session is shut down. -/
  | shuts (hp : ∃ l, p = .recv l) (hp' : p'.awaits = none) (hrx : t.rx = .shutdown :: t'.rx)
      (hpending : t'.pending = t.pending) (hx : x'.terminated = true) (hrest : p'.rest = [])
      (hdeferred : x'.deferred = x.deferred) : Flow t x p t' x' p' []

/-- A move after which the execution `x` goes on. -/
structure Stays (t : Thread) (x : Execution) (mv : Move) (x' : Execution) (p' : Point) :
    Prop where
  control : mv.thread.control = .running x' p'
  sessionId : x'.sessionId = x.sessionId
  out : mv.out = []
  terminated : x.terminated = true → x'.terminated = true
  globals : mv.thread.lastGlobalsPayload = t.lastGlobalsPayload
  closed : mv.thread.closed = t.closed

/-- Where a move inside the execution `x` goes, and what it does with frames. -/
structure Inside (t : Thread) (x : Execution) (p : Point) (mv : Move) (x' : Execution)
    (p' : Point) : Prop extends Stays t x mv x' p' where
  flow : Flow t x p mv.thread x' p' mv.notes

/-- The event loop is left because of an error: the frames of its `for` loop are dropped. -/
structure Fails (t : Thread) (x : Execution) (mv : Move) (x' : Execution) (p' : Point) :
    Prop extends Stays t x mv x' p' where
  notes : mv.notes = []
  rx : mv.thread.rx = t.rx
  pending : mv.thread.pending = t.pending
  awaits : p'.awaits = none
  rest : p'.rest = []
  deferred : x'.deferred = x.deferred

/-! ### Points after an event loop -/

section

variable (x : Execution) (l : Loop)

theorem beforeResult_rest : x.beforeResult.rest = [] ∧ x.beforeResult.awaits = none := by
  rw [beforeResult]
  split <;> exact ⟨rfl, rfl⟩

theorem afterEntry_rest : x.afterEntry.rest = [] ∧ x.afterEntry.awaits = none := by
  rw [afterEntry]
  split
  · exact ⟨rfl, rfl⟩
  · exact beforeResult_rest x

theorem afterLoop_rest : (x.afterLoop l).rest = [] ∧ (x.afterLoop l).awaits = none := by
  cases l with
  | entry => exact afterEntry_rest x
  | handles => exact beforeResult_rest x

variable (pending : List UInt64)

theorem enterLoop_rest : (x.enterLoop pending).rest = [] ∧ (x.enterLoop pending).awaits = none := by
  rw [enterLoop]
  split
  · exact ⟨rfl, rfl⟩
  · exact afterEntry_rest x

theorem enterHandles_rest :
    (x.enterHandles pending).rest = [] ∧ (x.enterHandles pending).awaits = none := by
  rw [enterHandles]
  split
  · exact ⟨rfl, rfl⟩
  · exact beforeResult_rest x

variable (st : EventLoopStatus)

theorem leave_sessionId : (x.leave st).sessionId = x.sessionId := by
  cases st <;> rfl

theorem leave_deferred : (x.leave st).deferred = x.deferred := by
  cases st <;> rfl

theorem leave_terminated (h : x.terminated = true) :
    (x.leave st).terminated = true := by
  cases st with
  | terminated => rfl
  | completed | failed _ _ => exact h

end

/-! ### The functions of a thread -/

/-- What a dispatch leads to. -/
structure AfterDispatch (t : Thread) (x : Execution) (rest : List BinaryFrame) (f : BinaryFrame)
    (pre : List Note) (mv : Move) (x' : Execution) (p' : Point) (ns : List Note) : Prop where
  control : mv.thread.control = .running x' p'
  sessionId : x'.sessionId = x.sessionId
  out : mv.out = []
  terminated : x.terminated = true → x'.terminated = true
  globals : mv.thread.lastGlobalsPayload = t.lastGlobalsPayload
  closed : mv.thread.closed = t.closed
  rx : mv.thread.rx = t.rx
  deferred : x'.deferred = x.deferred
  awaits : p'.awaits = none
  notes : mv.notes = pre ++ ns
  dispatched : Dispatched t.pending rest f x' p' mv.thread.pending ns

theorem afterDispatch (t : Thread) (x : Execution) (l : Loop) (src : Source) (f : BinaryFrame)
    (pre : List Note) :
    ∃ x' p' ns, AfterDispatch t x src.rest f pre (t.dispatch x l src f pre) x' p' ns := by
  have hpass : ∀ {g : BinaryFrame}, (∀ callId ∈ t.pending, ¬ Responds callId g) →
      ¬ IsTerminate g → AfterDispatch t x src.rest g pre
        (t.moved x (.frames l src) (pre ++ [.dispatched g])) x (.frames l src) [.dispatched g] :=
    fun hf hg => ⟨rfl, rfl, rfl, id, rfl, rfl, rfl, rfl, rfl, rfl, .passes hf hg rfl rfl⟩
  rw [dispatch.eq_def]
  split
  · rename_i s callId status payload
    split
    · rename_i hmem
      exact ⟨x, _, _, rfl, rfl, rfl, id, rfl, rfl, rfl, rfl, rfl, rfl, .settles rfl hmem rfl rfl⟩
    · rename_i hmem
      refine ⟨x, _, _, hpass ?_ (fun h => h.elim)⟩
      intro id hid hr
      exact hmem (hr ▸ hid)
  · refine ⟨x, _, _, rfl, rfl, rfl, id, rfl, rfl, rfl, rfl, rfl, rfl,
      .passes ?_ (fun h => h.elim) rfl rfl⟩
    exact fun _ _ h => h.elim
  · exact ⟨_, _, _, rfl, rfl, rfl, fun _ => rfl, rfl, rfl, rfl, rfl, (afterLoop_rest _ l).2, rfl,
      .ends trivial rfl rfl (afterLoop_rest _ l).1⟩
  · rename_i hresp hstream hterm
    refine ⟨x, _, _, hpass ?_ ?_⟩
    · intro id _ hr
      cases f with
      | bridgeResponse s callId status payload => exact hresp s callId status payload rfl
      | _ => exact hr.elim
    · intro hg
      cases f with
      | terminateExecution s => exact hterm s rfl
      | _ => exact hg.elim

variable {t t' : Thread} {x x' : Execution} {p' : Point}

section Silent

variable (hid : x'.sessionId = x.sessionId) (hrx : t'.rx = t.rx) (hpending : t'.pending = t.pending)
  (hglobals : t'.lastGlobalsPayload = t.lastGlobalsPayload) (hclosed : t'.closed = t.closed)
  (hx : x.terminated = true → x'.terminated = true) (hawaits : p'.awaits = p.awaits)
  (hwaiting : x'.waiting p' = x.waiting p)
include hid hrx hpending hglobals hclosed hx hawaits hwaiting

/-- A silent move: to a point where the same frames wait. -/
theorem Inside.silent : Inside t x p (t'.moved x' p' []) x' p' :=
  ⟨⟨rfl, hid, rfl, hx, hglobals, hclosed⟩, .quiet (.silent hrx hpending hawaits hwaiting)⟩

/-- A silent move, with its effect on frames said once more. -/
theorem Inside.still : Inside t x p (t'.moved x' p' []) x' p' ∧
    Quiet t x p (t'.moved x' p' []).thread x' p' (t'.moved x' p' []).notes :=
  ⟨.silent hid hrx hpending hglobals hclosed hx hawaits hwaiting,
    .silent hrx hpending hawaits hwaiting⟩

end Silent

/-- The event loop is left where nothing of a `for` loop is held. -/
theorem Inside.leaves (l : Loop)
    (st : EventLoopStatus) (hid : x'.sessionId = x.sessionId)
    (hx : x'.terminated = x.terminated) (hd : x'.deferred = x.deferred)
    (hrest : p.rest = []) (hawaits : p.awaits = none) :
    Inside t x p (t.leaveLoop x' l st []) (x'.leave st) ((x'.leave st).afterLoop l) := by
  refine .silent ((leave_sessionId x' st).trans hid) rfl rfl rfl rfl ?_ ?_ ?_
  · intro h
    exact leave_terminated x' st (hx.trans h)
  · rw [hawaits]
    exact (afterLoop_rest _ l).2
  · rw [waiting, waiting, (afterLoop_rest _ l).1, hrest, leave_deferred, hd]

theorem inside_nextFrame (t : Thread) (x : Execution) (l : Loop) (src : Source) :
    ∃ x' p', Inside t x (.frames l src) (t.nextFrame x l src) x' p' := by
  have hdispatch : ∀ {f rest src'}, src.rest = f :: rest → src'.rest = rest →
      ∃ x' p', Inside t x (.frames l src) (t.dispatch x l src' f []) x' p' := by
    intro f rest src' hsrc hrest
    obtain ⟨x', p', ns, h⟩ := afterDispatch t x l src' f []
    refine ⟨x', p', ⟨h.control, h.sessionId, h.out, h.terminated, h.globals, h.closed⟩, ?_⟩
    rw [h.notes, List.nil_append]
    exact .dispatches rfl h.awaits ⟨l, src, rfl⟩ hsrc h.rx h.deferred (hrest ▸ h.dispatched)
  rw [nextFrame.eq_def]
  split
  · exact hdispatch rfl rfl
  · split
    · exact ⟨_, _, .leaves l _ rfl rfl rfl rfl rfl⟩
    · exact ⟨x, _, .silent rfl rfl rfl rfl rfl id rfl rfl⟩
  · exact hdispatch rfl rfl
  · split
    · exact ⟨_, _, .leaves l _ rfl rfl rfl rfl rfl⟩
    · exact ⟨x, _, .silent rfl rfl rfl rfl rfl id rfl rfl⟩
  · exact ⟨x, _, .silent rfl rfl rfl rfl rfl id rfl rfl⟩

theorem inside_testLoop (t : Thread) (x : Execution) (l : Loop) :
    ∃ x' p', Inside t x (.test l) (t.testLoop x l) x' p' := by
  rw [testLoop]
  split
  · refine ⟨_, _, .silent rfl rfl rfl rfl rfl id rfl ?_⟩
    simp [waiting, Point.rest, Source.rest]
  · exact ⟨_, _, .leaves l _ rfl rfl rfl rfl rfl⟩

variable {s : Site} {rx : List SessionCommand} {cmd : SessionCommand}

theorem inside_response (hrx : t.rx = cmd :: rx) :
    ∃ x' p', Inside t x (.recvResponse callId s) ({ t with rx }.response x callId s cmd) x' p' := by
  have hdefer : ∀ {f : BinaryFrame}, cmd = .message f → ¬ Responds callId f →
      ∃ x' p', Inside t x (.recvResponse callId s) ({ t with rx }.moved
        { x with deferred := x.deferred ++ [f] } (.recvResponse callId s) [.received f]) x' p' := by
    intro f hf hr
    refine ⟨_, _, ⟨rfl, rfl, rfl, id, rfl, rfl⟩, .defers rfl rfl (by rw [hrx, hf]; rfl) hr rfl ?_⟩
    simp [waiting]
  rw [response.eq_def]
  split
  · exact ⟨x, _, ⟨rfl, rfl, rfl, id, rfl, rfl⟩, .quiet (.abandons rfl rfl (.inr hrx) rfl rfl)⟩
  · rename_i sid callId' status payload
    split
    · rename_i hid
      exact ⟨x, _, ⟨rfl, rfl, rfl, id, rfl, rfl⟩, .responds rfl rfl hrx hid rfl rfl⟩
    · rename_i hid
      exact hdefer rfl hid
  · rename_i f hf
    refine hdefer rfl ?_
    intro hr
    cases f with
    | bridgeResponse sid id status payload => exact hf sid id status payload rfl
    | _ => exact hr.elim

theorem inside_loopCommand {l : Loop} (hrx : t.rx = cmd :: rx) :
    ∃ x' p', Inside t x (.recv l) ({ t with rx }.loopCommand x l cmd) x' p' := by
  cases cmd with
  | shutdown =>
      exact ⟨_, _, ⟨rfl, rfl, rfl, fun _ => rfl, rfl, rfl⟩, .shuts ⟨l, rfl⟩ (afterLoop_rest _ l).2 hrx
        rfl rfl
        (afterLoop_rest _ l).1 rfl⟩
  | message f =>
      obtain ⟨x', p', ns, h⟩ := afterDispatch { t with rx } x l .channel f [.received f]
      refine ⟨x', p', ⟨h.control, h.sessionId, h.out, h.terminated, h.globals, h.closed⟩, ?_⟩
      rw [loopCommand, h.notes]
      exact .receives ⟨l, rfl⟩ h.awaits (by rw [hrx, h.rx]) h.deferred h.dispatched

variable {mv : Move}

/-- What follows when the engine returns: a quiet move, or the event loop fails. -/
theorem after_answered {a : Answer}
    (ht : t.control = .running x (.engine s)) (h : t.answered a = some mv) :
    (∃ x' p', Inside t x (.engine s) mv x' p' ∧
      Quiet t x (.engine s) mv.thread x' p' mv.notes) ∨
    (a.result.isSome ∧ (∃ l src, s = .dispatch l src) ∧ ∃ x' p', Fails t x mv x' p') := by
  have hr : (x.report a).sessionId = x.sessionId ∧ (x.report a).terminated = x.terminated ∧
      (x.report a).deferred = x.deferred := by
    rw [report]
    split <;> exact ⟨rfl, rfl, rfl⟩
  have hto : ∀ {x' : Execution} {p' : Point}, x'.sessionId = x.sessionId →
      x'.terminated = x.terminated → x'.deferred = x.deferred → s.rest = [] →
      p'.rest = [] ∧ p'.awaits = none → (∃ y q, Inside t x (.engine s) (t.moved x' p' []) y q ∧
        Quiet t x (.engine s) (t.moved x' p' []).thread y q (t.moved x' p' []).notes) := by
    intro x' p' hid hx hd hs hp
    refine ⟨x', p', Inside.still hid rfl rfl rfl rfl ?_ hp.2 ?_⟩
    · rw [hx]
      exact id
    · rw [waiting, waiting, hp.1, hd, Point.rest, hs]
  rw [answered, ht] at h
  cases s with
  | initScript =>
      dsimp only at h
      split at h
      · split at h <;> cases h <;> exact .inl (hto rfl rfl rfl rfl ⟨rfl, rfl⟩)
      · cases h
  | script =>
      dsimp only at h
      split at h
      · split at h <;> cases h
        · exact .inl (hto rfl rfl rfl rfl ⟨rfl, rfl⟩)
        · exact .inl (hto rfl rfl rfl rfl (enterLoop_rest _ _))
      · cases h
  | finalizeFirst =>
      cases h
      exact .inl (hto hr.1 hr.2.1 hr.2.2 rfl (enterLoop_rest _ _))
  | dispatch l src =>
      dsimp only at h
      split at h
      · rename_i code exports error ha
        cases h
        exact .inr ⟨by rw [ha]; rfl, ⟨l, src, rfl⟩, _, _, ⟨rfl, rfl, rfl, id, rfl, rfl⟩, rfl, rfl,
          rfl, (afterLoop_rest _ l).2, (afterLoop_rest _ l).1, rfl⟩
      · cases h
      · cases h
        exact .inl ⟨_, _, Inside.still rfl rfl rfl rfl rfl id rfl rfl⟩
  | flush l =>
      dsimp only at h
      split at h <;> cases h
      · refine .inl (hto rfl rfl ?_ rfl (afterLoop_rest _ l))
        exact leave_deferred _ _
      · exact .inl (hto rfl rfl rfl rfl ⟨rfl, rfl⟩)
  | poll l =>
      cases h
      refine .inl ⟨_, _, Inside.still rfl rfl rfl rfl rfl id rfl ?_⟩
      simp [waiting, Point.rest, Site.rest, Source.rest]
  | finalizeModule =>
      dsimp only at h
      split at h <;> cases h
      · exact .inl (hto hr.1 hr.2.1 hr.2.2 rfl ⟨rfl, rfl⟩)
      · exact .inl (hto hr.1 hr.2.1 hr.2.2 rfl (beforeResult_rest _))
  | waitForActiveHandles =>
      cases h
      exact .inl (hto rfl rfl rfl rfl (enterHandles_rest _ _))
  | finalizeScript =>
      dsimp only at h
      split at h <;> cases h <;> exact .inl (hto rfl rfl rfl rfl ⟨rfl, rfl⟩)

/-! ### Every move -/

/-- What a step of a thread does: it goes on inside an execution, or ends one, or is a step of the
command loop. -/
inductive Act (sid : String) (t : Thread) : Event → Move → Prop where
  | goes {snapshot : Option String} {x x' : Execution} {p p' : Point} {mv : Move}
      (ht : t.control = .running x p) (h : Inside t x p mv x' p') :
      Act sid t (.next sid snapshot) mv
  | fails {a : Answer} {x x' : Execution} {l : Loop} {src : Source} {p' : Point} {mv : Move}
      (ht : t.control = .running x (.engine (.dispatch l src))) (ha : a.result.isSome)
      (h : Fails t x mv x' p') : Act sid t (.answer sid a) mv
  | other {e : Event} {x x' : Execution} {p p' : Point} {mv : Move}
      (ht : t.control = .running x p) (h : Inside t x p mv x' p')
      (hq : Quiet t x p mv.thread x' p' mv.notes) : Act sid t e mv
  | finish {snapshot : Option String} {x : Execution} (ht : t.control = .running x .sendResult) :
      Act sid t (.next sid snapshot) (t.finish x)
  | command {snapshot : Option String} {cmd : SessionCommand} {rx : List SessionCommand}
      (ht : t.control = .commandLoop) (hrx : t.rx = cmd :: rx) :
      Act sid t (.next sid snapshot) ({ t with rx }.command snapshot cmd)
  | stop {snapshot : Option String} (ht : t.control = .commandLoop) (hrx : t.rx = [])
      (hclosed : t.closed = true) :
      Act sid t (.next sid snapshot) ⟨{ t with control := .stopped }, [], []⟩

variable {sid : String} {e : Event}

/-- A quiet move, whose effect on frames is said once. -/
theorem Act.of_quiet
    (ht : t.control = .running x p) (hc : mv.thread.control = .running x' p')
    (hid : x'.sessionId = x.sessionId) (hout : mv.out = [])
    (hx : x.terminated = true → x'.terminated = true)
    (hglobals : mv.thread.lastGlobalsPayload = t.lastGlobalsPayload)
    (hclosed : mv.thread.closed = t.closed) (hq : Quiet t x p mv.thread x' p' mv.notes) :
    Act sid t e mv :=
  .other ht ⟨⟨hc, hid, hout, hx, hglobals, hclosed⟩, .quiet hq⟩ hq

theorem act_of_next {snapshot : Option String}
    (h : t.next snapshot = some mv) : Act sid t (.next sid snapshot) mv := by
  rw [next] at h
  split at h
  · rename_i ht
    split at h
    · rename_i cmd rx hrx
      cases h
      exact .command ht hrx
    · rename_i hrx
      split at h
      · rename_i hclosed
        cases h
        exact .stop ht hrx hclosed
      · cases h
  · rename_i x callId s ht
    split at h
    · rename_i cmd rx hrx
      cases h
      have hresp : ∃ x' p', Inside t x (.recvResponse callId s)
          ({ t with rx }.response x callId s cmd) x' p' := inside_response hrx
      obtain ⟨x', p', hin⟩ := hresp
      exact .goes ht hin
    · split at h
      · cases h
        exact .of_quiet ht rfl rfl rfl id rfl rfl (.abandons rfl rfl (.inl rfl) rfl rfl)
      · cases h
  · rename_i x l ht
    cases h
    obtain ⟨x', p', hin⟩ := inside_testLoop t x l
    exact .goes ht hin
  · rename_i x l src ht
    cases h
    obtain ⟨x', p', hin⟩ := inside_nextFrame t x l src
    exact .goes ht hin
  · rename_i x l ht
    split at h
    · rename_i cmd rx hrx
      cases h
      obtain ⟨x', p', hin⟩ := inside_loopCommand (x := x) (l := l) hrx
      exact .goes ht hin
    · cases h
  · rename_i x ht
    cases h
    exact .finish ht
  · cases h
  · cases h

theorem act_of_tick (h : t.tick = some mv) :
    Act sid t (.tick sid) mv := by
  rw [tick] at h
  split at h
  · rename_i x l ht
    split at h
    · cases h
      exact .of_quiet ht rfl rfl rfl id rfl rfl (.silent rfl rfl rfl rfl)
    · cases h
  · cases h

theorem act_of_timeout (h : t.timeout = some mv) :
    Act sid t (.timeout sid) mv := by
  rw [timeout] at h
  split at h
  · rename_i x p ht
    split at h
    · cases h
      exact .of_quiet ht rfl rfl rfl id rfl rfl (.silent rfl rfl rfl rfl)
    · cases h
  · cases h

theorem act_of_abort (h : t.abort = some mv) :
    Act sid t (.abort sid) mv := by
  rw [abort] at h
  split at h
  · rename_i x callId s ht
    split at h
    · cases h
      exact .of_quiet ht rfl rfl rfl id rfl rfl (.abandons rfl rfl (.inl rfl) rfl rfl)
    · cases h
  · rename_i x l ht
    split at h
    · cases h
      have hw : (x.leave .terminated).waiting ((x.leave .terminated).afterLoop l) =
          x.waiting (.recv l) := by
        rw [waiting, waiting, (afterLoop_rest _ l).1, leave_deferred]
        rfl
      exact .of_quiet ht rfl rfl rfl (fun _ => rfl) rfl rfl
        (.silent rfl rfl (afterLoop_rest _ l).2 hw)
    · cases h
  · cases h

theorem act_of_answer {a : Answer}
    (h : t.answered a = some mv) : Act sid t (.answer sid a) mv := by
  have hx : ∃ x s, t.control = .running x (.engine s) := by
    cases hc : t.control with
    | running x p =>
        cases p with
        | engine s => exact ⟨x, s, rfl⟩
        | _ =>
            rw [answered, hc] at h
            cases h
    | _ =>
        rw [answered, hc] at h
        cases h
  obtain ⟨x, s, ht⟩ := hx
  rcases after_answered ht h with ⟨x', p', hin, hq⟩ | ⟨ha, ⟨l, src, rfl⟩, x', p', hf⟩
  · exact .other ht hin hq
  · exact .fails ht ha hf

theorem act_of_moves (h : Moves sid t e mv) :
    Act sid t e mv := by
  cases h with
  | next h => exact act_of_next h
  | tick h => exact act_of_tick h
  | timeout h => exact act_of_timeout h
  | abort h => exact act_of_abort h
  | answer h => exact act_of_answer h

/-! ### Bridge calls -/

/-- A bridge call `callId` made by the execution `x` at `s`: sent and waited for, sent with a
promise, or not sent. -/
inductive Call (t : Thread) (x : Execution) (s : Site) (callId : UInt64) : Move → Prop where
  | sync {method : String} {args bytes : List UInt8}
      (h : encodeFrameInto (.bridgeCall x.sessionId callId method args) = .ok bytes) :
      Call t x s callId ⟨t.goto x (.recvResponse callId s), [bytes], [.issued callId]⟩
  | async {method : String} {args bytes : List UInt8}
      (h : encodeFrameInto (.bridgeCall x.sessionId callId method args) = .ok bytes) :
      Call t x s callId ⟨(t.insertPending callId).goto x (.engine s), [bytes], [.issued callId]⟩
  | unsent : Call t x s callId (t.moved x (.engine s) [.issued callId, .abandoned callId])

theorem call_of_calls
    {r : String × Move} (h : Calls sid t callId e r) :
    ∃ x s, t.control = .running x (.engine s) ∧ r.1 = x.sessionId ∧ Call t x s callId r.2 := by
  cases h with
  | sync h =>
      rw [Connection.syncCall] at h
      split at h
      · rename_i x s ht
        cases h
        refine ⟨x, s, ht, rfl, ?_⟩
        simp only [Connection.send]
        split
        · rename_i bytes hb
          exact .sync hb
        · exact .unsent
      · cases h
  | async h =>
      rw [Connection.asyncCall] at h
      split at h
      · rename_i x s ht
        cases h
        refine ⟨x, s, ht, rfl, ?_⟩
        simp only [Connection.send]
        split
        · rename_i bytes hb
          exact .async hb
        · exact .unsent
      · cases h

/-! ### What is reported inside an execution -/

/-- What is reported inside an execution. -/
def Note.Inside : Note → Prop
  | .forwarded _ | .took _ | .ignored _ | .ended _ => False
  | .received _ | .dispatched _ | .issued _ | .completed _ _ | .abandoned _ => True

/-- What is reported of the frames that an execution reads. -/
def Note.OfFrame : Note → Prop
  | .received _ | .dispatched _ | .completed _ _ | .abandoned _ => True
  | .forwarded _ | .took _ | .ignored _ | .ended _ | .issued _ => False

theorem Note.OfFrame.inside {n : Note} (h : n.OfFrame) : n.Inside := by
  cases n with
  | received _ | dispatched _ | completed _ _ | abandoned _ => trivial
  | _ => exact h.elim

variable {ns : List Note}

theorem ofFrame_of_dispatched {pending pending' : List UInt64} {rest : List BinaryFrame}
    {f : BinaryFrame}
    (h : Dispatched pending rest f x' p' pending' ns) : ∀ n ∈ ns, n.OfFrame := by
  cases h with
  | settles _ _ _ _ =>
      intro n hn
      rcases List.mem_pair.mp hn with rfl | rfl <;> trivial
  | passes _ _ _ _ | ends _ _ _ _ =>
      intro n hn
      rw [List.mem_singleton.mp hn]
      trivial

section

variable (h : Flow t x p t' x' p' ns)
include h

theorem ofFrame_of_flow : ∀ n ∈ ns, n.OfFrame := by
  have hone : ∀ {m : Note}, m.OfFrame → ∀ n ∈ [m], n.OfFrame := by
    intro m hm n hn
    rw [List.mem_singleton.mp hn]
    exact hm
  cases h with
  | quiet h =>
      cases h with
      | silent _ _ _ _ => simp
      | abandons _ _ _ _ _ => exact hone trivial
  | shuts _ _ _ _ _ _ _ => simp
  | responds _ _ _ _ _ _ => exact hone trivial
  | defers _ _ _ _ _ _ => exact hone trivial
  | dispatches _ _ _ _ _ _ hd => exact ofFrame_of_dispatched hd
  | receives _ _ _ _ hd =>
      intro n hn
      rcases List.mem_cons.mp hn with rfl | hn
      · trivial
      · exact ofFrame_of_dispatched hd n hn

theorem inside_of_flow : ∀ n ∈ ns, n.Inside :=
  fun n hn => (ofFrame_of_flow h n hn).inside

/-- The channel loses at most its first command. -/
theorem rx_of_flow : t'.rx <:+ t.rx := by
  cases h with
  | quiet h =>
      cases h with
      | silent hrx _ _ _ => rw [hrx]
      | abandons _ _ hrx _ _ =>
          rcases hrx with hrx | hrx
          · rw [hrx]
          · rw [hrx]; exact List.suffix_cons _ _
  | dispatches _ _ _ _ hrx _ _ => rw [hrx]
  | responds _ _ hrx _ _ _ | defers _ _ hrx _ _ _ | receives _ _ hrx _ _
  | shuts _ _ hrx _ _ _ _ => rw [hrx]; exact List.suffix_cons _ _

end

theorem inside_of_call
    (h : Call t x s callId mv) : ∀ n ∈ mv.notes, n.Inside := by
  cases h with
  | sync _ | async _ =>
      intro n hn
      rw [List.mem_singleton.mp hn]
      trivial
  | unsent =>
      intro n hn
      rcases List.mem_pair.mp hn with rfl | rfl <;> trivial

/-! ### What a step does to one session -/

/-- Everything that a step can do to session `sid`. -/
inductive SessionStep (c : Connection) (sid : String) (e : Event) (r : Connection × List Report) :
    Prop where
  | same (hs : r.1.sessions.get sid = c.sessions.get sid) (hn : notesOf sid r.2 = [])
  | forwards {t : Thread} {frame : BinaryFrame} (hto : Addressed c sid frame)
      (ht : c.sessions.get sid = some t) (hstop : t.control ≠ .stopped)
      (hs : r.1.sessions.get sid = some { t with rx := t.rx ++ [.message frame] })
      (hn : notesOf sid r.2 = [.forwarded frame])
  | creates {cpu : Bool} (ht : c.sessions.get sid = none)
      (hs : r.1.sessions.get sid = some (.spawn cpu)) (hn : notesOf sid r.2 = [])
  | destroys {t : Thread} {body : List UInt8} (he : e = .host body)
      (hd : decodeBody body = .ok (.destroySession sid)) (ht : c.sessions.get sid = some t)
      (hs : r.1.sessions.get sid = some { t with rx := t.rx ++ [.shutdown], closed := true })
      (hn : notesOf sid r.2 = [])
  | joins {t : Thread} (ht : c.sessions.get sid = some t) (hc : t.control = .stopped)
      (hs : r.1.sessions.get sid = none) (hn : notesOf sid r.2 = [])
  | acts {t : Thread} {mv : Move} (he : e.sessionId? = some sid)
      (ht : c.sessions.get sid = some t) (h : Act sid t e mv)
      (hs : r.1.sessions.get sid = some mv.thread) (hn : notesOf sid r.2 = mv.notes)
  | calls {t : Thread} {x : Execution} {s : Site} {mv : Move} (he : e.sessionId? = some sid)
      (hcall : e.IsCall) (ht : c.sessions.get sid = some t)
      (hx : t.control = .running x (.engine s)) (h : Call t x s c.sharedCallId mv)
      (hs : r.1.sessions.get sid = some mv.thread) (hn : notesOf sid r.2 = mv.notes)

/-- A move of the thread of some session, seen from session `sid`. -/
theorem session_of_moved {c : Connection} (c₁ : Connection) (hc : c₁.sessions = c.sessions)
    (sid s : String) (mv : Move) :
    s = sid ∧ (c₁.moved s mv).1.sessions.get sid = some mv.thread ∧
        notesOf sid (c₁.moved s mv).2 = mv.notes ∨
      (c₁.moved s mv).1.sessions.get sid = c.sessions.get sid ∧
        notesOf sid (c₁.moved s mv).2 = [] := by
  by_cases hs : s = sid
  · subst hs
    exact .inl ⟨rfl, OMap.get_set_self _ _ _, notesOf_self s mv.notes⟩
  · refine .inr ⟨?_, notesOf_other sid hs mv.notes⟩
    exact (OMap.get_set_other _ (Ne.symm hs) _).trans (by rw [hc])

theorem session_step {c : Connection} {r : Connection × List Report}
    (h : step c e = some r) (sid : String) : SessionStep c sid e r := by
  cases step_does h with
  | receive hd hr =>
      cases atSession_of_receive hr sid with
      | same hs hn => exact .same hs hn
      | forwards hto ht hstop hs hn => exact .forwards hto ht hstop hs hn
      | creates _ ht hs hn => exact .creates ht hs hn
      | destroys hf ht hs hn => exact .destroys rfl (hf ▸ hd) ht hs hn
  | join hj =>
      obtain ⟨hn, -, hs | ⟨t, ht, hstop, hs⟩⟩ := join_session hj sid
      · exact .same hs hn
      · exact .joins ht hstop hs hn
  | @called s t e r ht hcall =>
      have he : e.sessionId? = some s ∧ e.IsCall := by
        cases hcall with
        | sync _ | async _ => exact ⟨rfl, trivial⟩
      obtain ⟨x, site, hx, -, hc⟩ := call_of_calls hcall
      rcases session_of_moved (c.register r.1) rfl sid s r.2 with
        ⟨rfl, hs, hn⟩ | ⟨hs, hn⟩
      · exact .calls he.1 he.2 ht hx hc hs hn
      · exact .same hs hn
  | @moved s t e mv ht hmove =>
      have he : e.sessionId? = some s := by
        cases hmove with
        | next _ | tick _ | timeout _ | abort _ | answer _ => rfl
      rcases session_of_moved c rfl sid s mv with
        ⟨rfl, hs, hn⟩ | ⟨hs, hn⟩
      · exact .acts he ht (act_of_moves hmove) hs hn
      · exact .same hs hn

end Session
