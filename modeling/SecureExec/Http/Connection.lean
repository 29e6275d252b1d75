import SecureExec.Http.Requests
import SecureExec.Lib.Framing
import SecureExec.Lib.Lts

/-!
# Http — Connection — the requests on a loopback socket

A write to a socket whose server is in the same process runs the loop that takes requests off the
buffer, unless it runs.  The loop waits while a request is handled, and counts as running until the
callback of its `finally`: no loop looks at what is written between its end and that before the next
write.

`requests_anyhow_cut`: what the server is given does not depend on how the bytes are cut into writes.
-/

namespace Http
open Framing Lts

/-- Where `_processLoopbackHttpRequests` is.  It waits for `dispatchLoopbackServerRequest`, or it has
ended and `_loopbackDispatchRunning` is still `true`. -/
inductive Loop where
  | idle
  | waiting
  | ended
  deriving DecidableEq

structure NetSocket where
  loopbackBuffer : Text
  loop : Loop
  destroyed : Bool
  /-- All bytes that were written. -/
  written : Text
  /-- The requests that the server was given before something else was found, if it was. -/
  dispatched : List ServerRequest
  halted : Bool
  /-- There may be something in the buffer that no loop looks at. -/
  missed : Bool

inductive SocketEvent where
  | write (data : Text)
  /-- A request has been handled, or its handling has thrown. -/
  | answer
  | throw
  /-- The callback of `finally`. -/
  | settle
  | destroy

namespace NetSocket

variable (listeners : ℕ) (s : NetSocket)

def init : NetSocket := ⟨[], .idle, false, [], [], false, false⟩

/-- The loop, up to the next `await` or to its end. -/
def processLoopbackHttpRequests : NetSocket :=
  if s.destroyed then { s with loop := .ended }
  else
    match parseLoopbackRequestBuffer listeners s.loopbackBuffer with
    | .incomplete => { s with loop := .ended, missed := false }
    | .badRequest => { s with loopbackBuffer := [], loop := .ended, halted := true, missed := false }
    | .request n _ _ (some _) =>
      { s with
        loopbackBuffer := s.loopbackBuffer.drop n, loop := .ended, halted := true, missed := false }
    -- behind an answer that closes the connection the requests go on, unanswered
    | .request n _ request none =>
      { s with
        loopbackBuffer := s.loopbackBuffer.drop n, loop := .waiting
        dispatched := if s.halted then s.dispatched else s.dispatched ++ [request] }

def step : SocketEvent → Option NetSocket
  | .write data =>
    -- a destroyed socket has no server
    if s.destroyed then some s
    else
      let t := { s with loopbackBuffer := s.loopbackBuffer ++ data, written := s.written ++ data }
      match s.loop with
      | .idle => some (t.processLoopbackHttpRequests listeners)
      | .waiting => some t
      | .ended => some { t with missed := true }
  | .answer => if s.loop = .waiting then some (s.processLoopbackHttpRequests listeners) else none
  | .throw => if s.loop = .waiting then some { s with loop := .ended, missed := true } else none
  | .settle => if s.loop = .ended then some { s with loop := .idle } else none
  | .destroy => some { s with destroyed := true }

/-- No request is being handled, and nothing was written that no loop looks at. -/
def AtRest : Prop := s.loop ≠ .waiting ∧ s.missed = false ∧ s.destroyed = false

end NetSocket

open NetSocket

variable {listeners : ℕ} {s t : NetSocket} {b : Text}

/-- The request at the head of the buffer, if there is one. -/
def nextRequest (listeners : ℕ) (b : Text) : Option (ServerRequest × Text) :=
  match parseLoopbackRequestBuffer listeners b with
  | .request n _ request none => some (request, b.drop n)
  | _ => none

theorem stable_nextRequest : Stable (nextRequest listeners) := by
  intro b request rest x h
  unfold nextRequest at h ⊢
  split at h
  · rename_i hp
    cases h
    rw [parse_append x (by rw [hp]; exact nofun), hp]
    exact congrArg some (Prod.ext rfl (List.drop_append_of_le_length (framed hp).le))
  · cases h

/-- Something is at the head of the buffer that is no request to be answered. -/
def Halted (listeners : ℕ) (b : Text) : Prop :=
  parseLoopbackRequestBuffer listeners b ≠ .incomplete ∧ nextRequest listeners b = none

theorem Halted.append (h : Halted listeners b) (x : Text) : Halted listeners (b ++ x) := by
  unfold Halted nextRequest at *
  rw [parse_append x h.1]
  rcases hb : parseLoopbackRequestBuffer listeners b with _ | _ | ⟨n, close, r, _ | head⟩
  · exact absurd hb h.1
  · exact ⟨nofun, rfl⟩
  · simp [hb] at h
  · exact ⟨nofun, rfl⟩

theorem upgrade_takes_all {n : ℕ} {close : Bool} {request : ServerRequest} {head : Text}
    (h : parseLoopbackRequestBuffer listeners b = .request n close request (some head)) :
    b.drop n = [] := by
  unfold parseLoopbackRequestBuffer at h
  split at h
  · cases h
  · dsimp only at h
    split at h
    · split at h
      · cases h
        exact List.drop_length
      · split at h <;> cases h
    · cases h

/-- The requests that the server was given are the first ones of what was written.  What is left is
in the buffer, or begins with something else. -/
def Accounted (listeners : ℕ) (s : NetSocket) : Prop :=
  ∃ rest, Taken (nextRequest listeners) s.written s.dispatched rest ∧
    (s.halted = true ∧ Halted listeners rest ∨ s.halted = false ∧ rest = s.loopbackBuffer)

theorem Accounted.write (h : Accounted listeners s) (data : Text) :
    Accounted listeners
      { s with loopbackBuffer := s.loopbackBuffer ++ data, written := s.written ++ data } := by
  obtain ⟨rest, htaken, hrest⟩ := h
  refine ⟨rest ++ data, htaken.append stable_nextRequest data, ?_⟩
  rcases hrest with ⟨hh, hr⟩ | ⟨hh, rfl⟩
  · exact .inl ⟨hh, hr.append data⟩
  · exact .inr ⟨hh, rfl⟩

theorem Accounted.halt (h : Accounted listeners s) (hb : Halted listeners s.loopbackBuffer)
    (left : Text) :
    Accounted listeners { s with loopbackBuffer := left, loop := .ended, halted := true } := by
  obtain ⟨rest, htaken, ⟨-, hr⟩ | ⟨-, rfl⟩⟩ := h
  · exact ⟨rest, htaken, .inl ⟨rfl, hr⟩⟩
  · exact ⟨_, htaken, .inl ⟨rfl, hb⟩⟩

structure Sound (listeners : ℕ) (s : NetSocket) : Prop where
  accounted : Accounted listeners s
  looked : s.AtRest → parseLoopbackRequestBuffer listeners s.loopbackBuffer = .incomplete

theorem Accounted.process (h : Accounted listeners s) :
    Sound listeners (s.processLoopbackHttpRequests listeners) := by
  unfold processLoopbackHttpRequests
  split
  · rename_i hd
    exact ⟨h, fun hr => absurd (hd.symm.trans hr.2.2) nofun⟩
  · split
    · rename_i hp
      exact ⟨h, fun _ => hp⟩
    · rename_i hp
      exact ⟨h.halt ⟨by rw [hp]; exact nofun, by rw [nextRequest, hp]⟩ _, fun _ => rfl⟩
    · rename_i hp
      refine ⟨h.halt ⟨by rw [hp]; exact nofun, by rw [nextRequest, hp]⟩ _, fun _ => ?_⟩
      dsimp only
      rw [upgrade_takes_all hp]
      rfl
    · rename_i hp
      refine ⟨?_, fun hr => absurd rfl hr.1⟩
      obtain ⟨rest, htaken, ⟨hh, hr⟩ | ⟨hh, rfl⟩⟩ := h
      · exact ⟨rest, by simpa [hh] using htaken, .inl ⟨hh, hr⟩⟩
      · refine ⟨_, ?_, .inr ⟨hh, rfl⟩⟩
        simpa [hh] using htaken.snoc (by rw [nextRequest, hp])

/-- **A step keeps the requests**, and leaves none behind but where that counts as missed. -/
theorem Sound.step {e : SocketEvent} (h : Sound listeners s) (hs : s.step listeners e = some t) :
    Sound listeners t := by
  cases e with
  | write data =>
      simp only [NetSocket.step] at hs
      split at hs
      · cases hs
        exact h
      · have hw := h.accounted.write data
        split at hs
        all_goals rename_i hl; cases hs
        · exact hw.process
        · exact ⟨hw, fun hr => absurd hl hr.1⟩
        · exact ⟨hw, fun hr => absurd hr.2.1 nofun⟩
  | answer =>
      obtain ⟨-, hs⟩ := Option.ite_none_right_eq_some.mp hs
      cases hs
      exact h.accounted.process
  | throw =>
      obtain ⟨-, hs⟩ := Option.ite_none_right_eq_some.mp hs
      cases hs
      exact ⟨h.accounted, fun hr => absurd hr.2.1 nofun⟩
  | settle =>
      obtain ⟨hl, hs⟩ := Option.ite_none_right_eq_some.mp hs
      cases hs
      exact ⟨h.accounted, fun hr => h.looked ⟨by rw [hl]; exact nofun, hr.2⟩⟩
  | destroy =>
      cases hs
      exact ⟨h.accounted, fun hr => absurd hr.2.2 nofun⟩

theorem sound_of_reach (r : Reach (step listeners) Any init s) : Sound listeners s :=
  r.invariant ⟨⟨[], .done _, .inr ⟨rfl, rfl⟩⟩, fun _ => rfl⟩ fun _ _ _ h _ => h.step

/-- **Requests do not depend on how their bytes are cut.**  What a socket has given to the server is
the beginning of what any socket at rest has given to which the same bytes, and maybe more, were
written; and the buffer of a socket at rest holds no complete request. -/
theorem requests_anyhow_cut (hs : Reach (step listeners) Any init s)
    (ht : Reach (step listeners) Any init t) (hw : s.written <+: t.written) (hr : t.AtRest) :
    s.dispatched <+: t.dispatched ∧
      parseLoopbackRequestBuffer listeners t.loopbackBuffer = .incomplete := by
  obtain ⟨⟨rest, htaken, -⟩, -⟩ := sound_of_reach hs
  obtain ⟨⟨rest', htaken', hrest'⟩, hl⟩ := sound_of_reach ht
  have hnone : nextRequest listeners rest' = none := by
    rcases hrest' with ⟨-, hh⟩ | ⟨-, rfl⟩
    · exact hh.2
    · rw [nextRequest, hl hr]
  obtain ⟨x, hx⟩ := hw
  have hmore := htaken.append stable_nextRequest x
  rw [hx] at hmore
  exact ⟨hmore.isPrefix htaken' hnone, hl hr⟩

/-- A request written at once, and one in two writes of one turn: the second write is missed by the
loop that the first one has run, and the request stays in the buffer. -/
theorem requests_anyhow_cut_missed : ∃ s t : NetSocket, s.written = t.written ∧ s.loop = .idle ∧
    (nextRequest 0 s.loopbackBuffer).isSome ∧ s.dispatched.length = 0 ∧ t.dispatched.length = 1 ∧
    s.dispatched <+: t.dispatched := by
  obtain ⟨s, hs, hsw, hl, hn, h₀⟩ := Reach.exists_of_exec (step 0) init
    [.write (text "GET / HTTP/1.1\r\n"), .write crlf, .settle]
    (P := fun s => s.written = text "GET / HTTP/1.1\r\n\r\n" ∧ s.loop = .idle ∧
      (nextRequest 0 s.loopbackBuffer).isSome ∧ s.dispatched.length = 0) (by decide)
  obtain ⟨t, ht, htw, hr, h₁⟩ := Reach.exists_of_exec (step 0) init
    [.write (text "GET / HTTP/1.1\r\n\r\n"), .answer]
    (P := fun t => t.written = text "GET / HTTP/1.1\r\n\r\n" ∧ (t.loop ≠ .waiting ∧
      t.missed = false ∧ t.destroyed = false) ∧ t.dispatched.length = 1) (by decide)
  have hw := hsw.trans htw.symm
  exact ⟨s, t, hw, hl, hn, h₀, h₁, (requests_anyhow_cut hs ht ⟨[], by rw [hw, List.append_nil]⟩ hr).1⟩

end Http
