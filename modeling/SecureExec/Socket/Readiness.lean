import SecureExec.Socket.Receive

/-!
# Socket — Readiness — what `poll` says and what `recv` and `accept` do

`poll` calls a stream socket readable from its read buffer, its backlog and its own state.  `recv`
also sees the end of the stream in the peer: a peer that is gone, or has shut down its write side,
ends the stream of a socket that is still connected, and `poll` does not look there.

* `poll_agrees_iff`: what `poll` says is what `accept` or `recv` would do without waiting, exactly
  when the stream of a connected socket with nothing in its buffer has not ended, and a socket that
  is not connected has nothing in its buffer.
-/

namespace SecureExec.Socket
open SecureExec Kernel

structure SocketPoll where
  readable : Bool
  writable : Bool
  hangup : Bool
  deriving DecidableEq

namespace SocketTable

variable {t : SocketTable} {socketId : Nat}

/-! ### `poll` -/

def pollOf (s : KernelSocket) : SocketPoll :=
  let closed := s.state == .closed
  let readClosed := s.state == .readClosed
  let writeClosed := s.state == .writeClosed
  let pendingAccept := s.state == .listening && !s.backlog.isEmpty
  -- UDP: readable when datagramQueue has data
  let readable :=
    if s.type = SOCK_DGRAM then !s.datagramQueue.isEmpty || closed
    else !s.readBuffer.isEmpty || pendingAccept || closed || readClosed
  let writable :=
    s.state == .connected || s.state == .created || s.state == .readClosed ||
      (s.type == SOCK_DGRAM && s.state == .bound)
  ⟨readable, writable, closed || readClosed || writeClosed⟩

/-- Poll a socket for readability, writability, and hangup. -/
def poll (socketId : Nat) : Sock SocketPoll := pollOf <$> requireSocket socketId

theorem poll_live (hlive : t.has socketId = true) :
    (poll socketId).exec t = (.ok (pollOf (t.objs socketId)), t) := by
  rw [poll, map_eq_pure_bind, Prog.exec_bind, requireSocket_live hlive]
  rfl

theorem pollOf_readable {s : KernelSocket} (hs : s.type ≠ SOCK_DGRAM) :
    (pollOf s).readable = true ↔
      s.readBuffer ≠ [] ∨ s.state = .listening ∧ s.backlog ≠ [] ∨
        s.state = .readClosed ∨ s.state = .closed := by
  show (if s.type = SOCK_DGRAM then _ else _) = true ↔ _
  rw [if_neg hs]
  simp only [Bool.or_eq_true, Bool.and_eq_true, Bool.not_eq_true', List.isEmpty_eq_false_iff,
    beq_iff_eq, or_assoc]
  rw [or_comm (a := s.state = .closed)]

/-! ### `accept` -/

theorem shiftBacklog_exec (t : SocketTable) (socketId : Nat) : (shiftBacklog socketId).exec t =
    match (t.objs socketId).backlog with
    | [] => (.ok none, t)
    | c :: rest => (.ok (some c), t.modify socketId ({ · with backlog := rest })) := by
  rw [shiftBacklog, Prog.exec_bind, Prog.exec_read]
  dsimp only
  cases (t.objs socketId).backlog <;> rfl

/-- When `accept` returns a connection without waiting. -/
theorem accept_some_iff (hlive : t.has socketId = true) :
    (∃ c t', (accept socketId true).exec t = (.ok (.done (some c)), t')) ↔
      (t.objs socketId).state = .listening ∧ (t.objs socketId).backlog ≠ [] := by
  rw [accept, Prog.exec_bind, requireSocket_live hlive]
  dsimp only
  by_cases hs : (t.objs socketId).state = .listening
  case neg =>
    rw [if_pos hs]
    exact iff_of_false (fun ⟨_, _, h⟩ => by cases h) fun h => hs h.1
  rw [if_neg (not_not.mpr hs), and_iff_right hs]
  cases hb : (t.objs socketId).backlog with
  | nil =>
      refine iff_of_false ?_ fun h => h rfl
      rintro ⟨c, t', h⟩
      split at h
      · cases h
      · rw [if_pos rfl, acceptBlocking, Prog.exec_bind, shiftBacklog_exec, hb] at h
        cases h
  | cons c rest =>
      refine iff_of_true ?_ (List.cons_ne_nil c rest)
      refine ⟨c, t.modify socketId ({ · with backlog := rest }), ?_⟩
      rw [if_neg (by simp), if_pos rfl, acceptBlocking, Prog.exec_bind, shiftBacklog_exec, hb]
      rfl

/-! ### The two compared -/

/-- `accept` returns a connection, or `recv` data or the end of the stream, without waiting. -/
def Ready (t : SocketTable) (socketId maxBytes : Nat) (flags : Flags) : Prop :=
  (∃ c t', (accept socketId true).exec t = (.ok (.done (some c)), t')) ∨
    ∃ r t', (recv socketId maxBytes flags true).exec t = (.ok (.done r), t')

/-- What `poll` says is so. -/
def PollAgrees (t : SocketTable) (socketId maxBytes : Nat) (flags : Flags) : Prop :=
  ∃ r, (poll socketId).exec t = (.ok r, t) ∧
    (r.readable = true ↔ t.Ready socketId maxBytes flags)

/-- The read buffer shows whether there is something to receive: it is not empty at the end of a
stream that is read from, and empty where nothing is. -/
structure Telling (t : SocketTable) (socketId : Nat) : Prop where
  going : t.readOpen socketId → (t.objs socketId).readBuffer = [] → t.eof socketId = false
  idle : ¬ t.readOpen socketId → ¬ t.readShut socketId → (t.objs socketId).readBuffer ≠ [] →
    (t.objs socketId).state = .listening ∧ (t.objs socketId).backlog ≠ []

/-- **Poll agrees** with `recv` and `accept` exactly when the read buffer is telling. -/
theorem poll_agrees_iff (hlive : t.has socketId = true) (hs : (t.objs socketId).type ≠ SOCK_DGRAM)
    (maxBytes : Nat) (flags : Flags) :
    t.PollAgrees socketId maxBytes flags ↔ t.Telling socketId := by
  have hpoll : t.PollAgrees socketId maxBytes flags ↔
      ((pollOf (t.objs socketId)).readable = true ↔ t.Ready socketId maxBytes flags) := by
    rw [PollAgrees, poll_live hlive]
    exact ⟨fun ⟨r, he, h⟩ => by cases he; exact h, fun h => ⟨_, rfl, h⟩⟩
  rw [hpoll, pollOf_readable hs, Ready, accept_some_iff hlive, recv_done_iff maxBytes flags hlive]
  have hopen : t.readOpen socketId → (t.objs socketId).state ≠ .listening := by
    rintro (h | h) hl <;> exact SocketState.noConfusion (h.symm.trans hl)
  constructor
  · refine fun h => ⟨fun ho hb => ?_, fun ho hn hb => ?_⟩
    · refine Bool.eq_false_iff.mpr fun he => ?_
      rcases h.mpr (.inr (.inr ⟨ho, .inr he⟩)) with hb' | ⟨hl, -⟩ | hn
      · exact hb' hb
      · exact hopen ho hl
      · exact ho.not_shut hn
    · exact (h.mp (.inl hb)).resolve_right fun h' => h'.elim hn fun h'' => ho h''.1
  · intro h
    constructor
    · rintro (hb | hl | hn)
      · by_cases ho : t.readOpen socketId
        · exact .inr (.inr ⟨ho, .inl hb⟩)
        · by_cases hn : t.readShut socketId
          · exact .inr (.inl hn)
          · exact .inl (h.idle ho hn hb)
      · exact .inl hl
      · exact .inr (.inl hn)
    · rintro (hl | hn | ⟨ho, hb | he⟩)
      · exact .inr (.inl hl)
      · exact .inr (.inr hn)
      · exact .inl hb
      · refine .inl fun hb => ?_
        rw [h.going ho hb] at he
        cases he

end SocketTable

/-! ### A pair -/

namespace SocketSys

open SocketTable

/-- A pair of sockets, one of which has sent a byte. -/
def pairSent : SocketSys :=
  (Lts.exec step (new 8 false false)
    [.call (.socketpair 1 SOCK_STREAM 0 7 true), .call (.send 1 [5] 0 none)]).getD (new 8 false false)

theorem poll_agrees_pair : pairSent.table.PollAgrees 2 16 0 :=
  (poll_agrees_iff (by decide +kernel) (by decide +kernel) 16 0).mpr
    ⟨fun _ hb => absurd hb (by decide +kernel), fun ho => absurd (show _ ∨ _ by decide +kernel) ho⟩

/-- The peer is closed: `recv` returns the end of the stream at once, and `poll` says that there is
nothing to read. -/
theorem poll_agrees_fails :
    ¬ ∀ (maxSockets : Nat) (vfs hostAdapter : Bool) (s : SocketSys) (socketId maxBytes : Nat)
      (flags : Flags), Lts.Reach step Lts.Any (new maxSockets vfs hostAdapter) s →
      s.table.has socketId = true → (s.table.objs socketId).type = SOCK_STREAM →
      (s.table.objs socketId).external = false → s.table.PollAgrees socketId maxBytes flags := by
  intro hall
  obtain ⟨s, hs, hlive, htype, hext, hstate, hbuf, heof⟩ :=
    Lts.Reach.exists_of_exec step (new 8 false false)
      [.call (.socketpair 1 SOCK_STREAM 0 7 true), .call (.close 1 7)] (P := fun s =>
        s.table.has 2 = true ∧ (s.table.objs 2).type = SOCK_STREAM ∧
        (s.table.objs 2).external = false ∧ (s.table.objs 2).state = .connected ∧
        (s.table.objs 2).readBuffer = [] ∧ s.table.eof 2 = true) (by decide +kernel)
  obtain ⟨r, hr, hiff⟩ := hall 8 false false s 2 16 0 hs hlive htype hext
  rw [poll_live hlive] at hr
  cases hr
  have hreadable := hiff.mpr (.inr ⟨none, s.table, recv_eof 16 0 hlive (.inl hstate) hbuf heof⟩)
  rw [pollOf_readable (by rw [htype]; decide), hstate, hbuf] at hreadable
  rcases hreadable with h | ⟨h, -⟩ | h | h
  · exact h rfl
  all_goals cases h

end SocketSys

end SecureExec.Socket
