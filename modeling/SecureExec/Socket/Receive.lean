import SecureExec.Socket.Stream

/-!
# Socket — Receive — what a blocking receive comes to

A blocking `recv` of a socket is decided by the state of the socket, its read buffer and whether
`recv` sees the end of the stream (`eof`).  There is a lemma for each case; `recv_done_iff`
puts them together.  `accept` is decided by the state and the backlog.
-/

namespace SecureExec.Socket
open SecureExec Kernel Prog

namespace SocketTable

variable {t : SocketTable} {socketId : Nat} (maxBytes : Nat) (flags : Flags)

/-- What `recv` takes for the end of the stream: no peer, or one that is gone or has shut down its
write side. -/
def eof (t : SocketTable) (socketId : Nat) : Bool :=
  (t.objs socketId).peerId.all (!t.has ·) || (t.objs socketId).peerWriteClosed

/-- Nothing is read from the socket any more. -/
abbrev readShut (t : SocketTable) (socketId : Nat) : Prop :=
  (t.objs socketId).state = .readClosed ∨ (t.objs socketId).state = .closed

/-- The socket may be read from. -/
abbrev readOpen (t : SocketTable) (socketId : Nat) : Prop :=
  (t.objs socketId).state = .connected ∨ (t.objs socketId).state = .writeClosed

theorem readOpen.not_shut (h : t.readOpen socketId) : ¬ t.readShut socketId := by
  rintro (hs | hs) <;> rcases h with h | h <;> exact SocketState.noConfusion (h.symm.trans hs)

section

variable (hlive : t.has socketId = true)
include hlive

theorem requireSocket_live :
    (requireSocket socketId).exec t = (.ok (t.objs socketId), t) := by
  rw [requireSocket_exec, if_pos hlive]

/-! ### One look at the buffer -/

theorem recvNow_shut (h : t.readShut socketId) :
    (recvNow socketId maxBytes flags).exec t = (.ok none, t) := by
  rw [recvNow, exec_bind, requireSocket_live hlive]
  dsimp only
  rw [if_pos h, exec_pure]

theorem recvNow_idle (hs : ¬ t.readShut socketId) (ho : ¬ t.readOpen socketId) :
    (recvNow socketId maxBytes flags).exec t =
      (.error (.kernelError .ENOTCONN "socket is not connected"), t) := by
  rw [recvNow, exec_bind, requireSocket_live hlive]
  dsimp only
  rw [if_neg hs, if_pos (not_or.mp ho), exec_throw]

theorem recvNow_data (h : t.readOpen socketId)
    (hb : (t.objs socketId).readBuffer ≠ []) : ∃ t', (recvNow socketId maxBytes flags).exec t =
      (.ok (some (t.front socketId maxBytes)), t') := by
  rw [recvNow, exec_bind, requireSocket_live hlive]
  dsimp only
  rw [if_neg h.not_shut, if_neg (fun hn => hn.2 (h.resolve_left hn.1)), if_pos hb]
  split
  · exact ⟨t, by rw [exec_pure, peekFromBuffer_eq]⟩
  · exact ⟨t.drained socketId maxBytes, rfl⟩

theorem recvNow_empty (h : t.readOpen socketId)
    (hb : (t.objs socketId).readBuffer = []) : (recvNow socketId maxBytes flags).exec t =
      (if t.eof socketId then .ok none
        else if (t.objs socketId).nonBlocking then
          .error (.kernelError .EAGAIN "no data available on non-blocking socket")
        else if flags.has MSG_DONTWAIT then
          .error (.kernelError .EAGAIN "no data available (MSG_DONTWAIT)")
        else .ok none, t) := by
  rw [recvNow, exec_bind, requireSocket_live hlive]
  dsimp only
  rw [if_neg h.not_shut, if_neg (fun hn => hn.2 (h.resolve_left hn.1)), if_neg (not_not.mpr hb),
    exec_bind, exec_read]
  show exec (if t.eof socketId = true then _ else _) t = _
  split
  · rfl
  · split
    · rfl
    · split <;> rfl

end

/-! ### The call -/

/-- `recv` looks once, and goes to its loop when there is something to wait for. -/
theorem recv_exec : (recv socketId maxBytes flags true).exec t =
    match (recvNow socketId maxBytes flags).exec t with
    | (.ok r, t') =>
      if t.mayBlock socketId then (recvBlocking socketId maxBytes flags).exec t' else (.ok (.done r), t')
    | (.error e, t') => (.error e, t') := by
  rw [recv, exec_bind, exec_read]
  dsimp only [id]
  rw [exec_bind]
  rcases (recvNow socketId maxBytes flags).exec t with ⟨e | r, t'⟩
  · rfl
  · dsimp only
    rw [Bool.true_and]
    split <;> rfl

theorem mayBlock_iff : t.mayBlock socketId = true ↔
    t.readOpen socketId ∧ (t.objs socketId).readBuffer = [] ∧ t.eof socketId = false := by
  rw [mayBlock]
  simp only [Bool.and_eq_true, Bool.or_eq_true, beq_iff_eq, List.isEmpty_iff, Bool.not_eq_true',
    readOpen, eof, and_assoc]

section

variable (hlive : t.has socketId = true)
include hlive

theorem recv_shut (h : t.readShut socketId) :
    (recv socketId maxBytes flags true).exec t = (.ok (.done none), t) := by
  rw [recv_exec, recvNow_shut maxBytes flags hlive h]
  dsimp only
  rw [if_neg fun hm => (mayBlock_iff.mp hm).1.not_shut h]

theorem recv_idle (hs : ¬ t.readShut socketId)
    (ho : ¬ t.readOpen socketId) : ∃ e, (recv socketId maxBytes flags true).exec t = (.error e, t) :=
  ⟨_, by rw [recv_exec, recvNow_idle maxBytes flags hlive hs ho]⟩

theorem recv_data (h : t.readOpen socketId)
    (hb : (t.objs socketId).readBuffer ≠ []) : ∃ t', (recv socketId maxBytes flags true).exec t =
      (.ok (.done (some (t.front socketId maxBytes))), t') := by
  obtain ⟨t', hr⟩ := recvNow_data maxBytes flags hlive h hb
  refine ⟨t', ?_⟩
  rw [recv_exec, hr]
  dsimp only
  rw [if_neg fun hm => hb (mayBlock_iff.mp hm).2.1]

theorem recv_eof (h : t.readOpen socketId)
    (hb : (t.objs socketId).readBuffer = []) (he : t.eof socketId = true) :
    (recv socketId maxBytes flags true).exec t = (.ok (.done none), t) := by
  rw [recv_exec, recvNow_empty maxBytes flags hlive h hb, if_pos he]
  dsimp only
  rw [if_neg fun hm => Bool.noConfusion (he.symm.trans (mayBlock_iff.mp hm).2.2)]

end

/-- With a peer that may still send, the loop does not end. -/
theorem canBlock_of_not_eof (h : t.readOpen socketId) (hb : (t.objs socketId).readBuffer = [])
    (he : t.eof socketId = false) : t.canBlockForRecv socketId = true := by
  obtain ⟨hpeer, hw⟩ := Bool.or_eq_false_iff.mp he
  rw [canBlockForRecv, if_neg h.not_shut, if_neg (not_not.mpr hb)]
  split
  · rw [hw, Bool.not_false]
  · cases hp : (t.objs socketId).peerId with
    | none =>
        rw [hp] at hpeer
        cases hpeer
    | some p =>
        rw [hp] at hpeer
        simpa [hw] using hpeer

/-- Nothing has come, and something may still come: the call waits, or refuses to. -/
theorem recv_dry (hlive : t.has socketId = true) (h : t.readOpen socketId)
    (hb : (t.objs socketId).readBuffer = []) (he : t.eof socketId = false) :
    (∃ e, (recv socketId maxBytes flags true).exec t = (.error e, t)) ∨
      ∃ c t', (recv socketId maxBytes flags true).exec t = (.ok (.waits c), t') := by
  have hnow := recvNow_empty maxBytes flags hlive h hb
  rw [he, if_neg Bool.false_ne_true] at hnow
  rw [recv_exec]
  by_cases hn : (t.objs socketId).nonBlocking = true
  · rw [if_pos hn] at hnow
    rw [hnow]
    exact .inl ⟨_, rfl⟩
  by_cases hd : flags.has MSG_DONTWAIT = true
  · rw [if_neg hn, if_pos hd] at hnow
    rw [hnow]
    exact .inl ⟨_, rfl⟩
  · rw [if_neg hn, if_neg hd] at hnow
    rw [hnow]
    dsimp only
    rw [if_pos (mayBlock_iff.mpr ⟨h, hb, he⟩), recvBlocking, exec_bind, hnow]
    dsimp only
    rw [exec_bind, exec_read]
    dsimp only [id]
    rw [if_pos (canBlock_of_not_eof h hb he)]
    exact .inr ⟨_, _, rfl⟩

/-- **When a blocking receive returns without waiting.** -/
theorem recv_done_iff (hlive : t.has socketId = true) :
    (∃ r t', (recv socketId maxBytes flags true).exec t = (.ok (.done r), t')) ↔
      t.readShut socketId ∨
        t.readOpen socketId ∧ ((t.objs socketId).readBuffer ≠ [] ∨ t.eof socketId = true) := by
  by_cases hs : t.readShut socketId
  · exact iff_of_true ⟨_, _, recv_shut maxBytes flags hlive hs⟩ (.inl hs)
  rw [or_iff_right hs]
  by_cases ho : t.readOpen socketId
  · rw [and_iff_right ho]
    by_cases hb : (t.objs socketId).readBuffer = []
    · cases he : t.eof socketId with
      | true => exact iff_of_true ⟨_, _, recv_eof maxBytes flags hlive ho hb he⟩ (.inr rfl)
      | false =>
          refine iff_of_false ?_ fun hn => hn.elim (fun h => h hb) Bool.noConfusion
          rintro ⟨r, t', hr⟩
          rcases recv_dry maxBytes flags hlive ho hb he with
            ⟨e, hd⟩ | ⟨c, t₁, hd⟩ <;> rw [hd] at hr <;> cases hr
    · obtain ⟨t', hr⟩ := recv_data maxBytes flags hlive ho hb
      exact iff_of_true ⟨_, t', hr⟩ (.inl hb)
  · refine iff_of_false ?_ fun h => ho h.1
    rintro ⟨r, t', hr⟩
    obtain ⟨e, hd⟩ := recv_idle maxBytes flags hlive hs ho
    rw [hd] at hr
    cases hr

end SocketTable

end SecureExec.Socket
