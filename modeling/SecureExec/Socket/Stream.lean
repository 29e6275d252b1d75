import SecureExec.Socket.Run

/-!
# Socket — Stream — what one socket of a pair sends, the other receives

`peekFromBuffer` and `consumeFromBuffer` are two loops over the chunks of a read buffer; they cut
them alike (`peekChunks_eq`), and what the second takes and leaves is what was there
(`consumeChunks_append`).  A `recv` finds data or none, and the flags only say what it does then
(`RecvShape`).

A `StreamRun` is the table with what two linked sockets sent and consumed so far.
-/

namespace SecureExec.Socket
open SecureExec Kernel SocketTable Prog Function

namespace SocketTable

/-! ### The two loops -/

theorem peekChunks_full (maxBytes : Nat) (l : List ByteArray8) :
    peekChunks maxBytes maxBytes l = [] := by
  cases l with
  | nil => rfl
  | cons chunk rest => rw [peekChunks, if_pos (Nat.le_refl maxBytes)]

theorem peekChunks_eq (maxBytes : Nat) : ∀ (totalLen : Nat) (l : List ByteArray8),
    peekChunks maxBytes totalLen l = (consumeChunks maxBytes totalLen l).1
  | _, [] => rfl
  | totalLen, chunk :: rest => by
      rw [peekChunks, consumeChunks]
      by_cases h : maxBytes ≤ totalLen
      · rw [if_pos h, if_neg (Nat.not_lt.mpr h)]
      · rw [if_neg h, if_pos (Nat.not_le.mp h)]
        dsimp only
        split
        · rw [peekChunks_eq maxBytes _ rest]
        · -- the cut chunk fills the result up
          rw [Nat.add_sub_cancel' (Nat.le_of_not_le h), peekChunks_full]

theorem consumeChunks_append (maxBytes : Nat) : ∀ (totalLen : Nat) (l : List ByteArray8),
    (consumeChunks maxBytes totalLen l).1.flatten ++ (consumeChunks maxBytes totalLen l).2.flatten =
      l.flatten
  | _, [] => rfl
  | totalLen, chunk :: rest => by
      rw [consumeChunks]
      split
      · dsimp only
        split
        · rw [List.flatten_cons, List.append_assoc, consumeChunks_append maxBytes _ rest,
            List.flatten_cons]
        · rw [List.flatten_singleton, List.flatten_cons, ← List.append_assoc,
            List.take_append_drop, List.flatten_cons]
      · rfl

theorem length_consumeChunks (maxBytes : Nat) : ∀ (totalLen : Nat) (l : List ByteArray8),
    (consumeChunks maxBytes totalLen l).1.flatten.length ≤ maxBytes - totalLen
  | _, [] => Nat.zero_le _
  | totalLen, chunk :: rest => by
      rw [consumeChunks]
      split
      · dsimp only
        split
        · rename_i hfit
          have ih := length_consumeChunks maxBytes (totalLen + chunk.length) rest
          rw [List.flatten_cons, List.length_append]
          omega
        · rw [List.flatten_singleton, List.length_take]
          exact Nat.min_le_left _ _
      · exact Nat.zero_le _

/-- The bytes at the front of a read buffer, at most `maxBytes` of them. -/
def front (t : SocketTable) (socketId maxBytes : Nat) : ByteArray8 :=
  (consumeChunks maxBytes 0 (t.objs socketId).readBuffer).1.flatten

/-- They are taken. -/
def drained (t : SocketTable) (socketId maxBytes : Nat) : SocketTable :=
  t.modify socketId fun s => { s with readBuffer := (consumeChunks maxBytes 0 s.readBuffer).2 }

section

variable (t : SocketTable)
include t

/-- What is no part of the read buffers stays. -/
theorem drained_field {β : Type} (socketId maxBytes i : Nat)
    (f : KernelSocket → β) (hf : ∀ s b, f { s with readBuffer := b } = f s) :
    f ((t.drained socketId maxBytes).objs i) = f (t.objs i) :=
  modify_field t socketId i f
    (g := fun s => { s with readBuffer := (consumeChunks maxBytes 0 s.readBuffer).2 }) (hf _ _)

variable (socketId maxBytes : Nat)

theorem length_front :
    (t.front socketId maxBytes).length ≤ maxBytes :=
  length_consumeChunks maxBytes 0 _

theorem front_append_drained :
    t.front socketId maxBytes ++ ((t.drained socketId maxBytes).objs socketId).readBuffer.flatten =
      (t.objs socketId).readBuffer.flatten := by
  rw [drained, modify_objs_self]
  exact consumeChunks_append maxBytes 0 _

theorem peekFromBuffer_eq :
    peekFromBuffer (t.objs socketId) maxBytes = t.front socketId maxBytes := by
  rw [peekFromBuffer, peekChunks_eq, front]

end

/-! ### What a `recv` comes to -/

/-- What a `recv` that finds no data does. -/
inductive Dry where
  | throws (e : Failure)
  | null
  | waits

/-- The outcome, at the table `t`. -/
def Dry.result (t : SocketTable) (socketId maxBytes : Nat) (flags : Flags) :
    Dry → Except Failure (Turn (Option ByteArray8)) × SocketTable
  | .throws e => (.error e, t)
  | .null => (.ok (.done none), t)
  | .waits => (.ok (.waits (.recv socketId maxBytes flags t.waits.next)), t.enqueueReader socketId)

/-- A `recv` with any flags, at `t`: it finds no data, and what it does is up to MSG_DONTWAIT, or
it returns the front of the read buffer, and takes it unless it peeks. -/
inductive RecvShape (call : Flags → Sock (Turn (Option ByteArray8))) (socketId maxBytes : Nat)
    (t t₁ : SocketTable) : Prop where
  | dry (r : Bool → Dry)
      (h : ∀ flags, (call flags).exec t =
        (r (flags.has MSG_DONTWAIT)).result t₁ socketId maxBytes flags)
  | data
      (h : ∀ flags, (call flags).exec t = (.ok (.done (some (t₁.front socketId maxBytes))),
        if flags.has MSG_PEEK then t₁ else t₁.drained socketId maxBytes))

theorem requireSocket_exec (t : SocketTable) (socketId : Nat) :
    (requireSocket socketId).exec t =
      (if t.has socketId then .ok (t.objs socketId)
      else .error (.kernelError .EBADF ("socket " ++ toString socketId ++ " not found")), t) := by
  unfold requireSocket
  rw [exec_bind, exec_read, get]
  cases h : t.has socketId <;> simp

/-- `recvNow` finds no data, or returns the front of the buffer. -/
theorem recvNow_cases (t : SocketTable) (socketId maxBytes : Nat) :
    (∃ r : Bool → Option Failure, ∀ flags, (recvNow socketId maxBytes flags).exec t =
      (match r (flags.has MSG_DONTWAIT) with
        | some e => .error e
        | none => .ok none, t)) ∨
    (t.objs socketId).readBuffer ≠ [] ∧
      ∀ flags, (recvNow socketId maxBytes flags).exec t =
        (.ok (some (t.front socketId maxBytes)),
          if flags.has MSG_PEEK then t else t.drained socketId maxBytes) := by
  by_cases hlive : t.has socketId = true
  case neg =>
    exact .inl ⟨fun _ => some _, fun flags => by
      rw [recvNow, exec_bind, requireSocket_exec, if_neg hlive]⟩
  by_cases hclosed : (t.objs socketId).state = .readClosed ∨ (t.objs socketId).state = .closed
  case pos =>
    exact .inl ⟨fun _ => none, fun flags => by
      rw [recvNow, exec_bind, requireSocket_exec, if_pos hlive]
      simp [hclosed]⟩
  by_cases hconn : (t.objs socketId).state ≠ .connected ∧ (t.objs socketId).state ≠ .writeClosed
  case pos =>
    exact .inl ⟨fun _ => some _, fun flags => by
      rw [recvNow, exec_bind, requireSocket_exec, if_pos hlive]
      dsimp only
      rw [if_neg hclosed, if_pos hconn, exec_throw]⟩
  by_cases hbuf : (t.objs socketId).readBuffer ≠ []
  case pos =>
    refine .inr ⟨hbuf, fun flags => ?_⟩
    rw [recvNow, exec_bind, requireSocket_exec, if_pos hlive]
    dsimp only
    rw [if_neg hclosed, if_neg hconn, if_pos hbuf]
    split
    · rw [exec_pure, peekFromBuffer_eq]
    · rfl
  -- nothing is buffered: end of file, a socket that does not block, or a wait
  by_cases heof : ((t.objs socketId).peerId.all (!t.has ·) || (t.objs socketId).peerWriteClosed) = true
  case pos =>
    exact .inl ⟨fun _ => none, fun flags => by
      rw [recvNow, exec_bind, requireSocket_exec, if_pos hlive]
      dsimp only
      rw [if_neg hclosed, if_neg hconn, if_neg hbuf, exec_bind, exec_read]
      dsimp only [id]
      rw [if_pos heof, exec_pure]⟩
  refine .inl ⟨fun dontWait =>
    if (t.objs socketId).nonBlocking then
      some (.kernelError .EAGAIN "no data available on non-blocking socket")
    else if dontWait then some (.kernelError .EAGAIN "no data available (MSG_DONTWAIT)")
    else none, fun flags => ?_⟩
  rw [recvNow, exec_bind, requireSocket_exec, if_pos hlive]
  dsimp only
  rw [if_neg hclosed, if_neg hconn, if_neg hbuf, exec_bind, exec_read]
  dsimp only [id]
  rw [if_neg heof]
  cases (t.objs socketId).nonBlocking <;> cases flags.has MSG_DONTWAIT <;> rfl

/-- Without data, the loop throws, ends or waits. -/
theorem recvBlocking_dry {t : SocketTable} {socketId maxBytes : Nat} {r : Bool → Option Failure}
    (hr : ∀ flags, (recvNow socketId maxBytes flags).exec t =
      (match r (flags.has MSG_DONTWAIT) with
        | some e => .error e
        | none => .ok none, t)) :
    ∃ r' : Bool → Dry, ∀ flags, (recvBlocking socketId maxBytes flags).exec t =
      (r' (flags.has MSG_DONTWAIT)).result t socketId maxBytes flags := by
  refine ⟨fun dontWait =>
    match r dontWait with
    | some e => .throws e
    | none => if t.canBlockForRecv socketId then .waits else .null, fun flags => ?_⟩
  rw [recvBlocking, exec_bind, hr]
  dsimp only
  cases r (flags.has MSG_DONTWAIT) with
  | some e => rfl
  | none =>
      dsimp only
      rw [exec_bind, exec_read]
      dsimp only [id]
      split
      · rfl
      · rfl

theorem recvBlocking_shape (t : SocketTable) (socketId maxBytes : Nat) :
    RecvShape (recvBlocking socketId maxBytes) socketId maxBytes t t := by
  rcases recvNow_cases t socketId maxBytes with ⟨r, hr⟩ | ⟨-, hdata⟩
  · obtain ⟨r', hr'⟩ := recvBlocking_dry hr
    exact .dry r' hr'
  · refine .data fun flags => ?_
    rw [recvBlocking, exec_bind, hdata]
    rfl

theorem recv_shape (t : SocketTable) (socketId maxBytes : Nat) (block : Bool) :
    RecvShape (fun flags => recv socketId maxBytes flags block) socketId maxBytes t t := by
  have hexec : ∀ flags, (recv socketId maxBytes flags block).exec t =
      (recvNow socketId maxBytes flags >>= fun result =>
        if block && t.mayBlock socketId then recvBlocking socketId maxBytes flags
        else pure (.done result)).exec t := by
    intro flags
    rw [recv, exec_bind, exec_read]
    rfl
  rcases recvNow_cases t socketId maxBytes with ⟨r, hr⟩ | ⟨hbuf, hdata⟩
  · by_cases hblock : (block && t.mayBlock socketId) = true
    · -- the loop finds what the call has found
      obtain ⟨r', hr'⟩ := recvBlocking_dry hr
      refine .dry (fun dontWait =>
        match r dontWait with
        | some e => .throws e
        | none => r' dontWait) fun flags => ?_
      rw [hexec, exec_bind, hr]
      cases r (flags.has MSG_DONTWAIT) with
      | some e => rfl
      | none =>
          dsimp only
          rw [if_pos hblock, hr']
    · refine .dry (fun dontWait =>
        match r dontWait with
        | some e => .throws e
        | none => .null) fun flags => ?_
      rw [hexec, exec_bind, hr]
      cases r (flags.has MSG_DONTWAIT) with
      | some e => rfl
      | none =>
          dsimp only
          rw [if_neg hblock]
          rfl
  · have hno : (block && t.mayBlock socketId) = false := by
      simp [mayBlock, hbuf]
    refine .data fun flags => ?_
    rw [hexec, exec_bind, hdata]
    simp [hno]

/-- A `recv` that was woken is one behind the end of its wait. -/
theorem recvWoken_shape (t : SocketTable) (socketId maxBytes handle : Nat) :
    RecvShape (fun flags => recvWoken socketId maxBytes flags handle) socketId maxBytes t
      (t.dropReader socketId handle) := by
  have hexec : ∀ flags, (recvWoken socketId maxBytes flags handle).exec t =
      (recvBlocking socketId maxBytes flags).exec (t.dropReader socketId handle) := by
    intro flags
    rw [recvWoken, exec_bind, exec_update]
  rcases recvBlocking_shape (t.dropReader socketId handle) socketId maxBytes with ⟨r, hr⟩ | hdata
  · exact .dry r fun flags => (hexec flags).trans (hr flags)
  · exact .data fun flags => (hexec flags).trans (hdata flags)

/-! ### What holds of every `recv` -/

/-- What a call has returned or thrown; `none` while it waits. -/
def answer (call : Sock (Turn (Option ByteArray8))) (t : SocketTable) :
    Option (Except Failure (Option ByteArray8)) :=
  match (call.exec t).1 with
  | .ok (.done v) => some (.ok v)
  | .ok _ => none
  | .error e => some (.error e)

/-- A `recv` call at `t`, where `t₁` is the table behind the end of its wait, if it has waited. -/
structure RecvOk (call : Flags → Sock (Turn (Option ByteArray8))) (socketId maxBytes : Nat)
    (t t₁ : SocketTable) : Prop where
  bounded : ∀ flags data, answer (call flags) t = some (.ok (some data)) → data.length ≤ maxBytes
  /-- Peeking returns, or throws, what the same call without MSG_PEEK does, or waits as it does. -/
  peek : ∀ flags flags', flags.has MSG_PEEK = true → flags'.has MSG_PEEK = false →
    flags.has MSG_DONTWAIT = flags'.has MSG_DONTWAIT →
    answer (call flags) t = answer (call flags') t
  /-- It leaves the table as it is, apart from the handle of a wait. -/
  quiet : ∀ flags, flags.has MSG_PEEK = true →
    ((call flags).exec t).2 = t₁ ∨
      answer (call flags) t = none ∧ ((call flags).exec t).2 = t₁.enqueueReader socketId

variable {call : Flags → Sock (Turn (Option ByteArray8))} {socketId maxBytes : Nat}
  {t t₁ : SocketTable}

theorem RecvShape.recvOk (h : RecvShape call socketId maxBytes t t₁) :
    RecvOk call socketId maxBytes t t₁ := by
  cases h with
  | dry r h =>
      refine ⟨fun flags data hd => ?_, fun flags flags' _ _ hw => ?_, fun flags _ => ?_⟩
      · rw [answer, h] at hd
        cases hr : r (flags.has MSG_DONTWAIT) <;> rw [hr] at hd <;> cases hd
      · rw [answer, answer, h, h, hw]
        cases r (flags'.has MSG_DONTWAIT) <;> rfl
      · rw [answer, h]
        cases r (flags.has MSG_DONTWAIT) with
        | throws e => exact .inl rfl
        | null => exact .inl rfl
        | waits => exact .inr ⟨rfl, rfl⟩
  | data h =>
      refine ⟨fun flags data hd => ?_, fun flags flags' _ _ _ => ?_, fun flags hp => ?_⟩
      · rw [answer, h] at hd
        cases hd
        exact t₁.length_front socketId maxBytes
      · rw [answer, answer, h, h]
      · rw [h, if_pos hp]
        exact .inl rfl

/-! ### What the other calls leave of a stream -/

/-- The part of a socket that a stream depends on. -/
def flow (s : KernelSocket) : Option Nat × Bool × List ByteArray8 :=
  (s.peerId, s.external, s.readBuffer)

theorem flow_dropReader (t : SocketTable) (socketId handle i : Nat) :
    flow ((t.dropReader socketId handle).objs i) = flow (t.objs i) :=
  modify_field t socketId i flow rfl

theorem flow_enqueueReader (t : SocketTable) (socketId i : Nat) :
    flow ((t.enqueueReader socketId).objs i) = flow (t.objs i) :=
  enqueueReader_field t socketId i flow fun _ _ => rfl

theorem flow_shutdownWrite (t : SocketTable) (socketId i : Nat) :
    flow ((t.shutdownWrite socketId).objs i) = flow (t.objs i) := by
  unfold shutdownWrite
  split
  · rfl
  · rename_i p _
    split
    · rw [wakeReaders_field _ p i flow fun _ _ => rfl]
      exact modify_field t p i flow rfl
    · rfl

theorem flow_setState (t : SocketTable) (socketId i : Nat) (state : SocketState) :
    flow ((t.setState socketId state).objs i) = flow (t.objs i) :=
  modify_field t socketId i flow rfl

theorem flow_shutdown (t : SocketTable) (socketId i : Nat) :
    flow (((shutdown socketId .write).exec t).2.objs i) = flow (t.objs i) := by
  refine state_of_wp (I := fun t' : SocketTable => flow (t'.objs i) = flow (t.objs i)) ?_
  unfold shutdown
  rw [wp_bind]
  refine wp_requireSocket (fun _ => ?_) fun _ => rfl
  split
  · rw [wp_update]
    exact (flow_setState _ socketId i _).trans (flow_shutdownWrite t socketId i)
  · rfl

/-- The data comes last, and nothing else of the socket changes that a stream depends on. -/
theorem flow_deliver (t : SocketTable) (p : Nat) (data : ByteArray8) :
    flow ((t.deliver p data).objs p) =
      ((t.objs p).peerId, (t.objs p).external, (t.objs p).readBuffer ++ [data]) := by
  rw [deliver, wakeReader_field _ p p flow fun _ _ => rfl, modify_objs_self]
  rfl

theorem flow_deliver_of_ne (t : SocketTable) {p i : Nat} (h : i ≠ p) (data : ByteArray8) :
    flow ((t.deliver p data).objs i) = flow (t.objs i) := by
  rw [deliver, wakeReader_field _ p i flow fun _ _ => rfl, modify_objs_of_ne t h]

theorem sendToPeer_cases (t : SocketTable) (socketId : Nat) (data : ByteArray8) (flags : Flags) :
    (∃ e t', (sendToPeer socketId data flags).exec t = (.error e, t') ∧
      (t' = t ∨ t' = t.modify socketId ({ · with peerId := none }))) ∨
    ∃ p, (t.objs socketId).peerId = some p ∧
      (sendToPeer socketId data flags).exec t = (.ok data.length, t.deliver p data) := by
  unfold sendToPeer
  rw [exec_bind, exec_read]
  dsimp only [id]
  cases (t.objs socketId).peerId with
  | none => exact .inl ⟨_, t, rfl, .inl rfl⟩
  | some p =>
      dsimp only
      split
      · split
        · exact .inl ⟨_, t, rfl, .inl rfl⟩
        · exact .inr ⟨p, rfl, rfl⟩
      · exact .inl ⟨_, _, rfl, .inr rfl⟩

/-- A `send` that does not leave the kernel fails, or its data goes behind what the peer has. -/
theorem send_cases (hx : (t.objs socketId).external = false)
    (data : ByteArray8) (flags : Flags) (check : Option NetworkDecision) :
    (∃ e t', (send socketId data flags check).exec t = (.error e, t') ∧
      (t' = t ∨ t' = t.modify socketId ({ · with peerId := none }))) ∨
    ∃ p, (t.objs socketId).peerId = some p ∧
      (send socketId data flags check).exec t = (.ok (.done data.length), t.deliver p data) := by
  unfold send
  rw [exec_bind, requireSocket_exec]
  by_cases hlive : t.has socketId = true
  case neg =>
    rw [if_neg hlive]
    exact .inl ⟨_, t, rfl, .inl rfl⟩
  rw [if_pos hlive]
  dsimp only
  split
  · exact .inl ⟨_, t, rfl, .inl rfl⟩
  · split
    · exact .inl ⟨_, t, rfl, .inl rfl⟩
    · rw [if_neg (by simp [hx]), exec_bind]
      rcases sendToPeer_cases t socketId data flags with ⟨e, t', he, ht⟩ | ⟨p, hp, hd⟩
      · rw [he]
        exact .inl ⟨e, t', rfl, ht⟩
      · rw [hd]
        exact .inr ⟨p, hp, rfl⟩

end SocketTable

/-! ### Runs -/

/-- The table, the `recv` calls that wait, and what each socket sent and consumed so far. -/
structure StreamRun where
  table : SocketTable
  blocked : List Awaiting
  /-- The data of the successful `send` calls. -/
  sent : Nat → ByteArray8
  /-- What the `recv` calls without MSG_PEEK returned. -/
  consumed : Nat → ByteArray8

inductive StreamAction where
  | send (socketId : Nat) (data : ByteArray8) (flags : Flags) (check : Option NetworkDecision)
  | recv (socketId maxBytes : Nat) (flags : Flags) (block : Bool)
  | shutdownWrite (socketId : Nat)
  /-- A waiting `recv` goes on. -/
  | resume (i : Nat) (ans : Answer)

/-- An action on one of two sockets. -/
def StreamAction.On (a b : Nat) : StreamAction → Prop
  | .send id _ _ _ => id = a ∨ id = b
  | .recv id _ _ _ => id = a ∨ id = b
  | .shutdownWrite id => id = a ∨ id = b
  | .resume _ _ => True

instance (a b : Nat) : DecidablePred (StreamAction.On a b)
  | .send _ _ _ _ => inferInstanceAs (Decidable (_ ∨ _))
  | .recv _ _ _ _ => inferInstanceAs (Decidable (_ ∨ _))
  | .shutdownWrite _ => inferInstanceAs (Decidable (_ ∨ _))
  | .resume _ _ => inferInstanceAs (Decidable True)

namespace StreamRun

def start (t : SocketTable) : StreamRun := ⟨t, [], fun _ => [], fun _ => []⟩

/-- A `recv` has come to an outcome; `blocked` are the other calls that wait. -/
def received (s : StreamRun) (blocked : List Awaiting) (socketId : Nat) (flags : Flags)
    (r : Except Failure (Turn (Option ByteArray8)) × SocketTable) : StreamRun :=
  match r.1 with
  | .ok (.done (some data)) =>
    { s with
      table := r.2, blocked := blocked
      consumed :=
        if flags.has MSG_PEEK then s.consumed
        else update s.consumed socketId (s.consumed socketId ++ data) }
  | .ok (.waits c) => { s with table := r.2, blocked := blocked ++ [c] }
  | _ => { s with table := r.2, blocked := blocked }

def step (s : StreamRun) : StreamAction → Option StreamRun
  | .send id data flags check =>
    let r := (send id data flags check).exec s.table
    some { s with
      table := r.2
      sent := match r.1 with
        | .ok _ => update s.sent id (s.sent id ++ data)
        | .error _ => s.sent }
  | .recv id maxBytes flags block =>
    some (s.received s.blocked id flags ((recv id maxBytes flags block).exec s.table))
  | .shutdownWrite id => some { s with table := ((shutdown id .write).exec s.table).2 }
  | .resume i ans =>
    match s.blocked[i]? with
    | some (.recv id maxBytes flags handle) =>
      if Awaiting.ready s.table (.recv id maxBytes flags handle) ans then
        match ans with
        | .woken | .signal true _ =>
          some (s.received (s.blocked.eraseIdx i) id flags
            ((recvWoken id maxBytes flags handle).exec s.table))
        | .signal false number =>
          some (s.received (s.blocked.eraseIdx i) id flags
            ((recvInterrupted id handle number).exec s.table))
        | _ => none
      else none
    | _ => none

/-- `x` receives what `y` sends, and nothing else: `y` sends to no other socket, and what `x`
consumed and has in its buffer is what `y` sent. -/
structure Carries (s : StreamRun) (x y : Nat) : Prop where
  peer : ∀ p, (s.table.objs y).peerId = some p → p = x
  loopback : (s.table.objs y).external = false
  stream : s.consumed x ++ (s.table.objs x).readBuffer.flatten = s.sent y

variable {s : StreamRun} {x y : Nat}

section

variable (h : s.Carries x y)
include h

/-- What leaves the two sockets' parts of the stream and the record alone leaves the stream alone. -/
theorem Carries.of_flow {s' : StreamRun}
    (hx : flow (s'.table.objs x) = flow (s.table.objs x))
    (hy : flow (s'.table.objs y) = flow (s.table.objs y))
    (hc : s'.consumed x = s.consumed x) (hs : s'.sent y = s.sent y) : s'.Carries x y := by
  simp only [flow, Prod.mk.injEq] at hx hy
  obtain ⟨-, -, hbuf⟩ := hx
  obtain ⟨hpeer, hext, -⟩ := hy
  refine ⟨fun p hp => h.peer p (hpeer ▸ hp), hext.trans h.loopback, ?_⟩
  rw [hc, hs, hbuf]
  exact h.stream

/-- The front of a buffer is taken and recorded. -/
theorem Carries.drained (id maxBytes : Nat) (blocked : List Awaiting) :
    Carries { s with
      table := s.table.drained id maxBytes
      blocked := blocked
      consumed := update s.consumed id (s.consumed id ++ s.table.front id maxBytes) }
      x y := by
  refine ⟨fun p hp => h.peer p ?_, ?_, ?_⟩
  · exact (s.table.drained_field id maxBytes y (·.peerId) fun _ _ => rfl).symm.trans hp
  · exact (s.table.drained_field id maxBytes y (·.external) fun _ _ => rfl).trans h.loopback
  · by_cases hx : x = id
    · subst hx
      dsimp only
      rw [update_self, List.append_assoc, SocketTable.front_append_drained]
      exact h.stream
    · dsimp only
      rw [update_of_ne hx, SocketTable.drained, SocketTable.modify_objs_of_ne _ hx]
      exact h.stream

/-- A `recv` on any socket. -/
theorem Carries.received {call : Flags → Sock (Turn (Option ByteArray8))} {id maxBytes : Nat}
    {t₁ : SocketTable} (hshape : RecvShape call id maxBytes s.table t₁)
    (ht₁ : ∀ i, flow (t₁.objs i) = flow (s.table.objs i))
    (blocked : List Awaiting) (flags : Flags) :
    (s.received blocked id flags ((call flags).exec s.table)).Carries x y := by
  cases hshape with
  | dry r hr =>
      rw [hr]
      cases r (flags.has MSG_DONTWAIT) with
      | throws e => exact h.of_flow (ht₁ x) (ht₁ y) rfl rfl
      | null => exact h.of_flow (ht₁ x) (ht₁ y) rfl rfl
      | waits =>
          have hq := fun i => (t₁.flow_enqueueReader id i).trans (ht₁ i)
          exact h.of_flow (hq x) (hq y) rfl rfl
  | data hdata =>
      rw [hdata, StreamRun.received]
      cases hp : flags.has MSG_PEEK with
      | true => exact h.of_flow (ht₁ x) (ht₁ y) rfl rfl
      | false =>
          have h₁ : Carries { s with table := t₁ } x y := h.of_flow (ht₁ x) (ht₁ y) rfl rfl
          exact h₁.drained id maxBytes blocked

/-- A `recv` that a signal has interrupted takes nothing. -/
theorem Carries.interrupted (id handle : Nat) (number : Option Nat)
    (blocked : List Awaiting) (flags : Flags) :
    (s.received blocked id flags
      ((recvInterrupted id handle number).exec s.table)).Carries x y := by
  have hd := s.table.flow_dropReader id handle
  exact h.of_flow (hd x) (hd y) rfl rfl

/-- A `send` that fails at most forgets the peer of its socket. -/
theorem Carries.unsent {id : Nat} {t' : SocketTable}
    (ht : t' = s.table ∨ t' = s.table.modify id ({ · with peerId := none })) :
    Carries { s with table := t' } x y := by
  rcases ht with rfl | rfl
  · exact h
  · refine ⟨fun p hp => h.peer p ?_, ?_, ?_⟩
    · by_cases hy : y = id
      · subst hy
        rw [modify_objs_self] at hp
        cases hp
      · rwa [modify_objs_of_ne _ hy] at hp
    · rw [modify_field s.table id y (·.external) rfl]
      exact h.loopback
    · rw [modify_field s.table id x (·.readBuffer) rfl]
      exact h.stream

/-- A `send` of `y` reaches `x`. -/
theorem Carries.delivered (hxy : x ≠ y) (data : ByteArray8) :
    Carries { s with
      table := s.table.deliver x data
      sent := update s.sent y (s.sent y ++ data) } x y := by
  have hy := s.table.flow_deliver_of_ne hxy.symm data
  have hx := s.table.flow_deliver x data
  simp only [flow, Prod.mk.injEq] at hx hy
  refine ⟨fun p hp => h.peer p (hy.1 ▸ hp), hy.2.1.trans h.loopback, ?_⟩
  dsimp only
  rw [hx.2.2, update_self, List.flatten_append, List.flatten_singleton,
    ← List.append_assoc, h.stream]

/-- It leaves the way back alone. -/
theorem Carries.deliveredBack (hxy : x ≠ y) (data : ByteArray8) :
    Carries { s with
      table := s.table.deliver y data
      sent := update s.sent x (s.sent x ++ data) } x y := by
  have hx := s.table.flow_deliver_of_ne hxy data
  have hy := s.table.flow_deliver y data
  simp only [flow, Prod.mk.injEq] at hx hy
  refine ⟨fun p hp => h.peer p (hy.1 ▸ hp), hy.2.1.trans h.loopback, ?_⟩
  dsimp only
  rw [hx.2.2, update_of_ne hxy.symm]
  exact h.stream

end

/-- Both ways of a pair. -/
structure Streams (s : StreamRun) (a b : Nat) : Prop where
  distinct : a ≠ b
  there : s.Carries b a
  back : s.Carries a b

namespace Streams

variable {a b : Nat}

variable (h : s.Streams a b)
include h

theorem swap : s.Streams b a := ⟨h.distinct.symm, h.back, h.there⟩

theorem send (data : ByteArray8) (flags : Flags)
    (check : Option NetworkDecision) {s' : StreamRun}
    (hs : s.step (.send a data flags check) = some s') : s'.Streams a b := by
  cases hs
  rcases send_cases h.there.loopback data flags check with
    ⟨e, t', he, ht⟩ | ⟨p, hp, hd⟩
  · rw [he]
    exact ⟨h.distinct, h.there.unsent ht, h.back.unsent ht⟩
  · cases h.there.peer p hp
    rw [hd]
    exact ⟨h.distinct, h.there.delivered h.distinct.symm data, h.back.deliveredBack h.distinct data⟩

theorem received {call : Flags → Sock (Turn (Option ByteArray8))} {id maxBytes : Nat}
    {t₁ : SocketTable} (hshape : RecvShape call id maxBytes s.table t₁)
    (ht₁ : ∀ i, flow (t₁.objs i) = flow (s.table.objs i))
    (blocked : List Awaiting) (flags : Flags) :
    (s.received blocked id flags ((call flags).exec s.table)).Streams a b :=
  ⟨h.distinct, h.there.received hshape ht₁ blocked flags,
    h.back.received hshape ht₁ blocked flags⟩

/-- **One step.** -/
theorem step {act : StreamAction} {s' : StreamRun} (hon : act.On a b)
    (hs : s.step act = some s') : s'.Streams a b := by
  cases act with
  | send id data flags check =>
      rcases hon with rfl | rfl
      · exact h.send data flags check hs
      · exact (h.swap.send data flags check hs).swap
  | recv id maxBytes flags block =>
      cases hs
      exact h.received (s.table.recv_shape id maxBytes block) (fun _ => rfl) _ flags
  | shutdownWrite id =>
      cases hs
      have hf := s.table.flow_shutdown id
      exact ⟨h.distinct, h.there.of_flow (hf b) (hf a) rfl rfl,
        h.back.of_flow (hf a) (hf b) rfl rfl⟩
  | resume i ans =>
      simp only [StreamRun.step] at hs
      split at hs
      · rename_i id maxBytes flags handle _
        split at hs
        · have hwoken := h.received (s.table.recvWoken_shape id maxBytes handle)
            (s.table.flow_dropReader id handle) (s.blocked.eraseIdx i) flags
          split at hs
          · cases hs
            exact hwoken
          · cases hs
            exact hwoken
          · cases hs
            exact ⟨h.distinct, h.there.interrupted .., h.back.interrupted ..⟩
          · cases hs
        · cases hs
      · cases hs

end Streams

end StreamRun

/-! ### Linked sockets -/

namespace SocketTable

theorem flow_linkPeers (t : SocketTable) {a b : Nat} (hab : a ≠ b) :
    flow ((t.linkPeers a b).objs a) = (some b, (t.objs a).external, (t.objs a).readBuffer) ∧
      flow ((t.linkPeers a b).objs b) = (some a, (t.objs b).external, (t.objs b).readBuffer) := by
  constructor
  · rw [linkPeers, modify_objs_of_ne _ hab, modify_objs_self]
    rfl
  · rw [linkPeers, modify_objs_self, modify_objs_of_ne _ hab.symm]
    rfl

/-- The pair is linked, whatever else `connectPair` sets. -/
theorem flow_connectPair (t : SocketTable) (listener : Nat) (addr : SockAddr) {a b : Nat}
    (hab : a ≠ b) :
    flow ((t.connectPair a listener b addr).objs a) =
        (some b, (t.objs a).external, (t.objs a).readBuffer) ∧
      flow ((t.connectPair a listener b addr).objs b) =
        (some a, (t.objs b).external, (t.objs b).readBuffer) := by
  -- the addresses first
  let t₁ := t.modify a ({ · with remoteAddr := some addr })
  let t₂ := t₁.modify b ({ · with
    localAddr := (t₁.objs listener).localAddr, remoteAddr := (t₁.objs a).localAddr })
  have haddr : ∀ i, flow (t₂.objs i) = flow (t.objs i) := fun i =>
    (modify_field t₁ b i flow rfl).trans (modify_field t a i flow rfl)
  have hqueue : ∀ i, flow ((t.connectPair a listener b addr).objs i) =
      flow ((t₂.linkPeers a b).objs i) := by
    intro i
    rw [connectPair, wakeAccepter_field _ listener i flow fun _ _ => rfl]
    exact modify_field _ listener i flow rfl
  have ha := haddr a
  have hb := haddr b
  simp only [flow, Prod.mk.injEq] at ha hb
  rw [hqueue, hqueue, ← ha.2.1, ← ha.2.2, ← hb.2.1, ← hb.2.2]
  exact t₂.flow_linkPeers hab

end SocketTable

/-- Two sockets that `socketpair` or `connect` has just linked: the client of a `connect` is a
socket that has received nothing so far, and the server's socket is the next one made. -/
inductive Linked : SocketTable → Nat → Nat → Prop where
  | socketpair {t t' : SocketTable} {domain type protocol pid a b : Nat} {known : Bool}
      (h : (socketpair domain type protocol pid known).exec t = (.ok (a, b), t')) :
      Linked t' a b
  | connect {t t' : SocketTable} {a : Nat} {addr : SockAddr} {check : Option NetworkDecision}
      {known : Bool} (hid : a < t.nextSocketId) (hbuf : (t.objs a).readBuffer = [])
      (hext : (t.objs a).external = false)
      (h : (connect a addr check known).exec t = (.ok (.done ()), t')) :
      Linked t' a t.nextSocketId
  /-- Behind the file system's check. -/
  | connectChecked {t t' : SocketTable} {a : Nat} {addr : SockAddr} {yes known : Bool}
      (hid : a < t.nextSocketId) (hbuf : (t.objs a).readBuffer = [])
      (hext : (t.objs a).external = false)
      (h : (connectChecked a addr yes known).exec t = (.ok (.done ()), t')) :
      Linked t' a t.nextSocketId

namespace Linked

variable {t : SocketTable} {a : Nat}

theorem start_streams {b : Nat} (hab : a ≠ b)
    (ha : flow (t.objs a) = (some b, false, []))
    (hb : flow (t.objs b) = (some a, false, [])) :
    (StreamRun.start t).Streams a b := by
  simp only [flow, Prod.mk.injEq] at ha hb
  refine ⟨hab, ⟨fun p hp => ?_, ha.2.1, ?_⟩, ⟨fun p hp => ?_, hb.2.1, ?_⟩⟩
  · exact Option.some.inj (hp.symm.trans ha.1)
  · rw [StreamRun.start, hb.2.2]
    rfl
  · exact Option.some.inj (hp.symm.trans hb.1)
  · rw [StreamRun.start, ha.2.2]
    rfl

section

variable (hid : a < t.nextSocketId)
include hid

variable (hbuf : (t.objs a).readBuffer = [])
include hbuf

variable (hext : (t.objs a).external = false)
include hext

/-- A socket that has received nothing, connected to a listener of the table. -/
theorem connectedTo_streams (listener : Nat) (addr : SockAddr) :
    (StreamRun.start (t.connectedTo a listener addr)).Streams a t.nextSocketId := by
  have hne : a ≠ t.nextSocketId := Nat.ne_of_lt hid
  let l := t.objs listener
  obtain ⟨ha, hb⟩ := (t.add (.new l.domain l.type l.protocol l.pid)).flow_connectPair listener addr
    hne
  refine start_streams hne (ha.trans ?_) (hb.trans ?_)
  · rw [add_objs_of_ne t hne, hbuf, hext]
  · rw [add_objs_self]
    rfl

theorem route_streams (addr : SockAddr) (check : Option NetworkDecision) (known : Bool) :
    (route a addr check known).wp t
      (fun r t' => r = .done () → (StreamRun.start t').Streams a t.nextSocketId)
      fun _ _ => True := by
  unfold route
  rw [wp_bind, wp_read]
  split
  · rename_i listener _
    rw [wp_bind]
    exact wp_connectTo
      (fun _ _ _ _ => connectedTo_streams hid hbuf hext listener addr) fun _ => trivial
  · split
    · trivial
    · -- the connection that leaves the kernel is not made yet
      unfold connectExternal
      rw [wp_bind]
      refine wp_lift_of (fun _ _ => ?_) fun _ _ => trivial
      rw [wp_bind, wp_read]
      split
      · split
        · exact fun h => by cases h
        · exact fun h => by cases h
      · trivial

theorem connectBound_streams (addr : SockAddr) (check : Option NetworkDecision) (known : Bool) :
    (connectBound a addr check known).wp t
      (fun r t' => r = .done () → (StreamRun.start t').Streams a t.nextSocketId)
      fun _ _ => True := by
  unfold connectBound
  rw [wp_bind, wp_read]
  split
  · exact fun h => by cases h
  · exact route_streams hid hbuf hext _ check known

end

theorem socketpair_streams (t : SocketTable) (s : KernelSocket) (hbuf : s.readBuffer = [])
    (hext : s.external = false) :
    (StreamRun.start (((t.add s).add s).linkPeers t.nextSocketId (t.nextSocketId + 1))).Streams
      t.nextSocketId (t.nextSocketId + 1) := by
  have hne : t.nextSocketId ≠ t.nextSocketId + 1 := Nat.ne_of_lt (Nat.lt_succ_self _)
  obtain ⟨ha, hb⟩ := ((t.add s).add s).flow_linkPeers hne
  refine start_streams hne (ha.trans ?_) (hb.trans ?_)
  · rw [add_objs_of_ne (t.add s) hne, add_objs_self, hbuf, hext]
  · have hs := (t.add s).add_objs_self s
    rw [show (t.add s).nextSocketId = t.nextSocketId + 1 from rfl] at hs
    rw [hs, hbuf, hext]

theorem streams {b : Nat} (h : Linked t a b) :
    (StreamRun.start t).Streams a b := by
  cases h with
  | @socketpair t₀ _ domain type protocol pid _ _ known h =>
      refine of_wp_ok (Q := fun r t' => (StreamRun.start t').Streams r.1 r.2)
        (E := fun _ _ => True) ?_ h
      unfold SocketTable.socketpair
      rw [wp_bind]
      refine SocketTable.wp_create (fun _ _ => ?_) fun _ => trivial
      rw [wp_bind]
      refine SocketTable.wp_create (fun _ _ => ?_) fun _ => trivial
      rw [wp_bind, wp_update, wp_pure]
      exact socketpair_streams t₀ _ rfl rfl
  | @connect t₀ _ _ addr check known hid hbuf hext h =>
      refine of_wp_ok (Q := fun r t' => r = .done () →
        (StreamRun.start t').Streams a t₀.nextSocketId) (E := fun _ _ => True) ?_ h rfl
      unfold SocketTable.connect
      rw [wp_bind]
      refine SocketTable.wp_requireSocket (fun _ => ?_) fun _ => trivial
      split
      · trivial
      · rw [wp_bind]
        refine SocketTable.wp_autoBind (connectBound_streams hid hbuf hext addr check known)
          (fun bound v _ => ?_) fun _ _ => trivial
        refine connectBound_streams (t := t₀.modify a _) hid ?_ ?_ addr check known
        · rw [SocketTable.modify_objs_self]
          exact hbuf
        · rw [SocketTable.modify_objs_self]
          exact hext
  | @connectChecked t₀ _ _ addr yes known hid hbuf hext h =>
      refine of_wp_ok (Q := fun r t' => r = .done () →
        (StreamRun.start t').Streams a t₀.nextSocketId) (E := fun _ _ => True) ?_ h rfl
      unfold SocketTable.connectChecked
      split
      · exact route_streams hid hbuf hext addr none known
      · trivial

end Linked

/-- **Loopback stream integrity.**  In every run on two linked sockets, what the one consumed,
followed by what is left in its buffer, is what the other sent; every `recv` returns at most
`maxBytes` bytes, and a peeking `recv` returns what it would return without MSG_PEEK and leaves
the table as it is. -/
theorem stream_integrity {t : SocketTable} {a b : Nat} (hl : Linked t a b) {s : StreamRun}
    (r : Lts.Reach StreamRun.step (fun _ act => act.On a b) (.start t) s) :
    (s.consumed a ++ (s.table.objs a).readBuffer.flatten = s.sent b ∧
      s.consumed b ++ (s.table.objs b).readBuffer.flatten = s.sent a) ∧
    (∀ socketId maxBytes block, RecvOk
      (fun flags => recv socketId maxBytes flags block) socketId maxBytes
      s.table s.table) ∧
    ∀ socketId maxBytes handle, RecvOk
      (fun flags => recvWoken socketId maxBytes flags handle) socketId maxBytes
      s.table (s.table.dropReader socketId handle) := by
  have hs : s.Streams a b := Lts.Reach.invariant (I := fun s => s.Streams a b) hl.streams
    (fun _ _ _ h hon hstep => h.step hon hstep) r
  refine ⟨⟨hs.back.stream, hs.there.stream⟩, fun socketId maxBytes block => ?_,
    fun socketId maxBytes handle => ?_⟩
  · exact (s.table.recv_shape socketId maxBytes block).recvOk
  · exact (s.table.recvWoken_shape socketId maxBytes handle).recvOk

/-- A pair of sockets in an empty table. -/
def pairTable : SocketTable :=
  ((socketpair 1 SOCK_STREAM 0 7 true).exec (.new 8 true false)).2

/-- Three `send` calls, one of them empty, a peek, and a `recv` that cuts the last chunk. -/
def pairActions : List StreamAction :=
  [.send 1 [1, 2] 0 none, .send 1 [] 0 none, .send 1 [3, 4, 5] 0 none, .recv 2 9 MSG_PEEK false,
    .shutdownWrite 1, .recv 2 4 0 true]

theorem stream_integrity_cut : ∃ s : StreamRun,
    Linked pairTable 1 2 ∧
    Lts.Reach StreamRun.step (fun _ act => act.On 1 2) (.start pairTable) s ∧
    s.consumed 2 = [1, 2, 3, 4] ∧
    s.consumed 2 ++ (s.table.objs 2).readBuffer.flatten = s.sent 1 := by
  obtain ⟨s, hr, hc⟩ := Lts.Reach.exists_of_execIf StreamRun.step (fun _ act => act.On 1 2)
    (.start pairTable) pairActions (P := fun s => s.consumed 2 = [1, 2, 3, 4]) (by decide +kernel)
  have hpair : (socketpair 1 SOCK_STREAM 0 7 true).exec (.new 8 true false) =
      (.ok (1, 2), pairTable) := rfl
  have hl : Linked pairTable 1 2 := .socketpair hpair
  exact ⟨s, hl, hr, hc, (stream_integrity hl hr).1.2⟩

end SecureExec.Socket
