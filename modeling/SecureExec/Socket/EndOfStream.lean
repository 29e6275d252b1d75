import SecureExec.Socket.Receive
import SecureExec.Socket.Peers

/-!
# Socket — EndOfStream — when a receive returns `null`

A blocking `recv` decides twice that a stream has ended: before it goes to its loop, where a socket
without a peer is at its end, and in the loop (`canBlockForRecv`), where an external socket is at its
end once its host is.  An external socket has no peer, so its first look never gets to the loop.

A `HostRun` is the system with the sockets whose host has ended its stream so far.  From a socket
that has just been connected on, through any sends, receives, shutdowns, closes and turns of the
pumps, `Reads` says what the socket's links tell of the other end.

* `null_at_end_iff`: a receive that returns `null` does so at the end of the stream exactly when it
  is no first look at an external socket whose host goes on, and nothing came after a shutdown of
  the read side.
-/

namespace SecureExec.Socket
open SecureExec Kernel SocketTable Prog

namespace SocketTable

variable {t t' : SocketTable} {x : Nat} {far : Option Nat} {hostEnded : Prop}

/-! ### What happens to a stream -/

/-- The part of a socket that its stream depends on, but for the data. -/
def ends (s : KernelSocket) : SocketState × Option Nat × Bool × Bool :=
  (s.state, s.peerId, s.external, s.peerWriteClosed)

/-- A change of the table while data is sent and received, and sockets are shut down and closed. -/
inductive StreamChange (t : SocketTable) : SocketTable → Prop where
  | deliver (peer : Nat) (data : ByteArray8) : StreamChange t (t.deliver peer data)
  | consume (id maxBytes : Nat) : StreamChange t (t.drained id maxBytes)
  | enqueueReader (id : Nat) : StreamChange t (t.enqueueReader id)
  | dropReader (id handle : Nat) : StreamChange t (t.dropReader id handle)
  /-- The peer is gone. -/
  | forget (id p : Nat) (hp : (t.objs id).peerId = some p) (hgone : t.has p = false) :
      StreamChange t (t.modify id ({ · with peerId := none }))
  | shutdown (id : Nat) (how : ShutdownHow) (hlive : t.has id = true)
      (hs : (t.objs id).state = .connected ∨ (t.objs id).state = .writeClosed ∨
        (t.objs id).state = .readClosed) : StreamChange t (t.shutDown id how)
  | writeFailed (id : Nat) : StreamChange t ((t.setState id .closed).wakeReaders id)
  | finish (id : Nat) (hlive : t.has id = true) : StreamChange t (t.finish id)

abbrev StreamChanges : SocketTable → SocketTable → Prop := Relation.ReflTransGen StreamChange

/-! ### The other end -/

/-- The socket has been closed or has shut down its write side. -/
def PeerEnded (t : SocketTable) (y : Nat) : Prop :=
  t.has y = false ∨ (t.objs y).state = .writeClosed ∨ (t.objs y).state = .closed

/-- The other end, a socket or the host, has ended the stream. -/
def FarEnded (t : SocketTable) (far : Option Nat) (hostEnded : Prop) : Prop :=
  hostEnded ∨ ∃ y, far = some y ∧ t.PeerEnded y

/-- What the links of `x` say about its other end; an external socket has no other end in the
table. -/
structure Reads (t : SocketTable) (x : Nat) (far : Option Nat) (hostEnded : Prop) : Prop where
  nodup : t.sockets.Nodup
  sole : ∀ z, t.has z = true → (t.objs z).peerId = some x → far = some z
  kind : (t.objs x).external = far.isNone
  peer : ∀ p, (t.objs x).peerId = some p → far = some p
  lost : far ≠ none → (t.objs x).peerId = none → t.FarEnded far hostEnded
  flag : (t.objs x).peerWriteClosed = true → t.FarEnded far hostEnded

theorem ends_eq {s s' : KernelSocket} (h : ends s' = ends s) : s'.state = s.state ∧
    s'.peerId = s.peerId ∧ s'.external = s.external ∧ s'.peerWriteClosed = s.peerWriteClosed := by
  simpa only [ends, Prod.mk.injEq] using h

/-! ### Shutdown -/

theorem shutDown_field {β : Type} (t : SocketTable) (id i : Nat) (how : ShutdownHow)
    (f : KernelSocket → β) (hs : ∀ s v, f { s with state := v } = f s)
    (hw : ∀ s v, f { s with peerWriteClosed := v } = f s)
    (hb : ∀ s b, f { s with readBuffer := b } = f s)
    (hr : ∀ s q, f { s with readWaiters := q } = f s) :
    f ((t.shutDown id how).objs i) = f (t.objs i) := by
  cases how with
  | both =>
      exact (setState_field _ id i .closed f hs).trans
        ((shutdownRead_field _ id i f hb hr).trans (shutdownWrite_field t id i f hw hr))
  | write => exact (setState_field _ id i _ f hs).trans (shutdownWrite_field t id i f hw hr)
  | read => exact (setState_field _ id i _ f hs).trans (shutdownRead_field t id i f hb hr)

/-- The state that a shutdown leaves the socket in. -/
def ShutdownHow.after (state : SocketState) : ShutdownHow → SocketState
  | .both => .closed
  | .write => if state = .readClosed then .closed else .writeClosed
  | .read => if state = .writeClosed then .closed else .readClosed

theorem shutDown_state (t : SocketTable) (id i : Nat) (how : ShutdownHow) :
    ((t.shutDown id how).objs i).state =
      if i = id then how.after (t.objs id).state else (t.objs i).state := by
  have hwrite := shutdownWrite_field t id i (·.state) (fun _ _ => rfl) fun _ _ => rfl
  have hread := fun t : SocketTable =>
    shutdownRead_field t id i (·.state) (fun _ _ => rfl) fun _ _ => rfl
  cases how with
  | both => rw [shutDown, setState_state, hread, hwrite]; rfl
  | write => rw [shutDown, setState_state, hwrite]; rfl
  | read => rw [shutDown, setState_state, hread]; rfl

/-- A shutdown of the write side is what a peer sees. -/
theorem shutdownWrite_peerWriteClosed {id i : Nat}
    (h : ((t.shutdownWrite id).objs i).peerWriteClosed = true) :
    (t.objs i).peerWriteClosed = true ∨ (t.objs id).peerId = some i := by
  unfold shutdownWrite at h
  split at h
  · exact .inl h
  · rename_i p hp
    split at h
    · rw [wakeReaders_field _ p i (·.peerWriteClosed) fun _ _ => rfl] at h
      by_cases hi : i = p
      · exact .inr (hi ▸ hp)
      · rw [modify_objs_of_ne t hi] at h
        exact .inl h
    · exact .inl h

theorem shutDown_peerWriteClosed {id i : Nat} {how : ShutdownHow}
    (h : ((t.shutDown id how).objs i).peerWriteClosed = true) :
    (t.objs i).peerWriteClosed = true ∨ how ≠ .read ∧ (t.objs id).peerId = some i := by
  have hread := fun t : SocketTable =>
    shutdownRead_field t id i (·.peerWriteClosed) (fun _ _ => rfl) fun _ _ => rfl
  have hstate := fun (t : SocketTable) state =>
    setState_field t id i state (·.peerWriteClosed) fun _ _ => rfl
  cases how with
  | both =>
      rw [shutDown, hstate, hread] at h
      exact (shutdownWrite_peerWriteClosed h).imp_right fun hp => ⟨nofun, hp⟩
  | write =>
      rw [shutDown, hstate] at h
      exact (shutdownWrite_peerWriteClosed h).imp_right fun hp => ⟨nofun, hp⟩
  | read =>
      rw [shutDown, hstate, hread] at h
      exact .inl h

theorem shutDown_sockets (t : SocketTable) (id : Nat) (how : ShutdownHow) :
    (t.shutDown id how).sockets = t.sockets := (Calm.shutDown t id how).peers.sockets

/-! ### What a change keeps -/

/-- A change of the data and the queues. -/
structure Quiet (t t' : SocketTable) : Prop where
  sockets : t'.sockets = t.sockets
  ends : ∀ i, ends (t'.objs i) = ends (t.objs i)

theorem Quiet.deliver (t : SocketTable) (peer : Nat) (data : ByteArray8) :
    Quiet t (t.deliver peer data) :=
  ⟨rfl, fun i => (wakeReader_field _ peer i SocketTable.ends fun _ _ => rfl).trans
    (modify_field t peer i SocketTable.ends rfl)⟩

theorem Quiet.enqueueReader (t : SocketTable) (id : Nat) : Quiet t (t.enqueueReader id) :=
  ⟨rfl, fun i => enqueueReader_field t id i SocketTable.ends fun _ _ => rfl⟩

theorem Quiet.modify (t : SocketTable) (id : Nat) {g : KernelSocket → KernelSocket}
    (hg : SocketTable.ends (g (t.objs id)) = SocketTable.ends (t.objs id)) :
    Quiet t (t.modify id g) :=
  ⟨rfl, fun i => modify_field t id i SocketTable.ends hg⟩

theorem PeerEnded.quiet {y : Nat} (h : t.PeerEnded y) (hq : Quiet t t') : t'.PeerEnded y := by
  rw [PeerEnded, has, hq.sockets, (ends_eq (hq.ends y)).1]
  exact h

/-- An end that has ended stays so. -/
theorem PeerEnded.change {y : Nat} (h : t.PeerEnded y) (hc : StreamChange t t') :
    t'.PeerEnded y := by
  cases hc with
  | deliver peer data => exact h.quiet (.deliver t peer data)
  | consume id maxBytes => exact h.quiet (.modify t id rfl)
  | enqueueReader id => exact h.quiet (.enqueueReader t id)
  | dropReader id handle => exact h.quiet (.modify t id rfl)
  | forget id p _ _ =>
      rw [PeerEnded, modify_field t id y (·.state) rfl]
      exact h
  | shutdown id how hlive hs =>
      rcases h with h | h
      · exact .inl (by rwa [has, shutDown_sockets])
      · refine .inr ?_
        rw [shutDown_state]
        split
        · rename_i hy
          rw [hy] at h
          rcases h with h | h
          · cases how <;> simp [ShutdownHow.after, h]
          · simp [h] at hs
        · exact h
  | writeFailed id =>
      refine h.imp_right fun h => ?_
      rw [wakeReaders_field _ id y (·.state) fun _ _ => rfl, setState_state]
      split
      · exact .inr rfl
      · exact h
  | finish id hlive =>
      rcases h with h | h
      · refine .inl (Bool.eq_false_iff.mpr fun hy => Bool.eq_false_iff.mp h ?_)
        rw [has_iff, finish_sockets] at hy
        exact (has_iff t y).mpr (List.mem_of_mem_erase hy)
      · refine .inr ?_
        rw [finish_state]
        split
        · exact .inr rfl
        · exact h

theorem FarEnded.change (h : t.FarEnded far hostEnded) (hc : StreamChange t t') :
    t'.FarEnded far hostEnded :=
  h.imp_right fun ⟨y, hy, he⟩ => ⟨y, hy, he.change hc⟩

namespace Reads

variable (h : t.Reads x far hostEnded)
include h

/-- The sockets, their peers and the kind of `x` are as they were. -/
theorem keep (hs : t'.sockets = t.sockets)
    (hpeer : ∀ i, (t'.objs i).peerId = (t.objs i).peerId)
    (hext : (t'.objs x).external = (t.objs x).external)
    (hfar : t.FarEnded far hostEnded → t'.FarEnded far hostEnded)
    (hflag : (t'.objs x).peerWriteClosed = true → t'.FarEnded far hostEnded) :
    t'.Reads x far hostEnded := by
  refine ⟨hs ▸ h.nodup, fun z hz hp => ?_, hext.trans h.kind, fun p hp => ?_, fun hn hp => ?_, hflag⟩
  · rw [has, hs] at hz
    exact h.sole z hz ((hpeer z).symm.trans hp)
  · exact h.peer p ((hpeer x).symm.trans hp)
  · exact hfar (h.lost hn ((hpeer x).symm.trans hp))

theorem quiet (hq : Quiet t t') : t'.Reads x far hostEnded := by
  have hfar : t.FarEnded far hostEnded → t'.FarEnded far hostEnded := fun hf =>
    hf.imp_right fun ⟨y, hy, he⟩ => ⟨y, hy, he.quiet hq⟩
  obtain ⟨-, -, hext, hflag⟩ := ends_eq (hq.ends x)
  exact h.keep hq.sockets (fun i => (ends_eq (hq.ends i)).2.1) hext hfar fun hw =>
    hfar (h.flag (hflag.symm.trans hw))

/-- **One change.** -/
theorem change (hc : StreamChange t t') :
    t'.Reads x far hostEnded := by
  have hfar : t.FarEnded far hostEnded → t'.FarEnded far hostEnded := fun hf => hf.change hc
  cases hc with
  | deliver peer data => exact h.quiet (.deliver t peer data)
  | consume id maxBytes => exact h.quiet (.modify t id rfl)
  | enqueueReader id => exact h.quiet (.enqueueReader t id)
  | dropReader id handle => exact h.quiet (.modify t id rfl)
  | forget id p hp hgone =>
      have hless : ∀ i q, ((t.modify id ({ · with peerId := none })).objs i).peerId = some q →
          (t.objs i).peerId = some q := by
        intro i q hq
        by_cases hi : i = id
        · rw [hi, modify_objs_self] at hq
          cases hq
        · rwa [modify_objs_of_ne t hi] at hq
      refine ⟨h.nodup, fun z hz hz' => h.sole z hz (hless z x hz'), ?_,
        fun q hq => h.peer q (hless x q hq), fun hn hx => ?_, fun hw => ?_⟩
      · rw [modify_field t id x (·.external) rfl]
        exact h.kind
      · by_cases hi : x = id
        · -- the peer that is forgotten is gone
          exact .inr ⟨p, h.peer p (hi ▸ hp), .inl hgone⟩
        · rw [modify_objs_of_ne t hi] at hx
          exact hfar (h.lost hn hx)
      · rw [modify_field t id x (·.peerWriteClosed) rfl] at hw
        exact hfar (h.flag hw)
  | shutdown id how hlive hs =>
      have hfield : ∀ {β : Type} (f : KernelSocket → β) (i : Nat), _ → _ → _ → _ →
          f ((t.shutDown id how).objs i) = f (t.objs i) := fun f i => shutDown_field t id i how f
      refine h.keep (shutDown_sockets t id how) (fun i => hfield (·.peerId) i (fun _ _ => rfl)
        (fun _ _ => rfl) (fun _ _ => rfl) fun _ _ => rfl) (hfield (·.external) x (fun _ _ => rfl)
        (fun _ _ => rfl) (fun _ _ => rfl) fun _ _ => rfl) hfar fun hw => ?_
      rcases shutDown_peerWriteClosed hw with hw | ⟨hhow, hp⟩
      · exact hfar (h.flag hw)
      · -- the peer of `x` has shut down its write side
        refine .inr ⟨id, h.sole id hlive hp, .inr ?_⟩
        rw [shutDown_state, if_pos rfl]
        cases how with
        | both => exact .inr rfl
        | write => exact (ite_eq_or_eq _ _ _).symm
        | read => exact absurd rfl hhow
  | writeFailed id =>
      have hfield : ∀ {β : Type} (f : KernelSocket → β) (i : Nat),
          (∀ s v, f { s with state := v } = f s) → (∀ s q, f { s with readWaiters := q } = f s) →
          f (((t.setState id .closed).wakeReaders id).objs i) = f (t.objs i) :=
        fun f i hs hr => (wakeReaders_field _ id i f hr).trans (setState_field t id i .closed f hs)
      refine h.keep rfl (fun i => hfield (·.peerId) i (fun _ _ => rfl) fun _ _ => rfl)
        (hfield (·.external) x (fun _ _ => rfl) fun _ _ => rfl) hfar fun hw => hfar (h.flag ?_)
      exact (hfield (·.peerWriteClosed) x (fun _ _ => rfl) fun _ _ => rfl).symm.trans hw
  | finish id hlive =>
      have hless : ∀ i q, ((t.finish id).objs i).peerId = some q → (t.objs i).peerId = some q := by
        intro i q hq
        rw [finish_peerId] at hq
        split at hq
        · cases hq
        · exact hq
      have hkept : ∀ {β : Type} (f : KernelSocket → β),
          (∀ s p, f { s with peerId := p } = f s) → (∀ s q, f { s with readWaiters := q } = f s) →
          (∀ s q, f { s with acceptWaiters := q } = f s) → (∀ s b, f { s with backlog := b } = f s) →
          (∀ s h l u, f { s with hostSocket := h, hostListener := l, hostUdpSocket := u } = f s) →
          (∀ s st b d, f { s with state := st, readBuffer := b, datagramQueue := d } = f s) →
          f ((t.finish id).objs x) = f (t.objs x) := by
        intro β f hp hr ha hb hh hs
        rw [finish_field t id x f hh hs hr ha, clearPeer_field _ id x f hp hr]
        exact modify_field t id x f (g := fun s => { s with backlog := [] }) (hb _ _)
      refine ⟨?_, fun z hz hp => ?_, ?_, fun p hp => h.peer p (hless x p hp), fun hn hp => ?_,
        fun hw => ?_⟩
      · rw [finish_sockets]
        exact h.nodup.erase id
      · rw [has_iff, finish_sockets] at hz
        exact h.sole z ((has_iff t z).mpr (List.mem_of_mem_erase hz)) (hless z x hp)
      · rw [hkept (·.external) (fun _ _ => rfl) (fun _ _ => rfl) (fun _ _ => rfl) (fun _ _ => rfl)
          (fun _ _ _ _ => rfl) fun _ _ _ _ => rfl]
        exact h.kind
      · rw [finish_peerId] at hp
        split at hp
        · -- the peer of `x` is the socket that goes
          rename_i hx
          refine .inr ⟨id, h.sole id hlive hx.1, .inl (Bool.eq_false_iff.mpr fun hgone => ?_)⟩
          rw [has_iff, finish_sockets, h.nodup.mem_erase_iff] at hgone
          exact hgone.1 rfl
        · exact hfar (h.lost hn hp)
      · rw [hkept (·.peerWriteClosed) (fun _ _ => rfl) (fun _ _ => rfl) (fun _ _ => rfl)
          (fun _ _ => rfl) (fun _ _ _ _ => rfl) fun _ _ _ _ => rfl] at hw
        exact hfar (h.flag hw)

theorem changes (hc : StreamChanges t t') :
    t'.Reads x far hostEnded := by
  induction hc with
  | refl => exact h
  | tail _ hc ih => exact ih.change hc

theorem mono {hostEnded' : Prop} (hm : hostEnded → hostEnded') :
    t.Reads x far hostEnded' :=
  ⟨h.nodup, h.sole, h.kind, h.peer, fun hn hp => (h.lost hn hp).imp_left hm,
    fun hw => (h.flag hw).imp_left hm⟩

/-- The host has ended the stream of a socket. -/
theorem hostEof {id : Nat} (hend : id = x → hostEnded) :
    ((t.modify id ({ · with peerWriteClosed := true })).wakeReaders id).Reads x far hostEnded := by
  have hfield : ∀ {β : Type} (f : KernelSocket → β) (i : Nat),
      (∀ s v, f { s with peerWriteClosed := v } = f s) →
      (∀ s q, f { s with readWaiters := q } = f s) →
      f (((t.modify id ({ · with peerWriteClosed := true })).wakeReaders id).objs i) =
        f (t.objs i) := fun f i hw hr => (wakeReaders_field _ id i f hr).trans
          (modify_field t id i f (g := fun s => { s with peerWriteClosed := true }) (hw _ _))
  have hfar : t.FarEnded far hostEnded →
      ((t.modify id ({ · with peerWriteClosed := true })).wakeReaders id).FarEnded far hostEnded := by
    refine fun hf => hf.imp_right fun ⟨y, hy, he⟩ => ⟨y, hy, ?_⟩
    rw [PeerEnded, hfield (·.state) y (fun _ _ => rfl) fun _ _ => rfl]
    exact he
  refine h.keep rfl (fun i => hfield (·.peerId) i (fun _ _ => rfl) fun _ _ => rfl)
    (hfield (·.external) x (fun _ _ => rfl) fun _ _ => rfl) hfar fun hw => ?_
  by_cases hid : id = x
  · exact .inl (hend hid)
  · rw [wakeReaders_field _ id x (·.peerWriteClosed) fun _ _ => rfl,
      modify_objs_of_ne t (Ne.symm hid)] at hw
    exact hfar (h.flag hw)

end Reads

/-! ### The calls -/

/-- The program changes streams only, whether it returns or throws. -/
abbrev Streams (t : SocketTable) {α : Type} (p : Sock α) : Prop := p.Steps StreamChange t

namespace Streams

variable {t₁ : SocketTable} {socketId : Nat}

theorem sendToPeer (data : ByteArray8) (flags : Flags) :
    Streams t (sendToPeer socketId data flags) := by
  refine .read ?_
  dsimp only [id]
  split
  · exact .throw _
  · rename_i peer hpeer
    split
    · split
      · exact .throw _
      · exact .update (.deliver peer data) (.pure _)
    · rename_i hgone
      exact .update (.forget socketId peer hpeer (Bool.eq_false_iff.mpr hgone)) (.throw _)

theorem send (data : ByteArray8) (flags : Flags) (check : Option NetworkDecision) :
    Streams t (send socketId data flags check) := by
  refine steps_require fun _ => ?_
  split
  · exact .throw _
  · split
    · exact .throw _
    · split
      · refine .lift fun _ _ => ?_
        split
        · exact .pure _
        · exact .bind (sendToPeer data flags) fun _ _ _ => .pure _
      · exact .bind (sendToPeer data flags) fun _ _ _ => .pure _

/-- A receive takes from the buffer of its socket, or queues. -/
theorem received {call : Flags → Sock (Turn (Option ByteArray8))} {maxBytes : Nat}
    (hshape : RecvShape call socketId maxBytes t t₁) (ht₁ : StreamChanges t t₁) (flags : Flags) :
    Streams t (call flags) := by
  unfold Streams Steps wp
  cases hshape with
  | dry r hr =>
      rw [hr]
      cases r (flags.has MSG_DONTWAIT) with
      | throws e => exact ht₁
      | null => exact ht₁
      | waits => exact ht₁.tail (.enqueueReader socketId)
  | data hdata =>
      rw [hdata]
      dsimp only
      split
      · exact ht₁
      · exact ht₁.tail (.consume socketId maxBytes)

theorem recv (maxBytes : Nat) (flags : Flags) (block : Bool) :
    Streams t (recv socketId maxBytes flags block) :=
  received (t.recv_shape socketId maxBytes block) .refl flags

theorem recvWoken (maxBytes : Nat) (flags : Flags) (handle : Nat) :
    Streams t (recvWoken socketId maxBytes flags handle) :=
  received (t.recvWoken_shape socketId maxBytes handle) (.single (.dropReader socketId handle)) flags

theorem recvInterrupted (handle : Nat) (signal : Option Nat) :
    Streams t (recvInterrupted socketId handle signal) :=
  .update (.dropReader socketId handle) (.throw _)

theorem shutdown (how : ShutdownHow) : Streams t (shutdown socketId how) := by
  refine steps_require fun hlive => ?_
  split
  · rename_i hs
    exact .last (.single (.shutdown socketId how hlive hs))
  · exact .throw _

theorem of_finishes (hf : Finishes t t') : StreamChanges t t' := by
  induction hf with
  | refl => exact .refl
  | tail _ hf ih =>
      obtain ⟨id, hlive, rfl⟩ := hf
      exact ih.tail (.finish id hlive)

theorem close (ht : Sound t) (pid : Nat) : Streams t (close socketId pid) := by
  refine steps_require fun hlive => ?_
  split
  · exact .throw _
  · exact .last (of_finishes (destroySocket_finishes ht hlive))

theorem closeAllForProcess (ht : Sound t) (pid : Nat) :
    Streams t (update fun t => t.closeAllForProcess pid : Sock PUnit) :=
  .last (of_finishes (closeAllForProcess_finishes ht pid))

theorem hostWriteFailed : Streams t (hostWriteFailed socketId) :=
  .update (.writeFailed socketId) (.pure _)

end Streams

/-! ### A receive that returns `null` -/

theorem recvNow_gone (hgone : ¬ t.has x = true) (maxBytes : Nat) (flags : Flags) :
    ∃ e, (recvNow x maxBytes flags).exec t = (.error e, t) :=
  ⟨_, by rw [recvNow, exec_bind, requireSocket_exec, if_neg hgone]⟩

/-- Its first look. -/
theorem recv_null {maxBytes : Nat} {flags : Flags}
    (h : (recv x maxBytes flags true).exec t = (.ok (.done none), t')) :
    t.readShut x ∨ t.readOpen x ∧ (t.objs x).readBuffer = [] ∧ t.eof x = true := by
  by_cases hlive : t.has x = true
  case neg =>
    obtain ⟨e, he⟩ := recvNow_gone hlive maxBytes flags
    rw [recv_exec, he] at h
    cases h
  rcases (recv_done_iff maxBytes flags hlive).mp ⟨none, t', h⟩ with hs | ⟨ho, hb⟩
  · exact .inl hs
  · by_cases hbuf : (t.objs x).readBuffer = []
    · exact .inr ⟨ho, hbuf, hb.resolve_left fun hn => hn hbuf⟩
    · obtain ⟨t₁, hd⟩ := recv_data maxBytes flags hlive ho hbuf
      rw [hd] at h
      cases h

variable (handle : Nat)

/-- The handle that leaves the queue changes nothing that a receive looks at. -/
theorem dropReader_state :
    ((t.dropReader x handle).objs x).state = (t.objs x).state :=
  modify_field t x x (·.state) rfl

theorem dropReader_readBuffer :
    ((t.dropReader x handle).objs x).readBuffer = (t.objs x).readBuffer :=
  modify_field t x x (·.readBuffer) rfl

theorem dropReader_canBlock :
    (t.dropReader x handle).canBlockForRecv x = t.canBlockForRecv x := by
  simp only [canBlockForRecv, dropReader, modify_objs_self]
  rfl

/-- A look in its loop. -/
theorem recvBlocking_null {maxBytes : Nat} {flags : Flags}
    (h : (recvBlocking x maxBytes flags).exec t = (.ok (.done none), t')) :
    t.readShut x ∨
      t.readOpen x ∧ (t.objs x).readBuffer = [] ∧ t.canBlockForRecv x = false := by
  rw [recvBlocking, exec_bind] at h
  by_cases hlive : t.has x = true
  case neg =>
    obtain ⟨e, he⟩ := recvNow_gone hlive maxBytes flags
    rw [he] at h
    cases h
  by_cases hs : t.readShut x
  case pos => exact .inl hs
  by_cases ho : t.readOpen x
  case neg =>
    rw [recvNow_idle maxBytes flags hlive hs ho] at h
    cases h
  by_cases hbuf : (t.objs x).readBuffer = []
  case neg =>
    obtain ⟨t₁, hd⟩ := recvNow_data maxBytes flags hlive ho hbuf
    rw [hd] at h
    cases h
  refine .inr ⟨ho, hbuf, Bool.eq_false_iff.mpr fun hc => ?_⟩
  rw [recvNow_empty maxBytes flags hlive ho hbuf] at h
  split at h
  · rename_i r t₁ hr
    obtain ⟨hr, rfl⟩ := Prod.mk.inj hr
    cases r with
    | some data =>
        -- there is no data in an empty buffer
        repeat' split at hr
        all_goals cases hr
    | none =>
        rw [exec_bind, exec_read] at h
        dsimp only [id] at h
        rw [if_pos hc] at h
        cases h
  · cases h

/-- What `recv` takes for the end of a stream in the table is one. -/
theorem Reads.farEnded (h : t.Reads x far hostEnded) (hfar : far ≠ none) (he : t.eof x = true) :
    t.FarEnded far hostEnded := by
  rcases Bool.or_eq_true_iff.mp he with hp | hw
  · cases hpeer : (t.objs x).peerId with
    | none => exact h.lost hfar hpeer
    | some p =>
        rw [hpeer, Option.all_some, Bool.not_eq_true'] at hp
        exact .inr ⟨p, h.peer p hpeer, .inl hp⟩
  · exact h.flag hw

/-- What its loop takes for the end of a stream is one. -/
theorem Reads.farEnded_of_loop (h : t.Reads x far hostEnded) (ho : t.readOpen x)
    (hb : (t.objs x).readBuffer = []) (hc : t.canBlockForRecv x = false) :
    t.FarEnded far hostEnded := by
  rw [canBlockForRecv, if_neg ho.not_shut, if_neg (not_not.mpr hb)] at hc
  cases hx : (t.objs x).external with
  | true =>
      rw [hx, if_pos rfl, Bool.not_eq_false'] at hc
      exact h.flag hc
  | false =>
      rw [hx, if_neg Bool.false_ne_true] at hc
      have hfar : far ≠ none := fun hn => by
        have hkind := h.kind
        rw [hx, hn] at hkind
        cases hkind
      refine h.farEnded hfar ?_
      rw [eof]
      cases hp : (t.objs x).peerId with
      | none => rfl
      | some p =>
          rw [hp] at hc
          rw [Option.all_some, Bool.or_eq_true, Bool.not_eq_true']
          exact (Bool.and_eq_false_iff.mp hc).imp_right fun hw => by simpa using hw

end SocketTable

/-! ### Runs -/

/-- A send, a receive, a shutdown or a close. -/
def SocketCall.streams : SocketCall → Bool
  | .send _ _ _ _ | .recv _ _ _ _ | .shutdown _ _ | .close _ _ | .closeAllForProcess _ => true
  | _ => false

/-- A turn of a read pump, a write of the host, or a receive that waits. -/
def Awaiting.streams : Awaiting → Bool
  | .readPump _ _ | .hostWrite _ | .recv _ _ _ _ => true
  | _ => false

/-- The system, and the sockets whose host has ended its stream or has failed. -/
structure HostRun where
  sys : SocketSys
  hostEnded : List Nat

namespace HostRun

open SocketTable

/-- The sockets whose host ends its stream with the step. -/
def hostEnds (s : SocketSys) : SocketAction → List Nat
  | .resume i (.read .eof) | .resume i (.read .failed) => (s.calls[i]?).toList.map (·.socketId)
  | _ => []

def step (s : HostRun) (act : SocketAction) : Option HostRun :=
  (s.sys.step act).map fun sys => ⟨sys, hostEnds s.sys act ++ s.hostEnded⟩

/-- The step is about a stream. -/
def streaming (s : HostRun) : SocketAction → Bool
  | .call c => c.streams
  | .resume i _ => (s.sys.calls[i]?).any (·.streams)

variable {s s' : HostRun} {x : Nat} {far : Option Nat}

/-- The program of a call changes streams only. -/
theorem perform_streams {t : SocketTable} (ht : t.Sound) {c : SocketCall} (hc : c.streams = true) :
    Streams t c.perform := by
  cases c with
  | send id data flags check => exact (Streams.send data flags check).map _
  | recv id maxBytes flags block => exact (Streams.recv maxBytes flags block).map _
  | shutdown id how => exact (Streams.shutdown how).map _
  | close id pid => exact (Streams.close ht pid).map _
  | closeAllForProcess pid => exact (Streams.closeAllForProcess ht pid).map _
  | _ => cases hc

/-- A turn of a read pump. -/
theorem pumped {s : SocketSys} {i id host : Nat} {r : HostRead} {hosts : List Nat}
    (hi : s.calls[i]? = some (.readPump id host))
    (h : s.table.Reads x far (x ∈ hostEnds s (.resume i (.read r)) ++ hosts)) (calls : List Awaiting) :
    (s.run calls (Turn.pending <$> readPumped id host r)).table.Reads x far
      (x ∈ hostEnds s (.resume i (.read r)) ++ hosts) := by
  have hself : r = .eof ∨ r = .failed → id = x →
      x ∈ hostEnds s (.resume i (.read r)) ++ hosts := by
    rintro (rfl | rfl) rfl <;> simp [hostEnds, hi, Awaiting.socketId]
  refine state_of_wp (p := Turn.pending <$> readPumped id host r)
    (I := fun t => t.Reads x far (x ∈ hostEnds s (.resume i (.read r)) ++ hosts)) (wp_map.mpr ?_)
  cases r with
  | data b =>
      have hd := h.change (.deliver id b)
      rw [readPumped, wp_bind, wp_update, wp_bind, wp_read]
      split
      · exact hd
      · exact hd
  | eof => exact h.hostEof (hself (.inl rfl))
  | failed =>
      show Reads (if _ then _ else _) x far _
      split
      · exact h
      · exact h.hostEof (hself (.inr rfl))

/-- **One step.** -/
theorem reads_step {act : SocketAction} (hok : s.sys.Ok)
    (h : s.sys.table.Reads x far (x ∈ s.hostEnded)) (hc : s.streaming act = true)
    (hs : s.step act = some s') : s'.sys.table.Reads x far (x ∈ s'.hostEnded) := by
  obtain ⟨sys, hsys, rfl⟩ := Option.map_eq_some_iff.mp hs
  have hmono := h.mono fun hx : x ∈ s.hostEnded => List.mem_append_right (hostEnds s.sys act) hx
  -- a program that changes streams only
  have hstreams : ∀ calls p, Streams s.sys.table p → (s.sys.run calls p).table.Reads x far
      (x ∈ hostEnds s.sys act ++ s.hostEnded) := fun _ _ hp =>
    hmono.changes hp.state
  cases act with
  | call c =>
      cases hsys
      exact hstreams _ _ (perform_streams hok.sound hc)
  | resume i ans =>
      simp only [SocketSys.step] at hsys
      simp only [streaming] at hc
      cases hi : s.sys.calls[i]? with
      | none =>
          rw [hi] at hc
          cases hc
      | some c =>
          rw [hi] at hsys hc
          dsimp only at hsys
          split at hsys
          case isFalse => cases hsys
          obtain ⟨p, hp, rfl⟩ := Option.map_eq_some_iff.mp hsys
          cases c with
          | readPump id host =>
              cases ans with
              | read r =>
                  cases hp
                  exact pumped hi hmono _
              | _ => cases hp
          | hostWrite id =>
              cases ans with
              | failed =>
                  cases hp
                  exact hstreams _ _ (Streams.hostWriteFailed.map _)
              | woken =>
                  cases hp
                  exact hstreams _ _ (.pure _)
              | _ => cases hp
          | recv id maxBytes flags handle =>
              cases ans with
              | woken =>
                  cases hp
                  exact hstreams _ _ ((Streams.recvWoken maxBytes flags handle).map _)
              | signal restart number =>
                  cases restart with
                  | true =>
                      cases hp
                      exact hstreams _ _ ((Streams.recvWoken maxBytes flags handle).map _)
                  | false =>
                      cases hp
                      exact hstreams _ _ ((Streams.recvInterrupted handle number).map _)
              | _ => cases hp
          | _ => cases hc

/-- No check is asked for. -/
theorem ok_step {act : SocketAction} {s s' : SocketSys} (h : s.Ok) (hs : s.step act = some s') :
    s'.Ok :=
  (SocketSys.step_effects (A := ⟨False, False, False, False, False, fun _ => True⟩) h
    ⟨False.elim, False.elim, False.elim, False.elim, False.elim, fun _ _ => trivial⟩ hs).2

/-- **A whole run.** -/
theorem reads_run (hok : s.sys.Ok) (h : s.sys.table.Reads x far (x ∈ s.hostEnded))
    (r : Lts.Reach step (fun s act => s.streaming act = true) s s') :
    s'.sys.table.Reads x far (x ∈ s'.hostEnded) := by
  refine (r.invariant (I := fun u : HostRun => u.sys.Ok ∧ u.sys.table.Reads x far (x ∈ u.hostEnded))
    ⟨hok, h⟩ fun u act u' hu hc hs => ?_).2
  obtain ⟨sys, hsys, rfl⟩ := Option.map_eq_some_iff.mp hs
  exact ⟨ok_step hu.1 hsys, reads_step hu.1 hu.2 hc hs⟩

end HostRun

/-! ### The end of a stream -/

namespace SocketTable

/-- The socket is connected, to the socket `far` or to the host, which goes on so far, and no other
socket is connected to it. -/
structure Joined (t : SocketTable) (x : Nat) (far : Option Nat) : Prop where
  sole : ∀ z, t.has z = true → (t.objs z).peerId = some x → far = some z
  kind : (t.objs x).external = far.isNone
  peer : (t.objs x).peerId = far
  going : (t.objs x).peerWriteClosed = false

theorem Joined.reads {t : SocketTable} {x : Nat} {far : Option Nat} {hostEnded : Prop}
    (h : t.Joined x far) (hn : t.sockets.Nodup) : t.Reads x far hostEnded where
  nodup := hn
  sole := h.sole
  kind := h.kind
  peer := fun _ hp => h.peer.symm.trans hp
  lost := fun hfar hp => absurd (h.peer.symm.trans hp) hfar
  flag := fun hw => Bool.noConfusion (h.going.symm.trans hw)

/-- Where peers name each other, no other socket is connected to one that has a peer or none. -/
theorem Mutual.joined {t : SocketTable} {x : Nat} {far : Option Nat} (h : t.Mutual)
    (hkind : (t.objs x).external = far.isNone) (hpeer : (t.objs x).peerId = far)
    (hgoing : (t.objs x).peerWriteClosed = false) : t.Joined x far where
  sole := fun z hz hp => hpeer.symm.trans (h z x hz hp).2
  kind := hkind
  peer := hpeer
  going := hgoing

/-- A turn of a blocking `recv` in which it returns `null`: its first, or a later one. -/
inductive NullTurn (t : SocketTable) (x : Nat) : Bool → Prop where
  | first (maxBytes : Nat) (flags : Flags) (t' : SocketTable)
      (h : (recv x maxBytes flags true).exec t = (.ok (.done none), t')) : NullTurn t x true
  | woken (maxBytes : Nat) (flags : Flags) (handle : Nat) (t' : SocketTable)
      (h : (recvWoken x maxBytes flags handle).exec t = (.ok (.done none), t')) :
      NullTurn t x false

end SocketTable

namespace HostRun

open SocketTable

/-- Nothing is left to receive, and nothing will come: the socket is closed or read-shut, or its
other end has ended the stream. -/
def AtEnd (s : HostRun) (x : Nat) (far : Option Nat) : Prop :=
  (s.sys.table.objs x).readBuffer = [] ∧
    (s.sys.table.readShut x ∨ s.sys.table.FarEnded far (x ∈ s.hostEnded))

/-- The turn is no first look at an external socket whose host goes on, and nothing has come after
a shutdown of the read side. -/
structure Seen (s : HostRun) (x : Nat) (far : Option Nat) (first : Bool) : Prop where
  shut : s.sys.table.readShut x → (s.sys.table.objs x).readBuffer = []
  host : first = true → far = none → ¬ s.sys.table.readShut x → x ∈ s.hostEnded

/-- **A receive that returns `null`** in a run of streams: it does so at the end of the stream
exactly when it has seen the end. -/
theorem null_at_end_iff {maxSockets : Nat} {vfs hostAdapter : Bool} {sys : SocketSys} {s : HostRun}
    {x : Nat} {far : Option Nat} {first : Bool}
    (r₀ : Lts.Reach SocketSys.step Lts.Any (SocketSys.new maxSockets vfs hostAdapter) sys)
    (hj : sys.table.Joined x far)
    (r : Lts.Reach step (fun s act => s.streaming act = true) ⟨sys, []⟩ s)
    (hn : s.sys.table.NullTurn x first) : s.AtEnd x far ↔ s.Seen x far first := by
  have hok : sys.Ok := r₀.invariant (SocketSys.Ok.new ..) fun _ _ _ h _ hs => ok_step h hs
  have hr := reads_run (s := ⟨sys, []⟩) hok (hj.reads hok.sound.nodup) r
  constructor
  · refine fun ⟨hb, he⟩ => ⟨fun _ => hb, fun _ hfar hns => ?_⟩
    rcases he.resolve_left hns with hx | ⟨y, hy, -⟩
    · exact hx
    · rw [hfar] at hy
      cases hy
  · intro hseen
    cases hn with
    | first maxBytes flags t' h =>
        rcases recv_null h with hs | ⟨ho, hb, he⟩
        · exact ⟨hseen.shut hs, .inl hs⟩
        · refine ⟨hb, .inr ?_⟩
          by_cases hfar : far = none
          · exact .inl (hseen.host rfl hfar ho.not_shut)
          · exact hr.farEnded hfar he
    | woken maxBytes flags handle t' h =>
        rw [recvWoken, exec_bind, exec_update] at h
        rcases recvBlocking_null h with hs | hloop
        · rw [readShut, dropReader_state] at hs
          exact ⟨hseen.shut hs, .inl hs⟩
        · rw [readOpen, dropReader_state, dropReader_readBuffer, dropReader_canBlock] at hloop
          obtain ⟨ho, hb, hc⟩ := hloop
          exact ⟨hb, .inr (hr.farEnded_of_loop ho hb hc)⟩

/-! ### Both kinds of socket -/

/-- A pair of sockets, as `socketpair` makes it. -/
def pair : SocketSys :=
  (SocketSys.new 8 false false).run [] (SocketCall.perform (.socketpair 1 SOCK_STREAM 0 7 true))

theorem pair_step : SocketSys.step (.new 8 false false)
    (.call (.socketpair 1 SOCK_STREAM 0 7 true)) = some pair := rfl

theorem pair_joined : pair.table.Joined 2 (some 1) := by
  have r : Lts.Reach SocketSys.step (fun s act => s.linksAllowed act = true) (.new 8 false false)
      pair := .one rfl pair_step
  exact ((SocketSys.Paired.new 8 false false).run r).1.peers.joined (by decide +kernel)
    (by decide +kernel) (by decide +kernel)

/-- One end is closed, and the other is at its end. -/
theorem null_at_end_closed : ∃ s : HostRun,
    Lts.Reach step (fun s act => s.streaming act = true) ⟨pair, []⟩ s ∧ s.AtEnd 2 (some 1) := by
  obtain ⟨s, r, hlive, hstate, hbuf, heof⟩ := Lts.Reach.exists_of_execIf step
    (fun s act => s.streaming act = true) ⟨pair, []⟩ [.call (.close 1 7)] (P := fun s => s.sys.table.has 2 = true ∧
      (s.sys.table.objs 2).state = .connected ∧ (s.sys.table.objs 2).readBuffer = [] ∧
      s.sys.table.eof 2 = true) (by decide +kernel)
  refine ⟨s, r, (null_at_end_iff (.one trivial pair_step) pair_joined r
    (.first 16 0 _ (recv_eof 16 0 hlive (.inl hstate) hbuf heof))).mpr ⟨fun _ => hbuf, ?_⟩⟩
  exact fun _ hfar => by cases hfar

/-- A socket connected to the host. -/
def connectedToHost : List SocketAction :=
  [.call (.create 2 SOCK_STREAM 0 7 true),
    .call (.connect 1 (.inet "example" 80) (some ⟨true, none⟩) true), .resume 0 (.host 5 80 true)]

/-- The first look at it returns `null`, and the host has ended nothing. -/
theorem null_at_end_fails :
    ¬ ∀ (maxSockets : Nat) (vfs hostAdapter : Bool) (sys : SocketSys) (s : HostRun) (x : Nat)
      (far : Option Nat) (first : Bool),
      Lts.Reach SocketSys.step Lts.Any (SocketSys.new maxSockets vfs hostAdapter) sys →
      sys.table.Joined x far →
      Lts.Reach step (fun s act => s.streaming act = true) ⟨sys, []⟩ s →
      s.sys.table.NullTurn x first → s.AtEnd x far := by
  intro hall
  obtain ⟨sys, hs, hsockets, hstate, hpeer, hbuf, hext, hgoing⟩ :=
    Lts.Reach.exists_of_exec SocketSys.step (.new 8 false true) connectedToHost (P := fun s =>
      s.table.sockets = [1] ∧ (s.table.objs 1).state = .connected ∧ (s.table.objs 1).peerId = none ∧
      (s.table.objs 1).readBuffer = [] ∧ (s.table.objs 1).external = true ∧
      (s.table.objs 1).peerWriteClosed = false) (by decide +kernel)
  have hlive : sys.table.has 1 = true := (has_iff _ 1).mpr (by rw [hsockets]; decide)
  have hj : sys.table.Joined 1 none := by
    refine ⟨fun z hz hp => ?_, hext, hpeer, hgoing⟩
    rw [has_iff, hsockets, List.mem_singleton] at hz
    rw [hz, hpeer] at hp
    cases hp
  have heof : sys.table.eof 1 = true := by
    rw [eof, hpeer]
    rfl
  have hend := (hall 8 false true sys ⟨sys, []⟩ 1 none true hs hj .start
    (.first 16 0 _ (recv_eof 16 0 hlive (.inl hstate) hbuf heof))).2
  rcases hend with (h | h) | h | ⟨y, hy, -⟩
  · exact SocketState.noConfusion (hstate.symm.trans h)
  · exact SocketState.noConfusion (hstate.symm.trans h)
  · exact List.not_mem_nil h
  · cases hy

end HostRun

end SecureExec.Socket
