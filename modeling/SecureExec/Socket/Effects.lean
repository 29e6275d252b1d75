import SecureExec.Socket.Run

/-!
# Socket — Effects — what the calls do to the table

Every turn of every call changes the table by a few kinds of change (`Effect`): a socket is made,
linked, queued, bound, set to listen or destroyed, or one object changes in something that neither
links nor addresses depend on (`Change`).  The traversal of the calls is done once, in `Turns`; an
invariant of the table is then a matter of the effects.

An effect that links a socket, registers an address, stores a host's object or changes the state of
a socket others may wait on carries the check of it, where `Asked` asks for that check.
-/

namespace SecureExec.Socket
open SecureExec Kernel

namespace SocketTable

/-- A socket is looked up. -/
theorem steps_require {T : SocketTable → SocketTable → Prop} {t : SocketTable} {α : Type}
    {socketId : Nat} {f : KernelSocket → Sock α}
    (h : t.has socketId = true → (f (t.objs socketId)).Steps T t) :
    (requireSocket socketId >>= f).Steps T t :=
  Prog.wp_bind.mpr (wp_requireSocket h fun _ => .refl)

/-! ### Objects and tables that agree -/

/-- The links and the queue of a socket stay, but for what leaves the queue. -/
structure PeerObj (s s' : KernelSocket) : Prop where
  peer : s'.peerId = s.peerId
  backlog : ∀ c ∈ s'.backlog, c ∈ s.backlog

/-- The address of a socket stays, unless it had none, and the socket does not become bound or
listening. -/
structure AddrObj (s s' : KernelSocket) : Prop where
  addr : s'.localAddr = s.localAddr ∨ s.localAddr = none
  type : s'.type = s.type
  state : s'.state = .bound ∨ s'.state = .listening → s'.state = s.state

structure PeerLike (t t' : SocketTable) : Prop where
  sockets : t'.sockets = t.sockets
  next : t'.nextSocketId = t.nextSocketId
  objs : ∀ i, PeerObj (t.objs i) (t'.objs i)

structure AddrLike (t t' : SocketTable) : Prop where
  sockets : t'.sockets = t.sockets
  listeners : t'.listeners = t.listeners
  udpBindings : t'.udpBindings = t.udpBindings
  objs : ∀ i, AddrObj (t.objs i) (t'.objs i)

/-- The tables agree in what links and addresses depend on. -/
structure Calm (t t' : SocketTable) : Prop where
  peers : PeerLike t t'
  addrs : AddrLike t t'

variable {t t' t'' : SocketTable} {s s' s'' : KernelSocket}

theorem PeerObj.refl (s : KernelSocket) : PeerObj s s := ⟨rfl, fun _ h => h⟩

theorem PeerObj.trans (h : PeerObj s s') (h' : PeerObj s' s'') : PeerObj s s'' :=
  ⟨h'.peer.trans h.peer, fun c hc => h.backlog c (h'.backlog c hc)⟩

theorem AddrObj.refl (s : KernelSocket) : AddrObj s s := ⟨.inl rfl, rfl, fun _ => rfl⟩

theorem AddrObj.trans (h : AddrObj s s') (h' : AddrObj s' s'') : AddrObj s s'' := by
  refine ⟨?_, h'.type.trans h.type, fun hs => ?_⟩
  · rcases h.addr with ha | ha
    · rcases h'.addr with hb | hb
      · exact .inl (hb.trans ha)
      · exact .inr (ha ▸ hb)
    · exact .inr ha
  · have hs' := h'.state hs
    exact hs'.trans (h.state (hs' ▸ hs))

namespace Calm

theorem of_objs (hs : t'.sockets = t.sockets) (hn : t'.nextSocketId = t.nextSocketId)
    (hl : t'.listeners = t.listeners) (hu : t'.udpBindings = t.udpBindings)
    (ho : ∀ i, PeerObj (t.objs i) (t'.objs i) ∧ AddrObj (t.objs i) (t'.objs i)) : Calm t t' :=
  ⟨⟨hs, hn, fun i => (ho i).1⟩, ⟨hs, hl, hu, fun i => (ho i).2⟩⟩

theorem refl (t : SocketTable) : Calm t t :=
  of_objs rfl rfl rfl rfl fun _ => ⟨.refl _, .refl _⟩

theorem trans (h : Calm t t') (h' : Calm t' t'') : Calm t t'' :=
  of_objs (h'.peers.sockets.trans h.peers.sockets) (h'.peers.next.trans h.peers.next)
    (h'.addrs.listeners.trans h.addrs.listeners) (h'.addrs.udpBindings.trans h.addrs.udpBindings)
    fun i => ⟨(h.peers.objs i).trans (h'.peers.objs i), (h.addrs.objs i).trans (h'.addrs.objs i)⟩

variable {g : KernelSocket → KernelSocket}

/-- One object changes, in nothing that matters. -/
theorem modify (t : SocketTable) (id : Nat)
    (hp : PeerObj (t.objs id) (g (t.objs id))) (ha : AddrObj (t.objs id) (g (t.objs id))) :
    Calm t (t.modify id g) := by
  refine of_objs rfl rfl rfl rfl fun i => ?_
  by_cases h : i = id
  · subst h
    rw [modify_objs_self]
    exact ⟨hp, ha⟩
  · rw [modify_objs_of_ne t h]
    exact ⟨.refl _, .refl _⟩

/-- The part of an object that links and addresses depend on. -/
def core (s : KernelSocket) : Option Nat × List Nat × Option SockAddr × Nat × SocketState :=
  (s.peerId, s.backlog, s.localAddr, s.type, s.state)

theorem of_core (hs : t'.sockets = t.sockets) (hn : t'.nextSocketId = t.nextSocketId)
    (hl : t'.listeners = t.listeners) (hu : t'.udpBindings = t.udpBindings)
    (ho : ∀ i, core (t'.objs i) = core (t.objs i)) : Calm t t' := by
  refine of_objs hs hn hl hu fun i => ?_
  have h := ho i
  simp only [core, Prod.mk.injEq] at h
  obtain ⟨hpeer, hback, haddr, htype, hstate⟩ := h
  exact ⟨⟨hpeer, fun c hc => hback ▸ hc⟩, ⟨.inl haddr, htype, fun _ => hstate⟩⟩

variable (t) (id : Nat)

/-- A change of one object outside its core. -/
theorem modify_core (hg : core (g (t.objs id)) = core (t.objs id)) : Calm t (t.modify id g) :=
  of_core rfl rfl rfl rfl fun i => modify_field t id i core hg

theorem wakeReader : Calm t (t.wakeReader id) :=
  of_core rfl rfl rfl rfl fun i => wakeReader_field t id i core fun _ _ => rfl

theorem wakeReaders : Calm t (t.wakeReaders id) :=
  of_core rfl rfl rfl rfl fun i => wakeReaders_field t id i core fun _ _ => rfl

theorem enqueueReader : Calm t (t.enqueueReader id) :=
  of_core rfl rfl rfl rfl fun i => enqueueReader_field t id i core fun _ _ => rfl

theorem dropReader (id handle : Nat) : Calm t (t.dropReader id handle) :=
  modify_core t id rfl

theorem wakeAccepter : Calm t (t.wakeAccepter id) :=
  of_core rfl rfl rfl rfl fun i => wakeAccepter_field t id i core fun _ _ => rfl

theorem enqueueAccepter : Calm t (t.enqueueAccepter id) :=
  of_core rfl rfl rfl rfl fun i => enqueueAccepter_field t id i core fun _ _ => rfl

theorem dropAccepter (id handle : Nat) : Calm t (t.dropAccepter id handle) :=
  modify_core t id rfl

/-- The new state is neither bound nor listening. -/
theorem setState {state : SocketState} (hb : state ≠ .bound)
    (hl : state ≠ .listening) : Calm t (t.setState id state) :=
  modify t id ⟨rfl, fun _ h => h⟩ ⟨.inl rfl, rfl, fun h => (h.elim hb hl).elim⟩

theorem deliver (peer : Nat) (data : ByteArray8) :
    Calm t (t.deliver peer data) :=
  (modify_core t peer rfl).trans (wakeReader _ peer)

theorem shutdownWrite : Calm t (t.shutdownWrite id) := by
  unfold SocketTable.shutdownWrite
  split
  · exact refl t
  · rename_i p _
    split
    · exact (modify_core t p rfl).trans (wakeReaders _ p)
    · exact refl t

theorem shutdownRead : Calm t (t.shutdownRead id) :=
  (modify_core t id rfl).trans (wakeReaders _ id)

theorem shutDown (how : ShutdownHow) : Calm t (t.shutDown id how) := by
  cases how with
  | read =>
      refine (shutdownRead t id).trans (setState _ id ?_ ?_)
      · split <;> simp
      · split <;> simp
  | write =>
      refine (shutdownWrite t id).trans (setState _ id ?_ ?_)
      · split <;> simp
      · split <;> simp
  | both =>
      exact ((shutdownWrite t id).trans (shutdownRead _ id)).trans
        (setState _ id (by simp) (by simp))

end Calm

/-! ### The checks -/

/-- The socket is there and has no peer. -/
def freeToLink (t : SocketTable) (id : Nat) : Bool := t.has id && (t.objs id).peerId.isNone

/-- The entry of the socket's address is its own. -/
def registered (t : SocketTable) (id : Nat) : Bool :=
  match (t.objs id).localAddr with
  | none => false
  | some addr => t.listeners.get (addrKey addr) == some id

/-- No other socket that is bound or listening has the entry of the key. -/
def vacant (t : SocketTable) (id : Nat) (key : String) : Bool :=
  match t.listeners.get key with
  | none => true
  | some holder =>
    holder == id || !((t.objs holder).state == .bound || (t.objs holder).state == .listening)

/-- No other socket that is bound has the UDP entry of the key. -/
def udpVacant (t : SocketTable) (id : Nat) (key : String) : Bool :=
  match t.udpBindings.get key with
  | none => true
  | some holder => holder == id || (t.objs holder).state != .bound

/-- The socket has no entry under another key than this one. -/
def noOtherEntry (t : SocketTable) (id : Nat) (key : String) : Bool :=
  match (t.objs id).localAddr with
  | none => true
  | some old =>
    addrKey old == key ||
      (t.listeners.get (addrKey old) != some id && t.udpBindings.get (addrKey old) != some id)

/-- The address may be registered: the socket is there, no entry of it is left behind, and none of
a socket that needs it is overwritten. -/
def mayRegister (t : SocketTable) (id : Nat) (addr : SockAddr) : Bool :=
  t.has id && t.noOtherEntry id (addrKey addr) &&
    if (t.objs id).type = SOCK_DGRAM then t.udpVacant id (addrKey addr)
    else t.vacant id (addrKey addr)

/-- The socket may begin to listen. -/
def mayListen (t : SocketTable) (id : Nat) : Bool := !t.has id || t.registered id

/-- The address of the socket may move to the port. -/
def mayRekey (t : SocketTable) (id port : Nat) : Bool :=
  t.has id && t.registered id &&
    t.vacant id (addrKey (.inet (hostOf (t.objs id).localAddr) port))

/-- No entry of the socket is left behind when the address is registered. -/
def boundOnce (t : SocketTable) (id : Nat) (addr : SockAddr) : Bool :=
  !t.has id || t.noOtherEntry id (addrKey addr)

/-- No datagram entry of the socket is left behind when its address moves. -/
def movedOnce (t : SocketTable) (id : Nat) : Bool :=
  match (t.objs id).localAddr with
  | none => true
  | some old => !t.has id || t.udpBindings.get (addrKey old) != some id

/-- A background connect finds its socket without a host's socket, or gone. -/
def backgroundAllowed (t : SocketTable) (id : Nat) : Bool :=
  !(t.has id && (t.objs id).state != .closed) || (t.objs id).hostSocket.isNone

variable {id : Nat}

theorem backgroundAllowed_spec (h : t.backgroundAllowed id = true)
    (hc : (t.has id && (t.objs id).state != .closed) = true) : (t.objs id).hostSocket = none := by
  rw [backgroundAllowed, hc] at h
  exact Option.isNone_iff_eq_none.mp h

/-- Nobody waits for the connections of the socket, if it listens. -/
def Unattended (t : SocketTable) (id : Nat) : Prop :=
  (t.objs id).state = .listening → (t.objs id).acceptWaiters = []

theorem Unattended.of_ne (h : (t.objs id).state ≠ .listening) : t.Unattended id :=
  fun hs => absurd hs h

theorem Unattended.of_check
    (h : ((t.objs id).state != .listening || (t.objs id).acceptWaiters.isEmpty) = true) :
    t.Unattended id := by
  intro hs
  simpa [hs] using h

/-! ### Effects -/

/-- The checks that are asked for, and the processes that sockets are made for. -/
structure Asked where
  links : Prop
  addrs : Prop
  once : Prop
  hosts : Prop
  waits : Prop
  makes : Nat → Prop

/-- All of an object but its address and what no invariant depends on. -/
def keptButAddr (s : KernelSocket) :=
  ((s.peerId, s.backlog, s.type, s.state), s.pid,
    (s.readBuffer, s.readWaiters, s.acceptWaiters, s.peerWriteClosed, s.external),
    s.hostSocket, s.hostListener, s.hostUdpSocket)

def kept (s : KernelSocket) := (s.localAddr, keptButAddr s)

/-- A change of the table that neither links a socket nor registers an address. -/
inductive Change (A : Asked) (t : SocketTable) : SocketTable → Prop where
  | plain (id : Nat) {g : KernelSocket → KernelSocket}
      (hg : kept (g (t.objs id)) = kept (t.objs id)) : Change A t (t.modify id g)
  | address (id : Nat) {g : KernelSocket → KernelSocket} (hnone : (t.objs id).localAddr = none)
      (hg : keptButAddr (g (t.objs id)) = keptButAddr (t.objs id)) : Change A t (t.modify id g)
  | shift (id c : Nat) (rest : List Nat) (h : (t.objs id).backlog = c :: rest) :
      Change A t (t.modify id ({ · with backlog := rest }))
  | enqueueReader (id : Nat) (hw : ¬ A.waits) : Change A t (t.enqueueReader id)
  | enqueueAccepter (id : Nat) (hw : ¬ A.waits) : Change A t (t.enqueueAccepter id)
  | dropReader (id h : Nat) (hw : ¬ A.waits) : Change A t (t.dropReader id h)
  | dropAccepter (id h : Nat) (hw : ¬ A.waits) : Change A t (t.dropAccepter id h)
  | wakeReader (id : Nat) : Change A t (t.wakeReader id)
  | deliver (id : Nat) (data : ByteArray8) : Change A t (t.deliver id data)
  | consume (id : Nat) (rest : List ByteArray8)
      (h : rest.length ≤ (t.objs id).readBuffer.length) :
      Change A t (t.modify id ({ · with readBuffer := rest }))
  | eof (id : Nat) :
      Change A t ((t.modify id ({ · with peerWriteClosed := true })).wakeReaders id)
  | shutdown (id : Nat) (how : ShutdownHow) (hlive : t.has id = true)
      (hs : (t.objs id).state = .connected ∨ (t.objs id).state = .writeClosed ∨
        (t.objs id).state = .readClosed) : Change A t (t.shutDown id how)
  | writeFailed (id : Nat) (hw : A.waits → t.Unattended id) :
      Change A t ((t.setState id .closed).wakeReaders id)
  | connecting (id : Nat) (addr : SockAddr) (hh : A.hosts → t.has id = true)
      (hw : A.waits → t.Unattended id) :
      Change A t (t.modify id ({ · with state := .connecting, remoteAddr := some addr }))
  | attach (id host : Nat) (addr : SockAddr)
      (hh : A.hosts → t.has id = true ∧ (t.objs id).hostSocket = none)
      (hw : A.waits → t.Unattended id) : Change A t (t.attach id host addr)
  | connectFailed (id : Nat) (hlive : t.has id = true)
      (hh : A.hosts → (t.objs id).hostSocket = none)
      (hw : A.waits → t.Unattended id) : Change A t (t.connectFailed id)
  | hostListening (id host : Nat)
      (hh : A.hosts → t.has id = true ∧ (t.objs id).hostListener = none) :
      Change A t (t.modify id ({ · with hostListener := some host, external := true }))
  | hostUdp (id host : Nat)
      (hh : A.hosts → t.has id = true ∧ (t.objs id).hostUdpSocket = none) :
      Change A t (t.modify id ({ · with hostUdpSocket := some host, external := true }))
  | hostClosed (h : Nat) : Change A t { t with hostClosed := t.hostClosed ++ [h] }

/-- An object as it is added: new, or connected to the host. -/
structure Newborn (s : KernelSocket) : Prop where
  state : s.state = .created ∨ s.state = .connected
  peer : s.peerId = none
  backlog : s.backlog = []
  readWaiters : s.readWaiters = []
  acceptWaiters : s.acceptWaiters = []

theorem Newborn.new (domain type protocol pid : Nat) :
    Newborn (.new domain type protocol pid) := ⟨.inl rfl, rfl, rfl, rfl, rfl⟩

/-- A change of the table. -/
inductive Effect (A : Asked) (t : SocketTable) : SocketTable → Prop where
  | change {t' : SocketTable} (h : Change A t t') : Effect A t t'
  /-- A socket is made: by a call for the process, or beside a socket of the process. -/
  | add (s : KernelSocket) (hs : Newborn s)
      (hm : A.makes s.pid ∨ (A.hosts → ∃ l, t.has l = true ∧ (t.objs l).pid = s.pid)) :
      Effect A t (t.add s)
  /-- The newest socket is queued. -/
  | queue (listener c : Nat) (hl : listener < c) (hc : t.has c = true) :
      Effect A t ((t.modify listener fun s =>
        { s with backlog := s.backlog ++ [c] }).wakeAccepter listener)
  | link (a b : Nat) (hab : a < b) (hb : t.freeToLink b = true)
      (hbs : (t.objs b).state ≠ .listening) (ha : A.links → t.freeToLink a = true)
      (hh : A.hosts → t.has a = true) (hw : A.waits → t.Unattended a) :
      Effect A t (t.linkPeers a b)
  /-- The peer is gone. -/
  | unlink (id p : Nat) (hlive : t.has id = true) (hp : (t.objs id).peerId = some p)
      (hgone : t.has p = false) : Effect A t (t.modify id ({ · with peerId := none }))
  | register (id : Nat) (addr : SockAddr) (hid : id < t.nextSocketId)
      (h : A.addrs → t.mayRegister id addr = true) (ho : A.once → t.boundOnce id addr = true)
      (hh : A.hosts → t.has id = true) (hw : A.waits → t.Unattended id) :
      Effect A t (t.setAddr id addr)
  | listen (id : Nat) (h : A.addrs → t.mayListen id = true)
      (hh : A.hosts ∨ A.waits → t.has id = true) :
      Effect A t (t.setState id .listening)
  | rekey (id port : Nat) (hid : id < t.nextSocketId)
      (h : A.addrs → t.mayRekey id port = true) (ho : A.once → t.movedOnce id = true) :
      Effect A t (t.rekey id port)
  | finish (id : Nat) (hlive : t.has id = true) : Effect A t (t.finish id)

/-- Several effects. -/
abbrev Effects (A : Asked) : SocketTable → SocketTable → Prop := Relation.ReflTransGen (Effect A)

/-- A change leaves links and addresses alone. -/
theorem Change.calm {A : Asked} (h : Change A t t') : Calm t t' := by
  have hobj : ∀ {id : Nat} {g : KernelSocket → KernelSocket}, (g (t.objs id)).peerId =
      (t.objs id).peerId → (g (t.objs id)).backlog = (t.objs id).backlog →
      (g (t.objs id)).localAddr = (t.objs id).localAddr → (g (t.objs id)).type = (t.objs id).type →
      (g (t.objs id)).state ≠ .bound → (g (t.objs id)).state ≠ .listening →
      Calm t (t.modify id g) := fun hp hb ha hty hbound hlisten =>
    .modify t _ ⟨hp, fun _ h => hb ▸ h⟩ ⟨.inl ha, hty, fun h => (h.elim hbound hlisten).elim⟩
  cases h with
  | plain id hg =>
      simp only [kept, keptButAddr, Prod.mk.injEq] at hg
      obtain ⟨haddr, ⟨hp, hb, hty, hs⟩, -⟩ := hg
      exact .modify_core t id (by simp only [Calm.core, haddr, hp, hb, hty, hs])
  | address id hnone hg =>
      simp only [keptButAddr, Prod.mk.injEq] at hg
      obtain ⟨⟨hp, hb, hty, hs⟩, -⟩ := hg
      exact .modify t id ⟨hp, fun _ h => hb ▸ h⟩ ⟨.inr hnone, hty, fun _ => hs⟩
  | shift id c rest h =>
      refine .modify t id ⟨rfl, fun d hd => ?_⟩ ⟨.inl rfl, rfl, fun _ => rfl⟩
      rw [h]
      exact List.mem_cons_of_mem c hd
  | enqueueReader id _ => exact .enqueueReader t id
  | enqueueAccepter id _ => exact .enqueueAccepter t id
  | dropReader id h _ => exact .dropReader t id h
  | dropAccepter id h _ => exact .dropAccepter t id h
  | wakeReader id => exact .wakeReader t id
  | deliver id data => exact .deliver t id data
  | consume id rest _ => exact .modify_core t id rfl
  | eof id => exact (Calm.modify_core t id rfl).trans (.wakeReaders _ id)
  | shutdown id how _ _ => exact .shutDown t id how
  | writeFailed id _ => exact (Calm.setState t id (by simp) (by simp)).trans (.wakeReaders _ id)
  | connecting id addr _ _ => exact hobj rfl rfl rfl rfl (by simp) (by simp)
  | attach id host addr _ _ => exact hobj rfl rfl rfl rfl (by simp) (by simp)
  | connectFailed id _ _ _ =>
      exact (hobj rfl rfl rfl rfl (by simp) (by simp)).trans (.wakeReaders _ id)
  | hostListening id host _ => exact .modify_core t id rfl
  | hostUdp id host _ => exact .modify_core t id rfl
  | hostClosed h => exact .of_core rfl rfl rfl rfl fun _ => rfl

/-! ### What `finish` does -/

variable {β : Type}

section

variable (t : SocketTable) (id i : Nat)

theorem clearPeer_field (f : KernelSocket → β)
    (hp : ∀ s p, f { s with peerId := p } = f s) (hr : ∀ s q, f { s with readWaiters := q } = f s) :
    f ((t.clearPeer id).objs i) = f (t.objs i) := by
  unfold clearPeer
  split
  · rfl
  · rename_i p _
    split
    · rw [wakeReaders_field _ p i f hr]
      exact modify_field t p i f (hp _ _)
    · rfl

theorem clearPeer_peerId :
    ((t.clearPeer id).objs i).peerId =
      if (t.objs id).peerId = some i ∧ t.has i = true then none else (t.objs i).peerId := by
  unfold clearPeer
  split
  · rename_i h
    simp [h]
  · rename_i p h
    split
    · rename_i hp
      rw [wakeReaders_field _ p i (·.peerId) fun _ _ => rfl]
      by_cases hi : i = p
      · subst hi
        rw [modify_objs_self, if_pos ⟨h, hp⟩]
      · rw [modify_objs_of_ne t hi, if_neg fun hc => hi (Option.some.inj (hc.1.symm.trans h))]
    · rename_i hp
      rw [if_neg]
      rintro ⟨hi, hlive⟩
      cases Option.some.inj (hi.symm.trans h)
      exact hp hlive

/-- The sockets and the entries stay. -/
theorem clearPeer_base :
    (t.clearPeer id).sockets = t.sockets ∧ (t.clearPeer id).nextSocketId = t.nextSocketId ∧
      (t.clearPeer id).listeners = t.listeners ∧
      (t.clearPeer id).udpBindings = t.udpBindings := by
  unfold clearPeer
  split
  · exact ⟨rfl, rfl, rfl, rfl⟩
  · split
    · exact ⟨rfl, rfl, rfl, rfl⟩
    · exact ⟨rfl, rfl, rfl, rfl⟩

theorem closeHosts_field (f : KernelSocket → β)
    (hh : ∀ s h l u, f { s with hostSocket := h, hostListener := l, hostUdpSocket := u } = f s) :
    f ((t.closeHosts id).objs i) = f (t.objs i) :=
  modify_field t id i f
    (g := fun s => { s with hostSocket := none, hostListener := none, hostUdpSocket := none })
    (hh _ _ _ _)

theorem deregister_objs : (t.deregister id).objs = t.objs := by
  unfold deregister
  split
  · rfl
  · rfl

theorem deregister_base :
    (t.deregister id).sockets = t.sockets ∧
      (t.deregister id).nextSocketId = t.nextSocketId := by
  unfold deregister
  split
  · exact ⟨rfl, rfl⟩
  · exact ⟨rfl, rfl⟩

/-- Behind the link of the peer, `finish` changes the state and what no other socket sees. -/
theorem finish_field (f : KernelSocket → β)
    (hh : ∀ s h l u, f { s with hostSocket := h, hostListener := l, hostUdpSocket := u } = f s)
    (hs : ∀ s st b d, f { s with state := st, readBuffer := b, datagramQueue := d } = f s)
    (hr : ∀ s q, f { s with readWaiters := q } = f s)
    (ha : ∀ s q, f { s with acceptWaiters := q } = f s) :
    f ((t.finish id).objs i) =
      f (((t.modify id ({ · with backlog := [] })).clearPeer id).objs i) := by
  unfold finish
  dsimp only
  rw [wakeAccepters_field _ id i f ha, wakeReaders_field _ id i f hr,
    modify_field _ id i f (hs _ _ _ _), deregister_objs, closeHosts_field _ id i f hh]

theorem finish_peerId :
    ((t.finish id).objs i).peerId =
      if (t.objs id).peerId = some i ∧ t.has i = true then none else (t.objs i).peerId := by
  rw [finish_field t id i (·.peerId) (fun _ _ _ _ => rfl) (fun _ _ _ _ => rfl) (fun _ _ => rfl)
    fun _ _ => rfl, clearPeer_peerId, modify_field t id i (·.peerId) rfl,
    modify_field t id id (·.peerId) rfl]
  rfl

theorem finish_backlog :
    ((t.finish id).objs i).backlog = if i = id then [] else (t.objs i).backlog := by
  rw [finish_field t id i (·.backlog) (fun _ _ _ _ => rfl) (fun _ _ _ _ => rfl) (fun _ _ => rfl)
    fun _ _ => rfl, clearPeer_field _ id i (·.backlog) (fun _ _ => rfl) fun _ _ => rfl]
  split
  · rename_i h
    rw [h, modify_objs_self]
  · rename_i h
    rw [modify_objs_of_ne t h]

theorem finish_state :
    ((t.finish id).objs i).state = if i = id then .closed else (t.objs i).state := by
  unfold finish
  dsimp only
  rw [wakeAccepters_field _ id i (·.state) fun _ _ => rfl,
    wakeReaders_field _ id i (·.state) fun _ _ => rfl]
  split
  · rename_i h
    rw [h, modify_objs_self]
  · rename_i h
    rw [modify_objs_of_ne _ h, deregister_objs, closeHosts_field _ id i (·.state) fun _ _ _ _ => rfl,
      clearPeer_field _ id i (·.state) (fun _ _ => rfl) fun _ _ => rfl]
    exact modify_field t id i (·.state) rfl

/-- The address and the type stay. -/
theorem finish_addr :
    ((t.finish id).objs i).localAddr = (t.objs i).localAddr ∧
      ((t.finish id).objs i).type = (t.objs i).type := by
  let t₁ := t.modify id ({ · with backlog := [] })
  have hfinish := finish_field t id i (fun s => (s.localAddr, s.type)) (fun _ _ _ _ => rfl)
    (fun _ _ _ _ => rfl) (fun _ _ => rfl) fun _ _ => rfl
  have hclear := clearPeer_field t₁ id i (fun s => (s.localAddr, s.type)) (fun _ _ => rfl)
    fun _ _ => rfl
  have hback : ((t₁.objs i).localAddr, (t₁.objs i).type) =
      ((t.objs i).localAddr, (t.objs i).type) :=
    modify_field t id i (fun s => (s.localAddr, s.type)) rfl
  exact Prod.mk.inj (hfinish.trans (hclear.trans hback))

theorem finish_sockets : (t.finish id).sockets = t.sockets.erase id := by
  let t₁ := t.modify id ({ · with backlog := [] })
  have h : (((t₁.clearPeer id).closeHosts id).deregister id).sockets = t.sockets :=
    (deregister_base _ id).1.trans (clearPeer_base t₁ id).1
  exact congrArg (·.erase id) h

theorem finish_nextSocketId : (t.finish id).nextSocketId = t.nextSocketId :=
  (deregister_base _ id).2.trans (clearPeer_base (t.modify id ({ · with backlog := [] })) id).2.1

/-! ### What a shutdown leaves alone -/

theorem shutdownWrite_field (f : KernelSocket → β)
    (he : ∀ s v, f { s with peerWriteClosed := v } = f s)
    (hr : ∀ s q, f { s with readWaiters := q } = f s) :
    f ((t.shutdownWrite id).objs i) = f (t.objs i) := by
  unfold shutdownWrite
  split
  · rfl
  · split
    · rw [wakeReaders_field _ _ i f hr]
      exact modify_field t _ i f (he _ _)
    · rfl

theorem shutdownRead_field (f : KernelSocket → β)
    (hb : ∀ s b, f { s with readBuffer := b } = f s)
    (hr : ∀ s q, f { s with readWaiters := q } = f s) :
    f ((t.shutdownRead id).objs i) = f (t.objs i) := by
  unfold shutdownRead
  rw [wakeReaders_field _ _ i f hr]
  exact modify_field t _ i f (hb _ _)

theorem setState_field (state : SocketState)
    (f : KernelSocket → β) (hs : ∀ s v, f { s with state := v } = f s) :
    f ((t.setState id state).objs i) = f (t.objs i) :=
  modify_field t id i f (g := fun s => { s with state := state }) (hs _ _)

theorem setState_state (state : SocketState) :
    ((t.setState id state).objs i).state = if i = id then state else (t.objs i).state := by
  rw [setState]
  split
  · rename_i h
    rw [h, modify_objs_self]
  · rename_i h
    rw [modify_objs_of_ne t h]

/-! ### What leaves the links alone -/

theorem setAddr_objs (addr : SockAddr) :
    (t.setAddr id addr).objs =
      (t.modify id ({ · with localAddr := some addr, state := .bound })).objs := by
  unfold setAddr
  dsimp only
  split
  · rfl
  · rfl

theorem setAddr_base (addr : SockAddr) :
    (t.setAddr id addr).sockets = t.sockets ∧
      (t.setAddr id addr).nextSocketId = t.nextSocketId := by
  unfold setAddr
  dsimp only
  split
  · exact ⟨rfl, rfl⟩
  · exact ⟨rfl, rfl⟩

theorem rekey_objs (id port : Nat) :
    (t.rekey id port).objs = (t.modify id
      ({ · with localAddr := some (.inet (hostOf (t.objs id).localAddr) port) })).objs := rfl

theorem linkPeers_backlog (a b i : Nat) :
    ((t.linkPeers a b).objs i).backlog = (t.objs i).backlog := by
  rw [linkPeers, modify_field _ b i (·.backlog) rfl, modify_field t a i (·.backlog) rfl]

end

namespace PeerLike

theorem of_objs (hs : t'.sockets = t.sockets) (hn : t'.nextSocketId = t.nextSocketId)
    (hp : ∀ i, ((t'.objs i).peerId, (t'.objs i).backlog) = ((t.objs i).peerId, (t.objs i).backlog)) :
    PeerLike t t' := by
  refine ⟨hs, hn, fun i => ?_⟩
  obtain ⟨hpeer, hback⟩ := Prod.mk.inj (hp i)
  exact ⟨hpeer, fun c hc => hback ▸ hc⟩

variable (t)

theorem setState (id : Nat) (state : SocketState) :
    PeerLike t (t.setState id state) :=
  of_objs rfl rfl fun i => modify_field t id i (fun s => (s.peerId, s.backlog)) rfl

theorem setAddr (id : Nat) (addr : SockAddr) :
    PeerLike t (t.setAddr id addr) := by
  refine of_objs (setAddr_base t id addr).1 (setAddr_base t id addr).2 fun i => ?_
  rw [setAddr_objs]
  exact modify_field t id i (fun s => (s.peerId, s.backlog)) rfl

theorem rekey (id port : Nat) : PeerLike t (t.rekey id port) := by
  refine of_objs rfl rfl fun i => ?_
  rw [rekey_objs]
  exact modify_field t id i (fun s => (s.peerId, s.backlog)) rfl

end PeerLike

/-! ### What every table keeps -/

theorem has_iff (t : SocketTable) (id : Nat) : t.has id = true ↔ id ∈ t.sockets := by
  simp [has]

/-- The ids are distinct and used up, and a connection is younger than the socket that queues
it. -/
structure Sound (t : SocketTable) : Prop where
  nodup : t.sockets.Nodup
  below : ∀ id, t.has id = true → id < t.nextSocketId
  ordered : ∀ id, ∀ c ∈ (t.objs id).backlog, id < c

variable {A : Asked}

namespace Sound

theorem new (maxSockets : Nat) (vfs hostAdapter : Bool) :
    Sound (.new maxSockets vfs hostAdapter) where
  nodup := List.nodup_nil
  below := fun id h => by simp [has, SocketTable.new] at h
  ordered := fun _ _ h => (List.not_mem_nil h).elim

variable (h : Sound t)
include h

theorem of_backlog (hs : t'.sockets = t.sockets)
    (hn : t'.nextSocketId = t.nextSocketId)
    (hb : ∀ i, ∀ c ∈ (t'.objs i).backlog, c ∈ (t.objs i).backlog) : Sound t' where
  nodup := hs ▸ h.nodup
  below := fun id hid => by
    rw [hn]
    rw [has, hs] at hid
    exact h.below id hid
  ordered := fun id c hc => h.ordered id c (hb id c hc)

theorem peerLike (hp : PeerLike t t') : Sound t' :=
  h.of_backlog hp.sockets hp.next fun i => (hp.objs i).backlog

theorem add (hs : s.backlog = []) : Sound (t.add s) where
  nodup := by
    rw [SocketTable.add, List.nodup_append]
    refine ⟨h.nodup, List.nodup_singleton _, fun a ha b hb => ?_⟩
    rw [List.mem_singleton.mp hb]
    exact Nat.ne_of_lt (h.below a ((has_iff t a).mpr ha))
  below := fun id hid => by
    rw [has_iff, SocketTable.add, List.mem_append, List.mem_singleton] at hid
    rcases hid with hid | rfl
    · exact Nat.lt_succ_of_lt (h.below id ((has_iff t id).mpr hid))
    · exact Nat.lt_succ_self _
  ordered := fun id c hc => by
    by_cases hid : id = t.nextSocketId
    · subst hid
      rw [add_objs_self, hs] at hc
      exact (List.not_mem_nil hc).elim
    · rw [add_objs_of_ne t hid] at hc
      exact h.ordered id c hc

theorem queue {listener c : Nat} (hl : listener < c) :
    Sound (t.modify listener fun s => { s with backlog := s.backlog ++ [c] }) where
  nodup := h.nodup
  below := h.below
  ordered := fun id d hd => by
    by_cases hid : id = listener
    · subst hid
      rw [modify_objs_self, List.mem_append, List.mem_singleton] at hd
      rcases hd with hd | rfl
      · exact h.ordered id d hd
      · exact hl
    · rw [modify_objs_of_ne t hid] at hd
      exact h.ordered id d hd

theorem finish (id : Nat) : Sound (t.finish id) where
  nodup := by
    rw [finish_sockets]
    exact h.nodup.erase id
  below := fun i hi => by
    rw [has_iff, finish_sockets] at hi
    rw [finish_nextSocketId]
    exact h.below i ((has_iff t i).mpr (List.mem_of_mem_erase hi))
  ordered := fun i c hc => by
    rw [finish_backlog] at hc
    split at hc
    · exact (List.not_mem_nil hc).elim
    · exact h.ordered i c hc

theorem effect (he : Effect A t t') : Sound t' := by
  cases he with
  | change hc => exact h.peerLike hc.calm.peers
  | add s hs _ => exact h.add hs.backlog
  | queue listener c hl _ => exact (h.queue hl).peerLike (Calm.wakeAccepter _ listener).peers
  | link a b _ _ _ _ _ _ => exact h.of_backlog rfl rfl fun i c hc => linkPeers_backlog t a b i ▸ hc
  | unlink id p _ _ _ =>
      exact h.of_backlog rfl rfl fun i c hc => by
        rwa [modify_field t id i (·.backlog) rfl] at hc
  | register id addr _ _ _ _ _ => exact h.peerLike (.setAddr t id addr)
  | listen id _ _ => exact h.peerLike (.setState t id .listening)
  | rekey id port _ _ _ => exact h.peerLike (.rekey t id port)
  | finish id _ => exact h.finish id

theorem effects (he : Effects A t t') : Sound t' := by
  induction he with
  | refl => exact h
  | tail _ he ih => exact ih.effect he

end Sound

theorem Effect.next_le (he : Effect A t t') : t.nextSocketId ≤ t'.nextSocketId := by
  cases he with
  | change hc => exact Nat.le_of_eq hc.calm.peers.next.symm
  | add s _ _ => exact Nat.le_succ _
  | queue listener c _ _ => exact Nat.le_refl _
  | link a b _ _ _ _ _ _ => exact Nat.le_refl _
  | unlink id p _ _ _ => exact Nat.le_refl _
  | register id addr _ _ _ _ _ => exact Nat.le_of_eq (setAddr_base t id addr).2.symm
  | listen id _ _ => exact Nat.le_refl _
  | rekey id port _ _ _ => exact Nat.le_refl _
  | finish id _ => exact Nat.le_of_eq (t.finish_nextSocketId id).symm

theorem Effects.next_le (he : Effects A t t') : t.nextSocketId ≤ t'.nextSocketId := by
  induction he with
  | refl => exact Nat.le_refl _
  | tail _ he ih => exact ih.trans he.next_le

/-! ### Destroying sockets -/

theorem has_finish (t : SocketTable) {id x : Nat} (hne : x ≠ id) (h : t.has x = true) :
    (t.finish id).has x = true := by
  rw [has_iff, finish_sockets, List.mem_erase_of_ne hne]
  exact (has_iff t x).mp h

/-- A socket of the table goes. -/
def Finish (t t' : SocketTable) : Prop := ∃ id, t.has id = true ∧ t' = t.finish id

/-- Several do. -/
abbrev Finishes : SocketTable → SocketTable → Prop := Relation.ReflTransGen Finish

theorem Sound.finishes (h : Sound t) (hf : Finishes t t') : Sound t' := by
  induction hf with
  | refl => exact h
  | tail _ hf ih =>
      obtain ⟨id, -, rfl⟩ := hf
      exact ih.finish id

theorem Finishes.effects (hf : Finishes t t') : Effects A t t' := by
  induction hf with
  | refl => exact .refl
  | tail _ hf ih =>
      obtain ⟨id, hlive, rfl⟩ := hf
      exact ih.tail (.finish id hlive)

/-- The pending connections of `id` are destroyed; `id` and what is older stays. -/
theorem foldl_destroy (destroy : SocketTable → Nat → SocketTable) (id : Nat)
    (hd : ∀ t c, Sound t → t.has c = true → Finishes t (destroy t c) ∧
      ∀ x, x < c → t.has x = true → (destroy t c).has x = true) :
    ∀ (l : List Nat) (t : SocketTable), (∀ c ∈ l, id < c) → Sound t →
      Finishes t (l.foldl (fun t c => if t.has c then destroy t c else t) t) ∧
        ∀ x, x ≤ id → t.has x = true →
          (l.foldl (fun t c => if t.has c then destroy t c else t) t).has x = true
  | [], t, _, _ => ⟨.refl, fun _ _ h => h⟩
  | c :: l, t, hl, ht => by
      rw [List.foldl_cons]
      have hl' : ∀ c ∈ l, id < c := fun c hc => hl c (List.mem_cons_of_mem _ hc)
      split
      · rename_i hc
        obtain ⟨he, hk⟩ := hd t c ht hc
        obtain ⟨he', hk'⟩ := foldl_destroy destroy id hd l (destroy t c) hl' (ht.finishes he)
        refine ⟨he.trans he', fun x hx hlive => hk' x hx (hk x ?_ hlive)⟩
        exact Nat.lt_of_le_of_lt hx (hl c List.mem_cons_self)
      · exact foldl_destroy destroy id hd l t hl' ht

theorem destroyWithin_finishes : ∀ (depth : Nat) (t : SocketTable) (id : Nat), Sound t →
    t.has id = true → Finishes t (destroyWithin depth t id) ∧
      ∀ x, x < id → t.has x = true → (destroyWithin depth t id).has x = true
  | 0, t, id, _, hid =>
      ⟨.single ⟨id, hid, rfl⟩, fun _ hx h => t.has_finish (Nat.ne_of_lt hx) h⟩
  | depth + 1, t, id, ht, hid => by
      rw [destroyWithin]
      obtain ⟨he, hk⟩ := foldl_destroy (destroyWithin depth) id
        (fun t c ht hc => destroyWithin_finishes depth t c ht hc) (t.objs id).backlog t
        (ht.ordered id) ht
      refine ⟨he.tail ⟨id, hk id (Nat.le_refl _) hid, rfl⟩, fun x hx h => ?_⟩
      exact has_finish _ (Nat.ne_of_lt hx) (hk x (Nat.le_of_lt hx) h)

variable (ht : Sound t)
include ht

theorem destroySocket_finishes (hid : t.has id = true) :
    Finishes t (t.destroySocket id) :=
  (destroyWithin_finishes _ t id ht hid).1

theorem closeAllForProcess_finishes (pid : Nat) :
    Finishes t (t.closeAllForProcess pid) := by
  unfold closeAllForProcess
  generalize t.sockets = l
  induction l generalizing t with
  | nil => exact .refl
  | cons id l ih =>
      rw [List.foldl_cons]
      split
      · rename_i h
        have he := destroySocket_finishes ht (Bool.and_eq_true_iff.mp h).1
        exact he.trans (ih (ht.finishes he))
      · exact ih ht

theorem destroySocket_effects (hid : t.has id = true) :
    Effects A t (t.destroySocket id) := (destroySocket_finishes ht hid).effects

theorem closeAllForProcess_effects (pid : Nat) :
    Effects A t (t.closeAllForProcess pid) := (closeAllForProcess_finishes ht pid).effects

end SocketTable

end SecureExec.Socket
