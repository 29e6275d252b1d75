import SecureExec.Socket.EndOfStream

/-!
# Socket — Ports — who holds an ephemeral port

A `bind` to port 0, and a `connect` of a socket without an address, look for a port that the
registries do not have (`assignEphemeralPort`).  Not every holder of a port is in them: a client that
is bound by `connect` is not registered, a connection to a listener has the listener's address, and
SO_REUSEADDR skips the look-up and overwrites entries.

* `assigns_alone_iff`: the port that is found is held by no other socket exactly when the look-up
  sees every holder, or finds a lower port.
* `distinct_run`: in a run whose steps give a socket no address that another one holds, no two
  sockets have the same address, but for those made for a connection.
-/

namespace SecureExec.Socket
open SecureExec Kernel SocketTable Prog SocketCall

namespace SocketTable

variable {t t' t'' : SocketTable}

/-! ### The port that is found -/

/-- Both are datagram sockets, or none is. -/
def SameTransport (t : SocketTable) (x y : Nat) : Prop :=
  (t.objs x).type = SOCK_DGRAM ↔ (t.objs y).type = SOCK_DGRAM

/-- The socket has the port, at the host or at every host. -/
def HoldsPort (t : SocketTable) (z : Nat) (host : String) (port : Nat) : Prop :=
  ∃ h, (t.objs z).localAddr = some (.inet h port) ∧ (h = host ∨ isWildcard h = true)

/-- No other socket of the transport has the port. -/
def Alone (t : SocketTable) (socketId : Nat) (host : String) (port : Nat) : Prop :=
  ∀ z, z ≠ socketId → t.has z = true → t.SameTransport socketId z → ¬ t.HoldsPort z host port

/-- A port that is assigned to the socket is an ephemeral one, and no other socket has it. -/
def AssignsAlone (t : SocketTable) (socketId : Nat) (host : String) : Prop :=
  ∀ addr t', (assignEphemeralPort (.inet host 0) socketId).exec t = (.ok addr, t') →
    ∃ port, addr = .inet host port ∧ EPHEMERAL_PORT_MIN ≤ port ∧ port ≤ EPHEMERAL_PORT_MAX ∧
      t.Alone socketId host port

/-- The look-up sees every other socket that has an ephemeral port, or finds a lower one. -/
def SeesHolders (t : SocketTable) (socketId : Nat) (host : String) : Prop :=
  ∀ z port, z ≠ socketId → t.has z = true → t.SameTransport socketId z → t.HoldsPort z host port →
    EPHEMERAL_PORT_MIN ≤ port → port ≤ EPHEMERAL_PORT_MAX →
    t.addrTaken (.inet host port) (t.objs socketId) = true ∨
      ∃ lower, EPHEMERAL_PORT_MIN ≤ lower ∧ lower < port ∧
        t.addrTaken (.inet host lower) (t.objs socketId) = false

variable (t)

/-- The look-up does not see whether a port was asked for. -/
theorem addrTaken_requested (id : Nat) (v : Bool) (addr : SockAddr) :
    (t.modify id ({ · with requestedEphemeralPort := v })).addrTaken addr
      ((t.modify id ({ · with requestedEphemeralPort := v })).objs id) =
      t.addrTaken addr (t.objs id) := by
  have hget : ∀ i, ((t.modify id ({ · with requestedEphemeralPort := v })).get i).bind
      (·.localAddr) = (t.get i).bind (·.localAddr) := by
    intro i
    show Option.bind (if t.has i = true then _ else _) _ = Option.bind (if _ then _ else _) _
    split
    · exact modify_field t id i (·.localAddr) rfl
    · rfl
  rw [modify_objs_self]
  cases addr with
  | unix path => rfl
  | inet host port =>
      simp only [addrTaken, isUdpAddrInUse, isAddrInUse, inUse, hget, modify_listeners,
        modify_udpBindings, KernelSocket.option]
      rfl

/-- The first port that is not taken. -/
theorem assign_exec (socketId : Nat) (host : String) :
    (assignEphemeralPort (.inet host 0) socketId).exec t =
      (match (List.range' EPHEMERAL_PORT_MIN (EPHEMERAL_PORT_MAX - EPHEMERAL_PORT_MIN + 1)).find?
          fun port => !t.addrTaken (.inet host port) (t.objs socketId) with
        | some port => .ok (.inet host port)
        | none => .error (.kernelError .EADDRINUSE "no ephemeral ports available"),
        t.modify socketId ({ · with requestedEphemeralPort := true })) := by
  rw [assignEphemeralPort, exec_bind, exec_update]
  dsimp only
  rw [exec_bind, exec_read]
  dsimp only [id]
  simp only [addrTaken_requested]
  cases (List.range' EPHEMERAL_PORT_MIN (EPHEMERAL_PORT_MAX - EPHEMERAL_PORT_MIN + 1)).find?
    fun port => !t.addrTaken (.inet host port) (t.objs socketId) with
  | some port => rfl
  | none => rfl

theorem mem_ports {port : Nat} :
    port ∈ List.range' EPHEMERAL_PORT_MIN (EPHEMERAL_PORT_MAX - EPHEMERAL_PORT_MIN + 1) ↔
      EPHEMERAL_PORT_MIN ≤ port ∧ port ≤ EPHEMERAL_PORT_MAX := by
  rw [List.mem_range'_1]
  simp only [EPHEMERAL_PORT_MIN, EPHEMERAL_PORT_MAX]
  omega

/-- **When an assigned port is held by no other socket.** -/
theorem assigns_alone_iff (socketId : Nat) (host : String) :
    t.AssignsAlone socketId host ↔ t.SeesHolders socketId host := by
  constructor
  · intro h z port hne hlive htype hholds hmin hmax
    by_cases htaken : t.addrTaken (.inet host port) (t.objs socketId) = true
    · exact .inl htaken
    refine .inr (by_contra fun hlower => ?_)
    -- all the lower ports are taken, so this one is assigned
    have hfind : (List.range' EPHEMERAL_PORT_MIN (EPHEMERAL_PORT_MAX - EPHEMERAL_PORT_MIN + 1)).find?
        (fun port => !t.addrTaken (.inet host port) (t.objs socketId)) = some port := by
      refine List.find?_range'_eq_some.mpr ⟨?_, mem_ports.mpr ⟨hmin, hmax⟩, fun q hq hlt => ?_⟩
      · rw [Bool.eq_false_of_not_eq_true htaken, Bool.not_false]
      · rw [Bool.not_not]
        exact Bool.eq_true_of_not_eq_false fun hf => hlower ⟨q, hq, hlt, hf⟩
    have hexec := assign_exec t socketId host
    rw [hfind] at hexec
    obtain ⟨q, hq, -, -, halone⟩ := h _ _ hexec
    cases hq
    exact halone z hne hlive htype hholds
  · intro h addr t' hexec
    rw [assign_exec] at hexec
    split at hexec
    case h_2 => cases hexec
    rename_i port hport
    cases hexec
    obtain ⟨hfree, hmem, hfirst⟩ := List.find?_range'_eq_some.mp hport
    obtain ⟨hmin, hmax⟩ := mem_ports.mp hmem
    refine ⟨port, rfl, hmin, hmax, fun z hne hlive htype hholds => ?_⟩
    rcases h z port hne hlive htype hholds hmin hmax with ht | ⟨q, hq, hlt, hf⟩
    · rw [ht] at hfree
      cases hfree
    · have hq' := hfirst q hq hlt
      rw [hf] at hq'
      cases hq'

variable {t}

/-! ### What leaves the addresses alone -/

/-- What a look-up sees of a socket. -/
def addrOf (s : KernelSocket) : Option SockAddr × Nat := (s.localAddr, s.type)

/-- No socket that was made changes its address, and none comes back. -/
structure SameAddrs (t t' : SocketTable) : Prop where
  next : t.nextSocketId ≤ t'.nextSocketId
  has : ∀ i, t'.has i = true → t.has i = true ∨ t.nextSocketId ≤ i
  addr : ∀ i, i < t.nextSocketId → addrOf (t'.objs i) = addrOf (t.objs i)

namespace SameAddrs

theorem refl (t : SocketTable) : SameAddrs t t := ⟨Nat.le_refl _, fun _ h => .inl h, fun _ _ => rfl⟩

theorem trans (h : SameAddrs t t') (h' : SameAddrs t' t'') : SameAddrs t t'' where
  next := h.next.trans h'.next
  has := fun i hi => (h'.has i hi).elim (h.has i) fun hle => .inr (h.next.trans hle)
  addr := fun i hi => (h'.addr i (Nat.lt_of_lt_of_le hi h.next)).trans (h.addr i hi)

theorem of_steps (h : Relation.ReflTransGen SameAddrs t t') : SameAddrs t t' := by
  induction h with
  | refl => exact refl t
  | tail _ h ih => exact ih.trans h

/-- The same sockets, with the addresses they had. -/
theorem of_addr (hs : t'.sockets = t.sockets) (hn : t'.nextSocketId = t.nextSocketId)
    (ha : ∀ i, addrOf (t'.objs i) = addrOf (t.objs i)) : SameAddrs t t' where
  next := Nat.le_of_eq hn.symm
  has := fun i hi => .inl (by rwa [SocketTable.has, hs] at hi)
  addr := fun i _ => ha i

variable (t) (id : Nat)

theorem modify {g : KernelSocket → KernelSocket}
    (hg : addrOf (g (t.objs id)) = addrOf (t.objs id)) : SameAddrs t (t.modify id g) :=
  of_addr rfl rfl fun i => modify_field t id i addrOf hg

theorem wakeReader : SameAddrs t (t.wakeReader id) :=
  of_addr rfl rfl fun i => wakeReader_field t id i addrOf fun _ _ => rfl

theorem wakeReaders : SameAddrs t (t.wakeReaders id) :=
  of_addr rfl rfl fun i => wakeReaders_field t id i addrOf fun _ _ => rfl

theorem wakeAccepter : SameAddrs t (t.wakeAccepter id) :=
  of_addr rfl rfl fun i => wakeAccepter_field t id i addrOf fun _ _ => rfl

theorem linkPeers (a b : Nat) : SameAddrs t (t.linkPeers a b) :=
  (modify t a rfl).trans (modify _ b rfl)

theorem enqueueAccepter : SameAddrs t (t.enqueueAccepter id) :=
  of_addr rfl rfl fun i => enqueueAccepter_field t id i addrOf fun _ _ => rfl

/-- A new socket may have any address. -/
theorem add (s : KernelSocket) : SameAddrs t (t.add s) where
  next := Nat.le_succ _
  has := fun i hi => by
    rw [has_iff, SocketTable.add, List.mem_append, List.mem_singleton] at hi
    exact hi.imp (has_iff t i).mpr fun h => Nat.le_of_eq h.symm
  addr := fun i hi => by rw [add_objs_of_ne t (Nat.ne_of_lt hi)]

variable {t}

/-- So may one that was made since. -/
theorem born (h : SameAddrs t t') {id : Nat} (hid : t.nextSocketId ≤ id)
    (g : KernelSocket → KernelSocket) : SameAddrs t (t'.modify id g) where
  next := h.next
  has := h.has
  addr := fun i hi => by
    rw [modify_objs_of_ne t' (Nat.ne_of_lt (Nat.lt_of_lt_of_le hi hid))]
    exact h.addr i hi

theorem finish (t : SocketTable) (id : Nat) : SameAddrs t (t.finish id) where
  next := Nat.le_of_eq (t.finish_nextSocketId id).symm
  has := fun i hi => .inl (by
    rw [has_iff, finish_sockets] at hi
    exact (has_iff t i).mpr (List.mem_of_mem_erase hi))
  addr := fun i _ => by
    obtain ⟨ha, hty⟩ := t.finish_addr id i
    rw [addrOf, addrOf, ha, hty]

/-- Data, shutdowns and closes. -/
theorem of_change (h : StreamChange t t') : SameAddrs t t' := by
  cases h with
  | deliver peer data => exact (modify t peer rfl).trans (wakeReader _ peer)
  | consume id maxBytes => exact modify t id rfl
  | enqueueReader id =>
      exact of_addr rfl rfl fun i => enqueueReader_field t id i addrOf fun _ _ => rfl
  | dropReader id handle => exact modify t id rfl
  | forget id p _ _ => exact modify t id rfl
  | shutdown id how _ _ =>
      exact of_addr (shutDown_sockets t id how) (Calm.shutDown t id how).peers.next fun i =>
        shutDown_field t id i how addrOf (fun _ _ => rfl) (fun _ _ => rfl) (fun _ _ => rfl)
          fun _ _ => rfl
  | writeFailed id => exact (modify t id rfl).trans (wakeReaders _ id)
  | finish id _ => exact finish t id

theorem of_streams {α : Type} {p : Sock α} (h : Streams t p) : p.Steps SameAddrs t := by
  have hmono : ∀ {t' : SocketTable}, StreamChanges t t' →
      Relation.ReflTransGen SameAddrs t t' := by
    intro t' hc
    induction hc with
    | refl => exact .refl
    | tail _ hc ih => exact ih.tail (of_change hc)
  exact wp_mono h (fun _ _ hc => hmono hc) fun _ _ hc => hmono hc

end SameAddrs

/-! ### The calls that give no address -/

/-- No socket changes its address, whether the program returns or throws. -/
abbrev KeepsAddrs (t : SocketTable) {α : Type} (p : Sock α) : Prop := p.Steps SameAddrs t

namespace KeepsAddrs

variable {socketId : Nat}

theorem shiftBacklog : KeepsAddrs t (shiftBacklog socketId) := by
  refine .read ?_
  split
  · exact .pure _
  · exact .update (.modify t socketId rfl) (.pure _)

theorem acceptBlocking : KeepsAddrs t (acceptBlocking socketId) := by
  refine .bind shiftBacklog fun b t₁ _ => ?_
  cases b with
  | some c => exact .pure _
  | none => exact .read (.update (.enqueueAccepter t₁ socketId) (.pure _))

theorem accept (block : Bool) : KeepsAddrs t (accept socketId block) := by
  refine steps_require fun _ => ?_
  split
  · exact .throw _
  · split
    · exact .throw _
    · split
      · exact acceptBlocking
      · exact .bind shiftBacklog fun _ _ _ => .pure _

theorem acceptWoken (handle : Nat) : KeepsAddrs t (acceptWoken socketId handle) := by
  refine .update (.modify t socketId rfl) (.read ?_)
  split
  · exact .throw _
  · exact acceptBlocking

theorem acceptInterrupted (handle : Nat) (signal : Option Nat) :
    KeepsAddrs t (acceptInterrupted socketId handle signal) :=
  .update (.modify t socketId rfl) (.throw _)

theorem setsockopt (level optname : Nat) (optval : Int) :
    KeepsAddrs t (setsockopt socketId level optname optval) :=
  steps_require fun _ => .last (.single (.modify t socketId rfl))

theorem setNonBlocking (nonBlocking : Bool) :
    KeepsAddrs t (setNonBlocking socketId nonBlocking) :=
  steps_require fun _ => .last (.single (.modify t socketId rfl))

theorem listen (backlogSize : Int) (external : Bool) (check : Option NetworkDecision) :
    KeepsAddrs t (listen socketId backlogSize external check) := by
  refine steps_require fun _ => ?_
  split
  · exact .throw _
  refine .update (.modify t socketId rfl) ?_
  split
  · exact .lift fun _ _ => .read (.ite (.pure _) (.update (.modify _ socketId rfl) (.pure _)))
  · exact .update (.modify _ socketId rfl) (.pure _)

theorem pushDatagram (t : SocketTable) (target : Nat) (d : UdpDatagram) :
    SameAddrs t (t.pushDatagram target d) := (SameAddrs.modify t target rfl).trans (.wakeReader _ target)

theorem sendTo (data : ByteArray8) (destAddr : SockAddr) (check : Option NetworkDecision) :
    KeepsAddrs t (sendTo socketId data destAddr check) := by
  refine steps_require fun _ => ?_
  split
  · exact .throw _
  · split
    · exact .throw _
    · refine .read ?_
      dsimp only [id]
      split
      · rename_i target _
        split
        · exact .pure _
        · exact .update (pushDatagram t target _) (.pure _)
      · split
        · exact .lift fun _ _ => .pure _
        · exact .pure _

theorem recvFrom (maxBytes : Nat) (flags : Flags) :
    KeepsAddrs t (recvFrom socketId maxBytes flags) := by
  refine steps_require fun _ => ?_
  split
  · exact .throw _
  · split
    · split
      · exact .pure _
      · exact .update (.modify t socketId rfl) (.pure _)
    · split
      · exact .throw _
      · exact .pure _

theorem bindExternalUdp (check : Option NetworkDecision) :
    KeepsAddrs t (bindExternalUdp socketId check) := by
  refine steps_require fun _ => ?_
  split
  · exact .throw _
  · split
    · exact .throw _
    · refine .read ?_
      split
      · exact .lift fun _ _ => .pure _
      · exact .throw _

variable (host : Nat)

theorem udpBound : KeepsAddrs t (udpBound socketId host) :=
  .update (.modify t socketId rfl) (.pure _)

theorem udpPumped (d : UdpDatagram) :
    KeepsAddrs t (udpPumped socketId host d) := by
  refine .update ?_ (.read (.ite (.pure _) (.pure _)))
  split
  · exact pushDatagram t socketId d
  · exact .refl t

variable (domain type protocol pid : Nat)

theorem create (known : Bool) :
    KeepsAddrs t (create domain type protocol pid known) :=
  wp_create (fun _ _ => .single (.add t _)) fun _ => .refl

theorem socketpair (known : Bool) :
    KeepsAddrs t (socketpair domain type protocol pid known) :=
  .bind (create ..) fun a _ _ => .bind (create ..) fun b t₂ _ =>
    .update (.linkPeers t₂ a b) (.pure _)

variable (addr : SockAddr)

theorem attachHost :
    KeepsAddrs t (attachHost socketId host addr) :=
  .update (.modify t socketId rfl) (.pure _)

theorem backgroundConnected :
    KeepsAddrs t (backgroundConnected socketId host addr) := by
  refine .read ?_
  split
  · exact attachHost host addr
  · exact .update (.of_addr rfl rfl fun _ => rfl) (.pure _)

theorem backgroundFailed : KeepsAddrs t (backgroundFailed socketId) := by
  refine .read ?_
  split
  · exact .update ((SameAddrs.modify t socketId rfl).trans (.wakeReaders _ socketId)) (.pure _)
  · exact .pure _

theorem readPumped (r : HostRead) :
    KeepsAddrs t (readPumped socketId host r) := by
  have heof : SameAddrs t
      ((t.modify socketId ({ · with peerWriteClosed := true })).wakeReaders socketId) :=
    (SameAddrs.modify t socketId rfl).trans (.wakeReaders _ socketId)
  cases r with
  | data b => exact .update (.of_change (.deliver socketId b)) (.read (.ite (.pure _) (.pure _)))
  | eof => exact .update heof (.pure _)
  | failed =>
      refine .update ?_ (.pure _)
      split
      · exact .refl t
      · exact heof

theorem connectExternal (check : Option NetworkDecision) :
    KeepsAddrs t (connectExternal socketId addr check) := by
  refine .lift fun _ _ => .read ?_
  split
  · split
    · exact .update (.modify t socketId rfl) (.pure _)
    · exact .pure _
  · exact .throw _

/-- The server's socket is new, and gets the listener's address. -/
theorem connectPair (h : SameAddrs t t') {server : Nat} (hserver : t.nextSocketId ≤ server)
    (listener : Nat) (addr : SockAddr) :
    SameAddrs t (t'.connectPair socketId listener server addr) := by
  have hremote : SameAddrs t (t'.modify socketId ({ · with remoteAddr := some addr })) :=
    h.trans (.modify t' socketId rfl)
  have hborn := hremote.born hserver fun s =>
    { s with
      localAddr := ((t'.modify socketId ({ · with remoteAddr := some addr })).objs listener).localAddr
      remoteAddr := ((t'.modify socketId ({ · with remoteAddr := some addr })).objs socketId).localAddr }
  have hlinked := hborn.trans (.linkPeers _ socketId server)
  exact (hlinked.trans (.modify _ listener (g := fun s =>
    { s with backlog := s.backlog ++ [server] }) rfl)).trans (.wakeAccepter _ listener)

theorem connectedTo (t : SocketTable) (socketId listener : Nat) (addr : SockAddr) :
    SameAddrs t (t.connectedTo socketId listener addr) :=
  connectPair (.add t _) (Nat.le_refl _) listener addr

theorem connectTo (listener : Nat) (addr : SockAddr) (known : Bool) :
    KeepsAddrs t (connectTo socketId listener addr known) :=
  wp_connectTo (fun _ _ _ => .single (connectedTo t socketId listener addr)) fun _ => .refl

theorem route (check : Option NetworkDecision) (known : Bool) :
    KeepsAddrs t (route socketId addr check known) := by
  refine .read ?_
  split
  · rename_i listener _
    exact .bind (connectTo listener addr known) fun _ _ _ => .pure _
  · split
    · exact .throw _
    · exact connectExternal _ check

theorem connectBound (check : Option NetworkDecision) (known : Bool) :
    KeepsAddrs t (connectBound socketId addr check known) := by
  refine .read ?_
  split
  · exact .pure _
  · exact route _ check known

theorem connectChecked (pathExists known : Bool) :
    KeepsAddrs t (connectChecked socketId addr pathExists known) :=
  .ite (route addr none known) (.throw _)

theorem pumpOn {c : Turn Unit} :
    KeepsAddrs t (do return (← pumpOn socketId host, c)) := by
  refine .bind (.read (.ite (.pure _) (.pure _))) fun _ _ _ => .pure _

/-- The socket of the connection is new, and has the listener's address. -/
theorem acceptPumped (host hostSocket : Nat) (known : Bool) :
    KeepsAddrs t (acceptPumped socketId host hostSocket known) := by
  refine .read ?_
  split
  · exact .update (.of_addr rfl rfl fun _ => rfl) (pumpOn host)
  · refine wp_bind.mpr (wp_create (fun _ _ => ?_) fun _ => .refl)
    have hconn := (SameAddrs.add t (.new (t.objs socketId).domain (t.objs socketId).type
      (t.objs socketId).protocol (t.objs socketId).pid)).born (Nat.le_refl _)
    rw [wp_bind, wp_update]
    exact wp_mono (Steps.update ((SameAddrs.modify _ socketId rfl).trans
      (.wakeAccepter _ socketId)) (pumpOn host)) (fun _ _ hr => .head (hconn _) hr) fun _ _ hr =>
        .head (hconn _) hr

end KeepsAddrs

/-! ### The addresses of the sockets -/

/-- No other socket of the transport has the address, but for those in `served`. -/
def Free (t : SocketTable) (served : Nat → Prop) (socketId : Nat) (host : String) (port : Nat) :
    Prop :=
  ∀ y, y ≠ socketId → t.has y = true → ¬ served y → t.SameTransport socketId y →
    (t.objs y).localAddr ≠ some (.inet host port)

/-- No two sockets of a transport have one address, but for those in `served`. -/
def Distinct (t : SocketTable) (served : Nat → Prop) : Prop :=
  ∀ x host port, t.has x = true → ¬ served x → (t.objs x).localAddr = some (.inet host port) →
    t.Free served x host port

/-- A path is not looked at. -/
def FreeAddr (t : SocketTable) (served : Nat → Prop) (socketId : Nat) (addr : SockAddr) : Prop :=
  ∀ host port, addr = .inet host port → t.Free served socketId host port

/-- The look-up of a port for the socket sees the holders, or the address that is given is free. -/
def MayBind (t : SocketTable) (served : Nat → Prop) (socketId : Nat) : SockAddr → Prop
  | .inet host 0 => t.SeesHolders socketId host
  | addr => t.FreeAddr served socketId addr

/-- A listener whose port was not asked for moves to the one the host gives. -/
def movesPort (t : SocketTable) (socketId : Nat) : Bool :=
  (t.objs socketId).requestedEphemeralPort ||
    (t.objs socketId).localAddr == some (.inet (hostOf (t.objs socketId).localAddr) 0)

/-- The addresses are distinct, but for the sockets of `served`, and so are those to come. -/
structure Apart (t : SocketTable) (served : Nat → Prop) : Prop where
  distinct : t.Distinct served
  later : ∀ i, t.nextSocketId ≤ i → served i

variable {served served' : Nat → Prop} {socketId : Nat} {addr : SockAddr}

theorem Free.mono {host : String} {port : Nat} (h : t.Free served socketId host port)
    (hs : ∀ i, served i → served' i) : t.Free served' socketId host port :=
  fun y hy hlive hn => h y hy hlive fun hi => hn (hs y hi)

theorem Distinct.mono (h : t.Distinct served) (hs : ∀ i, served i → served' i) :
    t.Distinct served' :=
  fun x host port hlive hn ha => (h x host port hlive (fun hi => hn (hs x hi)) ha).mono hs

theorem FreeAddr.mono (h : t.FreeAddr served socketId addr) (hs : ∀ i, served i → served' i) :
    t.FreeAddr served' socketId addr := fun host port ha => (h host port ha).mono hs

theorem MayBind.mono (h : t.MayBind served socketId addr) (hs : ∀ i, served i → served' i) :
    t.MayBind served' socketId addr := by
  unfold MayBind at h ⊢
  split at h
  · exact h
  · exact h.mono hs

theorem addrOf_eq {s s' : KernelSocket} (h : addrOf s' = addrOf s) :
    s'.localAddr = s.localAddr ∧ s'.type = s.type := by
  simpa only [addrOf, Prod.mk.injEq] using h

theorem FreeAddr.modify (h : t.FreeAddr served socketId addr) (id : Nat)
    {g : KernelSocket → KernelSocket} (hg : addrOf (g (t.objs id)) = addrOf (t.objs id)) :
    (t.modify id g).FreeAddr served socketId addr := by
  intro host port ha y hy hlive hn htype hb
  have hsame := fun i => addrOf_eq (modify_field t id i addrOf hg)
  rw [SameTransport, (hsame socketId).2, (hsame y).2] at htype
  rw [(hsame y).1] at hb
  exact h host port ha y hy hlive hn htype hb

/-- A port that no other socket has is free, and that is what is looked for. -/
theorem MayBind.free (h : t.MayBind served socketId addr) {a : SockAddr}
    (he : (assignEphemeralPort addr socketId).exec t = (.ok a, t')) :
    t.FreeAddr served socketId a := by
  unfold MayBind at h
  split at h
  · rename_i host
    obtain ⟨port, rfl, -, -, halone⟩ := (assigns_alone_iff t socketId host).mpr h a t' he
    rintro _ _ ⟨⟩ y hy hlive _ htype ha
    exact halone y hy hlive htype ⟨host, ha, .inl rfl⟩
  · rename_i hne
    have hgiven : (assignEphemeralPort addr socketId).exec t =
        (.ok addr, t.modify socketId ({ · with requestedEphemeralPort := false })) := by
      unfold assignEphemeralPort
      split
      · exact (hne _ rfl).elim
      · rfl
    rw [hgiven] at he
    cases he
    exact h

namespace Apart

variable (h : t.Apart served)
include h

/-- The sockets that were there have the addresses they had. -/
theorem same (hs : SameAddrs t t') : t'.Apart served where
  distinct := by
    have hold : ∀ i, ¬ served i → i < t.nextSocketId := fun i hn =>
      Nat.not_le.mp fun hle => hn (h.later i hle)
    have hlived : ∀ i, ¬ served i → t'.has i = true → t.has i = true := fun i hn hi =>
      (hs.has i hi).resolve_right (Nat.not_le.mpr (hold i hn))
    intro x host port hx hn ha y hy hlive hny htype
    obtain ⟨hax, htx⟩ := addrOf_eq (hs.addr x (hold x hn))
    obtain ⟨hay, hty⟩ := addrOf_eq (hs.addr y (hold y hny))
    rw [SameTransport, htx, hty] at htype
    rw [hax] at ha
    rw [hay]
    exact h.distinct x host port (hlived x hn hx) hn ha y hy (hlived y hny hlive) hny htype
  later := fun i hi => h.later i (hs.next.trans hi)

/-- One socket gets an address that is free. -/
theorem give (hfree : t.FreeAddr served socketId addr)
    (hs : t'.sockets = t.sockets) (hnext : t'.nextSocketId = t.nextSocketId)
    (hself : (t'.objs socketId).localAddr = some addr)
    (hother : ∀ i, i ≠ socketId → (t'.objs i).localAddr = (t.objs i).localAddr)
    (htype : ∀ i, (t'.objs i).type = (t.objs i).type) : t'.Apart served where
  distinct := by
    have hhas : ∀ i, t'.has i = t.has i := fun i => by rw [has, hs]; rfl
    intro x host port hx hn ha y hy hlive hny hsame
    rw [hhas] at hx hlive
    rw [SameTransport, htype, htype] at hsame
    by_cases hxid : x = socketId
    · -- the socket that gets it
      subst hxid
      rw [hself] at ha
      rw [hother y hy]
      exact hfree host port (Option.some.inj ha) y hy hlive hny hsame
    · rw [hother x hxid] at ha
      by_cases hyid : y = socketId
      · subst hyid
        rw [hself]
        exact fun hb => hfree host port (Option.some.inj hb) x hxid hx hn hsame.symm ha
      · rw [hother y hyid]
        exact h.distinct x host port hx hn ha y hy hlive hny hsame
  later := fun i hi => h.later i (hnext ▸ hi)

/-- A socket that is changed, with the address. -/
theorem modify (hfree : t.FreeAddr served socketId addr)
    {g : KernelSocket → KernelSocket} (ha : (g (t.objs socketId)).localAddr = some addr)
    (htype : (g (t.objs socketId)).type = (t.objs socketId).type) :
    (t.modify socketId g).Apart served := by
  refine h.give hfree rfl rfl ?_ (fun i hi => ?_) fun i => ?_
  · rw [modify_objs_self, ha]
  · rw [modify_objs_of_ne t hi]
  · exact modify_field t socketId i (·.type) htype

theorem rekey {port : Nat}
    (hfree : t.FreeAddr served socketId (.inet (hostOf (t.objs socketId).localAddr) port)) :
    (t.rekey socketId port).Apart served :=
  Apart.same (h.modify hfree (g := ({ · with
    localAddr := some (.inet (hostOf (t.objs socketId).localAddr) port) })) rfl rfl)
    (.of_addr rfl rfl fun _ => rfl)

end Apart

/-! ### The calls that give an address -/

/-- The addresses stay apart, whether the program returns or throws. -/
def StaysApart (served : Nat → Prop) (t : SocketTable) {α : Type} (p : Sock α) : Prop :=
  p.wp t (fun _ t' => t'.Apart served) fun _ t' => t'.Apart served

namespace StaysApart

theorem map {α β : Type} {p : Sock α} (g : α → β) (h : StaysApart served t p) :
    StaysApart served t (g <$> p) := wp_map.mpr h

variable (h : t.Apart served)
include h

theorem of_keeps {α : Type} {p : Sock α} (hp : KeepsAddrs t p) :
    StaysApart served t p :=
  wp_mono hp (fun _ _ hr => h.same (.of_steps hr)) fun _ _ hr => h.same (.of_steps hr)

theorem registerAddr (hfree : t.FreeAddr served socketId addr) :
    StaysApart served t (SocketTable.registerAddr socketId addr) := by
  unfold StaysApart SocketTable.registerAddr
  rw [wp_bind, wp_read]
  split
  · exact h
  · rw [wp_update]
    have hset := h.modify hfree (g := ({ · with localAddr := some addr, state := .bound })) rfl rfl
    unfold setAddr
    split
    · exact hset.same (.of_addr rfl rfl fun _ => rfl)
    · exact hset.same (.of_addr rfl rfl fun _ => rfl)

theorem bind (hmay : t.MayBind served socketId addr) :
    StaysApart served t (SocketTable.bind socketId addr) := by
  have hasked : ∀ v, (t.modify socketId ({ · with requestedEphemeralPort := v })).Apart served :=
    fun v => h.same (.modify t socketId rfl)
  unfold StaysApart SocketTable.bind
  rw [wp_bind]
  refine wp_requireSocket (fun _ => ?_) fun _ => h
  split
  · exact h
  · rw [wp_bind]
    refine wp_assignEphemeralPort_exec (fun a v he => ?_) fun _ v => hasked v
    rw [wp_bind, wp_read]
    split
    · exact hasked v
    · rw [wp_bind]
      exact registerAddr (hasked v) ((hmay.free he).modify socketId rfl)

theorem bindChecked (hfree : t.FreeAddr served socketId addr)
    (pathExists : Bool) : StaysApart served t (SocketTable.bindChecked socketId addr pathExists) := by
  unfold SocketTable.bindChecked
  split
  · exact h
  · exact registerAddr h hfree

/-- Once the host listens, the address moves to its port, when the port was not asked for. -/
theorem tcpListening {port : Nat}
    (hfree : t.movesPort socketId = true →
      t.FreeAddr served socketId (.inet (hostOf (t.objs socketId).localAddr) port)) (host : Nat) :
    StaysApart served t (SocketTable.tcpListening socketId host port) := by
  have hhost : (t.modify socketId ({ · with hostListener := some host, external := true })).Apart
      served := h.same (.modify t socketId rfl)
  unfold StaysApart SocketTable.tcpListening
  rw [wp_bind, wp_update, wp_bind, wp_read]
  split
  · rename_i hmoves
    rw [modify_objs_self] at hmoves
    rw [wp_bind, wp_update]
    refine (hhost.rekey ?_).same (.modify _ socketId rfl)
    rw [modify_objs_self]
    exact (hfree hmoves).modify socketId rfl
  · rw [wp_bind, wp_update]
    exact hhost.same (.modify _ socketId rfl)

/-- A socket without an address gets one before it connects. -/
theorem autoBind (hsees : (t.objs socketId).localAddr = none → ∀ host port, addr = .inet host port →
      t.SeesHolders socketId (loopbackFor host)) :
    StaysApart served t (SocketTable.autoBind socketId addr) := by
  unfold StaysApart SocketTable.autoBind
  rw [wp_bind, wp_read]
  split
  · rename_i host port hnone
    rw [wp_bind]
    refine wp_assignEphemeralPort_exec (fun a v he => ?_) fun _ v => h.same (.modify t socketId rfl)
    rw [wp_update]
    have hmay : t.MayBind served socketId (.inet (loopbackFor host) 0) := hsees hnone host port rfl
    exact Apart.modify (h.same (.modify t socketId rfl)) ((hmay.free he).modify socketId rfl) rfl rfl
  · exact h

theorem connect (hsees : (t.objs socketId).localAddr = none → ∀ host port, addr = .inet host port →
      t.SeesHolders socketId (loopbackFor host)) (check : Option NetworkDecision) (known : Bool) :
    StaysApart served t (SocketTable.connect socketId addr check known) := by
  unfold StaysApart SocketTable.connect
  rw [wp_bind]
  refine wp_requireSocket (fun _ => ?_) fun _ => h
  split
  · exact h
  · rw [wp_bind]
    exact wp_mono (autoBind h hsees)
      (fun _ _ h₁ => of_keeps h₁ (KeepsAddrs.connectBound addr check known)) fun _ _ h₁ => h₁

end StaysApart

/-! ### New sockets -/

/-- The sockets that are made have no address. -/
structure MadeBare (t t' : SocketTable) : Prop where
  same : SameAddrs t t'
  bare : ∀ i, t.nextSocketId ≤ i → i < t'.nextSocketId → (t'.objs i).localAddr = none

theorem MadeBare.of_same (h : SameAddrs t t') (hn : t'.nextSocketId = t.nextSocketId) :
    MadeBare t t' := ⟨h, fun _ hle hlt => absurd (hn ▸ hlt) (Nat.not_lt.mpr hle)⟩

theorem MadeBare.trans (h : MadeBare t t') (h' : MadeBare t' t'') : MadeBare t t'' where
  same := h.same.trans h'.same
  bare := fun i hle hlt => by
    by_cases hi : i < t'.nextSocketId
    · rw [(addrOf_eq (h'.same.addr i hi)).1]
      exact h.bare i hle hi
    · exact h'.bare i (Nat.not_lt.mp hi) hlt

theorem MadeBare.add (t : SocketTable) (domain type protocol pid : Nat) :
    MadeBare t (t.add (.new domain type protocol pid)) where
  same := .add t _
  bare := fun i hle hlt => by
    obtain rfl : i = t.nextSocketId := Nat.le_antisymm (Nat.lt_succ_iff.mp hlt) hle
    rw [add_objs_self]
    rfl

theorem MadeBare.of_steps (h : Relation.ReflTransGen MadeBare t t') : MadeBare t t' := by
  induction h with
  | refl => exact of_same (.refl t) rfl
  | tail _ h ih => exact ih.trans h

variable (domain type protocol pid : Nat)

theorem create_bare (known : Bool) :
    (create domain type protocol pid known).Steps MadeBare t :=
  wp_create (fun _ _ => .single (.add t ..)) fun _ => .refl

theorem socketpair_bare (known : Bool) :
    (socketpair domain type protocol pid known).Steps MadeBare t :=
  .bind (create_bare ..) fun a _ _ => .bind (create_bare ..) fun b t₂ _ =>
    .update (.of_same (.linkPeers t₂ a b) rfl) (.pure _)

/-- A socket without an address has none that another one holds. -/
theorem Distinct.bare (h : t.Distinct served) (hb : MadeBare t t') (ht : Sound t') :
    t'.Distinct served := by
  have hold : ∀ i host port, t'.has i = true →
      (t'.objs i).localAddr = some (.inet host port) → i < t.nextSocketId := by
    intro i host port hi ha
    refine Nat.not_le.mp fun hle => ?_
    rw [hb.bare i hle (ht.below i hi)] at ha
    cases ha
  intro x host port hx hn ha y hy hlive hny htype hay
  have hxt := hold x host port hx ha
  have hyt := hold y host port hlive hay
  rw [(addrOf_eq (hb.same.addr x hxt)).1] at ha
  rw [(addrOf_eq (hb.same.addr y hyt)).1] at hay
  rw [SameTransport, (addrOf_eq (hb.same.addr x hxt)).2, (addrOf_eq (hb.same.addr y hyt)).2] at htype
  exact h x host port ((hb.same.has x hx).resolve_right (Nat.not_le.mpr hxt)) hn ha y hy
    ((hb.same.has y hlive).resolve_right (Nat.not_le.mpr hyt)) hny htype hay

/-- The sockets that a step has made are left out. -/
theorem Apart.distinct_made (h : t.Apart served) (ht : Sound t)
    (hs : ∀ i, served i → i < t.nextSocketId → served' i) : t.Distinct served' := by
  have hnot : ∀ i, t.has i = true → ¬ served' i → ¬ served i := fun i hi hn hsv =>
    hn (hs i hsv (ht.below i hi))
  exact fun x host port hx hn ha y hy hlive hny =>
    h.distinct x host port hx (hnot x hx hn) ha y hy hlive (hnot y hlive hny)

end SocketTable

/-! ### Runs -/

open SocketTable

variable {t : SocketTable} {served served' : Nat → Prop}

/-- The call gives its socket no address that another one holds, as far as the look-up and the
table tell. -/
def SocketCall.Spaced (t : SocketTable) (served : Nat → Prop) : SocketCall → Prop
  | .bind id addr => t.MayBind served id addr
  | .connect id addr _ _ =>
    (t.objs id).localAddr = none → ∀ host port, addr = .inet host port →
      t.SeesHolders id (loopbackFor host)
  | _ => True

/-- So does a call that goes on. -/
def Awaiting.Spaced (t : SocketTable) (served : Nat → Prop) : Awaiting → Answer → Prop
  | .bindExists id addr, _ => t.FreeAddr served id addr
  | .tcpListen id, .host _ port _ =>
    t.movesPort id = true → t.FreeAddr served id (.inet (hostOf (t.objs id).localAddr) port)
  | _, _ => True

theorem SocketCall.Spaced.mono {c : SocketCall} (h : c.Spaced t served)
    (hs : ∀ i, served i → served' i) : c.Spaced t served' := by
  cases c with
  | bind id addr => exact MayBind.mono h hs
  | _ => exact h

theorem Awaiting.Spaced.mono {c : Awaiting} {ans : Answer} (h : c.Spaced t served ans)
    (hs : ∀ i, served i → served' i) : c.Spaced t served' ans := by
  cases c with
  | bindExists id addr => exact FreeAddr.mono h hs
  | tcpListen id =>
      cases ans with
      | host _ port _ => exact fun hm => (h hm).mono hs
      | _ => trivial
  | _ => trivial

open StaysApart in
theorem SocketCall.perform_apart (h : t.Apart served) (ht : Sound t) {c : SocketCall}
    (hc : c.Spaced t served) : StaysApart served t c.perform := by
  have hstream : ∀ {p : Sock (List Awaiting)}, Streams t p → StaysApart served t p :=
    fun hp => of_keeps h (SameAddrs.of_streams hp)
  cases c with
  | create domain type protocol pid known =>
      exact (of_keeps h (KeepsAddrs.create domain type protocol pid known)).map _
  | setsockopt id level optname optval =>
      exact (of_keeps h (KeepsAddrs.setsockopt level optname optval)).map _
  | setNonBlocking id nonBlocking => exact (of_keeps h (KeepsAddrs.setNonBlocking nonBlocking)).map _
  | bind id addr => exact (StaysApart.bind h hc).map _
  | listen id backlogSize external check =>
      exact (of_keeps h (KeepsAddrs.listen backlogSize external check)).map _
  | accept id block => exact (of_keeps h (KeepsAddrs.accept block)).map _
  | connect id addr check known => exact (StaysApart.connect h hc check known).map _
  | sendTo id data destAddr check =>
      exact (of_keeps h (KeepsAddrs.sendTo data destAddr check)).map _
  | recvFrom id maxBytes flags => exact (of_keeps h (KeepsAddrs.recvFrom maxBytes flags)).map _
  | bindExternalUdp id check => exact (of_keeps h (KeepsAddrs.bindExternalUdp check)).map _
  | socketpair domain type protocol pid known =>
      exact (of_keeps h (KeepsAddrs.socketpair domain type protocol pid known)).map _
  | _ => exact hstream (HostRun.perform_streams ht rfl)

open StaysApart in
theorem Awaiting.resumed_apart (h : t.Apart served) {c : Awaiting} {ans : Answer}
    {p : Sock (List Awaiting)} (hp : c.resumed ans = some p) (hc : c.Spaced t served ans) :
    StaysApart served t p := by
  have hkeeps : ∀ {α : Type} {q : Sock α} {g : α → List Awaiting}, KeepsAddrs t q →
      StaysApart served t (g <$> q) := fun hq => (of_keeps h hq).map _
  have hstream : ∀ {α : Type} {q : Sock α} {g : α → List Awaiting}, Streams t q →
      StaysApart served t (g <$> q) := fun hq => hkeeps (SameAddrs.of_streams hq)
  have hstop : StaysApart served t (pure [] : Sock (List Awaiting)) := h
  cases c with
  | bindExists id addr =>
      cases ans with
      | pathExists yes known => cases hp; exact (StaysApart.bindChecked h hc yes).map _
      | failed => cases hp; exact hstop
      | _ => cases hp
  | connectExists id addr =>
      cases ans with
      | pathExists yes known => cases hp; exact hkeeps (.connectChecked addr yes known)
      | failed => cases hp; exact hstop
      | _ => cases hp
  | tcpListen id =>
      cases ans with
      | host host port known => cases hp; exact (StaysApart.tcpListening h hc host).map _
      | failed => cases hp; exact hstop
      | _ => cases hp
  | tcpConnect id addr =>
      cases ans with
      | host host port known => cases hp; exact hkeeps (.attachHost host addr)
      | failed => cases hp; exact hstop
      | _ => cases hp
  | backgroundConnect id addr =>
      cases ans with
      | host host port known => cases hp; exact hkeeps (.backgroundConnected host addr)
      | failed => cases hp; exact hkeeps .backgroundFailed
      | _ => cases hp
  | acceptPump id host =>
      cases ans with
      | host hostSocket port known => cases hp; exact hkeeps (.acceptPumped host hostSocket known)
      | failed => cases hp; exact hstop
      | _ => cases hp
  | readPump id host =>
      cases ans with
      | read r => cases hp; exact hkeeps (.readPumped host r)
      | _ => cases hp
  | hostWrite id =>
      cases ans with
      | failed => cases hp; exact hstream .hostWriteFailed
      | woken => cases hp; exact hstop
      | _ => cases hp
  | udpBind id =>
      cases ans with
      | host host port known => cases hp; exact hkeeps (.udpBound host)
      | failed => cases hp; exact hstop
      | _ => cases hp
  | udpPump id host =>
      cases ans with
      | datagram d => cases hp; exact hkeeps (.udpPumped host d)
      | failed => cases hp; exact hstop
      | _ => cases hp
  | accept id handle =>
      cases ans with
      | woken => cases hp; exact hkeeps (.acceptWoken handle)
      | signal restart number =>
          cases restart with
          | true => cases hp; exact hkeeps (.acceptWoken handle)
          | false => cases hp; exact hkeeps (.acceptInterrupted handle number)
      | _ => cases hp
  | recv id maxBytes flags handle =>
      cases ans with
      | woken => cases hp; exact hstream (.recvWoken maxBytes flags handle)
      | signal restart number =>
          cases restart with
          | true => cases hp; exact hstream (.recvWoken maxBytes flags handle)
          | false => cases hp; exact hstream (.recvInterrupted handle number)
      | _ => cases hp

/-- The system, and the sockets that were made for a connection. -/
structure PortRun where
  sys : SocketSys
  served : List Nat

namespace PortRun

def new (maxSockets : Nat) (vfs hostAdapter : Bool) : PortRun :=
  ⟨.new maxSockets vfs hostAdapter, []⟩

/-- The sockets that a step makes, but for those that a program asks for. -/
def serves (act : SocketAction) (t t' : SocketTable) : List Nat :=
  if (SocketSys.makesFor act).isSome then []
  else List.range' t.nextSocketId (t'.nextSocketId - t.nextSocketId)

def step (s : PortRun) (act : SocketAction) : Option PortRun :=
  (s.sys.step act).map fun sys => ⟨sys, s.served ++ serves act s.sys.table sys.table⟩

/-- The step gives no socket an address that another one holds. -/
def Spaced (s : PortRun) : SocketAction → Prop
  | .call c => c.Spaced s.sys.table (· ∈ s.served)
  | .resume i ans => ∀ c, s.sys.calls[i]? = some c → c.Spaced s.sys.table (· ∈ s.served) ans

variable {s s' : PortRun}

/-- A step that does not make a socket for a program. -/
theorem step_apart {act : SocketAction} (hok : s.sys.Ok)
    (h : s.sys.table.Distinct (· ∈ s.served)) (hc : s.Spaced act) {sys : SocketSys}
    (hs : s.sys.step act = some sys) :
    sys.table.Apart fun i => i ∈ s.served ∨ s.sys.table.nextSocketId ≤ i := by
  have happart : s.sys.table.Apart fun i => i ∈ s.served ∨ s.sys.table.nextSocketId ≤ i :=
    ⟨h.mono fun _ => .inl, fun _ => .inr⟩
  cases act with
  | call c =>
      cases hs
      exact state_of_wp (perform_apart happart hok.sound (hc.mono fun _ => .inl))
  | resume i ans =>
      simp only [SocketSys.step] at hs
      split at hs
      · cases hs
      · rename_i c hget
        split at hs
        · obtain ⟨p, hp, rfl⟩ := Option.map_eq_some_iff.mp hs
          exact state_of_wp
            (Awaiting.resumed_apart happart hp ((hc c hget).mono fun _ => .inl))
        · cases hs

/-- **One step.** -/
theorem distinct_step {act : SocketAction} (hok : s.sys.Ok)
    (h : s.sys.table.Distinct (· ∈ s.served)) (hc : s.Spaced act) (hs : s.step act = some s') :
    s'.sys.table.Distinct (· ∈ s'.served) := by
  obtain ⟨sys, hsys, rfl⟩ := Option.map_eq_some_iff.mp hs
  have hsound := (HostRun.ok_step hok hsys).sound
  have hmade : sys.table.Distinct (· ∈ s.served ++
      List.range' s.sys.table.nextSocketId (sys.table.nextSocketId - s.sys.table.nextSocketId)) := by
    refine (step_apart hok h hc hsys).distinct_made hsound fun i hi hlt => ?_
    rw [List.mem_append, List.mem_range'_1]
    exact hi.imp_right fun hle => by omega
  have hbare : ∀ {α : Type} {p : Sock α} {g : α → List Awaiting},
      p.Steps MadeBare s.sys.table → sys = s.sys.run s.sys.calls (g <$> p) →
      sys.table.Distinct (· ∈ s.served ++ serves act s.sys.table sys.table) := by
    intro α p g hp heq
    have hb : MadeBare s.sys.table sys.table := heq ▸ .of_steps (hp.map g).state
    exact (h.bare hb hsound).mono fun _ => List.mem_append_left _
  cases act with
  | resume i ans => exact hmade
  | call c =>
      cases c with
      | create domain type protocol pid known =>
          exact hbare (create_bare domain type protocol pid known) (Option.some.inj hsys).symm
      | socketpair domain type protocol pid known =>
          exact hbare (socketpair_bare domain type protocol pid known) (Option.some.inj hsys).symm
      | _ => exact hmade

/-- **A whole run.** -/
theorem distinct_run {maxSockets : Nat} {vfs hostAdapter : Bool}
    (r : Lts.Reach step Spaced (new maxSockets vfs hostAdapter) s) :
    s.sys.table.Distinct (· ∈ s.served) := by
  refine (r.invariant (I := fun u : PortRun => u.sys.Ok ∧ u.sys.table.Distinct (· ∈ u.served))
    ⟨.new maxSockets vfs hostAdapter, fun x host port hx => ?_⟩ fun u act u' hu hc hs => ?_).2
  · exact absurd hx (Bool.false_ne_true)
  · obtain ⟨sys, hsys, rfl⟩ := Option.map_eq_some_iff.mp hs
    exact ⟨HostRun.ok_step hu.1 hsys, distinct_step hu.1 hu.2 hc hs⟩

/-- **Ephemeral ports.**  In any table the port that is assigned to a socket is an ephemeral one that
no other socket has exactly when the look-up sees every holder, or finds a lower port.  In a run
whose steps give no socket an address that another one holds, the addresses are distinct, but for the
sockets that are made for a connection. -/
theorem ephemeral_ports_unique {maxSockets : Nat} {vfs hostAdapter : Bool}
    (r : Lts.Reach step Spaced (new maxSockets vfs hostAdapter) s) (t : SocketTable)
    (socketId : Nat) (host : String) :
    (t.AssignsAlone socketId host ↔ t.SeesHolders socketId host) ∧
      s.sys.table.Distinct (· ∈ s.served) :=
  ⟨assigns_alone_iff t socketId host, distinct_run r⟩

/-! ### Two sockets, bound and connected -/

/-- A socket, then another one. -/
def one : SocketSys :=
  (SocketSys.new 8 false false).run [] (perform (.create 2 SOCK_STREAM 0 7 true))

def two : SocketSys := one.run [] (perform (.create 2 SOCK_STREAM 0 7 true))

/-- The first is bound to port 0, then the second. -/
def bound : SocketSys := two.run [] (perform (.bind 1 (.inet "127.0.0.1" 0)))

def bothBound : SocketSys := bound.run [] (perform (.bind 2 (.inet "127.0.0.1" 0)))

theorem two_sees : two.table.SeesHolders 1 "127.0.0.1" := by
  intro z port hz hlive _ hholds
  obtain ⟨h, ha, -⟩ := hholds
  have hsockets : two.table.sockets = [1, 2] := by decide +kernel
  have hbare : (two.table.objs 2).localAddr = none := by decide +kernel
  rw [has_iff, hsockets] at hlive
  obtain rfl : z = 2 := by simpa [hz] using hlive
  rw [hbare] at ha
  cases ha

theorem bound_sees : bound.table.SeesHolders 2 "127.0.0.1" := by
  intro z port hz hlive _ hholds _ _
  obtain ⟨h, ha, -⟩ := hholds
  have hsockets : bound.table.sockets = [1, 2] := by decide +kernel
  have haddr : (bound.table.objs 1).localAddr = some (.inet "127.0.0.1" 49152) := by decide +kernel
  have htaken : bound.table.addrTaken (.inet "127.0.0.1" 49152) (bound.table.objs 2) = true := by
    decide +kernel
  rw [has_iff, hsockets] at hlive
  obtain rfl : z = 1 := by simpa [hz] using hlive
  rw [haddr] at ha
  cases ha
  exact .inl htaken

theorem bothBound_reach : Lts.Reach step Spaced (new 8 false false) ⟨bothBound, []⟩ := by
  have hone : step (new 8 false false) (.call (.create 2 SOCK_STREAM 0 7 true)) = some ⟨one, []⟩ :=
    rfl
  have htwo : step ⟨one, []⟩ (.call (.create 2 SOCK_STREAM 0 7 true)) = some ⟨two, []⟩ := rfl
  have hbound : step ⟨two, []⟩ (.call (.bind 1 (.inet "127.0.0.1" 0))) = some ⟨bound, []⟩ := by
    have hserves : serves (.call (.bind 1 (.inet "127.0.0.1" 0))) two.table bound.table = [] := by
      decide +kernel
    exact congrArg (fun l => some (PortRun.mk bound ([] ++ l))) hserves
  have hboth : step ⟨bound, []⟩ (.call (.bind 2 (.inet "127.0.0.1" 0))) =
      some ⟨bothBound, []⟩ := by
    have hserves : serves (.call (.bind 2 (.inet "127.0.0.1" 0))) bound.table bothBound.table =
        [] := by
      decide +kernel
    exact congrArg (fun l => some (PortRun.mk bothBound ([] ++ l))) hserves
  have hfirst : Spaced ⟨two, []⟩ (.call (.bind 1 (.inet "127.0.0.1" 0))) := two_sees
  have hsecond : Spaced ⟨bound, []⟩ (.call (.bind 2 (.inet "127.0.0.1" 0))) := bound_sees
  exact (((Lts.Reach.one trivial hone).next trivial htwo).next hfirst hbound).next hsecond hboth

theorem ephemeral_ports_unique_bound :
    bound.table.AssignsAlone 2 "127.0.0.1" ∧ bothBound.table.Distinct (· ∈ []) := by
  obtain ⟨halone, hdistinct⟩ :=
    ephemeral_ports_unique bothBound_reach bound.table 2 "127.0.0.1"
  exact ⟨halone.mpr bound_sees, hdistinct⟩

/-- Two clients of one listener. -/
def clients : List SocketAction :=
  [.call (.create 2 SOCK_STREAM 0 7 true), .call (.bind 1 (.inet "127.0.0.1" 8080)),
    .call (.listen 1 16 false (some ⟨true, none⟩)), .call (.create 2 SOCK_STREAM 0 7 true),
    .call (.create 2 SOCK_STREAM 0 7 true),
    .call (.connect 2 (.inet "127.0.0.1" 8080) (some ⟨true, none⟩) true)]

/-- The second client gets the port of the first one. -/
theorem ephemeral_ports_unique_fails : ∃ s s' : SocketSys,
    Lts.Reach SocketSys.step Lts.Any (.new 8 false false) s ∧
      ¬ s.table.AssignsAlone 3 "127.0.0.1" ∧
      s.step (.call (.connect 3 (.inet "127.0.0.1" 8080) (some ⟨true, none⟩) true)) = some s' ∧
      ∃ addr, (s'.table.objs 2).localAddr = some addr ∧ (s'.table.objs 3).localAddr = some addr ∧
        (s'.table.objs 2).state = .connected ∧ (s'.table.objs 3).state = .connected := by
  obtain ⟨s, hs, hlive, htype, haddr, htaken, hnext⟩ :=
    Lts.Reach.exists_of_exec SocketSys.step (.new 8 false false) clients (P := fun s =>
      s.table.has 2 = true ∧ (s.table.objs 2).type = (s.table.objs 3).type ∧
      (s.table.objs 2).localAddr = some (.inet "127.0.0.1" 49152) ∧
      s.table.addrTaken (.inet "127.0.0.1" 49152) (s.table.objs 3) = false ∧
      ((s.step (.call (.connect 3 (.inet "127.0.0.1" 8080) (some ⟨true, none⟩) true))).any fun s' =>
        (s'.table.objs 2).localAddr = some (.inet "127.0.0.1" 49152) ∧
        (s'.table.objs 3).localAddr = some (.inet "127.0.0.1" 49152) ∧
        (s'.table.objs 2).state = .connected ∧ (s'.table.objs 3).state = .connected) = true)
      (by decide +kernel)
  obtain ⟨s', hs', hv⟩ := (Option.any_eq_true _ _).mp hnext
  obtain ⟨hfirst, hsecond, hc₂, hc₃⟩ := of_decide_eq_true hv
  refine ⟨s, s', hs, fun halone => ?_, hs', _, hfirst, hsecond, hc₂, hc₃⟩
  have hexec := assign_exec s.table 3 "127.0.0.1"
  have hfind : (List.range' EPHEMERAL_PORT_MIN (EPHEMERAL_PORT_MAX - EPHEMERAL_PORT_MIN + 1)).find?
      (fun port => !s.table.addrTaken (.inet "127.0.0.1" port) (s.table.objs 3)) = some 49152 := by
    rw [List.find?_range'_eq_some]
    exact ⟨by rw [htaken]; rfl, mem_ports.mpr (by decide), fun q hq hlt =>
      absurd hlt (Nat.not_lt.mpr hq)⟩
  rw [hfind] at hexec
  obtain ⟨port, hp, -, -, hfree⟩ := halone _ _ hexec
  cases hp
  exact hfree 2 (by decide) hlive (by rw [SameTransport, htype]) ⟨_, haddr, .inl rfl⟩

end PortRun

end SecureExec.Socket
