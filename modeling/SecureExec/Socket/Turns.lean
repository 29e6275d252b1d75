import SecureExec.Socket.Effects

/-!
# Socket — Turns — the effects of every call

`Turns A t p pending`: the program `p` at the table `t` has effects only, whether it returns or
throws, and what it leaves waiting is about a socket that has been made.  There is a rule for each
kind of statement; with these the calls are gone through one by one, and `SocketSys.step_effects`
says it for a step.
-/

namespace SecureExec.Socket
open SecureExec Kernel SocketTable Prog

/-- A suspended call is about a socket that was made, and no wait where waits are excluded. -/
structure Awaiting.Fits (A : Asked) (t : SocketTable) (w : Awaiting) : Prop where
  made : w.socketId < t.nextSocketId
  noWait : A.waits → w.isWait = false

namespace SocketTable

variable {A : Asked} {α β : Type} {t t₁ : SocketTable} {pending : α → List Awaiting}

/-- The turn has effects only. -/
def Turns (A : Asked) (t : SocketTable) (p : Sock α) (pending : α → List Awaiting) : Prop :=
  p.wp t (fun a t' => Effects A t t' ∧ ∀ w ∈ pending a, w.Fits A t')
    fun _ t' => Effects A t t'

namespace Turns

/-! ### Rules -/

theorem throw (e : Failure) : Turns A t (throw e : Sock α) pending := .refl

theorem pure {a : α} (h : ∀ w ∈ pending a, w.Fits A t) :
    Turns A t (pure a : Sock α) pending := ⟨.refl, h⟩

/-- A result that leaves nothing waiting. -/
theorem ret (a : α) : Turns A t (Pure.pure a : Sock α) fun _ => [] :=
  pure fun _ hw => (List.not_mem_nil hw).elim

theorem done (a : α) : Turns A t (Pure.pure (.done a) : Sock (Turn α)) Turn.pending :=
  pure fun _ hw => (List.not_mem_nil hw).elim

variable {f : β → Sock α}

theorem read {g : SocketTable → β} (h : Turns A t (f (g t)) pending) :
    Turns A t (read g >>= f) pending := wp_bind.mpr h

/-- A turn that goes on behind effects. -/
theorem after {p : Sock α} (he : Effects A t t₁) (h : Turns A t₁ p pending) :
    p.wp t₁ (fun a t' => Effects A t t' ∧ ∀ w ∈ pending a, w.Fits A t')
      fun _ t' => Effects A t t' :=
  wp_mono h (fun _ _ hq => ⟨he.trans hq.1, hq.2⟩) fun _ _ hE => he.trans hE

variable {u : SocketTable → SocketTable}

theorem update {f : PUnit → Sock α} (he : Effects A t (u t))
    (h : Turns A (u t) (f ⟨⟩) pending) : Turns A t (update u >>= f) pending :=
  wp_bind.mpr (after he h)

/-- The last statement. -/
theorem last (he : Effects A t (u t)) :
    Turns A t (Prog.update u : Sock PUnit) fun _ => [] :=
  ⟨he, fun _ hw => (List.not_mem_nil hw).elim⟩

theorem bind {p : Sock β} (hp : Turns A t p fun _ => [])
    (hf : ∀ b t₁, Effects A t t₁ → Turns A t₁ (f b) pending) :
    Turns A t (p >>= f) pending :=
  wp_bind.mpr (wp_mono hp (fun b t₁ hq => after hq.1 (hf b t₁ hq.1)) fun _ _ hE => hE)

theorem map {p : Sock β} {g : β → α} (h : Turns A t p fun b => pending (g b)) :
    Turns A t (g <$> p) pending := wp_map.mpr h

theorem lift {x : Except Failure β}
    (h : ∀ b, x = .ok b → Turns A t (f b) pending) :
    Turns A t (lift x >>= f) pending :=
  wp_bind.mpr (wp_lift_of h fun _ _ => .refl)

theorem require {socketId : Nat} {f : KernelSocket → Sock α}
    (h : t.has socketId = true → Turns A t (f (t.objs socketId)) pending) :
    Turns A t (requireSocket socketId >>= f) pending :=
  wp_bind.mpr (wp_requireSocket h fun _ => .refl)

/-- A socket is made for the process, or beside a socket of it. -/
theorem make {domain type protocol pid : Nat} {known : Bool} {f : Nat → Sock α}
    (hm : A.makes pid ∨ (A.hosts → ∃ l, t.has l = true ∧ (t.objs l).pid = pid))
    (h : Turns A (t.add (.new domain type protocol pid)) (f t.nextSocketId) pending) :
    Turns A t (create domain type protocol pid known >>= f) pending :=
  wp_bind.mpr (wp_create (fun _ _ => after (.single (.add _ (.new ..) hm)) h) fun _ => .refl)

theorem change {f : PUnit → Sock α} (hc : Change A t (u t))
    (h : Turns A (u t) (f ⟨⟩) pending) : Turns A t (Prog.update u >>= f) pending :=
  update (.single (.change hc)) h

theorem changeLast (hc : Change A t (u t)) :
    Turns A t (Prog.update u : Sock PUnit) fun _ => [] := last (.single (.change hc))

variable {c : Awaiting}

/-- What a call waits for is about its socket. -/
theorem waits (h : c.Fits A t) :
    Turns A t (Pure.pure (.waits c) : Sock (Turn α)) Turn.pending :=
  pure fun w hw => by rwa [List.mem_singleton.mp hw]

theorem spawns {a : α} (h : c.Fits A t) :
    Turns A t (Pure.pure (.spawns a c) : Sock (Turn α)) Turn.pending :=
  pure fun w hw => by rwa [List.mem_singleton.mp hw]

theorem rejected {e : Failure} (h : c.Fits A t) :
    Turns A t (Pure.pure (.rejected e c) : Sock (Turn α)) Turn.pending :=
  pure fun w hw => by rwa [List.mem_singleton.mp hw]

/-! ### Calls that neither link nor register -/

variable {socketId : Nat}

theorem setsockopt (level optname : Nat) (optval : Int) :
    Turns A t (setsockopt socketId level optname optval) fun _ => [] :=
  require fun _ => changeLast (.plain socketId rfl)

theorem setNonBlocking (nonBlocking : Bool) :
    Turns A t (setNonBlocking socketId nonBlocking) fun _ => [] :=
  require fun _ => changeLast (.plain socketId rfl)

theorem shiftBacklog : Turns A t (shiftBacklog socketId) fun _ => [] := by
  refine read ?_
  split
  · exact ret _
  · rename_i connId rest hb
    exact change (.shift socketId connId rest hb) (ret _)

theorem acceptBlocking (hw : ¬ A.waits) (hid : socketId < t.nextSocketId) :
    Turns A t (acceptBlocking socketId) Turn.pending := by
  refine bind shiftBacklog fun b t₁ he => ?_
  cases b with
  | some connId => exact done _
  | none =>
      refine read (change (.enqueueAccepter socketId hw) (waits ⟨?_, fun h => absurd h hw⟩))
      exact Nat.lt_of_lt_of_le hid he.next_le

theorem accept (ht : Sound t) {block : Bool} (hw : A.waits → block = false) :
    Turns A t (accept socketId block) Turn.pending := by
  refine require fun hlive => ?_
  split
  · exact throw _
  · split
    · exact throw _
    · split
      · rename_i hblock
        refine acceptBlocking (fun h => ?_) (ht.below socketId hlive)
        rw [hw h] at hblock
        cases hblock
      · exact bind shiftBacklog fun b _ _ => done b

theorem acceptWoken (hw : ¬ A.waits) (hid : socketId < t.nextSocketId) (handle : Nat) :
    Turns A t (acceptWoken socketId handle) Turn.pending := by
  refine change (.dropAccepter socketId handle hw) (read ?_)
  split
  · exact throw _
  · exact acceptBlocking hw hid

theorem acceptInterrupted (hw : ¬ A.waits) (handle : Nat) (signal : Option Nat) :
    Turns A t (acceptInterrupted socketId handle signal) Turn.pending :=
  change (.dropAccepter socketId handle hw) (throw _)

theorem shutdown (how : ShutdownHow) :
    Turns A t (shutdown socketId how) fun _ => [] := by
  refine require fun hlive => ?_
  split
  · exact changeLast (.shutdown socketId how hlive (by assumption))
  · exact throw _

theorem sendToPeer (hlive : t.has socketId = true) (data : ByteArray8) (flags : Flags) :
    Turns A t (sendToPeer socketId data flags) fun _ => [] := by
  refine read ?_
  split
  · exact throw _
  · rename_i peer hp
    split
    · split
      · exact throw _
      · exact change (.deliver peer data) (ret _)
    · rename_i hgone
      exact update (.single (.unlink socketId peer hlive hp (Bool.eq_false_iff.mpr hgone))) (throw _)

theorem send (ht : Sound t) (data : ByteArray8) (flags : Flags) (check : Option NetworkDecision) :
    Turns A t (SocketTable.send socketId data flags check) Turn.pending := by
  refine require fun hlive => ?_
  have hpeer : Turns A t (SocketTable.sendToPeer socketId data flags >>= fun n =>
      Pure.pure (.done n)) Turn.pending := bind (sendToPeer hlive data flags) fun n _ _ => done n
  split
  · exact throw _
  · split
    · exact throw _
    · split
      · refine lift fun _ _ => ?_
        split
        · exact spawns ⟨ht.below socketId hlive, fun _ => rfl⟩
        · exact hpeer
      · exact hpeer

theorem hostWriteFailed (hw : A.waits → t.Unattended socketId) :
    Turns A t (hostWriteFailed socketId) Turn.pending :=
  change (.writeFailed socketId hw) (done _)

theorem recvNow (maxBytes : Nat) (flags : Flags) :
    Turns A t (recvNow socketId maxBytes flags) fun _ => [] := by
  have hnone : ∀ r : Option ByteArray8, Turns A t (Pure.pure r : Sock (Option ByteArray8))
      fun _ => [] := fun _ => pure fun _ hw => (List.not_mem_nil hw).elim
  refine require fun _ => ?_
  split
  · exact hnone none
  · split
    · exact throw _
    · split
      · split
        · exact hnone _
        · refine bind (read (change (.consume socketId _ (length_consumeChunks_left ..)) ?_))
            fun b _ _ => ?_
          · exact ret _
          · exact ret _
      · refine read ?_
        split
        · exact hnone none
        · split
          · exact throw _
          · split
            · exact throw _
            · exact hnone none

theorem recvBlocking (hw : ¬ A.waits) (hid : socketId < t.nextSocketId) (maxBytes : Nat) (flags : Flags) :
    Turns A t (recvBlocking socketId maxBytes flags) Turn.pending := by
  refine bind (recvNow maxBytes flags) fun b t₁ he => ?_
  cases b with
  | some data => exact done _
  | none =>
      refine read ?_
      split
      · exact change (.enqueueReader socketId hw) (waits ⟨Nat.lt_of_lt_of_le hid he.next_le, fun h => absurd h hw⟩)
      · exact done _

theorem recv (ht : Sound t) (maxBytes : Nat) (flags : Flags) {block : Bool}
    (hw : A.waits → block = false) :
    Turns A t (recv socketId maxBytes flags block) Turn.pending := by
  refine read ?_
  by_cases hlive : t.has socketId = true
  · refine bind (recvNow maxBytes flags) fun result t₁ he => ?_
    split
    · rename_i hblock
      refine recvBlocking (fun h => ?_) (Nat.lt_of_lt_of_le (ht.below socketId hlive) he.next_le)
        maxBytes flags
      rw [hw h] at hblock
      cases hblock
    · exact done _
  · refine wp_bind.mpr (wp_bind.mpr ?_)
    exact wp_requireSocket (fun h => absurd h hlive) fun _ => .refl

theorem recvWoken (hw : ¬ A.waits) (hid : socketId < t.nextSocketId) (maxBytes : Nat)
    (flags : Flags) (handle : Nat) :
    Turns A t (recvWoken socketId maxBytes flags handle) Turn.pending := by
  refine change (.dropReader socketId handle hw) (recvBlocking hw ?_ maxBytes flags)
  exact hid

theorem recvInterrupted (hw : ¬ A.waits) (handle : Nat) (signal : Option Nat) :
    Turns A t (recvInterrupted socketId handle signal) Turn.pending :=
  change (.dropReader socketId handle hw) (throw _)

theorem close (ht : Sound t) (pid : Nat) :
    Turns A t (close socketId pid) fun _ => [] := by
  refine require fun hlive => ?_
  split
  · exact throw _
  · exact last (destroySocket_effects ht hlive)

theorem attachHost (hid : socketId < t.nextSocketId) (host : Nat) (addr : SockAddr)
    (hh : A.hosts → t.has socketId = true ∧ (t.objs socketId).hostSocket = none)
    (hw : A.waits → t.Unattended socketId) :
    Turns A t (attachHost socketId host addr) Turn.pending :=
  change (.attach socketId host addr hh hw) (spawns ⟨hid, fun _ => rfl⟩)

theorem backgroundConnected (hid : socketId < t.nextSocketId) (host : Nat) (addr : SockAddr)
    (hh : A.hosts → t.backgroundAllowed socketId = true)
    (hw : A.waits → t.Unattended socketId) :
    Turns A t (backgroundConnected socketId host addr) Turn.pending := by
  refine read ?_
  split
  · rename_i hc
    obtain ⟨hlive, -⟩ := Bool.and_eq_true_iff.mp hc
    exact attachHost hid host addr (fun h => ⟨hlive, backgroundAllowed_spec (hh h) hc⟩) hw
  · exact change (.hostClosed host) (done _)

theorem backgroundFailed (hh : A.hosts → t.backgroundAllowed socketId = true)
    (hw : A.waits → t.Unattended socketId) :
    Turns A t (backgroundFailed socketId) Turn.pending := by
  refine read ?_
  split
  · rename_i hc
    obtain ⟨hlive, -⟩ := Bool.and_eq_true_iff.mp hc
    exact change (.connectFailed socketId hlive (fun h => backgroundAllowed_spec (hh h) hc) hw)
      (done _)
  · exact done _

theorem readPumped (hid : socketId < t.nextSocketId) (host : Nat) (r : HostRead) :
    Turns A t (readPumped socketId host r) Turn.pending := by
  cases r with
  | data b =>
      refine change (.deliver socketId b) (read ?_)
      split
      · exact spawns ⟨hid, fun _ => rfl⟩
      · exact done _
  | eof => exact change (.eof socketId) (done _)
  | failed =>
      refine update ?_ (done _)
      split
      · exact .refl
      · exact .single (.change (.eof socketId))

/-- Both parts of the accept pump's turn. -/
def pumpPending (r : Turn Unit × Turn Unit) : List Awaiting := r.1.pending ++ r.2.pending

theorem pumpOn (hid : socketId < t.nextSocketId) (host : Nat) {c : Turn Unit}
    (hc : ∀ w ∈ c.pending, w.Fits A t) :
    Turns A t (pumpOn socketId host >>= fun r => Pure.pure (r, c)) pumpPending := by
  refine wp_bind.mpr (wp_bind.mpr (wp_read _ |>.mpr ?_))
  split
  · refine ⟨.refl, fun w hw => ?_⟩
    rcases List.mem_append.mp hw with h | h
    · rw [List.mem_singleton.mp h]
      exact ⟨hid, fun _ => rfl⟩
    · exact hc w h
  · refine ⟨.refl, fun w hw => hc w ?_⟩
    exact (List.mem_append.mp hw).resolve_left List.not_mem_nil

theorem acceptPumped (hid : socketId < t.nextSocketId) (host hostSocket : Nat) (known : Bool)
    (hh : A.hosts → t.has socketId = true) :
    Turns A t (acceptPumped socketId host hostSocket known) pumpPending := by
  refine read ?_
  split
  · refine change (.hostClosed hostSocket) (pumpOn ?_ host fun _ hw => ?_)
    · exact hid
    · exact (List.not_mem_nil hw).elim
  · refine Prog.wp_bind.mpr (wp_create (fun _ _ => ?_) fun _ => .refl)
    -- the new socket is set up as it is added, then queued
    let conn : KernelSocket := { KernelSocket.new (t.objs socketId).domain (t.objs socketId).type
        (t.objs socketId).protocol (t.objs socketId).pid with
      state := .connected, external := true, hostSocket := some hostSocket,
      localAddr := (t.objs socketId).localAddr }
    have hadd : (t.add (.new (t.objs socketId).domain (t.objs socketId).type
        (t.objs socketId).protocol (t.objs socketId).pid)).modify t.nextSocketId
        (fun s => { s with
          state := .connected, external := true, hostSocket := some hostSocket,
          localAddr := ((t.add (.new (t.objs socketId).domain (t.objs socketId).type
            (t.objs socketId).protocol (t.objs socketId).pid)).objs socketId).localAddr }) =
        t.add conn := by
      rw [add_objs_of_ne t (Nat.ne_of_lt hid)]
      simp [add, modify, conn]
    have he : Effect A t (t.add conn) :=
      .add conn ⟨.inr rfl, rfl, rfl, rfl, rfl⟩ (.inr fun h => ⟨socketId, hh h, rfl⟩)
    refine Prog.wp_bind.mpr ?_
    rw [Prog.wp_update, hadd]
    refine after (.single he) (update ?_ ?_)
    · refine .single (.queue socketId t.nextSocketId hid ?_)
      rw [has_iff]
      exact List.mem_append_right _ (List.mem_singleton_self _)
    · refine pumpOn (Nat.lt_succ_of_lt hid) host fun w hw => ?_
      rw [List.mem_singleton.mp hw]
      exact ⟨Nat.lt_succ_self _, fun _ => rfl⟩

/-! ### Datagrams -/

theorem pushDatagram (t : SocketTable) (target : Nat) (d : UdpDatagram) :
    Effects A t (t.pushDatagram target d) :=
  Relation.ReflTransGen.tail (.single (.change (.plain target rfl))) (.change (.wakeReader target))

theorem sendTo (data : ByteArray8) (destAddr : SockAddr) (check : Option NetworkDecision) :
    Turns A t (sendTo socketId data destAddr check) fun _ => [] := by
  have hnone : Turns A t (Pure.pure data.length : Sock Nat) fun _ => [] :=
    pure fun _ hw => (List.not_mem_nil hw).elim
  refine require fun _ => ?_
  split
  · exact throw _
  · split
    · exact throw _
    · refine read ?_
      split
      · split
        · exact hnone
        · exact update (pushDatagram t _ _) (ret _)
      · split
        · exact lift fun _ _ => hnone
        · exact hnone

theorem recvFrom (maxBytes : Nat) (flags : Flags) :
    Turns A t (recvFrom socketId maxBytes flags) fun _ => [] := by
  have hnone : ∀ r : Option UdpDatagram, Turns A t (Pure.pure r : Sock (Option UdpDatagram))
      fun _ => [] := fun _ => pure fun _ hw => (List.not_mem_nil hw).elim
  refine require fun _ => ?_
  split
  · exact throw _
  · split
    · split
      · exact hnone _
      · exact change (.plain socketId rfl) (ret _)
    · split
      · exact throw _
      · exact hnone none

theorem bindExternalUdp (ht : Sound t) (check : Option NetworkDecision) :
    Turns A t (bindExternalUdp socketId check) Turn.pending := by
  refine require fun hlive => ?_
  split
  · exact throw _
  · split
    · exact throw _
    · refine read ?_
      split
      · exact lift fun _ _ => waits ⟨ht.below socketId hlive, fun _ => rfl⟩
      · exact throw _

theorem udpBound (hid : socketId < t.nextSocketId) (host : Nat)
    (hh : A.hosts → t.has socketId = true ∧ (t.objs socketId).hostUdpSocket = none) :
    Turns A t (udpBound socketId host) Turn.pending :=
  change (.hostUdp socketId host hh) (spawns ⟨hid, fun _ => rfl⟩)

theorem udpPumped (hid : socketId < t.nextSocketId) (host : Nat) (d : UdpDatagram) :
    Turns A t (udpPumped socketId host d) Turn.pending := by
  have he : Effects A t (if (t.objs socketId).datagramQueue.length < MAX_UDP_QUEUE_DEPTH
      then t.pushDatagram socketId d else t) := by
    split
    · exact pushDatagram t socketId d
    · exact .refl
  have hrest : ∀ t₁, Effects A t t₁ → Turns A t₁
      (Prog.read (·.udpPumpOn socketId host) >>= fun on =>
        if on = true then Pure.pure (.spawns () (.udpPump socketId host)) else Pure.pure (.done ()))
      Turn.pending := by
    intro t₁ he
    refine read ?_
    split
    · exact spawns (c := .udpPump socketId host) ⟨Nat.lt_of_lt_of_le hid he.next_le, fun _ => rfl⟩
    · exact done _
  exact update he (hrest _ he)

end Turns

/-! ### The checks of the calls -/

/-- A path is looked up first. -/
def suspends (t : SocketTable) : SockAddr → Bool
  | .unix _ => t.vfs
  | .inet _ _ => false

/-- A connection to the address would be linked: a listener is there with room in its queue, and
the server's socket can be made. -/
def linkable (t : SocketTable) (addr : SockAddr) (known : Bool) : Bool :=
  match t.findListener addr with
  | none => false
  | some l =>
    decide ((t.objs l).backlog.length < (t.objs l).backlogLimit) &&
      decide (t.sockets.length < t.maxSockets) && known

/-- A connection that would be linked finds its socket there and without a peer. -/
def routeAllowed (t : SocketTable) (id : Nat) (addr : SockAddr) (known : Bool) : Bool :=
  !t.linkable addr known || t.freeToLink id

/-- The check of `connect`. -/
def connectAllowed (t : SocketTable) (id : Nat) (addr : SockAddr) (known : Bool) : Bool :=
  !t.has id || !((t.objs id).state == .created || (t.objs id).state == .bound) ||
    t.suspends addr || t.routeAllowed id addr known

/-- An address that would be registered may be. -/
def registerAllowed (t : SocketTable) (id : Nat) (addr : SockAddr) : Bool :=
  t.addrTaken addr (t.objs id) || t.mayRegister id addr

/-- The check of `bind`: for the address with the port that is assigned. -/
def bindAllowed (t : SocketTable) (id : Nat) (addr : SockAddr) : Bool :=
  match (assignEphemeralPort addr id).exec t with
  | (.ok boundAddr, t₁) =>
    !t.has id || (t.objs id).state != .created || t₁.suspends boundAddr ||
      t₁.registerAllowed id boundAddr
  | (.error _, _) => true

/-- No entry is left behind by an address that would be registered. -/
def registersOnce (t : SocketTable) (id : Nat) (addr : SockAddr) : Bool :=
  t.addrTaken addr (t.objs id) || t.boundOnce id addr

/-- The same for `bind`. -/
def bindsOnce (t : SocketTable) (id : Nat) (addr : SockAddr) : Bool :=
  match (assignEphemeralPort addr id).exec t with
  | (.ok boundAddr, t₁) =>
    !t.has id || (t.objs id).state != .created || t₁.suspends boundAddr ||
      t₁.registersOnce id boundAddr
  | (.error _, _) => true

/-- The check of `listen`, for a call that gets to it. -/
def listenAllowed (t : SocketTable) (id : Nat) (external : Bool) (check : Option NetworkDecision) :
    Bool :=
  !t.has id || (t.objs id).state != .bound ||
    match (t.objs id).localAddr with
    | some (.inet _ _) =>
      match checkNetworkPermission "listen" check with
      | .error _ => true
      | .ok _ => (external && t.hostAdapter) || t.mayListen id
    | _ => t.mayListen id

/-- The check of an external `listen` that goes on. -/
def tcpListenAllowed (t : SocketTable) (id port : Nat) : Bool :=
  let s := t.objs id
  if s.requestedEphemeralPort || s.localAddr == some (.inet (hostOf s.localAddr) 0) then
    t.mayRekey id port
  else t.mayListen id

/-- No datagram entry is left behind where the host's port becomes the socket's. -/
def tcpListensOnce (t : SocketTable) (id : Nat) : Bool :=
  let s := t.objs id
  if s.requestedEphemeralPort || s.localAddr == some (.inet (hostOf s.localAddr) 0) then
    t.movedOnce id
  else true

/-! The checks do not see a change of one object in something else. -/

section
variable {i id : Nat} {g : KernelSocket → KernelSocket}

section

variable (ha : (g (t.objs i)).localAddr = (t.objs i).localAddr)
include ha

theorem registered_modify : (t.modify i g).registered id = t.registered id := by
  unfold registered
  rw [modify_field t i id (·.localAddr) ha]
  rfl

theorem mayListen_modify : (t.modify i g).mayListen id = t.mayListen id := by
  unfold mayListen
  rw [registered_modify ha]
  rfl

omit ha in
theorem vacant_modify (hs : (g (t.objs i)).state = (t.objs i).state) (key : String) :
    (t.modify i g).vacant id key = t.vacant id key := by
  have hstate : ∀ holder, ((t.modify i g).objs holder).state = (t.objs holder).state :=
    fun holder => modify_field t i holder (·.state) hs
  unfold vacant
  simp only [hstate]
  rfl

theorem mayRekey_modify (hs : (g (t.objs i)).state = (t.objs i).state) (port : Nat) :
    (t.modify i g).mayRekey id port = t.mayRekey id port := by
  unfold mayRekey
  rw [registered_modify ha, vacant_modify hs, modify_field t i id (·.localAddr) ha]
  rfl

theorem movedOnce_modify : (t.modify i g).movedOnce id = t.movedOnce id := by
  unfold movedOnce
  rw [modify_field t i id (·.localAddr) ha]
  rfl

end

theorem freeToLink_modify (hg : (g (t.objs i)).peerId = (t.objs i).peerId) :
    (t.modify i g).freeToLink id = t.freeToLink id := by
  unfold freeToLink
  rw [modify_field t i id (·.peerId) hg]
  rfl

theorem findListener_modify (hs : (g (t.objs i)).state = (t.objs i).state) (addr : SockAddr) :
    (t.modify i g).findListener addr = t.findListener addr := by
  have hkey : ∀ key, (t.modify i g).getListeningSocket key = t.getListeningSocket key := by
    intro key
    have hstate : ∀ x, ((t.modify i g).objs x).state = (t.objs x).state :=
      fun x => modify_field t i x (·.state) hs
    unfold getListeningSocket
    simp only [hstate]
    rfl
  unfold findListener
  simp only [hkey]

theorem routeAllowed_modify (hs : (g (t.objs i)).state = (t.objs i).state)
    (hp : (g (t.objs i)).peerId = (t.objs i).peerId)
    (hb : ((g (t.objs i)).backlog, (g (t.objs i)).backlogLimit) =
      ((t.objs i).backlog, (t.objs i).backlogLimit)) (addr : SockAddr) (known : Bool) :
    (t.modify i g).routeAllowed id addr known = t.routeAllowed id addr known := by
  have hqueue : ∀ x, ((t.modify i g).objs x).backlog = (t.objs x).backlog ∧
      ((t.modify i g).objs x).backlogLimit = (t.objs x).backlogLimit := fun x =>
    Prod.mk.inj (modify_field t i x (fun s => (s.backlog, s.backlogLimit)) hb)
  unfold routeAllowed linkable
  rw [freeToLink_modify hp, findListener_modify hs]
  simp only [fun x => (hqueue x).1, fun x => (hqueue x).2]
  rfl

end

theorem has_of_getListeningSocket {key : String} {id : Nat}
    (h : t.getListeningSocket key = some id) : t.has id = true := by
  unfold getListeningSocket at h
  split at h
  · cases h
  · split at h
    · rename_i hc
      cases h
      exact (Bool.and_eq_true_iff.mp hc).1
    · cases h

/-- A listener that was found is in the table. -/
theorem has_of_findListener {addr : SockAddr} {id : Nat} (h : t.findListener addr = some id) :
    t.has id = true := by
  unfold findListener at h
  cases addr with
  | unix path => exact has_of_getListeningSocket h
  | inet host port =>
      rcases Option.or_eq_some_iff.mp h with h | ⟨-, h⟩
      · rcases Option.or_eq_some_iff.mp h with h | ⟨-, h⟩
        · exact has_of_getListeningSocket h
        · exact has_of_getListeningSocket h
      · exact has_of_getListeningSocket h

/-- A new socket has no peer. -/
theorem freeToLink_add_self (t : SocketTable) (domain type protocol pid : Nat) :
    (t.add (.new domain type protocol pid)).freeToLink t.nextSocketId = true := by
  unfold freeToLink
  rw [add_objs_self, has, add]
  simp [KernelSocket.new]

theorem freeToLink_add {id : Nat} (h : t.freeToLink id = true) (hid : id ≠ t.nextSocketId)
    (s : KernelSocket) : (t.add s).freeToLink id = true := by
  unfold freeToLink at h ⊢
  rw [add_objs_of_ne t hid]
  obtain ⟨hlive, hpeer⟩ := Bool.and_eq_true_iff.mp h
  refine Bool.and_eq_true_iff.mpr ⟨?_, hpeer⟩
  rw [has_iff] at hlive ⊢
  exact List.mem_append_left _ hlive

/-- An address that has moved has its entry. -/
theorem registered_rekey (t : SocketTable) (id port : Nat) :
    (t.rekey id port).registered id = true := by
  unfold registered
  rw [rekey_objs, modify_objs_self]
  simp [rekey]

namespace Turns

variable {socketId : Nat}

/-! ### Addresses -/

variable {addr : SockAddr}

theorem registerAddr (hid : socketId < t.nextSocketId)
    (h : A.addrs → t.registerAllowed socketId addr = true)
    (ho : A.once → t.registersOnce socketId addr = true)
    (hh : A.hosts → t.has socketId = true) (hw : A.waits → t.Unattended socketId) :
    Turns A t (registerAddr socketId addr) fun _ => [] := by
  refine read ?_
  split
  · exact throw _
  · rename_i htaken
    refine last (.single (.register socketId addr hid (fun hR => ?_) (fun hO => ?_) hh hw))
    · exact (Bool.or_eq_true_iff.mp (h hR)).resolve_left htaken
    · exact (Bool.or_eq_true_iff.mp (ho hO)).resolve_left htaken

theorem bindChecked {pathExists : Bool} (hid : socketId < t.nextSocketId)
    (h : A.addrs → pathExists = false → t.registerAllowed socketId addr = true)
    (ho : A.once → pathExists = false → t.registersOnce socketId addr = true)
    (hh : A.hosts → pathExists = false → t.has socketId = true)
    (hw : A.waits → pathExists = false → t.Unattended socketId) :
    Turns A t (bindChecked socketId addr pathExists) fun _ => [] := by
  cases pathExists with
  | true => exact throw _
  | false =>
      exact registerAddr hid (fun hR => h hR rfl) (fun hO => ho hO rfl) (fun hH => hh hH rfl)
        fun hW => hw hW rfl

theorem assign {f : SockAddr → Sock α}
    (h : ∀ a t₁ v, (assignEphemeralPort addr socketId).exec t = (.ok a, t₁) →
      t₁ = t.modify socketId ({ · with requestedEphemeralPort := v }) →
      Turns A t₁ (f a) pending) :
    Turns A t (assignEphemeralPort addr socketId >>= f) pending := by
  have hplain : ∀ v, Effect A t (t.modify socketId ({ · with requestedEphemeralPort := v })) :=
    fun _ => .change (.plain socketId rfl)
  refine wp_bind.mpr (wp_assignEphemeralPort_exec (fun a v he => ?_) fun e v => ?_)
  · exact after (.single (hplain v)) (h a _ v he rfl)
  · exact .single (hplain v)

theorem bindAddr (ht : Sound t) (h : A.addrs → t.bindAllowed socketId addr = true)
    (ho : A.once → t.bindsOnce socketId addr = true) :
    Turns A t (SocketTable.bind socketId addr) Turn.pending := by
  refine require fun hlive => ?_
  split
  · exact throw _
  · rename_i hstate
    refine assign fun a t₁ v he ht₁ => read ?_
    have hreg : t₁.suspends a = false → A.addrs → t₁.registerAllowed socketId a = true := by
      intro hs hR
      have hc := h hR
      rw [bindAllowed, he] at hc
      simpa [hlive, not_not.mp hstate, hs] using hc
    have honce : t₁.suspends a = false → A.once → t₁.registersOnce socketId a = true := by
      intro hs hO
      have hc := ho hO
      rw [bindsOnce, he] at hc
      simpa [hlive, not_not.mp hstate, hs] using hc
    have hid : socketId < t₁.nextSocketId := ht₁ ▸ ht.below socketId hlive
    have hregister : t₁.suspends a = false →
        Turns A t₁ (SocketTable.registerAddr socketId a >>= fun u => Pure.pure (.done u))
          Turn.pending := by
      intro hs
      refine bind (registerAddr hid (hreg hs) (honce hs) (fun _ => ht₁ ▸ hlive) fun _ => ?_)
        fun u _ _ => done u
      refine .of_ne ?_
      rw [ht₁, modify_objs_self, not_not.mp hstate]
      simp
    cases a with
    | inet host port => exact hregister rfl
    | unix path =>
        cases hv : t₁.vfs with
        | false => exact hregister hv
        | true => exact waits ⟨hid, fun _ => rfl⟩

theorem listening {u : SocketTable → SocketTable} {f : PUnit → Sock α}
    (hu : u t = t.setState socketId .listening) (h : A.addrs → t.mayListen socketId = true)
    (hh : A.hosts ∨ A.waits → t.has socketId = true) (hf : Turns A (u t) (f ⟨⟩) pending) :
    Turns A t (Prog.update u >>= f) pending :=
  update (hu ▸ .single (.listen socketId h hh)) hf

theorem listen (ht : Sound t) {backlogSize : Int} {external : Bool}
    {check : Option NetworkDecision} (h : A.addrs → t.listenAllowed socketId external check = true) :
    Turns A t (listen socketId backlogSize external check) Turn.pending := by
  refine require fun hlive => ?_
  split
  · exact throw _
  · rename_i hstate
    -- what the check says of a bound socket
    have hc : A.addrs → (match (t.objs socketId).localAddr with
        | some (.inet _ _) =>
          match checkNetworkPermission "listen" check with
          | .error _ => true
          | .ok _ => (external && t.hostAdapter) || t.mayListen socketId
        | _ => t.mayListen socketId) = true := by
      intro hR
      have hc := h hR
      rw [listenAllowed] at hc
      simpa [hlive, not_not.mp hstate] using hc
    have hlisten : (A.addrs → t.mayListen socketId = true) →
        Turns A (t.modify socketId ({ · with backlogLimit := backlogSize.toNat }))
          (Prog.update (fun t => t.modify socketId ({ · with state := .listening })) >>= fun u =>
            Pure.pure (.done u)) Turn.pending := fun hm =>
      listening rfl (fun hR => (mayListen_modify rfl).trans (hm hR)) (fun _ => hlive) (done _)
    refine change (.plain socketId rfl) ?_
    cases ha : (t.objs socketId).localAddr with
    | none =>
        rw [ha] at hc
        exact hlisten hc
    | some addr =>
        rw [ha] at hc
        cases addr with
        | unix path => exact hlisten hc
        | inet host port =>
            refine lift fun _ hok => read ?_
            simp only [hok] at hc
            split
            · exact waits ⟨ht.below socketId hlive, fun _ => rfl⟩
            · rename_i hnot
              exact hlisten fun hR => (Bool.or_eq_true_iff.mp (hc hR)).resolve_left hnot

theorem tcpListening (hid : socketId < t.nextSocketId) {host port : Nat}
    (h : A.addrs → t.tcpListenAllowed socketId port = true)
    (ho : A.once → t.tcpListensOnce socketId = true)
    (hh : A.hosts → t.has socketId = true ∧ (t.objs socketId).hostListener = none)
    (hw : A.waits → t.has socketId = true) :
    Turns A t (tcpListening socketId host port) Turn.pending := by
  refine change (.hostListening socketId host hh) (read ?_)
  have hc : A.addrs → (if (t.objs socketId).requestedEphemeralPort ||
      (t.objs socketId).localAddr == some (.inet (hostOf (t.objs socketId).localAddr) 0)
      then t.mayRekey socketId port else t.mayListen socketId) = true := h
  have hlive : A.hosts ∨ A.waits → t.has socketId = true := fun h => h.elim (fun hH => (hh hH).1) hw
  have hm : A.once → (if (t.objs socketId).requestedEphemeralPort ||
      (t.objs socketId).localAddr == some (.inet (hostOf (t.objs socketId).localAddr) 0)
      then t.movedOnce socketId else true) = true := ho
  rw [modify_objs_self]
  split
  · rename_i heph
    rw [if_pos heph] at hc hm
    refine update (Relation.ReflTransGen.tail
      (.single (.rekey socketId port hid (fun hR => ?_) fun hO => ?_))
      (.listen socketId (fun _ => ?_) hlive)) (spawns ⟨hid, fun _ => rfl⟩)
    · exact (mayRekey_modify rfl rfl port).trans (hc hR)
    · exact (movedOnce_modify rfl).trans (hm hO)
    · exact Bool.or_eq_true_iff.mpr (.inr (registered_rekey ..))
  · rename_i heph
    rw [if_neg heph] at hc
    exact listening rfl (fun hR => (mayListen_modify rfl).trans (hc hR)) hlive
      (spawns ⟨hid, fun _ => rfl⟩)

/-! ### Links -/

variable (domain type protocol : Nat)

theorem create {pid : Nat} (known : Bool) (hm : A.makes pid) :
    Turns A t (create domain type protocol pid known) fun _ => [] :=
  wp_create (fun _ _ => ⟨.single (.add _ (.new ..) (.inl hm)),
    fun _ hw => (List.not_mem_nil hw).elim⟩) fun _ => .refl

theorem socketpair {pid : Nat} (known : Bool) (hm : A.makes pid) :
    Turns A t (socketpair domain type protocol pid known) fun _ => [] := by
  have hstate : (KernelSocket.new domain type protocol pid).state ≠ .listening := by
    simp [KernelSocket.new]
  let s := KernelSocket.new domain type protocol pid
  have hne : t.nextSocketId ≠ (t.add s).nextSocketId := Nat.ne_of_lt (Nat.lt_succ_self _)
  have hfree : ((t.add s).add s).freeToLink t.nextSocketId = true :=
    freeToLink_add (t.freeToLink_add_self domain type protocol pid) hne _
  refine make (.inl hm) (make (.inl hm) (update (.single (.link _ _ (Nat.lt_succ_self _) ?_ ?_
    (fun _ => hfree) (fun _ => ?_) fun _ => ?_)) ?_))
  · exact freeToLink_add_self _ domain type protocol pid
  · rw [add_objs_self]
    exact hstate
  · exact (Bool.and_eq_true_iff.mp hfree).1
  · refine .of_ne ?_
    rw [add_objs_of_ne _ hne, add_objs_self]
    exact hstate
  · exact ret _

end Turns

/-- Both ends of a new connection. -/
theorem connectedTo_effects (ht : Sound t) {id l : Nat} (hid : id < t.nextSocketId)
    (hl : t.has l = true) (h : A.links → t.freeToLink id = true)
    (hh : A.hosts → t.has id = true) (hw : A.waits → t.Unattended id)
    (addr : SockAddr) : Effects A t (t.connectedTo id l addr) := by
  let listener := t.objs l
  let server := t.nextSocketId
  let t₁ := t.add (.new listener.domain listener.type listener.protocol listener.pid)
  let t₂ := t₁.modify id ({ · with remoteAddr := some addr })
  let t₃ := t₂.modify server ({ · with
    localAddr := (t₂.objs l).localAddr, remoteAddr := (t₂.objs id).localAddr })
  have hne : id ≠ server := Nat.ne_of_lt hid
  have h₁ : Effect A t t₁ := .add _ (.new ..) (.inr fun _ => ⟨l, hl, rfl⟩)
  have h₂ : Effect A t₁ t₂ := .change (.plain id rfl)
  have h₃ : Effect A t₂ t₃ := by
    refine .change (.address server ?_ rfl)
    rw [modify_objs_of_ne t₁ hne.symm, add_objs_self]
    rfl
  have hfree : ∀ i, t₃.freeToLink i = t₁.freeToLink i := fun i =>
    (freeToLink_modify rfl).trans (freeToLink_modify rfl)
  have hstate : ∀ i, (t₃.objs i).state = (t₁.objs i).state := fun i =>
    (modify_field t₂ server i (·.state) rfl).trans (modify_field t₁ id i (·.state) rfl)
  have hqueue : (t₃.objs id).acceptWaiters = (t₁.objs id).acceptWaiters :=
    (modify_field t₂ server id (·.acceptWaiters) rfl).trans
      (modify_field t₁ id id (·.acceptWaiters) rfl)
  have h₄ : Effect A t₃ (t₃.linkPeers id server) := by
    refine .link id server hid ?_ ?_ (fun hP => ?_) (fun hH => ?_) fun hW => ?_
    · rw [hfree]
      exact t.freeToLink_add_self ..
    · rw [hstate, add_objs_self]
      simp [KernelSocket.new]
    · rw [hfree]
      exact freeToLink_add (h hP) hne _
    · exact (has_iff _ id).mpr (List.mem_append_left _ ((has_iff t id).mp (hh hH)))
    · rw [Unattended, hstate, hqueue, add_objs_of_ne t hne]
      exact hw hW
  have h₅ : Effect A (t₃.linkPeers id server) (t.connectedTo id l addr) := by
    refine .queue l server (ht.below l hl) ?_
    rw [has_iff]
    exact List.mem_append_right _ (List.mem_singleton_self _)
  exact ((((Relation.ReflTransGen.single h₁).tail h₂).tail h₃).tail h₄).tail h₅

namespace Turns

variable {socketId : Nat} {addr : SockAddr} {known : Bool}

/-- What the checks say of a connection that is routed. -/
structure Routes (A : Asked) (t : SocketTable) (id : Nat) (addr : SockAddr) (known : Bool) :
    Prop where
  links : A.links → t.routeAllowed id addr known = true
  hosts : A.hosts → t.has id = true
  waits : A.waits → t.Unattended id

theorem connectExternal (hid : socketId < t.nextSocketId) (check : Option NetworkDecision)
    (h : Routes A t socketId addr known) :
    Turns A t (connectExternal socketId addr check) Turn.pending := by
  refine lift fun _ _ => read ?_
  split
  · split
    · exact change (.connecting socketId addr h.hosts h.waits) (rejected ⟨hid, fun _ => rfl⟩)
    · exact waits ⟨hid, fun _ => rfl⟩
  · exact throw _

variable (ht : Sound t)
include ht

theorem route (hid : socketId < t.nextSocketId) (check : Option NetworkDecision)
    (h : Routes A t socketId addr known) :
    Turns A t (route socketId addr check known) Turn.pending := by
  refine read ?_
  cases hl : t.findListener addr with
  | some l =>
      refine bind (wp_connectTo (fun hroom hmax hknown => ?_) fun _ => .refl) fun u _ _ => done u
      refine ⟨connectedTo_effects ht hid (has_of_findListener hl) (fun hP => ?_) h.hosts h.waits
        addr, fun _ hw => (List.not_mem_nil hw).elim⟩
      have hc := h.links hP
      simpa [routeAllowed, linkable, hl, hroom, hmax, hknown] using hc
  | none =>
      cases addr with
      | unix path => exact throw _
      | inet host port => exact connectExternal hid check h

variable (check : Option NetworkDecision)

theorem connectBound (h : A.links → (t.suspends addr || t.routeAllowed socketId addr known) = true)
    (hlive : t.has socketId = true)
    (hs : (t.objs socketId).state = .created ∨ (t.objs socketId).state = .bound) :
    Turns A t (connectBound socketId addr check known) Turn.pending := by
  have hid := ht.below socketId hlive
  have hw : t.Unattended socketId := by
    refine .of_ne ?_
    rcases hs with hs | hs
    · rw [hs]; simp
    · rw [hs]; simp
  refine read ?_
  cases addr with
  | inet host port =>
      exact route ht hid check ⟨h, fun _ => hlive, fun _ => hw⟩
  | unix path =>
      cases hv : t.vfs with
      | true => exact waits ⟨hid, fun _ => rfl⟩
      | false =>
          refine route ht hid check ⟨fun hP => ?_, fun _ => hlive, fun _ => hw⟩
          simpa [suspends, hv] using h hP

theorem connect (h : A.links → t.connectAllowed socketId addr known = true) :
    Turns A t (connect socketId addr check known) Turn.pending := by
  refine require fun hlive => ?_
  split
  · exact throw _
  · rename_i hstate
    have hs : (t.objs socketId).state = .created ∨ (t.objs socketId).state = .bound :=
      (not_and_or.mp hstate).imp not_not.mp not_not.mp
    have hc : A.links → (t.suspends addr || t.routeAllowed socketId addr known) = true := by
      intro hP
      have hc := h hP
      rw [connectAllowed] at hc
      rcases hs with hs | hs
      · simpa [hlive, hs] using hc
      · simpa [hlive, hs] using hc
    refine wp_bind.mpr (wp_autoBind (connectBound ht check hc hlive hs) (fun a v hnone => ?_)
      fun e v => .single (.change (.plain socketId rfl)))
    have haddr : Change A t (t.modify socketId
        ({ · with requestedEphemeralPort := v, localAddr := some a })) :=
      .address socketId hnone rfl
    refine after (.single (.change haddr))
      (connectBound (ht.peerLike haddr.calm.peers) check (fun hP => ?_) hlive ?_)
    · rw [routeAllowed_modify rfl rfl rfl]
      exact hc hP
    · rw [modify_objs_self]
      exact hs

theorem connectChecked (hid : socketId < t.nextSocketId) {pathExists : Bool}
    (h : pathExists = true → Routes A t socketId addr known) :
    Turns A t (connectChecked socketId addr pathExists known) Turn.pending := by
  cases pathExists with
  | true => exact route ht hid none (h rfl)
  | false => exact throw _

end Turns

end SocketTable

/-! ### Steps -/

/-- The check of a call that goes on for a socket, and of the host's object it may come with: the
socket is there, has no such object yet, and one that is accepted can be made. -/
def Awaiting.hostAllowed (t : SocketTable) : Awaiting → Answer → Bool
  | .bindExists id _, .pathExists false _ => t.has id
  | .connectExists id _, .pathExists true _ => t.has id
  | .tcpListen id, .host _ _ _ => t.has id && (t.objs id).hostListener.isNone
  | .tcpConnect id _, .host _ _ _ => t.has id && (t.objs id).hostSocket.isNone
  | .backgroundConnect id _, _ => t.backgroundAllowed id
  | .acceptPump id _, .host _ _ known =>
    t.has id && (decide ((t.objs id).backlogLimit ≤ (t.objs id).backlog.length) ||
      decide (t.sockets.length < t.maxSockets) && known)
  | .udpBind id, .host _ _ _ => t.has id && (t.objs id).hostUdpSocket.isNone
  | _, _ => true

/-- The check of a call that goes on and may change the state of its socket: nobody waits for the
connections of the socket, and one that begins to listen is there. -/
def Awaiting.stateAllowed (t : SocketTable) : Awaiting → Answer → Bool
  | .bindExists id _, .pathExists false _ | .connectExists id _, .pathExists true _
  | .tcpConnect id _, .host _ _ _ | .backgroundConnect id _, _ | .hostWrite id, .failed =>
    (t.objs id).state != .listening || (t.objs id).acceptWaiters.isEmpty
  | .tcpListen id, .host _ _ _ => t.has id
  | _, _ => true

def SocketCall.mayWait : SocketCall → Bool
  | .accept _ block => block
  | .recv _ _ _ block => block
  | _ => false

/-- The process a call makes a socket for. -/
def SocketCall.makesFor : SocketCall → Option Nat
  | .create _ _ _ pid _ => some pid
  | .socketpair _ _ _ pid _ => some pid
  | _ => none

namespace SocketSys

open SocketTable

/-- The check of the links a step makes. -/
def linksAllowed (s : SocketSys) : SocketAction → Bool
  | .call (.connect id addr _ known) => s.table.connectAllowed id addr known
  | .resume i (.pathExists true known) =>
    match s.calls[i]? with
    | some (.connectExists id addr) => s.table.routeAllowed id addr known
    | _ => true
  | _ => true

/-- The check of the addresses a step registers, and of a socket that begins to listen. -/
def addrsAllowed (s : SocketSys) : SocketAction → Bool
  | .call (.bind id addr) => s.table.bindAllowed id addr
  | .call (.listen id _ external check) => s.table.listenAllowed id external check
  | .resume i (.pathExists false _) =>
    match s.calls[i]? with
    | some (.bindExists id addr) => s.table.registerAllowed id addr
    | _ => true
  | .resume i (.host _ port _) =>
    match s.calls[i]? with
    | some (.tcpListen id) => s.table.tcpListenAllowed id port
    | _ => true
  | _ => true

/-- No address that a step registers leaves an entry of its socket behind. -/
def bindsAllowed (s : SocketSys) : SocketAction → Bool
  | .call (.bind id addr) => s.table.bindsOnce id addr
  | .resume i (.pathExists false _) =>
    match s.calls[i]? with
    | some (.bindExists id addr) => s.table.registersOnce id addr
    | _ => true
  | .resume i (.host _ _ _) =>
    match s.calls[i]? with
    | some (.tcpListen id) => s.table.tcpListensOnce id
    | _ => true
  | _ => true

/-- The check of the calls that go on. -/
def hostsAllowed (s : SocketSys) : SocketAction → Bool
  | .call _ => true
  | .resume i ans => (s.calls[i]?).all (·.hostAllowed s.table ans)

/-- The step is none of a call that waits on a queue, and changes no state of a listener. -/
def waitsAllowed (s : SocketSys) : SocketAction → Bool
  | .call c => !c.mayWait
  | .resume i ans => (s.calls[i]?).all fun c => !c.isWait && c.stateAllowed s.table ans

/-- The process a step makes a socket for. -/
def makesFor : SocketAction → Option Nat
  | .call c => c.makesFor
  | .resume _ _ => none

/-- The table is sound, and the suspended calls are about sockets that were made. -/
structure Ok (s : SocketSys) : Prop where
  sound : s.table.Sound
  calls : ∀ w ∈ s.calls, w.socketId < s.table.nextSocketId

/-- The step meets the checks that are asked for. -/
structure Meets (A : Asked) (s : SocketSys) (act : SocketAction) : Prop where
  links : A.links → s.linksAllowed act = true
  addrs : A.addrs → s.addrsAllowed act = true
  once : A.once → s.bindsAllowed act = true
  hosts : A.hosts → s.hostsAllowed act = true
  waits : A.waits → s.waitsAllowed act = true
  makes : ∀ pid, makesFor act = some pid → A.makes pid

variable {A : Asked} {s s' : SocketSys}

theorem Ok.new (maxSockets : Nat) (vfs hostAdapter : Bool) : Ok (new maxSockets vfs hostAdapter) :=
  ⟨.new .., fun _ hw => (List.not_mem_nil hw).elim⟩

variable {p : Sock (List Awaiting)}

/-- What the turn of a program leaves waiting comes behind the other calls. -/
theorem run_pending (calls : List Awaiting)
    (hp : Turns A s.table p id) :
    ∃ pending, (s.run calls p).calls = calls ++ pending ∧
      ∀ w ∈ pending, w.Fits A (s.run calls p).table := by
  rcases hr : p.exec s.table with ⟨e | pending, t'⟩
  · exact ⟨[], by simp [SocketSys.run, hr], fun _ hw => (List.not_mem_nil hw).elim⟩
  · have htable : (s.run calls p).table = t' := by simp [SocketSys.run, hr]
    exact ⟨pending, by simp [SocketSys.run, hr], htable ▸ (of_wp_ok hp hr).2⟩

/-- The turn of a program, with the other calls that wait. -/
theorem Ok.run (h : s.Ok) {calls : List Awaiting} (hcalls : ∀ w ∈ calls, w ∈ s.calls)
    (hp : Turns A s.table p id) :
    Effects A s.table (s.run calls p).table ∧ (s.run calls p).Ok := by
  have heff : Effects A s.table (s.run calls p).table :=
    state_of_wp (wp_mono hp (fun _ _ hq => hq.1) fun _ _ hE => hE)
  obtain ⟨pending, hpending, hfits⟩ := run_pending calls hp
  refine ⟨heff, h.sound.effects heff, fun w hw => ?_⟩
  rw [hpending] at hw
  rcases List.mem_append.mp hw with hw | hw
  · exact Nat.lt_of_lt_of_le (h.calls w (hcalls w hw)) heff.next_le
  · exact (hfits w hw).made

theorem perform_turns (h : s.table.Sound) (c : SocketCall) (hA : Meets A s (.call c)) :
    Turns A s.table c.perform id := by
  cases c with
  | create domain type protocol pid known =>
      exact Turns.map (.create domain type protocol known (hA.makes pid rfl))
  | setsockopt id level optname optval => exact Turns.map (.setsockopt level optname optval)
  | setNonBlocking id nonBlocking => exact Turns.map (.setNonBlocking nonBlocking)
  | bind id addr => exact Turns.map (.bindAddr h hA.addrs hA.once)
  | listen id backlogSize external check => exact Turns.map (.listen h hA.addrs)
  | accept id block => exact Turns.map (.accept h fun hW => by
        simpa [waitsAllowed, SocketCall.mayWait] using hA.waits hW)
  | connect id addr check known => exact Turns.map (.connect h check hA.links)
  | send id data flags check => exact Turns.map (.send h data flags check)
  | recv id maxBytes flags block =>
      exact Turns.map (.recv h maxBytes flags fun hW => by
        simpa [waitsAllowed, SocketCall.mayWait] using hA.waits hW)
  | sendTo id data destAddr check => exact Turns.map (.sendTo data destAddr check)
  | recvFrom id maxBytes flags => exact Turns.map (.recvFrom maxBytes flags)
  | bindExternalUdp id check => exact Turns.map (.bindExternalUdp h check)
  | shutdown id how => exact Turns.map (.shutdown how)
  | socketpair domain type protocol pid known =>
      exact Turns.map (.socketpair domain type protocol known (hA.makes pid rfl))
  | close id pid => exact Turns.map (.close h pid)
  | closeAllForProcess pid => exact Turns.map (.last (closeAllForProcess_effects h pid))

/-- What the checks of a step say of the call that goes on. -/
theorem Meets.resumed {i : Nat} {ans : Answer} {c : Awaiting} (hA : Meets A s (.resume i ans))
    (hc : s.calls[i]? = some c) :
    (A.hosts → c.hostAllowed s.table ans = true) ∧
      (A.waits → c.isWait = false ∧ c.stateAllowed s.table ans = true) := by
  refine ⟨fun hH => ?_, fun hW => ?_⟩
  · simpa [hostsAllowed, hc] using hA.hosts hH
  · simpa [waitsAllowed, hc] using hA.waits hW

theorem resumed_turns (h : s.Ok) {i : Nat} {ans : Answer} {c : Awaiting}
    (hc : s.calls[i]? = some c) (hp : c.resumed ans = some p)
    (hA : Meets A s (.resume i ans)) : Turns A s.table p id := by
  have hid := h.calls c (List.mem_of_getElem? hc)
  obtain ⟨hhost, hwait⟩ := hA.resumed hc
  have hstop : Turns A s.table (pure [] : Sock (List Awaiting)) id :=
    .pure fun _ hw => (List.not_mem_nil hw).elim
  cases c with
  | bindExists id addr =>
      cases ans with
      | pathExists yes known =>
          cases hp
          refine Turns.map (.bindChecked (show id < _ from hid) (fun hR hyes => ?_)
            (fun hO hyes => ?_) (fun hH hyes => ?_) fun hW hyes => ?_)
          · subst hyes
            simpa [addrsAllowed, hc] using hA.addrs hR
          · subst hyes
            simpa [bindsAllowed, hc] using hA.once hO
          · subst hyes
            exact hhost hH
          · subst hyes
            exact .of_check (hwait hW).2
      | failed => cases hp; exact hstop
      | _ => cases hp
  | connectExists id addr =>
      cases ans with
      | pathExists yes known =>
          cases hp
          refine Turns.map (.connectChecked h.sound (show id < _ from hid) fun hyes => ⟨fun hP => ?_, fun hH => ?_,
            fun hW => ?_⟩)
          · subst hyes
            simpa [linksAllowed, hc] using hA.links hP
          · subst hyes
            exact hhost hH
          · subst hyes
            exact .of_check (hwait hW).2
      | failed => cases hp; exact hstop
      | _ => cases hp
  | tcpListen id =>
      cases ans with
      | host h port known =>
          cases hp
          refine Turns.map (.tcpListening (show id < _ from hid) (fun hR => ?_) (fun hO => ?_)
            (fun hH => ?_) fun hW => (hwait hW).2)
          · simpa [addrsAllowed, hc] using hA.addrs hR
          · simpa [bindsAllowed, hc] using hA.once hO
          · simpa [Awaiting.hostAllowed] using hhost hH
      | failed => cases hp; exact hstop
      | _ => cases hp
  | tcpConnect id addr =>
      cases ans with
      | host h port known =>
          cases hp
          refine Turns.map (.attachHost (show id < _ from hid) h addr (fun hH => ?_) fun hW => ?_)
          · simpa [Awaiting.hostAllowed] using hhost hH
          · exact .of_check (hwait hW).2
      | failed => cases hp; exact hstop
      | _ => cases hp
  | backgroundConnect id addr =>
      have hstate : A.waits → s.table.Unattended id := fun hW => by
        exact .of_check (hwait hW).2
      cases ans with
      | host h port known =>
          cases hp
          exact Turns.map (.backgroundConnected hid h addr hhost hstate)
      | failed =>
          cases hp
          exact Turns.map (.backgroundFailed hhost hstate)
      | _ => cases hp
  | acceptPump id host =>
      cases ans with
      | host h port known =>
          cases hp
          refine Turns.map (.acceptPumped hid host h known fun hH => ?_)
          exact (Bool.and_eq_true_iff.mp (hhost hH)).1
      | failed => cases hp; exact hstop
      | _ => cases hp
  | readPump id host =>
      cases ans with
      | read r => cases hp; exact Turns.map (.readPumped hid host r)
      | _ => cases hp
  | hostWrite id =>
      cases ans with
      | failed =>
          cases hp
          refine Turns.map (.hostWriteFailed fun hW => ?_)
          exact .of_check (hwait hW).2
      | woken => cases hp; exact hstop
      | _ => cases hp
  | udpBind id =>
      cases ans with
      | host h port known =>
          cases hp
          refine Turns.map (.udpBound (show id < _ from hid) h fun hH => ?_)
          simpa [Awaiting.hostAllowed] using hhost hH
      | failed => cases hp; exact hstop
      | _ => cases hp
  | udpPump id host =>
      cases ans with
      | datagram d => cases hp; exact Turns.map (.udpPumped hid host d)
      | failed => cases hp; exact hstop
      | _ => cases hp
  | accept id handle =>
      have hw : ¬ A.waits := fun hW => Bool.noConfusion (hwait hW).1
      cases ans with
      | woken => cases hp; exact Turns.map (.acceptWoken hw hid handle)
      | signal restart number =>
          cases restart with
          | true => cases hp; exact Turns.map (.acceptWoken hw hid handle)
          | false => cases hp; exact Turns.map (.acceptInterrupted hw handle number)
      | _ => cases hp
  | recv id maxBytes flags handle =>
      have hw : ¬ A.waits := fun hW => Bool.noConfusion (hwait hW).1
      cases ans with
      | woken => cases hp; exact Turns.map (.recvWoken hw hid maxBytes flags handle)
      | signal restart number =>
          cases restart with
          | true => cases hp; exact Turns.map (.recvWoken hw hid maxBytes flags handle)
          | false => cases hp; exact Turns.map (.recvInterrupted hw handle number)
      | _ => cases hp

/-- The calls that wait beside the one a step is about. -/
def others (s : SocketSys) : SocketAction → List Awaiting
  | .call _ => s.calls
  | .resume i _ => s.calls.eraseIdx i

/-- A step is the turn of a program. -/
theorem step_turns (h : s.Ok) {act : SocketAction} (hA : Meets A s act)
    (hs : s.step act = some s') :
    ∃ p : Sock (List Awaiting), Turns A s.table p id ∧ s' = s.run (s.others act) p := by
  cases act with
  | call c =>
      cases hs
      exact ⟨c.perform, perform_turns h.sound c hA, rfl⟩
  | resume i ans =>
      simp only [step] at hs
      split at hs
      · cases hs
      · rename_i c hc
        split at hs
        · obtain ⟨p, hp, rfl⟩ := Option.map_eq_some_iff.mp hs
          exact ⟨p, resumed_turns h hc hp hA, rfl⟩
        · cases hs

/-- **The effects of a step.** -/
theorem step_effects (h : s.Ok) {act : SocketAction} (hA : Meets A s act)
    (hs : s.step act = some s') : Effects A s.table s'.table ∧ s'.Ok := by
  obtain ⟨p, hp, rfl⟩ := step_turns h hA hs
  refine h.run (fun w hw => ?_) hp
  cases act with
  | call c => exact hw
  | resume i ans => exact List.mem_of_mem_eraseIdx hw

end SocketSys

end SecureExec.Socket
