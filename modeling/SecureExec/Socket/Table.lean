import SecureExec.Lib.OMap
import SecureExec.Lib.Prog
import SecureExec.Kernel.Types
import SecureExec.Kernel.Wait

/-!
# Socket — Table — the socket table

`packages/core/src/kernel/socket-table.ts`.  A `KernelSocket` is an object that a suspended call keeps
a reference to after the table has dropped the socket; since socket ids are not reused, the objects
are kept by id (`objs`) and `sockets` are the ids the table still has, in the order of the map.

A call is a program over the table that may throw; what it did before it threw stays done.  A call
that suspends returns what it waits for (`Turn`), and what it does once that has come is a program
of its own.  The answers of the code outside the table are arguments: the permission policy's, the
process table's (`known`), and for a call that goes on, the file system's or the host adapter's.
The socket file that `bind` makes comes after all it does to the table.
-/

namespace SecureExec.Socket
open SecureExec Kernel Prog WaitQueue Function

/-! ### Constants -/

def SOCK_STREAM : Nat := 1
def SOCK_DGRAM : Nat := 2
def SOL_SOCKET : Nat := 1
def SO_REUSEADDR : Nat := 2
def SO_RCVBUF : Nat := 8
def MSG_PEEK : Flags := 0x2
def MSG_DONTWAIT : Flags := 0x40
def MSG_NOSIGNAL : Flags := 0x4000
def MAX_DATAGRAM_SIZE : Nat := 65535
def MAX_UDP_QUEUE_DEPTH : Nat := 128
def EPHEMERAL_PORT_MIN : Nat := 49152
def EPHEMERAL_PORT_MAX : Nat := 65535

/-! ### Addresses -/

inductive SockAddr where
  | inet (host : String) (port : Nat)
  | unix (path : String)
  deriving DecidableEq

/-- Canonical string key for a socket address ("host:port" or unix path). -/
def addrKey : SockAddr → String
  | .inet host port => host ++ ":" ++ toString port
  | .unix path => path

/-- Canonical string key for a socket option ("level:optname"). -/
def optKey (level optname : Nat) : String := toString level ++ ":" ++ toString optname

def isWildcard (host : String) : Bool := host == "0.0.0.0" || host == "::"

/-! ### Sockets -/

structure UdpDatagram where
  data : ByteArray8
  srcAddr : SockAddr
  deriving DecidableEq

inductive SocketState where
  | created | bound | listening | connecting | connected | readClosed | writeClosed | closed
  deriving DecidableEq

structure KernelSocket where
  domain : Nat
  type : Nat
  protocol : Nat
  state : SocketState
  nonBlocking : Bool
  localAddr : Option SockAddr
  remoteAddr : Option SockAddr
  options : OMap String Int
  pid : Nat
  readBuffer : List ByteArray8
  readWaiters : WaitQueue
  backlog : List Nat
  backlogLimit : Nat
  acceptWaiters : WaitQueue
  peerId : Option Nat
  peerWriteClosed : Bool
  external : Bool
  /-- The host's socket, listener and UDP socket, by number. -/
  hostSocket : Option Nat
  hostListener : Option Nat
  datagramQueue : List UdpDatagram
  hostUdpSocket : Option Nat
  requestedEphemeralPort : Bool

/-- A socket as `create` makes it. -/
def KernelSocket.new (domain type protocol pid : Nat) : KernelSocket where
  domain := domain
  type := type
  protocol := protocol
  state := .created
  nonBlocking := false
  localAddr := none
  remoteAddr := none
  options := .empty
  pid := pid
  readBuffer := []
  readWaiters := []
  backlog := []
  backlogLimit := 0
  acceptWaiters := []
  peerId := none
  peerWriteClosed := false
  external := false
  hostSocket := none
  hostListener := none
  datagramQueue := []
  hostUdpSocket := none
  requestedEphemeralPort := false

/-- `options.get(optKey(level, optname))`. -/
def KernelSocket.option (s : KernelSocket) (level optname : Nat) : Option Int :=
  s.options.get (optKey level optname)

structure SocketTable where
  objs : Nat → KernelSocket
  sockets : List Nat
  nextSocketId : Nat
  maxSockets : Nat
  /-- Bound/listening address → socket ID. -/
  listeners : OMap String Nat
  /-- Bound UDP address → socket ID. -/
  udpBindings : OMap String Nat
  waits : WaitHandles
  /-- A file system and a host adapter are configured. -/
  vfs : Bool
  hostAdapter : Bool
  /-- The host's objects that were closed, in order. -/
  hostClosed : List Nat

/-- A call on the table. -/
abbrev Sock (α : Type) : Type := Prog Failure SocketTable α

/-- What a suspended call waits for. -/
inductive Awaiting where
  /-- `bind` asks the file system about the path. -/
  | bindExists (socketId : Nat) (addr : SockAddr)
  | connectExists (socketId : Nat) (addr : SockAddr)
  | tcpListen (socketId : Nat)
  | tcpConnect (socketId : Nat) (addr : SockAddr)
  /-- `startExternalConnect`. -/
  | backgroundConnect (socketId : Nat) (addr : SockAddr)
  | acceptPump (socketId host : Nat)
  | readPump (socketId host : Nat)
  | hostWrite (socketId : Nat)
  /-- `bindExternalUdp`. -/
  | udpBind (socketId : Nat)
  | udpPump (socketId host : Nat)
  | accept (socketId handle : Nat)
  | recv (socketId maxBytes : Nat) (flags : Flags) (handle : Nat)
  deriving DecidableEq

/-- How a call's turn ends. -/
inductive Turn (α : Type) where
  | done (a : α)
  | waits (c : Awaiting)
  /-- The call is rejected, and something goes on in the background. -/
  | rejected (e : Failure) (c : Awaiting)
  /-- The call has returned, and something goes on in the background. -/
  | spawns (a : α) (c : Awaiting)

/-- `PermissionDecision`. -/
structure NetworkDecision where
  allow : Bool
  reason : Option String

namespace SocketTable

def new (maxSockets : Nat) (vfs hostAdapter : Bool) : SocketTable where
  objs := fun _ => .new 0 0 0 0
  sockets := []
  nextSocketId := 1
  maxSockets := maxSockets
  listeners := .empty
  udpBindings := .empty
  waits := .empty
  vfs := vfs
  hostAdapter := hostAdapter
  hostClosed := []

/-- The table has this socket. -/
def has (t : SocketTable) (id : Nat) : Bool := t.sockets.contains id

def get (t : SocketTable) (id : Nat) : Option KernelSocket :=
  if t.has id then some (t.objs id) else none

/-- A change of one object. -/
def modify (t : SocketTable) (id : Nat) (f : KernelSocket → KernelSocket) : SocketTable :=
  { t with objs := update t.objs id (f (t.objs id)) }

/-- `readWaiters.wakeOne()`. -/
def wakeReader (t : SocketTable) (id : Nat) : SocketTable :=
  let r := wakeOne t.waits (t.objs id).readWaiters
  { t.modify id ({ · with readWaiters := r.2 }) with waits := r.1 }

/-- `readWaiters.wakeAll()`. -/
def wakeReaders (t : SocketTable) (id : Nat) : SocketTable :=
  let r := wakeAll t.waits (t.objs id).readWaiters
  { t.modify id ({ · with readWaiters := r.2 }) with waits := r.1 }

/-- `acceptWaiters.wakeOne()`. -/
def wakeAccepter (t : SocketTable) (id : Nat) : SocketTable :=
  let r := wakeOne t.waits (t.objs id).acceptWaiters
  { t.modify id ({ · with acceptWaiters := r.2 }) with waits := r.1 }

/-- `acceptWaiters.wakeAll()`. -/
def wakeAccepters (t : SocketTable) (id : Nat) : SocketTable :=
  let r := wakeAll t.waits (t.objs id).acceptWaiters
  { t.modify id ({ · with acceptWaiters := r.2 }) with waits := r.1 }

/-- `readWaiters.enqueue()`; the handle is `waits.next`. -/
def enqueueReader (t : SocketTable) (id : Nat) : SocketTable :=
  let r := enqueue t.waits (t.objs id).readWaiters
  { t.modify id ({ · with readWaiters := r.2.2 }) with waits := r.2.1 }

/-- `acceptWaiters.enqueue()`. -/
def enqueueAccepter (t : SocketTable) (id : Nat) : SocketTable :=
  let r := enqueue t.waits (t.objs id).acceptWaiters
  { t.modify id ({ · with acceptWaiters := r.2.2 }) with waits := r.2.1 }

/-! ### What a change of one object leaves alone -/

section
variable {β : Type} (t : SocketTable) (id i : Nat) (f : KernelSocket → β)

variable (g : KernelSocket → KernelSocket)

@[simp] theorem modify_objs_self :
    (t.modify id g).objs id = g (t.objs id) := update_self ..

theorem modify_objs_of_ne {id i : Nat} (h : i ≠ id) (g : KernelSocket → KernelSocket) :
    (t.modify id g).objs i = t.objs i := update_of_ne h ..

@[simp] theorem modify_listeners :
    (t.modify id g).listeners = t.listeners := rfl

@[simp] theorem modify_udpBindings :
    (t.modify id g).udpBindings = t.udpBindings := rfl

theorem modify_modify (g h : KernelSocket → KernelSocket) :
    (t.modify id g).modify id h = t.modify id fun s => h (g s) := by
  simp [modify]

theorem modify_field {g : KernelSocket → KernelSocket} (hf : f (g (t.objs id)) = f (t.objs id)) :
    f ((t.modify id g).objs i) = f (t.objs i) := by
  by_cases h : i = id
  · subst h
    rw [modify_objs_self, hf]
  · rw [modify_objs_of_ne t h]

/-- Waking and queueing readers changes their queue alone. -/
theorem wakeReader_field (hf : ∀ s q, f { s with readWaiters := q } = f s) :
    f ((t.wakeReader id).objs i) = f (t.objs i) :=
  modify_field t id i f
    (g := fun s => { s with readWaiters := (wakeOne t.waits (t.objs id).readWaiters).2 }) (hf _ _)

theorem wakeReaders_field (hf : ∀ s q, f { s with readWaiters := q } = f s) :
    f ((t.wakeReaders id).objs i) = f (t.objs i) :=
  modify_field t id i f
    (g := fun s => { s with readWaiters := (wakeAll t.waits (t.objs id).readWaiters).2 }) (hf _ _)

theorem enqueueReader_field (hf : ∀ s q, f { s with readWaiters := q } = f s) :
    f ((t.enqueueReader id).objs i) = f (t.objs i) :=
  modify_field t id i f
    (g := fun s => { s with readWaiters := (enqueue t.waits (t.objs id).readWaiters).2.2 })
    (hf _ _)

theorem wakeAccepter_field (hf : ∀ s q, f { s with acceptWaiters := q } = f s) :
    f ((t.wakeAccepter id).objs i) = f (t.objs i) :=
  modify_field t id i f
    (g := fun s => { s with acceptWaiters := (wakeOne t.waits (t.objs id).acceptWaiters).2 })
    (hf _ _)

theorem wakeAccepters_field (hf : ∀ s q, f { s with acceptWaiters := q } = f s) :
    f ((t.wakeAccepters id).objs i) = f (t.objs i) :=
  modify_field t id i f
    (g := fun s => { s with acceptWaiters := (wakeAll t.waits (t.objs id).acceptWaiters).2 })
    (hf _ _)

theorem enqueueAccepter_field (hf : ∀ s q, f { s with acceptWaiters := q } = f s) :
    f ((t.enqueueAccepter id).objs i) = f (t.objs i) :=
  modify_field t id i f
    (g := fun s => { s with
      acceptWaiters := (enqueue t.waits (t.objs id).acceptWaiters).2.2 })
    (hf _ _)

end

def requireSocket (socketId : Nat) : Sock KernelSocket := do
  match ← read fun t => t.get socketId with
  | some s => pure s
  | none => throw (.kernelError .EBADF ("socket " ++ toString socketId ++ " not found"))

variable {t : SocketTable} {socketId : Nat} {E : Failure → SocketTable → Prop}

theorem wp_requireSocket {Q : KernelSocket → SocketTable → Prop}
    (hQ : t.has socketId = true → Q (t.objs socketId) t)
    (hE : ∀ e, E e t) : (requireSocket socketId).wp t Q E := by
  unfold requireSocket
  rw [wp_bind, wp_read, get]
  split
  · rename_i h
    split at h
    · cases h
      exact hQ (by assumption)
    · cases h
  · exact hE _

/-- The socket gets the next id. -/
def add (t : SocketTable) (s : KernelSocket) : SocketTable :=
  { t with
    objs := update t.objs t.nextSocketId s
    sockets := t.sockets ++ [t.nextSocketId]
    nextSocketId := t.nextSocketId + 1 }

@[simp] theorem add_objs_self (t : SocketTable) (s : KernelSocket) :
    (t.add s).objs t.nextSocketId = s := update_self ..

theorem add_objs_of_ne (t : SocketTable) {i : Nat} (h : i ≠ t.nextSocketId) (s : KernelSocket) :
    (t.add s).objs i = t.objs i := update_of_ne h ..

/-- `create`; `known` is what `processExists` answers. -/
def create (domain type protocol pid : Nat) (known : Bool) : Sock Nat := do
  let t ← read id
  if t.maxSockets ≤ t.sockets.length then
    throw (.kernelError .EMFILE "too many open sockets")
  else if !known then
    throw (.kernelError .ESRCH ("cannot create socket for unknown pid " ++ toString pid))
  else
    update fun t => t.add (.new domain type protocol pid)
    return t.nextSocketId

theorem wp_create {domain type protocol pid : Nat} {known : Bool}
    {Q : Nat → SocketTable → Prop}
    (hQ : t.sockets.length < t.maxSockets → known = true →
      Q t.nextSocketId (t.add (.new domain type protocol pid))) (hE : ∀ e, E e t) :
    (create domain type protocol pid known).wp t Q E := by
  unfold create
  rw [wp_bind, wp_read]
  split
  · exact hE _
  · rename_i hroom
    split
    · exact hE _
    · rename_i hknown
      exact hQ (Nat.not_le.mp hroom) (by simpa using hknown)

/-- `checkNetworkPermission`; `check` is the policy's decision, when there is a policy. -/
def checkNetworkPermission (op : String) (check : Option NetworkDecision) : Except Failure Unit :=
  match check with
  | none => .error (.kernelError .EACCES ("network " ++ op ++ " denied (no permission policy)"))
  | some d =>
    if d.allow then .ok ()
    else
      match d.reason with
      | some reason =>
        if reason = "" then .error (.kernelError .EACCES ("network " ++ op ++ " denied"))
        else .error (.kernelError .EACCES ("network " ++ op ++ " denied: " ++ reason))
      | none => .error (.kernelError .EACCES ("network " ++ op ++ " denied"))

/-! ### Address lookup -/

/-- An address conflicts with a binding in `m`: `isAddrInUse` and `isUdpAddrInUse` are this at
their own maps. -/
def inUse (t : SocketTable) (m : OMap String Nat) (addr : SockAddr) (s : KernelSocket) : Bool :=
  match addr with
  | .unix path => m.has path
  | .inet host port =>
    -- SO_REUSEADDR on the new socket skips the check
    if s.option SOL_SOCKET SO_REUSEADDR = some 1 then false
    else if m.has (addrKey addr) then true
    else
      -- same port, either side is wildcard
      m.values.any fun existingId =>
        match (t.get existingId).bind (·.localAddr) with
        | some (.inet host' port') => port' == port && (isWildcard host || isWildcard host')
        | _ => false

def isAddrInUse (t : SocketTable) : SockAddr → KernelSocket → Bool := t.inUse t.listeners

def isUdpAddrInUse (t : SocketTable) : SockAddr → KernelSocket → Bool := t.inUse t.udpBindings

/-- The map a socket's kind of address is registered in. -/
def addrTaken (t : SocketTable) (addr : SockAddr) (s : KernelSocket) : Bool :=
  if s.type = SOCK_DGRAM then t.isUdpAddrInUse addr s else t.isAddrInUse addr s

/-- Assign a kernel-managed ephemeral port for port 0. -/
def assignEphemeralPort (addr : SockAddr) (socketId : Nat) : Sock SockAddr := do
  match addr with
  | .inet host 0 =>
    update fun t => t.modify socketId ({ · with requestedEphemeralPort := true })
    let t ← read id
    let ports := List.range' EPHEMERAL_PORT_MIN (EPHEMERAL_PORT_MAX - EPHEMERAL_PORT_MIN + 1)
    match ports.find? fun port => !t.addrTaken (.inet host port) (t.objs socketId) with
    | some port => return .inet host port
    | none => throw (.kernelError .EADDRINUSE "no ephemeral ports available")
  | addr =>
    update fun t => t.modify socketId ({ · with requestedEphemeralPort := false })
    return addr

variable {addr : SockAddr} {Q : SockAddr → SocketTable → Prop}

/-- It notes that a port was asked for, or not, and throws or returns an address. -/
theorem wp_assignEphemeralPort
    (hQ : ∀ addr v, Q addr (t.modify socketId ({ · with requestedEphemeralPort := v })))
    (hE : ∀ e v, E e (t.modify socketId ({ · with requestedEphemeralPort := v }))) :
    (assignEphemeralPort addr socketId).wp t Q E := by
  unfold assignEphemeralPort
  split
  · rw [wp_bind, wp_update, wp_bind, wp_read]
    dsimp only
    split
    · exact hQ _ true
    · exact hE _ true
  · exact hQ _ false

/-- The address that is returned is the one `exec` gives. -/
theorem wp_assignEphemeralPort_exec
    (hQ : ∀ a v, (assignEphemeralPort addr socketId).exec t =
        (.ok a, t.modify socketId ({ · with requestedEphemeralPort := v })) →
      Q a (t.modify socketId ({ · with requestedEphemeralPort := v })))
    (hE : ∀ e v, E e (t.modify socketId ({ · with requestedEphemeralPort := v }))) :
    (assignEphemeralPort addr socketId).wp t Q E := by
  have hstate : ∃ v, ((assignEphemeralPort addr socketId).exec t).2 =
      t.modify socketId ({ · with requestedEphemeralPort := v }) :=
    state_of_wp (I := fun t' => ∃ v, t' =
      t.modify socketId ({ · with requestedEphemeralPort := v }))
      (wp_assignEphemeralPort (fun _ v => ⟨v, rfl⟩) fun _ v => ⟨v, rfl⟩)
  obtain ⟨v, hv⟩ := hstate
  refine wp_of_exec (fun a t₁ he => ?_) fun e t₁ he => ?_
  · rw [he] at hv
    obtain rfl : t₁ = _ := hv
    exact hQ a v he
  · rw [he] at hv
    obtain rfl : t₁ = _ := hv
    exact hE e v

/-- Look up a listening socket by exact address key. -/
def getListeningSocket (t : SocketTable) (key : String) : Option Nat :=
  match t.listeners.get key with
  | none => none
  | some id => if t.has id && (t.objs id).state == .listening then some id else none

/-- Find a listening socket that matches the given address: exact match first, then wildcard. -/
def findListener (t : SocketTable) (addr : SockAddr) : Option Nat :=
  match addr with
  | .inet _ port =>
    ((t.getListeningSocket (addrKey addr)).or
      (t.getListeningSocket (addrKey (.inet "0.0.0.0" port)))).or
        (t.getListeningSocket (addrKey (.inet "::" port)))
  | .unix path => t.getListeningSocket path

/-- Look up a bound UDP socket by exact address key. -/
def getBoundUdpSocket (t : SocketTable) (key : String) : Option Nat :=
  match t.udpBindings.get key with
  | none => none
  | some id => if t.has id && (t.objs id).type == SOCK_DGRAM then some id else none

/-- Find a bound UDP socket that matches the given address. -/
def findBoundUdp (t : SocketTable) (addr : SockAddr) : Option Nat :=
  match addr with
  | .inet _ port =>
    ((t.getBoundUdpSocket (addrKey addr)).or
      (t.getBoundUdpSocket (addrKey (.inet "0.0.0.0" port)))).or
        (t.getBoundUdpSocket (addrKey (.inet "::" port)))
  | .unix path => t.getBoundUdpSocket path

/-! ### Bind and listen -/

def addrInUse (addr : SockAddr) : Failure :=
  .kernelError .EADDRINUSE ("address already in use: " ++ addrKey addr)

/-- The address is registered, in the map of the socket's kind. -/
def setAddr (t : SocketTable) (socketId : Nat) (addr : SockAddr) : SocketTable :=
  let t' := t.modify socketId ({ · with localAddr := some addr, state := .bound })
  if (t.objs socketId).type = SOCK_DGRAM then
    { t' with udpBindings := t.udpBindings.set (addrKey addr) socketId }
  else { t' with listeners := t.listeners.set (addrKey addr) socketId }

/-- The rest of `bind` behind the file system's check. -/
def registerAddr (socketId : Nat) (addr : SockAddr) : Sock Unit := do
  let t ← read id
  if t.addrTaken addr (t.objs socketId) then throw (addrInUse addr)
  else update fun t => t.setAddr socketId addr

def bind (socketId : Nat) (addr : SockAddr) : Sock (Turn Unit) := do
  let s ← requireSocket socketId
  if s.state ≠ .created then
    throw (.kernelError .EINVAL "socket must be in created state to bind")
  else
    let boundAddr ← assignEphemeralPort addr socketId
    let vfs ← read (·.vfs)
    match boundAddr, vfs with
    | .unix path, true => return .waits (.bindExists socketId (.unix path))
    | addr, _ => return .done (← registerAddr socketId addr)

/-- `bind`, once the file system has said whether the path exists. -/
def bindChecked (socketId : Nat) (addr : SockAddr) (pathExists : Bool) : Sock Unit :=
  if pathExists then throw (addrInUse addr) else registerAddr socketId addr

def listen (socketId : Nat) (backlogSize : Int) (external : Bool)
    (check : Option NetworkDecision) : Sock (Turn Unit) := do
  let s ← requireSocket socketId
  if s.state ≠ .bound then
    throw (.kernelError .EINVAL "socket must be bound before listen")
  else
    update fun t => t.modify socketId ({ · with backlogLimit := backlogSize.toNat })
    match s.localAddr with
    | some (.inet _ _) =>
      lift (checkNetworkPermission "listen" check)
      if external && (← read (·.hostAdapter)) then return .waits (.tcpListen socketId)
      else
        return .done (← update fun t => t.modify socketId ({ · with state := .listening }))
    | _ => return .done (← update fun t => t.modify socketId ({ · with state := .listening }))

/-- The host of an address, as `socket.localAddr.host` reads it. -/
def hostOf : Option SockAddr → String
  | some (.inet host _) => host
  | _ => "undefined"

/-- The address moves to the port the host gave. -/
def rekey (t : SocketTable) (socketId port : Nat) : SocketTable :=
  let s := t.objs socketId
  let addr := SockAddr.inet (hostOf s.localAddr) port
  let listeners := match s.localAddr with
    | some old => t.listeners.delete (addrKey old)
    | none => t.listeners
  { t.modify socketId ({ · with localAddr := some addr }) with
    listeners := listeners.set (addrKey addr) socketId }

/-- `listen`, once the host listens, as its listener `host` on the port. -/
def tcpListening (socketId host port : Nat) : Sock (Turn Unit) := do
  update fun t => t.modify socketId ({ · with hostListener := some host, external := true })
  let s ← read fun t => t.objs socketId
  if s.requestedEphemeralPort || s.localAddr == some (.inet (hostOf s.localAddr) 0) then
    update fun t =>
      (t.rekey socketId port).modify socketId ({ · with state := .listening })
    return .spawns () (.acceptPump socketId host)
  else
    update fun t => t.modify socketId ({ · with state := .listening })
    return .spawns () (.acceptPump socketId host)

/-! ### Accept -/

/-- `socket.backlog.shift()`. -/
def shiftBacklog (socketId : Nat) : Sock (Option Nat) := do
  match (← read fun t => t.objs socketId).backlog with
  | [] => return none
  | connId :: rest =>
    update fun t => t.modify socketId ({ · with backlog := rest })
    return some connId

/-- One turn of the loop of `acceptBlocking`. -/
def acceptBlocking (socketId : Nat) : Sock (Turn (Option Nat)) := do
  match ← shiftBacklog socketId with
  | some connId => return .done (some connId)
  | none =>
    let h ← read (·.waits.next)
    update fun t => t.enqueueAccepter socketId
    return .waits (.accept socketId h)

def accept (socketId : Nat) (block : Bool) : Sock (Turn (Option Nat)) := do
  let s ← requireSocket socketId
  if s.state ≠ .listening then throw (.kernelError .EINVAL "socket is not listening")
  else if s.backlog = [] && s.nonBlocking then
    throw (.kernelError .EAGAIN "no pending connections on non-blocking socket")
  else if block then acceptBlocking socketId
  else return .done (← shiftBacklog socketId)

/-- The handle of a wait that has ended leaves the queue. -/
def dropAccepter (t : SocketTable) (socketId handle : Nat) : SocketTable :=
  t.modify socketId fun s => { s with acceptWaiters := remove s.acceptWaiters handle }

/-- `acceptBlocking`, once it has been woken. -/
def acceptWoken (socketId handle : Nat) : Sock (Turn (Option Nat)) := do
  update fun t => t.dropAccepter socketId handle
  if (← read fun t => t.objs socketId).state ≠ .listening then
    throw (.kernelError .EINVAL "socket is not listening")
  else acceptBlocking socketId

/-- A signal without SA_RESTART ends the wait. -/
def interrupted (op : String) (signal : Option Nat) : Failure :=
  .kernelError .EINTR
    (op ++ " interrupted by signal " ++ ((signal.map toString).getD "unknown"))

/-- `acceptBlocking`, once a signal has ended its wait. -/
def acceptInterrupted (socketId handle : Nat) (signal : Option Nat) : Sock (Turn (Option Nat)) := do
  update fun t => t.dropAccepter socketId handle
  throw (interrupted "accept" signal)

/-! ### Shutdown -/

inductive ShutdownHow where
  | read | write | both
  deriving DecidableEq

/-- Signal EOF to the peer by waking their readWaiters. -/
def shutdownWrite (t : SocketTable) (socketId : Nat) : SocketTable :=
  match (t.objs socketId).peerId with
  | none => t
  | some p =>
    if t.has p then (t.modify p ({ · with peerWriteClosed := true })).wakeReaders p else t

/-- Discard unread data and mark the read side as closed. -/
def shutdownRead (t : SocketTable) (socketId : Nat) : SocketTable :=
  (t.modify socketId ({ · with readBuffer := [] })).wakeReaders socketId

def setState (t : SocketTable) (socketId : Nat) (state : SocketState) : SocketTable :=
  t.modify socketId ({ · with state := state })

/-- What `shutdown` does to a connected socket. -/
def shutDown (t : SocketTable) (socketId : Nat) (how : ShutdownHow) : SocketTable :=
  match how with
  | .both => ((t.shutdownWrite socketId).shutdownRead socketId).setState socketId .closed
  | .write =>
    (t.shutdownWrite socketId).setState socketId
      (if (t.objs socketId).state = .readClosed then .closed else .writeClosed)
  | .read =>
    (t.shutdownRead socketId).setState socketId
      (if (t.objs socketId).state = .writeClosed then .closed else .readClosed)

def shutdown (socketId : Nat) (how : ShutdownHow) : Sock Unit := do
  let s ← requireSocket socketId
  if s.state = .connected ∨ s.state = .writeClosed ∨ s.state = .readClosed then
    update fun t => t.shutDown socketId how
  else throw (.kernelError .ENOTCONN "socket is not connected")

/-! ### Socketpair and options -/

/-- Two sockets become each other's peers. -/
def linkPeers (t : SocketTable) (a b : Nat) : SocketTable :=
  (t.modify a ({ · with peerId := some b, state := .connected })).modify b
    ({ · with peerId := some a, state := .connected })

def socketpair (domain type protocol pid : Nat) (known : Bool) : Sock (Nat × Nat) := do
  let id₁ ← create domain type protocol pid known
  let id₂ ← create domain type protocol pid known
  update fun t => t.linkPeers id₁ id₂
  return (id₁, id₂)

def setsockopt (socketId level optname : Nat) (optval : Int) : Sock Unit := do
  let _ ← requireSocket socketId
  update fun t => t.modify socketId fun s =>
    { s with options := s.options.set (optKey level optname) optval }

def setNonBlocking (socketId : Nat) (nonBlocking : Bool) : Sock Unit := do
  let _ ← requireSocket socketId
  update fun t => t.modify socketId ({ · with nonBlocking := nonBlocking })

/-! ### Connect -/

def refused (addr : SockAddr) : Failure :=
  .kernelError .ECONNREFUSED ("connection refused: " ++ addrKey addr)

/-- Both ends of a new connection, the server's in the listener's backlog. -/
def connectPair (t : SocketTable) (socketId listener server : Nat) (addr : SockAddr) :
    SocketTable :=
  let t := t.modify socketId ({ · with remoteAddr := some addr })
  let t := t.modify server
    ({ · with localAddr := (t.objs listener).localAddr, remoteAddr := (t.objs socketId).localAddr })
  let t := t.linkPeers socketId server
  (t.modify listener fun s => { s with backlog := s.backlog ++ [server] }).wakeAccepter listener

/-- The connection to a listener of the table. -/
def connectTo (socketId listener : Nat) (addr : SockAddr) (known : Bool) : Sock Unit := do
  let l ← read fun t => t.objs listener
  if l.backlogLimit ≤ l.backlog.length then
    throw (.kernelError .ECONNREFUSED
      ("connection refused: backlog full for " ++ addrKey addr))
  else
    let server ← create l.domain l.type l.protocol l.pid known
    update fun t => t.connectPair socketId listener server addr

/-- The table with a new connection of the socket to the listener. -/
def connectedTo (t : SocketTable) (socketId listener : Nat) (addr : SockAddr) : SocketTable :=
  let l := t.objs listener
  (t.add (.new l.domain l.type l.protocol l.pid)).connectPair socketId listener t.nextSocketId addr

theorem wp_connectTo {listener : Nat} {known : Bool}
    {Q : PUnit → SocketTable → Prop}
    (hQ : (t.objs listener).backlog.length < (t.objs listener).backlogLimit →
      t.sockets.length < t.maxSockets → known = true → Q ⟨⟩ (t.connectedTo socketId listener addr))
    (hE : ∀ e, E e t) : (connectTo socketId listener addr known).wp t Q E := by
  unfold connectTo
  rw [wp_bind, wp_read]
  split
  · exact hE _
  · rename_i hfull
    rw [wp_bind]
    exact wp_create (hQ (Nat.not_le.mp hfull)) hE

/-- The connection leaves the kernel. -/
def connectExternal (socketId : Nat) (addr : SockAddr) (check : Option NetworkDecision) :
    Sock (Turn Unit) := do
  lift (checkNetworkPermission "connect" check)
  let t ← read id
  if t.hostAdapter then
    if (t.objs socketId).nonBlocking then
      update fun t =>
        t.modify socketId ({ · with state := .connecting, remoteAddr := some addr })
      return .rejected (.kernelError .EINPROGRESS ("connection in progress: " ++ addrKey addr))
        (.backgroundConnect socketId addr)
    else return .waits (.tcpConnect socketId addr)
  else throw (refused addr)

/-- The rest of `connect` behind the file system's check. -/
def route (socketId : Nat) (addr : SockAddr) (check : Option NetworkDecision) (known : Bool) :
    Sock (Turn Unit) := do
  match ← read fun t => t.findListener addr with
  | some listener => return .done (← connectTo socketId listener addr known)
  | none =>
    match addr with
    | .unix _ => throw (refused addr)
    | .inet _ _ => connectExternal socketId addr check

/-- Auto-bind, so that a connected client has a concrete local address. -/
def autoBind (socketId : Nat) (addr : SockAddr) : Sock Unit := do
  match addr, (← read fun t => t.objs socketId).localAddr with
  | .inet host _, none =>
    let localAddr ← assignEphemeralPort
      (.inet (if host.toList.contains ':' then "::1" else "127.0.0.1") 0) socketId
    update fun t => t.modify socketId ({ · with localAddr := some localAddr })
  | _, _ => pure ()

theorem wp_autoBind
    {Q : PUnit → SocketTable → Prop} (hQ : Q ⟨⟩ t)
    (hbind : ∀ a v, (t.objs socketId).localAddr = none →
      Q ⟨⟩ (t.modify socketId ({ · with requestedEphemeralPort := v, localAddr := some a })))
    (hE : ∀ e v, E e (t.modify socketId ({ · with requestedEphemeralPort := v }))) :
    (autoBind socketId addr).wp t Q E := by
  unfold autoBind
  rw [wp_bind, wp_read]
  split
  · rename_i hnone
    rw [wp_bind]
    refine wp_assignEphemeralPort (fun a v => ?_) hE
    rw [wp_update, modify_modify]
    exact hbind a v hnone
  · exact hQ

/-- The rest of `connect` behind the auto-bind: a path is looked up first. -/
def connectBound (socketId : Nat) (addr : SockAddr) (check : Option NetworkDecision)
    (known : Bool) : Sock (Turn Unit) := do
  match addr, ← read (·.vfs) with
  | .unix path, true => return .waits (.connectExists socketId (.unix path))
  | addr, _ => route socketId addr check known

def connect (socketId : Nat) (addr : SockAddr) (check : Option NetworkDecision) (known : Bool) :
    Sock (Turn Unit) := do
  let s ← requireSocket socketId
  if s.state ≠ .created ∧ s.state ≠ .bound then
    throw (.kernelError .EINVAL "socket must be in created or bound state to connect")
  else
    autoBind socketId addr
    connectBound socketId addr check known

/-- `connect`, once the file system has said whether the path exists. -/
def connectChecked (socketId : Nat) (addr : SockAddr) (pathExists known : Bool) :
    Sock (Turn Unit) :=
  if pathExists then route socketId addr none known else throw (refused addr)

/-- The socket is connected to the host's socket `host`. -/
def attach (t : SocketTable) (socketId host : Nat) (addr : SockAddr) : SocketTable :=
  t.modify socketId
    ({ · with
      state := .connected, external := true, remoteAddr := some addr, hostSocket := some host })

/-- The connection to the host is there, and its data is pumped in. -/
def attachHost (socketId host : Nat) (addr : SockAddr) : Sock (Turn Unit) := do
  update fun t => t.attach socketId host addr
  return .spawns () (.readPump socketId host)

/-- The background connect has come through: a socket that is gone is not connected any more. -/
def backgroundConnected (socketId host : Nat) (addr : SockAddr) : Sock (Turn Unit) := do
  let t ← read id
  if t.has socketId && (t.objs socketId).state != .closed then attachHost socketId host addr
  else return .done (← update fun t => { t with hostClosed := t.hostClosed ++ [host] })

/-- The socket is as it was before it was told to connect. -/
def connectFailed (t : SocketTable) (socketId : Nat) : SocketTable :=
  (t.modify socketId ({ · with
    state := .created, remoteAddr := none, external := false,
    hostSocket := none })).wakeReaders socketId

/-- The background connect has failed. -/
def backgroundFailed (socketId : Nat) : Sock (Turn Unit) := do
  let t ← read id
  if t.has socketId && (t.objs socketId).state != .closed then
    return .done (← update fun t => t.connectFailed socketId)
  else return .done ()

/-! ### Send and receive -/

def brokenPipe (flags : Flags) (message : String) : Failure :=
  .kernelError .EPIPE (if flags.has MSG_NOSIGNAL then "broken pipe (MSG_NOSIGNAL)" else message)

/-- Enforce SO_RCVBUF on the peer's receive buffer. -/
def bufferFull (s : KernelSocket) : Bool :=
  match s.option SOL_SOCKET SO_RCVBUF with
  | none => false
  | some rcvBuf => decide (rcvBuf ≤ ((s.readBuffer.map List.length).sum : Int))

/-- The data goes to the peer's read buffer. -/
def deliver (t : SocketTable) (peer : Nat) (data : ByteArray8) : SocketTable :=
  (t.modify peer fun s => { s with readBuffer := s.readBuffer ++ [data] }).wakeReader peer

/-- `send` to the peer in the table. -/
def sendToPeer (socketId : Nat) (data : ByteArray8) (flags : Flags) : Sock Nat := do
  let t ← read id
  match (t.objs socketId).peerId with
  | none => throw (brokenPipe flags "broken pipe: peer closed")
  | some peer =>
    if t.has peer then
      if bufferFull (t.objs peer) then
        throw (.kernelError .EAGAIN "peer receive buffer full")
      else
        update fun t => t.deliver peer data
        return data.length
    else
      update fun t => t.modify socketId ({ · with peerId := none })
      throw (brokenPipe flags "broken pipe: peer closed")

def send (socketId : Nat) (data : ByteArray8) (flags : Flags) (check : Option NetworkDecision) :
    Sock (Turn Nat) := do
  let s ← requireSocket socketId
  if s.state = .writeClosed ∨ s.state = .closed then
    throw (brokenPipe flags "broken pipe: write side shut down")
  else if s.state ≠ .connected ∧ s.state ≠ .readClosed then
    throw (.kernelError .ENOTCONN "socket is not connected")
  else if s.external then
    lift (checkNetworkPermission "connect" check)
    if s.hostSocket.isSome then return .spawns data.length (.hostWrite socketId)
    else return .done (← sendToPeer socketId data flags)
  else return .done (← sendToPeer socketId data flags)

/-- The host has failed to write. -/
def hostWriteFailed (socketId : Nat) : Sock (Turn Unit) :=
  return .done (← update fun t => (t.setState socketId .closed).wakeReaders socketId)

/-- The loop of `peekFromBuffer`: the chunks taken, of which `totalLen` bytes are already there. -/
def peekChunks (maxBytes : Nat) : Nat → List ByteArray8 → List ByteArray8
  | _, [] => []
  | totalLen, chunk :: rest =>
    if maxBytes ≤ totalLen then []
    else
      let remaining := maxBytes - totalLen
      if chunk.length ≤ remaining then
        chunk :: peekChunks maxBytes (totalLen + chunk.length) rest
      else chunk.take remaining :: peekChunks maxBytes (totalLen + remaining) rest

/-- The loop of `consumeFromBuffer`: the chunks taken and the chunks left. -/
def consumeChunks (maxBytes : Nat) : Nat → List ByteArray8 → List ByteArray8 × List ByteArray8
  | _, [] => ([], [])
  | totalLen, chunk :: rest =>
    if totalLen < maxBytes then
      let remaining := maxBytes - totalLen
      if chunk.length ≤ remaining then
        let r := consumeChunks maxBytes (totalLen + chunk.length) rest
        (chunk :: r.1, r.2)
      else
        -- the head chunk is cut, and `maxBytes` is reached
        ([chunk.take remaining], chunk.drop remaining :: rest)
    else ([], chunk :: rest)

theorem length_consumeChunks_left (maxBytes : Nat) : ∀ (totalLen : Nat) (l : List ByteArray8),
    (consumeChunks maxBytes totalLen l).2.length ≤ l.length
  | _, [] => Nat.le_refl _
  | totalLen, chunk :: rest => by
      rw [consumeChunks]
      split
      · dsimp only
        split
        · exact Nat.le_succ_of_le (length_consumeChunks_left maxBytes _ rest)
        · exact Nat.le_refl _
      · exact Nat.le_refl _

def peekFromBuffer (s : KernelSocket) (maxBytes : Nat) : ByteArray8 :=
  (peekChunks maxBytes 0 s.readBuffer).flatten

def consumeFromBuffer (socketId maxBytes : Nat) : Sock ByteArray8 := do
  let s ← read fun t => t.objs socketId
  let r := consumeChunks maxBytes 0 s.readBuffer
  update fun t => t.modify socketId ({ · with readBuffer := r.2 })
  return r.1.flatten

/-- Whether `recv` could still yield data later instead of EOF. -/
def canBlockForRecv (t : SocketTable) (socketId : Nat) : Bool :=
  let s := t.objs socketId
  if s.state = .readClosed ∨ s.state = .closed then false
  else if s.readBuffer ≠ [] then false
  else if s.external then !s.peerWriteClosed
  else
    match s.peerId with
    | none => false
    | some p => t.has p && !s.peerWriteClosed

/-- `recv` without blocking; a `null` is `none`. -/
def recvNow (socketId maxBytes : Nat) (flags : Flags) : Sock (Option ByteArray8) := do
  let s ← requireSocket socketId
  if s.state = .readClosed ∨ s.state = .closed then return none
  else if s.state ≠ .connected ∧ s.state ≠ .writeClosed then
    throw (.kernelError .ENOTCONN "socket is not connected")
  else if s.readBuffer ≠ [] then
    if flags.has MSG_PEEK then return some (peekFromBuffer s maxBytes)
    else return some (← consumeFromBuffer socketId maxBytes)
  else
    let t ← read id
    if s.peerId.all (!t.has ·) || s.peerWriteClosed then return none
    else if s.nonBlocking then
      throw (.kernelError .EAGAIN "no data available on non-blocking socket")
    else if flags.has MSG_DONTWAIT then
      throw (.kernelError .EAGAIN "no data available (MSG_DONTWAIT)")
    else return none

/-- One turn of the loop of `recvBlocking`. -/
def recvBlocking (socketId maxBytes : Nat) (flags : Flags) : Sock (Turn (Option ByteArray8)) := do
  match ← recvNow socketId maxBytes flags with
  | some data => return .done (some data)
  | none =>
    let t ← read id
    if t.canBlockForRecv socketId then
      update fun t => t.enqueueReader socketId
      return .waits (.recv socketId maxBytes flags t.waits.next)
    else return .done none

/-- There is nothing to return at once and no end of file: a blocking `recv` goes to its loop. -/
def mayBlock (t : SocketTable) (socketId : Nat) : Bool :=
  let s := t.objs socketId
  (s.state == .connected || s.state == .writeClosed) && s.readBuffer.isEmpty &&
    !(s.peerId.all (!t.has ·) || s.peerWriteClosed)

def recv (socketId maxBytes : Nat) (flags : Flags) (block : Bool) :
    Sock (Turn (Option ByteArray8)) := do
  let t ← read id
  let result ← recvNow socketId maxBytes flags
  if block && t.mayBlock socketId then recvBlocking socketId maxBytes flags
  else return .done result

/-- The handle of a wait that has ended leaves the queue. -/
def dropReader (t : SocketTable) (socketId handle : Nat) : SocketTable :=
  t.modify socketId fun s => { s with readWaiters := remove s.readWaiters handle }

/-- `recvBlocking`, once it has been woken. -/
def recvWoken (socketId maxBytes : Nat) (flags : Flags) (handle : Nat) :
    Sock (Turn (Option ByteArray8)) := do
  update fun t => t.dropReader socketId handle
  recvBlocking socketId maxBytes flags

/-- `recvBlocking`, once a signal has ended its wait. -/
def recvInterrupted (socketId handle : Nat) (signal : Option Nat) :
    Sock (Turn (Option ByteArray8)) := do
  update fun t => t.dropReader socketId handle
  throw (interrupted "recv" signal)

/-! ### Datagrams -/

/-- `host.includes(":") ? "::1" : "127.0.0.1"`. -/
def loopbackFor (host : String) : String :=
  if host.toList.contains ':' then "::1" else "127.0.0.1"

def getUdpSourceAddr (s : KernelSocket) (destAddr : SockAddr) : SockAddr :=
  match s.localAddr, destAddr with
  | none, .inet host _ => .inet (loopbackFor host) 0
  | none, .unix path => .unix path
  | some (.inet host port), .inet destHost _ =>
    if isWildcard host then .inet destHost port else .inet host port
  | some addr, _ => addr

/-- The datagram is queued, and a reader is woken. -/
def pushDatagram (t : SocketTable) (target : Nat) (d : UdpDatagram) : SocketTable :=
  (t.modify target fun s => { s with datagramQueue := s.datagramQueue ++ [d] }).wakeReader target

/-- Send a datagram to a specific address: to the socket bound there, or out through the host, or
nowhere. -/
def sendTo (socketId : Nat) (data : ByteArray8) (destAddr : SockAddr)
    (check : Option NetworkDecision) : Sock Nat := do
  let s ← requireSocket socketId
  if s.type ≠ SOCK_DGRAM then
    throw (.kernelError .EINVAL "sendTo requires a datagram socket")
  else if MAX_DATAGRAM_SIZE < data.length then
    throw (.kernelError .EMSGSIZE "datagram too large (max 65535 bytes)")
  else
    let t ← read id
    match t.findBoundUdp destAddr with
    | some target =>
      -- a full queue drops the datagram silently
      if MAX_UDP_QUEUE_DEPTH ≤ (t.objs target).datagramQueue.length then return data.length
      else
        update fun t => t.pushDatagram target ⟨data, getUdpSourceAddr s destAddr⟩
        return data.length
    | none =>
      match destAddr, s.hostUdpSocket.isSome && t.hostAdapter with
      | .inet _ _, true =>
        lift (checkNetworkPermission "connect" check)
        return data.length
      | _, _ => return data.length

/-- Receive a datagram; what exceeds `maxBytes` is discarded. -/
def recvFrom (socketId maxBytes : Nat) (flags : Flags) : Sock (Option UdpDatagram) := do
  let s ← requireSocket socketId
  if s.type ≠ SOCK_DGRAM then
    throw (.kernelError .EINVAL "recvFrom requires a datagram socket")
  else
    match s.datagramQueue with
    | d :: rest =>
      if flags.has MSG_PEEK then return some ⟨d.data.take maxBytes, d.srcAddr⟩
      else
        update fun t => t.modify socketId ({ · with datagramQueue := rest })
        return some ⟨d.data.take maxBytes, d.srcAddr⟩
    | [] =>
      if flags.has MSG_DONTWAIT then
        throw (.kernelError .EAGAIN "no datagram available (MSG_DONTWAIT)")
      else return none

/-- Set up external UDP routing for a bound datagram socket. -/
def bindExternalUdp (socketId : Nat) (check : Option NetworkDecision) : Sock (Turn Unit) := do
  let s ← requireSocket socketId
  if s.type ≠ SOCK_DGRAM then
    throw (.kernelError .EINVAL "bindExternalUdp requires a datagram socket")
  else if s.state ≠ .bound then
    throw (.kernelError .EINVAL "socket must be bound before external UDP bind")
  else
    match s.localAddr, ← read (·.hostAdapter) with
    | some (.inet _ _), true =>
      lift (checkNetworkPermission "listen" check)
      return .waits (.udpBind socketId)
    | _, _ => throw (.kernelError .EINVAL "host adapter and inet address required")

/-- `bindExternalUdp`, once the host has bound its socket. -/
def udpBound (socketId host : Nat) : Sock (Turn Unit) := do
  update fun t => t.modify socketId ({ · with hostUdpSocket := some host, external := true })
  return .spawns () (.udpPump socketId host)

/-- The loop condition of the datagram pump. -/
def udpPumpOn (t : SocketTable) (socketId host : Nat) : Bool :=
  (t.objs socketId).state != .closed && (t.objs socketId).hostUdpSocket == some host

/-- A turn of the datagram pump: the host has received `d`. -/
def udpPumped (socketId host : Nat) (d : UdpDatagram) : Sock (Turn Unit) := do
  update fun t =>
    if (t.objs socketId).datagramQueue.length < MAX_UDP_QUEUE_DEPTH then t.pushDatagram socketId d
    else t
  if ← read (·.udpPumpOn socketId host) then return .spawns () (.udpPump socketId host)
  else return .done ()

/-! ### Close -/

/-- The host's objects of a socket are closed. -/
def closeHosts (t : SocketTable) (id : Nat) : SocketTable :=
  let s := t.objs id
  { t.modify id ({ · with hostSocket := none, hostListener := none, hostUdpSocket := none }) with
    hostClosed :=
      t.hostClosed ++ s.hostSocket.toList ++ s.hostListener.toList ++ s.hostUdpSocket.toList }

/-- The link of the peer is cleared, and its readers are woken. -/
def clearPeer (t : SocketTable) (id : Nat) : SocketTable :=
  match (t.objs id).peerId with
  | none => t
  | some p => if t.has p then (t.modify p ({ · with peerId := none })).wakeReaders p else t

/-- The entries of the socket's address, if they are its own. -/
def deregister (t : SocketTable) (id : Nat) : SocketTable :=
  match (t.objs id).localAddr with
  | none => t
  | some addr =>
    let key := addrKey addr
    { t with
      listeners := if t.listeners.get key = some id then t.listeners.delete key else t.listeners
      udpBindings :=
        if t.udpBindings.get key = some id then t.udpBindings.delete key else t.udpBindings }

/-- What `destroySocket` does behind the loop over the backlog. -/
def finish (t : SocketTable) (id : Nat) : SocketTable :=
  let t := t.modify id ({ · with backlog := [] })
  let t := ((t.clearPeer id).closeHosts id).deregister id
  let t := t.modify id ({ · with state := .closed, readBuffer := [], datagramQueue := [] })
  let t := (t.wakeReaders id).wakeAccepters id
  { t with sockets := t.sockets.erase id }

/-- `destroySocket`; `depth` bounds the chain of backlogs, which is no longer than the table. -/
def destroyWithin : Nat → SocketTable → Nat → SocketTable
  | 0, t, id => t.finish id
  | depth + 1, t, id =>
    ((t.objs id).backlog.foldl
      (fun t pendingId => if t.has pendingId then destroyWithin depth t pendingId else t)
      t).finish id

def destroySocket (t : SocketTable) (id : Nat) : SocketTable :=
  destroyWithin t.sockets.length t id

def close (socketId pid : Nat) : Sock Unit := do
  let s ← requireSocket socketId
  if s.pid ≠ pid then
    throw (.kernelError .EBADF
      ("socket " ++ toString socketId ++ " not owned by pid " ++ toString pid))
  else update fun t => t.destroySocket socketId

/-- Clean up all sockets owned by a process. -/
def closeAllForProcess (t : SocketTable) (pid : Nat) : SocketTable :=
  t.sockets.foldl
    (fun t id => if t.has id && (t.objs id).pid == pid then t.destroySocket id else t) t

/-! ### Pumps -/

/-- What the host's `read` has come back with. -/
inductive HostRead where
  | data (b : ByteArray8)
  | eof
  | failed

/-- The loop condition of the read pump. -/
def readPumpOn (t : SocketTable) (socketId host : Nat) : Bool :=
  (t.objs socketId).state != .closed && (t.objs socketId).hostSocket == some host

/-- A turn of the read pump. -/
def readPumped (socketId host : Nat) (r : HostRead) : Sock (Turn Unit) := do
  match r with
  | .data b =>
    update fun t => t.deliver socketId b
    if ← read (·.readPumpOn socketId host) then return .spawns () (.readPump socketId host)
    else return .done ()
  | .eof =>
    return .done (← update fun t =>
      (t.modify socketId ({ · with peerWriteClosed := true })).wakeReaders socketId)
  | .failed =>
    return .done (← update fun t =>
      if (t.objs socketId).state = .closed then t
      else (t.modify socketId ({ · with peerWriteClosed := true })).wakeReaders socketId)

/-- The loop condition of the accept pump. -/
def acceptPumpOn (t : SocketTable) (socketId host : Nat) : Bool :=
  (t.objs socketId).state == .listening && (t.objs socketId).hostListener == some host

/-- The pump goes on while the socket listens. -/
def pumpOn (socketId host : Nat) : Sock (Turn Unit) := do
  if ← read (·.acceptPumpOn socketId host) then return .spawns () (.acceptPump socketId host)
  else return .done ()

/-- A turn of the accept pump: the host has accepted `hostSocket`. -/
def acceptPumped (socketId host hostSocket : Nat) (known : Bool) : Sock (Turn Unit × Turn Unit) :=
  do
  let s ← read fun t => t.objs socketId
  if s.backlogLimit ≤ s.backlog.length then
    update fun t => { t with hostClosed := t.hostClosed ++ [hostSocket] }
    return (← pumpOn socketId host, .done ())
  else
    let connId ← create s.domain s.type s.protocol s.pid known
    update fun t => t.modify connId
      ({ · with
        state := .connected, external := true, hostSocket := some hostSocket,
        localAddr := (t.objs socketId).localAddr })
    update fun t =>
      (t.modify socketId fun s => { s with backlog := s.backlog ++ [connId] }).wakeAccepter socketId
    return (← pumpOn socketId host, .spawns () (.readPump connId hostSocket))

end SocketTable

end SecureExec.Socket
