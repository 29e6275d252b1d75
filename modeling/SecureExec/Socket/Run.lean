import SecureExec.Lib.Lts
import SecureExec.Socket.Table

/-!
# Socket — Run — the socket table and its suspended calls

A `SocketSys` is the table with the calls that wait.  A step is a call up to its first `await`, or
a suspended call that goes on with what it waited for (`resume`), in any order.  A wait on a queue
of a socket goes on once its handle is settled, or when a signal ends it.
-/

namespace SecureExec.Socket
open SecureExec Kernel Turn

/-- What a suspended call gets. -/
inductive Answer where
  /-- The file system says whether the path exists; `known` is for the server-side socket. -/
  | pathExists (yes known : Bool)
  /-- The host gives an object: a listener on a port, a connection, or an accepted socket. -/
  | host (h port : Nat) (known : Bool)
  | read (r : SocketTable.HostRead)
  | datagram (d : UdpDatagram)
  /-- The call outside has been rejected. -/
  | failed
  | woken
  /-- A signal has come to the process, with SA_RESTART or without. -/
  | signal (restart : Bool) (number : Option Nat)

inductive SocketCall where
  | create (domain type protocol pid : Nat) (known : Bool)
  | setsockopt (socketId level optname : Nat) (optval : Int)
  | setNonBlocking (socketId : Nat) (nonBlocking : Bool)
  | bind (socketId : Nat) (addr : SockAddr)
  | listen (socketId : Nat) (backlogSize : Int) (external : Bool) (check : Option NetworkDecision)
  | accept (socketId : Nat) (block : Bool)
  | connect (socketId : Nat) (addr : SockAddr) (check : Option NetworkDecision) (known : Bool)
  | send (socketId : Nat) (data : ByteArray8) (flags : Flags) (check : Option NetworkDecision)
  | recv (socketId maxBytes : Nat) (flags : Flags) (block : Bool)
  | sendTo (socketId : Nat) (data : ByteArray8) (destAddr : SockAddr)
    (check : Option NetworkDecision)
  | recvFrom (socketId maxBytes : Nat) (flags : Flags)
  | bindExternalUdp (socketId : Nat) (check : Option NetworkDecision)
  | shutdown (socketId : Nat) (how : SocketTable.ShutdownHow)
  | socketpair (domain type protocol pid : Nat) (known : Bool)
  | close (socketId pid : Nat)
  | closeAllForProcess (pid : Nat)

inductive SocketAction where
  | call (c : SocketCall)
  | resume (i : Nat) (ans : Answer)

/-- What goes on after a turn. -/
def Turn.pending {α : Type} : Turn α → List Awaiting
  | .done _ => []
  | .waits c => [c]
  | .rejected _ c => [c]
  | .spawns _ c => [c]

open SocketTable in
/-- A call, up to what it leaves waiting. -/
def SocketCall.perform : SocketCall → Sock (List Awaiting)
  | .create domain type protocol pid known =>
    (fun _ => []) <$> SocketTable.create domain type protocol pid known
  | .setsockopt id level optname optval =>
    (fun _ => []) <$> SocketTable.setsockopt id level optname optval
  | .setNonBlocking id nonBlocking => (fun _ => []) <$> SocketTable.setNonBlocking id nonBlocking
  | .bind id addr => pending <$> SocketTable.bind id addr
  | .listen id backlogSize external check =>
    pending <$> SocketTable.listen id backlogSize external check
  | .accept id block => pending <$> SocketTable.accept id block
  | .connect id addr check known => pending <$> SocketTable.connect id addr check known
  | .send id data flags check => pending <$> SocketTable.send id data flags check
  | .recv id maxBytes flags block => pending <$> SocketTable.recv id maxBytes flags block
  | .sendTo id data destAddr check => (fun _ => []) <$> SocketTable.sendTo id data destAddr check
  | .recvFrom id maxBytes flags => (fun _ => []) <$> SocketTable.recvFrom id maxBytes flags
  | .bindExternalUdp id check => pending <$> SocketTable.bindExternalUdp id check
  | .shutdown id how => (fun _ => []) <$> SocketTable.shutdown id how
  | .socketpair domain type protocol pid known =>
    (fun _ => []) <$> SocketTable.socketpair domain type protocol pid known
  | .close id pid => (fun _ => []) <$> SocketTable.close id pid
  | .closeAllForProcess pid =>
    (fun _ => []) <$> (Prog.update fun t => t.closeAllForProcess pid : Sock PUnit)

open SocketTable in
/-- A suspended call with what it waited for; `none` when that is not what it waits for. -/
def Awaiting.resumed : Awaiting → Answer → Option (Sock (List Awaiting))
  | .bindExists id addr, .pathExists yes _ => some ((fun _ => []) <$> bindChecked id addr yes)
  | .connectExists id addr, .pathExists yes known =>
    some (pending <$> connectChecked id addr yes known)
  | .tcpListen id, .host h port _ => some (pending <$> tcpListening id h port)
  | .tcpConnect id addr, .host h _ _ => some (pending <$> attachHost id h addr)
  | .backgroundConnect id addr, .host h _ _ => some (pending <$> backgroundConnected id h addr)
  | .backgroundConnect id _, .failed => some (pending <$> backgroundFailed id)
  | .acceptPump id host, .host h _ known =>
    some ((fun r => r.1.pending ++ r.2.pending) <$> acceptPumped id host h known)
  | .readPump id host, .read r => some (pending <$> readPumped id host r)
  | .udpBind id, .host h _ _ => some (pending <$> udpBound id h)
  | .udpPump id host, .datagram d => some (pending <$> udpPumped id host d)
  | .hostWrite id, .failed => some (pending <$> hostWriteFailed id)
  | .hostWrite _, .woken => some (pure [])
  | .accept id handle, .woken => some (pending <$> acceptWoken id handle)
  | .accept id handle, .signal true _ => some (pending <$> acceptWoken id handle)
  | .accept id handle, .signal false number =>
    some (pending <$> acceptInterrupted id handle number)
  | .recv id maxBytes flags handle, .woken =>
    some (pending <$> recvWoken id maxBytes flags handle)
  | .recv id maxBytes flags handle, .signal true _ =>
    some (pending <$> recvWoken id maxBytes flags handle)
  | .recv id _ _ handle, .signal false number =>
    some (pending <$> recvInterrupted id handle number)
  -- the file system or the host has failed: the call is rejected, or the pump stops
  | .bindExists _ _, .failed => some (pure [])
  | .connectExists _ _, .failed => some (pure [])
  | .tcpListen _, .failed => some (pure [])
  | .tcpConnect _ _, .failed => some (pure [])
  | .acceptPump _ _, .failed => some (pure [])
  | .udpBind _, .failed => some (pure [])
  | .udpPump _ _, .failed => some (pure [])
  | _, _ => none

/-- A wait on a queue is woken once its handle is settled. -/
def Awaiting.ready (t : SocketTable) : Awaiting → Answer → Bool
  | .accept _ handle, .woken => t.waits.settled handle
  | .recv _ _ _ handle, .woken => t.waits.settled handle
  | _, _ => true

/-- The socket a suspended call is about. -/
def Awaiting.socketId : Awaiting → Nat
  | .bindExists id _ | .connectExists id _ | .tcpListen id | .tcpConnect id _
  | .backgroundConnect id _ | .acceptPump id _ | .readPump id _ | .hostWrite id | .udpBind id
  | .udpPump id _ | .accept id _ | .recv id _ _ _ => id

/-- A call on a queue of waiters. -/
def Awaiting.isWait : Awaiting → Bool
  | .accept _ _ | .recv _ _ _ _ => true
  | _ => false

structure SocketSys where
  table : SocketTable
  calls : List Awaiting

namespace SocketSys

def new (maxSockets : Nat) (vfs hostAdapter : Bool) : SocketSys :=
  ⟨.new maxSockets vfs hostAdapter, []⟩

/-- A program runs on the table; `calls` are the other calls that wait. -/
def run (s : SocketSys) (calls : List Awaiting) (p : Sock (List Awaiting)) : SocketSys :=
  let r := p.exec s.table
  ⟨r.2, calls ++ match r.1 with
    | .ok pending => pending
    | .error _ => []⟩

def step (s : SocketSys) : SocketAction → Option SocketSys
  | .call c => some (s.run s.calls c.perform)
  | .resume i ans =>
    match s.calls[i]? with
    | none => none
    | some c =>
      if c.ready s.table ans then (c.resumed ans).map (s.run (s.calls.eraseIdx i)) else none

end SocketSys

end SecureExec.Socket
