import SecureExec.Kernel.LockWakeup
import SecureExec.Kernel.ReadOnly
import SecureExec.Kernel.LockOwner
import SecureExec.Kernel.SpawnTrace
import SecureExec.Kernel.Append
import SecureExec.Process.Sessions
import SecureExec.Process.Budget
import SecureExec.Process.Delivery
import SecureExec.Process.Masks
import SecureExec.Process.Waiters
import SecureExec.Kernel.Eof
import SecureExec.Kernel.Poll
import SecureExec.Socket.Routing
import SecureExec.Socket.Wakeup
import SecureExec.Socket.Hosts
import SecureExec.Vfs.Pruning
import SecureExec.Vfs.Renaming
import SecureExec.Vfs.Transactions
import SecureExec.Session.Promises
import SecureExec.Session.SnapshotCache
import SecureExec.Session.ModuleGraph
import SecureExec.Session.BridgeValues
import SecureExec.Node.MainFields
import SecureExec.Node.Patterns
import SecureExec.Node.StdinData
import SecureExec.Node.FdPosix
import SecureExec.Http.Timers
import SecureExec.Http.HostFiles
import SecureExec.Http.Responses
import SecureExec.Http.Connection
import SecureExec.Streams.Descriptors
import SecureExec.Streams.Ranges
import SecureExec.Streams.Writes
import SecureExec.Kernel.ReadBounds
import SecureExec.Kernel.TtyWrites
import SecureExec.Kernel.Paired
import SecureExec.Kernel.WriteFrame
import SecureExec.Socket.Readiness
import SecureExec.Socket.Failures
import SecureExec.Socket.Datagrams
import SecureExec.Node.SerializedValues
import SecureExec.Node.SandboxPaths
import SecureExec.Vfs.Buffering
