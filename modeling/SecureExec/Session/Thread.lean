import SecureExec.Ipc.Native

/-!
# Session — Thread — what one session thread does

`session_thread` of `session.rs` as a machine.  The thread reads one channel in three places: the
command loop, the event loop, and the wait for the response to a synchronous bridge call.  The
JavaScript engine runs between those reads; what it does there is given from outside: it makes
bridge calls, and it returns with an `Answer`.

* `Thread.next`: the thread's own next move, where the engine does not run.
* `Thread.answered`: what follows when the engine returns.
* `Execution.resultFrame`: the answer to an `Execute` frame.

A move reports what happened as a list of `Note`s.  They are history: no move reads them.
-/

namespace Session
open Ipc.Native

/-! ### Values -/

/-- `ExecutionError` of `ipc.rs`. -/
structure ExecutionError where
  errorType : String
  message : String
  stack : String
  code : Option String
  deriving DecidableEq

def ExecutionError.toBin (e : ExecutionError) : ExecutionErrorBin :=
  ⟨e.errorType, e.message, e.stack, e.code.getD ""⟩

/-- Commands sent to a session thread. -/
inductive SessionCommand where
  | shutdown
  | message (frame : BinaryFrame)
  deriving DecidableEq

inductive EventLoopStatus where
  | completed
  | terminated
  | failed (code : Int32) (error : ExecutionError)
  deriving DecidableEq

/-- A V8 isolate: fresh, or restored from the snapshot of some bridge code. -/
structure Isolate where
  fromSnapshot : Option String
  deriving DecidableEq

/-- What the engine is given for one execution. -/
structure Setup where
  isolate : Isolate
  globals : Option (List UInt8)
  postRestoreScript : String
  /-- `bridge_code_for_exec`. -/
  bridgeCode : String
  userCode : String
  filePath : Option String
  mode : UInt8
  deriving DecidableEq

/-- The evaluations that the engine holds: `some true` is one whose promise is pending. -/
structure Evaluations where
  module : Option Bool
  script : Option Bool
  deriving DecidableEq

namespace Evaluations

def none : Evaluations := ⟨.none, .none⟩

/-- `pending_module_evaluation_needs_wait || pending_script_evaluation_needs_wait`. -/
def needsWait (e : Evaluations) : Bool := e.module == some true || e.script == some true

end Evaluations

/-- What the engine returns: the exit code, exports and error it reports, if it reports any, and
the evaluations it now holds. -/
structure Answer where
  result : Option (Int32 × Option (List UInt8) × Option ExecutionError)
  evaluations : Evaluations
  deriving DecidableEq

/-! ### Control -/

/-- The two calls of `run_event_loop`. -/
inductive Loop where
  | entry
  | handles
  deriving DecidableEq

/-- Where a frame that the event loop dispatches comes from, with the frames after it: drained
before blocking, drained while polling, or read from the channel. -/
inductive Source where
  | drained (rest : List BinaryFrame)
  | polled (rest : List BinaryFrame)
  | channel
  deriving DecidableEq

/-- Where the engine was called. -/
inductive Site where
  | initScript
  | script
  | finalizeFirst
  | dispatch (l : Loop) (src : Source)
  | flush (l : Loop)
  | poll (l : Loop)
  | finalizeModule
  | waitForActiveHandles
  | finalizeScript
  deriving DecidableEq

/-- A point of the `Execute` arm. -/
inductive Point where
  | engine (s : Site)
  /-- `recv_response`, called by a synchronous bridge call. -/
  | recvResponse (callId : UInt64) (s : Site)
  /-- The condition of the loop. -/
  | test (l : Loop)
  /-- The `for` loop over drained frames. -/
  | frames (l : Loop) (src : Source)
  /-- Blocked on the channel. -/
  | recv (l : Loop)
  | sendResult
  deriving DecidableEq

/-- The variables of the `Execute` arm. -/
structure Execution where
  sessionId : String
  setup : Setup
  deferred : List BinaryFrame
  evaluations : Evaluations
  code : Int32
  exports : Option (List UInt8)
  error : Option ExecutionError
  terminated : Bool
  /-- Whether the timeout guard exists, and whether it fired. -/
  guard : Bool
  timedOut : Bool
  deriving DecidableEq

inductive Control where
  | commandLoop
  | running (x : Execution) (p : Point)
  | stopped
  deriving DecidableEq

/-- The variables of `session_thread`, with the channel it reads. -/
structure Thread where
  cpuTimeLimit : Bool
  rx : List SessionCommand
  /-- Whether the sender of the channel was dropped. -/
  closed : Bool
  v8Isolate : Option Isolate
  lastGlobalsPayload : Option (List UInt8)
  lastBridgeCode : Option String
  /-- The keys of `PendingPromises`. -/
  pending : List UInt64
  control : Control
  deriving DecidableEq

/-- A thread that has just been spawned. -/
def Thread.spawn (cpuTimeLimit : Bool) : Thread where
  cpuTimeLimit := cpuTimeLimit
  rx := []
  closed := false
  v8Isolate := none
  lastGlobalsPayload := none
  lastBridgeCode := none
  pending := []
  control := .commandLoop

/-! ### What a move reports -/

inductive Note where
  /-- The connection put a frame on the session's channel. -/
  | forwarded (frame : BinaryFrame)
  /-- The command loop read a frame: it had an effect, or it was ignored. -/
  | took (frame : BinaryFrame)
  | ignored (frame : BinaryFrame)
  /-- A frame was read from the channel while an execution ran, to be dispatched. -/
  | received (frame : BinaryFrame)
  | dispatched (frame : BinaryFrame)
  | issued (callId : UInt64)
  /-- A response completed a call. -/
  | completed (callId : UInt64) (frame : BinaryFrame)
  /-- A synchronous call failed with no response. -/
  | abandoned (callId : UInt64)
  | ended (x : Execution)
  deriving DecidableEq

/-! ### The start of an execution -/

/-- The bridge code in effect: an empty frame field means the cached code. -/
def Thread.effectiveBridgeCode (t : Thread) (bridgeCode : String) : String :=
  if bridgeCode.isEmpty then t.lastBridgeCode.getD "" else bridgeCode

/-- `snapshot` is what the snapshot cache gives for `code`: the bridge code that the blob was made
from, if there is one. -/
def createIsolate (snapshot : Option String) (code : String) : Isolate :=
  if code.isEmpty then ⟨none⟩ else ⟨snapshot⟩

/-- The `Execute` arm up to the first use of the engine. -/
def Thread.execute (t : Thread) (snapshot : Option String) (sessionId : String) (mode : UInt8)
    (filePath bridgeCode postRestoreScript userCode : String) : Thread :=
  let effective := t.effectiveBridgeCode bridgeCode
  let iso := t.v8Isolate.getD (createIsolate snapshot effective)
  let setup : Setup :=
    { isolate := iso
      globals := t.lastGlobalsPayload
      postRestoreScript := postRestoreScript
      bridgeCode := if iso.fromSnapshot.isSome then "" else effective
      userCode := userCode
      filePath := if filePath.isEmpty then none else some filePath
      mode := mode }
  let x : Execution :=
    { sessionId := sessionId
      setup := setup
      deferred := []
      evaluations := .none
      code := 0
      exports := none
      error := none
      terminated := false
      guard := false
      timedOut := false }
  { t with
    lastBridgeCode := if bridgeCode.isEmpty then t.lastBridgeCode else some bridgeCode
    v8Isolate := some iso
    control :=
      if postRestoreScript.isEmpty then
        .running { x with guard := t.cpuTimeLimit } (.engine .script)
      else .running x (.engine .initScript) }

/-! ### The result -/

def timedOutError : ExecutionErrorBin :=
  ⟨"Error", "Script execution timed out", "", "ERR_SCRIPT_EXECUTION_TIMEOUT"⟩

def terminatedError : ExecutionErrorBin :=
  ⟨"Error", "Execution terminated", "", ""⟩

/-- The frame that answers the execution. -/
def Execution.resultFrame (x : Execution) : BinaryFrame :=
  if x.timedOut then
    .executionResult x.sessionId 1 none (some timedOutError)
  else if x.terminated then
    .executionResult x.sessionId 1 none (some terminatedError)
  else .executionResult x.sessionId x.code x.exports (x.error.map ExecutionError.toBin)

/-- What `send_message` hands to the writer thread: nothing, when the frame is not encoded. -/
def sendMessage (frame : BinaryFrame) : List (List UInt8) :=
  match encodeFrameInto frame with
  | .ok bytes => [bytes]
  | .error _ => []

/-! ### Moves -/

/-- A move of the thread: the thread after it, what it hands to the writer thread, and what it
reports. -/
structure Move where
  thread : Thread
  out : List (List UInt8)
  notes : List Note
  deriving DecidableEq

namespace Thread

def goto (t : Thread) (x : Execution) (p : Point) : Thread := { t with control := .running x p }

/-- A move inside the execution. -/
def moved (t : Thread) (x : Execution) (p : Point) (notes : List Note) : Move :=
  ⟨t.goto x p, [], notes⟩

end Thread

namespace Execution

/-- Whether a module runs that has no error so far. -/
def moduleGoesOn (x : Execution) : Bool := !x.terminated && x.setup.mode != 0 && x.error.isNone

/-- A result that the engine reports replaces the one so far. -/
def report (x : Execution) (a : Answer) : Execution :=
  match a.result with
  | some (code, exports, error) => { x with code, exports, error, evaluations := a.evaluations }
  | none => { x with evaluations := a.evaluations }

/-- After the event loops: a script's own promise is looked at once more. -/
def beforeResult (x : Execution) : Point :=
  if !x.terminated && x.setup.mode == 0 && x.error.isNone then .engine .finalizeScript
  else .sendResult

def afterEntry (x : Execution) : Point :=
  if x.moduleGoesOn then .engine .finalizeModule else x.beforeResult

/-- `should_enter_event_loop`. -/
def enterLoop (x : Execution) (pending : List UInt64) : Point :=
  if !pending.isEmpty || x.evaluations.module.isSome || x.evaluations.script.isSome ||
      !x.deferred.isEmpty then .test .entry
  else x.afterEntry

/-- After `_waitForActiveHandles`: the second event loop, if there is work for it. -/
def enterHandles (x : Execution) (pending : List UInt64) : Point :=
  if !pending.isEmpty || x.evaluations.script.isSome || !x.deferred.isEmpty then .test .handles
  else x.beforeResult

/-- What the status of an event loop changes. -/
def leave (x : Execution) : EventLoopStatus → Execution
  | .completed => x
  | .terminated => { x with terminated := true }
  | .failed code error => { x with code, error := some error }

/-- Where the arm goes on after an event loop. -/
def afterLoop (x : Execution) : Loop → Point
  | .entry => x.afterEntry
  | .handles => x.beforeResult

/-- Nothing is left that the event loop waits for. -/
def quiet (x : Execution) (pending : List UInt64) : Bool :=
  pending.isEmpty && !x.evaluations.needsWait

end Execution

namespace Thread

/-- `run_event_loop` returns. -/
def leaveLoop (t : Thread) (x : Execution) (l : Loop) (st : EventLoopStatus) (notes : List Note) :
    Move :=
  t.moved (x.leave st) ((x.leave st).afterLoop l) notes

/-- `PendingPromises::remove`. -/
def removePending (t : Thread) (callId : UInt64) : Thread :=
  { t with pending := t.pending.erase callId }

/-- `PendingPromises::insert`. -/
def insertPending (t : Thread) (callId : UInt64) : Thread :=
  { t with pending := if callId ∈ t.pending then t.pending else t.pending ++ [callId] }

/-- `dispatch_event_loop_frame`. -/
def dispatch (t : Thread) (x : Execution) (l : Loop) (src : Source) (frame : BinaryFrame)
    (notes : List Note) : Move :=
  match frame with
  | .bridgeResponse _ callId _ _ =>
    if callId ∈ t.pending then
      (t.removePending callId).moved x (.engine (.dispatch l src))
        (notes ++ [.dispatched frame, .completed callId frame])
    else t.moved x (.frames l src) (notes ++ [.dispatched frame])
  | .streamEvent _ _ _ =>
    t.moved x (.engine (.dispatch l src)) (notes ++ [.dispatched frame])
  | .terminateExecution _ => t.leaveLoop x l .terminated (notes ++ [.dispatched frame])
  | _ => t.moved x (.frames l src) (notes ++ [.dispatched frame])

/-- The `for` loop over frames: the next frame, or what comes after the last one. -/
def nextFrame (t : Thread) (x : Execution) (l : Loop) : Source → Move
  | .drained (f :: rest) => t.dispatch x l (.drained rest) f []
  | .drained [] =>
    if x.quiet t.pending then t.leaveLoop x l .completed []
    else t.moved x (.engine (.flush l)) []
  | .polled (f :: rest) => t.dispatch x l (.polled rest) f []
  | .polled [] =>
    if x.quiet t.pending && x.deferred.isEmpty then t.leaveLoop x l .completed []
    else t.moved x (.recv l) []
  | .channel => t.moved x (.test l) []

/-- The condition of the loop, and the drain that its body starts with. -/
def testLoop (t : Thread) (x : Execution) (l : Loop) : Move :=
  if !x.quiet t.pending || !x.deferred.isEmpty then
    t.moved { x with deferred := [] } (.frames l (.drained x.deferred)) []
  else t.leaveLoop x l .completed []

/-- The end of the `Execute` arm. -/
def finish (t : Thread) (x : Execution) : Move :=
  ⟨{ t with control := .commandLoop }, sendMessage x.resultFrame, [.ended x]⟩

/-- A command that the command loop has read. -/
def command (t : Thread) (snapshot : Option String) : SessionCommand → Move
  | .shutdown => ⟨{ t with control := .stopped }, [], []⟩
  | .message (.injectGlobals sid payload) =>
    ⟨{ t with lastGlobalsPayload := some payload }, [], [.took (.injectGlobals sid payload)]⟩
  | .message (.execute sid mode fp bc prs uc) =>
    ⟨t.execute snapshot sid mode fp bc prs uc, [], [.took (.execute sid mode fp bc prs uc)]⟩
  | .message frame => ⟨t, [], [.ignored frame]⟩

/-- A command that `recv_response` has read. -/
def response (t : Thread) (x : Execution) (callId : UInt64) (s : Site) : SessionCommand → Move
  | .shutdown => t.moved x (.engine s) [.abandoned callId]
  | .message (.bridgeResponse sid id status payload) =>
    if id = callId then
      t.moved x (.engine s) [.completed callId (.bridgeResponse sid id status payload)]
    else
      t.moved { x with deferred := x.deferred ++ [.bridgeResponse sid id status payload] }
        (.recvResponse callId s) [.received (.bridgeResponse sid id status payload)]
  | .message frame =>
    t.moved { x with deferred := x.deferred ++ [frame] } (.recvResponse callId s)
      [.received frame]

/-- A command that the event loop has read. -/
def loopCommand (t : Thread) (x : Execution) (l : Loop) : SessionCommand → Move
  | .shutdown => t.leaveLoop x l .terminated []
  | .message frame => t.dispatch x l .channel frame [.received frame]

/-- The thread's next move where the engine does not run; `snapshot` is what the snapshot cache
gives. -/
def next (t : Thread) (snapshot : Option String) : Option Move :=
  match t.control with
  | .commandLoop =>
    match t.rx with
    | cmd :: rx => some ({ t with rx }.command snapshot cmd)
    | [] => if t.closed then some ⟨{ t with control := .stopped }, [], []⟩ else none
  | .running x (.recvResponse callId s) =>
    match t.rx with
    | cmd :: rx => some ({ t with rx }.response x callId s cmd)
    | [] => if t.closed then some (t.moved x (.engine s) [.abandoned callId]) else none
  | .running x (.test l) => some (t.testLoop x l)
  | .running x (.frames l src) => some (t.nextFrame x l src)
  | .running x (.recv l) =>
    match t.rx with
    | cmd :: rx => some ({ t with rx }.loopCommand x l cmd)
    | [] => none
  | .running x .sendResult => some (t.finish x)
  | .running _ (.engine _) => none
  | .stopped => none

/-- The receive timeout of one millisecond: microtasks are flushed. -/
def tick (t : Thread) : Option Move :=
  match t.control with
  | .running x (.recv l) =>
    if t.rx.isEmpty && !x.timedOut then some (t.moved x (.engine (.poll l)) []) else none
  | _ => none

/-- The timer of the timeout guard fires. -/
def timeout (t : Thread) : Option Move :=
  match t.control with
  | .running x p => if x.guard then some (t.moved { x with timedOut := true } p []) else none
  | _ => none

/-- A reader sees that the abort channel is closed. -/
def abort (t : Thread) : Option Move :=
  match t.control with
  | .running x (.recvResponse callId s) =>
    if x.timedOut then some (t.moved x (.engine s) [.abandoned callId]) else none
  | .running x (.recv l) => if x.timedOut then some (t.leaveLoop x l .terminated []) else none
  | _ => none

/-- The engine returns to the place it was called from. -/
def answered (t : Thread) (a : Answer) : Option Move :=
  match t.control with
  | .running x (.engine .initScript) =>
    match a.result with
    | some (code, _, error) =>
      if code ≠ 0 then some (t.moved { x with code, error } .sendResult [])
      else some (t.moved { x with evaluations := a.evaluations, guard := t.cpuTimeLimit }
        (.engine .script) [])
    | none => none
  | .running x (.engine .script) =>
    match a.result with
    | some (code, exports, error) =>
      let exports := if x.setup.mode = 0 then none else exports
      let x := { x with code, exports, error, evaluations := a.evaluations }
      if x.setup.mode ≠ 0 ∧ error = none then some (t.moved x (.engine .finalizeFirst) [])
      else some (t.moved x (x.enterLoop t.pending) [])
    | none => none
  | .running x (.engine .finalizeFirst) =>
    some (t.moved (x.report a) ((x.report a).enterLoop t.pending) [])
  | .running x (.engine (.dispatch l src)) =>
    let x := { x with evaluations := a.evaluations }
    match a.result with
    | some (code, _, some error) => some (t.leaveLoop x l (.failed code error) [])
    | some (_, _, none) => none
    | none => some (t.moved x (.frames l src) [])
  | .running x (.engine (.flush l)) =>
    let x := { x with evaluations := a.evaluations }
    if x.quiet t.pending && x.deferred.isEmpty then some (t.leaveLoop x l .completed [])
    else some (t.moved x (.recv l) [])
  | .running x (.engine (.poll l)) =>
    let x := { x with evaluations := a.evaluations }
    some (t.moved { x with deferred := [] } (.frames l (.polled x.deferred)) [])
  | .running x (.engine .finalizeModule) =>
    let x := x.report a
    if x.moduleGoesOn then some (t.moved x (.engine .waitForActiveHandles) [])
    else some (t.moved x x.beforeResult [])
  | .running x (.engine .waitForActiveHandles) =>
    let x := { x with evaluations := a.evaluations }
    some (t.moved x (x.enterHandles t.pending) [])
  | .running x (.engine .finalizeScript) =>
    match a.result with
    | some (code, _, error) =>
      some (t.moved { x with code, error, evaluations := a.evaluations } .sendResult [])
    | none => some (t.moved { x with evaluations := a.evaluations } .sendResult [])
  | _ => none

end Thread

end Session
