import Mathlib.Logic.Nontrivial.Basic
import SecureExec.Lib.Mealy
import SecureExec.Lib.PartialMap

/-!
# Http — HostFiles — the HTTP/2 stream handlers and the files of the host

A guest works on HTTP/2 streams through handlers of the host, which act on the host's own streams
or, for a push stream that does not exist yet, keep the action until it does.  All but one act on
what they are given.  `respondWithFile` hands the host a path, which the host opens in its own
filesystem.

* `Host`: the HTTP/2 streams of the host, with everything that they send.
* `Bridge.step`: the handlers, the opening of files and the host's own turns.  What a file is
  opened to is a parameter, `read`: the files of the host, or those of the sandbox.
* `files_confined`: a run sends the same and answers the same on hosts with any files, and the file
  responses carry the files of any sandbox, exactly when no call of `respondWithFile` gets its file
  opened.
-/

namespace Http2
open Mealy Function

/-- A stream object of the host. -/
abbrev Handle := ℕ

abbrev Bytes := List UInt8

/-- What is asked of a stream, apart from files. -/
inductive Call (J : Type) where
  | respond (headers : J)
  | write (data : Bytes)
  | «end» (data : Option Bytes)
  | close (rstCode : Option Int)
  deriving DecidableEq

/-- What a call on a stream of the host does: what is sent to the peer, and the result. -/
structure Reply (σ Frame : Type) where
  host : σ
  sent : List Frame
  result : Except String Bool

/-- What the host reports to the bridge in a turn of its own. -/
inductive Happening where
  /-- A stream has come up, from a peer or for a request of the guest. -/
  | stream (kind : String) (h : Handle)
  | closed (kind : String) (streamId : ℕ)
  /-- The callback of `pushStream`, for a push on stream `parent`. -/
  | pushed (parent pushStreamId : ℕ) (result : Except String (Option Handle))
  /-- Any other event that is passed on to the guest. -/
  | emit (kind : String) (id : ℕ) (payload : String)
  deriving DecidableEq

/-- The host: its JSON and base64 decoders and its HTTP/2 streams.  Its state is `σ`, what it finds
at a path is a `File`, and `Input` is what it gets from the peers. -/
structure Host (σ J File Frame Input : Type) where
  parse : String → Except String J
  stringify : J → String
  base64 : String → Bytes
  call : σ → Handle → Call J → Reply σ Frame
  pushStream : σ → Handle → J → J → ℕ → Reply σ Frame
  /-- The checks of `respondWithFile`, before the file is opened. -/
  respondWithFile : σ → Handle → String → J → J → Reply σ Frame
  /-- The rest of `respondWithFile`, when the file is open or could not be opened. -/
  opened : σ → Handle → J → J → File → σ × List Frame
  turn : σ → Input → σ × List Frame × List Happening

/-- An action on a stream, to be performed when there is a stream object. -/
inductive Action (J : Type) where
  | call (c : Call J)
  | respondWithFile (filePath : String) (headers options : J)
  deriving DecidableEq

/-- A file response whose file is not open yet. -/
structure Opening (J : Type) where
  handle : Handle
  filePath : String
  headers : J
  options : J
  deriving DecidableEq

/-- The host and the tables of the bridge. -/
structure Bridge (σ J : Type) where
  host : σ
  http2Streams : ℕ → Option Handle
  pendingHttp2PushStreams : ℕ → Option (List (Action J))
  nextHttp2StreamId : ℕ
  opening : List (Opening J)

/-- What a handler returns to the guest. -/
inductive Value where
  | undefined
  | bool (b : Bool)
  /-- The JSON text of a push stream's id and of its headers, themselves a JSON text. -/
  | push (streamId : ℕ) (headers : String)
  deriving DecidableEq

/-- What peers and the guest get to see, with the file that a response was made from. -/
inductive Note (File Frame : Type) where
  | sent (f : Frame)
  | returned (v : Value)
  | threw (message : String)
  | emitted (kind : String) (id : ℕ) (payload : String)
  | uncaught (message : String)
  | file (filePath : String) (content : File)
  deriving DecidableEq

inductive Event (Input : Type) where
  | respond (streamId : ℕ) (headersJson : String)
  | pushStream (streamId : ℕ) (headersJson optionsJson : String)
  | write (streamId : ℕ) (dataBase64 : String)
  | «end» (streamId : ℕ) (dataBase64 : Option String)
  | close (streamId : ℕ) (rstCode : Option Int)
  | respondWithFile (streamId : ℕ) (filePath headersJson optionsJson : String)
  | opened (i : ℕ)
  | turn (input : Input)
  deriving DecidableEq

/-- The path that the host opens; `execPath` is the host's own `process.execPath`. -/
def resolveHostHttp2FilePath (execPath filePath : String) : String :=
  if filePath = "/usr/bin/node" ∧ execPath ≠ "" then execPath else filePath

/-- What the host finds for a path that it is given. -/
def hostRead {File : Type} (execPath : String) (files : String → File) (filePath : String) : File :=
  files (resolveHostHttp2FilePath execPath filePath)

variable {σ J File Frame Input : Type}

def Host.parseJsonWithLimit (host : Host σ J File Frame Input) (limit : ℕ) (label text : String) :
    Except String J :=
  if text.utf8ByteSize ≤ limit then host.parse text
  else .error (s!"ERR_SANDBOX_PAYLOAD_TOO_LARGE: {label} exceeds {limit} bytes " ++
    s!"(got {text.utf8ByteSize})")

/-- What the guest is told of a stream id that is not in use. -/
def notFound (streamId : ℕ) : String := s!"HTTP/2 stream {streamId} not found"

namespace Bridge

variable (host : Host σ J File Frame Input) (s : Bridge σ J)

/-- An action on a stream object. -/
def perform (h : Handle) :
    Action J → Bridge σ J × List (Note File Frame) × Except String Bool
  | .call c =>
    let r := host.call s.host h c
    ({ s with host := r.host }, r.sent.map .sent, r.result)
  | .respondWithFile filePath headers options =>
    let r := host.respondWithFile s.host h filePath headers options
    match r.result with
    | .error e => ({ s with host := r.host }, r.sent.map .sent, .error e)
    | .ok b =>
      ({ s with host := r.host, opening := s.opening ++ [⟨h, filePath, headers, options⟩] },
        r.sent.map .sent, .ok b)

/-- The stream's own object acts, or the action waits for the push stream. -/
def withHttp2ServerStream (streamId : ℕ) (action : Action J) :
    Bridge σ J × List (Note File Frame) × Except String Bool :=
  match s.http2Streams streamId with
  | some h => s.perform host h action
  | none =>
    match s.pendingHttp2PushStreams streamId with
    | some operations =>
      ({ s with pendingHttp2PushStreams :=
          update s.pendingHttp2PushStreams streamId (some (operations ++ [action])) },
        [], .ok true)
    | none => (s, [], .error (notFound streamId))

/-- A handler that answers with `value` of the action's result. -/
def act (streamId : ℕ) (action : Action J) (value : Bool → Value) :
    Bridge σ J × List (Note File Frame) :=
  let (t, notes, result) := s.withHttp2ServerStream host streamId action
  match result with
  | .ok b => (t, notes ++ [.returned (value b)])
  | .error e => (t, notes ++ [.threw e])

/-- The actions that waited for a push stream; one that throws is the last. -/
def runOperations (h : Handle) :
    Bridge σ J → List (Action J) → Bridge σ J × List (Note File Frame) × Except String Unit
  | s, [] => (s, [], .ok ())
  | s, a :: as =>
    match s.perform host h a with
    | (t, notes, .error e) => (t, notes, .error e)
    | (t, notes, .ok _) =>
      let (u, more, r) := runOperations h t as
      (u, notes ++ more, r)

def push (h : Handle) (headers options : J) : Bridge σ J × List (Note File Frame) :=
  let pushStreamId := s.nextHttp2StreamId
  let r := host.pushStream s.host h headers options pushStreamId
  let t : Bridge σ J :=
    { s with
      host := r.host
      nextHttp2StreamId := s.nextHttp2StreamId + 1
      pendingHttp2PushStreams :=
        update s.pendingHttp2PushStreams pushStreamId (some []) }
  match r.result with
  | .error e => (t, r.sent.map .sent ++ [.threw e])
  | .ok _ =>
    (t, r.sent.map .sent ++ [.returned (.push pushStreamId (host.stringify headers))])

/-- What the bridge does about a report of the host. -/
def happen : Happening → Bridge σ J × List (Note File Frame)
  | .stream kind h =>
    ({ s with
        http2Streams := update s.http2Streams s.nextHttp2StreamId (some h)
        nextHttp2StreamId := s.nextHttp2StreamId + 1 },
      [.emitted kind s.nextHttp2StreamId ""])
  | .closed kind streamId =>
    ({ s with
        http2Streams := update s.http2Streams streamId none
        pendingHttp2PushStreams := update s.pendingHttp2PushStreams streamId none },
      [.emitted kind streamId ""])
  | .pushed parent pushStreamId (.error e) =>
    ({ s with
        pendingHttp2PushStreams := update s.pendingHttp2PushStreams pushStreamId none },
      [.emitted "serverStreamError" parent e])
  | .pushed _ pushStreamId (.ok none) =>
    ({ s with
        pendingHttp2PushStreams := update s.pendingHttp2PushStreams pushStreamId none }, [])
  | .pushed _ pushStreamId (.ok (some h)) =>
    let t := { s with http2Streams := update s.http2Streams pushStreamId (some h) }
    match runOperations host h t ((s.pendingHttp2PushStreams pushStreamId).getD []) with
    | (u, notes, .ok ()) =>
      ({ u with
          pendingHttp2PushStreams := update u.pendingHttp2PushStreams pushStreamId none },
        notes)
    | (u, notes, .error e) => (u, notes ++ [.uncaught e])
  | .emit kind id payload => (s, [.emitted kind id payload])

def happenAll : Bridge σ J → List Happening → Bridge σ J × List (Note File Frame) :=
  Mealy.run (happen host)

/-- The handlers, the opening of a file and a turn of the host.  `read` says what is found for a
path that a file response was given. -/
def step (limit : ℕ) (read : String → File) (s : Bridge σ J) :
    Event Input → Bridge σ J × List (Note File Frame)
  | .respond streamId headersJson =>
    match host.parseJsonWithLimit limit "network.http2Stream.respond headers" headersJson with
    | .error e => (s, [.threw e])
    | .ok headers => s.act host streamId (.call (.respond headers)) fun _ => .undefined
  | .pushStream streamId headersJson optionsJson =>
    match s.http2Streams streamId with
    | none => (s, [.threw (notFound streamId)])
    | some h =>
      match host.parseJsonWithLimit limit "network.http2Stream.pushStream headers" headersJson with
      | .error e => (s, [.threw e])
      | .ok headers =>
        match host.parseJsonWithLimit limit "network.http2Stream.pushStream options"
          optionsJson with
        | .error e => (s, [.threw e])
        | .ok options => s.push host h headers options
  | .write streamId dataBase64 =>
    s.act host streamId (.call (.write (host.base64 dataBase64))) .bool
  | .end streamId dataBase64 =>
    let data := (dataBase64.filter (· ≠ "")).map host.base64
    s.act host streamId (.call (.end data)) fun _ => .undefined
  | .close streamId rstCode => s.act host streamId (.call (.close rstCode)) fun _ => .undefined
  | .respondWithFile streamId filePath headersJson optionsJson =>
    match host.parseJsonWithLimit limit "network.http2Stream.respondWithFile headers"
      headersJson with
    | .error e => (s, [.threw e])
    | .ok headers =>
      match host.parseJsonWithLimit limit "network.http2Stream.respondWithFile options"
        optionsJson with
      | .error e => (s, [.threw e])
      | .ok options =>
        s.act host streamId (.respondWithFile filePath headers options) fun _ => .undefined
  | .opened i =>
    match s.opening[i]? with
    | none => (s, [])
    | some o =>
      let (σ', sent) := host.opened s.host o.handle o.headers o.options (read o.filePath)
      ({ s with host := σ', opening := s.opening.eraseIdx i },
        sent.map .sent ++ [.file o.filePath (read o.filePath)])
  | .turn input =>
    let (σ', sent, happenings) := host.turn s.host input
    let (t, notes) := happenAll host { s with host := σ' } happenings
    (t, sent.map .sent ++ notes)

/-! ### Which steps read a file -/

variable {host} {s}

/-- The step opens no file for a call of `respondWithFile`. -/
def OpensNone (s : Bridge σ J) (e : Event Input) : Prop :=
  ∀ i, e = .opened i → s.opening[i]? = none

/-- A file response carries the sandbox's file. -/
def OfSandbox (sandbox : String → File) (n : Note File Frame) : Prop :=
  ∀ filePath content, n = .file filePath content → content = sandbox filePath

/-- No file response among the notes. -/
def Fileless (notes : List (Note File Frame)) : Prop :=
  ∀ filePath content, .file filePath content ∉ notes

theorem fileless_sent (sent : List Frame) :
    Fileless (sent.map .sent : List (Note File Frame)) := by
  intro filePath content h
  obtain ⟨f, -, hf⟩ := List.mem_map.mp h
  cases hf

theorem Fileless.append {notes more : List (Note File Frame)} (h : Fileless notes)
    (h' : Fileless more) : Fileless (notes ++ more) := fun filePath content hm =>
  (List.mem_append.mp hm).elim (h filePath content) (h' filePath content)

theorem fileless_perform (h : Handle) (a : Action J) :
    Fileless (s.perform host h a).2.1 := by
  cases a with
  | call c => exact fileless_sent _
  | respondWithFile filePath headers options =>
      simp only [perform]
      split <;> exact fileless_sent _

theorem fileless_act (streamId : ℕ) (a : Action J) (value : Bool → Value) :
    Fileless (s.act host streamId a value).2 := by
  have h : Fileless (s.withHttp2ServerStream host streamId a).2.1 := by
    simp only [withHttp2ServerStream]
    split
    · exact fileless_perform _ _
    · split <;> simp [Fileless]
  simp only [act]
  split <;> exact h.append (by simp [Fileless])

theorem fileless_runOperations (h : Handle) (as : List (Action J)) :
    Fileless (runOperations host h s as).2.1 := by
  induction as generalizing s with
  | nil => simp [runOperations, Fileless]
  | cons a as ih =>
      have ha : Fileless (s.perform host h a).2.1 := fileless_perform h a
      simp only [runOperations]
      split
      · rename_i heq
        rw [heq] at ha
        exact ha
      · rename_i heq
        rw [heq] at ha
        exact ha.append ih

theorem fileless_happen (x : Happening) : Fileless (s.happen host x).2 := by
  cases x with
  | stream _ _ | closed _ _ | emit _ _ _ => simp [happen, Fileless]
  | pushed parent pushStreamId result =>
      rcases result with e | _ | h
      · simp [happen, Fileless]
      · simp [happen, Fileless]
      · have hr : Fileless (runOperations host h
            { s with http2Streams := update s.http2Streams pushStreamId (some h) }
            ((s.pendingHttp2PushStreams pushStreamId).getD [])).2.1 :=
          fileless_runOperations h _
        simp only [happen]
        split
        · rename_i heq
          rw [heq] at hr
          exact hr
        · rename_i heq
          rw [heq] at hr
          exact hr.append (by simp [Fileless])

theorem fileless_happenAll (xs : List Happening) : Fileless (happenAll host s xs).2 := by
  induction xs generalizing s with
  | nil => simp [happenAll, run, Fileless]
  | cons x xs ih => exact (fileless_happen x).append ih

variable {limit : ℕ} {read sandbox : String → File} {e : Event Input}

/-- Only the opening of a file makes a file response. -/
theorem fileless_step (he : ∀ i, e ≠ .opened i) : Fileless (s.step host limit read e).2 := by
  cases e with
  | opened i => exact absurd rfl (he i)
  | respond streamId headersJson =>
      simp only [step]
      split
      · simp [Fileless]
      · exact fileless_act _ _ _
  | pushStream streamId headersJson optionsJson =>
      simp only [step]
      split
      · simp [Fileless]
      · split
        · simp [Fileless]
        · split
          · simp [Fileless]
          · simp only [push]
            split <;> exact (fileless_sent _).append (by simp [Fileless])
  | write streamId dataBase64 | «end» streamId dataBase64 | close streamId rstCode =>
      exact fileless_act _ _ _
  | respondWithFile streamId filePath headersJson optionsJson =>
      simp only [step]
      split
      · simp [Fileless]
      · split
        · simp [Fileless]
        · exact fileless_act _ _ _
  | turn input => exact (fileless_sent _).append (fileless_happenAll _)

/-- A step that opens a file reports it, with what was found at the path. -/
theorem file_mem_step {i : ℕ} {o : Opening J} (ho : s.opening[i]? = some o) :
    .file o.filePath (read o.filePath) ∈ (s.step host limit read (.opened i)).2 := by
  simp [step, ho]

/-- A step that opens no file reports none. -/
theorem fileless_of_opensNone (h : s.OpensNone e) : Fileless (s.step host limit read e).2 := by
  by_cases he : ∃ i, e = .opened i
  · obtain ⟨i, rfl⟩ := he
    simp [step, h i rfl, Fileless]
  · exact fileless_step fun i hi => he ⟨i, hi⟩

/-- What a step opens is all that it gets to see of the files. -/
theorem step_of_opensNone (read' : String → File) (h : s.OpensNone e) :
    s.step host limit read e = s.step host limit read' e := by
  cases e with
  | opened i => simp only [step, h i rfl]
  | _ => rfl

/-! ### Runs -/

/-- No stream yet. -/
def init (σ₀ : σ) : Bridge σ J := ⟨σ₀, fun _ => none, fun _ => none, 1, []⟩

/-- **Hosts that differ only in their files send the same and answer the same, and their file
responses carry the files of the sandbox, just if no call of `respondWithFile` gets its file
opened**: for every sequence of calls and of turns of the host, whatever waits for push streams. -/
theorem files_confined [Nontrivial File] (execPath : String) (σ₀ : σ) (es : List (Event Input)) :
    (∀ sandbox files₁ files₂ : String → File,
      let r₁ := run (step host limit (hostRead execPath files₁)) (init σ₀) es
      r₁ = run (step host limit (hostRead execPath files₂)) (init σ₀) es ∧
        ∀ n ∈ r₁.2, OfSandbox sandbox n) ↔
    ∀ files : String → File,
      Along (step host limit (hostRead execPath files)) OpensNone (init σ₀) es := by
  constructor
  · intro h files
    -- a sandbox that has something else at every path
    choose sandbox hne using fun path => exists_ne (hostRead execPath files path)
    have hfiles := forall_run_iff.mp (h sandbox files files).2
    refine hfiles.mono fun s e hs i he => ?_
    subst he
    cases ho : s.opening[i]? with
    | none => rfl
    | some o => exact absurd (hs _ (file_mem_step ho) _ _ rfl).symm (hne o.filePath)
  · intro h sandbox files₁ files₂
    refine ⟨run_congr (h files₁) fun _ _ => step_of_opensNone _, forall_run_iff.mpr ?_⟩
    refine (h files₁).mono fun s e hs n hn filePath content hfile => ?_
    subst hfile
    exact absurd hn (fileless_of_opensNone hs _ _)

/-! ### A file of the host, sent to a peer -/

inductive PlainFrame where
  | headers (h : Handle) (headers : String)
  | data (h : Handle) (data : Bytes)
  | reset (h : Handle)
  deriving DecidableEq

/-- A host whose streams send what they are given, on which the headers are sent once; its state
says of which streams they are.  A file that is missing resets the stream. -/
def plainHost : Host (List Bool) String (Option Bytes) PlainFrame Unit where
  parse := .ok
  stringify := id
  base64 := fun _ => []
  call := fun σ h c =>
    match c with
    | .respond headers =>
      if σ[h]? = some false then ⟨σ.set h true, [.headers h headers], .ok true⟩
      else ⟨σ, [], .error "Response has already been initiated."⟩
    | .write data => ⟨σ.set h true, [.data h data], .ok true⟩
    | .end data => ⟨σ.set h true, [.data h (data.getD [])], .ok true⟩
    | .close _ => ⟨σ, [.reset h], .ok true⟩
  pushStream := fun σ _ _ _ _ => ⟨σ, [], .ok true⟩
  respondWithFile := fun σ h _ _ _ =>
    if σ[h]? = some false then ⟨σ, [], .ok true⟩
    else ⟨σ, [], .error "Response has already been initiated."⟩
  opened := fun σ h headers _ file =>
    match file with
    | none => (σ, [.reset h])
    | some content => (σ.set h true, [.headers h headers, .data h content])
  turn := fun σ _ => (σ ++ [false], [], [.stream "serverStream" σ.length])

/-- A guest answers a request and then with a file, which the host does not take: nothing is opened. -/
theorem files_confined_answered :
    let es : List (Event Unit) :=
      [.turn (), .respond 1 "h", .respondWithFile 1 "/etc/shadow" "h" "o", .opened 0]
    let r₁ := run (step plainHost 1024 (hostRead "" fun _ => some [1])) (init []) es
    r₁ = run (step plainHost 1024 (hostRead "" fun _ => some [2])) (init []) es ∧
      ∀ n ∈ r₁.2, OfSandbox (fun _ => none) n := by
  intro es
  refine (files_confined "" [] es).mpr (fun _ => ?_) _ _ _
  exact ⟨nofun, nofun, nofun, fun i h => by cases h; rfl, trivial⟩

/-- A guest answers a request with `/etc/shadow`, which the sandbox does not have: the peer gets the
host's file, and so something else from each of two hosts. -/
theorem host_file_sent :
    let es : List (Event Unit) :=
      [.turn (), .respondWithFile 1 "/etc/shadow" "\x7b\x7d" "\x7b\x7d", .opened 0]
    let files (content : Bytes) (path : String) : Option Bytes :=
      if path = "/etc/shadow" then some content else none
    let sent (content : Bytes) : List (Note (Option Bytes) PlainFrame) :=
      (run (step plainHost 1024 (hostRead "" (files content))) (init []) es).2
    sent [1] ≠ sent [2] ∧
      ∀ content ∈ [[1], [2]], ∃ n ∈ sent content, ¬ OfSandbox (fun _ => none) n := by
  have h : ∀ content ∈ [[(1 : UInt8)], [2]],
      (run (step plainHost 1024 (hostRead "" fun path =>
        if path = "/etc/shadow" then some content else none)) (init [])
        [.turn (), .respondWithFile 1 "/etc/shadow" "\x7b\x7d" "\x7b\x7d", .opened 0]).2 =
      [.emitted "serverStream" 1 "", .returned .undefined, .sent (.headers 0 "\x7b\x7d"),
        .sent (.data 0 content), .file "/etc/shadow" (some content)] := by
    decide +kernel
  refine ⟨?_, fun content hc => ⟨.file "/etc/shadow" (some content), ?_, fun ho => ?_⟩⟩
  · dsimp only
    rw [h [1] (by simp), h [2] (by simp)]
    decide
  · dsimp only
    rw [h content hc]
    simp
  · cases ho _ _ rfl

end Bridge
end Http2
