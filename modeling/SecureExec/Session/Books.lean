import SecureExec.Lib.Ledger
import SecureExec.Session.Frames

/-!
# Session — Books — a session's calls and frames, and what its history says of them

A session's frames are unread on its channel, or read and waiting to be dispatched.  Its calls are
open: one that the thread waits for, and those whose promise is pending.  `Books` says that these
are what the history leaves: of the calls, by the ledger of `Lib/Ledger`, and of the frames, by
their order of arrival.

There is one rule for each thing that a session does with a frame or a call.
-/

namespace Session
open Ipc.Native Ledger Thread

/-! ### What the history says -/

/-- The call that a frame answers. -/
def response? : BinaryFrame → Option UInt64
  | .bridgeResponse _ callId _ _ => some callId
  | _ => none

/-- What a note says of the session's calls. -/
def Note.entry? : Note → Option (Entry UInt64 BinaryFrame)
  | .issued callId => some (.issued callId)
  | .forwarded f => some (.arrived f)
  | .completed callId f => some (.completed callId f)
  | .abandoned callId => some (.abandoned callId)
  | _ => none

def entries (ns : List Note) : List (Entry UInt64 BinaryFrame) := ns.filterMap Note.entry?

/-- The frames that were put on the session's channel. -/
def arrivals (ns : List Note) : List BinaryFrame :=
  ns.filterMap fun
    | .forwarded f => some f
    | _ => none

/-- Those that were read while an execution ran, to be dispatched. -/
def receptions (ns : List Note) : List BinaryFrame :=
  ns.filterMap fun
    | .received f => some f
    | _ => none

def dispatches (ns : List Note) : List BinaryFrame :=
  ns.filterMap fun
    | .dispatched f => some f
    | _ => none

/-- Those that the command loop read. -/
def commands (ns : List Note) : List BinaryFrame :=
  ns.filterMap fun
    | .took f => some f
    | .ignored f => some f
    | _ => none

section

variable (ns ms : List Note)

@[simp] theorem entries_append : entries (ns ++ ms) = entries ns ++ entries ms :=
  List.filterMap_append

@[simp] theorem arrivals_append : arrivals (ns ++ ms) = arrivals ns ++ arrivals ms :=
  List.filterMap_append

@[simp] theorem receptions_append : receptions (ns ++ ms) = receptions ns ++ receptions ms :=
  List.filterMap_append

@[simp] theorem dispatches_append : dispatches (ns ++ ms) = dispatches ns ++ dispatches ms :=
  List.filterMap_append

@[simp] theorem commands_append : commands (ns ++ ms) = commands ns ++ commands ms :=
  List.filterMap_append

variable {e : Entry UInt64 BinaryFrame}

theorem mem_entries {n : Note} (h : n.entry? = some e)
    (hinj : ∀ m : Note, m.entry? = some e → m = n) : e ∈ entries ns ↔ n ∈ ns := by
  rw [entries, List.mem_filterMap]
  constructor
  · rintro ⟨m, hm, he⟩
    rw [← hinj m he]
    exact hm
  · intro hn
    exact ⟨n, hn, h⟩

theorem entry?_inj {m n : Note} (hn : n.entry? = some e) (hm : m.entry? = some e) : m = n := by
  cases n <;> cases m <;> cases hn <;> cases hm <;> rfl

variable {callId : UInt64}

@[simp] theorem mem_entries_issued :
    .issued callId ∈ entries ns ↔ .issued callId ∈ ns :=
  mem_entries ns rfl fun _ => entry?_inj rfl

variable {f : BinaryFrame}

@[simp] theorem mem_entries_arrived :
    .arrived f ∈ entries ns ↔ .forwarded f ∈ ns :=
  mem_entries ns rfl fun _ => entry?_inj rfl

@[simp] theorem mem_entries_completed :
    .completed callId f ∈ entries ns ↔ .completed callId f ∈ ns :=
  mem_entries ns rfl fun _ => entry?_inj rfl

@[simp] theorem mem_entries_abandoned :
    .abandoned callId ∈ entries ns ↔ .abandoned callId ∈ ns :=
  mem_entries ns rfl fun _ => entry?_inj rfl

theorem responds_iff :
    Responds callId f ↔ response? f = some callId := by
  cases f <;> simp [Responds, response?]

end

/-! ### The books -/

/-- `rx`: the frames on the channel; `waiting`: those that were read and are not yet dispatched;
`awaited`: the call that the thread waits for; `pending`: the calls with a promise. -/
structure Books (rx waiting : List BinaryFrame) (awaited : Option UInt64) (pending : List UInt64)
    (ns : List Note) : Prop where
  ledger : Balanced response? (rx ++ waiting) (awaited.toList ++ pending) (entries ns)
  /-- Frames are dispatched in the order in which they were read. -/
  order : receptions ns = dispatches ns ++ waiting
  /-- Frames are read in the order in which they arrived. -/
  arrival : (receptions ns ++ rx).Sublist (arrivals ns)
  /-- Every frame that arrived is on the channel, or was read: as a command, to be dispatched, or
  as the answer that a call waited for. -/
  read : ∃ answers : List BinaryFrame, (∀ f ∈ answers, ∃ callId, .completed callId f ∈ ns) ∧
    (arrivals ns).Perm (commands ns ++ receptions ns ++ answers ++ rx)

namespace Books

variable {rx waiting : List BinaryFrame} {awaited : Option UInt64} {pending : List UInt64}
  {ns : List Note} {f : BinaryFrame} {callId : UInt64}

theorem empty : Books [] [] none [] [] where
  ledger := .empty
  order := rfl
  arrival := List.Sublist.refl _
  read := ⟨[], by simp, List.Perm.refl _⟩

/-- A note that moves no frame. -/
theorem read_append {ms : List Note} {answers : List BinaryFrame}
    (h : ∀ f ∈ answers, ∃ callId, Note.completed callId f ∈ ns) :
    ∀ f ∈ answers, ∃ callId, Note.completed callId f ∈ ns ++ ms := by
  intro f hf
  obtain ⟨callId, hc⟩ := h f hf
  exact ⟨callId, List.mem_append_left _ hc⟩

/-- Notes that say nothing of frames. -/
theorem still (b : Books rx waiting awaited pending ns) {ms : List Note} {awaited' : Option UInt64}
    {pending' : List UInt64}
    (hms : ∀ n ∈ ms, (∃ id, n = .issued id) ∨ (∃ id, n = .abandoned id) ∨ ∃ x, n = .ended x)
    (hl : Balanced response? (rx ++ waiting) (awaited'.toList ++ pending') (entries (ns ++ ms))) :
    Books rx waiting awaited' pending' (ns ++ ms) := by
  have hnone : ∀ {g : Note → Option BinaryFrame}, (∀ id, g (.issued id) = none) →
      (∀ id, g (.abandoned id) = none) → (∀ x, g (.ended x) = none) → ms.filterMap g = [] := by
    intro g hi ha he
    rw [List.filterMap_eq_nil_iff]
    intro n hn
    rcases hms n hn with ⟨id, rfl⟩ | ⟨id, rfl⟩ | ⟨x, rfl⟩
    · exact hi id
    · exact ha id
    · exact he x
  have harr : arrivals ms = [] := hnone (fun _ => rfl) (fun _ => rfl) fun _ => rfl
  have hrec : receptions ms = [] := hnone (fun _ => rfl) (fun _ => rfl) fun _ => rfl
  have hdisp : dispatches ms = [] := hnone (fun _ => rfl) (fun _ => rfl) fun _ => rfl
  have hcmd : commands ms = [] := hnone (fun _ => rfl) (fun _ => rfl) fun _ => rfl
  obtain ⟨answers, hans, hperm⟩ := b.read
  refine ⟨hl, ?_, ?_, answers, read_append hans, ?_⟩
  · simpa [hrec, hdisp] using b.order
  · simpa [hrec, harr] using b.arrival
  · simpa [hrec, harr, hcmd] using hperm

/-- A synchronous call is sent. -/
theorem waits (b : Books rx waiting none pending ns) (h : .issued callId ∉ ns) :
    Books rx waiting (some callId) pending (ns ++ [.issued callId]) := by
  refine b.still (by simp) ?_
  rw [entries_append]
  exact b.ledger.issue (by simpa using h)

/-- An asynchronous call is sent. -/
theorem promises (b : Books rx waiting none pending ns) (h : .issued callId ∉ ns) :
    Books rx waiting none (pending ++ [callId]) (ns ++ [.issued callId]) := by
  refine b.still (by simp) ?_
  rw [entries_append]
  refine (b.ledger.issue (i := callId) (by simpa using h)).perm (List.Perm.refl _) ?_
  exact (List.perm_append_singleton callId pending).symm

/-- The thread stops waiting for a call. -/
theorem abandons (b : Books rx waiting (some callId) pending ns) :
    Books rx waiting none pending (ns ++ [.abandoned callId]) := by
  refine b.still (by simp) ?_
  rw [entries_append]
  refine (b.ledger.abandon callId).perm (List.Perm.refl _) ?_
  simp

/-- A call that was not sent. -/
theorem fails (b : Books rx waiting none pending ns) (h : .issued callId ∉ ns) :
    Books rx waiting none pending (ns ++ [.issued callId, .abandoned callId]) := by
  have h' := (b.waits h).abandons
  rw [List.append_assoc] at h'
  exact h'

/-- An execution ends. -/
theorem ends (b : Books rx waiting awaited pending ns) (x : Execution) :
    Books rx waiting awaited pending (ns ++ [.ended x]) := by
  refine b.still (by simp) ?_
  rw [entries_append]
  exact (List.append_nil (entries ns)).symm ▸ b.ledger

/-- A frame arrives: if it is a response, it is the first to a call of this session. -/
theorem forwards (b : Books rx waiting awaited pending ns)
    (h : ∀ id, response? f = some id →
      .issued id ∈ ns ∧ ∀ g, response? g = some id → .forwarded g ∉ ns) :
    Books (rx ++ [f]) waiting awaited pending (ns ++ [.forwarded f]) := by
  obtain ⟨answers, hans, hperm⟩ := b.read
  refine ⟨?_, ?_, ?_, answers, read_append hans, ?_⟩
  · rw [entries_append]
    refine (b.ledger.arrive (f := f) (by simpa using h)).perm ?_ (List.Perm.refl _)
    rw [← List.cons_append]
    exact ((List.perm_append_singleton f rx).symm).append_right waiting
  · rw [receptions_append, dispatches_append]
    simpa [receptions, dispatches] using b.order
  · rw [receptions_append, arrivals_append, ← List.append_assoc]
    refine (List.Sublist.append ?_ (List.Sublist.refl [f]))
    simpa [receptions] using b.arrival
  · simp only [arrivals_append, commands_append, receptions_append]
    rw [← List.append_assoc]
    refine List.Perm.append ?_ (List.Perm.refl [f])
    simpa [commands, receptions] using hperm

/-- A waiting call gets its answer from the channel. -/
theorem responds (b : Books (f :: rx) waiting (some callId) pending ns)
    (h : response? f = some callId) :
    Books rx waiting none pending (ns ++ [.completed callId f]) := by
  obtain ⟨answers, hans, hperm⟩ := b.read
  refine ⟨?_, ?_, ?_, answers ++ [f], ?_, ?_⟩
  · rw [entries_append]
    refine (b.ledger.complete (List.Perm.refl _) h (by simp)).perm (List.Perm.refl _) ?_
    simp
  · simpa [receptions, dispatches] using b.order
  · have hsub : (receptions ns ++ rx).Sublist (receptions ns ++ f :: rx) :=
      (List.sublist_cons_self f rx).append_left _
    simpa [receptions, arrivals] using hsub.trans b.arrival
  · intro g hg
    rcases List.mem_append.mp hg with hg | hg
    · exact read_append hans g hg
    · cases List.mem_singleton.mp hg
      exact ⟨callId, List.mem_append_right _ List.mem_cons_self⟩
  · simpa [arrivals, commands, receptions] using hperm

/-- A frame is read from the channel and set aside. -/
theorem receives (b : Books (f :: rx) waiting awaited pending ns) :
    Books rx (waiting ++ [f]) awaited pending (ns ++ [.received f]) := by
  obtain ⟨answers, hans, hperm⟩ := b.read
  refine ⟨?_, ?_, ?_, answers, read_append hans, ?_⟩
  · rw [entries_append]
    have hmove : (f :: rx ++ waiting).Perm (rx ++ (waiting ++ [f])) := by
      rw [← List.append_assoc]
      exact (List.perm_append_singleton f (rx ++ waiting)).symm
    exact (List.append_nil (entries ns)).symm ▸ b.ledger.perm hmove (List.Perm.refl _)
  · rw [receptions_append, dispatches_append, b.order]
    simp [receptions, dispatches]
  · simpa [receptions, arrivals] using b.arrival
  · have hmove : (commands ns ++ receptions ns ++ answers ++ f :: rx).Perm
        (commands ns ++ (receptions ns ++ [f]) ++ answers ++ rx) := by
      simp only [List.append_assoc, List.singleton_append]
      refine List.Perm.append_left _ (List.Perm.append_left _ ?_)
      exact List.perm_middle
    simpa [arrivals, commands, receptions] using hperm.trans hmove

/-- The next waiting frame is dispatched and settles a promise. -/
theorem settles (b : Books rx (f :: waiting) none pending ns) (h : response? f = some callId)
    (hp : callId ∈ pending) :
    Books rx waiting none (pending.erase callId)
      (ns ++ [.dispatched f, .completed callId f]) := by
  obtain ⟨answers, hans, hperm⟩ := b.read
  refine ⟨?_, ?_, ?_, answers, read_append hans, ?_⟩
  · rw [entries_append]
    exact b.ledger.complete List.perm_middle h hp
  · rw [receptions_append, dispatches_append, b.order]
    simp [receptions, dispatches]
  · simpa [receptions, arrivals] using b.arrival
  · simpa [arrivals, commands, receptions] using hperm

/-- The next waiting frame is dispatched and settles none. -/
theorem passes (b : Books rx (f :: waiting) none pending ns)
    (h : ∀ id ∈ pending, response? f ≠ some id) :
    Books rx waiting none pending (ns ++ [.dispatched f]) := by
  obtain ⟨answers, hans, hperm⟩ := b.read
  refine ⟨?_, ?_, ?_, answers, read_append hans, ?_⟩
  · rw [entries_append]
    have hd := b.ledger.drop (f := f) List.perm_middle fun id hid hmem => h id hmem hid
    exact (List.append_nil (entries ns)).symm ▸ hd
  · rw [receptions_append, dispatches_append, b.order]
    simp [receptions, dispatches]
  · simpa [receptions, arrivals] using b.arrival
  · simpa [arrivals, commands, receptions] using hperm

/-- The command loop reads a frame that answers no call with a promise. -/
theorem command (b : Books (f :: rx) waiting none pending ns) {n : Note}
    (hn : n = .took f ∨ n = .ignored f) (h : ∀ id ∈ pending, response? f ≠ some id) :
    Books rx waiting none pending (ns ++ [n]) := by
  have hnote : entries [n] = [] ∧ receptions [n] = [] ∧ dispatches [n] = [] ∧
      arrivals [n] = [] ∧ commands [n] = [f] := by
    rcases hn with rfl | rfl <;> exact ⟨rfl, rfl, rfl, rfl, rfl⟩
  obtain ⟨he, hr, hd, ha, hc⟩ := hnote
  obtain ⟨answers, hans, hperm⟩ := b.read
  refine ⟨?_, ?_, ?_, answers, read_append hans, ?_⟩
  · rw [entries_append, he, List.append_nil]
    exact b.ledger.drop (f := f) (List.Perm.refl _) fun id hid hmem => h id hmem hid
  · rw [receptions_append, dispatches_append, hr, hd, List.append_nil, List.append_nil]
    exact b.order
  · have hsub : (receptions ns ++ rx).Sublist (receptions ns ++ f :: rx) :=
      (List.sublist_cons_self f rx).append_left _
    rw [receptions_append, arrivals_append, hr, ha, List.append_nil, List.append_nil]
    exact hsub.trans b.arrival
  · have hmove : (commands ns ++ receptions ns ++ answers ++ f :: rx).Perm
        ((commands ns ++ [f]) ++ receptions ns ++ answers ++ rx) := by
      simp only [List.append_assoc, List.singleton_append]
      refine List.Perm.append_left _ ?_
      rw [← List.append_assoc, ← List.append_assoc]
      exact List.perm_middle
    rw [arrivals_append, commands_append, receptions_append, ha, hr, hc, List.append_nil,
      List.append_nil]
    exact hperm.trans hmove

end Books

/-! ### What a thread holds -/

namespace Thread

variable (t : Thread)

/-- The frames that were read and are not yet dispatched. -/
def waiting : List BinaryFrame :=
  match t.control with
  | .running x p => x.waiting p
  | _ => []

/-- The synchronous call that the thread waits for. -/
def awaits : Option UInt64 :=
  match t.control with
  | .running _ p => p.awaits
  | _ => none

/-- The frames that have arrived and are not yet dealt with. -/
def transit : List BinaryFrame := messages t.rx ++ t.waiting

/-- The calls that have no answer so far. -/
def opens : List UInt64 := t.awaits.toList ++ t.pending

end Thread

/-! ### The books of a thread -/

/-- The books of a thread. -/
def Thread.Booked (t : Thread) (ns : List Note) : Prop :=
  Books (messages t.rx) t.waiting t.awaits t.pending ns

section

variable {t : Thread} {x : Execution} {p : Point}

@[simp] theorem messages_shutdown (rx : List SessionCommand) :
    messages (.shutdown :: rx) = messages rx := rfl

@[simp] theorem messages_append (rx rx' : List SessionCommand) :
    messages (rx ++ rx') = messages rx ++ messages rx' := List.filterMap_append

theorem booked_running (ht : t.control = .running x p) {ns : List Note} :
    t.Booked ns ↔ Books (messages t.rx) (x.waiting p) p.awaits t.pending ns := by
  rw [Booked, waiting, awaits, ht]

theorem booked_idle (ht : ∀ x p, t.control ≠ .running x p) {ns : List Note} :
    t.Booked ns ↔ Books (messages t.rx) [] none t.pending ns := by
  cases hc : t.control with
  | running x p => exact absurd hc (ht x p)
  | commandLoop | stopped => rw [Booked, waiting, awaits, hc]

end

namespace Thread.Booked

variable {t : Thread} {ns : List Note}

variable {f : BinaryFrame} {x' : Execution} {p' : Point} {ms : List Note} {pd pd' : List UInt64}

/-- The dispatch of the first frame that waits. -/
theorem dispatched {rx w rest : List BinaryFrame} (b : Books rx (f :: w) none pd ns)
    (hd : Dispatched pd rest f x' p' pd' ms) : Books rx w none pd' (ns ++ ms) := by
  cases hd with
  | settles hf hp hpd _ =>
      rw [hpd]
      exact b.settles (responds_iff.mp hf) hp
  | passes hf _ hpd _ =>
      rw [hpd]
      exact b.passes fun id hid h => hf id hid (responds_iff.mpr h)
  | ends ht _ hpd _ =>
      rw [hpd]
      refine b.passes fun id _ h => ?_
      cases f with
      | bridgeResponse _ _ _ _ => exact ht
      | _ => cases h

/-- What is left of the `for` loop after a dispatch. -/
theorem rest_of_dispatched {rest : List BinaryFrame} (hd : Dispatched pd rest f x' p' pd' ms)
    (h : IsTerminate f → rest = []) : p'.rest = rest := by
  cases hd with
  | settles _ _ _ hrest | passes _ _ _ hrest => exact hrest
  | ends ht _ _ hrest => rw [hrest, h ht]

variable {x : Execution} {p : Point}

theorem quiet {t' : Thread}
    (b : Books (messages t.rx) (x.waiting p) p.awaits t.pending ns)
    (h : Quiet t x p t' x' p' ms) :
    Books (messages t'.rx) (x'.waiting p') p'.awaits t'.pending (ns ++ ms) := by
  cases h with
  | silent hrx hpending hawaits hwaiting =>
      rw [hrx, hpending, hawaits, hwaiting, List.append_nil]
      exact b
  | abandons hp hp' hrx hpending hwaiting =>
      have hm : messages t'.rx = messages t.rx := by
        rcases hrx with hrx | hrx <;> rw [hrx]
        rfl
      rw [hm, hpending, hp', hwaiting]
      rw [hp] at b
      exact b.abandons

section

variable (hrecv : ∀ l, p = .recv l → t.rx.head? ≠ some .shutdown → x.deferred = [])
  (hframes : ∀ l src, p = .frames l src →
    ∀ f ∈ src.rest.head?, IsTerminate f → src.rest.tail = [])
include hrecv hframes

/-- A move inside an execution. -/
theorem flow {t' : Thread}
    (b : Books (messages t.rx) (x.waiting p) p.awaits t.pending ns)
    (h : Flow t x p t' x' p' ms) :
    Books (messages t'.rx) (x'.waiting p') p'.awaits t'.pending (ns ++ ms) := by
  cases h with
  | quiet h => exact quiet b h
  | responds hp hp' hrx hf hpending hwaiting =>
      rw [hpending, hp', hwaiting]
      rw [hrx, hp] at b
      exact b.responds (responds_iff.mp hf)
  | defers hp hp' hrx hf hpending hwaiting =>
      rw [hpending, hp', hwaiting, ← hp]
      rw [hrx] at b
      exact b.receives
  | @dispatches f rest ms hp hp' hfs hrest hrx hdeferred hd =>
      obtain ⟨l, src, rfl⟩ := hfs
      have hsrc : src.rest = f :: rest := hrest
      have hleft : p'.rest = rest := by
        refine rest_of_dispatched hd fun ht => ?_
        have := hframes l src rfl f (by rw [hsrc]; rfl) ht
        rwa [hsrc] at this
      rw [Execution.waiting, hrest, hp] at b
      rw [hrx, hp', Execution.waiting, hleft, hdeferred]
      exact dispatched b hd
  | @receives f ms hp hp' hrx hdeferred hd =>
      obtain ⟨l, rfl⟩ := hp
      have hx : x.deferred = [] := hrecv l rfl (by rw [hrx]; simp)
      have hleft : p'.rest = [] := rest_of_dispatched hd fun _ => rfl
      rw [Execution.waiting, hx, hrx] at b
      rw [hp', Execution.waiting, hleft, hdeferred, hx]
      have hreceived : Books (messages t'.rx) [f] none t.pending (ns ++ [.received f]) :=
        b.receives
      have h' := dispatched hreceived hd
      rw [List.append_assoc] at h'
      exact h'
  | shuts hp hp' hrx hpending _ hrest hdeferred =>
      obtain ⟨l, rfl⟩ := hp
      rw [hrx] at b
      rw [hpending, hp', Execution.waiting, hrest, hdeferred, List.append_nil]
      exact b

variable {mv : Move}

theorem inside (b : t.Booked ns) (ht : t.control = .running x p) (h : Inside t x p mv x' p') :
    mv.thread.Booked (ns ++ mv.notes) :=
  (booked_running h.control).mpr (flow hrecv hframes ((booked_running ht).mp b) h.flow)

end

variable {mv : Move} (b : t.Booked ns)
include b

theorem still (ht : t.control = .running x p) (h : Inside t x p mv x' p')
    (hq : Quiet t x p mv.thread x' p' mv.notes) : mv.thread.Booked (ns ++ mv.notes) :=
  (booked_running h.control).mpr (quiet ((booked_running ht).mp b) hq)

/-- An event loop is left because of an error, with no frame in its `for` loop. -/
theorem fails {l : Loop} {src : Source} (ht : t.control = .running x (.engine (.dispatch l src)))
    (h : Fails t x mv x' p') (hsrc : src.rest = []) : mv.thread.Booked (ns ++ mv.notes) := by
  have b' := (booked_running ht).mp b
  have hw : x.waiting (.engine (.dispatch l src)) = x'.waiting p' := by
    rw [Execution.waiting, Execution.waiting, h.rest, h.deferred, Point.rest, Site.rest, hsrc]
  rw [booked_running h.control, h.notes, h.rx, h.pending, h.awaits, List.append_nil, ← hw]
  exact b'

/-- A bridge call with a new call id. -/
theorem call {s : Site} {callId : UInt64}
    (ht : t.control = .running x (.engine s)) (h : Call t x s callId mv)
    (hnew : .issued callId ∉ ns) : mv.thread.Booked (ns ++ mv.notes) := by
  have b' := (booked_running ht).mp b
  cases h with
  | sync _ =>
      refine (booked_running (p := .recvResponse callId s) rfl).mpr ?_
      exact b'.waits hnew
  | async _ =>
      refine (booked_running (p := .engine s) rfl).mpr ?_
      have hmem : callId ∉ t.pending := by
        intro hp
        have hiss := (b'.ledger.opensIssued callId (List.mem_append_right _ hp)).1
        exact hnew ((mem_entries_issued ns).mp hiss)
      simp only [goto, insertPending, hmem, if_false]
      exact b'.promises hnew
  | unsent =>
      refine (booked_running (p := .engine s) rfl).mpr ?_
      exact b'.fails hnew

/-- An execution ends with no frame set aside. -/
theorem finish (ht : t.control = .running x .sendResult)
    (hx : x.deferred = []) : (t.finish x).thread.Booked (ns ++ (t.finish x).notes) := by
  have b' := (booked_running ht).mp b
  rw [Execution.waiting, hx] at b'
  refine (booked_idle (by simp [Thread.finish])).mpr ?_
  exact b'.ends x

/-- The command loop reads a command. -/
theorem command {cmd : SessionCommand} {rx : List SessionCommand}
    (ht : t.control = .commandLoop) (hrx : t.rx = cmd :: rx)
    (hlate : ∀ f ∈ (messages t.rx).head?, ∀ id ∈ t.pending, response? f ≠ some id)
    (snapshot : Option String) : ({ t with rx }.command snapshot cmd).thread.Booked
      (ns ++ ({ t with rx }.command snapshot cmd).notes) := by
  have b' := (booked_idle (by simp [ht])).mp b
  rw [hrx] at b'
  cases cmd with
  | shutdown =>
      refine (booked_idle (by simp [Thread.command])).mpr ?_
      rw [Thread.command, List.append_nil]
      exact b'
  | message f =>
      have hf : ∀ id ∈ t.pending, response? f ≠ some id := hlate f (by rw [hrx]; rfl)
      cases f with
      | execute sid mode fp bc prs uc =>
          have hrun : ∃ x p, ({ t with rx }.execute snapshot sid mode fp bc prs uc).control =
              .running x p ∧ x.waiting p = [] ∧ p.awaits = none := by
            simp only [Thread.execute]
            split <;> exact ⟨_, _, rfl, rfl, rfl⟩
          obtain ⟨x, p, hx, hw, ha⟩ := hrun
          rw [Thread.command, booked_running hx, hw, ha]
          exact b'.command (.inl rfl) hf
      | injectGlobals sid payload =>
          refine (booked_idle (by simp [Thread.command, ht])).mpr ?_
          exact b'.command (.inl rfl) hf
      | _ =>
          refine (booked_idle (by simp [Thread.command, ht])).mpr ?_
          exact b'.command (.inr rfl) hf

/-- A frame is put on the channel. -/
theorem forwards (h : ∀ id, response? f = some id →
      .issued id ∈ ns ∧ ∀ g, response? g = some id → .forwarded g ∉ ns) :
    Booked { t with rx := t.rx ++ [.message f] } (ns ++ [.forwarded f]) := by
  have b' := Books.forwards b h
  rw [Booked, messages_append]
  exact b'

/-- The channel is closed with a shutdown. -/
theorem closes :
    Booked { t with rx := t.rx ++ [.shutdown], closed := true } ns := by
  rw [Booked, messages_append, messages_shutdown]
  exact (List.append_nil (messages t.rx)).symm ▸ b

end Thread.Booked

end Session
