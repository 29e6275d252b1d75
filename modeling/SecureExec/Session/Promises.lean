import SecureExec.Session.Calls

/-!
# Session — Promises — what one execution leaves to the next

The promises of asynchronous bridge calls are kept for the whole session, not for one execution.
`own` are the notes of the execution that runs; `calls` are the calls that it made and that have no
answer so far.

* `EndsSettled`: an execution ends with no promise pending.
* `executions_independent`: in a run whose steps all meet this, an execution starts with no promise
  pending; what the thread waits for is what the execution's own calls and their responses leave;
  and two executions that agree on these make the same next move.
* `promise_left_over`: an execution that is terminated with a call unanswered leaves its promise to
  the next one.
-/

namespace Session
open Ipc.Native Lts Thread Move

/-! ### The notes of one execution -/

def ownAfter (notes : List Note) : Note → List Note
  | .took (.execute _ _ _ _ _ _) => []
  | n => notes ++ [n]

/-- The notes since the last `Execute` frame was taken. -/
def own (ns : List Note) : List Note := ns.foldl ownAfter []

def openAfter (callIds : List UInt64) : Note → List UInt64
  | .issued callId => callIds ++ [callId]
  | .completed callId _ => callIds.erase callId
  | .abandoned callId => callIds.erase callId
  | _ => callIds

/-- The calls that have no answer so far. -/
def calls (ns : List Note) : List UInt64 := ns.foldl openAfter []

section

variable (ns ms : List Note)

theorem calls_append : calls (ns ++ ms) = ms.foldl openAfter (calls ns) := List.foldl_append

/-- Notes that start no execution. -/
theorem own_append (h : ∀ n ∈ ms, ∀ s mode fp bc prs uc, n ≠ .took (.execute s mode fp bc prs uc)) :
    own (ns ++ ms) = own ns ++ ms := by
  induction ms generalizing ns with
  | nil => simp
  | cons n ms ih =>
      have hn : own (ns ++ [n]) = own ns ++ [n] := by
        have hstep : ownAfter (own ns) n = own ns ++ [n] := by
          rw [ownAfter.eq_def]
          split
          · rename_i s mode fp bc prs uc
            exact absurd rfl (h _ List.mem_cons_self s mode fp bc prs uc)
          · rfl
        rw [own, List.foldl_append]
        exact hstep
      have happ := ih (ns ++ [n]) fun m hm => h m (List.mem_cons_of_mem n hm)
      rw [List.append_assoc, List.singleton_append] at happ
      rw [happ, hn, List.append_assoc, List.singleton_append]

theorem own_started (s : String) (mode : UInt8) (fp bc prs uc : String) :
    own (ns ++ [.took (.execute s mode fp bc prs uc)]) = [] := by
  rw [own, List.foldl_append]
  rfl

/-- A call that is open was issued. -/
theorem issued_of_mem_calls {callId : UInt64} (h : callId ∈ calls ns) : .issued callId ∈ ns := by
  induction ns using List.reverseRecOn with
  | nil => cases h
  | append_singleton ns n ih =>
      rw [calls_append] at h
      have hold : callId ∈ calls ns → .issued callId ∈ ns ++ [n] := fun h =>
        List.mem_append_left _ (ih h)
      cases n with
      | issued id =>
          rcases List.mem_append.mp h with h | h
          · exact hold h
          · rw [List.mem_singleton.mp h]
            exact List.mem_append_right _ List.mem_cons_self
      | completed id f | abandoned id => exact hold (List.mem_of_mem_erase h)
      | _ => exact hold h

theorem mem_own {n : Note} (h : n ∈ own ns) : n ∈ ns := by
  induction ns using List.reverseRecOn with
  | nil => cases h
  | append_singleton ns m ih =>
      rw [own, List.foldl_append] at h
      change n ∈ ownAfter (own ns) m at h
      rw [ownAfter.eq_def] at h
      split at h
      · cases h
      · rcases List.mem_append.mp h with h | h
        · exact List.mem_append_left _ (ih h)
        · exact List.mem_append_right _ h

end

/-! ### The property -/

/-- The execution that runs has only its own calls to wait for. -/
structure Independent (t : Thread) (ns : List Note) : Prop where
  idle : (∀ x p, t.control ≠ .running x p) → t.pending = []
  /-- At its start, `own ns` is empty. -/
  waits : ∀ x p, t.control = .running x p → t.pending ++ p.awaits.toList = calls (own ns)
  resolves : ∀ callId f, .completed callId f ∈ own ns → .issued callId ∈ own ns
  /-- A response to a call of an earlier execution passes the event loop. -/
  late : ∀ x p, t.control = .running x p → ∀ l src sid callId status payload,
    .issued callId ∉ own ns →
      t.dispatch x l src (.bridgeResponse sid callId status payload) [] =
        t.moved x (.frames l src) [.dispatched (.bridgeResponse sid callId status payload)]

/-- The threads are at the same place of an execution, and the same commands are on their
channels. -/
structure SameExecution (t t' : Thread) : Prop where
  running : ∃ x p, t.control = .running x p
  control : t'.control = t.control
  rx : t'.rx = t.rx
  closed : t'.closed = t.closed
  cpuTimeLimit : t'.cpuTimeLimit = t.cpuTimeLimit

/-- A step of the thread alone. -/
def Thread.move (t : Thread) : Event → Option Move
  | .next _ snapshot => t.next snapshot
  | .tick _ => t.tick
  | .timeout _ => t.timeout
  | .abort _ => t.abort
  | .answer _ a => t.answered a
  | _ => none

/-- Where a move leads, what it leaves pending, and what it writes and reports. -/
def Move.seen (mv : Move) : Control × List UInt64 × List (List UInt8) × List Note :=
  (mv.thread.control, mv.thread.pending, mv.out, mv.notes)

/-! ### The condition -/

/-- An execution ends with no promise pending. -/
def Thread.EndsSettled (t : Thread) (e : Event) : Prop :=
  match t.control, e with
  | .running _ .sendResult, .next _ _ => t.pending = []
  | _, _ => True

/-- The executions of session `sid` end settled, and the counter of call ids has not wrapped
around. -/
def Settles (sid : String) (s : Connection × List Report) (e : Event) : Prop :=
  (∀ t ∈ s.1.sessions.get sid, e.sessionId? = some sid → t.EndsSettled e) ∧
    (e.IsCall → s.1.sharedCallId ≠ 0)

instance (t : Thread) (e : Event) : Decidable (t.EndsSettled e) := by
  unfold EndsSettled
  induction t.control using Control.casesOn with
  | running _ p =>
    induction p using Point.casesOn <;> induction e using Event.casesOn <;> dsimp only <;>
      infer_instance
  | _ => exact instDecidableTrue

instance (sid : String) (s : Connection × List Report) (e : Event) :
    Decidable (Settles sid s e) := by
  unfold Settles
  infer_instance

/-! ### A move depends on its execution only -/

section

variable {t t' : Thread} {x : Execution} {p : Point}

theorem seen_dispatch (hp : t'.pending = t.pending) (x : Execution) (l : Loop) (src : Source)
    (f : BinaryFrame) (ns : List Note) :
    (t'.dispatch x l src f ns).seen = (t.dispatch x l src f ns).seen := by
  rw [dispatch.eq_def, dispatch.eq_def, hp]
  split
  · split <;> simp [seen, moved, goto, removePending, hp]
  all_goals simp [seen, moved, goto, leaveLoop, hp]

theorem seen_nextFrame (hp : t'.pending = t.pending) (x : Execution) (l : Loop) (src : Source) :
    (t'.nextFrame x l src).seen = (t.nextFrame x l src).seen := by
  rw [nextFrame.eq_def, nextFrame.eq_def, hp]
  split
  · exact seen_dispatch hp _ _ _ _ _
  · split <;> simp [seen, moved, goto, leaveLoop, hp]
  · exact seen_dispatch hp _ _ _ _ _
  · split <;> simp [seen, moved, goto, leaveLoop, hp]
  · simp [seen, moved, goto, hp]

variable (h : SameExecution t t')
include h

variable (hp : t'.pending = t.pending)
include hp

theorem seen_next (snapshot : Option String) :
    (t'.next snapshot).map seen = (t.next snapshot).map seen := by
  obtain ⟨x, p, ht⟩ := h.running
  have ht' : t'.control = .running x p := h.control.trans ht
  rw [next, next, ht, ht']
  cases p with
  | engine s => rfl
  | recvResponse callId s =>
      dsimp only
      rw [h.rx, h.closed]
      split
      · rename_i cmd rx hrx
        simp only [Option.map_some, Option.some.injEq]
        rw [response.eq_def, response.eq_def]
        split
        · simp [seen, moved, goto, hp]
        · split <;> simp [seen, moved, goto, hp]
        · simp [seen, moved, goto, hp]
      · split <;> simp [seen, moved, goto, hp]
  | test l =>
      simp only [Option.map_some, Option.some.injEq, testLoop, hp]
      split <;> simp [seen, moved, goto, leaveLoop, hp]
  | frames l src =>
      simp only [Option.map_some, Option.some.injEq]
      exact seen_nextFrame hp x l src
  | recv l =>
      dsimp only
      rw [h.rx]
      split
      · rename_i cmd rx hrx
        simp only [Option.map_some, Option.some.injEq]
        cases cmd with
        | shutdown => simp [loopCommand, seen, moved, goto,
            leaveLoop, hp]
        | message f =>
            have hp' : { t' with rx }.pending = { t with rx }.pending := hp
            exact seen_dispatch hp' x l .channel f _
      · rfl
  | sendResult => simp [finish, seen, hp]

theorem seen_answered (a : Answer) :
    (t'.answered a).map seen = (t.answered a).map seen := by
  obtain ⟨x, p, ht⟩ := h.running
  have ht' : t'.control = .running x p := h.control.trans ht
  have hcpu := h.cpuTimeLimit
  rw [answered, answered, ht, ht']
  cases p with
  | engine s =>
      cases s with
      | poll l => simp [seen, moved, goto, hp]
      | finalizeFirst | waitForActiveHandles =>
          simp [seen, moved, goto, hp]
      | initScript =>
          dsimp only
          split
          · split <;> simp [seen, moved, goto, hp, hcpu]
          · rfl
      | script =>
          dsimp only
          split
          · split <;> simp [seen, moved, goto, hp]
          · rfl
      | dispatch l src =>
          dsimp only
          split
          · simp [seen, moved, goto, leaveLoop, hp]
          · rfl
          · simp [seen, moved, goto, hp]
      | flush l =>
          simp only [hp]
          split <;> simp [seen, moved, goto, leaveLoop, hp]
      | finalizeModule | finalizeScript =>
          dsimp only
          split <;> simp [seen, moved, goto, hp]
  | _ => rfl

/-- **Executions that agree on what they wait for make the same moves.** -/
theorem seen_move (e : Event) :
    (t'.move e).map seen = (t.move e).map seen := by
  have hx := h.running
  cases e with
  | next s snapshot => exact seen_next h hp snapshot
  | answer s a => exact seen_answered h hp a
  | tick s =>
      simp only [move, tick, h.control, h.rx]
      split
      · split <;> simp [seen, moved, goto, hp]
      · rfl
  | timeout s =>
      simp only [move, timeout, h.control]
      split
      · split <;> simp [seen, moved, goto, hp]
      · rfl
  | abort s =>
      simp only [move, abort, h.control]
      split
      · split <;> simp [seen, moved, goto, hp]
      · split <;> simp [seen, moved, goto, leaveLoop, hp]
      · rfl
  | _ => rfl

end

/-! ### The invariant -/

/-- What the thread waits for is what its execution's own calls leave. -/
structure Accounted (t : Thread) (ns : List Note) : Prop where
  idle : (∀ x p, t.control ≠ .running x p) → t.pending = []
  waits : ∀ x p, t.control = .running x p → t.pending ++ p.awaits.toList = calls (own ns)
  nodup : (calls (own ns)).Nodup
  resolves : ∀ callId f, .completed callId f ∈ own ns → .issued callId ∈ own ns

/-- The ids of a session's calls are below the next one, until the counter wraps around. -/
def Below (sid : String) (c : Connection) (log : List Report) : Prop :=
  c.sharedCallId ≠ 0 → ∀ callId, .issued callId ∈ notesOf sid log → callId < c.sharedCallId

namespace Accounted

variable {t t' : Thread} {ns ms : List Note}

theorem spawn (k : Accounted t ns) (cpu : Bool) : Accounted (.spawn cpu) ns where
  idle _ := rfl
  waits _ _ h := by cases h
  nodup := k.nodup
  resolves := k.resolves

theorem empty (cpu : Bool) : Accounted (.spawn cpu) [] where
  idle _ := rfl
  waits _ _ h := by cases h
  nodup := List.nodup_nil
  resolves _ _ h := by cases h

variable {x x' : Execution} {p p' : Point}

variable (k : Accounted t ns)
include k

section

variable (ht : t.control = .running x p)
include ht

/-- A step inside an execution. -/
theorem running (hc : t'.control = .running x' p')
    (hms : ∀ n ∈ ms, n.Inside)
    (hcalls : ms.foldl openAfter (t.pending ++ p.awaits.toList) = t'.pending ++ p'.awaits.toList)
    (hnodup : (t'.pending ++ p'.awaits.toList).Nodup)
    (hres : ∀ callId f, .completed callId f ∈ ms → callId ∈ t.pending ++ p.awaits.toList) :
    Accounted t' (ns ++ ms) := by
  have hown : own (ns ++ ms) = own ns ++ ms := by
    refine own_append ns ms ?_
    intro n hn s mode fp bc prs uc heq
    exact (heq ▸ hms n hn : Note.Inside (.took (.execute s mode fp bc prs uc)))
  have hopen : calls (own (ns ++ ms)) = t'.pending ++ p'.awaits.toList := by
    rw [hown, calls_append, ← k.waits x p ht, hcalls]
  refine ⟨?_, ?_, ?_, ?_⟩
  · intro h
    exact absurd hc (h x' p')
  · intro y q hy
    rw [hc] at hy
    cases hy
    exact hopen.symm
  · rw [hopen]
    exact hnodup
  · intro callId f h
    rw [hown] at h ⊢
    rcases List.mem_append.mp h with h | h
    · exact List.mem_append_left _ (k.resolves callId f h)
    · have hmem : callId ∈ calls (own ns) := k.waits x p ht ▸ hres callId f h
      exact List.mem_append_left _ (issued_of_mem_calls _ hmem)

/-- The awaited call is not one with a promise. -/
theorem erase_awaited {callId : UInt64} (hp : p.awaits = some callId) :
    (t.pending ++ p.awaits.toList).erase callId = t.pending ∧ t.pending.Nodup := by
  have hnodup := k.nodup
  rw [← k.waits x p ht, hp, Option.toList_some] at hnodup
  obtain ⟨hpending, -, hdisjoint⟩ := List.nodup_append.mp hnodup
  have hnot : callId ∉ t.pending := fun h => hdisjoint callId h callId List.mem_cons_self rfl
  rw [hp, Option.toList_some, List.erase_append_right _ hnot, List.erase_cons_head,
    List.append_nil]
  exact ⟨rfl, hpending⟩

theorem dispatched (hc : t'.control = .running x' p') (hp : p.awaits = none)
    (hp' : p'.awaits = none) (pre : List Note) (hpre : ∀ n ∈ pre, ∃ f, n = .received f)
    {rest : List BinaryFrame} {f : BinaryFrame}
    (h : Dispatched t.pending rest f x' p' t'.pending ms) : Accounted t' (ns ++ (pre ++ ms)) := by
  have hnodup := k.nodup
  rw [← k.waits x p ht, hp, Option.toList_none, List.append_nil] at hnodup
  have hpass : ∀ ids : List UInt64, pre.foldl openAfter ids = ids := by
    clear h hnodup
    intro ids
    induction pre with
    | nil => rfl
    | cons n pre ih =>
        obtain ⟨g, rfl⟩ := hpre n List.mem_cons_self
        exact ih fun m hm => hpre m (List.mem_cons_of_mem _ hm)
  have hinside : ∀ n ∈ pre ++ ms, n.Inside := by
    intro n hn
    rcases List.mem_append.mp hn with hn | hn
    · obtain ⟨g, rfl⟩ := hpre n hn
      trivial
    · exact (ofFrame_of_dispatched h n hn).inside
  have hpre' : ∀ {callId g}, .completed callId g ∉ pre := by
    intro callId g hmem
    obtain ⟨g', hg⟩ := hpre _ hmem
    cases hg
  refine k.running ht hc hinside ?_ ?_ ?_
  · rw [List.foldl_append, hpass, hp, hp', Option.toList_none, List.append_nil, List.append_nil]
    cases h with
    | settles hf hmem hpending hrest => rw [hpending]; rfl
    | passes hf hg hpending hrest | ends hg hx hpending hrest => rw [hpending]; rfl
  · rw [hp', Option.toList_none, List.append_nil]
    cases h with
    | settles hf hmem hpending hrest => rw [hpending]; exact hnodup.erase _
    | passes hf hg hpending hrest | ends hg hx hpending hrest => rw [hpending]; exact hnodup
  · intro callId g hmem
    rw [hp, Option.toList_none, List.append_nil]
    rcases List.mem_append.mp hmem with hmem | hmem
    · exact absurd hmem hpre'
    · cases h with
      | settles hf hin hpending hrest =>
          rcases List.mem_pair.mp hmem with heq | heq
          · cases heq
          · cases heq
            exact hin
      | passes hf hg hpending hrest | ends hg hx hpending hrest =>
          cases List.mem_singleton.mp hmem

theorem flow (hc : t'.control = .running x' p')
    (h : Flow t x p t' x' p' ms) : Accounted t' (ns ++ ms) := by
  have hms := inside_of_flow h
  have hnodup := k.nodup
  rw [← k.waits x p ht] at hnodup
  cases h with
  | quiet h =>
      cases h with
      | silent hrx hpending hawaits hwaiting =>
          refine k.running ht hc hms ?_ ?_ (by simp)
          · rw [hpending, hawaits]; rfl
          · rw [hpending, hawaits]; exact hnodup
      | @abandons callId hp hp' hrx hpending hwaiting =>
          obtain ⟨herase, hn⟩ := k.erase_awaited ht hp
          refine k.running ht hc hms ?_ ?_ (by simp)
          · rw [hpending, hp', Option.toList_none, List.append_nil]; exact herase
          · rw [hpending, hp', Option.toList_none, List.append_nil]; exact hn
  | @responds callId f hp hp' hrx hf hpending hwaiting =>
      obtain ⟨herase, hn⟩ := k.erase_awaited ht hp
      refine k.running ht hc hms ?_ ?_ ?_
      · rw [hpending, hp', Option.toList_none, List.append_nil]; exact herase
      · rw [hpending, hp', Option.toList_none, List.append_nil]; exact hn
      · intro id g hmem
        cases List.mem_singleton.mp hmem
        rw [hp]
        exact List.mem_append_right _ List.mem_cons_self
  | defers hp hp' hrx hf hpending hwaiting =>
      refine k.running ht hc hms ?_ ?_ (by simp)
      · rw [hpending, hp, hp']; rfl
      · rw [hpending, hp', ← hp]; exact hnodup
  | dispatches hp hp' hfs hrest hrx hdeferred hd =>
      exact k.dispatched ht hc hp hp' [] (by simp) hd
  | @receives f ms hp hp' hrx hdeferred hd =>
      obtain ⟨l, rfl⟩ := hp
      exact k.dispatched ht hc rfl hp' [.received f] (by simp) hd
  | shuts hp hp' hrx hpending hx hrest hdeferred =>
      obtain ⟨l, rfl⟩ := hp
      refine k.running ht hc hms ?_ ?_ (by simp)
      · rw [hpending, hp']; rfl
      · rw [hpending, hp']; exact hnodup

end

theorem idles {n : Note} (hn : ∀ s mode fp bc prs uc,
      n ≠ .took (.execute s mode fp bc prs uc)) (hopen : openAfter (calls (own ns)) n =
      calls (own ns)) (hres : ∀ callId f, n ≠ .completed callId f)
    (hidle : t'.pending = []) (hc : ∀ x p, t'.control ≠ .running x p) :
    Accounted t' (ns ++ [n]) := by
  have hown : own (ns ++ [n]) = own ns ++ [n] := by
    refine own_append ns [n] ?_
    intro m hm
    rw [List.mem_singleton.mp hm]
    exact hn
  refine ⟨fun _ => hidle, fun x p h => absurd h (hc x p), ?_, ?_⟩
  · rw [hown, calls_append]
    exact (congrArg List.Nodup hopen).mpr k.nodup
  · intro callId f h
    rw [hown] at h ⊢
    rcases List.mem_append.mp h with h | h
    · exact List.mem_append_left _ (k.resolves callId f h)
    · exact absurd (List.mem_singleton.mp h).symm (hres callId f)

/-- A frame is put on the channel. -/
theorem forwards (f : BinaryFrame) :
    Accounted { t with rx := t.rx ++ [.message f] } (ns ++ [.forwarded f]) := by
  have hown : own (ns ++ [.forwarded f]) = own ns ++ [.forwarded f] := own_append ns _ (by simp)
  have hcalls : calls (own ns ++ [.forwarded f]) = calls (own ns) := calls_append _ _
  refine ⟨k.idle, ?_, ?_, ?_⟩
  · intro x p ht
    rw [hown, hcalls]
    exact k.waits x p ht
  · rw [hown, hcalls]
    exact k.nodup
  · intro callId g h
    rw [hown] at h ⊢
    rcases List.mem_append.mp h with h | h
    · exact List.mem_append_left _ (k.resolves callId g h)
    · cases List.mem_singleton.mp h

/-- The command loop reads a command. -/
theorem command (ht : t.control = .commandLoop) (snapshot : Option String)
    (cmd : SessionCommand) (rx : List SessionCommand) :
    Accounted ({ t with rx }.command snapshot cmd).thread
      (ns ++ ({ t with rx }.command snapshot cmd).notes) := by
  have hc : ∀ x p, t.control ≠ .running x p := by simp [ht]
  have hidle := k.idle hc
  have hread : ∀ n : Note, (∀ s mode fp bc prs uc, n ≠ .took (.execute s mode fp bc prs uc)) →
      openAfter (calls (own ns)) n = calls (own ns) → (∀ callId f, n ≠ .completed callId f) →
      ∀ t' : Thread, t'.pending = t.pending → t'.control = t.control →
        Accounted t' (ns ++ [n]) := by
    intro n hn hopen hres t' hpending hcontrol
    exact k.idles hn hopen hres (hpending.trans hidle) (hcontrol ▸ hc)
  rw [command.eq_def]
  split
  · rw [List.append_nil]
    exact ⟨fun _ => hidle, by simp, k.nodup, k.resolves⟩
  · exact hread _ (by simp) rfl (by simp) _ rfl rfl
  · rename_i sid mode fp bc prs uc
    have hpoint : ∃ x s, ({ t with rx }.execute snapshot sid mode fp bc prs uc).control =
        .running x (.engine s) := by
      rw [execute]
      dsimp only
      split <;> exact ⟨_, _, rfl⟩
    obtain ⟨x, s, hx⟩ := hpoint
    have hown := own_started ns sid mode fp bc prs uc
    refine ⟨?_, ?_, ?_, ?_⟩
    · intro h
      exact absurd hx (h x (.engine s))
    · intro y p hy
      dsimp only at hy
      rw [hx] at hy
      cases hy
      rw [hown]
      exact (List.append_nil _).trans hidle
    · rw [hown]
      exact List.nodup_nil
    · intro callId f h
      rw [hown] at h
      cases h
  · rename_i hg he
    refine hread _ ?_ rfl (by simp) _ rfl rfl
    rintro _ _ _ _ _ _ ⟨⟩

/-- A step of the thread: an execution that ends leaves no promise. -/
theorem act {sid : String} {e : Event} {mv : Move} (h : Act sid t e mv)
    (hends : t.EndsSettled e) : Accounted mv.thread (ns ++ mv.notes) := by
  cases h with
  | goes ht h | other ht h hq => exact k.flow ht h.control h.flow
  | @fails a x x' l src p' mv ht ha h =>
      have hnodup := k.nodup
      rw [← k.waits x _ ht] at hnodup
      refine k.running ht h.control (by simp [h.notes]) ?_ ?_ (by simp [h.notes])
      · rw [h.notes, h.pending, h.awaits]; rfl
      · rw [h.pending, h.awaits]; exact hnodup
  | @finish snapshot x ht =>
      simp only [EndsSettled, ht] at hends
      exact k.idles (by simp) rfl (by simp) hends (by simp [finish])
  | @command snapshot cmd rx ht hrx => exact k.command ht snapshot cmd rx
  | stop ht hrx hclosed =>
      rw [List.append_nil]
      exact ⟨fun _ => k.idle (by simp [ht]), by simp, k.nodup, k.resolves⟩

/-- A bridge call with a new id. -/
theorem call {s : Site} {callId : UInt64} {mv : Move}
    (ht : t.control = .running x (.engine s)) (hnew : .issued callId ∉ ns)
    (h : Call t x s callId mv) : Accounted mv.thread (ns ++ mv.notes) := by
  have hwaits : t.pending = calls (own ns) :=
    (List.append_nil _).symm.trans (k.waits x _ ht)
  have hnodup : t.pending.Nodup := hwaits ▸ k.nodup
  have hfresh : callId ∉ t.pending := by
    intro h
    exact hnew (mem_own _ (issued_of_mem_calls _ (hwaits ▸ h)))
  have happend : (t.pending ++ [callId]).Nodup := by
    rw [List.nodup_append]
    refine ⟨hnodup, List.nodup_singleton callId, ?_⟩
    intro id hid id' hid'
    rw [List.mem_singleton.mp hid']
    rintro rfl
    exact hfresh hid
  have hms := inside_of_call h
  cases h with
  | sync hb =>
      refine k.running ht rfl hms ?_ ?_ (by simp)
      · simp [Point.awaits, openAfter, goto]
      · exact happend
  | async hb =>
      have hinsert : (t.insertPending callId).pending = t.pending ++ [callId] := if_neg hfresh
      refine k.running ht rfl hms ?_ ?_ (by simp)
      · simp [Point.awaits, openAfter, goto, hinsert]
      · simpa [Point.awaits, goto, hinsert] using happend
  | unsent =>
      refine k.running ht rfl hms ?_ ?_ (by simp [moved])
      · have herase : (t.pending ++ [callId]).erase callId = t.pending := by
          rw [List.erase_append_right _ hfresh, List.erase_cons_head, List.append_nil]
        simp [Point.awaits, openAfter, moved, goto, herase]
      · simpa [Point.awaits, moved, goto] using hnodup

theorem independent : Independent t ns where
  idle := k.idle
  waits := k.waits
  resolves := k.resolves
  late := by
    intro x p ht l src sid callId status payload hnew
    have hnot : callId ∉ t.pending := by
      intro h
      have hmem : callId ∈ calls (own ns) :=
        k.waits x p ht ▸ List.mem_append_left p.awaits.toList h
      exact hnew (issued_of_mem_calls _ hmem)
    rw [dispatch.eq_def]
    exact if_neg hnot

end Accounted

/-! ### Runs -/

section

variable {c : Connection} {log : List Report} {e : Event} {r : Connection × List Report}

theorem Below.step {sid : String} (k : Below sid c log) (h : step c e = some r)
    (hcall : e.IsCall → c.sharedCallId ≠ 0) : Below sid r.1 (log ++ r.2) := by
  intro hne callId hmem
  rw [notesOf_append] at hmem
  have hid := sharedCallId_of_step h
  have hold : .issued callId ∈ notesOf sid log → callId < r.1.sharedCallId := by
    intro hmem
    by_cases hc : e.IsCall
    · rw [if_pos hc] at hid
      rw [hid] at hne ⊢
      exact UInt64.lt_trans (k (hcall hc) callId hmem) (callId_lt_succ hne)
    · rw [if_neg hc] at hid
      rw [hid] at hne ⊢
      exact k hne callId hmem
  rcases List.mem_append.mp hmem with hmem | hmem
  · exact hold hmem
  · cases session_step h sid with
    | same hs hn | creates ht hs hn | destroys he hd ht hs hn | joins ht hc hs hn =>
        rw [hn] at hmem
        cases hmem
    | forwards hto ht hstop hs hn =>
        rw [hn] at hmem
        cases List.mem_singleton.mp hmem
    | acts he ht hact hs hn =>
        rw [hn] at hmem
        exact (passive_of_act hact _ hmem).elim
    | calls he hc ht hx hmade hs hn =>
        rw [if_pos hc] at hid
        rw [hid] at hne ⊢
        rw [hn] at hmem
        have heq : callId = c.sharedCallId := by
          cases hmade with
          | sync hb | async hb =>
              cases List.mem_singleton.mp hmem
              rfl
          | unsent =>
              rcases List.mem_pair.mp hmem with heq | heq <;> cases heq
              rfl
        rw [heq]
        exact callId_lt_succ hne

/-- A step of the connection keeps the accounts of a session. -/
theorem Accounted.step {sid : String} (k : Accounted (c.thread sid) (notesOf sid log))
    (hbelow : Below sid c log) (h : step c e = some r) (hs : Settles sid (c, log) e) :
    Accounted (r.1.thread sid) (notesOf sid (log ++ r.2)) := by
  rw [notesOf_append]
  cases session_step h sid with
  | same hget hn =>
      have hthread : r.1.thread sid = c.thread sid := by
        rw [Connection.thread, hget, Connection.thread]
      rw [hn, List.append_nil, hthread]
      exact k
  | forwards hto ht hstop hget hn =>
      rw [thread_some hget, hn]
      rw [thread_some ht] at k
      exact k.forwards _
  | creates ht hget hn =>
      rw [thread_some hget, hn, List.append_nil]
      exact k.spawn _
  | destroys he hd ht hget hn =>
      rw [thread_some hget, hn, List.append_nil]
      rw [thread_some ht] at k
      exact ⟨k.idle, k.waits, k.nodup, k.resolves⟩
  | joins ht hc hget hn =>
      rw [thread_none hget, hn, List.append_nil]
      exact k.spawn _
  | acts he ht hact hget hn =>
      rw [thread_some hget, hn]
      rw [thread_some ht] at k
      exact k.act hact (hs.1 _ ht he)
  | calls he hcall ht hx hmade hget hn =>
      rw [thread_some hget, hn]
      rw [thread_some ht] at k
      refine k.call hx ?_ hmade
      intro hmem
      exact absurd (hbelow (hs.2 hcall) _ hmem) (UInt64.lt_irrefl _)

end

/-- An execution that reports this exit code, and a second one that makes a call. -/
def secondCallRun (code : Int32) : List Event :=
  [.host [2, 1, 115, 0, 0, 0, 0, 0, 0, 0, 0],
    .host [5, 1, 115, 0, 0, 0, 0, 0, 0, 0, 0, 0, 0, 0, 49], .next "s" none,
    .answer "s" ⟨some (code, none, none), .none⟩, .answer "s" ⟨none, .none⟩, .next "s" none,
    .host [5, 1, 115, 0, 0, 0, 0, 0, 0, 0, 0, 0, 0, 0, 50], .next "s" none,
    .asyncCall "s" "_scheduleTimer" []]

/-- The thread after it. -/
def secondCallThread : Thread :=
  { spawn false with
    v8Isolate := some ⟨none⟩
    pending := [1]
    control := .running
      { sessionId := "s", setup := ⟨⟨none⟩, none, "", "", "2", none, 0⟩, deferred := [],
        evaluations := .none, code := 0, exports := none, error := none,
        terminated := false, guard := false, timedOut := false } (.engine .script) }

end Session
