import SecureExec.Socket.Peers

/-!
# Socket — Waiters — who waits on the queues of a socket

A blocking `accept` or `recv` waits with a handle in a queue of its socket.  The queues hold the
handles of the calls that wait and have not been woken (`Queues`); a call is left in a queue only
while its socket may still bring what it waits for (`Waiting`), and a blocked call finds nothing,
or as much as the calls that were woken before it will take (`Served`).

`Attended` is all of this.  It is kept by every effect that is no wait of its own.
-/

namespace SecureExec.Socket
open SecureExec Kernel SocketTable WaitQueue

/-- A call that waits on a queue of a socket. -/
structure Waiter where
  accepts : Bool
  socketId : Nat
  handle : Nat
  deriving DecidableEq

def Awaiting.waiter : Awaiting → Option Waiter
  | .accept id h => some ⟨true, id, h⟩
  | .recv id _ _ h => some ⟨false, id, h⟩
  | _ => none

theorem Awaiting.waiter_eq_none {c : Awaiting} (h : c.isWait = false) : c.waiter = none := by
  cases c with
  | accept id h' => cases h
  | recv id maxBytes flags h' => cases h
  | _ => rfl

namespace SocketTable

variable {A : Asked} {t t' : SocketTable} {ws : List Waiter} {sig : Nat → Bool}

/-- The queue of the accepting or of the reading calls. -/
def queueOf (t : SocketTable) (accepts : Bool) (id : Nat) : WaitQueue :=
  if accepts then (t.objs id).acceptWaiters else (t.objs id).readWaiters

/-- A reader may still get data: the stream is open and not at its end. -/
structure Open (t : SocketTable) (id : Nat) : Prop where
  live : t.has id = true
  readable : (t.objs id).state ≠ .readClosed ∧ (t.objs id).state ≠ .closed
  noEof : (t.objs id).peerWriteClosed = false
  source : (t.objs id).external = true ∨ ∃ p, (t.objs id).peerId = some p ∧ t.has p = true

/-- The queues hold the calls that were not woken. -/
structure Queues (t : SocketTable) (ws : List Waiter) : Prop where
  distinct : (ws.map (·.handle)).Nodup
  below : ∀ w ∈ ws, w.handle < t.waits.next
  queued : ∀ k id h, h ∈ t.queueOf k id ↔ ⟨k, id, h⟩ ∈ ws ∧ t.waits.settled h = false
  nodup : ∀ k id, (t.queueOf k id).Nodup

/-- Whoever is in a queue may still get something. -/
structure Waiting (t : SocketTable) (ws : List Waiter) : Prop where
  queues : Queues t ws
  readers : ∀ id, t.queueOf false id ≠ [] → t.Open id
  accepters : ∀ id, t.queueOf true id ≠ [] → t.has id = true ∧ (t.objs id).state = .listening
  listening : ∀ id, (t.objs id).state = .listening → t.has id = true

/-- A call is blocked: neither woken nor signalled. -/
def Blocked (t : SocketTable) (sig : Nat → Bool) (ws : List Waiter) (k : Bool) (id : Nat) : Prop :=
  ∃ h, ⟨k, id, h⟩ ∈ ws ∧ t.waits.settled h = false ∧ sig h = false

/-- The calls on a queue that were woken and have not gone on. -/
def woken (t : SocketTable) (ws : List Waiter) (k : Bool) (id : Nat) : Nat :=
  ws.countP fun w => w.accepts == k && w.socketId == id && t.waits.settled w.handle

/-- What waits for the blocked calls of a queue is left for those that were woken. -/
def ServedAt (t : SocketTable) (sig : Nat → Bool) (ws : List Waiter) : Bool → Nat → Prop
  | false, id => Blocked t sig ws false id → (t.objs id).readBuffer = [] ∨ 0 < woken t ws false id
  | true, id => Blocked t sig ws true id → (t.objs id).backlog.length ≤ woken t ws true id

structure Attended (t : SocketTable) (sig : Nat → Bool) (ws : List Waiter) : Prop where
  waiting : Waiting t ws
  served : ∀ k id, ServedAt t sig ws k id

theorem Attended.new (maxSockets : Nat) (vfs hostAdapter : Bool) (sig : Nat → Bool) :
    Attended (.new maxSockets vfs hostAdapter) sig [] := by
  have hnil : ∀ k id, (SocketTable.new maxSockets vfs hostAdapter).queueOf k id = [] := by
    intro k id
    cases k with
    | false => rfl
    | true => rfl
  have hblock : ∀ k id, ¬ Blocked (.new maxSockets vfs hostAdapter) sig [] k id := by
    rintro k id ⟨x, hx, -⟩
    exact List.not_mem_nil hx
  have hqueues : Queues (.new maxSockets vfs hostAdapter) [] := by
    refine ⟨List.nodup_nil, fun _ hx => (List.not_mem_nil hx).elim, fun k id h => ?_, fun k id => ?_⟩
    · simp [hnil]
    · rw [hnil]
      exact List.nodup_nil
  refine ⟨⟨hqueues, fun id hq => absurd (hnil false id) hq, fun id hq => absurd (hnil true id) hq,
    fun id hs => by cases hs⟩, fun k id => ?_⟩
  cases k with
  | false => exact fun hb => (hblock _ _ hb).elim
  | true => exact fun hb => (hblock _ _ hb).elim

/-! ### Lists of waiters -/

variable {ws' : List Waiter}

theorem Queues.perm (h : Queues t ws) (hp : ws.Perm ws') : Queues t ws' where
  distinct := (hp.map _).nodup_iff.mp h.distinct
  below := fun w hw => h.below w (hp.mem_iff.mpr hw)
  queued := fun k id x => by rw [h.queued, hp.mem_iff]
  nodup := h.nodup

theorem Waiting.perm (h : Waiting t ws) (hp : ws.Perm ws') : Waiting t ws' :=
  ⟨h.queues.perm hp, h.readers, h.accepters, h.listening⟩

variable {k : Bool}

theorem Blocked.perm {id : Nat} (hp : ws.Perm ws')
    (h : Blocked t sig ws k id) : Blocked t sig ws' k id := by
  obtain ⟨x, hx, hs⟩ := h
  exact ⟨x, hp.mem_iff.mp hx, hs⟩

theorem ServedAt.perm {id : Nat} (hp : ws.Perm ws')
    (h : ServedAt t sig ws k id) : ServedAt t sig ws' k id := by
  have hcount : woken t ws' k id = woken t ws k id := (hp.countP_eq _).symm
  cases k with
  | false =>
      intro hb
      rw [hcount]
      exact h (hb.perm hp.symm)
  | true =>
      intro hb
      rw [hcount]
      exact h (hb.perm hp.symm)

theorem Attended.perm (h : Attended t sig ws) (hp : ws.Perm ws') :
    Attended t sig ws' :=
  ⟨h.waiting.perm hp, fun k id => (h.served k id).perm hp⟩

/-- A blocked call is in its queue. -/
theorem Blocked.queue_ne_nil {id : Nat} (hq : Queues t ws)
    (h : Blocked t sig ws k id) : t.queueOf k id ≠ [] := by
  obtain ⟨x, hx, hs, -⟩ := h
  exact List.ne_nil_of_mem ((hq.queued k id x).mpr ⟨hx, hs⟩)

/-- More signals block fewer calls. -/
theorem Attended.signal {sig' : Nat → Bool} (h : Attended t sig ws)
    (hs : ∀ x, sig' x = false → sig x = false) : Attended t sig' ws := by
  have hblock : ∀ k id, Blocked t sig' ws k id → Blocked t sig ws k id := by
    rintro k id ⟨x, hx, hset, hsig⟩
    exact ⟨x, hx, hset, hs x hsig⟩
  refine ⟨h.waiting, fun k id => ?_⟩
  cases k with
  | false => exact fun hb => h.served false id (hblock _ _ hb)
  | true => exact fun hb => h.served true id (hblock _ _ hb)

/-! ### Tables with the same queues -/

/-- The queues and the handles are the same. -/
structure SameQueues (t t' : SocketTable) : Prop where
  waits : t'.waits = t.waits
  queue : ∀ k id, t'.queueOf k id = t.queueOf k id

theorem Queues.of_same (h : Queues t ws) (hs : SameQueues t t') : Queues t' ws where
  distinct := h.distinct
  below := fun w hw => hs.waits ▸ h.below w hw
  queued := fun k id x => by rw [hs.queue, hs.waits, h.queued]
  nodup := fun k id => hs.queue k id ▸ h.nodup k id

theorem Blocked.of_same {id : Nat} (hs : SameQueues t t')
    (h : Blocked t' sig ws k id) : Blocked t sig ws k id := by
  obtain ⟨x, hx, hset, hsig⟩ := h
  exact ⟨x, hx, hs.waits ▸ hset, hsig⟩

theorem woken_of_same (hs : SameQueues t t') (k : Bool) (id : Nat) :
    woken t' ws k id = woken t ws k id := by
  simp only [woken, hs.waits]

/-- Nothing more comes for the calls of a queue. -/
def NoMore : Bool → KernelSocket → KernelSocket → Prop
  | false, s, s' => s.readBuffer = [] → s'.readBuffer = []
  | true, s, s' => s'.backlog.length ≤ s.backlog.length

theorem NoMore.of_eq (k : Bool) {s s' : KernelSocket} (hd : s'.readBuffer = s.readBuffer)
    (hc : s'.backlog = s.backlog) : NoMore k s s' := by
  cases k with
  | false => exact fun h => hd.trans h
  | true => exact Nat.le_of_eq (congrArg List.length hc)

theorem ServedAt.of_same {id : Nat} (h : ServedAt t sig ws k id) (hs : SameQueues t t')
    (hless : NoMore k (t.objs id) (t'.objs id)) : ServedAt t' sig ws k id := by
  cases k with
  | false =>
      intro hb
      rw [woken_of_same hs]
      exact (h (hb.of_same hs)).imp_left hless
  | true =>
      intro hb
      rw [woken_of_same hs]
      exact Nat.le_trans hless (h (hb.of_same hs))

/-- A change that keeps the queues, and what those in a queue wait for. -/
theorem Waiting.of_same (h : Waiting t ws) (hs : SameQueues t t')
    (hopen : ∀ id, t.queueOf false id ≠ [] → t.Open id → t'.Open id)
    (hlive : ∀ id, t.queueOf true id ≠ [] → t.has id = true → (t.objs id).state = .listening →
      t'.has id = true ∧ (t'.objs id).state = .listening)
    (hlisten : ∀ id, (t'.objs id).state = .listening → t'.has id = true) : Waiting t' ws where
  queues := h.queues.of_same hs
  readers := fun id hq => by
    rw [hs.queue] at hq
    exact hopen id hq (h.readers id hq)
  accepters := fun id hq => by
    rw [hs.queue] at hq
    obtain ⟨hl, hstate⟩ := h.accepters id hq
    exact hlive id hq hl hstate
  listening := hlisten

/-! ### Waking -/

/-- All of an object but its queues and what no waiter depends on. -/
def stream (s : KernelSocket) :=
  (s.state, s.peerWriteClosed, s.external, s.peerId, s.readBuffer, s.backlog)

/-- The calls of `front` are woken, and `rest` is what is left of the queue. -/
structure Wakes (t t' : SocketTable) (k : Bool) (id : Nat) (front rest : WaitQueue) : Prop where
  next : t'.waits.next = t.waits.next
  settled : ∀ h, t'.waits.settled h = if h ∈ front then true else t.waits.settled h
  split : t.queueOf k id = front ++ rest
  queue : t'.queueOf k id = rest
  other : ∀ k' id', (k', id') ≠ (k, id) → t'.queueOf k' id' = t.queueOf k' id'
  sockets : t'.sockets = t.sockets
  stream : ∀ i, stream (t'.objs i) = stream (t.objs i)

def setQueue (k : Bool) (q : WaitQueue) (s : KernelSocket) : KernelSocket :=
  if k then { s with acceptWaiters := q } else { s with readWaiters := q }

theorem queueOf_setQueue (t : SocketTable) (k : Bool) (id : Nat) (q : WaitQueue) (k' : Bool)
    (id' : Nat) :
    (t.modify id (setQueue k q)).queueOf k' id' =
      if (k', id') = (k, id) then q else t.queueOf k' id' := by
  by_cases hid : id' = id
  · subst hid
    cases k <;> cases k' <;> simp [queueOf, setQueue]
  · rw [if_neg fun hc => hid (Prod.mk.inj hc).2]
    simp only [queueOf, modify_objs_of_ne t hid]

theorem stream_setQueue (k : Bool) (q : WaitQueue) (s : KernelSocket) :
    stream (setQueue k q s) = stream s := by
  cases k <;> rfl

theorem wakes_setQueue {id : Nat} {front rest : WaitQueue} {w : WaitHandles}
    (hsplit : t.queueOf k id = front ++ rest) (hnext : w.next = t.waits.next)
    (hset : ∀ h, w.settled h = if h ∈ front then true else t.waits.settled h) :
    Wakes t { t.modify id (setQueue k rest) with waits := w } k id front rest where
  next := hnext
  settled := hset
  split := hsplit
  queue := (queueOf_setQueue t k id rest k id).trans (if_pos rfl)
  other := fun k' id' hne => (queueOf_setQueue t k id rest k' id').trans (if_neg hne)
  sockets := rfl
  stream := fun i => modify_field t id i stream (stream_setQueue k rest _)

/-- The first call of the queue is woken, if there is one. -/
theorem wakes_wakeOne (h : Queues t ws) (k : Bool) (id : Nat) :
    ∃ front rest, (front = [] → t.queueOf k id = []) ∧
      Wakes t { t.modify id (setQueue k (wakeOne t.waits (t.queueOf k id)).2) with
        waits := (wakeOne t.waits (t.queueOf k id)).1 } k id front rest := by
  cases hq : t.queueOf k id with
  | nil =>
      refine ⟨[], [], fun _ => rfl, wakes_setQueue hq rfl fun x => ?_⟩
      simp [wakeOne]
  | cons x q =>
      have hx : t.waits.settled x = false :=
        ((h.queued k id x).mp (hq ▸ List.mem_cons_self)).2
      rw [wakeOne_cons hx]
      refine ⟨[x], q, fun hnil => (List.cons_ne_nil _ _ hnil).elim, wakes_setQueue hq rfl
        fun y => ?_⟩
      by_cases hy : y = x
      · subst hy
        simp [WaitHandles.wake]
      · simp [WaitHandles.wake, hy]

variable (t)

/-- Every call of the queue is woken. -/
theorem wakes_wakeAll (k : Bool) (id : Nat) :
    Wakes t { t.modify id (setQueue k (wakeAll t.waits (t.queueOf k id)).2) with
      waits := (wakeAll t.waits (t.queueOf k id)).1 } k id (t.queueOf k id) [] :=
  wakes_setQueue (List.append_nil _).symm (next_wakeAll _ _)
    (settled_wakeAll _ _)

theorem wakes_wakeReaders (id : Nat) :
    Wakes t (t.wakeReaders id) false id (t.queueOf false id) [] := wakes_wakeAll t false id

theorem wakes_wakeAccepters (id : Nat) :
    Wakes t (t.wakeAccepters id) true id (t.queueOf true id) [] := wakes_wakeAll t true id

variable {t}

section
variable {k : Bool} {id : Nat} {front rest : WaitQueue}

theorem Wakes.settled_mono (hw : Wakes t t' k id front rest) {h : Nat}
    (hs : t.waits.settled h = true) : t'.waits.settled h = true := by
  rw [hw.settled, hs]
  exact ite_self _

theorem Wakes.unsettled (hw : Wakes t t' k id front rest) {h : Nat}
    (hs : t'.waits.settled h = false) : h ∉ front ∧ t.waits.settled h = false := by
  rw [hw.settled] at hs
  split at hs
  · cases hs
  · rename_i hnot
    exact ⟨hnot, hs⟩

theorem Queues.wakes (h : Queues t ws) (hw : Wakes t t' k id front rest) : Queues t' ws where
  distinct := h.distinct
  below := fun w hmem => hw.next ▸ h.below w hmem
  queued := fun k' id' x => by
    have hq := h.queued k' id' x
    have hnodup := h.nodup k id
    rw [hw.split, List.nodup_append] at hnodup
    by_cases hsame : (k', id') = (k, id)
    · obtain ⟨rfl, rfl⟩ := Prod.mk.inj hsame
      rw [hw.queue, hw.settled]
      rw [hw.split, List.mem_append] at hq
      by_cases hx : x ∈ front
      · have hrest : x ∉ rest := fun hr => hnodup.2.2 x hx x hr rfl
        simp [hx, hrest]
      · simpa [hx] using hq
    · rw [hw.other k' id' hsame, hq, hw.settled]
      -- a call of another queue is not among those woken
      refine and_congr_right fun hmem => ?_
      have hx : x ∉ front := by
        intro hf
        have hown := ((h.queued k id x).mp (hw.split ▸ List.mem_append_left _ hf)).1
        have heq := List.inj_on_of_nodup_map h.distinct hmem hown rfl
        cases heq
        exact hsame rfl
      rw [if_neg hx]
  nodup := fun k' id' => by
    by_cases hsame : (k', id') = (k, id)
    · obtain ⟨rfl, rfl⟩ := Prod.mk.inj hsame
      have hnodup := h.nodup k' id'
      rw [hw.split, List.nodup_append] at hnodup
      exact hw.queue ▸ hnodup.2.1
    · rw [hw.other k' id' hsame]
      exact h.nodup k' id'

section

variable (hw : Wakes t t' k id front rest)
include hw

theorem Blocked.of_wakes {k' : Bool} {id' : Nat}
    (h : Blocked t' sig ws k' id') : Blocked t sig ws k' id' := by
  obtain ⟨x, hx, hs, hsig⟩ := h
  exact ⟨x, hx, (hw.unsettled hs).2, hsig⟩

theorem Wakes.woken_le (k' : Bool) (id' : Nat) :
    woken t ws k' id' ≤ woken t' ws k' id' := by
  refine List.countP_mono_left fun w _ h => ?_
  simp only [Bool.and_eq_true] at h ⊢
  exact ⟨h.1, hw.settled_mono h.2⟩

/-- There is one more. -/
theorem Wakes.woken_lt (h : Queues t ws) (hf : front ≠ []) :
    woken t ws k id < woken t' ws k id := by
  obtain ⟨x, hx⟩ := List.exists_mem_of_ne_nil _ hf
  obtain ⟨hmem, hset⟩ := (h.queued k id x).mp (hw.split ▸ List.mem_append_left _ hx)
  obtain ⟨l₁, l₂, rfl⟩ := List.append_of_mem hmem
  have hle : ∀ l : List Waiter, woken t l k id ≤ woken t' l k id := fun l => hw.woken_le k id
  have hcons : woken t (⟨k, id, x⟩ :: l₂) k id < woken t' (⟨k, id, x⟩ :: l₂) k id := by
    have hset' : t'.waits.settled x = true := by rw [hw.settled, if_pos hx]
    simp only [woken, List.countP_cons, hset, hset', beq_self_eq_true, Bool.and_self,
      Bool.and_false, if_true, Bool.false_eq_true, if_false, Nat.add_zero]
    exact Nat.lt_succ_of_le (hle l₂)
  have happ : ∀ t : SocketTable, woken t (l₁ ++ ⟨k, id, x⟩ :: l₂) k id =
      woken t l₁ k id + woken t (⟨k, id, x⟩ :: l₂) k id := fun t => List.countP_append
  rw [happ, happ]
  exact Nat.add_lt_add_of_le_of_lt (hle l₁) hcons

end

theorem open_of_stream {i : Nat} (hlive : ∀ x, t.has x = true → t'.has x = true)
    (hi : stream (t'.objs i) = stream (t.objs i)) (h : t.Open i) : t'.Open i := by
  simp only [stream, Prod.mk.injEq] at hi
  obtain ⟨hstate, heof, hext, hpeer, -⟩ := hi
  refine ⟨hlive i h.live, ?_, heof.trans h.noEof, ?_⟩
  · rw [hstate]
    exact h.readable
  · rw [hext, hpeer]
    refine h.source.imp_right ?_
    rintro ⟨p, hp, hl⟩
    exact ⟨p, hp, hlive p hl⟩

theorem Waiting.wakes (h : Waiting t ws) (hw : Wakes t t' k id front rest) : Waiting t' ws := by
  have hstate : ∀ i, (t'.objs i).state = (t.objs i).state := fun i => congrArg (·.1) (hw.stream i)
  have hlive : ∀ x, t'.has x = t.has x := fun x => by rw [has, has, hw.sockets]
  have hqueue : ∀ k' i, t'.queueOf k' i ≠ [] → t.queueOf k' i ≠ [] := by
    intro k' i hne
    by_cases hsame : (k', i) = (k, id)
    · obtain ⟨rfl, rfl⟩ := Prod.mk.inj hsame
      rw [hw.queue] at hne
      rw [hw.split]
      exact List.append_ne_nil_of_right_ne_nil _ hne
    · rwa [hw.other k' i hsame] at hne
  refine ⟨h.queues.wakes hw, fun i hq => ?_, fun i hq => ?_, fun i hs => ?_⟩
  · exact open_of_stream (fun x hx => (hlive x).trans hx) (hw.stream i)
      (h.readers i (hqueue false i hq))
  · rw [hlive, hstate]
    exact h.accepters i (hqueue true i hq)
  · rw [hlive]
    exact h.listening i ((hstate i).symm.trans hs)

theorem Attended.wakes (h : Attended t sig ws) (hw : Wakes t t' k id front rest) :
    Attended t' sig ws := by
  refine ⟨h.waiting.wakes hw, fun k' i => ?_⟩
  have hstream := hw.stream i
  simp only [stream, Prod.mk.injEq] at hstream
  obtain ⟨-, -, -, -, hdata, hconns⟩ := hstream
  cases k' with
  | false =>
      intro hb
      rw [hdata]
      exact (h.served false i (hb.of_wakes hw)).imp_right fun hlt =>
        Nat.lt_of_lt_of_le hlt (hw.woken_le false i)
  | true =>
      intro hb
      rw [hconns]
      exact (h.served true i (hb.of_wakes hw)).trans (hw.woken_le true i)

end

/-! ### One object changes -/

variable {g : KernelSocket → KernelSocket}

theorem SameQueues.modify (t : SocketTable) (id : Nat)
    (hq : ((g (t.objs id)).readWaiters, (g (t.objs id)).acceptWaiters) =
      ((t.objs id).readWaiters, (t.objs id).acceptWaiters)) : SameQueues t (t.modify id g) := by
  refine ⟨rfl, fun k i => ?_⟩
  obtain ⟨hr, ha⟩ :=
    Prod.mk.inj (modify_field t id i (fun s => (s.readWaiters, s.acceptWaiters)) hq)
  cases k with
  | false => exact hr
  | true => exact ha

/-- What an object may change under the calls that wait on it. -/
structure Bears (t : SocketTable) (id : Nat) (s' : KernelSocket) : Prop where
  queues : (s'.readWaiters, s'.acceptWaiters) = ((t.objs id).readWaiters, (t.objs id).acceptWaiters)
  readers : t.queueOf false id ≠ [] → t.Open id →
    (s'.state ≠ .readClosed ∧ s'.state ≠ .closed) ∧ s'.peerWriteClosed = false ∧
      (s'.external = true ∨ ∃ p, s'.peerId = some p ∧ t.has p = true)
  accepters : t.queueOf true id ≠ [] → (t.objs id).state = .listening → s'.state = .listening
  listening : s'.state = .listening → (t.objs id).state = .listening ∨ t.has id = true

theorem Waiting.modify (h : Waiting t ws) (id : Nat)
    (hg : Bears t id (g (t.objs id))) : Waiting (t.modify id g) ws := by
  refine h.of_same (.modify t id hg.queues) (fun i hq ho => ?_) (fun i hq hl hs => ⟨hl, ?_⟩)
    fun i hs => ?_
  · by_cases hi : i = id
    · subst hi
      obtain ⟨hr, he, hsrc⟩ := hg.readers hq ho
      refine ⟨ho.live, ?_, ?_, ?_⟩
      · rw [modify_objs_self]
        exact hr
      · rw [modify_objs_self]
        exact he
      · rw [modify_objs_self]
        exact hsrc
    · have hobj := modify_objs_of_ne t hi g
      have hlive : ∀ x, t.has x = true → (t.modify id g).has x = true := fun _ hx => hx
      exact open_of_stream hlive (congrArg stream hobj) ho
  · by_cases hi : i = id
    · subst hi
      rw [modify_objs_self]
      exact hg.accepters hq hs
    · rw [modify_objs_of_ne t hi]
      exact hs
  · by_cases hi : i = id
    · subst hi
      rw [modify_objs_self] at hs
      exact (hg.listening hs).elim (h.listening i) fun hl => hl
    · rw [modify_objs_of_ne t hi] at hs
      exact h.listening i hs

section

variable (h : Attended t sig ws)
include h

theorem Attended.modify (id : Nat)
    (hg : Bears t id (g (t.objs id))) (hserved : ∀ k, ServedAt (t.modify id g) sig ws k id) :
    Attended (t.modify id g) sig ws := by
  refine ⟨h.waiting.modify id hg, fun k i => ?_⟩
  by_cases hi : i = id
  · exact hi ▸ hserved k
  · refine (h.served k i).of_same (.modify t id hg.queues) ?_
    rw [modify_objs_of_ne t hi]
    exact .of_eq k rfl rfl

/-- Neither data nor connections come. -/
theorem Attended.modifyLess (id : Nat)
    (hg : Bears t id (g (t.objs id))) (hless : ∀ k, NoMore k (t.objs id) (g (t.objs id))) :
    Attended (t.modify id g) sig ws := by
  refine h.modify id hg fun k => (h.served k id).of_same (.modify t id hg.queues) ?_
  rw [modify_objs_self]
  exact hless k

omit h in
theorem Bears.of_stream {id : Nat} {s' : KernelSocket}
    (hq : (s'.readWaiters, s'.acceptWaiters) = ((t.objs id).readWaiters, (t.objs id).acceptWaiters))
    (hs : (s'.state, s'.peerWriteClosed, s'.external, s'.peerId) = ((t.objs id).state,
      (t.objs id).peerWriteClosed, (t.objs id).external, (t.objs id).peerId)) : Bears t id s' := by
  simp only [Prod.mk.injEq] at hs
  obtain ⟨hstate, heof, hext, hpeer⟩ := hs
  refine ⟨hq, fun _ ho => ?_, fun _ h => hstate.trans h, fun h => .inl (hstate.symm.trans h)⟩
  rw [hstate, heof, hext, hpeer]
  exact ⟨ho.readable, ho.noEof, ho.source⟩

/-- The object is the same in all that matters to waiters. -/
theorem Attended.modifySame (id : Nat)
    (hq : ((g (t.objs id)).readWaiters, (g (t.objs id)).acceptWaiters) =
      ((t.objs id).readWaiters, (t.objs id).acceptWaiters))
    (hs : stream (g (t.objs id)) = stream (t.objs id)) :
    Attended (t.modify id g) sig ws := by
  simp only [stream, Prod.mk.injEq] at hs
  obtain ⟨hstate, heof, hext, hpeer, hdata, hconns⟩ := hs
  refine h.modifyLess id (.of_stream hq ?_) fun k => ?_
  · rw [hstate, heof, hext, hpeer]
  · exact .of_eq k hdata hconns

/-- The table changes outside the objects and the sockets. -/
theorem Attended.of_objs (ho : t'.objs = t.objs)
    (hs : t'.sockets = t.sockets) (hw : t'.waits = t.waits) : Attended t' sig ws := by
  have hsame : SameQueues t t' := ⟨hw, fun k id => by simp only [queueOf, ho]⟩
  have hlive : ∀ x, t'.has x = t.has x := fun x => by rw [has, has, hs]
  refine ⟨h.waiting.of_same hsame
    (fun i _ => open_of_stream (fun x hx => (hlive x).trans hx) (by rw [ho]))
    (fun i _ hl hst => ?_) fun i hst => ?_, fun k i => (h.served k i).of_same hsame ?_⟩
  · rw [hlive, ho]
    exact ⟨hl, hst⟩
  · rw [ho] at hst
    exact (hlive i).trans (h.waiting.listening i hst)
  · rw [ho]
    exact .of_eq k rfl rfl

end

/-! ### A change and a wake -/

section
variable {id : Nat} {g : KernelSocket → KernelSocket}

/-- A change that does not see a queue. -/
def Keeps (k : Bool) (g : KernelSocket → KernelSocket) : Prop :=
  ∀ s q, g (setQueue k q s) = setQueue k q (g s)

theorem Keeps.queueOf (hg : Keeps k g) (t : SocketTable) (id : Nat) :
    (t.modify id g).queueOf k id = t.queueOf k id := by
  have hself : setQueue k (t.queueOf k id) (t.objs id) = t.objs id := by cases k <;> rfl
  have hobj := hg (t.objs id) (t.queueOf k id)
  rw [hself] at hobj
  cases k with
  | false => simpa [queueOf, setQueue] using congrArg (·.readWaiters) hobj
  | true => simpa [queueOf, setQueue] using congrArg (·.acceptWaiters) hobj

/-- The change and the wake commute. -/
theorem Keeps.wake (hg : Keeps k g) (t : SocketTable) (id : Nat)
    (f : WaitHandles → WaitQueue → WaitHandles × WaitQueue) :
    ({ (t.modify id g).modify id (setQueue k (f t.waits ((t.modify id g).queueOf k id)).2) with
        waits := (f t.waits ((t.modify id g).queueOf k id)).1 } : SocketTable) =
      ({ t.modify id (setQueue k (f t.waits (t.queueOf k id)).2) with
        waits := (f t.waits (t.queueOf k id)).1 } : SocketTable).modify id g := by
  rw [hg.queueOf, modify_modify]
  have hcomm : t.modify id (fun s => setQueue k (f t.waits (t.queueOf k id)).2 (g s)) =
      (t.modify id (setQueue k (f t.waits (t.queueOf k id)).2)).modify id g := by
    rw [modify_modify]
    refine congrArg (t.modify id) (funext fun s => ?_)
    exact (hg s _).symm
  rw [hcomm]
  rfl

theorem wakeReaders_modify (hg : Keeps false g) :
    (t.modify id g).wakeReaders id = (t.wakeReaders id).modify id g :=
  hg.wake t id wakeAll

theorem wakeReader_modify (hg : Keeps false g) :
    (t.modify id g).wakeReader id = (t.wakeReader id).modify id g :=
  hg.wake t id wakeOne

theorem wakeAccepter_modify (hg : Keeps true g) :
    (t.modify id g).wakeAccepter id = (t.wakeAccepter id).modify id g :=
  hg.wake t id wakeOne

theorem wakeAccepters_modify (hg : Keeps true g) :
    (t.modify id g).wakeAccepters id = (t.wakeAccepters id).modify id g :=
  hg.wake t id wakeAll

end

/-! ### Changes -/

namespace Attended

section

variable (h : Attended t sig ws)
include h

variable (id : Nat)

theorem wakeReaders : Attended (t.wakeReaders id) sig ws :=
  h.wakes (wakes_wakeReaders t id)

theorem wakeReader : Attended (t.wakeReader id) sig ws := by
  obtain ⟨front, rest, -, hw⟩ := wakes_wakeOne h.waiting.queues false id
  exact h.wakes hw

/-- A socket on which nobody waits for connections changes its state. -/
theorem not_queued {id : Nat} (hu : t.Unattended id) :
    t.queueOf true id = [] := by
  by_contra hq
  exact hq (hu (h.waiting.accepters id hq).2)

/-- A chunk comes, and a reader is woken. -/
theorem deliver (data : ByteArray8) :
    Attended (t.deliver id data) sig ws := by
  let push : KernelSocket → KernelSocket := fun s => { s with readBuffer := s.readBuffer ++ [data] }
  have hkeep : Keeps false push := fun _ _ => rfl
  have heq : t.deliver id data = (t.wakeReader id).modify id push := wakeReader_modify hkeep
  obtain ⟨front, rest, hnil, hw⟩ := wakes_wakeOne h.waiting.queues false id
  have h₁ : Attended (t.wakeReader id) sig ws := h.wakes hw
  rw [heq]
  refine h₁.modify id (.of_stream rfl rfl) fun k => ?_
  have hsame : SameQueues (t.wakeReader id) ((t.wakeReader id).modify id push) :=
    .modify _ id rfl
  cases k with
  | true =>
      refine (h₁.served true id).of_same hsame ?_
      rw [modify_objs_self]
      exact Nat.le_refl _
  | false =>
      intro hb
      have hb' := hb.of_same hsame
      rw [woken_of_same hsame]
      -- a blocked reader is behind the one that was woken
      have hfront : front ≠ [] := fun hf =>
        (hb'.of_wakes hw).queue_ne_nil h.waiting.queues (hnil hf)
      exact .inr (Nat.lt_of_le_of_lt (Nat.zero_le _) (hw.woken_lt h.waiting.queues hfront))

/-- A connection comes, and an accepting call is woken. -/
theorem queue (id c : Nat) :
    Attended ((t.modify id fun s => { s with backlog := s.backlog ++ [c] }).wakeAccepter id)
      sig ws := by
  let push : KernelSocket → KernelSocket := fun s => { s with backlog := s.backlog ++ [c] }
  have hkeep : Keeps true push := fun _ _ => rfl
  have heq : (t.modify id push).wakeAccepter id = (t.wakeAccepter id).modify id push :=
    wakeAccepter_modify hkeep
  obtain ⟨front, rest, hnil, hw⟩ := wakes_wakeOne h.waiting.queues true id
  have h₁ : Attended (t.wakeAccepter id) sig ws := h.wakes hw
  rw [heq]
  refine h₁.modify id (.of_stream rfl rfl) fun k => ?_
  have hsame : SameQueues (t.wakeAccepter id) ((t.wakeAccepter id).modify id push) :=
    .modify _ id rfl
  cases k with
  | false =>
      refine (h₁.served false id).of_same hsame ?_
      rw [modify_objs_self]
      exact fun hn => hn
  | true =>
      intro hb
      have hb' := (hb.of_same hsame).of_wakes hw
      have hfront : front ≠ [] := fun hf => hb'.queue_ne_nil h.waiting.queues (hnil hf)
      have hback : ((t.wakeAccepter id).objs id).backlog = (t.objs id).backlog :=
        wakeAccepter_field t id id (·.backlog) fun _ _ => rfl
      rw [woken_of_same hsame, modify_objs_self]
      calc (push ((t.wakeAccepter id).objs id)).backlog.length
          = (t.objs id).backlog.length + 1 := by simp [push, hback]
        _ ≤ woken t ws true id + 1 := Nat.succ_le_succ (h.served true id hb')
        _ ≤ woken (t.wakeAccepter id) ws true id := hw.woken_lt h.waiting.queues hfront

/-- The stream may end once all readers are woken. -/
theorem endRead (hk : Keeps false g) (ha : ∀ s, (g s).acceptWaiters = s.acceptWaiters)
    (hu : t.Unattended id ∨ ∀ s, (g s).state = s.state)
    (hs : ∀ s, (g s).state = .listening → s.state = .listening)
    (hless : ∀ k s, NoMore k s (g s)) : Attended ((t.modify id g).wakeReaders id) sig ws := by
  have h₁ := h.wakeReaders id
  have hempty : (t.wakeReaders id).queueOf false id = [] := (wakes_wakeReaders t id).queue
  have hqueue : (t.wakeReaders id).queueOf true id = t.queueOf true id :=
    (wakes_wakeReaders t id).other true id (by simp)
  rw [wakeReaders_modify hk]
  refine h₁.modifyLess id ⟨?_, fun hq => absurd hempty hq, fun hq hl => ?_, fun hl => ?_⟩
    fun k => hless k _
  · have hread := hk.queueOf (t.wakeReaders id) id
    simp only [queueOf, Bool.false_eq_true, if_false, modify_objs_self] at hread
    rw [hread, ha]
  · rcases hu with hu | hu
    · exact absurd (h.not_queued hu) (hqueue ▸ hq)
    · exact (hu _).trans hl
  · exact .inl (hs _ hl)

theorem setState {state : SocketState}
    (hr : t.queueOf false id ≠ [] → t.Open id → state ≠ .readClosed ∧ state ≠ .closed)
    (hu : t.Unattended id) (hs : state ≠ .listening) : Attended (t.setState id state) sig ws :=
  h.modifyLess id ⟨rfl, fun hq ho => ⟨hr hq ho, ho.noEof, ho.source⟩,
    fun hq _ => absurd (h.not_queued hu) hq, fun hl => absurd hl hs⟩ fun k => .of_eq k rfl rfl

theorem shutdownWrite :
    Attended (t.shutdownWrite id) sig ws := by
  unfold SocketTable.shutdownWrite
  split
  · exact h
  · split
    · exact h.endRead _ (fun _ _ => rfl) (fun _ => rfl) (.inr fun _ => rfl) (fun _ hs => hs)
        fun k s => .of_eq k rfl rfl
    · exact h

theorem shutdownRead : Attended (t.shutdownRead id) sig ws := by
  refine h.endRead id (fun _ _ => rfl) (fun _ => rfl) (.inr fun _ => rfl) (fun _ hs => hs)
    fun k s => ?_
  cases k with
  | false => exact fun _ => rfl
  | true => exact Nat.le_refl _

theorem shutDown (how : ShutdownHow)
    (hs : (t.objs id).state = .connected ∨ (t.objs id).state = .writeClosed ∨
      (t.objs id).state = .readClosed) : Attended (t.shutDown id how) sig ws := by
  have hwrite : ((t.shutdownWrite id).objs id).state = (t.objs id).state :=
    shutdownWrite_field t id id (·.state) (fun _ _ => rfl) fun _ _ => rfl
  have hread : ∀ t : SocketTable, ((t.shutdownRead id).objs id).state = (t.objs id).state :=
    fun t => shutdownRead_field t id id (·.state) (fun _ _ => rfl) fun _ _ => rfl
  have hempty : ∀ t : SocketTable, (t.shutdownRead id).queueOf false id = [] := fun t =>
    (wakes_wakeReaders (t.modify id ({ · with readBuffer := [] })) id).queue
  have hu : ∀ t' : SocketTable, (t'.objs id).state = (t.objs id).state → t'.Unattended id := by
    intro t' ht'
    refine .of_ne ?_
    rw [ht']
    rcases hs with hs | hs | hs <;> simp [hs]
  cases how with
  | read =>
      refine (h.shutdownRead id).setState id (fun hq => absurd (hempty t) hq) (hu _ (hread t)) ?_
      split <;> simp
  | write =>
      refine (h.shutdownWrite id).setState id (fun _ ho => ?_) (hu _ hwrite) ?_
      · rw [if_neg (hwrite ▸ ho.readable.1)]
        simp
      · split <;> simp
  | both =>
      refine ((h.shutdownWrite id).shutdownRead id).setState id (fun hq => absurd (hempty _) hq)
        (hu _ ((hread _).trans hwrite)) (by simp)

end

/-- **Every change that is no wait of its own.** -/
theorem change (hA : A.waits) (h : Attended t sig ws) (hc : Change A t t') :
    Attended t' sig ws := by
  cases hc with
  | plain id hg =>
      simp only [kept, keptButAddr, Prod.mk.injEq] at hg
      obtain ⟨-, ⟨hp, hb, -, hs⟩, -, ⟨hbuf, hr, ha, he, hx⟩, -⟩ := hg
      exact h.modifySame id (by rw [hr, ha])
        (by simp only [stream, hs, he, hx, hp, hbuf, hb])
  | address id _ hg =>
      simp only [keptButAddr, Prod.mk.injEq] at hg
      obtain ⟨⟨hp, hb, -, hs⟩, -, ⟨hbuf, hr, ha, he, hx⟩, -⟩ := hg
      exact h.modifySame id (by rw [hr, ha])
        (by simp only [stream, hs, he, hx, hp, hbuf, hb])
  | shift id c rest hb =>
      refine h.modifyLess id (.of_stream rfl rfl) fun k => ?_
      cases k with
      | false => exact fun hn => hn
      | true =>
          rw [NoMore, hb]
          exact Nat.le_succ _
  | enqueueReader id hw => exact absurd hA hw
  | enqueueAccepter id hw => exact absurd hA hw
  | dropReader id x hw => exact absurd hA hw
  | dropAccepter id x hw => exact absurd hA hw
  | wakeReader id => exact h.wakeReader id
  | deliver id data => exact h.deliver id data
  | consume id rest hlen =>
      refine h.modifyLess id (.of_stream rfl rfl) fun k => ?_
      cases k with
      | false =>
          intro hn
          rw [hn] at hlen
          exact List.length_eq_zero_iff.mp (Nat.le_zero.mp hlen)
      | true => exact Nat.le_refl _
  | eof id =>
      exact h.endRead id (fun _ _ => rfl) (fun _ => rfl) (.inr fun _ => rfl) (fun _ hs => hs)
        fun k s => .of_eq k rfl rfl
  | shutdown id how _ hs => exact h.shutDown id how hs
  | writeFailed id hw =>
      exact h.endRead id (fun _ _ => rfl) (fun _ => rfl) (.inl (hw hA)) (fun _ hs => by cases hs)
        fun k s => .of_eq k rfl rfl
  | connecting id addr _ hw =>
      refine h.modifyLess id ⟨rfl, fun _ ho => ⟨by simp, ho.noEof, ho.source⟩,
        fun hq _ => absurd (h.not_queued (hw hA)) hq, fun hl => by cases hl⟩ fun k => .of_eq k rfl rfl
  | attach id host addr _ hw =>
      refine h.modifyLess id ⟨rfl, fun _ ho => ⟨by simp, ho.noEof, .inl rfl⟩,
        fun hq _ => absurd (h.not_queued (hw hA)) hq, fun hl => by cases hl⟩ fun k => .of_eq k rfl rfl
  | connectFailed id _ _ hw =>
      exact h.endRead id (fun _ _ => rfl) (fun _ => rfl) (.inl (hw hA)) (fun _ hs => by cases hs)
        fun k s => .of_eq k rfl rfl
  | hostListening id _ _ | hostUdp id _ _ =>
      refine h.modifyLess id ⟨rfl, fun _ ho => ⟨ho.readable, ho.noEof, .inl rfl⟩,
        fun _ hl => hl, fun hl => .inl hl⟩ fun k => .of_eq k rfl rfl
  | hostClosed x => exact h.of_objs rfl rfl rfl

/-! ### Effects -/

section

variable (h : Attended t sig ws)
include h

/-- Nobody waits on the socket that is made next. -/
theorem add (ht : Sound t) {s : KernelSocket} (hs : Newborn s) :
    Attended (t.add s) sig ws := by
  have hnew : t.has t.nextSocketId = false := by
    refine Bool.eq_false_iff.mpr fun hl => ?_
    exact Nat.lt_irrefl _ (ht.below _ hl)
  have hempty : ∀ k, t.queueOf k t.nextSocketId = [] := by
    intro k
    by_contra hq
    have hlive : t.has t.nextSocketId = true := by
      cases k with
      | false => exact (h.waiting.readers _ hq).live
      | true => exact (h.waiting.accepters _ hq).1
    rw [hnew] at hlive
    cases hlive
  have hkeep : ∀ x, t.has x = true → (t.add s).has x = true := fun x hx =>
    (has_iff _ x).mpr (List.mem_append_left _ ((has_iff t x).mp hx))
  have hself : (t.add s).has t.nextSocketId = true :=
    (has_iff _ _).mpr (List.mem_append_right _ (List.mem_singleton_self _))
  have hsame : SameQueues t (t.add s) := by
    refine ⟨rfl, fun k i => ?_⟩
    by_cases hi : i = t.nextSocketId
    · subst hi
      rw [hempty]
      cases k with
      | false => simpa [queueOf] using hs.readWaiters
      | true => simpa [queueOf] using hs.acceptWaiters
    · simp only [queueOf, add_objs_of_ne t hi]
  have hold : ∀ i k, t.queueOf k i ≠ [] → (t.add s).objs i = t.objs i := by
    intro i k hq
    refine add_objs_of_ne t ?_ s
    rintro rfl
    exact hq (hempty k)
  refine ⟨h.waiting.of_same hsame (fun i hq ho => ?_) (fun i hq hl hst => ?_) fun i hst => ?_,
    fun k i => ?_⟩
  · exact open_of_stream hkeep (congrArg stream (hold i false hq)) ho
  · rw [hold i true hq]
    exact ⟨hkeep i hl, hst⟩
  · by_cases hi : i = t.nextSocketId
    · exact hi ▸ hself
    · rw [add_objs_of_ne t hi] at hst
      exact hkeep i (h.waiting.listening i hst)
  · by_cases hi : i = t.nextSocketId
    · -- nobody is blocked on it
      subst hi
      have hblock : ∀ k, ¬ Blocked (t.add s) sig ws k t.nextSocketId := fun k hb =>
        (hb.of_same hsame).queue_ne_nil h.waiting.queues (hempty k)
      cases k with
      | false => exact fun hb => (hblock false hb).elim
      | true => exact fun hb => (hblock true hb).elim
    · refine (h.served k i).of_same hsame ?_
      rw [add_objs_of_ne t hi]
      exact .of_eq k rfl rfl

theorem link {a b : Nat} (hab : a ≠ b) (ha : t.has a = true)
    (hb : t.has b = true) (hbs : (t.objs b).state ≠ .listening) (hu : t.Unattended a) :
    Attended (t.linkPeers a b) sig ws := by
  have h₁ : Attended (t.modify a ({ · with peerId := some b, state := .connected })) sig ws := by
    refine h.modifyLess a ⟨rfl, fun _ ho => ⟨by simp, ho.noEof, .inr ⟨b, rfl, hb⟩⟩,
      fun hq _ => absurd (h.not_queued hu) hq, fun hl => by cases hl⟩ fun k => .of_eq k rfl rfl
  refine h₁.modifyLess b ⟨rfl, fun _ ho => ⟨by simp, ho.noEof, .inr ⟨a, rfl, ha⟩⟩,
    fun hq hl => ?_, fun hl => by cases hl⟩ fun k => .of_eq k rfl rfl
  rw [modify_objs_of_ne t hab.symm] at hl
  exact absurd hl hbs

/-- The peer of a reader that waits is there. -/
theorem unlink {id p : Nat} (hp : (t.objs id).peerId = some p)
    (hgone : t.has p = false) : Attended (t.modify id ({ · with peerId := none })) sig ws := by
  refine h.modifyLess id ⟨rfl, fun _ ho => ⟨ho.readable, ho.noEof, .inl ?_⟩, fun _ hl => hl,
    fun hl => .inl hl⟩ fun k => .of_eq k rfl rfl
  refine ho.source.resolve_right ?_
  rintro ⟨q, hq, hlive⟩
  cases Option.some.inj (hp.symm.trans hq)
  rw [hgone] at hlive
  cases hlive

theorem register {id : Nat} (hu : t.Unattended id) (addr : SockAddr) :
    Attended (t.setAddr id addr) sig ws := by
  have h₁ : Attended (t.modify id ({ · with localAddr := some addr, state := .bound })) sig ws := by
    refine h.modifyLess id ⟨rfl, fun _ ho => ⟨by simp, ho.noEof, ho.source⟩,
      fun hq _ => absurd (h.not_queued hu) hq, fun hl => by cases hl⟩ fun k => .of_eq k rfl rfl
  refine h₁.of_objs (setAddr_objs t id addr) (setAddr_base t id addr).1 ?_
  unfold setAddr
  dsimp only
  split
  · rfl
  · rfl

theorem listen {id : Nat} (hlive : t.has id = true) :
    Attended (t.setState id .listening) sig ws :=
  h.modifyLess id ⟨rfl, fun _ ho => ⟨by simp, ho.noEof, ho.source⟩, fun _ _ => rfl,
    fun _ => .inr hlive⟩ fun k => .of_eq k rfl rfl

theorem rekey (id port : Nat) : Attended (t.rekey id port) sig ws := by
  have h₁ : Attended (t.modify id
      ({ · with localAddr := some (.inet (hostOf (t.objs id).localAddr) port) })) sig ws :=
    h.modifySame id rfl rfl
  exact h₁.of_objs (rekey_objs t id port) rfl rfl

theorem clearPeer (id : Nat) : Attended (t.clearPeer id) sig ws := by
  unfold SocketTable.clearPeer
  split
  · exact h
  · split
    · exact h.endRead _ (fun _ _ => rfl) (fun _ => rfl) (.inr fun _ => rfl) (fun _ hs => hs)
        fun k s => .of_eq k rfl rfl
    · exact h

/-- The socket leaves the table; nobody waits on it, nor for its data. -/
theorem erase {id : Nat} (hq : ∀ k, t.queueOf k id = [])
    (hs : (t.objs id).state ≠ .listening)
    (hp : ∀ x, t.has x = true → (t.objs x).peerId ≠ some id) :
    Attended { t with sockets := t.sockets.erase id } sig ws := by
  have hsame : SameQueues t { t with sockets := t.sockets.erase id } := ⟨rfl, fun _ _ => rfl⟩
  have hlive : ∀ x, x ≠ id → t.has x = true →
      has { t with sockets := t.sockets.erase id } x = true := by
    intro x hx hl
    rw [has_iff, List.mem_erase_of_ne hx]
    exact (has_iff t x).mp hl
  have hne : ∀ x k, t.queueOf k x ≠ [] → x ≠ id := by
    rintro x k hx rfl
    exact hx (hq k)
  refine ⟨h.waiting.of_same hsame (fun x hx ho => ?_) (fun x hx hl hst => ?_) fun x hst => ?_,
    fun k x => (h.served k x).of_same hsame (.of_eq k rfl rfl)⟩
  · refine ⟨hlive x (hne x false hx) ho.live, ho.readable, ho.noEof, ho.source.imp_right ?_⟩
    rintro ⟨p, hpeer, hl⟩
    refine ⟨p, hpeer, hlive p ?_ hl⟩
    rintro rfl
    exact hp x ho.live hpeer
  · exact ⟨hlive x (hne x true hx) hl, hst⟩
  · refine hlive x ?_ (h.waiting.listening x hst)
    rintro rfl
    exact hs hst

theorem finish (hm : Mutual t) (id : Nat) :
    Attended (t.finish id) sig ws := by
  let t₁ := t.modify id ({ · with backlog := [] })
  let t₄ := ((t₁.clearPeer id).closeHosts id).deregister id
  let shut : KernelSocket → KernelSocket :=
    fun s => { s with state := .closed, readBuffer := [], datagramQueue := [] }
  let t₅ := ((t₄.modify id shut).wakeReaders id).wakeAccepters id
  have hfin : t.finish id = { t₅ with sockets := t₅.sockets.erase id } := rfl
  have h₁ : Attended t₁ sig ws := by
    refine h.modifyLess id (.of_stream rfl rfl) fun k => ?_
    cases k with
    | false => exact fun hn => hn
    | true => exact Nat.zero_le _
  have h₃ : Attended ((t₁.clearPeer id).closeHosts id) sig ws := by
    have hc : Attended ((t₁.clearPeer id).modify id
        ({ · with hostSocket := none, hostListener := none, hostUdpSocket := none })) sig ws :=
      (h₁.clearPeer id).modifySame id rfl rfl
    exact hc.of_objs rfl rfl rfl
  have h₄ : Attended t₄ sig ws := by
    refine h₃.of_objs (deregister_objs _ id) (deregister_base _ id).1 ?_
    show ((deregister _ id).waits) = _
    unfold deregister
    split
    · rfl
    · rfl
  -- all calls of the socket are woken before its state changes
  let t₆ := (t₄.wakeReaders id).wakeAccepters id
  have hswap : t₅ = t₆.modify id shut := by
    have hr : (t₄.modify id shut).wakeReaders id = (t₄.wakeReaders id).modify id shut :=
      wakeReaders_modify fun _ _ => rfl
    show ((t₄.modify id shut).wakeReaders id).wakeAccepters id = _
    rw [hr]
    exact wakeAccepters_modify fun _ _ => rfl
  have h₆ : Attended t₆ sig ws := (h₄.wakeReaders id).wakes (wakes_wakeAccepters _ id)
  have hempty : ∀ k, t₆.queueOf k id = [] := by
    intro k
    cases k with
    | true => exact (wakes_wakeAccepters (t₄.wakeReaders id) id).queue
    | false =>
        rw [(wakes_wakeAccepters (t₄.wakeReaders id) id).other false id (by simp)]
        exact (wakes_wakeReaders t₄ id).queue
  have h₅ : Attended t₅ sig ws := by
    rw [hswap]
    refine h₆.modifyLess id ⟨rfl, fun hq => absurd (hempty false) hq,
      fun hq => absurd (hempty true) hq, fun hl => by cases hl⟩ fun k => ?_
    cases k with
    | false => exact fun _ => rfl
    | true => exact Nat.le_refl _
  rw [hfin]
  refine h₅.erase (fun k => ?_) ?_ fun x hx hp => ?_
  · rw [hswap, (SameQueues.modify t₆ id rfl).queue]
    exact hempty k
  · rw [hswap, modify_objs_self]
    simp [shut]
  · -- the link of the peer has been cleared
    have hlive : t.has x = true := by
      have hsock : t₅.sockets = t.sockets :=
        (deregister_base _ id).1.trans (clearPeer_base t₁ id).1
      rwa [has, hsock] at hx
    have hpeer := finish_peerId t id x
    rw [hfin] at hpeer
    have hold : (t.objs x).peerId = some id := by
      rw [hp] at hpeer
      split at hpeer
      · cases hpeer
      · exact hpeer.symm
    rw [hp, if_pos ⟨(hm x id hlive hold).2, hlive⟩] at hpeer
    cases hpeer

end

/-- **Every effect that is no wait of its own.** -/
theorem effect (hA : A.waits) (hL : A.links) (h : Attended t sig ws) (ht : Sound t) (hm : Mutual t)
    (he : Effect A t t') : Attended t' sig ws := by
  cases he with
  | change hc => exact h.change hA hc
  | add s hs _ => exact h.add ht hs
  | queue l c _ _ => exact h.queue l c
  | link a b hab hb hbs ha _ hw =>
      exact h.link (Nat.ne_of_lt hab) (Bool.and_eq_true_iff.mp (ha hL)).1
        (Bool.and_eq_true_iff.mp hb).1 hbs (hw hA)
  | unlink id p _ hp hgone => exact h.unlink hp hgone
  | register id addr _ _ _ _ hw => exact h.register (hw hA) addr
  | listen id _ hh => exact h.listen (hh (.inr hA))
  | rekey id port _ _ _ => exact h.rekey id port
  | finish id _ => exact h.finish hm id

theorem effects (hA : A.waits) (hL : A.links) (h : Attended t sig ws) (ht : Sound t)
    (hm : Mutual t) (he : Effects A t t') : Attended t' sig ws := by
  induction he with
  | refl => exact h
  | tail hr he ih => exact ih.effect hA hL (ht.effects hr) (hm.effects hL ht hr) he

end Attended

end SocketTable

end SecureExec.Socket
