import SecureExec.Socket.Stream
import SecureExec.Socket.Waiters

/-!
# Socket — Wakeup — no wakeup is lost

`WaitSys` is the table with its suspended calls and the signals that came to the processes whose
calls wait on a queue.  Such a call goes on when its handle is settled or when a signal came to its
process, whichever was first (`waitForSocketWake`): a call that a signal reached before it was woken
is restarted or ends with EINTR, even when its handle has been settled since.

A wake is for one call.  When that call ends and leaves something behind, with EINTR or because it
has read a part, nobody wakes the next one.  In runs in which no call does so while another is
blocked and none is woken (`allowed`), no blocked call has anything to get (`no_lost_wakeup`).
-/

namespace SecureExec.Socket
open SecureExec Kernel Awaiting SocketSys SocketTable Prog Attended Turn

namespace SocketTable

variable {A : Asked} {t t' : SocketTable} {ws : List Waiter} {sig : Nat → Bool} {k : Bool} {id : Nat}

/-! ### A call begins to wait -/

/-- A call waits with the next handle. -/
structure Enqueues (t t' : SocketTable) (k : Bool) (id : Nat) : Prop where
  next : t'.waits.next = t.waits.next + 1
  settled : ∀ h, t'.waits.settled h = if h = t.waits.next then false else t.waits.settled h
  queue : t'.queueOf k id = t.queueOf k id ++ [t.waits.next]
  other : ∀ k' id', (k', id') ≠ (k, id) → t'.queueOf k' id' = t.queueOf k' id'
  sockets : t'.sockets = t.sockets
  stream : ∀ i, stream (t'.objs i) = stream (t.objs i)

variable (t)

theorem enqueues_setQueue (k : Bool) (id : Nat) :
    Enqueues t { t.modify id (setQueue k (t.queueOf k id ++ [t.waits.next])) with
      waits := ⟨t.waits.next + 1, Function.update t.waits.settled t.waits.next false⟩ } k id where
  next := rfl
  settled := fun h => by
    by_cases hh : h = t.waits.next
    · subst hh
      simp
    · simp [hh]
  queue := (queueOf_setQueue t k id _ k id).trans (if_pos rfl)
  other := fun k' id' hne => (queueOf_setQueue t k id _ k' id').trans (if_neg hne)
  sockets := rfl
  stream := fun i => modify_field t id i stream (stream_setQueue k _ _)

theorem enqueues_enqueueReader (id : Nat) :
    Enqueues t (t.enqueueReader id) false id := enqueues_setQueue t false id

theorem enqueues_enqueueAccepter (id : Nat) :
    Enqueues t (t.enqueueAccepter id) true id := enqueues_setQueue t true id

variable {t}

/-- The handle is new. -/
theorem Queues.enqueue (h : Queues t ws) (he : Enqueues t t' k id) :
    Queues t' (ws ++ [⟨k, id, t.waits.next⟩]) := by
  have hfresh : ∀ w ∈ ws, w.handle ≠ t.waits.next := fun w hw => Nat.ne_of_lt (h.below w hw)
  have hqueue : ∀ k' i, t.waits.next ∉ t.queueOf k' i := fun k' i hmem =>
    hfresh _ ((h.queued k' i _).mp hmem).1 rfl
  refine ⟨?_, fun w hw => ?_, fun k' i x => ?_, fun k' i => ?_⟩
  · rw [List.map_append, List.nodup_append]
    refine ⟨h.distinct, List.nodup_singleton _, fun a ha b hb hab => ?_⟩
    obtain ⟨w, hw, rfl⟩ := List.mem_map.mp ha
    exact hfresh w hw (hab.trans (List.mem_singleton.mp hb))
  · rw [he.next]
    rcases List.mem_append.mp hw with hw | hw
    · exact Nat.lt_succ_of_lt (h.below w hw)
    · rw [List.mem_singleton.mp hw]
      exact Nat.lt_succ_self _
  · have hnew : x ∈ t'.queueOf k' i ↔
        x ∈ t.queueOf k' i ∨ ((k', i) = (k, id) ∧ x = t.waits.next) := by
      by_cases hsame : (k', i) = (k, id)
      · obtain ⟨rfl, rfl⟩ := Prod.mk.inj hsame
        simp [he.queue]
      · simp [he.other k' i hsame, hsame]
    rw [hnew, h.queued, he.settled]
    by_cases hx : x = t.waits.next
    · subst hx
      have hnot : (⟨k', i, t.waits.next⟩ : Waiter) ∉ ws := fun hmem => hfresh _ hmem rfl
      simp [hnot, Waiter.mk.injEq]
    · simp [hx, Waiter.mk.injEq]
  · by_cases hsame : (k', i) = (k, id)
    · obtain ⟨rfl, rfl⟩ := Prod.mk.inj hsame
      rw [he.queue, List.nodup_append]
      refine ⟨h.nodup k' i, List.nodup_singleton _, fun a ha b hb hab => ?_⟩
      rw [List.mem_singleton.mp hb] at hab
      exact hqueue k' i (hab ▸ ha)
    · rw [he.other k' i hsame]
      exact h.nodup k' i

/-- A call may wait: what it waits for can still come, and is not there. -/
structure MayWait (t : SocketTable) (k : Bool) (id : Nat) : Prop where
  reader : k = false → t.Open id ∧ (t.objs id).readBuffer = []
  accepter : k = true → t.has id = true ∧ (t.objs id).state = .listening ∧ (t.objs id).backlog = []

/-- Every queue but one is served. -/
def ServedBut (t : SocketTable) (sig : Nat → Bool) (ws : List Waiter) (k : Bool) (id : Nat) : Prop :=
  ∀ k' i, (k', i) ≠ (k, id) → ServedAt t sig ws k' i

theorem Attended.of_but (hw : Waiting t ws) (hs : ServedBut t sig ws k id)
    (h : ServedAt t sig ws k id) : Attended t sig ws := by
  refine ⟨hw, fun k' i => ?_⟩
  by_cases hsame : (k', i) = (k, id)
  · obtain ⟨rfl, rfl⟩ := Prod.mk.inj hsame
    exact h
  · exact hs k' i hsame

theorem Attended.but (h : Attended t sig ws) (k : Bool) (id : Nat) : ServedBut t sig ws k id :=
  fun k' i _ => h.served k' i

/-- One object changes, in what its other queue does not wait for. -/
theorem ServedBut.modify (h : ServedBut t sig ws k id) {g : KernelSocket → KernelSocket}
    (hq : ((g (t.objs id)).readWaiters, (g (t.objs id)).acceptWaiters) =
      ((t.objs id).readWaiters, (t.objs id).acceptWaiters))
    (hless : NoMore (!k) (t.objs id) (g (t.objs id))) : ServedBut (t.modify id g) sig ws k id := by
  intro k' i hne
  refine (h k' i hne).of_same (.modify t id hq) ?_
  by_cases hi : i = id
  · subst hi
    have hk : k' = !k := by
      cases k <;> cases k' <;> simp at hne ⊢
    rw [modify_objs_self, hk]
    exact hless
  · rw [modify_objs_of_ne t hi]
    exact .of_eq k' rfl rfl

theorem Waiting.enqueue (h : Waiting t ws) (he : Enqueues t t' k id) (hm : MayWait t k id) :
    Waiting t' (ws ++ [⟨k, id, t.waits.next⟩]) := by
  have hlive : ∀ x, t'.has x = t.has x := fun x => by rw [has, has, he.sockets]
  have hstate : ∀ i, (t'.objs i).state = (t.objs i).state := fun i => congrArg (·.1) (he.stream i)
  have hopen : ∀ i, t.Open i → t'.Open i := fun i ho =>
    open_of_stream (fun x hx => (hlive x).trans hx) (he.stream i) ho
  refine ⟨h.queues.enqueue he, fun i hq => hopen i ?_, fun i hq => ?_, fun i hs => ?_⟩
  · by_cases hsame : (false, i) = (k, id)
    · obtain ⟨rfl, rfl⟩ := Prod.mk.inj hsame
      exact (hm.reader rfl).1
    · exact h.readers i (he.other false i hsame ▸ hq)
  · rw [hlive, hstate]
    by_cases hsame : (true, i) = (k, id)
    · obtain ⟨rfl, rfl⟩ := Prod.mk.inj hsame
      exact ⟨(hm.accepter rfl).1, (hm.accepter rfl).2.1⟩
    · exact h.accepters i (he.other true i hsame ▸ hq)
  · rw [hlive]
    exact h.listening i ((hstate i).symm.trans hs)

theorem Enqueues.woken_le (h : Queues t ws) (he : Enqueues t t' k id) (k' : Bool) (i : Nat) :
    woken t ws k' i ≤ woken t' (ws ++ [⟨k, id, t.waits.next⟩]) k' i := by
  have hsub : woken t' ws k' i = woken t ws k' i := by
    refine List.countP_congr fun w hw => ?_
    rw [he.settled, if_neg (Nat.ne_of_lt (h.below w hw))]
  rw [← hsub, woken, woken, List.countP_append]
  exact Nat.le_add_right _ _

theorem Attended.enqueue (hw : Waiting t ws) (hs : ServedBut t sig ws k id)
    (he : Enqueues t t' k id) (hm : MayWait t k id) :
    Attended t' sig (ws ++ [⟨k, id, t.waits.next⟩]) := by
  have hstream : ∀ i, (t'.objs i).readBuffer = (t.objs i).readBuffer ∧
      (t'.objs i).backlog = (t.objs i).backlog := fun i => by
    have hi := he.stream i
    simp only [stream, Prod.mk.injEq] at hi
    exact ⟨hi.2.2.2.2.1, hi.2.2.2.2.2⟩
  have hblock : ∀ k' i, (k', i) ≠ (k, id) →
      Blocked t' sig (ws ++ [⟨k, id, t.waits.next⟩]) k' i → Blocked t sig ws k' i := by
    rintro k' i hne ⟨x, hx, hset, hsig⟩
    rcases List.mem_append.mp hx with hx | hx
    · refine ⟨x, hx, ?_, hsig⟩
      rw [he.settled, if_neg (Nat.ne_of_lt (hw.queues.below _ hx))] at hset
      exact hset
    · cases List.mem_singleton.mp hx
      exact absurd rfl hne
  refine @of_but _ _ _ k id (hw.enqueue he hm) (fun k' i hne => ?_) ?_
  · cases k' with
    | false =>
        intro hb
        rw [(hstream i).1]
        exact (hs false i hne (hblock false i hne hb)).imp_right fun hlt =>
          Nat.lt_of_lt_of_le hlt (he.woken_le hw.queues false i)
    | true =>
        intro hb
        rw [(hstream i).2]
        exact (hs true i hne (hblock true i hne hb)).trans (he.woken_le hw.queues true i)
  · cases k with
    | false => exact fun _ => .inl ((hstream id).1.trans (hm.reader rfl).2)
    | true =>
        intro _
        rw [(hstream id).2, (hm.accepter rfl).2.2]
        exact Nat.zero_le _

/-! ### A wait has ended -/

/-- The call leaves its queue. -/
def drop (t : SocketTable) (w : Waiter) : SocketTable :=
  t.modify w.socketId
    (setQueue w.accepts (WaitQueue.remove (t.queueOf w.accepts w.socketId) w.handle))

theorem stream_drop (t : SocketTable) (w : Waiter) (i : Nat) :
    stream ((t.drop w).objs i) = stream (t.objs i) :=
  modify_field t w.socketId i stream (stream_setQueue _ _ _)

variable {w : Waiter}

theorem Queues.drop (h : Queues t (w :: ws)) : Queues (t.drop w) ws := by
  have hdistinct := List.nodup_cons.mp h.distinct
  have hother : ∀ x ∈ ws, x.handle ≠ w.handle := fun x hx heq =>
    hdistinct.1 (List.mem_map.mpr ⟨x, hx, heq⟩)
  have hqueue := queueOf_setQueue t w.accepts w.socketId
    (WaitQueue.remove (t.queueOf w.accepts w.socketId) w.handle)
  refine ⟨hdistinct.2, fun x hx => h.below x (List.mem_cons_of_mem _ hx), fun k' i x => ?_,
    fun k' i => ?_⟩
  · have hset : (t.drop w).waits.settled x = t.waits.settled x := rfl
    have hq := h.queued k' i x
    rw [hset, SocketTable.drop, hqueue]
    split
    · rename_i hsame
      obtain ⟨rfl, rfl⟩ := Prod.mk.inj hsame
      rw [WaitQueue.remove, (h.nodup _ _).mem_erase_iff, hq, List.mem_cons]
      constructor
      · rintro ⟨hne, hmem | hmem, hs⟩
        · exact absurd (congrArg Waiter.handle hmem) hne
        · exact ⟨hmem, hs⟩
      · rintro ⟨hmem, hs⟩
        exact ⟨hother _ hmem, .inr hmem, hs⟩
    · rename_i hsame
      rw [hq, List.mem_cons]
      refine and_congr_left fun _ => ⟨fun hmem => hmem.resolve_left ?_, .inr⟩
      rintro rfl
      exact hsame rfl
  · rw [SocketTable.drop, hqueue]
    split
    · exact (h.nodup _ _).erase _
    · exact h.nodup k' i

theorem Waiting.drop (h : Waiting t (w :: ws)) : Waiting (t.drop w) ws := by
  have hqueue : ∀ k' i, (t.drop w).queueOf k' i ≠ [] → t.queueOf k' i ≠ [] := by
    intro k' i hne
    rw [SocketTable.drop, queueOf_setQueue] at hne
    split at hne
    · rename_i hsame
      obtain ⟨rfl, rfl⟩ := Prod.mk.inj hsame
      rintro hnil
      exact hne (by rw [hnil]; rfl)
    · exact hne
  have hstate : ∀ i, ((t.drop w).objs i).state = (t.objs i).state := fun i =>
    congrArg (·.1) (stream_drop t w i)
  have hlive : ∀ x, t.has x = true → (t.drop w).has x = true := fun _ hx => hx
  refine ⟨h.queues.drop, fun i hq => ?_, fun i hq => ?_, fun i hs => ?_⟩
  · exact open_of_stream hlive (stream_drop t w i) (h.readers i (hqueue false i hq))
  · rw [hstate]
    exact h.accepters i (hqueue true i hq)
  · rw [hstate] at hs
    exact h.listening i hs

theorem Blocked.cons (w : Waiter) (h : Blocked t sig ws k id) : Blocked t sig (w :: ws) k id := by
  obtain ⟨x, hx, hs, hsig⟩ := h
  exact ⟨x, List.mem_cons_of_mem _ hx, hs, hsig⟩

theorem servedAt_drop (t : SocketTable) (w : Waiter) :
    ServedAt (t.drop w) sig ws k id ↔ ServedAt t sig ws k id := by
  have hstream := stream_drop t w id
  simp only [stream, Prod.mk.injEq] at hstream
  cases k with
  | false =>
      rw [ServedAt, hstream.2.2.2.2.1]
      rfl
  | true =>
      rw [ServedAt, hstream.2.2.2.2.2]
      rfl

/-- A call goes that was not one of those woken. -/
theorem ServedAt.tail (h : ServedAt t sig (w :: ws) k id)
    (hw : ¬ (w.accepts == k && w.socketId == id && t.waits.settled w.handle) = true) :
    ServedAt t sig ws k id := by
  have hwoken : woken t (w :: ws) k id = woken t ws k id := List.countP_cons_of_neg hw
  cases k with
  | false | true => exact fun hb => hwoken ▸ h (hb.cons w)

/-- The other queues are served as before. -/
theorem ServedBut.drop (h : Attended t sig (w :: ws)) :
    ServedBut (t.drop w) sig ws w.accepts w.socketId := by
  refine fun k' i hne => (servedAt_drop t w).mpr ((h.served k' i).tail fun hc => ?_)
  simp only [Bool.and_eq_true, beq_iff_eq] at hc
  exact hne (Prod.ext hc.1.1.symm hc.1.2.symm)

/-- A call that was not woken leaves its queue served. -/
theorem ServedAt.drop (h : Attended t sig (w :: ws)) (hs : t.waits.settled w.handle = false) :
    ServedAt (t.drop w) sig ws w.accepts w.socketId :=
  (servedAt_drop t w).mpr ((h.served _ _).tail (by simp [hs]))

/-! ### The turns of the calls that wait -/

/-- A turn leaves the waiting calls attended, with those it leaves waiting itself. -/
def Attends {α : Type} (t : SocketTable) (sig : Nat → Bool) (ws : List Waiter) (p : Sock α)
    (pending : α → List Awaiting) : Prop :=
  p.wp t (fun a t' => Attended t' sig (ws ++ (pending a).filterMap waiter))
    fun _ t' => Attended t' sig ws

theorem Attends.pure {α : Type} {a : α} {pending : α → List Awaiting} (h : Attended t sig ws)
    (hp : pending a = []) : Attends t sig ws (Pure.pure a : Sock α) pending := by
  show Attended t sig (ws ++ (pending a).filterMap waiter)
  rw [hp]
  simpa using h

/-- `acceptBlocking` takes a connection, or begins to wait. -/
theorem acceptBlocking_attends (hw : Waiting t ws) (hs : ServedBut t sig ws true id)
    (hlive : t.has id = true) (hstate : (t.objs id).state = .listening)
    (hroom : Blocked t sig ws true id → (t.objs id).backlog.length ≤ woken t ws true id + 1) :
    Attends t sig ws (acceptBlocking id) pending := by
  unfold Attends acceptBlocking shiftBacklog
  refine wp_bind.mpr (wp_bind.mpr ?_)
  rw [wp_read]
  cases hb : (t.objs id).backlog with
  | cons c rest =>
      let t₁ := t.modify id ({ · with backlog := rest })
      have hsame : SameQueues t t₁ := .modify t id rfl
      have hw₁ : Waiting t₁ ws := hw.modify id (.of_stream rfl rfl)
      have hs₁ : ServedBut t₁ sig ws true id := hs.modify rfl fun hn => hn
      have hown : ServedAt t₁ sig ws true id := by
        intro hblock
        rw [modify_objs_self, woken_of_same hsame]
        have hlen := hroom (hblock.of_same hsame)
        rw [hb] at hlen
        exact Nat.le_of_succ_le_succ hlen
      exact Attends.pure (.of_but hw₁ hs₁ hown) rfl
  | nil =>
      have hm : MayWait t true id :=
        ⟨fun hk => Bool.noConfusion hk, fun _ => ⟨hlive, hstate, hb⟩⟩
      exact enqueue hw hs (enqueues_enqueueAccepter t id) hm

/-- The socket is in a state in which `recv` returns data. -/
def receiving (t : SocketTable) (id : Nat) : Bool :=
  (t.objs id).state == .connected || (t.objs id).state == .writeClosed

/-- What `recv` leaves in the buffer. -/
def leftBy (t : SocketTable) (id maxBytes : Nat) (flags : Flags) : List ByteArray8 :=
  if flags.has MSG_PEEK || !t.receiving id then (t.objs id).readBuffer
  else (consumeChunks maxBytes 0 (t.objs id).readBuffer).2

/-- The reader's end is closed. -/
def readEnded (t : SocketTable) (id : Nat) : Prop :=
  (t.objs id).state = .readClosed ∨ (t.objs id).state = .closed

variable {flags : Flags}

/-- What `recvNow` does, by cases. -/
theorem wp_recvNow {maxBytes : Nat} {Q : Option ByteArray8 → SocketTable → Prop}
    {E : Failure → SocketTable → Prop}
    (hthrow : t.has id = false ∨ t.receiving id = false ∨ (t.objs id).readBuffer = [] → ∀ e, E e t)
    (hnone : t.has id = true → t.readEnded id ∨ (t.objs id).readBuffer = [] → Q none t)
    (hpeek : t.receiving id = true → flags.has MSG_PEEK = true → ∀ data, Q (some data) t)
    (htake : t.receiving id = true → flags.has MSG_PEEK = false → ∀ data, Q (some data)
      (t.modify id
        ({ · with readBuffer := (consumeChunks maxBytes 0 (t.objs id).readBuffer).2 }))) :
    (recvNow id maxBytes flags).wp t Q E := by
  unfold recvNow
  refine wp_bind.mpr ?_
  by_cases hlive : t.has id = true
  · rw [wp, requireSocket_exec, if_pos hlive]
    dsimp only
    split
    · rename_i hclosed
      exact hnone hlive (.inl hclosed)
    · split
      · rename_i hstate
        exact hthrow (.inr (.inl (by simp [receiving, hstate.1, hstate.2]))) _
      · rename_i hstate
        have hrec : t.receiving id = true := by
          simp only [receiving, Bool.or_eq_true, beq_iff_eq]
          exact (not_and_or.mp hstate).imp not_not.mp not_not.mp
        split
        · split
          · rename_i hp
            exact hpeek hrec hp _
          · rename_i hp
            exact htake hrec (Bool.eq_false_iff.mpr hp) _
        · rename_i hbuf
          have hnil := not_not.mp hbuf
          refine wp_bind.mpr ?_
          rw [wp_read]
          split
          · exact hnone hlive (.inr hnil)
          · split
            · exact hthrow (.inr (.inr hnil)) _
            · split
              · exact hthrow (.inr (.inr hnil)) _
              · exact hnone hlive (.inr hnil)
  · exact wp_requireSocket (fun h => absurd h hlive)
      fun e => hthrow (.inl (Bool.eq_false_iff.mpr hlive)) e

/-- Nobody is blocked on a socket whose stream has ended. -/
theorem Waiting.not_blocked (h : Waiting t ws) (ho : ¬ t.Open id) : ¬ Blocked t sig ws false id :=
  fun hb => ho (h.readers id (hb.queue_ne_nil h.queues))

theorem open_of_canBlock (hlive : t.has id = true) (h : t.canBlockForRecv id = true) :
    t.Open id ∧ (t.objs id).readBuffer = [] := by
  unfold canBlockForRecv at h
  dsimp only at h
  split at h
  · cases h
  · rename_i hstate
    split at h
    · cases h
    · rename_i hbuf
      refine ⟨?_, not_not.mp hbuf⟩
      split at h
      · rename_i hext
        exact ⟨hlive, not_or.mp hstate, by simpa using h, .inl hext⟩
      · split at h
        · cases h
        · rename_i p hp
          obtain ⟨hpeer, heof⟩ := Bool.and_eq_true_iff.mp h
          exact ⟨hlive, not_or.mp hstate, by simpa using heof, .inr ⟨p, hp, hpeer⟩⟩

/-- `recvBlocking` takes data, begins to wait, or ends; what it leaves is for the others. -/
theorem recvBlocking_attends (hw : Waiting t ws) (hs : ServedBut t sig ws false id) {maxBytes : Nat}
    (hleft : Blocked t sig ws false id →
      t.leftBy id maxBytes flags = [] ∨ 0 < woken t ws false id) :
    Attends t sig ws (recvBlocking id maxBytes flags) pending := by
  have hkeep : t.receiving id = false ∨ flags.has MSG_PEEK = true →
      ServedAt t sig ws false id := by
    intro hk hb
    have hl : t.leftBy id maxBytes flags = (t.objs id).readBuffer := by
      rcases hk with hk | hk
      · simp [leftBy, hk]
      · simp [leftBy, hk]
    exact hl ▸ hleft hb
  unfold Attends recvBlocking
  refine wp_bind.mpr (wp_recvNow (fun hc e => .of_but hw hs ?_) (fun hlive hc => ?_)
    (fun hrec hp data => ?_) fun hrec hp data => ?_)
  · -- the call ends with an error
    rcases hc with hc | hc | hc
    · exact fun hb => (hw.not_blocked (fun ho => by simp [ho.live] at hc) hb).elim
    · exact hkeep (.inl hc)
    · exact fun _ => .inl hc
  · -- nothing to return
    refine wp_bind.mpr ?_
    rw [wp_read]
    have hserved : ServedAt t sig ws false id := by
      rcases hc with hc | hc
      · refine fun hb => (hw.not_blocked (fun ho => ?_) hb).elim
        exact hc.elim ho.readable.1 ho.readable.2
      · exact fun _ => .inl hc
    simp only [id_eq]
    split
    · rename_i hcan
      have hm : MayWait t false id :=
        ⟨fun _ => open_of_canBlock hlive hcan, fun hk => Bool.noConfusion hk⟩
      exact enqueue hw hs (enqueues_enqueueReader t id) hm
    · exact Attends.pure (.of_but hw hs hserved) rfl
  · exact Attends.pure (.of_but hw hs (hkeep (.inr hp))) rfl
  · let t₁ := t.modify id
      ({ · with readBuffer := (consumeChunks maxBytes 0 (t.objs id).readBuffer).2 })
    have hsame : SameQueues t t₁ := .modify t id rfl
    have hown : ServedAt t₁ sig ws false id := by
      intro hb
      rw [modify_objs_self, woken_of_same hsame]
      have hl : t.leftBy id maxBytes flags = (consumeChunks maxBytes 0 (t.objs id).readBuffer).2 := by
        simp [leftBy, hp, hrec]
      exact hl ▸ hleft (hb.of_same hsame)
    exact Attends.pure (.of_but (hw.modify id (.of_stream rfl rfl))
      (hs.modify rfl (Nat.le_refl _)) hown) rfl

theorem leftBy_nil {maxBytes : Nat} (h : (t.objs id).readBuffer = []) :
    t.leftBy id maxBytes flags = [] := by
  unfold leftBy
  rw [h]
  split
  · rfl
  · rfl

/-! ### Calls and their wakes -/

theorem accept_attends (h : Attended t sig ws) :
    Attends t sig ws (accept id true) pending := by
  unfold Attends accept
  refine wp_bind.mpr (wp_requireSocket (fun hlive => ?_) fun _ => h)
  split
  · exact h
  · rename_i hstate
    split
    · exact h
    · exact acceptBlocking_attends h.waiting (h.but true id) hlive (not_not.mp hstate)
        fun hb => Nat.le_succ_of_le (h.served true id hb)

theorem recv_attends (h : Attended t sig ws) {maxBytes : Nat} :
    Attends t sig ws (recv id maxBytes flags true) pending := by
  have hrest : ∀ (t₁ : SocketTable) (result : Option ByteArray8), Attended t₁ sig ws →
      Attends t₁ sig ws (if true && t.mayBlock id then recvBlocking id maxBytes flags
        else pure (.done result)) pending := by
    intro t₁ result h₁
    split
    · exact recvBlocking_attends h₁.waiting (h₁.but false id) fun hb =>
        (h₁.served false id hb).imp_left leftBy_nil
    · exact Attends.pure h₁ rfl
  unfold Attends recv
  refine wp_bind.mpr ?_
  rw [wp_read]
  refine wp_bind.mpr (wp_recvNow (fun _ _ => h) (fun _ _ => hrest t none h)
    (fun _ _ data => hrest t (some data) h) fun _ _ data => hrest _ (some data) ?_)
  refine h.modifyLess id (.of_stream rfl rfl) fun k => ?_
  cases k with
  | false =>
      intro hn
      rw [hn]
      rfl
  | true => exact Nat.le_refl _

theorem woken_cons_le (t : SocketTable) (w : Waiter) (ws : List Waiter) (k : Bool) (id : Nat) :
    woken t (w :: ws) k id ≤ woken t ws k id + 1 := by
  rw [woken, List.countP_cons]
  split
  · exact Nat.le_refl _
  · exact Nat.le_succ _

variable {handle : Nat}

theorem acceptWoken_attends (h : Attended t sig (⟨true, id, handle⟩ :: ws)) :
    Attends t sig ws (acceptWoken id handle) pending := by
  have hstream := stream_drop t ⟨true, id, handle⟩ id
  simp only [stream, Prod.mk.injEq] at hstream
  have hw := h.waiting.drop
  have hs : ServedBut (t.drop ⟨true, id, handle⟩) sig ws true id := .drop h
  unfold Attends acceptWoken
  refine wp_bind.mpr (wp_bind.mpr ?_)
  rw [wp_read]
  split
  · -- the socket does not listen any more, and nobody waits on it
    rename_i hstate
    refine of_but hw hs fun hb => (hstate ?_).elim
    exact hstream.1.trans (h.waiting.accepters id ((Blocked.cons (t := t) _ hb).queue_ne_nil h.waiting.queues)).2
  · rename_i hstate
    refine acceptBlocking_attends hw hs (hw.listening id (not_not.mp hstate)) (not_not.mp hstate)
      fun hb => ?_
    have hlen := (h.served true id (Blocked.cons _ hb)).trans (woken_cons_le t _ ws true id)
    rw [← hstream.2.2.2.2.2] at hlen
    exact hlen

/-- A call that was woken and ends leaves enough calls that were woken. -/
theorem ServedAt.ended (h : Attended t sig (⟨k, id, handle⟩ :: ws))
    (hpass : t.waits.settled handle = true → ServedAt t sig ws k id) :
    ServedAt (t.drop ⟨k, id, handle⟩) sig ws k id := by
  cases hset : t.waits.settled handle with
  | false => exact ServedAt.drop h hset
  | true => exact (servedAt_drop t _).mpr (hpass hset)

theorem acceptInterrupted_attends {signal : Option Nat}
    (h : Attended t sig (⟨true, id, handle⟩ :: ws))
    (hpass : t.waits.settled handle = true → ServedAt t sig ws true id) :
    Attends t sig ws (acceptInterrupted id handle signal) pending :=
  wp_bind.mpr (of_but h.waiting.drop (.drop h) (.ended h hpass))

theorem leftBy_drop (t : SocketTable) (w : Waiter) (id maxBytes : Nat) (flags : Flags) :
    (t.drop w).leftBy id maxBytes flags = t.leftBy id maxBytes flags := by
  have hstream := stream_drop t w id
  simp only [stream, Prod.mk.injEq] at hstream
  obtain ⟨hstate, -, -, -, hdata, -⟩ := hstream
  have hrec : (t.drop w).receiving id = t.receiving id := by rw [receiving, receiving, hstate]
  rw [leftBy, leftBy, hrec, hdata]

theorem recvWoken_attends {maxBytes handle : Nat} (h : Attended t sig (⟨false, id, handle⟩ :: ws))
    (hpass : t.waits.settled handle = true → Blocked t sig ws false id →
      t.leftBy id maxBytes flags = [] ∨ 0 < woken t ws false id) :
    Attends t sig ws (recvWoken id maxBytes flags handle) pending := by
  refine wp_bind.mpr (recvBlocking_attends h.waiting.drop (.drop h) fun hb => ?_)
  cases hset : t.waits.settled handle with
  | false => exact (ServedAt.drop h hset hb).imp_left leftBy_nil
  | true =>
      rw [leftBy_drop]
      exact hpass hset hb

theorem recvInterrupted_attends {signal : Option Nat}
    (h : Attended t sig (⟨false, id, handle⟩ :: ws))
    (hpass : t.waits.settled handle = true → ServedAt t sig ws false id) :
    Attends t sig ws (recvInterrupted id handle signal) pending :=
  wp_bind.mpr (of_but h.waiting.drop (.drop h) (.ended h hpass))

end SocketTable

/-! ### The table and the signals -/

structure WaitSys where
  sys : SocketSys
  /-- The process of a waiting call, by its handle. -/
  owner : Nat → Nat
  /-- A signal came to the process of the call before the call was woken. -/
  signalled : Nat → Bool
  /-- The last signal of a process: SA_RESTART, and its number. -/
  last : Nat → Bool × Option Nat

inductive WaitAction where
  | call (pid : Nat) (c : SocketCall)
  | resume (i : Nat) (ans : Answer)
  | deliver (pid : Nat) (restart : Bool) (number : Option Nat)

namespace WaitSys

open SocketTable

def new (maxSockets : Nat) (vfs hostAdapter : Bool) : WaitSys where
  sys := .new maxSockets vfs hostAdapter
  owner := fun _ => 0
  signalled := fun _ => false
  last := fun _ => (false, none)

/-- The calls that wait on a queue. -/
def waiters (w : WaitSys) : List Waiter := w.sys.calls.filterMap waiter

/-- What a suspended call goes on with: a wait with the signal if that came first, or once it is
woken. -/
def answerOf (w : WaitSys) (c : Awaiting) (ans : Answer) : Option Answer :=
  match c.waiter with
  | none => some ans
  | some x =>
    if w.signalled x.handle then
      some (.signal (w.last (w.owner x.handle)).1 (w.last (w.owner x.handle)).2)
    else if w.sys.table.waits.settled x.handle then some .woken
    else none

/-- A step of the table; a call that begins to wait is one of the process. -/
def stepSys (w : WaitSys) (pid : Nat) (act : SocketAction) : Option WaitSys :=
  (w.sys.step act).map fun s =>
    { w with sys := s, owner := Function.update w.owner w.sys.table.waits.next pid }

def step (w : WaitSys) : WaitAction → Option WaitSys
  | .call pid c => w.stepSys pid (.call c)
  | .resume i ans =>
    match w.sys.calls[i]? with
    | none => none
    | some c =>
      match w.answerOf c ans with
      | none => none
      | some a => w.stepSys (w.owner ((c.waiter.map (·.handle)).getD 0)) (.resume i a)
  | .deliver pid restart number =>
    some { w with
      last := Function.update w.last pid (restart, number)
      signalled := fun h => w.signalled h ||
        w.waiters.any (·.handle == h) && w.owner h == pid && !w.sys.table.waits.settled h }

/-- Nobody else is blocked on the queue. -/
def noneBlocked (w : WaitSys) (others : List Waiter) (k : Bool) (id : Nat) : Bool :=
  others.all fun x => !(x.accepts == k && x.socketId == id) ||
    w.sys.table.waits.settled x.handle || w.signalled x.handle

/-- A call that was woken and ends leaves nothing behind, or others that were woken, or nobody who
is blocked. -/
def passesOn (w : WaitSys) (others : List Waiter) : Awaiting → Answer → Bool
  | .accept id handle, .signal false _ =>
    !w.sys.table.waits.settled handle || w.noneBlocked others true id ||
      decide ((w.sys.table.objs id).backlog.length ≤ woken w.sys.table others true id)
  | .recv id _ _ handle, .signal false _ =>
    !w.sys.table.waits.settled handle || w.noneBlocked others false id ||
      (w.sys.table.objs id).readBuffer.isEmpty || decide (0 < woken w.sys.table others false id)
  | .recv id maxBytes flags handle, _ =>
    !w.sys.table.waits.settled handle || w.noneBlocked others false id ||
      (w.sys.table.leftBy id maxBytes flags).isEmpty ||
      decide (0 < woken w.sys.table others false id)
  | _, _ => true

/-- The check of a step: links are made between free sockets, nobody loses the listener he waits
on, and wakes are passed on. -/
def allowed (w : WaitSys) : WaitAction → Bool
  | .call _ c => w.sys.linksAllowed (.call c)
  | .resume i ans =>
    match w.sys.calls[i]? with
    | none => true
    | some c =>
      match w.answerOf c ans with
      | none => true
      | some a =>
        w.sys.linksAllowed (.resume i a) && c.stateAllowed w.sys.table a &&
          w.passesOn ((w.sys.calls.eraseIdx i).filterMap waiter) c a
  | .deliver _ _ _ => true

/-- No call that waits has something to go on with. -/
def Quiescent (w : WaitSys) : Prop :=
  ∀ x ∈ w.waiters, w.sys.table.waits.settled x.handle = false ∧ w.signalled x.handle = false

/-! ### Runs -/

/-- Links are checked, and the waits have turns of their own. -/
def waitsAsked : Asked := ⟨True, False, False, False, True, fun _ => True⟩

/-- What a run keeps. -/
structure Kept (w : WaitSys) : Prop where
  ok : w.sys.Ok
  peers : Mutual w.sys.table
  attended : Attended w.sys.table w.signalled w.waiters

variable {w w' : WaitSys}

theorem Kept.new (maxSockets : Nat) (vfs hostAdapter : Bool) :
    Kept (WaitSys.new maxSockets vfs hostAdapter) :=
  ⟨.new maxSockets vfs hostAdapter, .new maxSockets vfs hostAdapter,
    .new maxSockets vfs hostAdapter _⟩

variable {s : SocketSys}

/-- The turn of a call that waits. -/
theorem attended_run {α : Type} {sig : Nat → Bool} {calls : List Awaiting}
    {p : Sock α} {pending : α → List Awaiting}
    (h : Attends s.table sig (calls.filterMap waiter) p pending) :
    Attended (s.run calls (pending <$> p)).table sig
      ((s.run calls (pending <$> p)).calls.filterMap waiter) := by
  have hwp := wp_map (g := pending) (Q := fun l t' => Attended t' sig
    (calls.filterMap waiter ++ l.filterMap waiter)).mpr h
  rw [wp] at hwp
  rcases hr : (pending <$> p).exec s.table with ⟨e | l, t'⟩
  · rw [hr] at hwp
    simpa [run, hr] using hwp
  · rw [hr] at hwp
    simpa [run, hr, List.filterMap_append] using hwp

variable {act : SocketAction}

/-- A step of no call that waits. -/
theorem Kept.quiet (h : Kept w) {s' : SocketSys}
    (hA : Meets waitsAsked w.sys act) (hs : w.sys.step act = some s')
    (hout : (w.sys.others act).filterMap waiter = w.waiters) :
    Attended s'.table w.signalled (s'.calls.filterMap waiter) := by
  obtain ⟨p, hp, rfl⟩ := step_turns h.ok hA hs
  obtain ⟨pending, hcalls, hfits⟩ := run_pending (w.sys.others act) hp
  have heff : Effects waitsAsked w.sys.table (w.sys.run (w.sys.others act) p).table :=
    (step_effects h.ok hA hs).1
  have hnone : pending.filterMap waiter = [] :=
    List.filterMap_eq_nil_iff.mpr fun c hc =>
      waiter_eq_none ((hfits c hc).noWait trivial)
  rw [hcalls, List.filterMap_append, hnone, List.append_nil, hout]
  exact h.attended.effects trivial trivial h.ok.sound h.peers heff

theorem noneBlocked_spec {others : List Waiter} {k : Bool} {id : Nat}
    (h : w.noneBlocked others k id = true) : ¬ Blocked w.sys.table w.signalled others k id := by
  rintro ⟨x, hx, hset, hsig⟩
  have hc := List.all_eq_true.mp h _ hx
  simp [hset, hsig] at hc

/-- The turn of a call on a queue that goes on. -/
theorem Kept.goesOn (h : Kept w) {i : Nat} {c : Awaiting} {x : Waiter} {a : Answer}
    {p : Sock (List Awaiting)} (hc : w.sys.calls[i]? = some c) (hx : c.waiter = some x)
    (hp : c.resumed a = some p)
    (hpass : w.passesOn ((w.sys.calls.eraseIdx i).filterMap waiter) c a = true) :
    Attended (w.sys.run (w.sys.calls.eraseIdx i) p).table w.signalled
      ((w.sys.run (w.sys.calls.eraseIdx i) p).calls.filterMap waiter) := by
  obtain ⟨hi, hget⟩ := List.getElem?_eq_some_iff.mp hc
  have hperm : w.waiters.Perm (x :: (w.sys.calls.eraseIdx i).filterMap waiter) := by
    have hcalls := (List.getElem_cons_eraseIdx_perm hi).symm.filterMap waiter
    rwa [hget, List.filterMap_cons_some hx] at hcalls
  have hatt := h.attended.perm hperm
  cases c with
  | accept id handle =>
      cases hx
      cases a with
      | woken =>
          cases hp
          exact attended_run (acceptWoken_attends hatt)
      | signal restart number =>
          cases restart with
          | true =>
              cases hp
              exact attended_run (acceptWoken_attends hatt)
          | false =>
              cases hp
              refine attended_run (acceptInterrupted_attends hatt fun hset hb => ?_)
              have hnot := mt noneBlocked_spec (not_not.mpr hb)
              simpa [passesOn, hset, hnot] using hpass
      | _ => cases hp
  | recv id maxBytes flags handle =>
      cases hx
      have hleft : (∀ number, a ≠ .signal false number) →
          w.sys.table.waits.settled handle = true →
          Blocked w.sys.table w.signalled ((w.sys.calls.eraseIdx i).filterMap waiter)
            false id →
          w.sys.table.leftBy id maxBytes flags = [] ∨
            0 < woken w.sys.table ((w.sys.calls.eraseIdx i).filterMap waiter) false id := by
        intro ha hset hb
        have hnot := mt noneBlocked_spec (not_not.mpr hb)
        cases a with
        | signal restart number =>
            cases restart with
            | true => simpa [passesOn, hset, hnot] using hpass
            | false => exact absurd rfl (ha number)
        | _ => simpa [passesOn, hset, hnot] using hpass
      cases a with
      | woken =>
          cases hp
          exact attended_run (recvWoken_attends hatt (hleft fun _ hn => by cases hn))
      | signal restart number =>
          cases restart with
          | true =>
              cases hp
              exact attended_run (recvWoken_attends hatt (hleft fun _ hn => by cases hn))
          | false =>
              cases hp
              refine attended_run (recvInterrupted_attends hatt fun hset hb => ?_)
              have hnot := mt noneBlocked_spec (not_not.mpr hb)
              simpa [passesOn, hset, hnot] using hpass
      | _ => cases hp
  | _ => cases hx

theorem meets_links (h : s.linksAllowed act = true) :
    Meets linksAsked s act :=
  ⟨fun _ => h, False.elim, False.elim, False.elim, False.elim, fun _ _ => trivial⟩

theorem meets_waits (h : s.linksAllowed act = true)
    (hw : s.waitsAllowed act = true) : Meets waitsAsked s act :=
  ⟨fun _ => h, False.elim, False.elim, False.elim, fun _ => hw, fun _ _ => trivial⟩

section

variable (h : Kept w)
include h

/-- A step of the table with the calls that wait. -/
theorem Kept.stepSys {pid : Nat}
    (hl : w.sys.linksAllowed act = true) (hs : w.stepSys pid act = some w')
    (hatt : ∀ s', w.sys.step act = some s' →
      Attended s'.table w.signalled (s'.calls.filterMap waiter)) : Kept w' := by
  obtain ⟨s', hs', rfl⟩ := Option.map_eq_some_iff.mp hs
  obtain ⟨heff, hok⟩ := step_effects h.ok (meets_links hl) hs'
  exact ⟨hok, h.peers.effects trivial h.ok.sound heff, hatt s' hs'⟩

theorem Kept.call {c : SocketCall} {s' : SocketSys}
    (hl : w.sys.linksAllowed (.call c) = true) (hs : w.sys.step (.call c) = some s') :
    Attended s'.table w.signalled (s'.calls.filterMap waiter) := by
  cases hc : c.mayWait with
  | false =>
      refine h.quiet (meets_waits hl ?_) hs rfl
      rw [waitsAllowed, hc]
      rfl
  | true =>
      cases hs
      cases c with
      | accept id block =>
          cases hc
          exact attended_run (accept_attends h.attended)
      | recv id maxBytes flags block =>
          cases hc
          exact attended_run (recv_attends h.attended)
      | _ => cases hc

theorem Kept.resume {i : Nat} {ans a : Answer} {c : Awaiting} {s' : SocketSys}
    (hc : w.sys.calls[i]? = some c) (ha : w.answerOf c ans = some a)
    (hl : w.sys.linksAllowed (.resume i a) = true) (hstate : c.stateAllowed w.sys.table a = true)
    (hpass : w.passesOn ((w.sys.calls.eraseIdx i).filterMap waiter) c a = true)
    (hs : w.sys.step (.resume i a) = some s') :
    Attended s'.table w.signalled (s'.calls.filterMap waiter) := by
  cases hx : c.waiter with
  | none =>
      have hwait : c.isWait = false := by
        cases c with
        | accept id handle => cases hx
        | recv id maxBytes flags handle => cases hx
        | _ => rfl
      refine h.quiet (meets_waits hl ?_) hs ?_
      · simp [SocketSys.waitsAllowed, hc, hwait, hstate]
      · obtain ⟨hi, hget⟩ := List.getElem?_eq_some_iff.mp hc
        have hsplit : w.sys.calls = w.sys.calls.take i ++ c :: w.sys.calls.drop (i + 1) := by
          rw [← hget, List.getElem_cons_drop, List.take_append_drop]
        rw [waiters, SocketSys.others, List.eraseIdx_eq_take_drop_succ]
        conv_rhs => rw [hsplit]
        rw [List.filterMap_append, List.filterMap_append, List.filterMap_cons_none hx]
  | some x =>
      rw [SocketSys.step, hc] at hs
      dsimp only at hs
      split at hs
      · obtain ⟨p, hp, rfl⟩ := Option.map_eq_some_iff.mp hs
        exact h.goesOn hc hx hp hpass
      · cases hs

/-- A signal reaches more calls. -/
theorem Kept.deliver (pid : Nat) (restart : Bool) (number : Option Nat)
    (hs : w.step (.deliver pid restart number) = some w') : Kept w' := by
  cases hs
  refine ⟨h.ok, h.peers, h.attended.signal fun x hx => ?_⟩
  exact (Bool.or_eq_false_iff.mp hx).1

theorem Kept.step {act : WaitAction} (hc : w.allowed act = true)
    (hs : w.step act = some w') : Kept w' := by
  cases act with
  | call pid c => exact h.stepSys hc hs fun _ => h.call hc
  | deliver pid restart number => exact h.deliver pid restart number hs
  | resume i ans =>
      rw [WaitSys.step] at hs
      rw [allowed] at hc
      split at hs
      · cases hs
      · rename_i c hget
        rw [hget] at hc
        dsimp only at hc
        split at hs
        · cases hs
        · rename_i a ha
          rw [ha] at hc
          simp only [Bool.and_eq_true] at hc
          obtain ⟨⟨hl, hstate⟩, hpass⟩ := hc
          exact h.stepSys hl hs fun _ => h.resume hget ha hl hstate hpass

end

/-- **No lost wakeup.**  In a run whose steps are allowed, when no call that waits has something to
go on with, a blocked `accept` has an open listener with no connection, and a blocked `recv` an
open stream with no data. -/
theorem no_lost_wakeup {maxSockets : Nat} {vfs hostAdapter : Bool}
    (r : Lts.Reach step (fun w act => w.allowed act = true) (new maxSockets vfs hostAdapter) w)
    (hq : w.Quiescent) :
    (∀ id handle, .accept id handle ∈ w.sys.calls → w.sys.table.has id = true ∧
      (w.sys.table.objs id).state = .listening ∧ (w.sys.table.objs id).backlog = []) ∧
    ∀ id maxBytes flags handle, .recv id maxBytes flags handle ∈ w.sys.calls →
      w.sys.table.Open id ∧ (w.sys.table.objs id).readBuffer = [] := by
  have h : Kept w := Lts.Reach.invariant (I := Kept) (.new maxSockets vfs hostAdapter)
    (fun _ _ _ h hc hs => h.step hc hs) r
  have hnone : ∀ k id, woken w.sys.table w.waiters k id = 0 := by
    intro k id
    refine List.countP_eq_zero.mpr fun x hx => ?_
    simp [(hq x hx).1]
  have hblocked : ∀ c x, c ∈ w.sys.calls → c.waiter = some x →
      Blocked w.sys.table w.signalled w.waiters x.accepts x.socketId := by
    intro c x hc hx
    have hmem : x ∈ w.waiters := List.mem_filterMap.mpr ⟨c, hc, hx⟩
    exact ⟨x.handle, hmem, hq x hmem⟩
  refine ⟨fun id handle hc => ?_, fun id maxBytes flags handle hc => ?_⟩
  · have hb := hblocked _ _ hc rfl
    obtain ⟨hlive, hstate⟩ :=
      h.attended.waiting.accepters id (hb.queue_ne_nil h.attended.waiting.queues)
    have hlen := h.attended.served true id hb
    rw [hnone] at hlen
    exact ⟨hlive, hstate, List.length_eq_zero_iff.mp (Nat.le_zero.mp hlen)⟩
  · have hb := hblocked _ _ hc rfl
    refine ⟨h.attended.waiting.readers id (hb.queue_ne_nil h.attended.waiting.queues), ?_⟩
    refine (h.attended.served false id hb).resolve_right fun hlt => ?_
    rw [hnone] at hlt
    exact Nat.lt_irrefl _ hlt

/-- Two processes wait for data of socket 1; a signal comes to the first, then data for it. -/
def readTwice (restart : Bool) : List WaitAction :=
  [.call 7 (.socketpair 1 SOCK_STREAM 0 7 true), .call 8 (.recv 1 64 0 true),
    .call 9 (.recv 1 64 0 true), .deliver 8 restart (some 10), .call 7 (.send 2 [1] 0 none),
    .resume 0 .woken]

instance (w : WaitSys) : Decidable w.Quiescent :=
  inferInstanceAs (Decidable (∀ x ∈ w.waiters, _))

/-- With SA_RESTART the first call reads the data, and the second has none to read. -/
theorem no_lost_wakeup_restart : ∃ w : WaitSys,
    Lts.Reach step (fun w act => w.allowed act = true) (new 8 false false) w ∧ w.Quiescent ∧
    (.recv 1 64 0 1 ∈ w.sys.calls) ∧ (w.sys.table.objs 1).readBuffer = [] := by
  obtain ⟨w, hr, hquiet, hmem⟩ := Lts.Reach.exists_of_execIf step
    (fun w act => w.allowed act = true) (new 8 false false) (readTwice true)
    (P := fun w => w.Quiescent ∧ .recv 1 64 0 1 ∈ w.sys.calls) (by decide +kernel)
  exact ⟨w, hr, hquiet, hmem, ((no_lost_wakeup hr hquiet).2 1 64 0 1 hmem).2⟩

/-- Without SA_RESTART the first call ends with EINTR, and the second stays blocked beside the
data. -/
theorem no_lost_wakeup_fails : ∃ w : WaitSys,
    Lts.Reach step Lts.Any (new 8 false false) w ∧ w.Quiescent ∧
    (.recv 1 64 0 1 ∈ w.sys.calls) ∧ (w.sys.table.objs 1).readBuffer = [[1]] :=
  Lts.Reach.exists_of_exec step (new 8 false false) (readTwice false) (by decide +kernel)

end WaitSys

end SecureExec.Socket
