import SecureExec.Kernel.PipeRun

/-!
# Kernel — PipeBlocking — when a read or a write of a pipe waits

A read wakes one waiting write; a write that runs on and finishes wakes nobody.  So a second
waiting write is left behind a pipe that is not full when the first one is small
(`pipe_blocking_fails`).

`PassesOn` is the condition on a write that runs on under which this does not happen: when it
finishes without filling the buffer, no other write waits, or another one has been woken already.
In every run whose steps meet it, a read that still waits when nothing is left to run waits for an
empty pipe that can be written to, and a write that still waits waits for a full pipe with both
ends open (`pipe_blocking_of_passesOn`).
-/

namespace SecureExec.Kernel
open SecureExec PipeState WaitQueue Function PipeSys

namespace PipeRun

variable {r r' : PipeRun}

/-- No woken write has code left to run. -/
def Quiescent (r : PipeRun) : Prop :=
  ∀ h c, r.calls h = some c → r.st.waits.settled h = false

/-- A waiting read waits for an empty pipe that can be written to, a waiting write for a full pipe
with both ends open. -/
def BlockingJustified (r : PipeRun) : Prop :=
  (r.st.readWaiters ≠ [] → r.st.buffer = [] ∧ r.st.closedWrite = false) ∧
  (∀ h c, r.calls h = some c → r.st.bufferSize = MAX_PIPE_BUFFER_BYTES ∧
    r.st.closedRead = false ∧ r.st.closedWrite = false) ∧
  ¬ (r.st.readWaiters ≠ [] ∧ ∃ h c, r.calls h = some c)

/-- Another write than `k` has been woken. -/
def otherWoken (r : PipeRun) (k : Nat) : Bool :=
  (List.range r.st.waits.next).any fun k' =>
    k' != k && r.st.waits.settled k' && (r.calls k').isSome

/-- The write `k` that runs on fills the buffer, or leaves no waiting write without a woken one. -/
def PassesOn (r : PipeRun) (k : Nat) : Prop :=
  ∀ c ∈ r.calls k,
    (r.st.readWaiters ≠ [] ∧ r.st.buffer = [] ∨
      c.data.length - c.offset < MAX_PIPE_BUFFER_BYTES - r.st.bufferSize) →
    r.st.writeWaiters = [] ∨ r.otherWoken k = true

instance (r : PipeRun) (k : Nat) : Decidable (r.PassesOn k) :=
  inferInstanceAs (Decidable (∀ _ ∈ _, _))

/-! ### The queue of the writes -/

/-- The writes that wait and are not woken are those in the queue. -/
structure WaitersOk (st : PipeState) (calls : Nat → Option WriteCall) : Prop where
  nodup : st.writeWaiters.Nodup
  queued : ∀ h ∈ st.writeWaiters, st.waits.settled h = false ∧ ∃ c, calls h = some c
  blocked : ∀ h c, calls h = some c → st.waits.settled h = false → h ∈ st.writeWaiters
  bound : ∀ h c, calls h = some c → h < st.waits.next ∧ c.offset < c.data.length

namespace WaitersOk

variable {st st' : PipeState} {calls : Nat → Option WriteCall}

variable (h : WaitersOk st calls)
include h

theorem congr (hw : st'.waits = st.waits)
    (hq : st'.writeWaiters = st.writeWaiters) : WaitersOk st' calls := by
  refine ⟨?_, ?_, ?_, ?_⟩
  · rw [hq]
    exact h.nodup
  · rw [hq, hw]
    exact h.queued
  · rw [hq, hw]
    exact h.blocked
  · rw [hw]
    exact h.bound

/-- The write whose turn it is does not wait any more. -/
theorem leave {k : Nat} (hk : st.waits.settled k = true) :
    WaitersOk { st with writeWaiters := remove st.writeWaiters k }
      (update calls k none) ∧
    remove st.writeWaiters k = st.writeWaiters := by
  have hnot : k ∉ st.writeWaiters := fun hm => by
    rw [(h.queued k hm).1] at hk
    cases hk
  have he : remove st.writeWaiters k = st.writeWaiters := List.erase_of_not_mem hnot
  have hcalls : ∀ x c, update calls k none x = some c → calls x = some c :=
    fun x c hx => (PartialMap.erase_eq_some.mp hx).2
  rw [he]
  refine ⟨⟨h.nodup, fun x hx => ?_, fun x c hx => h.blocked x c (hcalls x c hx),
    fun x c hx => h.bound x c (hcalls x c hx)⟩, rfl⟩
  obtain ⟨h₁, c, hc⟩ := h.queued x hx
  refine ⟨h₁, c, ?_⟩
  rw [update_of_ne (fun e : x = k => hnot (e ▸ hx)), hc]

/-- A write queues up. -/
theorem enqueue {c : WriteCall} (hc : c.offset < c.data.length)
    (hw : st'.waits = ⟨st.waits.next + 1, update st.waits.settled st.waits.next false⟩)
    (hq : st'.writeWaiters = st.writeWaiters ++ [st.waits.next]) :
    WaitersOk st' (update calls st.waits.next (some c)) := by
  have hlt : ∀ x ∈ st.writeWaiters, x < st.waits.next := fun x hx => by
    obtain ⟨-, c', hc'⟩ := h.queued x hx
    exact (h.bound x c' hc').1
  have hset : ∀ x, x ≠ st.waits.next → st'.waits.settled x = st.waits.settled x := fun x hx => by
    rw [hw]
    exact update_of_ne hx _ _
  have hcalls : ∀ x c', update calls st.waits.next (some c) x = some c' →
      (x = st.waits.next ∧ c' = c) ∨ (x ≠ st.waits.next ∧ calls x = some c') :=
    fun x c' hx => PartialMap.set_eq_some.mp hx
  refine ⟨?_, fun x hx => ?_, fun x c' hx hs => ?_, fun x c' hx => ?_⟩
  · rw [hq]
    refine List.nodup_append.mpr ⟨h.nodup, List.pairwise_singleton _ _, ?_⟩
    rintro a ha b hb rfl
    rw [List.mem_singleton.mp hb] at ha
    exact Nat.lt_irrefl _ (hlt _ ha)
  · rw [hq] at hx
    rcases List.mem_append.mp hx with hx | hx
    · have hne := Nat.ne_of_lt (hlt x hx)
      obtain ⟨h₁, c', hc'⟩ := h.queued x hx
      exact ⟨(hset x hne).trans h₁, c', (update_of_ne hne _ _).trans hc'⟩
    · rw [List.mem_singleton.mp hx, hw]
      exact ⟨update_self .., c, update_self ..⟩
  · rw [hq]
    rcases hcalls x c' hx with ⟨rfl, -⟩ | ⟨hne, hx⟩
    · exact List.mem_append_right _ List.mem_cons_self
    · exact List.mem_append_left _ (h.blocked x c' hx ((hset x hne).symm.trans hs))
  · rw [hw]
    rcases hcalls x c' hx with ⟨rfl, rfl⟩ | ⟨hne, hx⟩
    · exact ⟨Nat.lt_succ_self _, hc⟩
    · exact ⟨Nat.lt_succ_of_lt (h.bound x c' hx).1, (h.bound x c' hx).2⟩

/-- A read wakes the first write of the queue. -/
theorem wakeOne (hw : st'.waits = (wakeOne st.waits st.writeWaiters).1)
    (hq : st'.writeWaiters = (wakeOne st.waits st.writeWaiters).2) :
    WaitersOk st' calls ∧
      (st.writeWaiters ≠ [] → ∃ k c, calls k = some c ∧ st'.waits.settled k = true) := by
  cases hqs : st.writeWaiters with
  | nil =>
      rw [hqs] at hw hq
      exact ⟨h.congr hw (hq.trans hqs.symm), fun hne => absurd rfl hne⟩
  | cons k q =>
      have hk : k ∈ st.writeWaiters := by rw [hqs]; exact List.mem_cons_self
      obtain ⟨hu, c, hc⟩ := h.queued k hk
      have hnd := List.nodup_cons.mp (hqs ▸ h.nodup)
      rw [hqs, wakeOne_cons hu] at hw hq
      have hset : ∀ x, x ≠ k → st'.waits.settled x = st.waits.settled x := fun x hx => by
        rw [hw]
        exact update_of_ne hx _ _
      have hself : st'.waits.settled k = true := by
        rw [hw]
        exact update_self ..
      refine ⟨⟨?_, fun x hx => ?_, fun x c' hx hs => ?_, fun x c' hx => ?_⟩,
        fun _ => ⟨k, c, hc, hself⟩⟩
      · rw [hq]
        exact hnd.2
      · rw [hq] at hx
        have hne : x ≠ k := fun e => hnd.1 (e ▸ hx)
        obtain ⟨h₁, h₂⟩ := h.queued x (by rw [hqs]; exact List.mem_cons_of_mem _ hx)
        exact ⟨(hset x hne).trans h₁, h₂⟩
      · have hne : x ≠ k := by
          rintro rfl
          rw [hself] at hs
          cases hs
        have hx' := h.blocked x c' hx ((hset x hne).symm.trans hs)
        rw [hqs] at hx'
        rw [hq]
        exact (List.mem_cons.mp hx').resolve_left hne
      · rw [hw]
        exact h.bound x c' hx

/-- Closing an end wakes every write. -/
theorem wakeAll (hw : st'.waits = (wakeAll st.waits st.writeWaiters).1)
    (hq : st'.writeWaiters = []) (hn : st'.waits.next = st.waits.next) : WaitersOk st' calls := by
  refine ⟨hq ▸ List.nodup_nil, fun x hx => ?_, fun x c hx hs => ?_, fun x c hx => ?_⟩
  · rw [hq] at hx
    cases hx
  · rw [hw, settled_wakeAll] at hs
    split at hs
    · cases hs
    · rename_i hnot
      exact absurd (h.blocked x c hx hs) hnot
  · rw [hn]
    exact h.bound x c hx

end WaitersOk

/-! ### What every action keeps -/

/-- A write that waits has been woken. -/
def Woken (st : PipeState) (calls : Nat → Option WriteCall) : Prop :=
  ∃ k c, calls k = some c ∧ st.waits.settled k = true

/-- Waiting reads wait for an empty pipe that can be written to; while writes are in the queue, both
ends are open and the pipe is full or a write has been woken. -/
structure BlockInv (st : PipeState) (calls : Nat → Option WriteCall) : Prop where
  waiters : WaitersOk st calls
  reads : st.readWaiters ≠ [] → st.buffer = [] ∧ st.closedWrite = false
  chunks : ∀ b ∈ st.buffer, b ≠ []
  size : st.bufferSize ≤ MAX_PIPE_BUFFER_BYTES
  isOpen : st.writeWaiters ≠ [] → st.closedRead = false ∧ st.closedWrite = false
  writes : st.writeWaiters ≠ [] → st.bufferSize = MAX_PIPE_BUFFER_BYTES ∨ Woken st calls

namespace BlockInv

variable {st : PipeState} {calls : Nat → Option WriteCall} {data : ByteArray8}
  {t : Taken}

theorem start : BlockInv .new fun _ => none where
  waiters := ⟨List.nodup_nil, fun _ h => (List.not_mem_nil h).elim, fun _ _ h => (by cases h),
    fun _ _ h => (by cases h)⟩
  reads := fun h => absurd rfl h
  chunks := fun _ h => (List.not_mem_nil h).elim
  size := Nat.zero_le _
  isOpen := fun h => absurd rfl h
  writes := fun h => absurd rfl h

theorem bufferSize_append (st : PipeState) (b : ByteArray8) :
    ({ st with buffer := st.buffer ++ [b] } : PipeState).bufferSize = st.bufferSize + b.length := by
  simp [bufferSize]

/-- What is taken from a write: `hpass` is about a write that does not fill the pipe. -/
theorem taken (hw : WaitersOk st calls)
    (hr : st.readWaiters ≠ [] → st.buffer = [] ∧ st.closedWrite = false)
    (hc : ∀ b ∈ st.buffer, b ≠ []) (hsz : st.bufferSize ≤ MAX_PIPE_BUFFER_BYTES)
    (hcr : st.closedRead = false) (hcw : st.closedWrite = false)
    (hpass : (st.readWaiters ≠ [] ∧ st.buffer = [] ∨
        data.length < MAX_PIPE_BUFFER_BYTES - st.bufferSize) →
      st.writeWaiters = [] ∨ Woken st calls)
    (ht : TakenSpec st data t) :
    BlockInv t.st calls ∧ t.st.closedRead = false ∧ t.st.closedWrite = false ∧
      t.st.waits = st.waits ∧
      (t.count < data.length → t.st.bufferSize = MAX_PIPE_BUFFER_BYTES) := by
  have hsmall : data.length < MAX_PIPE_BUFFER_BYTES - st.bufferSize → st.writeWaiters ≠ [] →
      Woken st calls := fun h hne => (hpass (.inr h)).resolve_left hne
  cases ht with
  | nothing h =>
      subst h
      refine ⟨⟨hw, hr, hc, hsz, fun _ => ⟨hcr, hcw⟩, fun hne => ?_⟩, hcr, hcw, rfl,
        fun h => absurd h (Nat.lt_irrefl _)⟩
      rcases Nat.lt_or_ge st.bufferSize MAX_PIPE_BUFFER_BYTES with hlt | hge
      · exact .inr (hsmall (Nat.sub_pos_of_lt hlt) hne)
      · exact .inl (Nat.le_antisymm hsz hge)
  | direct hd hrd hb =>
      have hrne : st.readWaiters ≠ [] := by rw [hrd]; exact List.cons_ne_nil _ _
      refine ⟨⟨hw.congr rfl rfl, fun _ => hr hrne, hc, hsz, fun _ => ⟨hcr, hcw⟩,
        fun hne => ?_⟩, hcr, hcw, rfl, fun h => absurd h (Nat.lt_irrefl _)⟩
      exact .inr ((hpass (.inl ⟨hrne, hb⟩)).resolve_left hne)
  | full hd hf =>
      have he := Nat.le_antisymm hsz hf
      exact ⟨⟨hw, hr, hc, hsz, fun _ => ⟨hcr, hcw⟩, fun _ => .inl he⟩, hcr, hcw, rfl, fun _ => he⟩
  | buffered hd hn hf =>
      have hrnil : st.readWaiters = [] := by
        by_contra hne
        exact (hn.resolve_left hne) (hr hne).1
      have hdpos : 0 < data.length := List.length_pos_of_ne_nil hd
      have hlen : (data.take (min (MAX_PIPE_BUFFER_BYTES - st.bufferSize) data.length)).length =
          min (MAX_PIPE_BUFFER_BYTES - st.bufferSize) data.length := by
        rw [List.length_take]
        exact Nat.min_eq_left (Nat.min_le_right _ _)
      have hsize := bufferSize_append st
        (data.take (min (MAX_PIPE_BUFFER_BYTES - st.bufferSize) data.length))
      rw [hlen] at hsize
      refine ⟨⟨hw.congr rfl rfl, fun hne => absurd hrnil hne, fun b hb => ?_, ?_,
        fun _ => ⟨hcr, hcw⟩, fun hne => ?_⟩, hcr, hcw, rfl, fun hlt => ?_⟩
      · rcases List.mem_append.mp hb with hb | hb
        · exact hc b hb
        · rw [List.mem_singleton.mp hb, ← List.length_pos_iff, hlen]
          exact Nat.lt_min.mpr ⟨Nat.sub_pos_of_lt hf, hdpos⟩
      · refine Nat.le_trans (Nat.le_of_eq hsize) ?_
        omega
      · by_cases hlt : data.length < MAX_PIPE_BUFFER_BYTES - st.bufferSize
        · exact .inr (hsmall hlt hne)
        · refine .inl (hsize.trans ?_)
          omega
      · refine hsize.trans ?_
        simp only at hlt
        omega

/-- A write that is not finished queues up behind a full pipe. -/
theorem enqueueWriter (hI : BlockInv t.st calls) (hcr : t.st.closedRead = false)
    (hcw : t.st.closedWrite = false) (hf : t.st.bufferSize = MAX_PIPE_BUFFER_BYTES)
    {c : WriteCall} (hc : c.offset < c.data.length) (acc : ByteArray8) (off : Nat) :
    BlockInv (enqueueWriter t acc off).st
      (update calls t.st.waits.next (some c)) where
  waiters := hI.waiters.enqueue hc rfl rfl
  reads := hI.reads
  chunks := hI.chunks
  size := hI.size
  isOpen := fun _ => ⟨hcr, hcw⟩
  writes := fun _ => .inl hf

theorem write (hI : BlockInv st calls) (flags : Flags) (id : Nat) (data : ByteArray8) :
    BlockInv (st.write flags data).st (afterTurn calls id data (st.write flags data).outcome) := by
  cases hwa : st.writeAvailable data with
  | error e =>
      simp only [PipeState.write, hwa]
      exact hI
  | ok t =>
      obtain ⟨hcw, hcr, ht⟩ := PipeState.writeAvailable_cases hwa
      -- while writes wait and the pipe is not full, one has been woken
      have hpass : (st.readWaiters ≠ [] ∧ st.buffer = [] ∨
          data.length < MAX_PIPE_BUFFER_BYTES - st.bufferSize) →
          st.writeWaiters = [] ∨ Woken st calls := by
        intro h
        have hlt : st.bufferSize ≠ MAX_PIPE_BUFFER_BYTES := by
          rcases h with ⟨-, hb⟩ | h
          · simp [PipeState.bufferSize, hb, MAX_PIPE_BUFFER_BYTES]
          · omega
        by_cases hq : st.writeWaiters = []
        · exact .inl hq
        · exact .inr ((hI.writes hq).resolve_left hlt)
      obtain ⟨hI', hcr', hcw', -, hfull⟩ :=
        taken hI.waiters hI.reads hI.chunks hI.size hcr hcw hpass ht
      simp only [PipeState.write, hwa]
      split
      · exact hI'
      · rename_i hne
        have hlt : t.count < data.length := Nat.lt_of_le_of_ne ht.count_le hne
        split
        · split <;> exact hI'
        · exact enqueueWriter hI' hcr' hcw' (hfull hlt) hlt _ _

/-- A write that waited runs on. -/
theorem writeMore (hI : BlockInv st calls) {k : Nat} {c : WriteCall}
    (hs : st.waits.settled k = true)
    (hpass : (st.readWaiters ≠ [] ∧ st.buffer = [] ∨
        c.data.length - c.offset < MAX_PIPE_BUFFER_BYTES - st.bufferSize) →
      st.writeWaiters = [] ∨ Woken st (update calls k none)) :
    BlockInv (st.writeMore k c.data c.offset).st
      (afterTurn (update calls k none) c.id c.data
        (st.writeMore k c.data c.offset).outcome) := by
  obtain ⟨hw, he⟩ := hI.waiters.leave hs
  have hst : { st with writeWaiters := remove st.writeWaiters k } = st := by rw [he]
  rw [hst] at hw
  cases hwa : st.writeAvailable (c.data.drop c.offset) with
  | error e =>
      -- an end is closed, so nothing is in the queue
      have hq : st.writeWaiters = [] := by
        by_contra hne
        obtain ⟨hcr, hcw⟩ := hI.isOpen hne
        rcases PipeState.writeAvailable_error hwa with h | h
        · rw [hcw] at h
          cases h
        · rw [hcr] at h
          cases h
      simp only [PipeState.writeMore, hst, hwa]
      exact ⟨hw, hI.reads, hI.chunks, hI.size, hI.isOpen, fun hne => absurd hq hne⟩
  | ok t =>
      obtain ⟨hcw, hcr, ht⟩ := PipeState.writeAvailable_cases hwa
      obtain ⟨hI', hcr', hcw', -, hfull⟩ :=
        taken hw hI.reads hI.chunks hI.size hcr hcw (by rwa [List.length_drop]) ht
      simp only [PipeState.writeMore, hst, hwa]
      split
      · rename_i hlt
        refine enqueueWriter hI' hcr' hcw' (hfull ?_) hlt _ _
        rw [List.length_drop]
        omega
      · exact hI'

theorem drainChunks_ne_nil (l : List ByteArray8) : ∀ n, (∀ b ∈ l, b ≠ []) →
    ∀ b ∈ (drainChunks l n).2, b ≠ [] := by
  induction l with
  | nil => exact fun _ h => h
  | cons chunk rest ih =>
      intro n h
      unfold drainChunks
      split
      · exact h
      · split
        · exact ih _ fun b hb => h b (List.mem_cons_of_mem _ hb)
        · rename_i hlt
          intro b hb
          rcases List.mem_cons.mp hb with rfl | hb
          · rw [← List.length_pos_iff, List.length_drop]
            omega
          · exact h b (List.mem_cons_of_mem _ hb)

theorem drainChunks_size (l : List ByteArray8) (n : Nat) :
    ((drainChunks l n).2.map List.length).sum ≤ (l.map List.length).sum := by
  have h := congrArg List.length (drainChunks_flatten l n)
  rw [List.length_append, List.length_flatten, List.length_flatten, List.length_flatten] at h
  omega

theorem read (hI : BlockInv st calls) (reader n : Nat) :
    BlockInv (st.read reader n).2 calls := by
  rcases read_spec st reader n with ⟨hb, he⟩ | ⟨hb, hc, he⟩ | ⟨hb, hc, he⟩
  · rw [he]
    have hrnil : st.readWaiters = [] := by
      by_contra hne
      exact hb (hI.reads hne).1
    have hnil : st.writeWaiters = [] → (wakeOne st.waits st.writeWaiters).2 = [] :=
      fun h => by rw [h, wakeOne]
    obtain ⟨hw, hwake⟩ : WaitersOk { st with
        buffer := (drainChunks st.buffer n).2
        waits := (wakeOne st.waits st.writeWaiters).1
        writeWaiters := (wakeOne st.waits st.writeWaiters).2 } calls ∧ _ :=
      hI.waiters.wakeOne rfl rfl
    exact ⟨hw.congr rfl rfl, fun hne => absurd hrnil hne,
      drainChunks_ne_nil _ _ hI.chunks, Nat.le_trans (drainChunks_size _ _) hI.size,
      fun hne => hI.isOpen fun h => hne (hnil h), fun hne => .inr (hwake fun h => hne (hnil h))⟩
  · rw [he]
    exact hI
  · rw [he]
    exact ⟨hI.waiters.congr rfl rfl, fun _ => ⟨hb, hc⟩, hI.chunks, hI.size, hI.isOpen, hI.writes⟩

theorem close (hI : BlockInv st calls) (side : PipeEnd) : BlockInv (st.close side) calls := by
  have hn : (wakeAll st.waits st.writeWaiters).1.next = st.waits.next :=
    next_wakeAll _ _
  cases side with
  | read =>
      exact ⟨hI.waiters.wakeAll rfl rfl hn, hI.reads, hI.chunks, hI.size,
        fun hne => absurd rfl hne, fun hne => absurd rfl hne⟩
  | write =>
      exact ⟨hI.waiters.wakeAll rfl rfl hn, fun hne => absurd rfl hne, hI.chunks, hI.size,
        fun hne => absurd rfl hne, fun hne => absurd rfl hne⟩

end BlockInv

theorem woken_of_otherWoken {k : Nat} (h : r.otherWoken k = true) :
    Woken r.st (update r.calls k none) := by
  obtain ⟨k', -, hk'⟩ := List.any_eq_true.mp h
  simp only [Bool.and_eq_true, bne_iff_ne] at hk'
  obtain ⟨⟨hne, hset⟩, hsome⟩ := hk'
  obtain ⟨c, hc⟩ := Option.isSome_iff_exists.mp hsome
  exact ⟨k', c, (update_of_ne hne _ _).trans hc, hset⟩

theorem blockInv_step (hI : BlockInv r.st r.calls) {a : PipeAction} (hs : r.step a = some r')
    (hpass : ∀ k, a = .resume k → r.PassesOn k) : BlockInv r'.st r'.calls := by
  cases a with
  | write flags data =>
      cases hs
      exact hI.write flags r.log.nextCall data
  | read n =>
      cases hs
      exact hI.read r.log.nextRead n
  | close side =>
      cases hs
      exact hI.close side
  | resume k =>
      cases hc : r.calls k with
      | none => simp [step, hc] at hs
      | some c =>
          simp only [step, hc] at hs
          split at hs
          · rename_i hset
            cases hs
            refine hI.writeMore hset fun h => ?_
            exact (hpass k rfl c hc h).imp_right woken_of_otherWoken
          · cases hs
  | waitForPoll =>
      cases hs
      exact ⟨hI.waiters.congr rfl rfl, hI.reads, hI.chunks, hI.size, hI.isOpen, hI.writes⟩

/-- With no woken write left, the writes that wait wait for a full pipe. -/
theorem BlockInv.justified (hI : BlockInv r.st r.calls) (hq : r.Quiescent) :
    r.BlockingJustified := by
  have hfull : ∀ h c, r.calls h = some c → r.st.bufferSize = MAX_PIPE_BUFFER_BYTES ∧
      r.st.closedRead = false ∧ r.st.closedWrite = false := by
    intro h c hc
    have hne : r.st.writeWaiters ≠ [] :=
      List.ne_nil_of_mem (hI.waiters.blocked h c hc (hq h c hc))
    refine ⟨(hI.writes hne).resolve_right ?_, hI.isOpen hne⟩
    rintro ⟨k, c', hk, hset⟩
    rw [hq k c' hk] at hset
    cases hset
  refine ⟨hI.reads, hfull, ?_⟩
  rintro ⟨hr, h, c, hc⟩
  have h0 : r.st.bufferSize = 0 := by simp [bufferSize, (hI.reads hr).1]
  rw [(hfull h c hc).1] at h0
  cases h0

end PipeRun

/-- The condition on the actions: a write that runs on leaves no waiting write behind. -/
def PipeSys.PassesOn (s : PipeSys) : PipeSysAction → Prop
  | .resume p h => (s.run p).PassesOn h
  | _ => True

instance (s : PipeSys) : ∀ a, Decidable (s.PassesOn a)
  | .resume p h => inferInstanceAs (Decidable ((s.run p).PassesOn h))
  | .createPipe | .write .. | .read .. | .close _ | .waitForPoll _ =>
    inferInstanceAs (Decidable True)

/-- In every run whose resumed writes pass on, the calls that wait on a pipe at rest wait for a
reason. -/
theorem pipe_blocking_of_passesOn {s : PipeSys}
    (h : Lts.Reach step PassesOn .start s) (p : Nat) (hq : (s.run p).Quiescent) :
    (s.run p).BlockingJustified := by
  have hI : PipeRun.BlockInv (s.run p).st (s.run p).calls :=
    forall_run (I := fun r => PipeRun.BlockInv r.st r.calls) PipeRun.BlockInv.start
      (fun _ _ _ _ hr hs hC => PipeRun.blockInv_step hr hs hC) h p
  exact hI.justified hq

-- a full pipe is too large to be computed: its length is all the two runs below look at
attribute [local simp] step onPipe start run setRun
  PipeManager.route PipeManager.createPipe PipeManager.new PipeRun.step PipeRun.turn
  PipeRun.afterTurn PipeState.write PipeState.writeMore PipeState.writeAvailable
  PipeState.assertWriteOpen PipeState.new PipeState.bufferSize PipeState.pollWake
  PipeState.enqueueWriter PipeState.read PipeState.drainBuffer PipeState.drainChunks Flags.has
  O_NONBLOCK O_WRONLY enqueue wakeOne wakeAll remove
  WaitHandles.empty WaitHandles.wake PipeLog.record PipeLog.new

/-- A full pipe, a write that waits, a read of one byte, the write runs on and fills the pipe again,
another write. -/
def refilled (d : ByteArray8) : List PipeSysAction :=
  [.createPipe, .write 100001 O_WRONLY d, .write 100001 O_WRONLY [1], .read 100000 1,
    .resume 1 0, .write 100001 O_WRONLY [2]]

theorem refilled_end {d : ByteArray8} (hd : d.length = MAX_PIPE_BUFFER_BYTES) :
    ∃ s, Lts.execIf step PassesOn .start (refilled d) = some s ∧
      (s.run 1).Quiescent ∧ (s.run 1).calls 1 = some ⟨2, [2], 0⟩ := by
  have hpos : ¬ MAX_PIPE_BUFFER_BYTES = 0 := by decide
  have htake : d.take MAX_PIPE_BUFFER_BYTES = d := by rw [← hd, List.take_length]
  have hlt : ¬ MAX_PIPE_BUFFER_BYTES ≤ 1 := by decide
  have hroom : MAX_PIPE_BUFFER_BYTES - (MAX_PIPE_BUFFER_BYTES - 1) = 1 := by decide
  have hfull : MAX_PIPE_BUFFER_BYTES - 1 + 1 = MAX_PIPE_BUFFER_BYTES := by decide
  simp [refilled, Lts.execIf, PassesOn, PipeRun.PassesOn, hd, hpos, htake, hlt, hroom, hfull]
  intro h c hc
  by_cases hh : h = 1
  · subst hh
    rfl
  · simp [hh] at hc

theorem pipe_blocking_of_passesOn_refilled :
    ∃ s, Lts.Reach step PassesOn .start s ∧ (s.run 1).Quiescent ∧
      (s.run 1).calls 1 = some ⟨2, [2], 0⟩ ∧ (s.run 1).BlockingJustified := by
  obtain ⟨s, hs, hq, hc⟩ := refilled_end (d := List.replicate MAX_PIPE_BUFFER_BYTES 0)
    List.length_replicate
  exact ⟨s, .of_execIf hs, hq, hc, pipe_blocking_of_passesOn (.of_execIf hs) 1 hq⟩

/-- A full pipe, two writes that wait, a read of all the bytes, the first write runs on. -/
def leftBehind (d : ByteArray8) : List PipeSysAction :=
  [.createPipe, .write 100001 O_WRONLY d, .write 100001 O_WRONLY [1], .write 100001 O_WRONLY [2],
    .read 100000 d.length, .resume 1 0]

theorem leftBehind_end {d : ByteArray8} (hd : d.length = MAX_PIPE_BUFFER_BYTES) :
    ∃ s, Lts.exec step .start (leftBehind d) = some s ∧ (s.run 1).Quiescent ∧
      (s.run 1).calls 1 = some ⟨2, [2], 0⟩ ∧ (s.run 1).st.bufferSize = 1 := by
  have hpos : ¬ MAX_PIPE_BUFFER_BYTES = 0 := by decide
  have htake : d.take MAX_PIPE_BUFFER_BYTES = d := by rw [← hd, List.take_length]
  have hone : min MAX_PIPE_BUFFER_BYTES 1 = 1 := by decide
  simp [leftBehind, Lts.exec, hd, hpos, htake, hone]
  intro h c hc
  by_cases hh : h = 0
  · subst hh
    cases hc
  · exact update_of_ne hh true fun _ => false

theorem pipe_blocking_fails :
    ¬ ∀ s, Lts.Reach step Lts.Any .start s → ∀ p, (s.run p).Quiescent →
      (s.run p).BlockingJustified := by
  intro h
  obtain ⟨s, hs, hq, hc, hb⟩ := leftBehind_end (d := List.replicate MAX_PIPE_BUFFER_BYTES 0)
    List.length_replicate
  have hf := ((h s (.of_exec hs) 1 hq).2.1 1 _ hc).1
  rw [hb] at hf
  cases hf

end SecureExec.Kernel
