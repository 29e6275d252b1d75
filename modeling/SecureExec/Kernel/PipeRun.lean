import SecureExec.Lib.PartialMap
import SecureExec.Kernel.Pipe

/-!
# Kernel — PipeRun — the runs of a pipe

A `PipeRun` is one pipe with its blocked writes and a record beside the code of what was accepted
from which write and what was handed to reads.  `PipeSys` is the manager with all its pipes; an
action of it is an action of one pipe, or creates one, or is refused (`run_step`).  So what every
action of a pipe keeps holds of every pipe of the manager in every state it reaches
(`PipeSys.forall_run`).
-/

namespace SecureExec.Kernel
open SecureExec Function

/-- A write that waits. -/
structure WriteCall where
  id : Nat
  data : ByteArray8
  offset : Nat

/-- What has gone through a pipe. -/
structure PipeLog where
  nextCall : Nat
  nextRead : Nat
  /-- The data of each write. -/
  data : Nat → ByteArray8
  /-- The pieces accepted, each with the write it came from. -/
  accepted : List (Nat × ByteArray8)
  /-- What the writes that returned have returned. -/
  returned : Nat → Option Nat
  /-- What was handed to reads. -/
  served : List ByteArray8

namespace PipeLog

def new : PipeLog := ⟨0, 0, fun _ => [], [], fun _ => none, []⟩

/-- All that was accepted from one write. -/
def piecesOf (log : PipeLog) (id : Nat) : ByteArray8 :=
  ((log.accepted.filter fun p => p.1 == id).map Prod.snd).flatten

/-- A turn of the write `id`. -/
def record (log : PipeLog) (id : Nat) (t : PipeState.WriteTurn) : PipeLog :=
  { log with
    accepted := log.accepted ++ [(id, t.accepted)]
    served := log.served ++ (t.handed.map Prod.snd).toList
    returned :=
      match t.outcome with
      | .returned n => update log.returned id (some n)
      | _ => log.returned }

end PipeLog

inductive PipeAction where
  | write (flags : Flags) (data : ByteArray8)
  | read (length : Nat)
  | close (side : PipeEnd)
  /-- The write that waits under this handle runs on. -/
  | resume (handle : Nat)
  | waitForPoll

structure PipeRun where
  st : PipeState
  calls : Nat → Option WriteCall
  log : PipeLog

namespace PipeRun

def new : PipeRun := ⟨.new, fun _ => none, .new⟩

/-- The writes that wait after a turn of the write `id`. -/
def afterTurn (calls : Nat → Option WriteCall) (id : Nat) (data : ByteArray8) :
    PipeState.WriteOutcome → Nat → Option WriteCall
  | .blocked h offset => update calls h (some ⟨id, data, offset⟩)
  | _ => calls

/-- A turn of the write `id`, where `calls` are the other writes that wait. -/
def turn (log : PipeLog) (calls : Nat → Option WriteCall) (id : Nat) (data : ByteArray8)
    (t : PipeState.WriteTurn) : PipeRun :=
  ⟨t.st, afterTurn calls id data t.outcome, log.record id t⟩

def step (r : PipeRun) : PipeAction → Option PipeRun
  | .write flags data =>
    let id := r.log.nextCall
    let log := { r.log with nextCall := id + 1, data := update r.log.data id data }
    some (turn log r.calls id data (r.st.write flags data))
  | .read length =>
    let (out, st) := r.st.read r.log.nextRead length
    some { r with
      st := st
      log := { r.log with
        nextRead := r.log.nextRead + 1
        served := match out with
          | .data b => r.log.served ++ [b]
          | _ => r.log.served } }
  | .close side => some { r with st := r.st.close side }
  | .resume h =>
    match r.calls h with
    | none => none
    | some c =>
      if r.st.waits.settled h then
        some (turn r.log (update r.calls h none) c.id c.data
          (r.st.writeMore h c.data c.offset))
      else none
  | .waitForPoll => some { r with st := r.st.waitForPoll }

end PipeRun

/-! ### The manager with all its pipes -/

inductive PipeSysAction where
  | createPipe
  | write (descriptionId : Nat) (flags : Flags) (data : ByteArray8)
  | read (descriptionId length : Nat)
  | close (descriptionId : Nat)
  | resume (pipeId handle : Nat)
  | waitForPoll (descriptionId : Nat)

structure PipeSys where
  mgr : PipeManager
  calls : Nat → Nat → Option WriteCall
  logs : Nat → PipeLog

namespace PipeSys

def start : PipeSys := ⟨.new, fun _ _ => none, fun _ => .new⟩

/-- The run of one pipe. -/
def run (s : PipeSys) (p : Nat) : PipeRun := ⟨s.mgr.states p, s.calls p, s.logs p⟩

def setRun (s : PipeSys) (p : Nat) (r : PipeRun) : PipeSys where
  mgr := { s.mgr with states := update s.mgr.states p r.st }
  calls := update s.calls p r.calls
  logs := update s.logs p r.log

/-- An action of the pipe the description is the given end of; without one the call throws and
changes nothing. -/
def onPipe (s : PipeSys) (descriptionId : Nat) (side : PipeEnd) (msg : String) (a : PipeAction) :
    Option PipeSys :=
  match s.mgr.route descriptionId side msg with
  | .error _ => some s
  | .ok p => ((s.run p).step a).map (s.setRun p)

def step (s : PipeSys) : PipeSysAction → Option PipeSys
  | .createPipe =>
    some { mgr := s.mgr.createPipe.2.2
           calls := update s.calls s.mgr.nextPipeId fun _ => none
           logs := update s.logs s.mgr.nextPipeId .new }
  | .write d flags data => s.onPipe d .write "not a pipe write end" (.write flags data)
  | .read d length => s.onPipe d .read "not a pipe read end" (.read length)
  | .close d => some { s with mgr := s.mgr.close d }
  | .resume p h => ((s.run p).step (.resume h)).map (s.setRun p)
  | .waitForPoll d =>
    match s.mgr.descToPipe d with
    | none => some s
    | some ref =>
      if s.mgr.pipes ref.pipeId then
        ((s.run ref.pipeId).step .waitForPoll).map (s.setRun ref.pipeId)
      else some s

variable {s s' : PipeSys}

theorem run_setRun (s : PipeSys) (p : Nat) (r : PipeRun) (q : Nat) :
    (s.setRun p r).run q = if q = p then r else s.run q := by
  by_cases h : q = p
  · subst h
    simp [setRun, run]
  · simp [setRun, run, h]

/-- What an action does to one pipe: nothing, an action of that pipe, or its creation. -/
theorem run_step {a : PipeSysAction} (h : s.step a = some s') (q : Nat) :
    s'.run q = s.run q ∨ s'.run q = .new ∨
      ∃ b, (s.run q).step b = some (s'.run q) ∧ (∀ k, b = .resume k → a = .resume q k) := by
  have hset : ∀ p (b : PipeAction), ((s.run p).step b).map (s.setRun p) = some s' →
      (∀ k, b = .resume k → a = .resume p k) →
      s'.run q = s.run q ∨ s'.run q = .new ∨
        ∃ b, (s.run q).step b = some (s'.run q) ∧ (∀ k, b = .resume k → a = .resume q k) := by
    intro p b hb hres
    obtain ⟨r, hr, rfl⟩ := Option.map_eq_some_iff.mp hb
    rw [run_setRun]
    by_cases hq : q = p
    · subst hq
      rw [if_pos rfl]
      exact .inr (.inr ⟨b, hr, hres⟩)
    · rw [if_neg hq]
      exact .inl rfl
  have hon : ∀ d side msg (b : PipeAction), s.onPipe d side msg b = some s' →
      (∀ k, b ≠ .resume k) →
      s'.run q = s.run q ∨ s'.run q = .new ∨
        ∃ b, (s.run q).step b = some (s'.run q) ∧ (∀ k, b = .resume k → a = .resume q k) := by
    intro d side msg b hb hres
    unfold onPipe at hb
    split at hb
    · cases hb
      exact .inl rfl
    · exact hset _ b hb fun k hk => absurd hk (hres k)
  cases a with
  | createPipe =>
      cases h
      by_cases hq : q = s.mgr.nextPipeId
      · right; left
        simp [run, PipeManager.createPipe, hq, PipeRun.new]
      · left
        simp [run, PipeManager.createPipe, hq]
  | write d flags data => exact hon _ _ _ _ h fun k hk => by cases hk
  | read d length => exact hon _ _ _ _ h fun k hk => by cases hk
  | close d =>
      cases h
      unfold PipeManager.close
      split
      · exact .inl rfl
      · rename_i ref _
        split
        · by_cases hq : q = ref.pipeId
          · right; right
            refine ⟨.close ref.side, ?_, fun k hk => by cases hk⟩
            simp [run, PipeRun.step, hq]
          · left
            simp [run, hq]
        · exact .inl rfl
  | resume p k => exact hset p _ h fun k' hk' => by cases hk'; rfl
  | waitForPoll d =>
      simp only [step] at h
      split at h
      · cases h
        exact .inl rfl
      · split at h
        · exact hset _ _ h fun k hk => by cases hk
        · cases h
          exact .inl rfl

/-- What a new pipe has and every action of a pipe keeps, every pipe has in every state; the
condition `C` is on the writes that run on. -/
theorem forall_run {I : PipeRun → Prop} {C : PipeSys → PipeSysAction → Prop} (hnew : I .new)
    (hstep : ∀ s q r b, I (PipeSys.run s q) → (PipeSys.run s q).step b = some r →
      (∀ k, b = .resume k → C s (.resume q k)) → I r)
    (h : Lts.Reach step C start s) : ∀ q, I (s.run q) := by
  refine h.invariant (I := fun s => ∀ q, I (s.run q)) (fun _ => hnew) fun t a u ht hC hs q => ?_
  rcases run_step hs q with he | he | ⟨b, hb, hres⟩
  · rw [he]
    exact ht q
  · rw [he]
    exact hnew
  · exact hstep t q _ b (ht q) hb fun k hk => hres k hk ▸ hC

end PipeSys

/-! ### What a write takes -/

namespace PipeState

variable {st : PipeState} {data : ByteArray8} {t : Taken}

/-- What `writeAvailable` can do with an open pipe. -/
inductive TakenSpec (st : PipeState) (data : ByteArray8) : Taken → Prop where
  | nothing (h : data = []) : TakenSpec st data ⟨0, none, st⟩
  | direct {waiter : Nat} {rest : List Nat} (hd : data ≠ []) (hr : st.readWaiters = waiter :: rest)
      (hb : st.buffer = []) : TakenSpec st data
        ⟨data.length, some (waiter, data), { st with readWaiters := rest }.pollWake⟩
  | full (hd : data ≠ []) (hf : MAX_PIPE_BUFFER_BYTES ≤ st.bufferSize) :
      TakenSpec st data ⟨0, none, st⟩
  | buffered (hd : data ≠ []) (hn : st.readWaiters = [] ∨ st.buffer ≠ [])
      (hf : st.bufferSize < MAX_PIPE_BUFFER_BYTES) :
      TakenSpec st data ⟨min (MAX_PIPE_BUFFER_BYTES - st.bufferSize) data.length, none,
        { st with buffer := st.buffer ++
          [data.take (min (MAX_PIPE_BUFFER_BYTES - st.bufferSize) data.length)] }.pollWake⟩

theorem TakenSpec.count_le (h : TakenSpec st data t) : t.count ≤ data.length := by
  cases h with
  | nothing h => exact Nat.zero_le _
  | direct hd hr hb => exact Nat.le_refl _
  | full hd hf => exact Nat.zero_le _
  | buffered hd hn hf => exact Nat.min_le_right _ _

theorem writeAvailable_cases (h : st.writeAvailable data = .ok t) :
    st.closedWrite = false ∧ st.closedRead = false ∧ TakenSpec st data t := by
  unfold writeAvailable at h
  cases hcw : st.closedWrite with
  | true => simp [assertWriteOpen, hcw] at h
  | false =>
      cases hcr : st.closedRead with
      | true => simp [assertWriteOpen, hcw, hcr] at h
      | false =>
          refine ⟨rfl, rfl, ?_⟩
          have ho : st.assertWriteOpen = .ok () := by simp [assertWriteOpen, hcw, hcr]
          rw [ho] at h
          simp only at h
          split at h
          · rename_i h0
            cases h
            exact .nothing (List.eq_nil_of_length_eq_zero h0)
          · rename_i h0
            have hd : data ≠ [] := fun h => h0 (by rw [h]; rfl)
            split at h
            · rename_i w rest hr hb
              cases h
              exact .direct hd hr hb
            · rename_i hno
              have hn : st.readWaiters = [] ∨ st.buffer ≠ [] := by
                cases hr : st.readWaiters with
                | nil => exact .inl rfl
                | cons w rest => exact .inr fun hb => hno w rest hr hb
              split at h
              · rename_i hc
                cases h
                exact .full hd (Nat.sub_eq_zero_iff_le.mp hc)
              · rename_i hc
                cases h
                exact .buffered hd hn (Nat.lt_of_sub_ne_zero hc)

theorem writeAvailable_error {e : Failure} (h : st.writeAvailable data = .error e) :
    st.closedWrite = true ∨ st.closedRead = true := by
  unfold writeAvailable assertWriteOpen at h
  cases hcw : st.closedWrite with
  | true => exact .inl rfl
  | false =>
      cases hcr : st.closedRead with
      | true => exact .inr rfl
      | false =>
          simp only [hcw, hcr, Bool.false_eq_true, if_false] at h
          split at h
          · cases h
          · split at h
            · cases h
            · split at h <;> cases h

/-- What a read can do. -/
theorem read_spec (st : PipeState) (reader n : Nat) :
    (st.buffer ≠ [] ∧ st.read reader n = (.data (drainChunks st.buffer n).1.flatten,
      { st with
        buffer := (drainChunks st.buffer n).2
        waits := (WaitQueue.wakeOne st.waits st.writeWaiters).1
        writeWaiters := (WaitQueue.wakeOne st.waits st.writeWaiters).2 }.pollWake)) ∨
    (st.buffer = [] ∧ st.closedWrite = true ∧ st.read reader n = (.eof, st)) ∨
    (st.buffer = [] ∧ st.closedWrite = false ∧
      st.read reader n = (.waits, { st with readWaiters := st.readWaiters ++ [reader] })) := by
  by_cases hb : st.buffer = []
  · cases hc : st.closedWrite with
    | true => exact .inr (.inl ⟨hb, rfl, by simp [read, hb, hc]⟩)
    | false => exact .inr (.inr ⟨hb, rfl, by simp [read, hb, hc]⟩)
  · refine .inl ⟨hb, ?_⟩
    rw [read, if_pos hb]
    rfl

theorem drainChunks_flatten (l : List ByteArray8) : ∀ n,
    (drainChunks l n).1.flatten ++ (drainChunks l n).2.flatten = l.flatten := by
  induction l with
  | nil => exact fun _ => rfl
  | cons chunk rest ih =>
      intro n
      unfold drainChunks
      split
      · rfl
      · split
        · simp only [List.flatten_cons, List.append_assoc, ih]
        · simp only [List.flatten_cons, List.flatten_nil, List.append_nil, ← List.append_assoc,
            List.take_append_drop]

end PipeState

end SecureExec.Kernel
