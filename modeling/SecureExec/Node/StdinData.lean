import SecureExec.Node.Exit

/-!
# Node — StdinData — what a process gets of its standard input

The two ways in which `spawn` of the Node runtime driver hands on what `writeStdin` is given.  A
batch process gets one text, which a promise made up of what was written resolves to before it
starts.  A streaming process reads: a queue and one waiter hand on each chunk.

* `step`: the calls, the microtask of a batch process, its start, and the reads of a process.
* `Timely`: what a step has to meet so that nothing is lost.
* `stdin_delivered`: in a run of such steps the process gets what was written, in order and once,
  and then the end; every read is answered but one that there is nothing for yet.
-/

namespace NodeDriver.Input
open Lts

abbrev Chunk := List UInt8

variable {T : Type}

/-- A batch process.  `promise` is what `batchStdinPromise` was resolved with, a text in `T` or
`undefined`. -/
structure Batch (T : Type) where
  chunks : List Chunk
  /-- The microtask has not run. -/
  scheduled : Bool
  promise : Option (Option T)
  started : Bool
  deriving DecidableEq

/-- A streaming process; `stdinWaiter` is the read that waits. -/
structure Live where
  stdinQueue : List Chunk
  stdinClosed : Bool
  stdinWaiter : Option ℕ
  deriving DecidableEq

inductive Source (T : Type) where
  | batch (b : Batch T)
  | live (l : Live)
  deriving DecidableEq

/-- A process with its standard input; `reads` counts its calls of `kernelStdinRead`. -/
structure Process (T : Type) where
  source : Source T
  closed : Bool
  reads : ℕ
  deriving DecidableEq

inductive Event where
  | writeStdin (data : Chunk)
  | closeStdin
  | microtask
  /-- A batch process, whose entry is found, starts. -/
  | start
  | read
  deriving DecidableEq

inductive Note (T : Type) where
  /-- A chunk was written before the close. -/
  | wrote (data : Chunk)
  /-- The process was started with a text, or with none. -/
  | started (stdin : Option T)
  /-- A read was answered, with data or with the end. -/
  | answered (read : ℕ) (data : Option Chunk)
  deriving DecidableEq

/-- What `kernelStdinRead` makes of a chunk, or of none. -/
def kernelStdinRead : Option Chunk → Option Chunk
  | none => none
  | some chunk => if chunk.length = 0 then none else some chunk

/-- `decode` is `new TextDecoder().decode`. -/
def Batch.close (decode : Chunk → T) (b : Batch T) : Batch T :=
  match b.promise with
  | some _ => b
  | none =>
    { b with promise := some (if b.chunks.length = 0 then none else some (decode b.chunks.flatten)) }

def Batch.microtask (b : Batch T) : Batch T :=
  match b.promise with
  | some _ => { b with scheduled := false }
  | none =>
    { b with
      scheduled := false
      promise := if b.chunks.length = 0 then some none else none }

/-- `streamWriteStdin`, with the read that it answers. -/
def Live.write (l : Live) (data : Chunk) : Live × List (ℕ × Option Chunk) :=
  if l.stdinClosed then (l, [])
  else
    match l.stdinWaiter with
    | some i => ({ l with stdinWaiter := none }, [(i, kernelStdinRead (some data))])
    | none => ({ l with stdinQueue := l.stdinQueue ++ [data] }, [])

/-- `streamCloseStdin`. -/
def Live.close (l : Live) : Live × List (ℕ × Option Chunk) :=
  if l.stdinClosed then (l, [])
  else
    match l.stdinWaiter with
    | some i =>
      ({ l with stdinClosed := true, stdinWaiter := none }, [(i, kernelStdinRead none)])
    | none => ({ l with stdinClosed := true }, [])

/-- `stdinLiveSource.read`, for the read with number `i`. -/
def Live.read (l : Live) (i : ℕ) : Live × List (ℕ × Option Chunk) :=
  match l.stdinQueue with
  | chunk :: rest => ({ l with stdinQueue := rest }, [(i, kernelStdinRead (some chunk))])
  | [] =>
    if l.stdinClosed then (l, [(i, kernelStdinRead none)])
    else ({ l with stdinWaiter := some i }, [])

def answered (as : List (ℕ × Option Chunk)) : List (Note T) :=
  as.map fun a => .answered a.1 a.2

namespace Process

def spawn (streamStdin : Bool) : Process T where
  source := if streamStdin then .live ⟨[], false, none⟩ else .batch ⟨[], true, none, false⟩
  closed := false
  reads := 0

/-- The note of a chunk, if it was written before the close. -/
def wrote (s : Process T) (data : Chunk) : List (Note T) := if s.closed then [] else [.wrote data]

def step (decode : Chunk → T) (s : Process T) : Event → Option (Process T × List (Note T))
  | .writeStdin data =>
    match s.source with
    | .batch b =>
      some ({ s with source := .batch { b with chunks := b.chunks ++ [data] } }, s.wrote data)
    | .live l => some ({ s with source := .live (l.write data).1 }, s.wrote data ++ answered (l.write data).2)
  | .closeStdin =>
    match s.source with
    | .batch b => some ({ s with source := .batch (b.close decode), closed := true }, [])
    | .live l => some ({ s with source := .live l.close.1, closed := true }, answered l.close.2)
  | .microtask =>
    match s.source with
    | .batch b => if b.scheduled then some ({ s with source := .batch b.microtask }, []) else none
    | .live _ => none
  | .start =>
    match s.source with
    | .batch b =>
      match b.promise with
      | some stdin =>
        if b.started then none
        else some ({ s with source := .batch { b with started := true } }, [.started stdin])
      | none => none
    | .live _ => none
  | .read =>
    match s.source with
    -- a batch process has no live source
    | .batch _ => some ({ s with reads := s.reads + 1 }, [.answered s.reads none])
    | .live l =>
      some ({ s with source := .live (l.read s.reads).1, reads := s.reads + 1 },
        answered (l.read s.reads).2)

end Process

/-! ### What is written and what is read -/

/-- The bytes that were written before the close. -/
def written (notes : List (Note T)) : List UInt8 :=
  notes.flatMap fun n => match n with
    | .wrote data => data
    | _ => []

/-- The answers to the reads, in order. -/
def answers (notes : List (Note T)) : List (ℕ × Option Chunk) :=
  notes.filterMap fun n => match n with
    | .answered i data => some (i, data)
    | _ => none

/-- What the process was started with. -/
def starts (notes : List (Note T)) : List (Option T) :=
  notes.filterMap fun n => match n with
    | .started stdin => some stdin
    | _ => none

@[simp] theorem written_append (notes more : List (Note T)) :
    written (notes ++ more) = written notes ++ written more := List.flatMap_append

@[simp] theorem answers_append (notes more : List (Note T)) :
    answers (notes ++ more) = answers notes ++ answers more := List.filterMap_append

@[simp] theorem starts_append (notes more : List (Note T)) :
    starts (notes ++ more) = starts notes ++ starts more := List.filterMap_append

section Notes

variable (notes : List (Note T)) (data : Chunk) (i : ℕ) (answer : Option Chunk) (stdin : Option T)

@[simp] theorem written_nil : written ([] : List (Note T)) = [] := rfl
@[simp] theorem answers_nil : answers ([] : List (Note T)) = [] := rfl
@[simp] theorem starts_nil : starts ([] : List (Note T)) = [] := rfl
@[simp] theorem written_wrote : written (.wrote data :: notes) = data ++ written notes := rfl
@[simp] theorem written_started : written (.started stdin :: notes) = written notes := rfl
@[simp] theorem written_answered : written (.answered i answer :: notes) = written notes := rfl
@[simp] theorem answers_wrote : answers (.wrote data :: notes) = answers notes := rfl
@[simp] theorem answers_answered :
    answers (.answered i answer :: notes) = (i, answer) :: answers notes := rfl
@[simp] theorem starts_wrote : starts (.wrote data :: notes) = starts notes := rfl
@[simp] theorem starts_started :
    starts (.started stdin :: notes) = stdin :: starts notes := rfl
@[simp] theorem answered_nil : (answered [] : List (Note T)) = [] := rfl
@[simp] theorem answered_cons (as : List (ℕ × Option Chunk)) :
    (answered ((i, answer) :: as) : List (Note T)) = .answered i answer :: answered as := rfl
@[simp] theorem starts_answered : starts (.answered i answer :: notes) = starts notes := rfl

end Notes

/-- A text, or none, for what was written. -/
def Renders (decode : Chunk → T) (stdin : Option T) (data : List UInt8) : Prop :=
  match stdin with
  | some text => text = decode data
  | none => data = []

/-- What a batch process is given: by the close there is a text, of all that was written, and it is
what the process starts with. -/
structure Batch.Delivered (decode : Chunk → T) (b : Batch T) (closed : Bool)
    (notes : List (Note T)) : Prop where
  promise : closed = true → ∃ stdin, b.promise = some stdin ∧ Renders decode stdin (written notes)
  starts : starts notes = if b.started then b.promise.toList else []

/-- What a streaming process is given: the chunks that it read and those in the queue are all that
was written; after the last comes the end, and only after the close; and each read is answered, once
and in order, but the last when there is nothing for it and no close. -/
structure Live.Delivered (l : Live) (reads : ℕ) (notes : List (Note T)) : Prop where
  data : ∃ (chunks : List Chunk) (ends : ℕ),
    (answers notes).map Prod.snd = chunks.map some ++ List.replicate ends none ∧
    chunks.flatten ++ l.stdinQueue.flatten = written notes ∧
    (0 < ends → l.stdinClosed = true ∧ l.stdinQueue = [])
  reads : (answers notes).map Prod.fst ++ l.stdinWaiter.toList = List.range reads
  waiter : ∀ i, l.stdinWaiter = some i → l.stdinQueue = [] ∧ l.stdinClosed = false

def Process.Delivered (decode : Chunk → T) (s : Process T) (notes : List (Note T)) : Prop :=
  match s.source with
  | .batch b => b.Delivered decode s.closed notes
  | .live l => l.Delivered s.reads notes ∧ l.stdinClosed = s.closed

/-- The steps that lose nothing.  What a batch process is written comes before its microtask finds
that there is nothing, or is empty; a streaming process is written no empty chunk, and reads when it
does not wait for a read. -/
def Process.Timely (s : Process T) : Event → Prop
  | .writeStdin data =>
    s.closed = true ∨
    match s.source with
    | .batch b => b.promise = none ∨ data = []
    | .live _ => data ≠ []
  | .read =>
    match s.source with
    | .batch _ => True
    | .live l => l.stdinWaiter = none
  | _ => True

/-! ### A batch process -/

variable {decode : Chunk → T}

/-- What a run keeps of a batch process. -/
structure Batch.Sound (decode : Chunk → T) (b : Batch T) (closed : Bool) (notes : List (Note T)) :
    Prop where
  pending : b.promise = none → closed = false ∧ b.chunks.flatten = written notes
  resolved : ∀ stdin, b.promise = some stdin → Renders decode stdin (written notes)
  started : b.started = true → b.promise ≠ none
  starts : starts notes = if b.started then b.promise.toList else []

variable {b : Batch T} {closed : Bool} {notes : List (Note T)}

theorem Batch.Sound.delivered
    (h : b.Sound decode closed notes) : b.Delivered decode closed notes where
  promise := by
    intro hc
    cases hp : b.promise with
    | none =>
        rw [(h.pending hp).1] at hc
        cases hc
    | some stdin => exact ⟨stdin, rfl, h.resolved stdin hp⟩
  starts := h.starts

theorem Batch.Sound.write (h : b.Sound decode false notes)
    {data : Chunk} (hd : b.promise = none ∨ data = []) :
    Batch.Sound decode { b with chunks := b.chunks ++ [data] } false (notes ++ [.wrote data]) where
  pending := by
    intro hp
    simp [(h.pending hp).2]
  resolved := by
    intro stdin hp
    rcases hd with hn | rfl
    · rw [hn] at hp
      cases hp
    · simpa using h.resolved stdin hp
  started := h.started
  starts := by simpa using h.starts

/-- What is written after the close is not counted. -/
theorem Batch.Sound.write_closed (h : b.Sound decode true notes)
    (data : Chunk) : Batch.Sound decode { b with chunks := b.chunks ++ [data] } true notes where
  pending := fun hp => nomatch (h.pending hp).1
  resolved := h.resolved
  started := h.started
  starts := h.starts

section

variable (h : b.Sound decode closed notes)
include h

theorem Batch.Sound.close : (b.close decode).Sound decode true notes := by
  rw [Batch.close]
  split
  · rename_i stdin hp
    refine ⟨fun hn => ?_, h.resolved, h.started, h.starts⟩
    rw [hp] at hn
    cases hn
  · rename_i hp
    refine ⟨fun hn => (nomatch hn), fun stdin hs => ?_, fun _ => by simp, ?_⟩
    · cases hs
      have hw := (h.pending hp).2
      split
      · rename_i hz
        rw [List.length_eq_zero_iff.mp hz] at hw
        exact hw.symm
      · rw [hw]
        rfl
    · have hst : b.started = false := by
        cases hb : b.started with
        | false => rfl
        | true => exact absurd hp (h.started hb)
      simpa [hst] using h.starts

theorem Batch.Sound.microtask : b.microtask.Sound decode closed notes := by
  rw [Batch.microtask]
  split
  · exact ⟨h.pending, h.resolved, h.started, h.starts⟩
  · rename_i hp
    have hst : b.started = false := by
      cases hb : b.started with
      | false => rfl
      | true => exact absurd hp (h.started hb)
    obtain ⟨hc, hw⟩ := h.pending hp
    refine ⟨fun _ => ⟨hc, hw⟩, fun stdin hs => ?_, fun hb => ?_, ?_⟩
    · simp only at hs
      split at hs
      · rename_i hz
        cases hs
        rw [List.length_eq_zero_iff.mp hz] at hw
        exact hw.symm
      · cases hs
    · rw [hst] at hb
      cases hb
    · simpa [hst] using h.starts

theorem Batch.Sound.start {stdin : Option T} (hp : b.promise = some stdin)
    (hb : b.started = false) :
    Batch.Sound decode { b with started := true } closed (notes ++ [.started stdin]) where
  pending := fun hn => by simp [hp] at hn
  resolved := by simpa using h.resolved
  started := fun _ => by simp [hp]
  starts := by
    have hs := h.starts
    rw [hb] at hs
    simpa [hp] using hs

end

/-! ### A streaming process -/

/-- What a run keeps of a streaming process. -/
structure Live.Sound (l : Live) (reads : ℕ) (notes : List (Note T)) : Prop
    extends l.Delivered reads notes where
  nonempty : ∀ chunk ∈ l.stdinQueue, chunk ≠ []

theorem kernelStdinRead_some {chunk : Chunk} (h : chunk ≠ []) :
    kernelStdinRead (some chunk) = some chunk := by
  rw [kernelStdinRead, if_neg (fun hz => h (List.length_eq_zero_iff.mp hz))]

variable {l : Live} {reads : ℕ}

/-- An open stream has answered no read with the end. -/
theorem Live.Delivered.chunks
    (h : l.Delivered reads notes) (ho : l.stdinClosed = true → l.stdinQueue ≠ []) :
    ∃ chunks : List Chunk, (answers notes).map Prod.snd = chunks.map some ∧
      chunks.flatten ++ l.stdinQueue.flatten = written notes := by
  obtain ⟨chunks, ends, ha, hw, he⟩ := h.data
  have hz : ends = 0 := by
    by_contra hne
    obtain ⟨hc, hq⟩ := he (Nat.pos_of_ne_zero hne)
    exact ho hc hq
  subst hz
  exact ⟨chunks, by simpa using ha, hw⟩

theorem Live.Sound.write (h : l.Sound reads notes)
    {data : Chunk} (ho : l.stdinClosed = false) (hd : data ≠ []) :
    (l.write data).1.Sound reads (notes ++ .wrote data :: answered (l.write data).2) := by
  obtain ⟨chunks, ha, hw⟩ := h.chunks (fun hc => by rw [ho] at hc; cases hc)
  rw [Live.write, ho, if_neg Bool.false_ne_true]
  cases hwait : l.stdinWaiter with
  | some i =>
      obtain ⟨hq, -⟩ := h.waiter i hwait
      have hr := h.reads
      rw [hwait] at hr
      refine ⟨⟨⟨chunks ++ [data], 0, ?_, ?_, fun hz => absurd hz (Nat.lt_irrefl 0)⟩, ?_,
        fun _ hn => by cases hn⟩, h.nonempty⟩
      · simp [ha, kernelStdinRead_some hd]
      · simpa [hq] using hw
      · simpa using hr
  | none =>
      have hr := h.reads
      rw [hwait] at hr
      refine ⟨⟨⟨chunks, 0, ?_, ?_, fun hz => absurd hz (Nat.lt_irrefl 0)⟩, ?_, ?_⟩, ?_⟩
      · simpa using ha
      · simp [← hw]
      · simpa [hwait] using hr
      · intro i hi
        simp at hi
      · intro chunk hc
        rcases List.mem_append.mp hc with hc | hc
        · exact h.nonempty chunk hc
        · rw [List.mem_singleton.mp hc]
          exact hd

theorem Live.write_closed (hc : l.stdinClosed = true) (data : Chunk) :
    l.write data = (l, []) := by
  rw [Live.write, if_pos hc]

theorem Live.Sound.close (h : l.Sound reads notes) :
    l.close.1.Sound reads (notes ++ answered l.close.2) := by
  rw [Live.close]
  split
  · simpa using h
  · rename_i ho
    rw [Bool.not_eq_true] at ho
    obtain ⟨chunks, ha, hw⟩ := h.chunks (fun hc => by rw [ho] at hc; cases hc)
    have hr := h.reads
    cases hwait : l.stdinWaiter with
    | some i =>
        obtain ⟨hq, -⟩ := h.waiter i hwait
        rw [hwait] at hr
        refine ⟨⟨⟨chunks, 1, ?_, ?_, fun _ => ⟨rfl, hq⟩⟩, ?_, fun _ hn => by cases hn⟩, h.nonempty⟩
        · simp [ha, kernelStdinRead]
        · simpa using hw
        · simpa using hr
    | none =>
        rw [hwait] at hr
        refine ⟨⟨⟨chunks, 0, ?_, ?_, fun hz => absurd hz (Nat.lt_irrefl 0)⟩, ?_,
          fun _ hn => by simp at hn⟩, h.nonempty⟩
        · simpa using ha
        · simpa using hw
        · simpa [hwait] using hr

theorem Live.Sound.read (h : l.Sound reads notes)
    (hwait : l.stdinWaiter = none) :
    (l.read reads).1.Sound (reads + 1) (notes ++ answered (l.read reads).2) := by
  have hr := h.reads
  rw [hwait, Option.toList_none, List.append_nil] at hr
  rw [Live.read]
  split
  · rename_i chunk rest hq
    obtain ⟨chunks, ha, hw⟩ := h.chunks (fun _ => by simp [hq])
    have hc : chunk ≠ [] := h.nonempty chunk (by simp [hq])
    refine ⟨⟨⟨chunks ++ [chunk], 0, ?_, ?_, fun hz => absurd hz (Nat.lt_irrefl 0)⟩, ?_, ?_⟩, ?_⟩
    · simp [ha, kernelStdinRead_some hc]
    · simpa [hq] using hw
    · simpa [hwait, List.range_succ] using hr
    · intro i hi
      simp [hwait] at hi
    · exact fun c hm => h.nonempty c (by simp [hq, hm])
  · rename_i hq
    split
    · rename_i hc
      obtain ⟨chunks, ends, ha, hw, -⟩ := h.data
      refine ⟨⟨⟨chunks, ends + 1, ?_, ?_, fun _ => ⟨hc, hq⟩⟩, ?_, ?_⟩, h.nonempty⟩
      · simp [ha, kernelStdinRead, List.replicate_succ']
      · simpa using hw
      · simpa [hwait, List.range_succ] using hr
      · intro i hi
        simp [hwait] at hi
    · rename_i ho
      rw [Bool.not_eq_true] at ho
      refine ⟨⟨?_, ?_, fun i hi => ⟨hq, ho⟩⟩, h.nonempty⟩
      · simpa using h.data
      · simp [List.range_succ, hr]

/-! ### Runs -/

/-- What a run keeps. -/
def Process.Sound (decode : Chunk → T) (s : Process T) (notes : List (Note T)) : Prop :=
  match s.source with
  | .batch b => b.Sound decode s.closed notes
  | .live l => l.Sound s.reads notes ∧ l.stdinClosed = s.closed

theorem Live.closed_write (l : Live) (data : Chunk) :
    (l.write data).1.stdinClosed = l.stdinClosed := by
  rw [Live.write]
  split
  · rfl
  · split <;> rfl

theorem Live.closed_close (l : Live) : l.close.1.stdinClosed = true := by
  rw [Live.close]
  split
  · assumption
  · split <;> rfl

theorem Live.closed_read (l : Live) (i : ℕ) : (l.read i).1.stdinClosed = l.stdinClosed := by
  rw [Live.read]
  split
  · rfl
  · split <;> rfl

theorem Process.Sound.spawn (streamStdin : Bool) :
    (spawn streamStdin).Sound decode [] := by
  cases streamStdin with
  | false => exact ⟨fun _ => ⟨rfl, rfl⟩, fun _ h => (nomatch h), fun h => (nomatch h), rfl⟩
  | true =>
      exact ⟨⟨⟨⟨[], 0, rfl, rfl, fun h => absurd h (Nat.lt_irrefl 0)⟩, rfl, fun _ h => (nomatch h)⟩,
        fun _ h => (nomatch h)⟩, rfl⟩

theorem Process.Sound.step {s t : Process T} {more : List (Note T)} {e : Event}
    (h : s.Sound decode notes) (ht : s.Timely e) (hs : s.step decode e = some (t, more)) :
    t.Sound decode (notes ++ more) := by
  obtain ⟨source, closed, reads⟩ := s
  cases source with
  | batch b =>
      replace h : b.Sound decode closed notes := h
      cases e with
      | writeStdin data =>
          cases hs
          cases closed with
          | true =>
              rw [wrote, if_pos rfl, List.append_nil]
              exact h.write_closed data
          | false =>
              have hd : b.promise = none ∨ data = [] := ht.resolve_left Bool.false_ne_true
              exact h.write hd
      | closeStdin =>
          cases hs
          rw [List.append_nil]
          exact h.close
      | microtask =>
          simp only [Process.step, Option.ite_none_right_eq_some] at hs
          cases hs.2
          rw [List.append_nil]
          exact h.microtask
      | start =>
          simp only [Process.step] at hs
          split at hs
          · rename_i stdin hp
            simp only [Option.ite_none_left_eq_some, Bool.not_eq_true] at hs
            obtain ⟨hb, hs⟩ := hs
            cases hs
            exact h.start hp hb
          · cases hs
      | read =>
          cases hs
          refine ⟨?_, ?_, h.started, ?_⟩
          · simpa using h.pending
          · simpa using h.resolved
          · simpa using h.starts
  | live l =>
      obtain ⟨h, hc⟩ : l.Sound reads notes ∧ l.stdinClosed = closed := h
      cases e with
      | writeStdin data =>
          cases hs
          cases closed with
          | true =>
              rw [wrote, if_pos rfl, l.write_closed hc, answered_nil, List.append_nil,
                List.append_nil]
              exact ⟨h, hc⟩
          | false =>
              have hd : data ≠ [] := ht.resolve_left Bool.false_ne_true
              exact ⟨h.write hc hd, (l.closed_write data).trans hc⟩
      | closeStdin =>
          cases hs
          exact ⟨h.close, l.closed_close⟩
      | microtask | start => cases hs
      | read =>
          cases hs
          exact ⟨h.read ht, (l.closed_read reads).trans hc⟩

/-- **No byte of standard input is lost**, in batch or in streaming mode and at whatever times the
process is written to, closed, started and reads, as long as the steps are timely. -/
theorem stdin_delivered (streamStdin : Bool) {s : Process T} {notes : List (Note T)}
    (r : Reach (recorded (Process.step decode)) (fun p e => p.1.Timely e)
      (Process.spawn streamStdin, []) (s, notes)) : s.Delivered decode notes := by
  have h : s.Sound decode notes := by
    refine r.invariant (I := fun p => p.1.Sound decode p.2) (.spawn streamStdin) ?_
    rintro ⟨s, notes⟩ e p hso ht h
    obtain ⟨⟨t, more⟩, hs, rfl⟩ := recorded_eq_some.mp h
    exact hso.step ht hs
  obtain ⟨source, closed, reads⟩ := s
  cases source with
  | batch b => exact Batch.Sound.delivered h
  | live l => exact ⟨h.1.toDelivered, h.2⟩

/-- A streaming process that waits when the first of two chunks is written, and reads on after the
close. -/
theorem stdin_delivered_two :
    ∃ (s : Process String) (notes : List (Note String)),
      Reach (recorded (Process.step fun _ => "")) (fun p e => p.1.Timely e)
        (Process.spawn true, []) (s, notes) ∧
      answers notes = [(0, some [1]), (1, some [2]), (2, none)] ∧
      s.Delivered (fun _ => "") notes := by
  let w : List (Note String) := [.wrote [1], .answered 0 (some [1])]
  let w' : List (Note String) := w ++ [.wrote [2]]
  let w'' : List (Note String) := w' ++ [.answered 1 (some [2])]
  have r : Reach (recorded (Process.step fun _ => "")) (fun p e => p.1.Timely e)
      (Process.spawn true, [])
      (⟨.live ⟨[], true, none⟩, true, 3⟩,
        w'' ++ [.answered 2 none]) := by
    refine .next (t := (⟨.live ⟨[], true, none⟩, true, 2⟩, w'')) (a := .read) ?_ (by exact rfl) rfl
    refine .next (t := (⟨.live ⟨[[2]], true, none⟩, true, 1⟩, w')) (a := .read) ?_ (by exact rfl) rfl
    refine .next (t := (⟨.live ⟨[[2]], false, none⟩, false, 1⟩, w')) (a := .closeStdin) ?_
      trivial rfl
    refine .next (t := (⟨.live ⟨[], false, none⟩, false, 1⟩, w)) (a := .writeStdin [2]) ?_
      (.inr (by simp)) rfl
    refine .next (t := (⟨.live ⟨[], false, some 0⟩, false, 1⟩, [])) (a := .writeStdin [1]) ?_
      (.inr (by simp)) rfl
    exact .next (a := .read) .start rfl rfl
  exact ⟨_, _, r, rfl, stdin_delivered true r⟩

/-- What is written to a batch process after its microtask is lost: the process is started with
none of it.  A streaming process that is written an empty chunk is told that its input is at an end,
and with two reads at once the first is never answered. -/
theorem stdin_lost :
    (∃ (s : Process String) (notes : List (Note String)),
      Reach (recorded (Process.step fun _ => "h")) Any (Process.spawn false, []) (s, notes) ∧
      s.closed = true ∧ written notes = [104] ∧ starts notes = [none]) ∧
    (∃ (s : Process String) (notes : List (Note String)),
      Reach (recorded (Process.step fun _ => "")) Any (Process.spawn true, []) (s, notes) ∧
      s.closed = false ∧ written notes = [104] ∧ answers notes = [(0, none)]) ∧
    ∃ (s : Process String) (notes : List (Note String)),
      Reach (recorded (Process.step fun _ => "")) Any (Process.spawn true, []) (s, notes) ∧
      s.closed = true ∧ s.reads = 2 ∧ answers notes = [(1, none)] := by
  have h₁ : exec (recorded (Process.step fun _ => "h")) (Process.spawn false, [])
      [.microtask, .writeStdin [104], .closeStdin, .start] =
      some (⟨.batch ⟨[[104]], false, some none, true⟩, true, 0⟩,
        [.wrote [104], .started none]) := rfl
  have h₂ : exec (recorded (Process.step fun _ => "")) (Process.spawn true, [])
      [.writeStdin [], .writeStdin [104], .read] =
      some (⟨.live ⟨[[104]], false, none⟩, false, 1⟩,
        [.wrote [], .wrote [104], .answered 0 none]) := rfl
  have h₃ : exec (recorded (Process.step fun _ => "")) (Process.spawn true, [])
      [.read, .read, .closeStdin] =
      some (⟨.live ⟨[], true, none⟩, true, 2⟩, [.answered 1 none]) := rfl
  exact ⟨⟨_, _, .of_exec h₁, rfl, rfl, rfl⟩, ⟨_, _, .of_exec h₂, rfl, rfl, rfl⟩,
    ⟨_, _, .of_exec h₃, rfl, rfl, rfl⟩⟩

end NodeDriver.Input
