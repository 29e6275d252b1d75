import SecureExec.Kernel.TtyRun

/-!
# Kernel — TtyWrites — rejected writes and split writes

* `perform_ok_iff`: actions are all done when each chunk has a read that waits for it, or room, and
  this can be counted beforehand (`Fits`).
* `write_atomic_iff`: a rejected write changes nothing exactly when the first thing it does to the
  terminal is the chunk that does not fit (`Clean`).
* `writes_split_iff`: writes one after the other are the single write, but for a line feed that
  starts a slave's write behind a carriage return of an earlier one.
-/

namespace SecureExec.Kernel
open SecureExec Lts

namespace Terminal
open TtyAction (apply perform after afterAll target)

variable {t t' : Terminal} {side s : PtyEnd} {as bs : List TtyAction} {a : TtyAction}
  {answer : Nat → Nat} {data chunk : ByteArray8}

/-! ### What fits -/

/-- The chunks for an end. -/
def chunksTo (side : PtyEnd) (as : List TtyAction) : List ByteArray8 :=
  as.filterMap fun a =>
    match a.target with
    | some (s, chunk) => if s = side then some chunk else none
    | none => none

/-- The chunk of the action has a read that waits for it, or room. -/
def FitsAt (a : TtyAction) (t : Terminal) : Prop :=
  ∀ p ∈ a.target, t.waiters p.1 = [] →
    bufferBytes (t.buffer p.1) + p.2.length ≤ MAX_PTY_BUFFER_BYTES

/-- The chunks that no read waits for have room together. -/
def Fits (as : List TtyAction) (t : Terminal) : Prop :=
  ∀ side, (chunksTo side as).drop (t.waiters side).length ≠ [] →
    bufferBytes (t.buffer side) + bufferBytes ((chunksTo side as).drop (t.waiters side).length) ≤
      MAX_PTY_BUFFER_BYTES

theorem apply_ok_iff : (∃ t', a.apply t = .ok t') ↔ FitsAt a t := by
  constructor
  · rintro ⟨t', h⟩ p hp hw
    obtain ⟨hn, -⟩ | ⟨side, chunk, ht, hd⟩ := apply_cases h
    · rw [hn] at hp
      cases hp
    · rw [ht] at hp
      cases hp
      cases hd with
      | direct hw' =>
          rw [hw] at hw'
          cases hw'
      | buffered _ hf => exact hf
  · intro h
    cases ha : a.apply t with
    | ok t' => exact ⟨t', rfl⟩
    | error e =>
        obtain ⟨-, side, chunk, ht, hw, hf⟩ := apply_error ha
        exact absurd (h _ ht hw) (Nat.not_le_of_lt hf)

theorem chunksTo_cons (s : PtyEnd) (a : TtyAction) (as : List TtyAction) :
    chunksTo s (a :: as) =
      (match a.target with
        | some (s', chunk) => if s' = s then [chunk] else []
        | none => []) ++ chunksTo s as := by
  rw [chunksTo, List.filterMap_cons]
  cases a.target with
  | none => rfl
  | some p =>
      by_cases h : p.1 = s
      · simp [h, chunksTo]
      · simp [h, chunksTo]

theorem bufferBytes_append (b c : List ByteArray8) :
    bufferBytes (b ++ c) = bufferBytes b + bufferBytes c := by
  simp [bufferBytes]

/-- What is done of the chunks is seen in the buffers and in the reads that wait. -/
theorem apply_fits (h : a.apply t = .ok t') (as : List TtyAction) :
    Fits (a :: as) t ↔ Fits as t' := by
  obtain ⟨hn, rfl⟩ | ⟨side, chunk, ht, hd⟩ := apply_cases h
  · have hb : ∀ s, (a.after t).buffer s = t.buffer s := by
      intro s
      cases a <;> cases s <;> rfl
    have hw : ∀ s, (a.after t).waiters s = t.waiters s := by
      intro s
      cases a <;> cases s <;> rfl
    simp only [Fits, chunksTo_cons, hn, hb, hw, List.nil_append]
  · have hother : ∀ s, side ≠ s → chunksTo s (a :: as) = chunksTo s as := by
      intro s hs
      rw [chunksTo_cons, ht]
      simp [hs]
    have hself : chunksTo side (a :: as) = chunk :: chunksTo side as := by
      rw [chunksTo_cons, ht]
      simp
    refine forall_congr' fun s => ?_
    by_cases hs : side = s
    · subst hs
      rw [hself]
      cases hd with
      | direct hw => simp [hw]
      | buffered hw hf =>
          simp only [hw, List.length_nil, List.drop_zero, ne_eq, reduceCtorEq, not_false_eq_true,
            forall_const, waiters_setBuffer, buffer_setBuffer, if_true, bufferBytes_append]
          have hc : bufferBytes (chunk :: chunksTo side as) =
              chunk.length + bufferBytes (chunksTo side as) := by simp [bufferBytes]
          have hone : bufferBytes [chunk] = chunk.length := by simp [bufferBytes]
          rw [hc, hone]
          constructor
          · intro h _
            omega
          · intro h
            by_cases hnil : chunksTo side as = []
            · rw [hnil]
              simpa [bufferBytes] using hf
            · have := h hnil
              omega
    · rw [hother s hs]
      have hw : t'.waiters s = t.waiters s := by
        cases hd with
        | direct hw => simp [Ne.symm hs]
        | buffered hw hf => simp
      have hb : t'.buffer s = t.buffer s := by
        cases hd with
        | direct hw => simp
        | buffered hw hf => simp [Ne.symm hs]
      rw [hw, hb]

/-- **Whether a list of actions is done in full can be counted beforehand.** -/
theorem perform_ok_iff : (∃ t', perform as t = (.ok (), t')) ↔ Fits as t := by
  induction as generalizing t with
  | nil =>
      refine ⟨fun _ side hne => absurd ?_ hne, fun _ => ⟨t, rfl⟩⟩
      simp [chunksTo]
  | cons a as ih =>
      rw [perform]
      cases ha : a.apply t with
      | ok t' => exact ih.trans (apply_fits ha as).symm
      | error e =>
          refine ⟨fun h => (by cases h.choose_spec), fun h => ?_⟩
          obtain ⟨-, side, chunk, ht, hw, hf⟩ := apply_error ha
          have hself : chunksTo side (a :: as) = chunk :: chunksTo side as := by
            rw [chunksTo_cons, ht]
            simp
          have := h side (by simp [hself, hw])
          rw [hself, hw] at this
          simp only [bufferBytes, List.length_nil, List.drop_zero, List.map_cons,
            List.sum_cons] at this hf
          omega

/-- The chunk that is rejected, behind what is done. -/
theorem perform_error {e : Failure} (h : perform as t = (.error e, t')) :
    ∃ pre a post, as = pre ++ a :: post ∧ perform pre t = (.ok (), t') ∧ a.apply t' = .error e := by
  induction as generalizing t with
  | nil => cases h
  | cons a as ih =>
      rw [perform] at h
      cases ha : a.apply t with
      | ok u =>
          rw [ha] at h
          obtain ⟨pre, b, post, rfl, hp, hb⟩ := ih h
          refine ⟨a :: pre, b, post, rfl, ?_, hb⟩
          rw [perform, ha]
          exact hp
      | error e' =>
          rw [ha] at h
          cases h
          exact ⟨[], a, as, rfl, rfl, ha⟩

/-! ### Rejected writes -/

/-- Nothing that a caller could see twice has changed. -/
structure Unchanged (t t' : Terminal) : Prop where
  inputBuffer : t'.inputBuffer = t.inputBuffer
  outputBuffer : t'.outputBuffer = t.outputBuffer
  lineBuffer : t'.lineBuffer = t.lineBuffer
  inputWaiters : t'.inputWaiters = t.inputWaiters
  outputWaiters : t'.outputWaiters = t.outputWaiters
  signals : t'.signals = t.signals

/-- The actions only set the line, and in the end to what it is. -/
def Silent (as : List TtyAction) (t : Terminal) : Prop :=
  (∀ a ∈ as, ∃ l, a = .line l) ∧ (afterAll as t).lineBuffer = t.lineBuffer

/-- All is done, or what does not fit is the first thing that would be. -/
def Clean (as : List TtyAction) (t : Terminal) : Prop :=
  Fits as t ∨ ∃ pre a post, as = pre ++ a :: post ∧ Silent pre t ∧ ¬ FitsAt a t

theorem perform_silent (h : Silent as t) : perform as t = (.ok (), t) := by
  have hp : ∀ {as : List TtyAction} {u : Terminal}, (∀ a ∈ as, ∃ l, a = .line l) →
      perform as u = (.ok (), { u with lineBuffer := (afterAll as u).lineBuffer }) := by
    intro as
    induction as with
    | nil => exact fun _ => rfl
    | cons a as ih =>
        intro u hu
        obtain ⟨l, rfl⟩ := hu a List.mem_cons_self
        exact ih (u := { u with lineBuffer := l }) fun b hb => hu b (List.mem_cons_of_mem _ hb)
  rw [hp h.1, h.2]

/-- Chunks and signals leave a trace. -/
theorem perform_counts (h : perform as t = (.ok (), t')) :
    (∀ s, (t'.buffer s).length + (t.waiters s).length =
      (t.buffer s).length + (t'.waiters s).length + (chunksTo s as).length) ∧
    t'.signals.length = t.signals.length + (as.filter fun a => a matches .signal _).length := by
  induction as generalizing t with
  | nil =>
      cases h
      exact ⟨fun s => rfl, rfl⟩
  | cons a as ih =>
      rw [perform] at h
      cases ha : a.apply t with
      | error e =>
          rw [ha] at h
          cases h
      | ok u =>
          rw [ha] at h
          obtain ⟨h₁, h₂⟩ := ih h
          obtain ⟨hn, rfl⟩ | ⟨side, chunk, ht, hd⟩ := apply_cases ha
          · cases a with
            | line l =>
                refine ⟨fun s => ?_, h₂⟩
                have := h₁ s
                cases s <;> exact this
            | signal call =>
                refine ⟨fun s => ?_, ?_⟩
                · have := h₁ s
                  cases s <;> exact this
                · rw [h₂]
                  simp [after]
                  omega
            | input chunk => cases hn
            | output full chunk => cases hn
          · have hsig : u.signals = t.signals := by cases hd <;> simp
            refine ⟨fun s => ?_, ?_⟩
            · have := h₁ s
              rw [chunksTo_cons, ht]
              by_cases hs : side = s
              · subst hs
                cases hd with
                | direct hw =>
                    simp only [buffer_resolve, buffer_setWaiters, waiters_resolve,
                      waiters_setWaiters, if_true, hw, List.length_cons, List.length_append,
                      List.length_nil] at this ⊢
                    omega
                | buffered hw hf =>
                    simp only [buffer_setBuffer, waiters_setBuffer, if_true, hw,
                      List.length_append, List.length_cons, List.length_nil] at this ⊢
                    omega
              · cases hd with
                | direct hw => simpa [hs, Ne.symm hs] using this
                | buffered hw hf => simpa [hs, Ne.symm hs] using this
            · rw [h₂, hsig]
              cases a with
              | input chunk => rfl
              | output full chunk => rfl
              | line l => cases ht
              | signal call => cases ht

/-- Actions that leave no trace. -/
theorem silent_of_unchanged (h : perform as t = (.ok (), t')) (hu : Unchanged t t') :
    Silent as t := by
  obtain ⟨h₁, h₂⟩ := perform_counts h
  have hl : (afterAll as t).lineBuffer = t'.lineBuffer :=
    (congrArg (fun u : Terminal => u.lineBuffer) (view_perform h)).symm
  refine ⟨fun a ha => ?_, hl.trans hu.lineBuffer⟩
  rw [hu.signals] at h₂
  have hnone : ∀ s, chunksTo s as = [] := by
    intro s
    have := h₁ s
    have hb : t'.buffer s = t.buffer s := by
      cases s
      · exact hu.outputBuffer
      · exact hu.inputBuffer
    have hw : t'.waiters s = t.waiters s := by
      cases s
      · exact hu.outputWaiters
      · exact hu.inputWaiters
    rw [hb, hw] at this
    exact List.eq_nil_of_length_eq_zero (by omega)
  cases a with
  | line l => exact ⟨l, rfl⟩
  | input chunk =>
      have : chunk ∈ chunksTo .slave as := List.mem_filterMap.mpr ⟨_, ha, rfl⟩
      rw [hnone] at this
      cases this
  | output full chunk =>
      have : chunk ∈ chunksTo .master as := List.mem_filterMap.mpr ⟨_, ha, rfl⟩
      rw [hnone] at this
      cases this
  | signal call =>
      have : TtyAction.signal call ∈ as.filter fun a => a matches .signal _ :=
        List.mem_filter.mpr ⟨ha, rfl⟩
      have hnil := List.eq_nil_of_length_eq_zero (Nat.left_eq_add.mp h₂)
      rw [hnil] at this
      cases this

/-- **When a rejected write changes nothing.**  Exactly when it is done in full, or the first thing
it does is the chunk that does not fit. -/
theorem write_atomic_iff (t : Terminal) (side : PtyEnd) (answer : Nat → Nat) (data : ByteArray8) :
    (∀ msg t', (write side answer data).exec t = (.error (.kernelError .EAGAIN msg), t') →
      Unchanged t t') ↔ (t.Open → Clean (t.writeActions side answer data) t) := by
  by_cases ho : t.Open
  · have hex := write_eq ho side answer data
    constructor
    · intro h _
      rcases hr : perform (t.writeActions side answer data) t with ⟨e | u, t'⟩
      · rw [hr] at hex
        obtain ⟨pre, a, post, has, hp, hae⟩ := perform_error hr
        obtain ⟨⟨msg, rfl⟩, -⟩ := apply_error hae
        have hs : Silent pre t := silent_of_unchanged hp (h msg t' hex)
        have he : t' = t := by
          rw [perform_silent hs] at hp
          exact (Prod.mk.inj hp).2.symm
        refine .inr ⟨pre, a, post, has, hs, fun hf => ?_⟩
        obtain ⟨u, hu⟩ := apply_ok_iff.mpr hf
        rw [he, hu] at hae
        cases hae
      · exact .inl (perform_ok_iff.mp ⟨t', hr⟩)
    · intro h msg t' he
      rw [hex] at he
      rcases h ho with hf | ⟨pre, a, post, has, hs, hn⟩
      · obtain ⟨u, hu⟩ := perform_ok_iff.mpr hf
        rw [hu] at he
        cases he
      · have hp : perform (t.writeActions side answer data) t = perform (a :: post) t := by
          rw [has]
          exact perform_append_ok (perform_silent hs)
        rw [hp, perform] at he
        cases ha : a.apply t with
        | ok u => exact absurd (apply_ok_iff.mp ⟨u, ha⟩) hn
        | error e =>
            rw [ha] at he
            cases he
            exact ⟨rfl, rfl, rfl, rfl, rfl, rfl⟩
  · refine ⟨fun _ h => absurd h ho, fun _ msg t' he => ?_⟩
    obtain ⟨msg', hc⟩ := write_closed ho side answer data
    rw [hc] at he
    cases he

/-- A master's write when the output is full: the character stays in the line. -/
theorem write_echo_rejected {d : ByteArray8} (hd : d.length = MAX_PTY_BUFFER_BYTES)
    (answer : Nat → Nat) (ho : t.Open) (ht : t.termios = { defaultTermios with opost := false })
    (hw : t.outputWaiters = []) (hb : t.outputBuffer = [d]) (hl : t.lineBuffer = []) :
    (write .master answer [0x61]).exec t =
      (.error (.kernelError .EAGAIN "PTY output buffer full (echo backpressure)"),
        { t with lineBuffer := [0x61] }) := by
  have ha : t.writeActions .master answer [0x61] =
      [.line [0x61], .output "PTY output buffer full (echo backpressure)" [0x61]] := by
    have hs : t.signalOf (translate true 0x61) = none := by
      rw [signalOf, signalForByte, ht]
      rfl
    have hbyte : t.byteActions answer 0x61 =
        [.line [0x61], .output "PTY output buffer full (echo backpressure)" [0x61]] := by
      rw [byteActions, ht]
      simp only [show defaultTermios.icrnl = true from rfl, hs,
        show defaultTermios.icanon = true from rfl, if_true]
      rw [canonActions, ht, if_neg (by decide), if_neg (by decide), if_neg (by decide),
        regularActions, hl, if_neg (by decide), echoes, ht]
      rfl
    rw [writeActions, ht]
    simp only [show defaultTermios.icanon = true from rfl, Bool.true_or, if_true, dataActions,
      hbyte, List.append_nil]
  have hout : deliverOutput "PTY output buffer full (echo backpressure)" [0x61]
      { t with lineBuffer := [0x61] } =
      .error (.kernelError .EAGAIN "PTY output buffer full (echo backpressure)") := by
    rw [deliverOutput]
    simp only [hw, hb, bufferBytes, List.map_cons, List.map_nil, List.sum_cons, List.sum_nil, hd]
    rfl
  rw [write_eq ho, ha]
  simp only [perform, apply, hout, returning]

/-- **A rejected write changes the terminal.**  The output is full; the echo of a character is
rejected, and the character stays in the line. -/
theorem write_atomic_fails : ∃ r, Reach TtyRun.step Any .start r ∧ r.term.lineBuffer = [] ∧
    ∃ msg t', (write .master (fun _ => 0) [0x61]).exec r.term =
      (.error (.kernelError .EAGAIN msg), t') ∧ t'.lineBuffer = [0x61] ∧
      ¬ Unchanged r.term t' := by
  obtain ⟨d, hd⟩ : ∃ d : ByteArray8, d.length = MAX_PTY_BUFFER_BYTES :=
    ⟨_, List.length_replicate (a := 0x61)⟩
  have h₀ : Reach TtyRun.step Any .start _ :=
    (Reach.start : Reach TtyRun.step Any .start _).next
      (a := .setTermios { TermiosChange.none with opost := some false }) trivial rfl
  obtain ⟨r, h₁, e₁⟩ := TtyRun.reach_write h₀ .slave (fun _ => 0) d
  let t₀ : Terminal := Terminal.new.setTermios { TermiosChange.none with opost := some false }
  have hfull : r.term = { t₀ with outputBuffer := [d] } := by
    have hout : deliverOutput "PTY output buffer full" d t₀ =
        .ok { t₀ with outputBuffer := [d] } := by
      rw [deliverOutput]
      simp only [show t₀.outputWaiters = [] from rfl, show t₀.outputBuffer = [] from rfl, bufferBytes,
        List.map_nil, List.sum_nil, hd, Nat.zero_add, Nat.lt_irrefl, if_false, List.nil_append]
    have hw : ((write .slave (fun _ => 0) d).exec t₀).2 = { t₀ with outputBuffer := [d] } := by
      have ha : t₀.writeActions .slave (fun _ => 0) d = [.output "PTY output buffer full" d] := rfl
      rw [write_eq ⟨rfl, rfl⟩, ha]
      simp only [perform, apply, hout, returning]
    rw [e₁]
    exact hw
  have hex := write_echo_rejected (t := r.term) hd (fun _ => 0) (by rw [hfull]; exact ⟨rfl, rfl⟩)
    (by rw [hfull]; rfl) (by rw [hfull]; rfl) (by rw [hfull]) (by rw [hfull]; rfl)
  have hl : r.term.lineBuffer = [] := by rw [hfull]; rfl
  refine ⟨r, h₁, hl, _, _, hex, rfl, fun hu => ?_⟩
  have := hu.lineBuffer
  rw [hl] at this
  cases this

/-! ### Split writes -/

/-- Writes one after the other, none of which throws. -/
def writes (side : PtyEnd) (answer : Nat → Nat) : List ByteArray8 → Terminal → Option Terminal
  | [], t => some t
  | data :: rest, t =>
    match (write side answer data).exec t with
    | (.ok _, t') => writes side answer rest t'
    | (.error _, _) => none

/-- What the two ends see, and what is left in the line. -/
structure SameStreams (t t' : Terminal) : Prop where
  readable : ∀ side, t'.readable side = t.readable side
  line : t'.lineBuffer = t.lineBuffer
  signals : t'.signals = t.signals

/-- A line feed starts one of the writes, behind a carriage return; `prev` is the byte before. -/
def splitsCRLF : Option UInt8 → List ByteArray8 → Bool
  | _, [] => false
  | prev, data :: rest =>
    (prev == some 0x0d && data.head? == some 0x0a) || splitsCRLF (data.getLast?.or prev) rest

variable (prev : Option UInt8)

/-- What two writes give is the output of one, but for the byte before the second. -/
theorem insertCR_append (a b : ByteArray8) :
    insertCR prev (a ++ b) = insertCR prev a ++ insertCR (a.getLast?.or prev) b := by
  induction a generalizing prev with
  | nil => rfl
  | cons x a ih =>
      have hl : ((x :: a).getLast?.or prev) = a.getLast?.or (some x) := by
        cases a with
        | nil => rfl
        | cons y a =>
            rw [List.getLast?_cons_cons]
            cases h : (y :: a).getLast? with
            | none => simp at h
            | some z => rfl
      rw [List.cons_append, insertCR, insertCR, ih, hl]
      split <;> rfl

/-- Only a line feed at the start looks at the byte before. -/
theorem insertCR_prev (a : ByteArray8) :
    if prev = some 0x0d ∧ a.head? = some 0x0a then
      (insertCR prev a).length < (insertCR none a).length
    else insertCR prev a = insertCR none a := by
  cases a with
  | nil => simp [insertCR]
  | cons x a =>
      by_cases hx : x = 0x0a
      · subst hx
        by_cases hp : prev = some 0x0d
        · simp [insertCR, hp]
        · simp [insertCR, hp]
      · simp [insertCR, hx]

theorem insertCR_flatten (parts : List ByteArray8) :
    (insertCR prev parts.flatten).length ≤ (parts.map (insertCR none)).flatten.length ∧
      ((parts.map (insertCR none)).flatten = insertCR prev parts.flatten ↔
        splitsCRLF prev parts = false) := by
  induction parts generalizing prev with
  | nil => exact ⟨Nat.le_refl _, iff_of_true rfl rfl⟩
  | cons a parts ih =>
      obtain ⟨hle, hiff⟩ := ih (a.getLast?.or prev)
      rw [List.flatten_cons, List.map_cons, List.flatten_cons, insertCR_append, splitsCRLF]
      have ha := insertCR_prev prev a
      split at ha
      · rename_i hc
        refine ⟨?_, fun he => ?_, fun h => ?_⟩
        · rw [List.length_append, List.length_append]
          omega
        · have := congrArg List.length he
          rw [List.length_append, List.length_append] at this
          omega
        · simp [hc] at h
      · rename_i hc
        have hb : (prev == some 0x0d && a.head? == some 0x0a) = false := by
          rw [Bool.eq_false_iff]
          simpa using hc
        rw [ha, hb, Bool.false_or, List.append_cancel_left_eq, List.length_append,
          List.length_append]
        exact ⟨Nat.add_le_add_left hle _, hiff⟩

/-- What is given to the ends by actions that are done in full. -/
theorem perform_readable (h : perform as t = (.ok (), t')) (hs : t.Starved) :
    t'.Starved ∧ ∀ s, t'.readable s = t.readable s ++ bytesTo s as := by
  induction as generalizing t with
  | nil =>
      cases h
      exact ⟨hs, fun s => (List.append_nil _).symm⟩
  | cons a as ih =>
      rw [perform] at h
      cases ha : a.apply t with
      | error e =>
          rw [ha] at h
          cases h
      | ok u =>
          rw [ha] at h
          have hu : u.Starved ∧ ∀ s, u.readable s = t.readable s ++ bytesTo s [a] := by
            obtain ⟨hn, rfl⟩ | ⟨side, chunk, ht, hd⟩ := apply_cases ha
            · have hb : ∀ s, (a.after t).buffer s = t.buffer s ∧
                  (a.after t).waiters s = t.waiters s ∧ (a.after t).readBy s = t.readBy s := by
                intro s
                cases a <;> cases s <;> exact ⟨rfl, rfl, rfl⟩
              refine ⟨fun s hne => ?_, fun s => ?_⟩
              · rw [(hb s).2.1] at hne
                rw [(hb s).1]
                exact hs s hne
              · rw [readable, (hb s).1, (hb s).2.2]
                simp [readable, bytesTo, hn]
            · refine ⟨hd.starved hs, fun s => ?_⟩
              rw [hd.readable hs]
              simp [bytesTo, ht]
          obtain ⟨h₁, h₂⟩ := ih h hu.1
          refine ⟨h₁, fun s => ?_⟩
          rw [h₂, hu.2, List.append_assoc]
          simp [bytesTo]

theorem write_ok {n : Nat} (h : (write side answer data).exec t = (.ok n, t')) :
    t.Open ∧ perform (t.writeActions side answer data) t = (.ok (), t') := by
  by_cases ho : t.Open
  · rw [write_eq ho] at h
    rcases hr : perform (t.writeActions side answer data) t with ⟨e | u, u'⟩
    · rw [hr] at h
      cases h
    · rw [hr] at h
      cases h
      exact ⟨ho, rfl⟩
  · obtain ⟨msg, he⟩ := write_closed ho side answer data
    rw [he] at h
    cases h

variable {parts : List ByteArray8}

/-- Writes that are one chunk each, whatever the terminal has done. -/
theorem writes_chunks {A : ByteArray8 → TtyAction}
    (ha : ∀ (u : Terminal) d, u.view = t.view → u.writeActions side answer d = [A d])
    (hn : ∀ d u, (A d).after u = u)
    (h : writes side answer parts t = some t') : perform (parts.map A) t = (.ok (), t') := by
  suffices hp : ∀ u, u.view = t.view → writes side answer parts u = some t' →
      perform (parts.map A) u = (.ok (), t') from hp t rfl h
  clear h
  induction parts with
  | nil =>
      intro u _ h
      cases h
      rfl
  | cons d parts ih =>
      intro u hu h
      rw [writes] at h
      split at h
      · rename_i n u' he
        obtain ⟨-, hp⟩ := write_ok he
        rw [ha u d hu] at hp
        have hv : u'.view = t.view := by
          rw [view_perform hp, afterAll, List.foldl_cons, List.foldl_nil, hn]
          exact hu
        rw [List.map_cons, ← List.singleton_append, perform_append_ok hp]
        exact ih u' hv h
      · cases h

/-- Writes that go through the loop over the bytes. -/
theorem writes_data (hm : (t.termios.icanon || t.termios.echo || t.termios.isig) = true)
    (h : writes .master answer parts t = some t') :
    perform (t.dataActions answer parts.flatten) t = (.ok (), t') := by
  induction parts generalizing t with
  | nil =>
      cases h
      rfl
  | cons d parts ih =>
      rw [writes] at h
      split at h
      · rename_i n u he
        obtain ⟨-, hp⟩ := write_ok he
        rw [writeActions] at hp
        simp only [hm, if_true] at hp
        have hv := view_perform hp
        have ht : u.termios = t.termios :=
          (congrArg (fun u : Terminal => u.termios) hv).trans (termios_afterAll _ t)
        rw [List.flatten_cons, dataActions_append, perform_append_ok hp, dataActions_congr hv.symm]
        exact ih (by rw [ht, hm]) h
      · cases h

/-- An action that gives its chunk to the end. -/
def GivesTo (side : PtyEnd) (f : ByteArray8 → TtyAction) : Prop :=
  (∀ d, (f d).target = some (side, d)) ∧ ∀ d u, (f d).after u = u

namespace GivesTo

variable {f g : ByteArray8 → TtyAction} {parts : List ByteArray8}

theorem chunksTo (h : GivesTo side f) (parts : List ByteArray8) :
    chunksTo side (parts.map f) = parts := by
  induction parts with
  | nil => rfl
  | cons d parts ih =>
      rw [List.map_cons, chunksTo_cons, h.1, ih]
      simp

theorem bytesTo (h : GivesTo side f) (s : PtyEnd) (parts : List ByteArray8) :
    bytesTo s (parts.map f) = if side = s then parts.flatten else [] := by
  rw [Terminal.bytesTo, List.flatMap_map]
  simp only [h.1]
  split
  · simp [List.flatMap_id']
  · simp

theorem afterAll (h : GivesTo side f) (parts : List ByteArray8) (u : Terminal) :
    afterAll (parts.map f) u = u := by
  induction parts with
  | nil => rfl
  | cons d parts ih =>
      rw [List.map_cons, TtyAction.afterAll, List.foldl_cons, h.2]
      exact ih

/-- Chunks as one chunk fit when they fit. -/
theorem joined (hf : GivesTo side f) (hne : parts ≠ [])
    (hl : chunk.length ≤ parts.flatten.length) (h : perform (parts.map f) t = (.ok (), t')) :
    ∃ u, perform [f chunk] t = (.ok (), u) := by
  have hfit := perform_ok_iff.mp ⟨t', h⟩
  refine perform_ok_iff.mpr fun s hs => ?_
  have hone : Terminal.chunksTo s [f chunk] = if side = s then [chunk] else [] := by
    rw [chunksTo_cons, hf.1]
    simp [Terminal.chunksTo]
  by_cases he : side = s
  · subst he
    rw [hone, if_pos rfl] at hs ⊢
    have hw : t.waiters side = [] := by
      cases hw : t.waiters side with
      | nil => rfl
      | cons w ws => simp [hw] at hs
    have := hfit side (by simpa [hf.chunksTo, hw] using hne)
    rw [hf.chunksTo, hw] at this
    rw [hw]
    simp only [List.length_nil, List.drop_zero, bufferBytes, List.map_cons, List.map_nil,
      List.sum_cons, List.sum_nil, List.length_flatten] at this hl ⊢
    omega
  · rw [hone, if_neg he] at hs
    simp at hs

/-- Chunks and one chunk are the same to the ends when they have the same bytes. -/
theorem sameStreams_iff (hf : GivesTo side f) (hs : t.Starved) {u : Terminal}
    (h : perform (parts.map f) t = (.ok (), t')) (hu : perform [f chunk] t = (.ok (), u)) :
    SameStreams t' u ↔ parts.flatten = chunk := by
  obtain ⟨-, hr⟩ := perform_readable h hs
  obtain ⟨-, hr'⟩ := perform_readable hu hs
  have hb : Terminal.bytesTo side [f chunk] = chunk := by
    have := hf.bytesTo side [chunk]
    simpa using this
  have hv : u.view = t'.view := by
    rw [view_perform hu, view_perform h, hf.afterAll]
    exact congrArg view (hf.2 chunk t)
  constructor
  · intro hsame
    have := hsame.readable side
    rw [hr, hr', hf.bytesTo, if_pos rfl, hb, List.append_cancel_left_eq] at this
    exact this.symm
  · intro he
    have hl : u.view.lineBuffer = t'.view.lineBuffer := by rw [hv]
    have hg : u.view.signals = t'.view.signals := by rw [hv]
    refine ⟨fun s => ?_, hl, hg⟩
    have hone := hf.bytesTo s [chunk]
    rw [List.map_singleton, List.flatten_singleton] at hone
    rw [hr, hr', hf.bytesTo, hone, he]

end GivesTo

theorem givesTo_input : GivesTo .slave .input := ⟨fun _ => rfl, fun _ _ => rfl⟩

theorem givesTo_output (full : String) : GivesTo .master (.output full) :=
  ⟨fun _ => rfl, fun _ _ => rfl⟩

/-- Writes that are a chunk each, and the single write. -/
theorem split_chunks (hs : t.Starved) {dst : PtyEnd} {f : ByteArray8 → TtyAction}
    (hf : GivesTo dst f) {F : ByteArray8 → ByteArray8}
    (ha : ∀ (u : Terminal) d, u.view = t.view → u.writeActions side answer d = [f (F d)])
    (hne : parts ≠ [])
    (hl : (F parts.flatten).length ≤ (parts.map F).flatten.length)
    (ho : t.Open) (h : writes side answer parts t = some t') :
    ∃ u, (write side answer parts.flatten).exec t = (.ok parts.flatten.length, u) ∧
      (SameStreams t' u ↔ (parts.map F).flatten = F parts.flatten) := by
  have hp := writes_chunks (A := fun d => f (F d)) ha (fun d u => hf.2 _ u) h
  have hp' : perform ((parts.map F).map f) t = (.ok (), t') := by
    rwa [List.map_map]
  obtain ⟨u, hu⟩ := hf.joined (by simpa using hne) hl hp'
  refine ⟨u, ?_, hf.sameStreams_iff hs hp' hu⟩
  rw [write_eq ho, ha t _ rfl, hu]
  rfl

/-- **Splitting a write.**  The single write of the bytes returns as well, and the ends see the
same, exactly when no slave's write that gets carriage returns starts with a line feed behind one
of an earlier write. -/
theorem write_split_iff (hs : t.Starved) {first : ByteArray8} {rest : List ByteArray8}
    (h : writes side answer (first :: rest) t = some t') :
    ∃ u, (write side answer (first :: rest).flatten).exec t =
        (.ok (first :: rest).flatten.length, u) ∧
      (SameStreams t' u ↔ (side = .slave → t.termios.opost = true → t.termios.onlcr = true →
        splitsCRLF none (first :: rest) = false)) := by
  have ho : t.Open := by
    rw [writes] at h
    split at h
    · rename_i he
      exact (write_ok he).1
    · cases h
  have hview : ∀ u : Terminal, u.view = t.view → u.termios = t.termios := fun u hu =>
    show u.view.termios = t.view.termios by rw [hu]
  cases side with
  | master =>
      cases hm : (t.termios.icanon || t.termios.echo || t.termios.isig) with
      | true =>
          refine ⟨t', ?_, iff_of_true ⟨fun _ => rfl, rfl, rfl⟩ fun h => by cases h⟩
          rw [write_eq ho, writeActions]
          simp only [hm, if_true]
          rw [writes_data hm h]
          rfl
      | false =>
          obtain ⟨u, hu, hiff⟩ := split_chunks hs givesTo_input
            (F := applyInputTranslations t.termios.icrnl)
            (fun u d hv => by
              rw [writeActions, hview u hv]
              simp only [hm, Bool.false_eq_true, if_false])
            (List.cons_ne_nil first rest)
            (Nat.le_of_eq (congrArg List.length List.map_flatten)) ho h
          refine ⟨u, hu, hiff.trans (iff_of_true ?_ fun h => by cases h)⟩
          simp only [applyInputTranslations]
          exact List.map_flatten.symm
  | slave =>
      cases hp : (t.termios.opost && t.termios.onlcr) with
      | true =>
          obtain ⟨h₁, h₂⟩ := Bool.and_eq_true_iff.mp hp
          obtain ⟨u, hu, hiff⟩ := split_chunks hs (givesTo_output "PTY output buffer full")
            (F := insertCR none)
            (fun u d hv => by
              rw [writeActions, processOutput, hview u hv, if_pos hp])
            (List.cons_ne_nil first rest) (insertCR_flatten none _).1 ho h
          refine ⟨u, hu, hiff.trans ((insertCR_flatten none _).2.trans ?_)⟩
          exact ⟨fun h _ _ _ => h, fun h => h rfl h₁ h₂⟩
      | false =>
          obtain ⟨u, hu, hiff⟩ := split_chunks hs (givesTo_output "PTY output buffer full")
            (F := id)
            (fun u d hv => by
              rw [writeActions, processOutput, hview u hv, if_neg (by simp [hp])]
              rfl)
            (List.cons_ne_nil first rest) (by simp) ho h
          refine ⟨u, hu, hiff.trans (iff_of_true (by simp) fun _ h₁ h₂ => ?_)⟩
          rw [h₁, h₂] at hp
          cases hp

/-- **Writes of a terminal that has done anything.** -/
theorem writes_split_iff {r : TtyRun} (hr : Reach TtyRun.step Any .start r) {first : ByteArray8}
    {rest : List ByteArray8} (h : writes side answer (first :: rest) r.term = some t') :
    ∃ u, (write side answer (first :: rest).flatten).exec r.term =
        (.ok (first :: rest).flatten.length, u) ∧
      (SameStreams t' u ↔ (side = .slave → r.term.termios.opost = true →
        r.term.termios.onlcr = true → splitsCRLF none (first :: rest) = false)) :=
  write_split_iff (TtyRun.starved hr) h

/-- Two lines of output. -/
theorem writes_split_two_lines :
    ∃ t' u, writes .slave (fun _ => 0) [[0x61, 0x0d, 0x0a], [0x62]] .new = some t' ∧
      (write .slave (fun _ => 0) [0x61, 0x0d, 0x0a, 0x62]).exec .new = (.ok 4, u) ∧
      SameStreams t' u := by
  obtain ⟨t', ht⟩ : ∃ t', writes .slave (fun _ => 0) [[0x61, 0x0d, 0x0a], [0x62]] .new = some t' :=
    ⟨_, rfl⟩
  obtain ⟨u, hu, hiff⟩ := writes_split_iff (r := .start) .start ht
  exact ⟨t', u, ht, hu, hiff.mpr fun _ _ _ => rfl⟩

/-- **A split write is seen.**  A carriage return and a line feed as two writes are three bytes. -/
theorem writes_split_fails :
    ∃ t' u, writes .slave (fun _ => 0) [[0x0d], [0x0a]] .new = some t' ∧
      (write .slave (fun _ => 0) [0x0d, 0x0a]).exec .new = (.ok 2, u) ∧
      t'.readable .master = [0x0d, 0x0d, 0x0a] ∧ u.readable .master = [0x0d, 0x0a] ∧
      ¬ SameStreams t' u := by
  refine ⟨_, _, rfl, rfl, rfl, rfl, fun h => ?_⟩
  have := h.readable .master
  revert this
  decide

end Terminal
end SecureExec.Kernel
