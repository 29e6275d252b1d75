import SecureExec.Kernel.PipeRun

/-!
# Kernel — PipeStream — what goes into a pipe comes out

Every turn of a write takes the next bytes of its data and puts them behind what is buffered, or
hands them to a waiting read when nothing is (`TurnOk`); a read takes from the front.  So the data
handed to reads, followed by what is buffered, is what was accepted, and what was accepted from one
write is a first part of its data: `pipe_stream_integrity`.
-/

namespace SecureExec.Kernel
open SecureExec PipeState Function

namespace PipeState

variable {st : PipeState} {data : ByteArray8} {t : Taken}

/-- The bytes a waiting read was handed. -/
def handedBytes (handed : Option (Nat × ByteArray8)) : ByteArray8 :=
  (handed.map Prod.snd).toList.flatten

/-- A turn of a write of `data` of which `offset` bytes were accepted before. -/
structure TurnOk (st : PipeState) (data : ByteArray8) (offset : Nat) (t : WriteTurn) : Prop where
  /-- What is taken are the next bytes. -/
  accepted : t.accepted = (data.drop offset).take t.accepted.length
  fits : offset + t.accepted.length ≤ data.length
  /-- It goes behind what is buffered. -/
  stream : st.buffer.flatten ++ t.accepted = handedBytes t.handed ++ t.st.buffer.flatten
  returned : ∀ n, t.outcome = .returned n → n = offset + t.accepted.length
  blocked : ∀ h o, t.outcome = .blocked h o → o = offset + t.accepted.length

theorem TakenSpec.stream (h : TakenSpec st data t) :
    st.buffer.flatten ++ data.take t.count = handedBytes t.handed ++ t.st.buffer.flatten := by
  cases h with
  | nothing h => simp [handedBytes]
  | direct hd hr hb => simp [handedBytes, pollWake, hb]
  | full hd hf => simp [handedBytes]
  | buffered hd hn hf => simp [handedBytes, pollWake]

/-- The turn that takes what `writeAvailable` took. -/
theorem TakenSpec.turnOk {st' st'' : PipeState} {out : WriteOutcome} (offset : Nat)
    (ht : TakenSpec st' (data.drop offset) t) (hb : st'.buffer = st.buffer)
    (hb' : st''.buffer = t.st.buffer) (ho : offset ≤ data.length)
    (hr : ∀ n, out = .returned n → n = offset + t.count)
    (hbl : ∀ h o, out = .blocked h o → o = offset + t.count) :
    TurnOk st data offset ⟨out, (data.drop offset).take t.count, t.handed, st''⟩ := by
  have hle := ht.count_le
  have hlen : ((data.drop offset).take t.count).length = t.count := by
    rw [List.length_take]
    exact Nat.min_eq_left hle
  rw [List.length_drop] at hle
  refine ⟨?_, ?_, ?_, fun n h => ?_, fun h o h' => ?_⟩
  · rw [hlen]
  · rw [hlen]
    omega
  · rw [← hb, hb']
    exact ht.stream
  · rw [hlen]
    exact hr n h
  · rw [hlen]
    exact hbl h o h'

/-- A write that throws takes nothing. -/
theorem TurnOk.thrown {st' : PipeState} {offset : Nat} (e : Failure) (hb : st'.buffer = st.buffer)
    (ho : offset ≤ data.length) : TurnOk st data offset ⟨.thrown e, [], none, st'⟩ := by
  refine ⟨rfl, ho, ?_, fun n h => ?_, fun h o h' => ?_⟩
  · rw [List.append_nil]
    exact congrArg _ hb.symm
  · cases h
  · cases h'

variable (st)

theorem write_turnOk (flags : Flags) (data : ByteArray8) :
    TurnOk st data 0 (st.write flags data) := by
  unfold write
  cases hw : st.writeAvailable data with
  | error e => exact .thrown e rfl (Nat.zero_le _)
  | ok t =>
      obtain ⟨-, -, ht⟩ := writeAvailable_cases hw
      have hturn : ∀ out st', st'.buffer = t.st.buffer →
          (∀ n, out = .returned n → n = 0 + t.count) →
          (∀ h o, out = .blocked h o → o = 0 + t.count) →
          TurnOk st data 0 ⟨out, data.take t.count, t.handed, st'⟩ := fun out st' hb hr hbl =>
        TakenSpec.turnOk 0 ht rfl hb (Nat.zero_le _) hr hbl
      dsimp only
      split
      · rename_i hall
        refine hturn _ _ rfl (fun n h => ?_) fun h o h' => ?_
        · cases h
          rw [hall, Nat.zero_add]
        · cases h'
      · split
        · split
          · rename_i h0
            have h := hturn (.thrown (.kernelError .EAGAIN "pipe buffer full")) t.st rfl
              (fun n h => by cases h) fun h o h' => by cases h'
            rwa [h0, List.take_zero] at h
          · refine hturn _ _ rfl (fun n h => ?_) fun h o h' => ?_
            · cases h
              rw [Nat.zero_add]
            · cases h'
        · refine hturn _ _ rfl (fun n h => ?_) fun h o h' => ?_
          · cases h
          · cases h'
            rw [Nat.zero_add]

theorem writeMore_turnOk (h : Nat) (data : ByteArray8) {offset : Nat}
    (ho : offset ≤ data.length) : TurnOk st data offset (st.writeMore h data offset) := by
  unfold writeMore
  dsimp only
  split
  · exact .thrown _ rfl ho
  · rename_i t hw
    obtain ⟨-, -, ht⟩ := writeAvailable_cases hw
    have hle := ht.count_le
    rw [List.length_drop] at hle
    split
    · refine ht.turnOk offset rfl rfl ho (fun n h => ?_) fun h o h' => ?_
      · cases h
      · cases h'
        rfl
    · rename_i hlt
      refine ht.turnOk offset rfl rfl ho (fun n h => ?_) fun h o h' => ?_
      · cases h
        omega
      · cases h'

end PipeState

/-! ### The record -/

namespace PipeLog

variable (log : PipeLog)

theorem piecesOf_record (id j : Nat) (t : WriteTurn) :
    (log.record id t).piecesOf j = log.piecesOf j ++ if j = id then t.accepted else [] := by
  unfold piecesOf record
  by_cases h : j = id
  · subst h
    simp
  · simp [h, Ne.symm h]

theorem returned_record (id j : Nat) (t : WriteTurn) {n : Nat}
    (h : (log.record id t).returned j = some n) :
    (j = id ∧ t.outcome = .returned n) ∨ log.returned j = some n := by
  unfold record at h
  cases ho : t.outcome with
  | thrown e => rw [ho] at h; exact .inr h
  | blocked k o => rw [ho] at h; exact .inr h
  | returned m =>
      rw [ho] at h
      rcases PartialMap.set_eq_some.mp h with ⟨hj, rfl⟩ | ⟨-, hr⟩
      · exact .inl ⟨hj, rfl⟩
      · exact .inr hr

/-- A turn of another write. -/
theorem returned_record_other {id j : Nat} (hj : j ≠ id) (t : WriteTurn)
    (h : log.returned j = none) : (log.record id t).returned j = none := by
  cases hr : (log.record id t).returned j with
  | none => rfl
  | some n =>
      rcases log.returned_record id j t hr with ⟨he, -⟩ | hr'
      · exact absurd he hj
      · rw [h] at hr'
        cases hr'

end PipeLog

namespace PipeRun

variable {r r' : PipeRun}

/-- What has gone through a pipe is what is recorded; the writes that wait have had their `offset`
bytes accepted. -/
structure StreamInv (r : PipeRun) : Prop where
  stream : r.log.served.flatten ++ r.st.buffer.flatten = (r.log.accepted.map Prod.snd).flatten
  fresh : ∀ id, r.log.nextCall ≤ id → r.log.piecesOf id = [] ∧ r.log.returned id = none
  taken : ∀ id, ∃ n, n ≤ (r.log.data id).length ∧ r.log.piecesOf id = (r.log.data id).take n
  returned : ∀ id n, r.log.returned id = some n → r.log.piecesOf id = (r.log.data id).take n
  waiting : ∀ h c, r.calls h = some c → c.id < r.log.nextCall ∧ r.log.returned c.id = none ∧
    c.data = r.log.data c.id ∧ c.offset ≤ c.data.length ∧
    r.log.piecesOf c.id = c.data.take c.offset
  apart : ∀ h h' c c', r.calls h = some c → r.calls h' = some c' → c.id = c'.id → h = h'

theorem StreamInv.new : StreamInv .new := by
  refine ⟨rfl, fun _ _ => ⟨rfl, rfl⟩, fun _ => ⟨0, Nat.le_refl _, rfl⟩, fun _ _ h => ?_,
    fun _ _ h => ?_, fun _ _ _ _ h => ?_⟩ <;> cases h

/-- A turn of the write `id`, of which `offset` bytes were accepted before and which does not wait
otherwise. -/
theorem StreamInv.turn {log : PipeLog} {calls : Nat → Option WriteCall} {st : PipeState}
    (h : StreamInv ⟨st, calls, log⟩) {id : Nat} (offset : Nat) {data : ByteArray8}
    {t : WriteTurn} (hid : id < log.nextCall) (hret : log.returned id = none)
    (hdata : log.data id = data) (hoff : log.piecesOf id = data.take offset)
    (hnot : ∀ k c, calls k = some c → c.id ≠ id) (ht : TurnOk st data offset t) :
    StreamInv (turn log calls id data t) := by
  -- what has been accepted from this write now
  have hpieces : log.piecesOf id ++ t.accepted = data.take (offset + t.accepted.length) := by
    rw [hoff, List.take_add, ← ht.accepted]
  have hother : ∀ j, j ≠ id → (log.record id t).piecesOf j = log.piecesOf j := fun j hj => by
    rw [PipeLog.piecesOf_record, if_neg hj, List.append_nil]
  have hself : (log.record id t).piecesOf id = data.take (offset + t.accepted.length) := by
    rw [PipeLog.piecesOf_record, if_pos rfl, hpieces]
  have hcalls : ∀ k c, afterTurn calls id data t.outcome k = some c →
      calls k = some c ∨ ((∃ o, t.outcome = .blocked k o) ∧
        c = ⟨id, data, offset + t.accepted.length⟩) := by
    intro k c hk
    cases ho : t.outcome with
    | returned n => rw [ho] at hk; exact .inl hk
    | thrown e => rw [ho] at hk; exact .inl hk
    | blocked k' o =>
        rw [ho, afterTurn] at hk
        rcases PartialMap.set_eq_some.mp hk with ⟨rfl, hc⟩ | ⟨-, hk⟩
        · exact .inr ⟨⟨o, rfl⟩, by rw [hc, ht.blocked k o ho]⟩
        · exact .inl hk
  refine ⟨?_, fun j hj => ?_, fun j => ?_, fun j n hn => ?_, fun k c hk => ?_,
    fun k k' c c' hk hk' he => ?_⟩
  · have hs := h.stream
    simp only [PipeRun.turn, PipeLog.record, List.map_append, List.map_singleton,
      List.flatten_append, List.flatten_singleton] at hs ⊢
    rw [← hs, List.append_assoc, List.append_assoc, ht.stream]
    rfl
  · have hne : j ≠ id := Nat.ne_of_gt (Nat.lt_of_lt_of_le hid hj)
    obtain ⟨h₁, h₂⟩ := h.fresh j hj
    exact ⟨(hother j hne).trans h₁, log.returned_record_other hne t h₂⟩
  · by_cases hj : j = id
    · subst hj
      refine ⟨offset + t.accepted.length, ?_, ?_⟩
      · exact hdata.symm ▸ ht.fits
      · exact hself.trans (by rw [← hdata]; rfl)
    · obtain ⟨n, hn, he⟩ := h.taken j
      exact ⟨n, hn, (hother j hj).trans he⟩
  · rcases log.returned_record id j t hn with ⟨rfl, ho⟩ | hr
    · rw [ht.returned n ho]
      exact hself.trans (by rw [← hdata]; rfl)
    · have hj : j ≠ id := by
        rintro rfl
        rw [hret] at hr
        cases hr
      exact (hother j hj).trans (h.returned j n hr)
  · rcases hcalls k c hk with hk | ⟨⟨o, ho⟩, rfl⟩
    · obtain ⟨h₁, h₂, h₃, h₄, h₅⟩ := h.waiting k c hk
      have hne := hnot k c hk
      exact ⟨h₁, log.returned_record_other hne t h₂, h₃, h₄, (hother c.id hne).trans h₅⟩
    · refine ⟨hid, ?_, hdata.symm, ht.fits, hself⟩
      show (log.record id t).returned id = none
      rw [PipeLog.record, ho]
      exact hret
  · rcases hcalls k c hk with hk | ⟨⟨o, ho⟩, rfl⟩
    · rcases hcalls k' c' hk' with hk' | ⟨-, rfl⟩
      · exact h.apart k k' c c' hk hk' he
      · exact absurd he (hnot k c hk)
    · rcases hcalls k' c' hk' with hk' | ⟨⟨o', ho'⟩, rfl⟩
      · exact absurd he.symm (hnot k' c' hk')
      · rw [ho] at ho'
        cases ho'
        rfl

/-- **One action of a pipe.** -/
theorem StreamInv.step (h : StreamInv r) {a : PipeAction} (hs : r.step a = some r') :
    StreamInv r' := by
  cases a with
  | write flags data =>
      cases hs
      obtain ⟨hnew, hret⟩ := h.fresh r.log.nextCall (Nat.le_refl _)
      have hfresh : ∀ k c, r.calls k = some c → c.id ≠ r.log.nextCall := fun k c hk =>
        Nat.ne_of_lt (h.waiting k c hk).1
      -- the record with the data of the new write
      have h' : StreamInv ⟨r.st, r.calls, { r.log with
          nextCall := r.log.nextCall + 1
          data := update r.log.data r.log.nextCall data }⟩ := by
        refine ⟨h.stream, fun j hj => h.fresh j (Nat.le_of_succ_le hj), fun j => ?_,
          fun j n hn => ?_, fun k c hk => ?_, h.apart⟩
        · by_cases hj : j = r.log.nextCall
          · subst hj
            exact ⟨0, Nat.zero_le _, hnew⟩
          · simp only [update_of_ne hj]
            exact h.taken j
        · have hj : j ≠ r.log.nextCall := by
            rintro rfl
            rw [hret] at hn
            cases hn
          simp only [update_of_ne hj]
          exact h.returned j n hn
        · obtain ⟨h₁, h₂, h₃, h₄, h₅⟩ := h.waiting k c hk
          refine ⟨Nat.lt_succ_of_lt h₁, h₂, ?_, h₄, h₅⟩
          simp only [update_of_ne (hfresh k c hk)]
          exact h₃
      exact h'.turn 0 (Nat.lt_succ_self _) hret (update_self ..) hnew hfresh
        (write_turnOk r.st flags data)
  | read length =>
      rcases r.st.read_spec r.log.nextRead length with ⟨-, he⟩ | ⟨-, -, he⟩ | ⟨-, -, he⟩
      · simp only [PipeRun.step, he] at hs
        cases hs
        refine ⟨?_, h.fresh, h.taken, h.returned, h.waiting, h.apart⟩
        have hd := drainChunks_flatten r.st.buffer length
        simp only [pollWake, List.flatten_append, List.flatten_singleton,
          List.append_assoc, hd]
        exact h.stream
      · simp only [PipeRun.step, he] at hs
        cases hs
        exact ⟨h.stream, h.fresh, h.taken, h.returned, h.waiting, h.apart⟩
      · simp only [PipeRun.step, he] at hs
        cases hs
        exact ⟨h.stream, h.fresh, h.taken, h.returned, h.waiting, h.apart⟩
  | close side =>
      cases hs
      refine ⟨?_, h.fresh, h.taken, h.returned, h.waiting, h.apart⟩
      cases side <;> exact h.stream
  | resume k =>
      simp only [PipeRun.step] at hs
      split at hs
      · cases hs
      · rename_i c hc
        split at hs
        · cases hs
          obtain ⟨h₁, h₂, h₃, h₄, h₅⟩ := h.waiting k c hc
          have hsub : ∀ x c', update r.calls k none x = some c' →
              x ≠ k ∧ r.calls x = some c' := fun x c' hx => PartialMap.erase_eq_some.mp hx
          have h' : StreamInv ⟨r.st, update r.calls k none, r.log⟩ :=
            ⟨h.stream, h.fresh, h.taken, h.returned, fun x c' hx => h.waiting x c' (hsub x c' hx).2,
              fun x x' c' c'' hx hx' => h.apart x x' c' c'' (hsub x c' hx).2 (hsub x' c'' hx').2⟩
          refine h'.turn c.offset h₁ h₂ h₃.symm h₅ (fun x c' hx he => ?_)
            (writeMore_turnOk r.st k c.data h₄)
          obtain ⟨hne, hx⟩ := hsub x c' hx
          exact hne (h.apart x k c' c hx hc he)
        · cases hs
  | waitForPoll =>
      cases hs
      exact ⟨h.stream, h.fresh, h.taken, h.returned, h.waiting, h.apart⟩

end PipeRun

/-- **Pipe stream integrity.**  For every pipe of the manager, after any run: the data handed to
reads, followed by what is buffered, is what was accepted from writes; what was accepted from one
write is a first part of its data, and the first `n` bytes when the write returned `n`. -/
theorem pipe_stream_integrity {s : PipeSys} (h : Lts.Reach PipeSys.step Lts.Any .start s)
    (p : Nat) :
    (s.logs p).served.flatten ++ (s.mgr.states p).buffer.flatten =
      ((s.logs p).accepted.map Prod.snd).flatten ∧
    ∀ id, (s.logs p).piecesOf id <+: (s.logs p).data id ∧
      ∀ n, (s.logs p).returned id = some n →
        (s.logs p).piecesOf id = ((s.logs p).data id).take n := by
  have hi : PipeRun.StreamInv (s.run p) := PipeSys.forall_run .new
    (fun _ _ _ _ hi hs _ => hi.step hs) h p
  refine ⟨hi.stream, fun id => ⟨?_, hi.returned id⟩⟩
  obtain ⟨n, -, hn⟩ := hi.taken id
  rw [show (s.logs p).piecesOf id = _ from hn]
  exact List.take_prefix n _

/-- A write before a read that takes a part of it. -/
theorem pipe_stream_integrity_partial_read :
    ∃ s, Lts.Reach PipeSys.step Lts.Any .start s ∧
      (s.logs 1).served.flatten = [1, 2] ∧ (s.mgr.states 1).buffer.flatten = [3] ∧
      (s.logs 1).served.flatten ++ (s.mgr.states 1).buffer.flatten =
        ((s.logs 1).accepted.map Prod.snd).flatten := by
  obtain ⟨s, hs, hserved, hbuf⟩ := Lts.Reach.exists_of_exec PipeSys.step .start
    [.createPipe, .write 100001 O_WRONLY [1, 2, 3], .read 100000 2]
    (P := fun s => (s.logs 1).served.flatten = [1, 2] ∧ (s.mgr.states 1).buffer.flatten = [3]) rfl
  exact ⟨s, hs, hserved, hbuf, (pipe_stream_integrity hs 1).1⟩

end SecureExec.Kernel
