import SecureExec.Kernel.PipeStream
import SecureExec.Kernel.TtyRun

/-!
# Kernel — ReadBounds — a read gets no more than it asked for

A read that finds data takes as much of it as it asked for and leaves the rest
(`drainChunks_length`).  A read that waits is handed what is written, all of it.

* `Terminal.HandsWithin`, `PipeReads.handsWithin`: what is handed to a read that waits fits what it
  asked for.
* `reads_bounded`: in runs of such steps every read gets at most what it asked for, and what was
  given and not read is buffered; `reads_bounded_fails` are runs in which a read gets too much.
-/

namespace SecureExec.Kernel
open SecureExec Lts PipeState TtyRun

theorem PipeState.drainChunks_length (l : List ByteArray8) :
    ∀ n, (drainChunks l n).1.flatten.length ≤ n := by
  induction l with
  | nil => exact fun n => Nat.zero_le n
  | cons chunk rest ih =>
      intro n
      rw [drainChunks]
      split
      · exact Nat.zero_le n
      · split
        · have := ih (n - chunk.length)
          rw [List.flatten_cons, List.length_append]
          omega
        · rw [List.flatten_singleton, List.length_take]
          exact Nat.min_le_left _ _

/-! ### Terminals -/

namespace Terminal
open TtyAction (apply perform after afterAll target)

/-- A chunk for a read that waits is no longer than what the read asked for. -/
def HandsWithin (asked : List Nat) (a : TtyAction) (t : Terminal) : Prop :=
  ∀ p ∈ a.target, ∀ w ∈ (t.waiters p.1).head?, p.2.length ≤ asked.getD w 0

instance (asked : List Nat) (a : TtyAction) (t : Terminal) : Decidable (HandsWithin asked a t) :=
  inferInstanceAs (Decidable (∀ p ∈ a.target, ∀ w ∈ (t.waiters p.1).head?, _))

instance decidableAlong (C : TtyAction → Terminal → Prop) [∀ a t, Decidable (C a t)] :
    ∀ as t, Decidable (Along C as t)
  | [], _ => .isTrue trivial
  | a :: as, t =>
    match h : a.apply t with
    | .ok t' =>
      have := decidableAlong C as t'
      decidable_of_iff (C a t ∧ Along C as t') (by rw [Along, h])
    | .error _ => .isTrue (by rw [Along, h]; trivial)

/-- What was asked for and given is what the reads got and what is buffered. -/
structure Served (t : Terminal) (asked : List Nat) (given : PtyEnd → ByteArray8) : Prop where
  within : ∀ x ∈ t.resolved, x.reader < asked.length ∧ x.data.length ≤ asked.getD x.reader 0
  known : ∀ side, ∀ w ∈ t.waiters side, w < asked.length
  starved : t.Starved
  stream : ∀ side, t.readable side = given side

variable {t t' : Terminal} {asked : List Nat} {given : PtyEnd → ByteArray8} {side : PtyEnd}
  {a : TtyAction} {answer : Nat → Nat} {data chunk : ByteArray8}

namespace Served

variable (h : Served t asked given)
include h

/-- Nothing that a read sees changes. -/
theorem congr (hr : t'.resolved = t.resolved)
    (hb : ∀ s, t'.buffer s = t.buffer s) (hw : ∀ s, t'.waiters s = t.waiters s) :
    Served t' asked given where
  within := hr ▸ h.within
  known := fun s => hw s ▸ h.known s
  starved := fun s => by
    rw [hw, hb]
    exact h.starved s
  stream := fun s => by
    rw [readable, hb, readBy, hr]
    exact h.stream s

theorem delivered (hd : Delivered side chunk t t')
    (hc : ∀ w ∈ (t.waiters side).head?, chunk.length ≤ asked.getD w 0) :
    Served t' asked fun s => given s ++ if side = s then chunk else [] := by
  have hstream : ∀ s, t'.readable s = given s ++ if side = s then chunk else [] := fun s => by
    rw [hd.readable h.starved, h.stream]
  have hstarved := hd.starved h.starved
  cases hd with
  | @direct w rest hw =>
      have hk : w < asked.length := h.known side w (by simp [hw])
      refine ⟨fun x hx => ?_, fun s v hv => ?_, hstarved, hstream⟩
      · rw [resolved_resolve, resolved_setWaiters] at hx
        rcases List.mem_append.mp hx with hx | hx
        · exact h.within x hx
        · rw [List.mem_singleton.mp hx]
          exact ⟨hk, hc w (by simp [hw])⟩
      · rw [waiters_resolve, waiters_setWaiters] at hv
        split at hv
        · rename_i he
          exact h.known s v (by simp [he, hw, hv])
        · exact h.known s v hv
  | buffered hw hf =>
      exact ⟨by simpa using h.within, fun s v hv => h.known s v (by simpa using hv), hstarved,
        hstream⟩

/-- An action, and what it gives. -/
theorem apply (ha : a.apply t = .ok t')
    (hc : HandsWithin asked a t) :
    Served t' asked fun s => given s ++ bytesTo s [a] := by
  obtain ⟨hn, rfl⟩ | ⟨side, chunk, ht, hd⟩ := apply_cases ha
  · have hg : (fun s => given s ++ bytesTo s [a]) = given := by
      funext s
      simp [bytesTo, hn]
    rw [hg]
    cases a with
    | line l => exact h.congr rfl (fun _ => rfl) fun _ => rfl
    | input chunk => cases hn
    | output full chunk => cases hn
    | signal call => exact h.congr rfl (fun _ => rfl) fun _ => rfl
  · have hg : (fun s => given s ++ bytesTo s [a]) =
        fun s => given s ++ if side = s then chunk else [] := by
      funext s
      simp [bytesTo, ht]
    rw [hg]
    exact h.delivered hd fun w hw => hc (side, chunk) ht w hw

theorem write (hc : t.Open → Along (HandsWithin asked) (t.writeActions side answer data) t) :
    Served ((write side answer data).exec t).2 asked
      fun s => given s ++ bytesTo s (t.doneBy side answer data) := by
  by_cases ho : t.Open
  · rw [write_eq ho, doneBy, if_pos ho]
    have hp := (hc ho).keeps
      (I := fun ds t => Served t asked fun s => given s ++ bytesTo s ds)
      (fun ds t a t' hI hC hap => by
        have hI' := hI.apply hap hC
        have he : (fun s => (given s ++ bytesTo s ds) ++ bytesTo s [a]) =
            fun s => given s ++ bytesTo s (ds ++ [a]) := by
          funext s
          rw [bytesTo, bytesTo, bytesTo, List.flatMap_append, List.append_assoc]
        exact he ▸ hI')
      (d := []) (by simpa [bytesTo] using h)
    rw [List.nil_append] at hp
    rcases hr : perform (t.writeActions side answer data) t with ⟨_ | _, _⟩ <;>
    · rw [hr] at hp
      exact hp
  · obtain ⟨msg, he⟩ := write_closed ho side answer data
    rw [he, doneBy, if_neg ho]
    simpa [bytesTo] using h

/-- One more read. -/
theorem ask (n : Nat) : Served t (asked ++ [n]) given where
  within := fun x hx => by
    obtain ⟨hl, hn⟩ := h.within x hx
    rw [List.length_append, List.getD_eq_getElem?_getD, List.getElem?_append_left hl,
      ← List.getD_eq_getElem?_getD]
    exact ⟨Nat.lt_of_lt_of_le hl (Nat.le_add_right _ _), hn⟩
  known := fun s w hw => by
    rw [List.length_append]
    exact Nat.lt_of_lt_of_le (h.known s w hw) (Nat.le_add_right _ _)
  starved := h.starved
  stream := h.stream

theorem read {n : Nat} {r : ReadOutcome × Terminal}
    (hr : t.read side asked.length n = .ok r) : Served r.2 (asked ++ [n]) given := by
  have hl : asked.length < (asked ++ [n]).length := by simp
  have hn : (asked ++ [n]).getD asked.length 0 = n := by simp
  have hi := h.ask n
  have hstarved := h.starved.read hr
  obtain ⟨-, hr⟩ := read_cases hr
  cases hr with
  | data hb =>
      refine ⟨fun x hx => ?_, fun s w hw => hi.known s w (by simpa using hw), hstarved,
        fun s => ?_⟩
      · rw [resolved_resolve, resolved_setBuffer] at hx
        rcases List.mem_append.mp hx with hx | hx
        · exact hi.within x hx
        · rw [List.mem_singleton.mp hx]
          exact ⟨hl, hn.symm ▸ drainChunks_length _ n⟩
      · rw [readable, readBy_resolve, readBy_setBuffer, buffer_resolve, buffer_setBuffer,
          ← h.stream s, readable]
        by_cases he : side = s
        · rw [if_pos he, if_pos he.symm, List.append_assoc, drainChunks_flatten, he]
        · rw [if_neg he, if_neg (Ne.symm he), List.append_nil]
  | eof hb hc => exact hi
  | waits hb hc =>
      refine ⟨by simpa using hi.within, fun s w hw => ?_, hstarved,
        fun s => by simpa [readable] using hi.stream s⟩
      rw [waiters_setWaiters] at hw
      split at hw
      · rename_i he
        rcases List.mem_append.mp hw with hw | hw
        · exact hi.known side w hw
        · rw [List.mem_singleton.mp hw]
          exact hl
      · exact hi.known s w hw

theorem close (side : PtyEnd) : Served (t.close side) asked given := by
  refine ⟨h.within, fun s w hm => ?_, starved_close t side, fun s => ?_⟩
  · rw [waiters_close] at hm
    cases hm
  · rw [readable, buffer_close]
    exact h.stream s

end Served
end Terminal

namespace TtyRun
open Terminal

/-- No write hands a read that waits more than it asked for. -/
def handsWithin (r : TtyRun) : TtyCall → Bool
  | .write side answer data =>
    ! decide r.term.Open ||
      decide (Along (HandsWithin r.asked) (r.term.writeActions side answer data) r.term)
  | _ => true

theorem served_step {r r' : TtyRun} {c : TtyCall} (h : Served r.term r.asked r.given)
    (hk : r.handsWithin c = true) (hs : r.step c = some r') :
    Served r'.term r'.asked r'.given := by
  cases c with
  | write side answer data =>
      cases hs
      refine h.write fun ho => ?_
      simpa [handsWithin, ho] using hk
  | read side length =>
      rw [step] at hs
      split at hs
      · rename_i hr
        cases hs
        exact h.read hr
      · cases hs
        exact h
  | close side =>
      rw [step] at hs
      split at hs
      · cases hs
        exact h
      · cases hs
        exact h.close side
  | setTermios | setDiscipline =>
      cases hs
      exact h.congr rfl (fun _ => rfl) fun _ => rfl
  | setForegroundPgid | setSessionLeader =>
      cases hs
      exact h.congr rfl (fun s => by cases s <;> rfl) fun s => by cases s <;> rfl

theorem served {r : TtyRun} (h : Reach step (handsWithin · ·) start r) :
    Served r.term r.asked r.given :=
  h.invariant (I := fun r => Served r.term r.asked r.given)
    ⟨fun x hx => absurd hx List.not_mem_nil, fun s w hw => (by cases s <;> cases hw),
      fun s _ => (by cases s <;> rfl), fun s => (by cases s <;> rfl)⟩
    fun _ _ _ hI hC hs => served_step hI hC hs

end TtyRun

/-! ### Pipes -/

namespace PipeState

variable {st st' : PipeState} {data : ByteArray8}

/-- What a turn of a write of `data` does to the reads that wait: nothing, or the first of them gets
the data. -/
inductive Hands (st : PipeState) (data : ByteArray8) :
    Option (Nat × ByteArray8) → List Nat → Prop where
  | none : Hands st data none st.readWaiters
  | first {w : Nat} {rest : List Nat} (hr : st.readWaiters = w :: rest) (hb : st.buffer = [])
      (ho : st.closedRead = false) : Hands st data (some (w, data)) rest

theorem Hands.congr {handed : Option (Nat × ByteArray8)} {ws : List Nat}
    (h : Hands st data handed ws) (hr : st.readWaiters = st'.readWaiters)
    (hb : st.buffer = st'.buffer) (ho : st.closedRead = st'.closedRead) :
    Hands st' data handed ws := by
  cases h with
  | none =>
      rw [hr]
      exact .none
  | first hw hn hc => exact .first (hr ▸ hw) (hb ▸ hn) (ho ▸ hc)

theorem TakenSpec.hands {t : Taken} (h : TakenSpec st data t) (ho : st.closedRead = false) :
    Hands st data t.handed t.st.readWaiters := by
  cases h with
  | nothing h => exact .none
  | direct hd hr hb => exact .first hr hb ho
  | full hd hf => exact .none
  | buffered hd hn hf => exact .none

variable (st)

theorem write_hands (flags : Flags) (data : ByteArray8) :
    Hands st data (st.write flags data).handed (st.write flags data).st.readWaiters := by
  rw [write]
  split
  · exact .none
  · rename_i t ht
    have h := (writeAvailable_cases ht).2.2.hands (writeAvailable_cases ht).2.1
    split
    · exact h
    · split
      · split <;> exact h
      · exact h

theorem writeMore_hands (k : Nat) (data : ByteArray8) (offset : Nat) :
    Hands st (data.drop offset) (st.writeMore k data offset).handed
      (st.writeMore k data offset).st.readWaiters := by
  rw [writeMore]
  split
  · exact .none
  · rename_i t ht
    -- leaving the queue of writes changes nothing that a read sees
    have h : Hands st (data.drop offset) t.handed t.st.readWaiters :=
      ((writeAvailable_cases ht).2.2.hands (writeAvailable_cases ht).2.1).congr rfl rfl rfl
    split <;> exact h

end PipeState

/-- A pipe with a record of what the reads asked for, and of what they got. -/
structure PipeReads where
  run : PipeRun
  asked : List Nat
  got : List (Nat × ByteArray8)

namespace PipeRun

/-- What an action hands to a read. -/
def hands (r : PipeRun) : PipeAction → Option (Nat × ByteArray8)
  | .write flags data => (r.st.write flags data).handed
  | .read length =>
    match (r.st.read r.log.nextRead length).1 with
    | .data b => some (r.log.nextRead, b)
    | _ => none
  | .resume h => (r.calls h).bind fun c => (r.st.writeMore h c.data c.offset).handed
  | _ => none

/-- What an action writes, all of it or what is left. -/
def writes (r : PipeRun) : PipeAction → ByteArray8
  | .write _ data => data
  | .resume h => ((r.calls h).map fun c => c.data.drop c.offset).getD []
  | _ => []

end PipeRun

namespace PipeReads

def start : PipeReads := ⟨.new, [], []⟩

def step (s : PipeReads) (a : PipeAction) : Option PipeReads :=
  (s.run.step a).map fun r =>
    { run := r
      asked := match a with
        | .read length => s.asked ++ [length]
        | _ => s.asked
      got := s.got ++ (s.run.hands a).toList }

/-- What is written to an open pipe where a read waits is no longer than what the read asked
for. -/
def handsWithin (s : PipeReads) (a : PipeAction) : Bool :=
  decide (s.run.st.closedRead = true ∨ s.run.st.buffer ≠ [] ∨
    ∀ w ∈ s.run.st.readWaiters.head?, (s.run.writes a).length ≤ s.asked.getD w 0)

/-- What was asked for is what was got, and what was accepted and not got is buffered. -/
structure Served (s : PipeReads) : Prop where
  calls : s.run.log.nextRead = s.asked.length
  within : ∀ x ∈ s.got, x.1 < s.asked.length ∧ x.2.length ≤ s.asked.getD x.1 0
  known : ∀ w ∈ s.run.st.readWaiters, w < s.asked.length
  got : s.got.map Prod.snd = s.run.log.served
  stream : s.run.StreamInv

variable {s s' : PipeReads} {a : PipeAction}

namespace Served

theorem start : Served .start :=
  ⟨rfl, fun _ hx => absurd hx List.not_mem_nil, fun _ hw => absurd hw List.not_mem_nil, rfl, .new⟩

variable {r : PipeRun}

variable (h : Served s)
include h

/-- An action that asks for nothing. -/
theorem hand {data : ByteArray8} {handed : Option (Nat × ByteArray8)}
    (hi : r.StreamInv) (hn : r.log.nextRead = s.run.log.nextRead)
    (hs : r.log.served = s.run.log.served ++ (handed.map Prod.snd).toList)
    (hh : Hands s.run.st data handed r.st.readWaiters)
    (hc : s.run.st.closedRead = true ∨ s.run.st.buffer ≠ [] ∨
      ∀ w ∈ s.run.st.readWaiters.head?, data.length ≤ s.asked.getD w 0) :
    Served ⟨r, s.asked, s.got ++ handed.toList⟩ := by
  refine ⟨hn.trans h.calls, fun x hx => ?_, fun w hw => ?_, ?_, hi⟩
  · rcases List.mem_append.mp hx with hx | hx
    · exact h.within x hx
    · generalize r.st.readWaiters = ws at hh
      cases hh with
      | none => cases hx
      | @first w rest hr hb ho =>
          rw [List.mem_singleton.mp hx]
          refine ⟨h.known w (by simp [hr]), ?_⟩
          rcases hc with hc | hc | hc
          · rw [ho] at hc
            cases hc
          · exact absurd hb hc
          · exact hc w (by simp [hr])
  · generalize hws : r.st.readWaiters = ws at hh hw
    cases hh with
    | none => exact h.known w hw
    | first hr hb ho => exact h.known w (by simp [hr, hw])
  · rw [List.map_append, h.got, hs]
    cases handed <;> rfl

/-- One more read. -/
theorem ask (n : Nat) {g : List ByteArray8} (hi : r.StreamInv)
    (hn : r.log.nextRead = s.run.log.nextRead + 1) (hs : r.log.served = s.run.log.served ++ g)
    (hg : ∀ b ∈ g, b.length ≤ n)
    (hw : ∀ w ∈ r.st.readWaiters, w ∈ s.run.st.readWaiters ∨ w = s.run.log.nextRead) :
    Served ⟨r, s.asked ++ [n], s.got ++ g.map fun b => (s.run.log.nextRead, b)⟩ := by
  have hl : s.run.log.nextRead < (s.asked ++ [n]).length := by simp [h.calls]
  refine ⟨?_, fun x hx => ?_, fun w hm => ?_, ?_, hi⟩
  · rw [hn, h.calls, List.length_append]
    rfl
  · rcases List.mem_append.mp hx with hx | hx
    · obtain ⟨hlt, hle⟩ := h.within x hx
      rw [List.length_append, List.getD_eq_getElem?_getD, List.getElem?_append_left hlt,
        ← List.getD_eq_getElem?_getD]
      exact ⟨Nat.lt_of_lt_of_le hlt (Nat.le_add_right _ _), hle⟩
    · obtain ⟨b, hb, rfl⟩ := List.mem_map.mp hx
      refine ⟨hl, ?_⟩
      rw [h.calls]
      simpa using hg b hb
  · rcases hw w hm with hm | rfl
    · rw [List.length_append]
      exact Nat.lt_of_lt_of_le (h.known w hm) (Nat.le_add_right _ _)
    · exact hl
  · rw [List.map_append, h.got, hs, List.map_map]
    congr 1
    exact List.map_id' g

/-- An action that hands nothing to a read. -/
theorem quiet (hi : r.StreamInv) (hl : r.log = s.run.log)
    (hw : ∀ w ∈ r.st.readWaiters, w ∈ s.run.st.readWaiters) : Served ⟨r, s.asked, s.got⟩ :=
  ⟨hl ▸ h.calls, h.within, fun w hm => h.known w (hw w hm), hl ▸ h.got, hi⟩

theorem step (hc : s.handsWithin a = true) (hs : s.step a = some s') :
    Served s' := by
  obtain ⟨r, hr, rfl⟩ := Option.map_eq_some_iff.mp hs
  have hi := h.stream.step hr
  have hc := of_decide_eq_true hc
  cases a with
  | write flags data =>
      cases hr
      exact h.hand hi rfl rfl (write_hands s.run.st flags data) hc
  | read length =>
      rcases s.run.st.read_spec s.run.log.nextRead length with ⟨-, he⟩ | ⟨-, -, he⟩ | ⟨-, -, he⟩
      · simp only [PipeRun.step, PipeRun.hands, he] at hr ⊢
        cases hr
        refine h.ask length (g := [_]) hi rfl rfl (fun b hb => ?_) fun w hw => .inl hw
        rw [List.mem_singleton.mp hb]
        exact drainChunks_length _ length
      · simp only [PipeRun.step, PipeRun.hands, he] at hr ⊢
        cases hr
        exact h.ask length (g := []) hi rfl (List.append_nil _).symm (fun b hb => by cases hb)
          fun w hw => .inl hw
      · simp only [PipeRun.step, PipeRun.hands, he] at hr ⊢
        cases hr
        refine h.ask length (g := []) hi rfl (List.append_nil _).symm (fun b hb => by cases hb)
          fun w hw => ?_
        rcases List.mem_append.mp hw with hw | hw
        · exact .inl hw
        · exact .inr (List.mem_singleton.mp hw)
  | close side =>
      cases hr
      simp only [PipeRun.hands, Option.toList_none, List.append_nil]
      refine h.quiet hi rfl fun w hw => ?_
      cases side with
      | read => exact hw
      | write => cases hw
  | resume k =>
      simp only [PipeRun.step] at hr
      split at hr
      · cases hr
      · rename_i c hk
        split at hr
        · cases hr
          have hw : s.run.writes (.resume k) = c.data.drop c.offset := by
            rw [PipeRun.writes, hk]
            rfl
          have hh : s.run.hands (.resume k) = (s.run.st.writeMore k c.data c.offset).handed := by
            rw [PipeRun.hands, hk]
            rfl
          rw [hw] at hc
          simp only [hh]
          exact h.hand hi rfl rfl (writeMore_hands s.run.st k c.data c.offset) hc
        · cases hr
  | waitForPoll =>
      cases hr
      simp only [PipeRun.hands, Option.toList_none, List.append_nil]
      exact h.quiet hi rfl fun w hw => hw

end Served
theorem served (h : Reach step (handsWithin · ·) start s) : Served s :=
  h.invariant .start fun _ _ _ hI hC hs => hI.step hC hs

end PipeReads

/-! ### Both -/

/-- **A read gets at most what it asked for.**  In runs in which a read that waits is handed no more
than it asked for, no read gets more, on a terminal and on a pipe; and what was given and is not
read yet is buffered, in order. -/
theorem reads_bounded (r : TtyRun) (s : PipeReads) :
    (Reach step (handsWithin · ·) .start r →
      (∀ x ∈ r.term.resolved, ∀ n ∈ r.asked[x.reader]?, x.data.length ≤ n) ∧
      ∀ side, r.term.readBy side ++ (r.term.buffer side).flatten = r.given side) ∧
    (Reach PipeReads.step (PipeReads.handsWithin · ·) .start s →
      (∀ x ∈ s.got, ∀ n ∈ s.asked[x.1]?, x.2.length ≤ n) ∧
      (s.got.map Prod.snd).flatten ++ s.run.st.buffer.flatten =
        (s.run.log.accepted.map Prod.snd).flatten) := by
  have hget : ∀ {l : List Nat} {i m : Nat}, m ≤ l.getD i 0 → ∀ n ∈ l[i]?, m ≤ n := by
    intro l i m h n hn
    rw [List.getD_eq_getElem?_getD, Option.mem_def.mp hn] at h
    exact h
  refine ⟨fun h => ?_, fun h => ?_⟩
  · have hs := served h
    exact ⟨fun x hx => hget (hs.within x hx).2, hs.stream⟩
  · have hs := PipeReads.served h
    exact ⟨fun x hx => hget (hs.within x hx).2, hs.got ▸ hs.stream.stream⟩

/-- A read that waits for three bytes, and one that leaves a byte in the buffer. -/
theorem reads_bounded_rest :
    (∃ r, Reach step (handsWithin · ·) .start r ∧
      r.term.resolved = [⟨.slave, 0, [0x61, 0x62, 0x0a]⟩] ∧ r.asked = [3] ∧
      (∀ x ∈ r.term.resolved, ∀ n ∈ r.asked[x.reader]?, x.data.length ≤ n) ∧
      ∀ side, r.term.readBy side ++ (r.term.buffer side).flatten = r.given side) ∧
    ∃ s, Reach PipeReads.step (PipeReads.handsWithin · ·) .start s ∧
      s.got = [(0, [1, 2])] ∧ s.asked = [2] ∧ s.run.st.buffer = [[3]] ∧
      (∀ x ∈ s.got, ∀ n ∈ s.asked[x.1]?, x.2.length ≤ n) ∧
      (s.got.map Prod.snd).flatten ++ s.run.st.buffer.flatten =
        (s.run.log.accepted.map Prod.snd).flatten := by
  obtain ⟨r, hr, h₁, h₂⟩ := Reach.exists_of_execIf step (handsWithin · ·) .start
    [.read .slave 3, .write .master (fun _ => 0) [0x61, 0x62, 0x0a]] (P := fun r =>
      r.term.resolved = [⟨.slave, 0, [0x61, 0x62, 0x0a]⟩] ∧ r.asked = [3]) (by decide +kernel)
  obtain ⟨s, hs, h₃, h₄, h₅⟩ := Reach.exists_of_execIf PipeReads.step
    (PipeReads.handsWithin · ·) .start [.write O_WRONLY [1, 2, 3], .read 2] (P := fun s =>
      s.got = [(0, [1, 2])] ∧ s.asked = [2] ∧ s.run.st.buffer = [[3]]) (by decide +kernel)
  exact ⟨⟨r, hr, h₁, h₂, (reads_bounded r s).1 hr⟩,
    ⟨s, hs, h₃, h₄, h₅, (reads_bounded r s).2 hs⟩⟩

/-- **A read gets more than it asked for.**  Reads of two bytes that wait are handed three, by the
slave, by the master, by an echo and by a write to a pipe. -/
theorem reads_bounded_fails :
    (∃ r, Reach step Any .start r ∧ r.asked = [2] ∧
      r.term.resolved = [⟨.master, 0, [1, 2, 3]⟩]) ∧
    (∃ r, Reach step Any .start r ∧ r.asked = [2] ∧
      r.term.resolved = [⟨.slave, 0, [0x61, 0x62, 0x0a]⟩]) ∧
    (∃ r, Reach step Any .start r ∧ r.asked = [2] ∧
      r.term.resolved = [⟨.master, 0, [0x08, 0x20, 0x08]⟩]) ∧
    ∃ s, Reach PipeReads.step Any .start s ∧ s.asked = [2] ∧ s.got = [(0, [1, 2, 3])] :=
  ⟨Reach.exists_of_exec _ _ [.read .master 2, .write .slave (fun _ => 0) [1, 2, 3]]
      (by decide +kernel),
    Reach.exists_of_exec _ _ [.read .slave 2, .write .master (fun _ => 0) [0x61, 0x62, 0x0a]]
      (by decide +kernel),
    Reach.exists_of_exec _ _ [.setDiscipline none (some false) none,
      .write .master (fun _ => 0) [0x61], .setDiscipline none (some true) none, .read .master 2,
      .write .master (fun _ => 0) [0x7f]] (by decide +kernel),
    Reach.exists_of_exec _ _ [.read 2, .write O_WRONLY [1, 2, 3]] (by decide +kernel)⟩

end SecureExec.Kernel
