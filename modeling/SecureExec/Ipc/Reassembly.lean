import SecureExec.Ipc.Client
import SecureExec.Lib.Lts

/-!
# Ipc — Reassembly — frames out of chunks

The client as a step function: chunks arrive while it has its listeners, it may be closed at any
time, and the socket may close.  `react` is what `onMessage` does during one call of `handleData`;
it may differ from call to call.

* `drain_stream`: on the encodings of some frames and a part of the next one, the loop delivers the
  frames in order, up to one whose callback closes the client.
* `feed_stream`: so do any number of chunks.
* `drain_last`: the frame whose callback closes the client is the last one.
-/

namespace Ipc.Host
open Wire

/-- The bytes `encodeFrame` writes for a frame; none where it throws. -/
def frameBytes (t : BinaryFrame) : List UInt8 := (encodeFrame t).toOption.getD []

/-- A frame within the limits of the format, with fields in the ranges of their wire types. -/
def Valid (t : BinaryFrame) : Prop :=
  ∃ f : Native.BinaryFrame, toHost f = t ∧ f.WithinLimits ∧
    ∀ n, f.callId? = some n → ExactDouble n

/-- The bytes are a length, and a body of that length which decodes to the frame. -/
structure Framed (t : BinaryFrame) (bytes body : List UInt8) : Prop where
  eq : bytes = be 4 body.length ++ body
  small : body.length ≤ MAX_MESSAGE_SIZE
  decodes : decodeFrame body = .ok t

/-- The native encoder's body of a frame, as the host reads it. -/
theorem decodeFrame_encodeBody {f : Native.BinaryFrame} {body : List UInt8}
    (h : Native.encodeBody f = .ok body) (hl : body.length ≤ Native.MAX_FRAME_SIZE)
    (hx : ∀ n, f.callId? = some n → ExactDouble n) : decodeFrame body = .ok (toHost f) := by
  have hd := Native.decodeBody_encodeBody h (Nat.lt_of_le_of_lt hl Native.maxFrame_lt)
  rw [decodeFrame_of_native hd, (roundCallId_eq_iff f).mpr hx]

theorem Valid.framed {t : BinaryFrame} (h : Valid t) :
    encodeFrame t = .ok (frameBytes t) ∧ ∃ body, Framed t (frameBytes t) body := by
  obtain ⟨f, rfl, hw, hx⟩ := h
  obtain ⟨bytes, hb⟩ := (Native.encodeFrameInto_isOk_iff f).mpr hw
  have he : encodeFrame (toHost f) = .ok bytes := encodeFrame_toHost.mpr hb
  have hbytes : frameBytes (toHost f) = bytes := by
    rw [frameBytes, he]
    rfl
  obtain ⟨body, hbody, hl, rfl⟩ := Native.encodeFrameInto_eq_ok hb
  rw [hbytes]
  refine ⟨he, body, ?_, hl, decodeFrame_encodeBody hbody hl hx⟩
  rw [be_ofNat32]

/-- What is there of a frame that has not arrived in full. -/
def PartOf (part : List UInt8) : Prop :=
  part = [] ∨ ∃ t s, Valid t ∧ frameBytes t = part ++ s ∧ s ≠ []

theorem ofBe_length {n : Nat} (h : n ≤ MAX_MESSAGE_SIZE) : ofBe (be 4 n) = n :=
  ofBe_be_of_lt (Nat.lt_of_le_of_lt h (by decide))

/-- A part of a frame is not read as a frame. -/
theorem PartOf.waits {part : List UInt8} (h : PartOf part) :
    part.length < 4 ∨ (4 ≤ part.length ∧ ofBe (part.take 4) ≤ MAX_MESSAGE_SIZE ∧
      part.length < 4 + ofBe (part.take 4)) := by
  obtain rfl | ⟨t, s, hv, hs, hne⟩ := h
  · exact .inl (by decide)
  · obtain ⟨-, body, heq, hsmall, -⟩ := hv.framed
    by_cases h4 : part.length < 4
    · exact .inl h4
    · rw [heq] at hs
      have htake : part.take 4 = be 4 body.length := by
        have hl := congrArg (List.take 4) hs
        rw [List.take_left' (length_be 4 _), List.take_append_of_le_length (by omega)] at hl
        exact hl.symm
      have hlen := congrArg List.length hs
      have hpos := List.length_pos_iff.mpr hne
      rw [List.length_append, List.length_append, length_be] at hlen
      rw [htake, ofBe_length hsmall]
      exact .inr ⟨by omega, hsmall, by omega⟩

namespace IpcClient

/-! ### The loop -/

variable {c : IpcClient} (react : List BinaryFrame → Reaction) (fuel : Nat)

theorem drain_part (h : Cursors c) (hp : PartOf c.pending) : drain react fuel c = .ok c := by
  cases fuel with
  | zero => rfl
  | succ fuel =>
      rw [drain_succ react fuel h]
      obtain h4 | ⟨h4, hmax, hw⟩ := hp.waits
      · rw [if_pos h4]
      · rw [if_neg (Nat.not_lt.mpr h4), if_neg (Nat.not_lt.mpr hmax), if_pos hw]

theorem pending_close (h : c.attached = true) : c.close.pending = [] := by
  rw [close, if_pos h, pending]
  rfl

theorem attached_close (c : IpcClient) : c.close.attached = false := by
  rw [close]
  split
  · rfl
  · rename_i h
    exact Bool.eq_false_iff.mpr h

theorem delivered_close (c : IpcClient) : c.close.delivered = c.delivered := by
  rw [close]
  split <;> rfl

theorem delivered_deliver (c : IpcClient)
    (frame : BinaryFrame) : (deliver react c frame).delivered = c.delivered ++ [frame] := by
  simp only [deliver]
  split
  · exact delivered_close _
  · rfl

variable {t : BinaryFrame}

/-- A call that leaves the client closed ends the loop. -/
theorem turn_stops {react : List BinaryFrame → Reaction} (h : Cursors c) (ha : c.attached = true)
    (hs : (react (c.delivered ++ [t])).Stops) :
    Cursors (after (turn react fuel c t)) ∧ (after (turn react fuel c t)).attached = false ∧
      (after (turn react fuel c t)).delivered = c.delivered ++ [t] := by
  have hd := cursors_deliver react h t
  have hdel := delivered_deliver react c t
  rw [turn]
  cases hthrow : (react (c.delivered ++ [t])).throws with
  | some e =>
      refine ⟨cursors_close (cursors_onError hd e), attached_close _, ?_⟩
      simp only [after_error, delivered_close]
      exact hdel
  | none =>
      have hclose : (react (c.delivered ++ [t])).closes = true :=
        hs.resolve_right fun h' => h' hthrow
      have heq : deliver react c t = close { c with delivered := c.delivered ++ [t] } := by
        rw [deliver]
        dsimp only
        rw [if_pos hclose]
      have hnil : (deliver react c t).pending = [] := by
        rw [heq]
        exact pending_close ha
      dsimp only
      rw [drain_part react fuel hd (hnil ▸ .inl rfl)]
      refine ⟨hd, ?_, hdel⟩
      rw [after_ok, heq, attached_close]

/-- A call that returns and leaves the client open. -/
theorem turn_goes {react : List BinaryFrame → Reaction}
    (hs : ¬ (react (c.delivered ++ [t])).Stops) :
    turn react fuel c t = drain react fuel { c with delivered := c.delivered ++ [t] } := by
  have hclose : ¬ (react (c.delivered ++ [t])).closes = true := fun h' => hs (.inl h')
  have hthrow : (react (c.delivered ++ [t])).throws = none :=
    not_not.mp fun h' => hs (.inr h')
  rw [turn, hthrow, deliver]
  dsimp only
  rw [if_neg hclose]

variable {more : List UInt8}

/-- One frame off the front of what is pending. -/
theorem drain_frame (h : Cursors c) {bytes body : List UInt8} (hf : Framed t bytes body)
    (hp : c.pending = bytes ++ more) :
    ∃ c₁ : IpcClient, Cursors c₁ ∧ c₁.pending = more ∧ c₁.attached = c.attached ∧
      c₁.delivered = c.delivered ∧
      drain react (fuel + 1) c = turn react fuel c₁ t := by
  have hlen := ofBe_length hf.small
  have htake : c.pending.take 4 = be 4 body.length := by
    rw [hp, hf.eq, List.append_assoc, List.take_left' (length_be 4 _)]
  have hdrop : c.pending.drop 4 = body ++ more := by
    rw [hp, hf.eq, List.append_assoc, List.drop_left' (length_be 4 _)]
  have hsize : c.pending.length = 4 + (body.length + more.length) := by
    rw [hp, hf.eq, List.length_append, List.length_append, length_be, Nat.add_assoc]
  have hn : 4 + body.length ≤ c.pending.length := by omega
  obtain ⟨hc, hpc⟩ := consume_spec h hn
  refine ⟨_, hc, ?_, rfl, rfl, ?_⟩
  · rw [hpc, ← List.drop_drop, hdrop, List.drop_left]
  · rw [drain_succ react fuel h, htake, hlen, if_neg (by omega),
      if_neg (Nat.not_lt.mpr hf.small), if_neg (by omega), hdrop, List.take_left]
    simp only [hf.decodes]

/-- The frames were delivered in order, up to one whose callback closed the client. -/
structure Streamed (react : List BinaryFrame → Reaction) (c c' : IpcClient)
    (ts : List BinaryFrame) (part : List UInt8) (j : Nat) : Prop where
  cursors : Cursors c'
  le : j ≤ ts.length
  delivered : c'.delivered = c.delivered ++ ts.take j
  before : ∀ i, 0 < i → i < j → ¬ (react (c.delivered ++ ts.take i)).Stops
  all : c'.attached = true → j = ts.length ∧ c'.pending = part
  closed : c'.attached = false → 0 < j ∧ (react c'.delivered).Stops

variable {ts : List BinaryFrame}

theorem drain_stream (h : Cursors c) (ha : c.attached = true) (hts : ∀ t ∈ ts, Valid t)
    {part : List UInt8} (hpart : PartOf part) (hp : c.pending = ts.flatMap frameBytes ++ part)
    (hfuel : ts.length ≤ fuel) :
    ∃ j, Streamed react c (after (drain react fuel c)) ts part j := by
  induction ts generalizing c fuel with
  | nil =>
      rw [List.flatMap_nil, List.nil_append] at hp
      rw [drain_part react fuel h (hp ▸ hpart)]
      refine ⟨0, h, le_rfl, ?_, ?_, ?_, ?_⟩
      · rw [List.take_nil, List.append_nil]
        rfl
      · intro i hi hi'
        omega
      · intro _
        exact ⟨rfl, hp⟩
      · intro hf
        rw [after_ok, ha] at hf
        cases hf
  | cons t ts ih =>
      cases fuel with
      | zero => cases hfuel
      | succ fuel =>
          obtain ⟨-, body, hf⟩ := (hts t List.mem_cons_self).framed
          rw [List.flatMap_cons, List.append_assoc] at hp
          obtain ⟨c₁, h₁, hp₁, ha₁, hd₁, heq⟩ := drain_frame react fuel h hf hp
          have hat₁ : c₁.attached = true := ha₁.trans ha
          rw [heq]
          by_cases hs : (react (c.delivered ++ [t])).Stops
          · rw [← hd₁] at hs
            obtain ⟨hc, hoff, hdel⟩ := turn_stops fuel h₁ hat₁ hs
            refine ⟨1, hc, Nat.le_add_left 1 _, ?_, ?_, ?_, ?_⟩
            · rw [hdel, hd₁]
              rfl
            · intro i hi hi'
              omega
            · intro hatt
              rw [hoff] at hatt
              cases hatt
            · intro _
              rw [hdel]
              exact ⟨Nat.one_pos, hs⟩
          · have hgo : ¬ (react (c₁.delivered ++ [t])).Stops := by
              rw [hd₁]
              exact hs
            have hc : Cursors { c₁ with delivered := c₁.delivered ++ [t] } :=
              ⟨h₁.order, h₁.inside, h₁.room⟩
            rw [turn_goes fuel hgo]
            obtain ⟨j, hj⟩ := ih fuel hc hat₁
              (fun t' ht' => hts t' (List.mem_cons_of_mem _ ht')) hp₁
              (Nat.le_of_succ_le_succ hfuel)
            have hbefore := hj.before
            simp only [hd₁, List.append_assoc] at hbefore
            refine ⟨j + 1, hj.cursors, Nat.succ_le_succ hj.le, ?_, ?_, ?_, ?_⟩
            · refine hj.delivered.trans ?_
              simp only [hd₁, List.append_assoc]
              rfl
            · intro i hi hi'
              obtain rfl | i := i
              · omega
              · by_cases h0 : i = 0
                · subst h0
                  exact hs
                · exact hbefore i (Nat.pos_of_ne_zero h0) (by omega)
            · intro hatt
              obtain ⟨hall, hrest⟩ := hj.all hatt
              exact ⟨congrArg Nat.succ hall, hrest⟩
            · intro hatt
              exact ⟨Nat.succ_pos j, (hj.closed hatt).2⟩

/-! ### A call of `handleData` -/

variable (alloc : AllocUnsafe)

/-- Making room and compacting leave what is pending, what was delivered and the listeners. -/
theorem handleData_eq (react : List BinaryFrame → Reaction)
    (h : Cursors c) (chunk : List UInt8) :
    ∃ c₁ fuel, Cursors c₁ ∧ c₁.pending = c.pending ++ chunk ∧ c₁.attached = c.attached ∧
      c₁.delivered = c.delivered ∧ fuel = c₁.pending.length ∧
      (handleData alloc react c chunk).pending = (after (drain react fuel c₁)).pending ∧
      (handleData alloc react c chunk).attached = (after (drain react fuel c₁)).attached ∧
      (handleData alloc react c chunk).delivered = (after (drain react fuel c₁)).delivered := by
  obtain ⟨hc, hp, hroom, ha, hd⟩ := ensureCapacity_spec alloc h chunk.length
  obtain ⟨hc₁, hp₁⟩ := append_spec hc chunk hroom
  refine ⟨_, _, hc₁, by rw [hp₁, hp], ha, hd, (length_pending hc₁).symm, ?_⟩
  have hdrain := cursors_drain react ((ensureCapacity alloc c chunk.length).writePos +
    chunk.length - (ensureCapacity alloc c chunk.length).readPos) hc₁
  rw [handleData]
  dsimp only
  split
  · rename_i heq
    rw [heq]
    exact ⟨rfl, rfl, rfl⟩
  · rename_i heq
    rw [heq] at hdrain ⊢
    split
    · exact ⟨pending_compact hdrain, rfl, rfl⟩
    · exact ⟨rfl, rfl, rfl⟩

theorem length_le_flatMap (hts : ∀ t ∈ ts, Valid t) :
    ts.length ≤ (ts.flatMap frameBytes).length := by
  induction ts with
  | nil => exact le_rfl
  | cons t ts ih =>
      obtain ⟨-, body, hf⟩ := (hts t List.mem_cons_self).framed
      have hrest := ih fun t' ht' => hts t' (List.mem_cons_of_mem _ ht')
      rw [List.flatMap_cons, List.length_append, hf.eq, List.length_append, length_be,
        List.length_cons]
      omega

theorem handleData_stream (react : List BinaryFrame → Reaction)
    (h : Cursors c) (ha : c.attached = true) (chunk : List UInt8)
    (hts : ∀ t ∈ ts, Valid t) {part : List UInt8} (hpart : PartOf part)
    (hp : c.pending ++ chunk = ts.flatMap frameBytes ++ part) :
    ∃ j, Streamed react c (handleData alloc react c chunk) ts part j := by
  obtain ⟨c₁, fuel, h₁, hp₁, ha₁, hd₁, rfl, hp', ha', hd'⟩ := handleData_eq alloc react h chunk
  have hlen := length_le_flatMap hts
  obtain ⟨j, hj⟩ := drain_stream react c₁.pending.length h₁ (ha₁.trans ha) hts hpart
    (hp₁.trans hp) (by rw [hp₁, hp, List.length_append]; omega)
  have hbefore := hj.before
  have hdel := hj.delivered
  rw [hd₁] at hbefore hdel
  refine ⟨j, cursors_handleData alloc react h chunk, hj.le, hd'.trans hdel, hbefore, ?_, ?_⟩
  · intro hatt
    obtain ⟨hall, hrest⟩ := hj.all (ha'.symm.trans hatt)
    exact ⟨hall, hp'.trans hrest⟩
  · intro hatt
    rw [hd']
    exact hj.closed (ha'.symm.trans hatt)

/-! ### Chunks -/

/-- The listener of `data`: chunks arrive as long as the client has its listeners. -/
def feed (alloc : AllocUnsafe) (c : IpcClient)
    (chunks : List (List UInt8 × (List BinaryFrame → Reaction))) : IpcClient :=
  chunks.foldl (fun c e => if c.attached then handleData alloc e.2 c e.1 else c) c

/-- The bytes of the chunks. -/
def received (chunks : List (List UInt8 × (List BinaryFrame → Reaction))) : List UInt8 :=
  chunks.flatMap Prod.fst

/-- What a client has done with some chunks of the stream `ts`: it delivered the first `m` frames,
no other frame has arrived in full while it is open, and the last callback closed it if it is
not. -/
structure Reassembled (ts : List BinaryFrame)
    (chunks : List (List UInt8 × (List BinaryFrame → Reaction))) (c : IpcClient) (m : Nat) :
    Prop where
  cursors : Cursors c
  le : m ≤ ts.length
  delivered : c.delivered = ts.take m
  arrived : ((ts.take m).flatMap frameBytes).length ≤ (received chunks).length
  next : c.attached = true → ∀ n, m < n → n ≤ ts.length →
    (received chunks).length < ((ts.take n).flatMap frameBytes).length
  pending : c.attached = true → received chunks = (ts.take m).flatMap frameBytes ++ c.pending
  closed : c.attached = false → ∃ e ∈ chunks, (e.2 c.delivered).Stops

/-- A prefix of a stream: the frames in it and a part of the next one. -/
theorem stream_split (hts : ∀ t ∈ ts, Valid t) {r : List UInt8}
    (h : r ++ more = ts.flatMap frameBytes) :
    ∃ m part, m ≤ ts.length ∧ r = (ts.take m).flatMap frameBytes ++ part ∧ PartOf part ∧
      ∀ n, m < n → n ≤ ts.length → r.length < ((ts.take n).flatMap frameBytes).length := by
  by_cases hr : r.length < (ts.flatMap frameBytes).length
  · obtain ⟨m, part, t, s, hm, hr', ht, hs⟩ := prefix_split h hr
    obtain ⟨hlt, hget⟩ := List.getElem?_eq_some_iff.mp hm
    refine ⟨m, part, Nat.le_of_lt hlt, hr', .inr ⟨t, s, ?_, ht, hs⟩, ?_⟩
    · rw [← hget]
      exact hts _ (List.getElem_mem hlt)
    · intro n hn hn'
      obtain ⟨k, rfl⟩ : ∃ k, n = m + 1 + k := ⟨n - (m + 1), by omega⟩
      have hpos := List.length_pos_iff.mpr hs
      rw [hr', List.take_add, List.take_succ_eq_append_getElem hlt, hget]
      simp only [List.flatMap_append, List.length_append, List.flatMap_cons, List.flatMap_nil,
        List.append_nil, ht]
      omega
  · have hlen := congrArg List.length h
    rw [List.length_append] at hlen
    have hmore : more = [] := List.eq_nil_of_length_eq_zero (by omega)
    subst hmore
    refine ⟨ts.length, [], le_rfl, ?_, .inl rfl, ?_⟩
    · rw [List.take_length, List.append_nil, ← h, List.append_nil]
    · intro n hn hn'
      omega

theorem flatMap_take_add (ts : List BinaryFrame) (m k : Nat) :
    (ts.take (m + k)).flatMap frameBytes =
      (ts.take m).flatMap frameBytes ++ ((ts.drop m).take k).flatMap frameBytes := by
  rw [List.take_add, List.flatMap_append]

theorem received_concat (chunks : List (List UInt8 × (List BinaryFrame → Reaction)))
    (e : List UInt8 × (List BinaryFrame → Reaction)) :
    received (chunks ++ [e]) = received chunks ++ e.1 := by
  simp [received]

/-- One more chunk. -/
theorem Reassembled.next_chunk (e : List UInt8 × (List BinaryFrame → Reaction))
    (hts : ∀ t ∈ ts, Valid t) {chunks : List (List UInt8 × (List BinaryFrame → Reaction))}
    {m : Nat} (h : Reassembled ts chunks c m) (ha : c.attached = true)
    (hr : received (chunks ++ [e]) ++ more = ts.flatMap frameBytes) :
    ∃ m', Reassembled ts (chunks ++ [e]) (handleData alloc e.2 c e.1) m' := by
  rw [received_concat] at hr
  have hpend := h.pending ha
  have hdrop : ∀ t ∈ ts.drop m, Valid t := fun t ht => hts t (List.mem_of_mem_drop ht)
  have hrest : (c.pending ++ e.1) ++ more = (ts.drop m).flatMap frameBytes := by
    have hall : (ts.take m).flatMap frameBytes ++ (ts.drop m).flatMap frameBytes =
        ts.flatMap frameBytes := by rw [← List.flatMap_append, List.take_append_drop]
    rw [← hall] at hr
    have hcancel : (ts.take m).flatMap frameBytes ++ ((c.pending ++ e.1) ++ more) =
        (ts.take m).flatMap frameBytes ++ (ts.drop m).flatMap frameBytes := by
      rw [← hr, hpend]
      simp only [List.append_assoc]
    exact List.append_cancel_left hcancel
  obtain ⟨k, part, hk, hsplit, hpart, hnext⟩ := stream_split hdrop hrest
  obtain ⟨j, hj⟩ := handleData_stream alloc e.2 h.cursors ha e.1
    (fun t ht => hdrop t (List.mem_of_mem_take ht)) hpart hsplit
  have hjk : j ≤ k := hj.le.trans (List.length_take_le k _)
  rw [List.length_drop] at hk
  have htake : ((ts.drop m).take k).take j = (ts.drop m).take j := by
    rw [List.take_take, Nat.min_eq_left hjk]
  have hm := h.le
  have hr' : received (chunks ++ [e]) = (ts.take m).flatMap frameBytes ++ (c.pending ++ e.1) := by
    rw [received_concat, hpend]
    simp only [List.append_assoc]
  refine ⟨m + j, hj.cursors, by omega, ?_, ?_, ?_, ?_, ?_⟩
  · rw [hj.delivered, h.delivered, htake, ← List.take_add]
  · have hle : (((ts.drop m).take j).flatMap frameBytes).length ≤
        (((ts.drop m).take k).flatMap frameBytes).length := by
      obtain ⟨i, rfl⟩ : ∃ i, k = j + i := ⟨k - j, by omega⟩
      rw [flatMap_take_add, List.length_append]
      exact Nat.le_add_right _ _
    rw [hr', hsplit, flatMap_take_add]
    simp only [List.length_append]
    omega
  · intro hatt n hn hn'
    obtain ⟨hall, -⟩ := hj.all hatt
    rw [List.length_take_of_le (by rw [List.length_drop]; exact hk)] at hall
    obtain ⟨i, rfl⟩ : ∃ i, n = m + i := ⟨n - m, by omega⟩
    have hlt := hnext i (by omega) (by rw [List.length_drop]; omega)
    rw [hr', flatMap_take_add]
    simp only [List.length_append] at hlt ⊢
    omega
  · intro hatt
    obtain ⟨hall, hp'⟩ := hj.all hatt
    rw [List.length_take_of_le (by rw [List.length_drop]; exact hk)] at hall
    rw [hr', hsplit, hp', hall, flatMap_take_add, List.append_assoc]
  · intro hatt
    exact ⟨e, List.mem_append_right _ List.mem_cons_self, (hj.closed hatt).2⟩

theorem cursors_connected : Cursors (connected alloc) := by
  have hl : (alloc INITIAL_BUF_SIZE).toList.length = INITIAL_BUF_SIZE := Vector.length_toList
  refine ⟨le_rfl, Nat.zero_le _, ?_⟩
  rw [connected, hl]
  decide

/-- **Whatever the chunks, the frames are delivered in order, each when its last byte arrives.** -/
theorem feed_stream (hts : ∀ t ∈ ts, Valid t)
    (chunks : List (List UInt8 × (List BinaryFrame → Reaction)))
    (h : received chunks ++ more = ts.flatMap frameBytes) :
    ∃ m, Reassembled ts chunks (feed alloc (connected alloc) chunks) m := by
  induction chunks using List.reverseRecOn generalizing more with
  | nil =>
      obtain ⟨m, part, hm, hsplit, hpart, hnext⟩ := stream_split hts (r := []) h
      have hlen := congrArg List.length hsplit
      rw [List.length_append, List.length_nil] at hlen
      have hnil : (ts.take m).flatMap frameBytes = [] := List.eq_nil_of_length_eq_zero (by omega)
      have hm0 : m = 0 := by
        have hle : (ts.take m).length ≤ ((ts.take m).flatMap frameBytes).length :=
          length_le_flatMap fun t ht => hts t (List.mem_of_mem_take ht)
        rw [List.length_take_of_le hm] at hle
        omega
      subst hm0
      exact ⟨0, cursors_connected alloc, Nat.zero_le _, rfl, le_rfl, fun _ => hnext, fun _ => rfl,
        fun hatt => nomatch hatt⟩
  | append_singleton chunks e ih =>
      have hfeed : feed alloc (connected alloc) (chunks ++ [e]) =
          if (feed alloc (connected alloc) chunks).attached then
            handleData alloc e.2 (feed alloc (connected alloc) chunks) e.1
          else feed alloc (connected alloc) chunks := by
        rw [feed, List.foldl_append]
        rfl
      have hbefore : received chunks ++ (e.1 ++ more) = ts.flatMap frameBytes := by
        rw [← List.append_assoc, ← received_concat, h]
      obtain ⟨m, hm⟩ := ih hbefore
      rw [hfeed]
      by_cases ha : (feed alloc (connected alloc) chunks).attached = true
      · rw [if_pos ha]
        exact hm.next_chunk alloc e hts ha h
      · rw [if_neg ha]
        refine ⟨m, hm.cursors, hm.le, hm.delivered, ?_, fun h' => absurd h' ha,
          fun h' => absurd h' ha, ?_⟩
        · rw [received_concat, List.length_append]
          exact hm.arrived.trans (Nat.le_add_right _ _)
        · intro hatt
          obtain ⟨e', he', hs⟩ := hm.closed hatt
          exact ⟨e', List.mem_append_left _ he', hs⟩

/-! ### Runs -/

/-- What happens to a connected client. -/
inductive Event where
  /-- A chunk arrives; `react` is what `onMessage` does meanwhile. -/
  | data (chunk : List UInt8) (react : List BinaryFrame → Reaction)
  /-- `close` is called. -/
  | close
  /-- The socket has closed. -/
  | closed

def step (alloc : AllocUnsafe) (c : IpcClient) : Event → Option IpcClient
  | .data chunk react => if c.attached then some (handleData alloc react c chunk) else none
  | .close => some c.close
  | .closed => if c.attached then some { c with attached := false } else none

theorem cursors_step {c' : IpcClient} {ev : Event} (h : Cursors c)
    (hs : step alloc c ev = some c') : Cursors c' := by
  cases ev with
  | data chunk react =>
      rw [step] at hs
      split at hs
      · cases hs
        exact cursors_handleData alloc react h chunk
      · cases hs
  | close =>
      cases hs
      exact cursors_close h
  | closed =>
      rw [step] at hs
      split at hs
      · cases hs
        exact ⟨h.order, h.inside, h.room⟩
      · cases hs

theorem cursors_of_reach {alloc : AllocUnsafe}
    (r : Lts.Reach (step alloc) Lts.Any (connected alloc) c) : Cursors c :=
  r.invariant (cursors_connected alloc) fun _ _ _ h _ hs => cursors_step alloc h hs

/-- A client that was closed stays closed, and delivers nothing. -/
theorem closed_of_reach {alloc : AllocUnsafe} {c' : IpcClient} (h : c.attached = false)
    (r : Lts.Reach (step alloc) Lts.Any c c') :
    c'.attached = false ∧ c'.delivered = c.delivered := by
  refine r.invariant (I := fun c' => c'.attached = false ∧ c'.delivered = c.delivered) ⟨h, rfl⟩ ?_
  rintro t ev u ⟨ha, hd⟩ - hs
  cases ev with
  | data chunk react =>
      rw [step, ha] at hs
      cases hs
  | close =>
      cases hs
      exact ⟨attached_close t, by rw [delivered_close, hd]⟩
  | closed =>
      rw [step, ha] at hs
      cases hs

/-- The loop only adds to what was delivered. -/
theorem drain_prefix (c : IpcClient) :
    c.delivered <+: (after (drain react fuel c)).delivered := by
  induction fuel generalizing c with
  | zero => exact List.prefix_rfl
  | succ fuel ih =>
      rw [drain]
      dsimp only
      split
      · exact List.prefix_rfl
      · split
        · rw [after_error, delivered_close]
          exact List.prefix_rfl
        · split
          · exact List.prefix_rfl
          · split
            · rw [after_error, delivered_close]
              exact List.prefix_rfl
            · rename_i frame _
              set c₁ : IpcClient := { c with readPos := c.readPos + (4 + ofBe
                (subarray c.recvBuf (some c.readPos) (some (c.readPos + 4)))) }
              have hp : c.delivered <+: (deliver react c₁ frame).delivered := by
                rw [delivered_deliver]
                exact List.prefix_append _ _
              split
              · rw [after_error, delivered_close]
                exact hp
              · exact hp.trans (ih _)

variable {L : List BinaryFrame}

/-- **The frame whose callback closes the client is the last one.**  `L` is what was delivered
when a callback of this call ran. -/
theorem drain_last (h : Cursors c) (ha : c.attached = true)
    (hL : L <+: (after (drain react fuel c)).delivered) (hnew : c.delivered.length < L.length)
    (hs : (react L).Stops) :
    L = (after (drain react fuel c)).delivered ∧ (after (drain react fuel c)).attached = false := by
  induction fuel generalizing c with
  | zero =>
      have hle := hL.length_le
      rw [drain, after_ok] at hle
      omega
  | succ fuel ih =>
      have hsame : ∀ {c' : IpcClient}, c'.delivered = c.delivered → ¬ L <+: c'.delivered := by
        intro c' hc' hp
        have hle := hp.length_le
        rw [hc'] at hle
        omega
      rw [drain_succ react fuel h] at hL ⊢
      split at hL
      · exact absurd hL (hsame rfl)
      · rename_i h4
        rw [if_neg h4]
        split at hL
        · exact absurd hL (hsame (delivered_close _))
        · rename_i hmax
          rw [if_neg hmax]
          split at hL
          · exact absurd hL (hsame rfl)
          · rename_i hwait
            rw [if_neg hwait]
            have h₁ := (consume_spec h (Nat.le_of_not_lt hwait)).1
            dsimp only at hL ⊢
            split at hL
            · exact absurd hL (hsame (delivered_close _))
            · rename_i frame _
              set c₁ : IpcClient := { c with readPos := c.readPos + (4 + ofBe (c.pending.take 4)) }
              by_cases hst : (react (c₁.delivered ++ [frame])).Stops
              · obtain ⟨-, hoff, hdel⟩ := turn_stops fuel h₁ ha hst
                rw [hdel] at hL ⊢
                refine ⟨hL.eq_of_length ?_, hoff⟩
                have hle := hL.length_le
                rw [List.length_append, List.length_singleton] at hle ⊢
                exact Nat.le_antisymm hle hnew
              · rw [turn_goes fuel hst] at hL ⊢
                refine ih ⟨h₁.order, h₁.inside, h₁.room⟩ ha hL ?_
                rw [List.length_append, List.length_singleton]
                refine Nat.lt_of_le_of_ne hnew fun heq => hst ?_
                have hpre := drain_prefix react fuel
                  { c₁ with delivered := c₁.delivered ++ [frame] }
                have hlen : L.length = (c₁.delivered ++ [frame]).length := by
                  rw [← heq, List.length_append, List.length_singleton]
                have hlast : L = c₁.delivered ++ [frame] :=
                  (List.prefix_of_prefix_length_le hL hpre hlen.le).eq_of_length hlen
                rw [← hlast]
                exact hs

theorem handleData_last (react : List BinaryFrame → Reaction)
    (h : Cursors c) (ha : c.attached = true) (chunk : List UInt8)
    (hL : L <+: (handleData alloc react c chunk).delivered)
    (hnew : c.delivered.length < L.length) (hs : (react L).Stops) :
    L = (handleData alloc react c chunk).delivered ∧
      (handleData alloc react c chunk).attached = false := by
  obtain ⟨c₁, fuel, h₁, -, ha₁, hd₁, -, -, ha', hd'⟩ := handleData_eq alloc react h chunk
  rw [hd'] at hL ⊢
  rw [ha']
  rw [← hd₁] at hnew
  exact drain_last react fuel h₁ (ha₁.trans ha) hL hnew hs

/-- **Stream reassembly.**  Whatever the chunks of the encodings of valid frames and whatever the
callbacks do, the frames delivered are the first ones in order, and as long as the client is open
all of those that have arrived in full; only a callback that closes it, or throws, ends this; in
every run the cursors are in order and inside the buffer; a client that is closed delivers
nothing more; and the frame whose callback closes the client is the last one. -/
theorem stream_reassembly (alloc : AllocUnsafe) :
    (∀ ts : List BinaryFrame, (∀ t ∈ ts, Valid t) →
      ∀ (chunks : List (List UInt8 × (List BinaryFrame → Reaction))) (more : List UInt8),
        received chunks ++ more = ts.flatMap frameBytes →
        ∃ m, m ≤ ts.length ∧ (feed alloc (connected alloc) chunks).delivered = ts.take m ∧
          ((ts.take m).flatMap frameBytes).length ≤ (received chunks).length ∧
          ((feed alloc (connected alloc) chunks).attached = true → ∀ n, m < n → n ≤ ts.length →
            (received chunks).length < ((ts.take n).flatMap frameBytes).length) ∧
          ((feed alloc (connected alloc) chunks).attached = false →
            ∃ e ∈ chunks, (e.2 (ts.take m)).Stops)) ∧
    ∀ c, Lts.Reach (step alloc) Lts.Any (connected alloc) c →
      c.readPos ≤ c.writePos ∧ c.writePos ≤ c.recvBuf.length ∧ c.close.attached = false ∧
      (c.attached = false → ∀ c', Lts.Reach (step alloc) Lts.Any c c' →
        c'.delivered = c.delivered) ∧
      (c.attached = true → ∀ chunk react L, L <+: (handleData alloc react c chunk).delivered →
        c.delivered.length < L.length → (react L).Stops →
          L = (handleData alloc react c chunk).delivered ∧
            (handleData alloc react c chunk).attached = false) := by
  constructor
  · intro ts hts chunks more h
    obtain ⟨m, hm⟩ := feed_stream alloc hts chunks h
    have hclosed := hm.closed
    rw [hm.delivered] at hclosed
    exact ⟨m, hm.le, hm.delivered, hm.arrived, hm.next, hclosed⟩
  · intro c r
    have hc := cursors_of_reach r
    refine ⟨hc.order, hc.inside, attached_close c, ?_, ?_⟩
    · intro ha c' r'
      exact (closed_of_reach ha r').2
    · intro ha chunk react L hL hnew hs
      exact handleData_last alloc react hc ha chunk hL hnew hs

/-- Two frames in two chunks, cut inside the length of the second one. -/
theorem stream_reassembly_cut :
    let alloc : AllocUnsafe := fun n => Vector.replicate n 0
    (feed alloc (connected alloc) [([0, 0, 0, 4, 4, 1, 115, 7, 0, 0], fun _ => .returns),
        ([0, 3, 8, 1, 115], fun _ => .returns)]).delivered =
      [.injectGlobals "s" [7], .terminateExecution "s"] := by
  intro alloc
  have hvalid : ∀ t ∈ [.injectGlobals "s" [7], .terminateExecution "s"], Valid t := by
    rintro t (_ | ⟨_, _ | ⟨_, ⟨⟩⟩⟩)
    · exact ⟨.injectGlobals "s" [7], rfl,
        ⟨by decide +kernel, by decide +kernel, by decide +kernel⟩, fun _ h => nomatch h⟩
    · exact ⟨.terminateExecution "s", rfl,
        ⟨by decide +kernel, by decide +kernel, by decide +kernel⟩, fun _ h => nomatch h⟩
  obtain ⟨m, hm, hdelivered, -, hnext, hclosed⟩ := (stream_reassembly alloc).1 _ hvalid
    [([0, 0, 0, 4, 4, 1, 115, 7, 0, 0], fun _ => .returns), ([0, 3, 8, 1, 115], fun _ => .returns)]
    [] (by decide +kernel)
  rw [hdelivered]
  refine List.take_of_length_le (not_lt.mp fun hlt => ?_)
  -- every callback returns, so the client is open; and both frames have arrived in full
  refine absurd (hnext (Bool.of_not_eq_false fun hc => ?_) 2 hlt le_rfl) (by decide +kernel)
  obtain ⟨e, he, hs⟩ := hclosed hc
  rcases he with _ | ⟨_, _ | ⟨_, ⟨⟩⟩⟩ <;> simp [Reaction.Stops, Reaction.returns] at hs

end IpcClient

end Ipc.Host
