import SecureExec.Ipc.Decoders

/-!
# Ipc — Client — the receive buffer of the host's client

`IpcClient` with its receive buffer: `ensureCapacity`, `handleData` and `close`.  Bytes between the
two cursors are `pending`; all others are free, and what `allocUnsafe` puts there is a parameter.
`delivered` are the frames `onMessage` was called with, `errors` what `onError` was called with.
What a call of `onMessage` does is a `Reaction` to the frames so far; it may close the client and
it may throw.

* `Cursors`: `readPos ≤ writePos ≤ recvBuf.length`, kept by every operation.
* `append_spec`: whatever the buffer does to make room, a chunk is appended to what is pending.
-/

namespace Ipc.Host
open Wire

/-- Maximum message payload size: 64 MB. -/
def MAX_MESSAGE_SIZE : Nat := 64 * 1024 * 1024

/-- Initial receive buffer size (64 KB). -/
def INITIAL_BUF_SIZE : Nat := 64 * 1024

/-- What a call of `onMessage` does to the client. -/
structure Reaction where
  closes : Bool
  throws : Option JsError
  deriving DecidableEq

/-- The call leaves the client closed: `handleData` closes it when the call throws. -/
def Reaction.Stops (r : Reaction) : Prop := r.closes = true ∨ r.throws ≠ none

instance (r : Reaction) : Decidable r.Stops := inferInstanceAs (Decidable (_ ∨ _))

/-- The call returns and leaves the client open. -/
def Reaction.returns : Reaction := ⟨false, none⟩

/-- The client.  `attached`: it has a socket, with its listeners. -/
structure IpcClient where
  recvBuf : List UInt8
  readPos : Nat
  writePos : Nat
  attached : Bool
  delivered : List BinaryFrame
  errors : List JsError
  deriving DecidableEq

/-- Buffers with arbitrary contents. -/
abbrev AllocUnsafe : Type := (n : Nat) → Vector UInt8 n

/-- `source.copy(target, off)`: what does not fit is left out. -/
def copyInto (target source : List UInt8) (off : Nat) : List UInt8 :=
  target.take off ++ source.take (target.length - off) ++ target.drop (off + source.length)

namespace IpcClient

/-- A client that has just connected. -/
def connected (alloc : AllocUnsafe) : IpcClient where
  recvBuf := (alloc INITIAL_BUF_SIZE).toList
  readPos := 0
  writePos := 0
  attached := true
  delivered := []
  errors := []

/-- `close`: the listeners are removed, the cursors are reset. -/
def close (c : IpcClient) : IpcClient :=
  if c.attached then { c with attached := false, readPos := 0, writePos := 0 } else c

/-- `onError`. -/
def onError (c : IpcClient) (e : JsError) : IpcClient := { c with errors := c.errors ++ [e] }

/-- `while (newSize < required) newSize *= 2`, at most `fuel` times. -/
def grow : Nat → Nat → Nat → Nat
  | 0, newSize, _ => newSize
  | fuel + 1, newSize, required =>
    if newSize < required then grow fuel (newSize * 2) required else newSize

/-- `recvBuf.copyWithin(0, readPos, writePos)` and the cursors after it. -/
def compact (c : IpcClient) : IpcClient :=
  { c with
    recvBuf := copyInto c.recvBuf (subarray c.recvBuf (some c.readPos) (some c.writePos)) 0
    readPos := 0
    writePos := c.writePos - c.readPos }

def ensureCapacity (alloc : AllocUnsafe) (c : IpcClient) (needed : Nat) : IpcClient :=
  let available := c.recvBuf.length - c.writePos
  if available ≥ needed then c
  else
    let unconsumed := c.writePos - c.readPos
    let required := unconsumed + needed
    if required ≤ c.recvBuf.length then compact c
    else
      let newBuf := alloc (grow required c.recvBuf.length required)
      { c with
        recvBuf :=
          copyInto newBuf.toList (subarray c.recvBuf (some c.readPos) (some c.writePos)) 0
        readPos := 0
        writePos := unconsumed }

/-- The loop of `handleData`; `.error` is a `return` out of it.  Every turn consumes the four
bytes of a length, so `fuel` bounds the turns. -/
def drain (react : List BinaryFrame → Reaction) : Nat → IpcClient → Except IpcClient IpcClient
  | 0, c => .ok c
  | fuel + 1, c =>
    if c.writePos - c.readPos < 4 then .ok c
    else
      let payloadLen := ofBe (subarray c.recvBuf (some c.readPos) (some (c.readPos + 4)))
      if payloadLen > MAX_MESSAGE_SIZE then
        .error (c.onError (.error
          s!"Received message size {payloadLen} exceeds maximum {MAX_MESSAGE_SIZE}")).close
      else
        let totalLen := 4 + payloadLen
        if c.writePos - c.readPos < totalLen then .ok c
        else
          let body := subarray c.recvBuf (some (c.readPos + 4)) (some (c.readPos + totalLen))
          let c := { c with readPos := c.readPos + totalLen }
          match decodeFrame body with
          | .error e => .error (c.onError e).close
          | .ok frame =>
            let c := { c with delivered := c.delivered ++ [frame] }
            let r := react c.delivered
            let c := if r.closes then c.close else c
            match r.throws with
            | some e => .error (c.onError e).close
            | none => drain react fuel c

def handleData (alloc : AllocUnsafe) (react : List BinaryFrame → Reaction) (c : IpcClient)
    (chunk : List UInt8) : IpcClient :=
  let c := ensureCapacity alloc c chunk.length
  let c := { c with
    recvBuf := copyInto c.recvBuf chunk c.writePos
    writePos := c.writePos + chunk.length }
  match drain react (c.writePos - c.readPos) c with
  | .error c => c
  | .ok c => if 2 * c.readPos > c.recvBuf.length then compact c else c

/-! ### The cursors -/

/-- The bytes that were received and not yet consumed. -/
def pending (c : IpcClient) : List UInt8 := (c.recvBuf.take c.writePos).drop c.readPos

/-- The cursors are in order and inside the buffer, and the buffer is not empty. -/
structure Cursors (c : IpcClient) : Prop where
  order : c.readPos ≤ c.writePos
  inside : c.writePos ≤ c.recvBuf.length
  room : 0 < c.recvBuf.length

theorem length_copyInto {target source : List UInt8} {off : Nat} (h : off ≤ target.length) :
    (copyInto target source off).length = target.length := by
  simp only [copyInto, List.length_append, List.length_take, List.length_drop]
  omega

theorem length_copyFront (target source : List UInt8) :
    (copyInto target source 0).length = target.length :=
  length_copyInto (Nat.zero_le _)

variable {c : IpcClient}

section

variable (h : Cursors c)
include h

theorem length_pending :
    c.pending.length = c.writePos - c.readPos := by
  have hi := h.inside
  simp only [pending, List.length_drop, List.length_take]
  omega

theorem subarray_pending :
    subarray c.recvBuf (some c.readPos) (some c.writePos) = c.pending := by
  have ho := h.order
  have hi := h.inside
  rw [subarray, clamp, clamp, Option.getD_some, Option.getD_some, Nat.min_eq_left hi,
    Nat.min_eq_left (by omega)]
  rfl

omit h in
/-- What is copied to the front of a buffer is there. -/
theorem take_copyInto {target source : List UInt8} (h : source.length ≤ target.length) :
    (copyInto target source 0).take source.length = source := by
  rw [copyInto, List.take_zero, List.nil_append, Nat.sub_zero, List.take_of_length_le h,
    List.take_left]

theorem cursors_close : Cursors c.close := by
  rw [close]
  split
  · exact ⟨le_rfl, Nat.zero_le _, h.room⟩
  · exact h

theorem cursors_onError (e : JsError) : Cursors (c.onError e) :=
  ⟨h.order, h.inside, h.room⟩

theorem cursors_compact : Cursors c.compact := by
  have hi := h.inside
  have hl := length_copyFront c.recvBuf (subarray c.recvBuf (some c.readPos) (some c.writePos))
  exact ⟨Nat.zero_le _, by simp only [compact, hl]; omega, by simp only [compact, hl]; exact h.room⟩

theorem pending_compact : c.compact.pending = c.pending := by
  have hl : c.pending.length ≤ c.recvBuf.length := by
    have hi := h.inside
    rw [length_pending h]
    omega
  rw [pending, compact, subarray_pending h, List.drop_zero, ← length_pending h, take_copyInto hl]

end

theorem le_grow {newSize required : Nat} (h : 0 < newSize) (fuel : Nat)
    (hf : required ≤ newSize + fuel) : required ≤ grow fuel newSize required ∧
      newSize ≤ grow fuel newSize required := by
  induction fuel generalizing newSize with
  | zero => exact ⟨hf, le_rfl⟩
  | succ fuel ih =>
      rw [grow]
      split
      · have hdouble : 0 < newSize * 2 := by omega
        obtain ⟨h₁, h₂⟩ := ih hdouble (by omega)
        exact ⟨h₁, by omega⟩
      · exact ⟨by omega, le_rfl⟩

theorem ensureCapacity_spec (alloc : AllocUnsafe) (h : Cursors c) (needed : Nat) :
    Cursors (ensureCapacity alloc c needed) ∧
      (ensureCapacity alloc c needed).pending = c.pending ∧
      (ensureCapacity alloc c needed).writePos + needed ≤
        (ensureCapacity alloc c needed).recvBuf.length ∧
      (ensureCapacity alloc c needed).attached = c.attached ∧
      (ensureCapacity alloc c needed).delivered = c.delivered := by
  have ho := h.order
  have hi := h.inside
  have hp := length_pending h
  rw [ensureCapacity]
  dsimp only
  split
  · exact ⟨h, rfl, by omega, rfl, rfl⟩
  · split
    · rename_i hfit
      have hl := length_copyFront c.recvBuf
        (subarray c.recvBuf (some c.readPos) (some c.writePos))
      refine ⟨cursors_compact h, pending_compact h, ?_, rfl, rfl⟩
      simp only [compact, hl]
      omega
    · rename_i hfit
      have hf : c.writePos - c.readPos + needed ≤
          c.recvBuf.length + (c.writePos - c.readPos + needed) := Nat.le_add_left _ _
      have hg := (le_grow h.room _ hf).1
      set size := grow (c.writePos - c.readPos + needed) c.recvBuf.length
        (c.writePos - c.readPos + needed)
      have hsize : (alloc size).toList.length = size := Vector.length_toList
      have hl : (copyInto (alloc size).toList
          (subarray c.recvBuf (some c.readPos) (some c.writePos)) 0).length = size := by
        rw [length_copyFront, hsize]
      refine ⟨⟨Nat.zero_le _, ?_, ?_⟩, ?_, ?_, rfl, rfl⟩
      · dsimp only
        rw [hl]
        omega
      · dsimp only
        rw [hl]
        omega
      · simp only [pending]
        rw [subarray_pending h, List.drop_zero, ← hp, take_copyInto (by rw [hsize]; omega)]
        rfl
      · dsimp only
        rw [hl]
        omega

/-- The chunk behind what was pending. -/
theorem append_spec (h : Cursors c) (chunk : List UInt8)
    (hroom : c.writePos + chunk.length ≤ c.recvBuf.length) :
    Cursors { c with
      recvBuf := copyInto c.recvBuf chunk c.writePos
      writePos := c.writePos + chunk.length } ∧
    pending { c with
      recvBuf := copyInto c.recvBuf chunk c.writePos
      writePos := c.writePos + chunk.length } = c.pending ++ chunk := by
  have ho := h.order
  have hl : (copyInto c.recvBuf chunk c.writePos).length = c.recvBuf.length :=
    length_copyInto h.inside
  refine ⟨⟨by dsimp only; omega, by dsimp only; rw [hl]; exact hroom,
    by dsimp only; rw [hl]; exact h.room⟩, ?_⟩
  have htake : (c.recvBuf.take c.writePos).length = c.writePos :=
    List.length_take_of_le h.inside
  have hchunk : chunk.take (c.recvBuf.length - c.writePos) = chunk :=
    List.take_of_length_le (by omega)
  have hlen : (c.recvBuf.take c.writePos ++ chunk).length = c.writePos + chunk.length := by
    rw [List.length_append, htake]
  simp only [pending, copyInto, hchunk]
  rw [← hlen, List.take_left, List.drop_append_of_le_length (by omega)]

/-! ### One turn of the loop -/

theorem subarray_of_pending (h : Cursors c) {a b : Nat} (hab : a ≤ b)
    (hb : b ≤ c.pending.length) :
    subarray c.recvBuf (some (c.readPos + a)) (some (c.readPos + b)) =
      (c.pending.take b).drop a := by
  have ho := h.order
  have hi := h.inside
  rw [length_pending h] at hb
  rw [subarray, clamp, clamp, Option.getD_some, Option.getD_some, Nat.min_eq_left (by omega),
    Nat.min_eq_left (by omega), pending, List.take_drop, List.take_take,
    Nat.min_eq_left (by omega), List.drop_drop]

/-- The client once it has consumed `n` bytes. -/
theorem consume_spec (h : Cursors c) {n : Nat} (hn : n ≤ c.pending.length) :
    Cursors { c with readPos := c.readPos + n } ∧
      pending { c with readPos := c.readPos + n } = c.pending.drop n := by
  rw [length_pending h] at hn
  have ho := h.order
  exact ⟨⟨by dsimp only; omega, h.inside, h.room⟩, by simp only [pending, List.drop_drop]⟩

/-- The client once a frame was handed to `onMessage`. -/
def deliver (react : List BinaryFrame → Reaction) (c : IpcClient) (frame : BinaryFrame) :
    IpcClient :=
  let c := { c with delivered := c.delivered ++ [frame] }
  if (react c.delivered).closes then c.close else c

/-- What follows once a frame was taken off: the call of `onMessage` and the next turns. -/
def turn (react : List BinaryFrame → Reaction) (fuel : Nat) (c : IpcClient) (t : BinaryFrame) :
    Except IpcClient IpcClient :=
  match (react (c.delivered ++ [t])).throws with
  | some e => .error ((deliver react c t).onError e).close
  | none => drain react fuel (deliver react c t)

variable (react : List BinaryFrame → Reaction)

/-- The loop on the bytes that are pending. -/
theorem drain_succ (fuel : Nat)
    (h : Cursors c) :
    drain react (fuel + 1) c =
      if c.pending.length < 4 then .ok c
      else if ofBe (c.pending.take 4) > MAX_MESSAGE_SIZE then
        .error (c.onError (.error s!"Received message size {ofBe (c.pending.take 4)
          } exceeds maximum {MAX_MESSAGE_SIZE}")).close
      else if c.pending.length < 4 + ofBe (c.pending.take 4) then .ok c
      else
        let c₁ := { c with readPos := c.readPos + (4 + ofBe (c.pending.take 4)) }
        match decodeFrame ((c.pending.drop 4).take (ofBe (c.pending.take 4))) with
        | .error e => .error (c₁.onError e).close
        | .ok frame => turn react fuel c₁ frame := by
  rw [drain]
  simp only [← length_pending h]
  by_cases h4 : c.pending.length < 4
  · rw [if_pos h4, if_pos h4]
  · rw [if_neg h4, if_neg h4]
    have hlen : subarray c.recvBuf (some c.readPos) (some (c.readPos + 4)) = c.pending.take 4 :=
      subarray_of_pending h (Nat.zero_le 4) (by omega)
    rw [hlen]
    by_cases hmax : ofBe (c.pending.take 4) > MAX_MESSAGE_SIZE
    · rw [if_pos hmax, if_pos hmax]
    · rw [if_neg hmax, if_neg hmax]
      by_cases hwait : c.pending.length < 4 + ofBe (c.pending.take 4)
      · rw [if_pos hwait, if_pos hwait]
      · rw [if_neg hwait, if_neg hwait,
          subarray_of_pending h (Nat.le_add_right 4 _) (by omega), List.drop_take,
          Nat.add_sub_cancel_left]
        rfl

/-- What is left of a turn: the client at the end of the loop, or at a `return`. -/
def after : Except IpcClient IpcClient → IpcClient
  | .ok c => c
  | .error c => c

@[simp] theorem after_ok (c : IpcClient) : after (.ok c) = c := rfl

@[simp] theorem after_error (c : IpcClient) : after (.error c) = c := rfl

theorem cursors_deliver (h : Cursors c)
    (frame : BinaryFrame) : Cursors (deliver react c frame) := by
  have hd : Cursors { c with delivered := c.delivered ++ [frame] } := ⟨h.order, h.inside, h.room⟩
  rw [deliver]
  dsimp only
  split
  · exact cursors_close hd
  · exact hd

theorem cursors_drain (fuel : Nat)
    (h : Cursors c) : Cursors (after (drain react fuel c)) := by
  induction fuel generalizing c with
  | zero => exact h
  | succ fuel ih =>
      rw [drain_succ react fuel h]
      split
      · exact h
      · split
        · exact cursors_close (cursors_onError h _)
        · split
          · exact h
          · rename_i hwait
            have h₁ := (consume_spec h (Nat.le_of_not_lt hwait)).1
            dsimp only
            split
            · exact cursors_close (cursors_onError h₁ _)
            · rename_i frame _
              have h₂ := cursors_deliver react h₁ frame
              rw [turn]
              split
              · exact cursors_close (cursors_onError h₂ _)
              · exact ih h₂

/-- **Every call of `handleData` keeps the cursors in order.** -/
theorem cursors_handleData (alloc : AllocUnsafe) (react : List BinaryFrame → Reaction)
    (h : Cursors c) (chunk : List UInt8) :
    Cursors (handleData alloc react c chunk) := by
  obtain ⟨hc, -, hroom, -, -⟩ := ensureCapacity_spec alloc h chunk.length
  have ha := (append_spec hc chunk hroom).1
  have hd := cursors_drain react ((ensureCapacity alloc c chunk.length).writePos + chunk.length -
    (ensureCapacity alloc c chunk.length).readPos) ha
  rw [handleData]
  dsimp only
  split
  · rename_i heq
    rw [heq] at hd
    exact hd
  · rename_i heq
    rw [heq] at hd
    split
    · exact cursors_compact hd
    · exact hd

end IpcClient

end Ipc.Host
