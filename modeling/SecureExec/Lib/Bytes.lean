import Mathlib.Data.UInt
import Mathlib.Data.List.GetD

/-!
# Lib — Bytes — byte arrays

Byte arrays are lists over a type with a zero.  `setAt` is `TypedArray.prototype.set`: it copies
`data` into `base` at `off` and fails when it does not fit; `slice` is
`TypedArray.prototype.slice` (and `subarray`) at non-negative bounds.

`overlay`, `resize` and `window` are the three operations on a plain byte array a file is meant
to be: write at an offset, set the length, read a range.

Reasoning is pointwise: `byte xs i` is the `i`-th byte, `0` past the end, and two arrays of one
length with the same bytes are equal (`ext_byte`).
-/

namespace Bytes

variable {α : Type} [Zero α]

/-- The `i`-th byte, `0` past the end. -/
def byte (xs : List α) (i : Nat) : α := xs.getD i 0

/-- `new Uint8Array(n)`. -/
def zeros (n : Nat) : List α := List.replicate n 0

/-- `xs.slice(start, stop)`. -/
def slice (xs : List α) (start stop : Nat) : List α := (xs.take stop).drop start

/-- `base.set(data, off)`; `none` is its `RangeError`. -/
def setAt (base data : List α) (off : Nat) : Option (List α) :=
  if off + data.length ≤ base.length then
    some (base.take off ++ data ++ base.drop (off + data.length))
  else none

/-! ### A plain byte array -/

/-- The array with its length set to `n`: cut, or filled with zeros. -/
def resize (c : List α) (n : Nat) : List α := c.take n ++ zeros (n - c.length)

/-- The array with `d` written at `off`, growing it with zeros where needed. -/
def overlay (c : List α) (off : Nat) (d : List α) : List α :=
  (resize c (max c.length (off + d.length))).take off ++ d ++ c.drop (off + d.length)

/-- At most `len` bytes from `off` on. -/
def window (c : List α) (off len : Nat) : List α := (c.drop off).take len

/-! ### Lengths -/

@[simp] theorem length_zeros (n : Nat) : (zeros n : List α).length = n :=
  List.length_replicate

omit [Zero α] in
@[simp] theorem length_slice (xs : List α) (a b : Nat) :
    (slice xs a b).length = min b xs.length - a := by
  simp [slice]

variable (c : List α)

@[simp] theorem length_resize (n : Nat) : (resize c n).length = n := by
  simp only [resize, List.length_append, List.length_take, length_zeros]; omega

@[simp] theorem length_overlay (off : Nat) (d : List α) :
    (overlay c off d).length = max c.length (off + d.length) := by
  simp only [overlay, List.length_append, List.length_take, length_resize, List.length_drop]
  omega

omit [Zero α] in
@[simp] theorem length_window (c : List α) (off len : Nat) :
    (window c off len).length = min len (c.length - off) := by
  simp [window]

/-! ### Bytes -/

theorem byte_eq_zero_of_le {xs : List α} {i : Nat} (h : xs.length ≤ i) : byte xs i = 0 :=
  List.getD_eq_default _ _ h

@[simp] theorem byte_nil (i : Nat) : byte ([] : List α) i = 0 := rfl

variable (n i : Nat)

@[simp] theorem byte_zeros : byte (zeros n : List α) i = 0 := by
  by_cases h : i < n
  · simp [byte, zeros, List.getD, h]
  · exact byte_eq_zero_of_le (by simpa using h)

/-- Arrays of one length with the same bytes are equal. -/
theorem ext_byte {xs ys : List α} (hl : xs.length = ys.length)
    (hb : ∀ i < xs.length, byte xs i = byte ys i) : xs = ys := by
  refine List.ext_getElem hl fun i h₁ h₂ => ?_
  have := hb i h₁
  rwa [byte, byte, List.getD_eq_getElem _ _ h₁, List.getD_eq_getElem _ _ h₂] at this

theorem byte_append (xs ys : List α) (i : Nat) :
    byte (xs ++ ys) i = if i < xs.length then byte xs i else byte ys (i - xs.length) := by
  split
  · rename_i h; exact List.getD_append _ _ _ _ h
  · rename_i h; exact List.getD_append_right _ _ _ _ (by omega)

variable (xs : List α)

theorem byte_take :
    byte (xs.take n) i = if i < n then byte xs i else 0 := by
  simp only [byte, List.getD_eq_getElem?_getD, List.getElem?_take]
  split <;> rfl

theorem byte_drop : byte (xs.drop n) i = byte xs (n + i) := by
  simp [byte, List.getD_eq_getElem?_getD, List.getElem?_drop]

theorem byte_slice (a b i : Nat) :
    byte (slice xs a b) i = if a + i < b then byte xs (a + i) else 0 := by
  rw [slice, byte_drop, byte_take]

theorem byte_window (off len i : Nat) :
    byte (window c off len) i = if i < len then byte c (off + i) else 0 := by
  rw [window, byte_take, byte_drop]

theorem byte_resize :
    byte (resize c n) i = if i < n then byte c i else 0 := by
  rw [resize, byte_append, byte_take, byte_zeros]
  by_cases h : i < n
  · rw [if_pos h]
    by_cases h' : i < (c.take n).length
    · rw [if_pos h']
    · rw [if_neg h']
      rw [List.length_take] at h'
      exact (byte_eq_zero_of_le (by omega)).symm
  · simp [h]

/-- A write at the end. -/
theorem overlay_length (c d : List α) : overlay c c.length d = c ++ d := by
  have hle : c.length ≤ c.length + d.length := Nat.le_add_right _ _
  simp [overlay, resize, List.take_of_length_le hle, List.drop_of_length_le hle]

theorem byte_overlay (off : Nat) (d : List α) (i : Nat) :
    byte (overlay c off d) i =
      if off ≤ i ∧ i < off + d.length then byte d (i - off) else byte c i := by
  have hlen : ((resize c (max c.length (off + d.length))).take off).length = off := by
    rw [List.length_take, length_resize]; omega
  rw [overlay, byte_append, byte_append, List.length_append, hlen, byte_take, byte_resize,
    byte_drop]
  by_cases h₁ : i < off
  · rw [if_pos (by omega), if_pos h₁, if_pos h₁, if_pos (by omega), if_neg (by omega)]
  · by_cases h₂ : i < off + d.length
    · rw [if_pos h₂, if_neg h₁, if_pos ⟨by omega, h₂⟩]
    · rw [if_neg h₂, if_neg (by omega)]
      congr 1; omega

/-- A write of nothing, where there are bytes. -/
theorem overlay_nil {c : List α} {off : Nat} (h : off ≤ c.length) : overlay c off [] = c := by
  refine ext_byte ?_ fun i _ => ?_
  · rw [length_overlay, List.length_nil, Nat.add_zero, Nat.max_eq_left h]
  · rw [byte_overlay, List.length_nil, Nat.add_zero, if_neg (by omega)]

/-- Two writes, the second where the first ended. -/
theorem overlay_overlay (c d e : List α) (off : Nat) :
    overlay (overlay c off d) (off + d.length) e = overlay c off (d ++ e) := by
  refine ext_byte ?_ fun i _ => ?_
  · simp only [length_overlay, List.length_append]
    omega
  · rw [byte_overlay, byte_overlay, byte_overlay, byte_append, List.length_append]
    by_cases h₁ : off + d.length ≤ i ∧ i < off + d.length + e.length
    · rw [if_pos h₁, if_pos (by omega), if_neg (by omega)]
      congr 1
      omega
    · rw [if_neg h₁]
      by_cases h₂ : off ≤ i ∧ i < off + d.length
      · rw [if_pos h₂, if_pos (by omega), if_pos (by omega)]
      · rw [if_neg h₂, if_neg (by omega)]

/-- `set` succeeds when the data fits. -/
theorem setAt_eq {base data : List α} {off : Nat} (h : off + data.length ≤ base.length) :
    setAt base data off = some (overlay base off data) := by
  rw [setAt, if_pos h]
  refine congrArg some (ext_byte ?_ fun i _ => ?_)
  · simp only [List.length_append, List.length_take, List.length_drop, length_overlay]; omega
  · have hl : (base.take off).length = off := by rw [List.length_take]; omega
    rw [byte_overlay, byte_append, byte_append, List.length_append, hl, byte_take, byte_drop]
    by_cases h₁ : i < off
    · rw [if_pos (by omega), if_pos h₁, if_pos h₁, if_neg (by omega)]
    · by_cases h₂ : i < off + data.length
      · rw [if_pos h₂, if_neg h₁, if_pos ⟨by omega, h₂⟩]
      · rw [if_neg h₂, if_neg (by omega)]
        congr 1; omega

end Bytes
