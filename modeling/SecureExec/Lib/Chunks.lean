import SecureExec.Lib.Bytes

/-!
# Lib — Chunks — a byte array cut into chunks, with holes

A partial function `f` from chunk indices to byte arrays stands for the array whose `i`-th byte is
byte `i % cs` of chunk `i / cs`; a chunk that is missing, and the part of a chunk beyond its end,
read as zeros (`chunkByte`).  `Chunks cs f c` says that `f` stands for `c` and that no chunk
reaches past its width or past the end of `c`, so that nothing stale comes back when `c` grows.

Each operation on the plain array has its counterpart on the chunks: cutting (`split`), writing
(`overlay`), growing (`grow`), shrinking (`shrink`).
-/

namespace Bytes
open Function

variable {α : Type} [Zero α] {cs : Nat} {f f' : Nat → Option (List α)} {c : List α}

/-- The `i`-th byte of the chunks. -/
def chunkByte (cs : Nat) (f : Nat → Option (List α)) (i : Nat) : α :=
  byte ((f (i / cs)).getD []) (i % cs)

/-- No chunk reaches past its width or past `n`. -/
def FitsIn (cs n : Nat) (f : Nat → Option (List α)) : Prop :=
  ∀ ci b, f ci = some b → b.length ≤ cs ∧ ci * cs + b.length ≤ n

/-- `f` stands for `c`. -/
structure Chunks (cs : Nat) (f : Nat → Option (List α)) (c : List α) : Prop where
  fits : ∀ ci b, f ci = some b → b.length ≤ cs ∧ ci * cs + b.length ≤ c.length
  bytes : ∀ i, byte c i = chunkByte cs f i

variable {n : Nat}

/-- Chunks that fit in `n` bytes stand for an array of `n` bytes. -/
theorem FitsIn.chunks (h : FitsIn cs n f) : ∃ c, c.length = n ∧ Chunks cs f c := by
  refine ⟨List.ofFn fun i : Fin n => chunkByte cs f i, List.length_ofFn, fun ci b hb => ?_,
    fun i => ?_⟩
  · rw [List.length_ofFn]
    exact h ci b hb
  · by_cases hi : i < n
    · rw [byte, List.getD_eq_getElem?_getD, List.getElem?_ofFn, dif_pos hi, Option.getD_some]
    · have hzero : chunkByte cs f i = 0 := by
        rw [chunkByte]
        refine byte_eq_zero_of_le ?_
        cases hf : f (i / cs) with
        | none => exact Nat.zero_le _
        | some b =>
            -- the byte lies after the end of its chunk
            have hb := (h _ b hf).2
            have hpos := Nat.div_add_mod i cs
            rw [Nat.mul_comm] at hpos
            rw [Option.getD_some]
            omega
      rw [hzero]
      exact byte_eq_zero_of_le (by rw [List.length_ofFn]; exact Nat.le_of_not_lt hi)

/-! ### The position of a byte -/

theorem chunk_pos (hcs : 0 < cs) (i : Nat) :
    ∃ ci j, i = ci * cs + j ∧ j < cs ∧ i / cs = ci ∧ i % cs = j :=
  ⟨i / cs, i % cs, by rw [Nat.mul_comm]; exact (Nat.div_add_mod i cs).symm,
    Nat.mod_lt _ hcs, rfl, rfl⟩

variable {ci : Nat}

/-- A chunk before the one that holds `x` ends at or before `x`. -/
theorem chunk_end_le {x : Nat} (h : ci < x / cs) : ci * cs + cs ≤ x := by
  have h₁ : (ci + 1) * cs ≤ x / cs * cs := Nat.mul_le_mul_right cs h
  have h₂ := Nat.div_mul_le_self x cs
  rw [Nat.succ_mul] at h₁
  omega

/-- A chunk after the one that holds `x` starts after `x`. -/
theorem lt_chunk_start (hcs : 0 < cs) {x : Nat} (h : x / cs < ci) : x < ci * cs := by
  exact (Nat.div_lt_iff_lt_mul hcs).mp h

/-- The chunk that holds `x` starts at or before it and ends after it. -/
theorem chunk_bounds (hcs : 0 < cs) (x : Nat) :
    x / cs * cs ≤ x ∧ x < x / cs * cs + cs :=
  ⟨Nat.div_mul_le_self x cs, Nat.lt_div_mul_add hcs⟩

/-- A chunk between the first and the last one of a window meets the window. -/
theorem chunk_window (hcs : 0 < cs) {off len : Nat} (hlen : 0 < len) (h₁ : off / cs ≤ ci)
    (h₂ : ci ≤ (off + len - 1) / cs) : off < ci * cs + cs ∧ ci * cs < off + len := by
  have hfirst := (chunk_bounds hcs off).2
  have hlast := (chunk_bounds hcs (off + len - 1)).1
  have hle₁ := Nat.mul_le_mul_right cs h₁
  have hle₂ := Nat.mul_le_mul_right cs h₂
  omega

/-- A loop over the chunks: chunk `i`, then the `n` chunks after it. -/
theorem window_turn {β : Type} {f f₁ g g₁ : Nat → β} {i n : Nat}
    (hf : f₁ = update f i (g i)) (hg : ∀ ci, ci ≠ i → g₁ ci = g ci) :
    (fun ci => if i + 1 ≤ ci ∧ ci < i + 1 + n then g₁ ci else f₁ ci) =
      fun ci => if i ≤ ci ∧ ci < i + (n + 1) then g ci else f ci := by
  funext ci
  by_cases hci : ci = i
  · rw [if_neg (by omega), if_pos (by omega), hf, hci, update_self]
  · rw [hf, update_of_ne hci, hg ci hci]
    refine if_congr ?_ rfl rfl
    omega

/-! ### Cutting -/

/-- The `ci`-th piece of an array cut into chunks. -/
def piece (cs : Nat) (c : List α) (ci : Nat) : List α :=
  slice c (ci * cs) (min (ci * cs + cs) c.length)

/-- An array cut into chunks. -/
theorem Chunks.split (hcs : 0 < cs)
    (hf : ∀ ci, f ci = if ci * cs < c.length then some (piece cs c ci) else none) :
    Chunks cs f c := by
  constructor
  · intro ci b hb
    rw [hf] at hb
    split at hb
    · cases hb
      simp only [piece, length_slice]
      omega
    · cases hb
  · intro i
    obtain ⟨ci, j, hi, hj, hd, hm⟩ := chunk_pos hcs i
    rw [chunkByte, hd, hm, hf]
    split
    · rw [Option.getD_some, piece, byte_slice]
      split
      · rw [hi]
      · rw [byte_eq_zero_of_le]; omega
    · rw [Option.getD_none, byte_nil, byte_eq_zero_of_le]; omega

/-- The number of chunks of an array cut into chunks. -/
theorem lt_numChunks_iff (hcs : 0 < cs) (n ci : Nat) : ci < (n + cs - 1) / cs ↔ ci * cs < n := by
  rw [Nat.lt_iff_add_one_le, Nat.le_div_iff_mul_le hcs, Nat.succ_mul]
  omega

/-! ### Writing -/

/-- The part of a write of `d` at `off` that falls into chunk `ci`. -/
def chunkPiece (cs off : Nat) (d : List α) (ci : Nat) : List α :=
  slice d (ci * cs - off) (ci * cs - off +
    ((min (off + d.length) (ci * cs + cs) - ci * cs) - (max off (ci * cs) - ci * cs)))

/-- Chunk `ci` after a write of `d` at `off`. -/
def chunkAfter (cs off : Nat) (d : List α) (old : List α) (ci : Nat) : List α :=
  overlay old (max off (ci * cs) - ci * cs) (chunkPiece cs off d ci)

variable {off : Nat} {d : List α}

omit [Zero α] in
theorem length_chunkPiece :
    (chunkPiece cs off d ci).length =
      (min (off + d.length) (ci * cs + cs) - ci * cs) - (max off (ci * cs) - ci * cs) := by
  simp only [chunkPiece, length_slice]
  omega

theorem length_chunkAfter {old : List α}
    (h₁ : off < ci * cs + cs) (h₂ : ci * cs < off + d.length) (hd : 0 < d.length) :
    (chunkAfter cs off d old ci).length =
      max old.length (min (off + d.length) (ci * cs + cs) - ci * cs) := by
  rw [chunkAfter, length_overlay, length_chunkPiece]
  omega

theorem FitsIn.chunkAfter (h : FitsIn cs n f) (h₁ : off < ci * cs + cs)
    (h₂ : ci * cs < off + d.length) (hd : 0 < d.length) :
    (chunkAfter cs off d ((f ci).getD []) ci).length ≤ cs ∧
      ci * cs + (Bytes.chunkAfter cs off d ((f ci).getD []) ci).length ≤ max n (off + d.length) := by
  rw [length_chunkAfter h₁ h₂ hd]
  cases hf : f ci with
  | none =>
      rw [Option.getD_none, List.length_nil]
      omega
  | some b =>
      have hb := h ci b hf
      rw [Option.getD_some]
      omega

omit [Zero α] in
theorem FitsIn.update (h : FitsIn cs n f) {b : List α}
    (hb : b.length ≤ cs ∧ ci * cs + b.length ≤ n) : FitsIn cs n (update f ci (some b)) := by
  intro cj b' hb'
  by_cases hcj : cj = ci
  · subst hcj
    rw [update_self] at hb'
    cases hb'
    exact hb
  · rw [update_of_ne hcj] at hb'
    exact h cj b' hb'

theorem byte_chunkAfter {old : List α} {j : Nat} (hj : j < cs) :
    byte (chunkAfter cs off d old ci) j =
      if off ≤ ci * cs + j ∧ ci * cs + j < off + d.length then byte d (ci * cs + j - off)
      else byte old j := by
  rw [chunkAfter, byte_overlay, length_chunkPiece]
  by_cases h : off ≤ ci * cs + j ∧ ci * cs + j < off + d.length
  · rw [if_pos h, if_pos (by omega), chunkPiece, byte_slice, if_pos (by omega)]
    congr 1
    omega
  · rw [if_neg h, if_neg (by omega)]

/-- **A write, chunk by chunk.** -/
theorem Chunks.overlay (hcs : 0 < cs) (h : Chunks cs f c)
    (hd : 0 < d.length)
    (hin : ∀ ci, off / cs ≤ ci → ci ≤ (off + d.length - 1) / cs →
      f' ci = some (chunkAfter cs off d ((f ci).getD []) ci))
    (hout : ∀ ci, ci < off / cs ∨ (off + d.length - 1) / cs < ci → f' ci = f ci) :
    Chunks cs f' (Bytes.overlay c off d) := by
  constructor
  · intro ci b hb
    rw [length_overlay]
    by_cases hci : off / cs ≤ ci ∧ ci ≤ (off + d.length - 1) / cs
    · rw [hin ci hci.1 hci.2] at hb
      cases hb
      obtain ⟨h₁, h₂⟩ := chunk_window hcs hd hci.1 hci.2
      exact FitsIn.chunkAfter h.fits h₁ h₂ hd
    · rw [hout ci (by omega)] at hb
      have := h.fits ci b hb
      omega
  · intro i
    obtain ⟨ci, j, hi, hj, hq, hr⟩ := chunk_pos hcs i
    have hc : byte c i = byte ((f ci).getD []) j := by rw [h.bytes i, chunkByte, hq, hr]
    rw [chunkByte, hq, hr, byte_overlay, hc]
    by_cases hci : off / cs ≤ ci ∧ ci ≤ (off + d.length - 1) / cs
    · rw [hin ci hci.1 hci.2, Option.getD_some, byte_chunkAfter hj, hi]
    · rw [hout ci (by omega), if_neg]
      rcases Nat.lt_or_ge ci (off / cs) with hlt | hge
      · have := chunk_end_le hlt
        omega
      · have := lt_chunk_start hcs (show (off + d.length - 1) / cs < ci by omega)
        omega

/-- A chunk copied to its place, which was still zero. -/
theorem byte_overlay_chunk (hcs : 0 < cs) {r b : List α} (hb : b.length ≤ cs)
    (hz : ∀ i, i / cs = ci → byte r i = 0) (i : Nat) :
    byte (Bytes.overlay r (ci * cs) b) i = if i / cs = ci then byte b (i % cs) else byte r i := by
  obtain ⟨cj, j, hi, hj, hq, hm⟩ := chunk_pos hcs i
  rw [byte_overlay]
  by_cases hci : i / cs = ci
  · have hcc : cj = ci := hq.symm.trans hci
    rw [if_pos hci, hm]
    subst hcc
    by_cases hin : j < b.length
    · rw [if_pos ⟨by omega, by omega⟩]
      congr 1
      omega
    · rw [if_neg (by omega), hz i hci, byte_eq_zero_of_le (by omega)]
  · rw [if_neg hci, if_neg]
    rintro ⟨h₁, h₂⟩
    exact hci (Nat.div_eq_of_lt_le h₁ (by rw [Nat.succ_mul]; omega))

/-! ### Growing and shrinking -/

theorem Chunks.grow (h : Chunks cs f c) (hn : c.length ≤ n) :
    Chunks cs f (resize c n) := by
  constructor
  · intro ci b hb
    have := h.fits ci b hb
    rw [length_resize]
    omega
  · intro i
    rw [byte_resize, ← h.bytes i]
    split
    · rfl
    · exact (byte_eq_zero_of_le (by omega)).symm

/-- **A cut at `n > 0`, chunk by chunk**: the chunks beyond the last one go, and the last one is
cut where `n` falls inside it. -/
theorem Chunks.shrink (hcs : 0 < cs) (h : Chunks cs f c) (h0 : 0 < n)
    (hout : ∀ ci, (n - 1) / cs < ci → f' ci = none)
    (hlast : f' ((n - 1) / cs) = if 0 < n % cs then (f ((n - 1) / cs)).map (·.take (n % cs))
      else f ((n - 1) / cs))
    (hin : ∀ ci, ci < (n - 1) / cs → f' ci = f ci) :
    Chunks cs f' (resize c n) := by
  have hb := chunk_bounds hcs (n - 1)
  -- where `n` falls: inside the last chunk, or at its end
  have hmod : n = (n - 1) / cs * cs + (if 0 < n % cs then n % cs else cs) := by
    have hdm := Nat.div_add_mod n cs
    have hlt := Nat.mod_lt n hcs
    rw [Nat.mul_comm] at hdm
    by_cases hz : 0 < n % cs
    · rw [if_pos hz]
      have : (n - 1) / cs = n / cs := by
        refine Nat.div_eq_of_lt_le ?_ ?_
        · omega
        · rw [Nat.succ_mul]; omega
      rw [this]; omega
    · rw [if_neg hz]
      have hq : 0 < n / cs := Nat.pos_of_ne_zero fun h => by rw [h] at hdm; omega
      have : (n - 1) / cs = n / cs - 1 := by
        refine Nat.div_eq_of_lt_le ?_ ?_
        · rw [Nat.sub_mul]; omega
        · rw [Nat.succ_mul, Nat.sub_mul]; omega
      rw [this, Nat.sub_mul]
      have := Nat.mul_le_mul_right cs hq
      omega
  have hlast' : f' ((n - 1) / cs) =
      (f ((n - 1) / cs)).map (·.take (if 0 < n % cs then n % cs else cs)) := by
    rw [hlast]
    split
    · rfl
    · cases hf : f ((n - 1) / cs) with
      | none => rfl
      | some b => rw [Option.map_some, List.take_of_length_le (h.fits _ b hf).1]
  generalize (if 0 < n % cs then n % cs else cs) = w at hmod hlast'
  generalize (n - 1) / cs = q at *
  constructor
  · intro ci b hb'
    rw [length_resize]
    rcases Nat.lt_trichotomy ci q with hlt | rfl | hgt
    · rw [hin ci hlt] at hb'
      have := (h.fits ci b hb').1
      have := Nat.mul_le_mul_right cs (show ci + 1 ≤ q from hlt)
      rw [Nat.succ_mul] at this
      omega
    · rw [hlast'] at hb'
      obtain ⟨b', hb'', rfl⟩ := Option.map_eq_some_iff.mp hb'
      have := (h.fits ci b' hb'').1
      rw [List.length_take]
      omega
    · rw [hout ci hgt] at hb'; cases hb'
  · intro i
    obtain ⟨ci, j, hi, hj, hq, hr⟩ := chunk_pos hcs i
    have hc : byte c i = byte ((f ci).getD []) j := by rw [h.bytes i, chunkByte, hq, hr]
    rw [byte_resize, chunkByte, hq, hr, hc]
    rcases Nat.lt_trichotomy ci q with hlt | rfl | hgt
    · have := Nat.mul_le_mul_right cs (show ci + 1 ≤ q from hlt)
      rw [Nat.succ_mul] at this
      rw [hin ci hlt, if_pos (by omega)]
    · rw [hlast']
      cases f ci with
      | none => simp
      | some b =>
          rw [Option.map_some, Option.getD_some, Option.getD_some, byte_take]
          have : i < n ↔ j < w := by omega
          simp only [this]
    · have := Nat.mul_le_mul_right cs (show q + 1 ≤ ci from hgt)
      rw [Nat.succ_mul] at this
      rw [hout ci hgt, if_neg (by omega)]; simp

end Bytes
