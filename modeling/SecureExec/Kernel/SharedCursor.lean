import SecureExec.Kernel.FileIo

/-!
# Kernel — SharedCursor — reads through one description

Descriptors made by `dup` or `fork` share a description and its cursor.  `fdRead` samples the cursor
when it is called, and adds to the cursor the number of bytes it got when these are there; a second
call in between samples the same cursor.  Then both return the same bytes, and as many bytes behind
them are skipped (`readOnce_fails`).

`InOrder` is the condition under which this does not happen: when the bytes of a call are there, the
cursor is still the one it has sampled, or there are no bytes.
-/

namespace SecureExec.Kernel
open SecureExec Lts FileRead

/-- The call has returned the `i`-th byte of its file. -/
def FileRead.covers (c : FileRead) (i : Nat) : Bool :=
  match c.phase with
  | .returned slice => decide (c.cursor ≤ i) && decide (i < c.cursor + slice.length)
  | _ => false

theorem FileRead.covers_waiting {c : FileRead} (hc : c.phase = .waiting) (i : Nat) :
    c.covers i = false := by
  rw [covers, hc]

namespace FileIo

/-- The calls of `fdRead`. -/
def ofRead : FileIoAction → Bool
  | .fdRead .. => true
  | .preadDone .. => true
  | _ => false

/-- When a call's bytes are there, the cursor is where it was sampled. -/
def InOrder (s : FileIo) : FileIoAction → Prop
  | .preadDone i true => ∀ c ∈ s.reads[i]?, ∀ b ∈ s.files (s.desc c.desc).path,
    Bytes.window b c.cursor c.length ≠ [] → c.cursor = (s.desc c.desc).cursor
  | _ => True

instance (s : FileIo) (a : FileIoAction) : Decidable (s.InOrder a) := by
  unfold InOrder
  split
  · infer_instance
  · infer_instance

/-- What the calls have returned are bytes of their file, and through each description every byte
from the cursor it had to the cursor it has once. -/
structure ReadOnce (s₀ s : FileIo) : Prop where
  bytes : ∀ c ∈ s.reads, ∀ slice, c.phase = .returned slice →
    ∃ b, s₀.files (s₀.desc c.desc).path = some b ∧ slice = Bytes.window b c.cursor c.length
  once : ∀ r i, s.reads.countP (fun c => c.desc == r && c.covers i) =
    if (s₀.desc r).cursor ≤ i ∧ i < (s.desc r).cursor then 1 else 0

/-- Every call has returned. -/
def ReadsReturned (s : FileIo) : Prop := ∀ c ∈ s.reads, ∃ slice, c.phase = .returned slice

structure ReadInv (s₀ s : FileIo) : Prop where
  files : s.files = s₀.files
  paths : ∀ r, (s.desc r).path = (s₀.desc r).path
  cursors : ∀ r, (s₀.desc r).cursor ≤ (s.desc r).cursor
  once : ReadOnce s₀ s

variable {s₀ s s' : FileIo} {a : FileIoAction}

theorem ReadInv.start (kernel : KernelImpl) (files : String → Option ByteArray8) :
    ReadInv (start kernel files) (start kernel files) := by
  refine ⟨rfl, fun _ => rfl, fun _ => Nat.le_refl _, fun c hc => ?_, fun r i => ?_⟩
  · cases hc
  · rw [if_neg (by omega)]
    rfl

/-- What a step of a read can do. -/
theorem read_cases (ha : ofRead a = true) (hs : s.step a = some s') :
    s' = s ∨
    (∃ r length, s' = { s with
      reads := s.reads ++ [⟨r, (s.desc r).cursor, length, .waiting⟩] }) ∨
    (∃ j c, s.reads[j]? = some c ∧ c.phase = .waiting ∧
      s' = { s with reads := s.reads.set j { c with phase := .rejected } }) ∨
    ∃ j c b, a = .preadDone j true ∧ s.reads[j]? = some c ∧ c.phase = .waiting ∧
      s.files (s.desc c.desc).path = some b ∧
      s' = { s.modifyDesc c.desc fun d =>
          { d with cursor := d.cursor + (Bytes.window b c.cursor c.length).length } with
        reads := s.reads.set j
          { c with phase := .returned (Bytes.window b c.cursor c.length) } } := by
  cases a with
  | fdRead driver pid fd length =>
      simp only [step, fdRead] at hs
      split at hs
      · exact .inl (Option.some.inj hs).symm
      · split at hs
        · cases hs
        · exact .inr (.inl ⟨_, _, (Option.some.inj hs).symm⟩)
  | preadDone j ok =>
      simp only [step, preadDone] at hs
      split at hs
      · rename_i r cursor length hj
        split at hs
        · exact .inr (.inr (.inl ⟨j, _, hj, rfl, (Option.some.inj hs).symm⟩))
        · rename_i b hb
          cases ok with
          | false => cases hb
          | true => exact .inr (.inr (.inr ⟨j, _, b, rfl, hj, rfl, hb, (Option.some.inj hs).symm⟩))
      · cases hs
  | _ => cases ha

/-- A call is put in the place of one that has covered nothing. -/
theorem countP_set_waiting {l : List FileRead} {j : Nat} {c : FileRead} (hj : l[j]? = some c)
    {p : FileRead → Bool} (hc : p c = false) (c' : FileRead) :
    (l.set j c').countP p = l.countP p + if p c' then 1 else 0 := by
  obtain ⟨hlt, hget⟩ := List.getElem?_eq_some_iff.mp hj
  rw [List.countP_set hlt, hget, hc]
  simp

variable (h : ReadInv s₀ s)
include h

/-- A call that returns nothing: the cursors and what is covered are the same. -/
theorem ReadInv.congr (hf : s'.files = s.files) (hk : s'.kernel = s.kernel)
    (hb : ∀ c ∈ s'.reads, ∀ slice, c.phase = .returned slice → c ∈ s.reads)
    (hc : ∀ r i, s'.reads.countP (fun c => c.desc == r && c.covers i) =
      s.reads.countP fun c => c.desc == r && c.covers i) : ReadInv s₀ s' := by
  have hdesc : ∀ r, s'.desc r = s.desc r := fun r => by rw [desc, hk, desc]
  refine ⟨hf.trans h.files, fun r => ?_, fun r => ?_, fun c hmem slice hp => ?_, fun r i => ?_⟩
  · rw [hdesc]
    exact h.paths r
  · rw [hdesc]
    exact h.cursors r
  · exact h.once.bytes c (hb c hmem slice hp) slice hp
  · rw [hc, hdesc]
    exact h.once.once r i

/-- The bytes of a call are there, and the cursor is where it was sampled. -/
theorem ReadInv.returned {j : Nat} {c : FileRead} {b : ByteArray8}
    (hj : s.reads[j]? = some c) (hw : c.phase = .waiting)
    (hb : s.files (s.desc c.desc).path = some b)
    (hcur : Bytes.window b c.cursor c.length ≠ [] → c.cursor = (s.desc c.desc).cursor)
    (hf : s'.files = s.files) (hp : ∀ r, (s'.desc r).path = (s.desc r).path)
    (hc : ∀ r, (s'.desc r).cursor =
      (s.desc r).cursor + if r = c.desc then (Bytes.window b c.cursor c.length).length else 0)
    (hr : s'.reads = s.reads.set j
      { c with phase := .returned (Bytes.window b c.cursor c.length) }) : ReadInv s₀ s' := by
  refine ⟨hf.trans h.files, fun r => (hp r).trans (h.paths r), fun r => ?_,
    fun c' hc' slice hret => ?_, fun r i => ?_⟩
  · rw [hc]
    exact Nat.le_trans (h.cursors r) (Nat.le_add_right _ _)
  · rw [hr] at hc'
    rcases List.mem_or_eq_of_mem_set hc' with hold | rfl
    · exact h.once.bytes c' hold slice hret
    · cases hret
      exact ⟨b, by rw [← h.files, ← h.paths]; exact hb, rfl⟩
  · have hwait : (c.desc == r && c.covers i) = false := by
      rw [covers_waiting hw, Bool.and_false]
    rw [hr, countP_set_waiting hj hwait, h.once.once r i, hc]
    by_cases hrc : r = c.desc
    · subst hrc
      have hstart := h.cursors c.desc
      simp only [BEq.rfl, Bool.true_and, covers, Bool.and_eq_true, decide_eq_true_eq,
        if_true]
      generalize Bytes.window b c.cursor c.length = slice at hcur ⊢
      cases slice with
      | nil => simp
      | cons x xs =>
          -- the range goes on where the last one ended
          rw [← hcur (by simp)] at hstart ⊢
          repeat' split
          all_goals omega
    · have hne : (c.desc == r) = false := by simpa using Ne.symm hrc
      simp [hne, hrc]

theorem ReadInv.step (ha : ofRead a = true) (ho : s.InOrder a)
    (hs : s.step a = some s') : ReadInv s₀ s' := by
  rcases read_cases ha hs with rfl | ⟨r, length, rfl⟩ | ⟨j, c, hj, hw, rfl⟩ |
    ⟨j, c, b, rfl, hj, hw, hb, rfl⟩
  · exact h
  · refine h.congr rfl rfl (fun c hc slice hret => ?_) fun r i => ?_
    · rcases List.mem_append.mp hc with hc | hc
      · exact hc
      · rw [List.mem_singleton.mp hc] at hret
        cases hret
    · rw [List.countP_append, List.countP_singleton]
      simp [covers]
  · refine h.congr rfl rfl (fun c' hc slice hret => ?_) fun r i => ?_
    · rcases List.mem_or_eq_of_mem_set hc with hc | rfl
      · exact hc
      · cases hret
    · rw [countP_set_waiting hj (by rw [covers_waiting hw, Bool.and_false])]
      simp [covers]
  · refine h.returned hj hw hb (ho c hj b hb) rfl (fun r => ?_) (fun r => ?_) rfl
    · exact field_modifyDesc s c.desc r FileDescription.path fun _ => rfl
    · show ((s.modifyDesc c.desc _).desc r).cursor = _
      rw [desc_modifyDesc]
      split
      · rename_i hr
        rw [hr]
      · rfl

end FileIo

open FileIo

/-- **Shared cursor**: in every run of reads whose bytes arrive in order, every byte between the
first and the last position of a cursor is returned once. -/
theorem readOnce_of_inOrder {kernel : KernelImpl} {files : String → Option ByteArray8} {s : FileIo}
    (h : Reach FileIo.step (fun s a => ofRead a = true ∧ s.InOrder a) (start kernel files) s) :
    ReadOnce (start kernel files) s :=
  (h.invariant (ReadInv.start kernel files) fun _ _ _ hi hc hs => hi.step hc.1 hc.2 hs).once

/-- A process with two descriptors of one description of a file. -/
def sharing : KernelImpl :=
  (exec KernelImpl.step (.boot [("sh", ["sh"])] none)
    [.spawn "sh" ⟨none, none, none⟩ KernelImpl.answered, .fdOpen "sh" 1 "/f" 0 none (.ok false),
      .fdDup "sh" 1 3]).getD (.boot [] none)

/-- The only file. -/
def fourBytes (path : String) : Option ByteArray8 :=
  if path = "/f" then some [1, 2, 3, 4] else none

/-- One read after the other. -/
theorem readOnce_of_inOrder_inTurn :
    ∃ s, Reach FileIo.step (fun s a => ofRead a = true ∧ s.InOrder a) (start sharing fourBytes) s ∧
      s.reads = [⟨3, 0, 2, .returned [1, 2]⟩, ⟨3, 2, 2, .returned [3, 4]⟩] ∧
      ReadOnce (start sharing fourBytes) s :=
  (Reach.exists_of_execIf FileIo.step _ _
    [.fdRead "sh" 1 3 2, .preadDone 0 true, .fdRead "sh" 1 4 2, .preadDone 1 true]
    (by decide +kernel)).imp fun _ h => ⟨h.1, h.2, readOnce_of_inOrder h.1⟩

/-- Two reads at once: both return the first two bytes, and the last two are skipped. -/
theorem readOnce_fails :
    ¬ ∀ kernel files s, Reach FileIo.step (fun _ a => ofRead a = true) (start kernel files) s →
      s.ReadsReturned → ReadOnce (start kernel files) s := by
  intro hall
  obtain ⟨s, hs, hv⟩ := Reach.exists_of_execIf FileIo.step (fun _ a => ofRead a = true)
    (start sharing fourBytes)
    [.fdRead "sh" 1 3 2, .fdRead "sh" 1 4 2, .preadDone 0 true, .preadDone 1 true]
    (P := fun s => s.reads = [⟨3, 0, 2, .returned [1, 2]⟩, ⟨3, 0, 2, .returned [1, 2]⟩])
    (by decide +kernel)
  have hret : s.ReadsReturned := by
    intro c hc
    rw [hv] at hc
    simp only [List.mem_cons, List.not_mem_nil, or_false, or_self] at hc
    exact ⟨[1, 2], by rw [hc]⟩
  have honce := (hall sharing fourBytes s hs hret).once 3 0
  rw [hv] at honce
  split at honce <;> revert honce <;> decide

end SecureExec.Kernel
