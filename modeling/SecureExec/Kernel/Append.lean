import SecureExec.Kernel.FileIo

/-!
# Kernel — Append — writes to files that are open for appending

`vfsWrite` reads the whole file, puts the data behind it and writes the whole file back.  A second
write that reads the file before the first has written it back does not see the data of the first,
and writes the file back without it (`append_fails`); so does a write whose read has failed.

`Current` is the condition under which this does not happen: a call that writes the file back finds
it with the content it has read.  In every run whose steps meet it the file grows by the data of
each write (`AppendInv`).
-/

namespace SecureExec.Kernel
open SecureExec Lts

/-- Behind `writeDescriptionFile`. -/
def FileWritePhase.past : FileWritePhase → Bool
  | .chmodding _ => true
  | .returned => true
  | .rejected => true
  | _ => false

/-- The file has been written. -/
def FileWritePhase.hasWritten : FileWritePhase → Bool
  | .chmodding _ => true
  | .returned => true
  | _ => false

/-- The content of the file, as the call has read it. -/
def FileWrite.contentRead (c : FileWrite) : Option ByteArray8 :=
  match c.phase with
  | .writing content _ _ => some content
  | _ => none

namespace FileIo

/-- The calls of `fdWrite` through descriptions with `O_APPEND`. -/
def Appending (s : FileIo) : FileIoAction → Prop
  | .fdWrite driver pid fd _ =>
    match ((fileEntry driver pid fd).exec s.kernel).1 with
    | .error _ => True
    | .ok e => (s.desc e.description).flags.has O_APPEND = true
  | .readFileDone .. => True
  | .writeFileDone .. => True
  | .chmodDone .. => True
  | _ => False

/-- A call writes the file back with the content it has read. -/
def Current (s : FileIo) : FileIoAction → Prop
  | .writeFileDone i true => ∀ c ∈ s.writes[i]?, ∀ content ∈ c.contentRead,
    s.content (s.desc c.desc).path = content
  | _ => True

instance (s : FileIo) (a : FileIoAction) : Decidable (s.Appending a) := by
  unfold Appending
  split
  · split
    · infer_instance
    · infer_instance
  all_goals infer_instance

instance (s : FileIo) (a : FileIoAction) : Decidable (s.Current a) := by
  unfold Current
  split
  · infer_instance
  · infer_instance

/-- The path the `i`-th write goes to. -/
def pathOf (s : FileIo) (i : Nat) : Option String :=
  s.writes[i]?.map fun c => (s.desc c.desc).path

/-- The data of the `i`-th write. -/
def dataOf (s : FileIo) (i : Nat) : ByteArray8 := (s.writes[i]?.map FileWrite.data).getD []

/-- Each file has its old content and behind it the data of the writes to it, each once. -/
def NoLostAppend (s₀ s : FileIo) : Prop :=
  ∀ p, ∃ order : List Nat,
    order.Perm ((List.range s.writes.length).filter fun i => s.pathOf i == some p) ∧
      s.content p = s₀.content p ++ (order.map s.dataOf).flatten

/-- Every write has returned. -/
def WritesReturned (s : FileIo) : Prop := ∀ c ∈ s.writes, c.phase = .returned

variable {s₀ s s' : FileIo} {a : FileIoAction}

/-! ### What a step can do -/

/-- The descriptions keep their paths and flags. -/
def SameNames (s s' : FileIo) : Prop :=
  ∀ r, (s'.desc r).path = (s.desc r).path ∧ (s'.desc r).flags = (s.desc r).flags

theorem SameNames.modifyDesc (h : SameNames s s') (r : Nat)
    {f : FileDescription → FileDescription} (hf : ∀ d, (f d).path = d.path ∧ (f d).flags = d.flags) :
    SameNames s (s'.modifyDesc r f) := by
  intro x
  rw [field_modifyDesc s' r x FileDescription.path fun d => (hf d).1,
    field_modifyDesc s' r x FileDescription.flags fun d => (hf d).2]
  exact h x

theorem SameNames.finishWrite (h : SameNames s s') (i : Nat) (c : FileWrite) (endPos : Nat) :
    SameNames s (s'.finishWrite i c endPos) := by
  have hm := h.modifyDesc c.desc (f := fun d => { d with cursor := endPos }) fun _ => ⟨rfl, rfl⟩
  exact hm

/-- A phase a call goes on to without writing the file. -/
structure Moves (s : FileIo) (c : FileWrite) (phase : FileWritePhase) : Prop where
  past : c.phase.past = true → phase.past = true
  hasWritten : phase.hasWritten = true → c.phase.hasWritten = true
  writing : (s.desc c.desc).flags.has O_APPEND = true → ∀ content newContent endPos,
    phase = .writing content newContent endPos → newContent = content ++ c.data

/-- What a step of a write can do. -/
theorem write_cases (ha : s.Appending a) (hs : s.step a = some s') :
    s' = s ∨
    (∃ r data, (s.desc r).flags.has O_APPEND = true ∧
      s' = { s with writes := s.writes ++ [⟨r, data, .reading⟩] }) ∨
    (∃ j c phase, s.writes[j]? = some c ∧ Moves s c phase ∧ SameNames s s' ∧
      s'.files = s.files ∧ s'.writes = s.writes.set j { c with phase := phase }) ∨
    ∃ j c content newContent endPos phase, a = .writeFileDone j true ∧ s.writes[j]? = some c ∧
      c.phase = .writing content newContent endPos ∧ phase.past = true ∧ SameNames s s' ∧
      s'.files = Function.update s.files (s.desc c.desc).path (some newContent) ∧
      s'.writes = s.writes.set j { c with phase := phase } := by
  have hrefl : SameNames s s := fun r => ⟨rfl, rfl⟩
  cases a with
  | fdWrite driver pid fd data =>
      simp only [step, fdWrite] at hs
      simp only [Appending] at ha
      split at hs
      · exact .inl (Option.some.inj hs).symm
      · rename_i e he
        rw [he] at ha
        split at hs
        · cases hs
        · exact .inr (.inl ⟨_, _, ha, (Option.some.inj hs).symm⟩)
  | readFileDone j ok =>
      simp only [step, readFileDone] at hs
      split at hs
      · rename_i r data hj
        cases hs
        refine .inr (.inr (.inl ⟨j, _, _, hj, ⟨?_, ?_, ?_⟩, hrefl, rfl, rfl⟩))
        · exact fun h => by cases h
        · exact fun h => by cases h
        · intro happ content newContent endPos he
          cases he
          rw [if_pos happ, Bytes.overlay_length]
      · cases hs
  | writeFileDone j ok =>
      simp only [step, writeFileDone] at hs
      split at hs
      · rename_i r data content newContent endPos hj
        cases ok with
        | true =>
            rw [if_pos rfl] at hs
            split at hs
            · cases hs
              exact .inr (.inr (.inr ⟨j, _, content, newContent, endPos, _, rfl, hj, rfl, rfl,
                hrefl, rfl, rfl⟩))
            · cases hs
              refine .inr (.inr (.inr ⟨j, _, content, newContent, endPos, _, rfl, hj, rfl, rfl,
                ?_, rfl, rfl⟩))
              exact SameNames.finishWrite hrefl j _ endPos
        | false =>
            cases hs
            refine .inr (.inr (.inl ⟨j, _, .rejected, hj, ⟨?_, ?_, ?_⟩, hrefl, rfl, rfl⟩))
            · exact fun _ => rfl
            · exact fun h => by cases h
            · exact fun _ _ _ _ he => by cases he
      · cases hs
  | chmodDone j ok =>
      simp only [step, chmodDone] at hs
      split at hs
      · rename_i r data endPos hj
        cases ok with
        | true =>
            cases hs
            refine .inr (.inr (.inl ⟨j, _, .returned, hj, ⟨?_, ?_, ?_⟩, ?_, rfl, rfl⟩))
            · exact fun _ => rfl
            · exact fun _ => rfl
            · exact fun _ _ _ _ he => by cases he
            · refine SameNames.finishWrite (hrefl.modifyDesc r fun _ => ?_) j _ endPos
              exact ⟨rfl, rfl⟩
        | false =>
            cases hs
            refine .inr (.inr (.inl ⟨j, _, .rejected, hj, ⟨?_, ?_, ?_⟩, hrefl, rfl, rfl⟩))
            · exact fun _ => rfl
            · exact fun h => by cases h
            · exact fun _ _ _ _ he => by cases he
      · cases hs
  | _ => cases ha

/-! ### The invariant -/

/-- The writes to a path that are done, in the order the file was written. -/
structure Written (s : FileIo) (p : String) (order : List Nat) : Prop where
  nodup : order.Nodup
  past : ∀ i ∈ order, ∃ c, s.writes[i]? = some c ∧ (s.desc c.desc).path = p ∧ c.phase.past = true
  all : ∀ i c, s.writes[i]? = some c → (s.desc c.desc).path = p → c.phase.hasWritten = true →
    i ∈ order

structure AppendInv (s₀ s : FileIo) : Prop where
  names : SameNames s₀ s
  append : ∀ c ∈ s.writes, (s₀.desc c.desc).flags.has O_APPEND = true
  writing : ∀ c ∈ s.writes, ∀ content newContent endPos,
    c.phase = .writing content newContent endPos → newContent = content ++ c.data
  grown : ∀ p, ∃ order, Written s p order ∧
    s.content p = s₀.content p ++ (order.map s.dataOf).flatten

theorem AppendInv.start (kernel : KernelImpl) (files : String → Option ByteArray8) :
    AppendInv (start kernel files) (start kernel files) := by
  refine ⟨fun _ => ⟨rfl, rfl⟩, fun c hc => ?_, fun c hc => ?_, fun p => ⟨[], ⟨.nil, ?_, ?_⟩, ?_⟩⟩
  · cases hc
  · cases hc
  · exact fun i hi => (nomatch hi)
  · intro i c hi
    cases hi
  · simp

section Phase

variable {j : Nat} {c : FileWrite} {phase : FileWritePhase} (hj : s.writes[j]? = some c)
  (hw : s'.writes = s.writes.set j { c with phase := phase })
include hj hw

theorem getElem?_setPhase (i : Nat) :
    s'.writes[i]? = if i = j then some { c with phase := phase } else s.writes[i]? := by
  obtain ⟨hlt, -⟩ := List.getElem?_eq_some_iff.mp hj
  rw [hw, List.getElem?_set]
  by_cases hi : j = i
  · rw [if_pos hi, if_pos hi.symm, if_pos hlt]
  · rw [if_neg hi, if_neg (Ne.symm hi)]

/-- A call keeps its data. -/
theorem dataOf_setPhase : s'.dataOf = s.dataOf := by
  funext i
  rw [dataOf, getElem?_setPhase hj hw]
  split
  · rename_i hi
    rw [hi, dataOf, hj]
    rfl
  · rfl

omit hj in
theorem mem_setPhase {c' : FileWrite} (hc' : c' ∈ s'.writes) : c' ∈ s.writes ∨ c' = { c with phase := phase } := by
  rw [hw] at hc'
  exact List.mem_or_eq_of_mem_set hc'

/-- The phase of a call changes: what is left is how the files have grown. -/
theorem AppendInv.of_phase (h : AppendInv s₀ s) (hn : SameNames s s')
    (hwr : ∀ content newContent endPos, phase = .writing content newContent endPos →
      newContent = content ++ c.data)
    (hg : ∀ p, ∃ order, Written s' p order ∧
      s'.content p = s₀.content p ++ (order.map s.dataOf).flatten) : AppendInv s₀ s' := by
  have hmem : c ∈ s.writes := List.mem_of_getElem? hj
  refine ⟨fun r => ⟨(hn r).1.trans (h.names r).1, (hn r).2.trans (h.names r).2⟩,
    fun c' hc' => ?_, fun c' hc' => ?_, ?_⟩
  · rcases mem_setPhase hw hc' with hc' | rfl
    · exact h.append c' hc'
    · exact h.append c hmem
  · rcases mem_setPhase hw hc' with hc' | rfl
    · exact h.writing c' hc'
    · exact hwr
  · rw [dataOf_setPhase hj hw]
    exact hg

/-- The order of a path stays when its calls do not come to write. -/
theorem Written.of_phase {p : String} {order : List Nat} (h : Written s p order)
    (hn : SameNames s s') (hpast : c.phase.past = true → phase.past = true)
    (hwritten : (s.desc c.desc).path = p → phase.hasWritten = true → c.phase.hasWritten = true) :
    Written s' p order := by
  refine ⟨h.nodup, fun i hi => ?_, fun i c' hc' hp hwr => ?_⟩
  · obtain ⟨c', hc', hp, hpa⟩ := h.past i hi
    rw [getElem?_setPhase hj hw]
    split
    · rename_i hij
      obtain rfl : c = c' := Option.some.inj (hj.symm.trans (hij ▸ hc'))
      exact ⟨_, rfl, (hn _).1.trans hp, hpast hpa⟩
    · exact ⟨c', hc', (hn _).1.trans hp, hpa⟩
  · rw [getElem?_setPhase hj hw] at hc'
    rw [(hn _).1] at hp
    split at hc'
    · rename_i hij
      cases hc'
      exact hij ▸ h.all j c hj hp (hwritten hp hwr)
    · exact h.all i c' hc' hp hwr

/-- The call writes the file: it is the last in the order. -/
theorem Written.snoc {order : List Nat} (h : Written s (s.desc c.desc).path order)
    (hn : SameNames s s') (hc : c.phase.past = false) (hpast : phase.past = true) :
    Written s' (s.desc c.desc).path (order ++ [j]) := by
  have hnot : j ∉ order := fun hmem => by
    obtain ⟨c', hc', -, hpa⟩ := h.past j hmem
    obtain rfl : c = c' := Option.some.inj (hj.symm.trans hc')
    rw [hc] at hpa
    cases hpa
  refine ⟨List.nodup_append.mpr ⟨h.nodup, List.pairwise_singleton _ _, ?_⟩, fun i hi => ?_,
    fun i c' hc' hp hwr => ?_⟩
  · rintro x hx y hy rfl
    exact hnot (List.mem_singleton.mp hy ▸ hx)
  · rw [getElem?_setPhase hj hw]
    split
    · exact ⟨_, rfl, (hn _).1, hpast⟩
    · rename_i hij
      rcases List.mem_append.mp hi with hi | hi
      · obtain ⟨c', hc', hp, hpa⟩ := h.past i hi
        exact ⟨c', hc', (hn _).1.trans hp, hpa⟩
      · exact absurd (List.mem_singleton.mp hi) hij
  · rw [getElem?_setPhase hj hw] at hc'
    rw [(hn _).1] at hp
    split at hc'
    · rename_i hij
      exact List.mem_append_right _ (List.mem_singleton.mpr hij)
    · exact List.mem_append_left _ (h.all i c' hc' hp hwr)

end Phase

variable (h : AppendInv s₀ s)
include h

/-- A new call. -/
theorem AppendInv.call {r : Nat} (data : ByteArray8)
    (hr : (s.desc r).flags.has O_APPEND = true) :
    AppendInv s₀ { s with writes := s.writes ++ [⟨r, data, .reading⟩] } := by
  refine ⟨h.names, fun c hc => ?_, fun c hc => ?_, fun p => ?_⟩
  · rcases List.mem_append.mp hc with hc | hc
    · exact h.append c hc
    · rw [List.mem_singleton.mp hc, ← (h.names r).2]
      exact hr
  · rcases List.mem_append.mp hc with hc | hc
    · exact h.writing c hc
    · rw [List.mem_singleton.mp hc]
      exact fun _ _ _ he => (nomatch he)
  · obtain ⟨order, hwr, hcont⟩ := h.grown p
    have hlt : ∀ i ∈ order, i < s.writes.length := fun i hi => by
      obtain ⟨c, hc, -⟩ := hwr.past i hi
      exact (List.getElem?_eq_some_iff.mp hc).1
    refine ⟨order, ⟨hwr.nodup, fun i hi => ?_, fun i c hc hp hw => ?_⟩, hcont.trans ?_⟩
    · obtain ⟨c, hc, hp, hpa⟩ := hwr.past i hi
      exact ⟨c, by rw [List.getElem?_append_left (hlt i hi)]; exact hc, hp, hpa⟩
    · dsimp only at hc
      rw [List.getElem?_append] at hc
      split at hc
      · exact hwr.all i c hc hp hw
      · obtain rfl := List.mem_singleton.mp (List.mem_of_getElem? hc)
        cases hw
    · have hdata : order.map s.dataOf =
          order.map (dataOf { s with writes := s.writes ++ [⟨r, data, .reading⟩] }) := by
        refine List.map_congr_left fun i hi => ?_
        rw [dataOf, dataOf, List.getElem?_append_left (hlt i hi)]
      rw [hdata]

theorem AppendInv.step (ha : s.Appending a) (hc : s.Current a)
    (hs : s.step a = some s') : AppendInv s₀ s' := by
  rcases write_cases ha hs with rfl | ⟨r, data, hr, rfl⟩ | ⟨j, c, phase, hj, hmove, hn, hf, hw⟩ |
    ⟨j, c, content, newContent, endPos, phase, rfl, hj, hph, hpast, hn, hf, hw⟩
  · exact h
  · exact h.call data hr
  · have hmem : c ∈ s.writes := List.mem_of_getElem? hj
    have happ : (s.desc c.desc).flags.has O_APPEND = true := by
      rw [(h.names c.desc).2]
      exact h.append c hmem
    refine h.of_phase hj hw hn (hmove.writing happ) fun p => ?_
    obtain ⟨order, hwr, hcont⟩ := h.grown p
    refine ⟨order, hwr.of_phase hj hw hn hmove.past fun _ => hmove.hasWritten, ?_⟩
    rw [content, hf]
    exact hcont
  · have hmem : c ∈ s.writes := List.mem_of_getElem? hj
    have hpast' : c.phase.past = false := by rw [hph]; rfl
    have hcur : s.content (s.desc c.desc).path = content :=
      hc c hj content (by rw [FileWrite.contentRead, hph]; rfl)
    have hnew : newContent = content ++ c.data := h.writing c hmem content newContent endPos hph
    refine h.of_phase hj hw hn (fun _ _ _ he => by rw [he] at hpast; cases hpast) fun p => ?_
    obtain ⟨order, hwr, hcont⟩ := h.grown p
    by_cases hp : p = (s.desc c.desc).path
    · subst hp
      refine ⟨order ++ [j], hwr.snoc hj hw hn hpast' hpast, ?_⟩
      have hdata : s.dataOf j = c.data := by rw [dataOf, hj]; rfl
      calc s'.content (s.desc c.desc).path = newContent := by
            rw [FileIo.content, hf, Function.update_self]
            rfl
        _ = s.content (s.desc c.desc).path ++ c.data := by rw [hnew, hcur]
        _ = _ := by
            rw [hcont, List.map_append, List.flatten_append, List.map_singleton, hdata,
              List.flatten_singleton, List.append_assoc]
    · refine ⟨order, hwr.of_phase hj hw hn (fun hpa => by rw [hpast'] at hpa; cases hpa)
        (fun hpath => absurd hpath.symm hp), ?_⟩
      rw [FileIo.content, hf, Function.update_of_ne hp]
      exact hcont

theorem AppendInv.noLostAppend (hr : s.WritesReturned) :
    NoLostAppend s₀ s := by
  intro p
  obtain ⟨order, hwr, hcont⟩ := h.grown p
  refine ⟨order, ?_, hcont⟩
  refine (List.perm_ext_iff_of_nodup hwr.nodup (List.nodup_range.filter _)).mpr fun i => ?_
  rw [List.mem_filter, List.mem_range, pathOf, beq_iff_eq, Option.map_eq_some_iff]
  constructor
  · intro hi
    obtain ⟨c, hc, hp, -⟩ := hwr.past i hi
    exact ⟨(List.getElem?_eq_some_iff.mp hc).1, c, hc, hp⟩
  · rintro ⟨-, c, hc, hp⟩
    refine hwr.all i c hc hp ?_
    rw [hr c (List.mem_of_getElem? hc)]
    rfl

end FileIo

open FileIo

/-- **No lost append**: in every run of appending writes that write back what they have read, once
all have returned each file has its old content and behind it the data of each write once. -/
theorem noLostAppend_of_current {kernel : KernelImpl} {files : String → Option ByteArray8}
    {s : FileIo}
    (h : Reach FileIo.step (fun s a => s.Appending a ∧ s.Current a) (start kernel files) s)
    (hr : s.WritesReturned) : NoLostAppend (start kernel files) s :=
  (h.invariant (AppendInv.start kernel files)
    fun _ _ _ hi hc hs => hi.step hc.1 hc.2 hs).noLostAppend hr

/-- A process with two descriptions of one file, both with `O_APPEND`. -/
def appendingTwice : KernelImpl :=
  (exec KernelImpl.step (.boot [("sh", ["sh"])] none)
    [.spawn "sh" ⟨none, none, none⟩ KernelImpl.answered,
      .fdOpen "sh" 1 "/f" (O_WRONLY ||| O_APPEND) none (.ok false),
      .fdOpen "sh" 1 "/f" (O_WRONLY ||| O_APPEND) none (.ok false)]).getD (.boot [] none)

/-- The only file. -/
def oneByte (path : String) : Option ByteArray8 :=
  if path = "/f" then some [0] else none

/-- One write after the other. -/
theorem noLostAppend_of_current_inTurn :
    ∃ s, Reach FileIo.step (fun s a => s.Appending a ∧ s.Current a) (start appendingTwice oneByte) s ∧
      s.WritesReturned ∧ s.content "/f" = [0, 1, 2] ∧
      NoLostAppend (start appendingTwice oneByte) s := by
  obtain ⟨s, hs, hw, hc⟩ := Reach.exists_of_execIf FileIo.step
    (fun s a => s.Appending a ∧ s.Current a) (start appendingTwice oneByte)
    [.fdWrite "sh" 1 3 [1], .readFileDone 0 true, .writeFileDone 0 true,
      .fdWrite "sh" 1 4 [2], .readFileDone 1 true, .writeFileDone 1 true] (P := fun s =>
      s.writes = [⟨3, [1], .returned⟩, ⟨4, [2], .returned⟩] ∧ s.content "/f" = [0, 1, 2])
    (by decide +kernel)
  have hret : s.WritesReturned := by
    rw [WritesReturned, hw]
    decide
  exact ⟨s, hs, hret, hc, noLostAppend_of_current hs hret⟩

/-- Two writes at once: both read the file before either writes it back, and the data of the first
to do so is lost. -/
theorem append_fails :
    ¬ ∀ kernel files s, Reach FileIo.step (fun s a => s.Appending a) (start kernel files) s →
      s.WritesReturned → NoLostAppend (start kernel files) s := by
  intro hall
  obtain ⟨s, hs, hw, hc, hp0, hp1⟩ := Reach.exists_of_execIf FileIo.step
    (fun s a => s.Appending a) (start appendingTwice oneByte)
    [.fdWrite "sh" 1 3 [1], .fdWrite "sh" 1 4 [2], .readFileDone 0 true, .readFileDone 1 true,
      .writeFileDone 0 true, .writeFileDone 1 true] (P := fun s =>
      s.writes = [⟨3, [1], .returned⟩, ⟨4, [2], .returned⟩] ∧ s.content "/f" = [0, 2] ∧
        s.pathOf 0 = some "/f" ∧ s.pathOf 1 = some "/f") (by decide +kernel)
  have hret : s.WritesReturned := by
    rw [WritesReturned, hw]
    decide
  obtain ⟨order, hperm, hcont⟩ := hall appendingTwice oneByte s hs hret "/f"
  have hall' : (List.range s.writes.length).filter (fun i => s.pathOf i == some "/f") = [0, 1] := by
    rw [hw]
    simp [List.range_succ, hp0, hp1]
  rw [hall'] at hperm
  have hmem : 1 ∈ (order.map s.dataOf).flatten := by
    refine List.mem_flatten.mpr ⟨s.dataOf 0, List.mem_map_of_mem (hperm.mem_iff.mpr ?_), ?_⟩
    · decide
    · rw [dataOf, hw]
      decide
  have hcontent : (1 : UInt8) ∈ s.content "/f" := hcont ▸ List.mem_append_right _ hmem
  rw [hc] at hcontent
  revert hcontent
  decide

end SecureExec.Kernel
