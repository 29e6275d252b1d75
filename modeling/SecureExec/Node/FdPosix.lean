import SecureExec.Node.FdLayers
import SecureExec.Kernel.FdRefs

/-!
# Node — FdPosix — descriptors as POSIX has them

What the two layers are for: a descriptor refers to a file, whatever the names of the file are.

* `Posix`: files apart from their names; `Posix.call` is what a call is meant to do.
* `Plain`: what a call has to meet for the layers to do that: each layer leaves out a check that
  the other makes, and both go back to the path.
* `Refines`: a layer that stands where the model stands.
* `layers_agree`: in a run of such calls both layers answer as the model and leave the same files.
-/

namespace FdLayers
open Lts SecureExec SecureExec.Kernel KernelInterface Function FdLayer ProcessFDTable

/-! ### The model -/

/-- A file: one that was there at the start, or the `n`-th that was made. -/
inductive File where
  | initial (path : String)
  | made (n : Nat)
  deriving DecidableEq

/-- An open file description. -/
structure Opened where
  file : File
  flags : Flags
  cursor : Nat
  deriving DecidableEq

structure Posix where
  table : ProcessFDTable
  opened : Nat → Opened
  next : Nat
  names : String → Option File
  contents : File → ByteArray8
  nextFile : Nat

namespace Posix

/-- The files at the start, with the standard descriptors of `s`. -/
def init (s : FdLayer) : Posix where
  table := (s.fds.get pid).getD .new
  opened := fun r => ⟨.initial "", (s.desc r).flags, (s.desc r).cursor⟩
  next := s.fds.descs.next
  names := fun path => (s.files path).map fun _ => .initial path
  contents := fun f => match f with
    | .initial path => (s.files path).getD []
    | .made _ => []
  nextFile := 0

variable (p : Posix)

/-- The content that `path` names. -/
def content (path : String) : Option ByteArray8 := (p.names path).map p.contents

def setContent (f : File) (content : ByteArray8) : Posix :=
  { p with contents := update p.contents f content }

abbrev Outcome : Type := Except KernelErrorCode Reply × Posix

/-- A new description of the file `f`, at the number `fd` of the table `t`. -/
def place (fd : Nat) (t : ProcessFDTable) (f : File) (flags : Flags) : Posix :=
  { p with
    table := t.setEntry fd ⟨p.next, FILETYPE_REGULAR_FILE, flags.has O_CLOEXEC⟩
    opened := update p.opened p.next ⟨f, flags &&& ~~~O_CLOEXEC, 0⟩
    next := p.next + 1 }

def «open» (path : String) (flags : Flags) : Outcome :=
  match p.table.allocateFd with
  | .error _ => (.error .EMFILE, p)
  | .ok (fd, t) =>
    match p.names path with
    | none =>
      if flags.has O_CREAT then
        let f := File.made p.nextFile
        let q := { p with
          names := update p.names path (some f)
          contents := update p.contents f []
          nextFile := p.nextFile + 1 }
        (.ok (.fd fd), q.place fd t f flags)
      else (.error .ENOENT, p)
    | some f =>
      if flags.has O_CREAT && flags.has O_EXCL then (.error .EEXIST, p)
      else
        let q := if flags.has O_TRUNC then p.setContent f [] else p
        (.ok (.fd fd), q.place fd t f flags)

def setCursor (r cursor : Nat) : Posix :=
  { p with opened := update p.opened r { p.opened r with cursor := cursor } }

def read (fd length : Nat) (position : Option Nat) : Outcome :=
  match p.table.get fd with
  | none => (.error .EBADF, p)
  | some e =>
    let d := p.opened e.description
    if canRead d.flags = false then (.error .EBADF, p)
    else
      let data := Bytes.window (p.contents d.file) (position.getD d.cursor) length
      (.ok (.data data),
        if position.isSome then p else p.setCursor e.description (d.cursor + data.length))

/-- A write of no bytes has no effect on the file; a positioned write does not append. -/
def write (fd : Nat) (data : ByteArray8) (position : Option Nat) : Outcome :=
  match p.table.get fd with
  | none => (.error .EBADF, p)
  | some e =>
    let d := p.opened e.description
    if canWrite d.flags = false then (.error .EBADF, p)
    else
      let content := p.contents d.file
      let pos := match position with
        | some offset => offset
        | none => if d.flags.has O_APPEND then content.length else d.cursor
      let q := if data = [] then p else p.setContent d.file (Bytes.overlay content pos data)
      (.ok (.count data.length),
        if position.isSome then q else q.setCursor e.description (pos + data.length))

def close (fd : Nat) : Outcome :=
  match p.table.get fd with
  | none => (.error .EBADF, p)
  | some _ => (.ok .done, { p with table := { p.table with entries := p.table.entries.delete fd } })

def rename (old new : String) : Outcome :=
  if old = new then (.ok .done, p)
  else
    match p.names old with
    | none => (.error .ENOENT, p)
    | some f =>
      (.ok .done,
        { p with names := update (update p.names new (some f)) old none })

def unlink (path : String) : Outcome :=
  match p.names path with
  | none => (.error .ENOENT, p)
  | some _ => (.ok .done, { p with names := update p.names path none })

def call : Call → Outcome
  | .open path flags => p.open path flags
  | .read fd length position => p.read fd length position
  | .write fd data position => p.write fd data position
  | .close fd => p.close fd
  | .rename old new => p.rename old new
  | .unlink path => p.unlink path

end Posix

/-! ### The two layers and the model, call by call -/

structure Joint where
  guest : FdLayer
  kernel : FdLayer
  posix : Posix

namespace Joint

def init (files : String → Option ByteArray8) : Joint :=
  ⟨.init files, .init files, .init (.init files)⟩

/-- What a call came to: with the guest's handlers, with the kernel, and in the model. -/
structure Answers where
  guest : Except Thrown Reply
  kernel : Except Thrown Reply
  posix : Except KernelErrorCode Reply

/-- The names of descriptors and of the kernel's parameters are not of the file system. -/
def isRegular (path : String) : Bool :=
  (KernelImpl.devFd? path).isNone && path != "/proc/sys/kernel/hostname"

/-- The call is about regular files. -/
def Regular (s : FdLayer) : Call → Prop
  | .open path _ | .unlink path => isRegular path = true
  | .rename old new => isRegular old = true ∧ isRegular new = true
  | .read fd _ _ | .write fd _ _ | .close fd =>
    ∀ e ∈ s.entry fd, e.filetype = FILETYPE_REGULAR_FILE

instance : ∀ (s : FdLayer) (c : Call), Decidable (Regular s c) := by
  intro s c
  unfold Regular
  cases c <;> infer_instance

def step (j : Joint) (c : Call) : Option (Joint × List Answers) :=
  if Regular j.guest c ∧ Regular j.kernel c then
    let g := Guest.call j.guest c
    let k := call j.kernel c
    let p := j.posix.call c
    some (⟨g.2, k.2, p.2⟩, [⟨g.1, k.1, p.1⟩])
  else none

/-- The path of a descriptor still names the file that it was opened for. -/
def Current (j : Joint) (r : Nat) : Prop :=
  j.posix.names (j.guest.desc r).path = some (j.posix.opened r).file

/-- What a call has to meet.  An open is of a file that is there or is made, is not exclusive when
it is there, and touches no file when the table is full.  A descriptor is read and written by its
mode and while its path names its file; a positioned write is not of a descriptor that appends, and
a write of no bytes not beyond the end.  No descriptor is closed that is not open. -/
def Plain (j : Joint) : Call → Prop
  | .open path flags =>
    (j.posix.names path = none → flags.has O_CREAT = true) ∧
    (j.posix.names path ≠ none → ¬ (flags.has O_CREAT = true ∧ flags.has O_EXCL = true)) ∧
    (MAX_FDS_PER_PROCESS ≤ j.posix.table.entries.size →
      j.posix.names path ≠ none ∧ flags.has O_TRUNC = false)
  | .read fd _ _ => ∀ e ∈ j.posix.table.get fd,
    canRead (j.posix.opened e.description).flags = true ∧ j.Current e.description
  | .write fd data position => ∀ e ∈ j.posix.table.get fd,
    canWrite (j.posix.opened e.description).flags = true ∧ j.Current e.description ∧
    (position ≠ none → (j.posix.opened e.description).flags.has O_APPEND = false) ∧
    (data = [] → (j.posix.opened e.description).flags.has O_APPEND = true ∨
      position.getD (j.posix.opened e.description).cursor ≤
        (j.posix.contents (j.posix.opened e.description).file).length)
  | .close fd => j.posix.table.get fd ≠ none
  | .rename _ _ | .unlink _ => True

instance : ∀ (j : Joint) (c : Call), Decidable (j.Plain c) := by
  intro j c
  unfold Plain Current
  cases c <;> infer_instance

end Joint

/-! ### A layer where the model stands -/

structure Refines (s : FdLayer) (p : Posix) : Prop where
  table : s.fds.get pid = some p.table
  next : s.fds.descs.next = p.next
  opened : ∀ r, (s.desc r).flags = (p.opened r).flags ∧ (s.desc r).cursor = (p.opened r).cursor
  files : ∀ path, s.files path = p.content path
  inj : ∀ path path' f, p.names path = some f → p.names path' = some f → path = path'
  fresh : ∀ path n, p.names path = some (.made n) → n < p.nextFile

/-- An answer, without the text of an error. -/
def outcome (r : Except Thrown Reply) : Except KernelErrorCode Reply := r.mapError Thrown.code

namespace Refines

variable {s : FdLayer} {p : Posix} {path : String} {f : File} {r : Nat}

variable (h : Refines s p)
include h

theorem entry (fd : Nat) : s.entry fd = p.table.get fd := by
  rw [FdLayer.entry, h.table]
  rfl

/-- A new description, of whatever file. -/
theorem place {fd : Nat} {t : ProcessFDTable}
    (ha : p.table.allocateFd = .ok (fd, t)) (path : String) (f : File) (flags : Flags) :
    (s.open path flags).1 = .ok (.fd fd) ∧ Refines (s.open path flags).2 (p.place fd t f flags) := by
  have ho : s.open path flags = (.ok (.fd fd), { s with
      fds := (s.fds.allocDesc path (flags &&& ~~~O_CLOEXEC)).2.setTable pid
        ((s.fds.allocDesc path (flags &&& ~~~O_CLOEXEC)).2.descs,
          t.setEntry fd ⟨s.fds.descs.next, FILETYPE_REGULAR_FILE, flags.has O_CLOEXEC⟩) }) := by
    simp only [FdLayer.open, h.table, FDTableManager.openIn, ha]
    rfl
  rw [ho]
  refine ⟨rfl, ?_⟩
  exact {
    table := by
      change (OMap.set _ pid _).get pid = _
      rw [OMap.get_set_self, h.next]
      rfl
    next := congrArg (· + 1) h.next
    opened := fun r => by
      change (update s.fds.descs.objs s.fds.descs.next _ r).flags =
          (update p.opened p.next _ r).flags ∧
        (update s.fds.descs.objs s.fds.descs.next _ r).cursor =
          (update p.opened p.next _ r).cursor
      rw [h.next]
      by_cases hr : r = p.next
      · subst hr
        rw [update_self, update_self]
        exact ⟨rfl, rfl⟩
      · rw [update_of_ne hr, update_of_ne hr]
        exact h.opened r
    files := h.files
    inj := h.inj
    fresh := h.fresh }

/-- The content of a file that has a name. -/
theorem writeFile (hf : p.names path = some f) (c : ByteArray8) :
    Refines (s.writeFile path c) (p.setContent f c) where
  table := h.table
  next := h.next
  opened := h.opened
  files := fun path' => by
    change update s.files path (some c) path' =
      (p.names path').map (update p.contents f c)
    by_cases hp : path' = path
    · subst hp
      rw [update_self, hf, Option.map_some, update_self]
    · rw [update_of_ne hp, h.files path', Posix.content]
      cases hn : p.names path' with
      | none => rfl
      | some f' =>
          have hne : f' ≠ f := fun he => hp (h.inj _ _ f (he ▸ hn) hf)
          rw [Option.map_some, Option.map_some, update_of_ne hne]
  inj := h.inj
  fresh := h.fresh

/-- A file that is made. -/
theorem make (hn : p.names path = none) :
    Refines (s.writeFile path []) { p with
      names := update p.names path (some (.made p.nextFile))
      contents := update p.contents (.made p.nextFile) []
      nextFile := p.nextFile + 1 } where
  table := h.table
  next := h.next
  opened := h.opened
  files := fun path' => by
    change update s.files path (some []) path' =
      (update p.names path (some (.made p.nextFile)) path').map
        (update p.contents (.made p.nextFile) [])
    by_cases hp : path' = path
    · subst hp
      rw [update_self, update_self, Option.map_some, update_self]
    · rw [update_of_ne hp, update_of_ne hp, h.files path', Posix.content]
      cases hf : p.names path' with
      | none => rfl
      | some f =>
          have hne : f ≠ .made p.nextFile := fun he =>
            Nat.lt_irrefl _ (h.fresh path' p.nextFile (he ▸ hf))
          rw [Option.map_some, Option.map_some, update_of_ne hne]
  inj := fun path₁ path₂ f h₁ h₂ => by
    simp only [update_apply] at h₁ h₂
    split at h₁ <;> split at h₂
    · rename_i e₁ e₂
      rw [e₁, e₂]
    · cases h₁
      exact absurd (h.fresh path₂ p.nextFile h₂) (Nat.lt_irrefl _)
    · cases h₂
      exact absurd (h.fresh path₁ p.nextFile h₁) (Nat.lt_irrefl _)
    · exact h.inj path₁ path₂ f h₁ h₂
  fresh := fun path' n hp => by
    simp only [update_apply] at hp
    split at hp
    · cases hp
      exact Nat.lt_succ_self _
    · exact Nat.lt_succ_of_lt (h.fresh path' n hp)

theorem setCursor (r cursor : Nat) :
    Refines (s.modifyDesc r fun d => { d with cursor := cursor }) (p.setCursor r cursor) where
  table := h.table
  next := h.next
  opened := fun r' => by
    change (update s.fds.descs.objs r _ r').flags = (update p.opened r _ r').flags ∧
      (update s.fds.descs.objs r _ r').cursor = (update p.opened r _ r').cursor
    by_cases hr : r' = r
    · subst hr
      rw [update_self, update_self]
      exact ⟨(h.opened r').1, rfl⟩
    · rw [update_of_ne hr, update_of_ne hr]
      exact h.opened r'
  files := h.files
  inj := h.inj
  fresh := h.fresh

theorem close (fd : Nat) (e : FDEntry) (he : p.table.get fd = some e) :
    Refines (s.close fd) { p with table := { p.table with entries := p.table.entries.delete fd } } := by
  have hc : s.close fd = { s with
      fds := s.fds.setTable pid (s.fds.descs.addRef e.description (-1),
        { p.table with entries := p.table.entries.delete fd }) } := by
    simp only [FdLayer.close, h.table, ProcessFDTable.close, he]
  rw [hc]
  exact {
    table := OMap.get_set_self _ _ _
    next := h.next
    opened := fun r => by
      change (update s.fds.descs.objs e.description _ r).flags = _ ∧
        (update s.fds.descs.objs e.description _ r).cursor = _
      by_cases hr : r = e.description
      · subst hr
        rw [update_self]
        exact h.opened e.description
      · rw [update_of_ne hr]
        exact h.opened r
    files := h.files
    inj := h.inj
    fresh := h.fresh }

/-- The names change, and the contents stay. -/
theorem names {files : String → Option ByteArray8} {names : String → Option File}
    (hf : ∀ path, files path = (names path).map p.contents)
    (hi : ∀ path path' f, names path = some f → names path' = some f → path = path')
    (hn : ∀ path f, names path = some f → ∃ path', p.names path' = some f) :
    Refines { s with files := files } { p with names := names } where
  table := h.table
  next := h.next
  opened := h.opened
  files := hf
  inj := hi
  fresh := fun path n hp => by
    obtain ⟨path', hp'⟩ := hn path _ hp
    exact h.fresh path' n hp'

end Refines

/-! ### One call -/

theorem has_or (flags a b : Flags) : flags.has (a ||| b) = (flags.has a || flags.has b) := by
  have h : flags &&& (a ||| b) = (flags &&& a) ||| (flags &&& b) := BitVec.and_or_distrib_left
  rw [Flags.has, Flags.has, Flags.has, h, Bool.eq_iff_iff, Bool.or_eq_true, bne_iff_ne, bne_iff_ne,
    bne_iff_ne, ne_eq, BitVec.ofNat_eq_ofNat, BitVec.or_eq_zero_iff]
  tauto

/-- The layers answer alike, as the model does, and stay where the model is. -/
structure Agree (g k : Result) (q : Posix.Outcome) : Prop where
  guest : outcome g.1 = q.1
  kernel : outcome k.1 = q.1
  same : k.2 = g.2
  refines : Refines g.2 q.2

namespace Refines

variable {s : FdLayer} {p : Posix}

section

variable (h : Refines s p)
include h

theorem open_full (hs : MAX_FDS_PER_PROCESS ≤ p.table.entries.size)
    (path : String) (flags : Flags) :
    s.open path flags = (.error ⟨.EMFILE, "too many open files"⟩, s) := by
  have ha : p.table.allocateFd = .error emfile := if_pos hs
  simp only [FdLayer.open, h.table, FDTableManager.openIn, ha]
  rfl

theorem call_open {path : String} {flags : Flags}
    (hp : (⟨s, s, p⟩ : Joint).Plain (.open path flags)) :
    Agree (Guest.fdOpen s path flags) (fdOpen s path flags) (p.open path flags) := by
  obtain ⟨hc, hx, hfull⟩ := hp
  simp only at hc hx hfull
  have hfile := h.files path
  by_cases hs : MAX_FDS_PER_PROCESS ≤ p.table.entries.size
  · -- no number is free
    obtain ⟨hn, ht⟩ := hfull hs
    obtain ⟨f, hf⟩ := Option.ne_none_iff_exists'.mp hn
    have hx := hx hn
    rw [Posix.content, hf, Option.map_some] at hfile
    have ha : p.table.allocateFd = .error emfile := if_pos hs
    have hg : Guest.fdOpen s path flags = (.error ⟨.EMFILE, "too many open files"⟩, s) := by
      rw [Guest.fdOpen, hfile]
      simp only [ht, Bool.false_eq_true, if_false, h.open_full hs]
    have hk : fdOpen s path flags = (.error ⟨.EMFILE, "too many open files"⟩, s) := by
      rw [fdOpen, prepareOpenSync, hfile]
      split
      · simp [ht, hx, h.open_full hs]
      · exact h.open_full hs _ _
    have hq : p.open path flags = (.error .EMFILE, p) := by rw [Posix.open, ha]
    rw [hg, hk, hq]
    exact ⟨rfl, rfl, rfl, h⟩
  · have ha : p.table.allocateFd = .ok
        (freeFrom p.table.entries p.table.nextFd,
          { p.table with nextFd := freeFrom p.table.entries p.table.nextFd + 1 }) :=
      if_neg hs
    generalize freeFrom p.table.entries p.table.nextFd = fd at ha
    generalize { p.table with nextFd := fd + 1 } = t at ha
    cases hf : p.names path with
    | none =>
        have hcr := hc hf
        rw [Posix.content, hf, Option.map_none] at hfile
        have hg : Guest.fdOpen s path flags = (s.writeFile path []).open path flags := by
          rw [Guest.fdOpen, hfile]
          simp only [hcr, if_true]
        have hk : fdOpen s path flags = (s.writeFile path []).open path flags := by
          rw [fdOpen, prepareOpenSync, hfile, has_or, has_or, hcr]
          simp
        have hq := (h.make hf).place ha path (.made p.nextFile) flags
        have hpo : p.open path flags = (.ok (.fd fd), Posix.place { p with
            names := update p.names path (some (.made p.nextFile))
            contents := update p.contents (.made p.nextFile) []
            nextFile := p.nextFile + 1 } fd t (.made p.nextFile) flags) := by
          rw [Posix.open, ha]
          simp only [hf, hcr, if_true]
        rw [hg, hk, hpo]
        exact ⟨by rw [hq.1]; rfl, by rw [hq.1]; rfl, rfl, hq.2⟩
    | some f =>
        have hx := hx (by rw [hf]; simp)
        have hx' : (flags.has O_CREAT && flags.has O_EXCL) = false := by simpa using hx
        rw [Posix.content, hf, Option.map_some] at hfile
        cases ht : flags.has O_TRUNC with
        | true =>
            have hg : Guest.fdOpen s path flags = (s.writeFile path []).open path flags := by
              rw [Guest.fdOpen, hfile]
              simp only [ht, if_true]
            have hk : fdOpen s path flags =
                (s.writeFile path []).open path flags := by
              rw [fdOpen, prepareOpenSync, hfile, has_or, ht]
              simp [hx']
            have hq := (h.writeFile hf []).place ha path f flags
            have hpo : p.open path flags = (.ok (.fd fd), (p.setContent f []).place fd t f flags) := by
              rw [Posix.open, ha]
              simp only [hf, hx', ht, if_true, Bool.false_eq_true, if_false]
            rw [hg, hk, hpo]
            exact ⟨by rw [hq.1]; rfl, by rw [hq.1]; rfl, rfl, hq.2⟩
        | false =>
            have hg : Guest.fdOpen s path flags = s.open path flags := by
              rw [Guest.fdOpen, hfile]
              simp only [ht, Bool.false_eq_true, if_false]
            have hk : fdOpen s path flags = s.open path flags := by
              rw [fdOpen, prepareOpenSync, hfile]
              simp [hx', ht]
            have hq := h.place ha path f flags
            have hpo : p.open path flags = (.ok (.fd fd), p.place fd t f flags) := by
              rw [Posix.open, ha]
              simp only [hf, hx', ht, Bool.false_eq_true, if_false]
            rw [hg, hk, hpo]
            exact ⟨by rw [hq.1]; rfl, by rw [hq.1]; rfl, rfl, hq.2⟩

/-- What a descriptor refers to, while its path names its file. -/
theorem current {r : Nat} (hr : (⟨s, s, p⟩ : Joint).Current r) :
    s.files (s.desc r).path = some (p.contents (p.opened r).file) := by
  rw [h.files, Posix.content, show p.names (s.desc r).path = some (p.opened r).file from hr]
  rfl

/-- A cursor that moves. -/
theorem moveCursor (r n : Nat) :
    Refines (s.modifyDesc r fun d => { d with cursor := d.cursor + n })
      (p.setCursor r ((p.opened r).cursor + n)) := by
  have hm : (s.modifyDesc r fun d => { d with cursor := d.cursor + n }) =
      s.modifyDesc r fun d => { d with cursor := (p.opened r).cursor + n } := by
    have hd : s.fds.descs.objs r = s.desc r := rfl
    simp only [modifyDesc, Descs.modify, hd, (h.opened r).2]
  rw [hm]
  exact h.setCursor r _

variable {position : Option Nat}

theorem call_read {fd length : Nat} (hp : (⟨s, s, p⟩ : Joint).Plain (.read fd length position)) :
    Agree (Guest.fdRead s fd length position) (call s (.read fd length position))
      (p.read fd length position) := by
  have he := h.entry fd
  cases ht : p.table.get fd with
  | none =>
      rw [ht] at he
      have hq : p.read fd length position = (.error .EBADF, p) := by
        simp only [Posix.read, ht]
      have hg : Guest.fdRead s fd length position =
          (.error ⟨.EBADF, "EBADF: bad file descriptor, read"⟩, s) := by
        simp only [Guest.fdRead, he]
      have hk : call s (.read fd length position) =
          (.error (ebadf fd), s) := by
        cases position <;>
          simp only [call, fdRead, fdPread, he]
      rw [hg, hk, hq]
      exact ⟨rfl, rfl, rfl, h⟩
  | some e =>
      rw [ht] at he
      obtain ⟨hm, hcur⟩ := hp e ht
      have hm : canRead (p.opened e.description).flags = true := hm
      have hfile := h.current hcur
      obtain ⟨hfl, hcu⟩ := h.opened e.description
      have hm' : canRead (s.desc e.description).flags = true := by rw [hfl]; exact hm
      cases position with
      | some offset =>
          have hg : Guest.fdRead s fd length (some offset) = (.ok (.data
              (Bytes.window (p.contents (p.opened e.description).file) offset length)), s) := by
            simp [Guest.fdRead, he, hm', pread, hfile]
          have hk : call s (.read fd length (some offset)) = (.ok (.data
              (Bytes.window (p.contents (p.opened e.description).file) offset length)), s) := by
            simp [call, fdPread, he, pread, hfile]
          have hq : p.read fd length (some offset) = (.ok (.data
              (Bytes.window (p.contents (p.opened e.description).file) offset length)), p) := by
            simp [Posix.read, ht, hm]
          rw [hg, hk, hq]
          exact ⟨rfl, rfl, rfl, h⟩
      | none =>
          generalize hd : Bytes.window (p.contents (p.opened e.description).file)
            (p.opened e.description).cursor length = data
          have hg : Guest.fdRead s fd length none = (.ok (.data data),
              s.modifyDesc e.description fun d => { d with cursor := d.cursor + data.length }) := by
            simp [Guest.fdRead, he, hm', pread, hfile, hcu, hd]
          have hk : call s (.read fd length none) = (.ok (.data data),
              s.modifyDesc e.description fun d => { d with cursor := d.cursor + data.length }) := by
            simp [call, fdRead, he, pread, hfile, hcu, hd]
          have hq : p.read fd length none = (.ok (.data data),
              p.setCursor e.description ((p.opened e.description).cursor + data.length)) := by
            simp [Posix.read, ht, hm, hd]
          rw [hg, hk, hq]
          exact ⟨rfl, rfl, rfl, h.moveCursor _ _⟩

/-- A write at `pos`, which may be of no bytes when the file reaches that far. -/
theorem written {r : Nat} (hcur : (⟨s, s, p⟩ : Joint).Current r) (pos : Nat)
    {data : ByteArray8}
    (hd : data = [] → pos ≤ (p.contents (p.opened r).file).length) :
    Refines
      (s.writeFile (s.desc r).path
        (Bytes.overlay (p.contents (p.opened r).file) pos data))
      (if data = [] then p
        else p.setContent (p.opened r).file
          (Bytes.overlay (p.contents (p.opened r).file) pos data)) := by
  split
  · rename_i hnil
    subst hnil
    rw [Bytes.overlay_nil (hd rfl), FdLayer.writeFile, ← h.current hcur, update_eq_self]
    exact h
  · exact h.writeFile hcur _

theorem call_write {fd : Nat} {data : ByteArray8}
    (hp : (⟨s, s, p⟩ : Joint).Plain (.write fd data position)) :
    Agree (Guest.fdWrite s fd data position) (call s (.write fd data position))
      (p.write fd data position) := by
  have he := h.entry fd
  cases ht : p.table.get fd with
  | none =>
      rw [ht] at he
      have hq : p.write fd data position = (.error .EBADF, p) := by
        simp only [Posix.write, ht]
      have hg : Guest.fdWrite s fd data position =
          (.error ⟨.EBADF, "EBADF: bad file descriptor, write"⟩, s) := by
        simp only [Guest.fdWrite, he]
      have hk : call s (.write fd data position) =
          (.error (ebadf fd), s) := by
        cases position <;>
          simp only [call, fdWrite, fdPwrite, he]
      rw [hg, hk, hq]
      exact ⟨rfl, rfl, rfl, h⟩
  | some e =>
      rw [ht] at he
      obtain ⟨hm, hcur, hap, hnil⟩ := hp e ht
      have hm : canWrite (p.opened e.description).flags = true := hm
      have hfile := h.current hcur
      obtain ⟨hfl, hcu⟩ := h.opened e.description
      cases position with
      | some offset =>
          have hap' : (p.opened e.description).flags.has O_APPEND = false := hap (by simp)
          have hnil' : data = [] →
              offset ≤ (p.contents (p.opened e.description).file).length := fun hd =>
            (hnil hd).resolve_left (by simp [hap'])
          have hw := h.written hcur offset hnil'
          have hg : Guest.fdWrite s fd data (some offset) = (.ok (.count data.length),
              s.writeFile (s.desc e.description).path
                (Bytes.overlay (p.contents (p.opened e.description).file) offset data)) := by
            simp [Guest.fdWrite, he, hm, hfl, hap', hfile]
          have hk : call s (.write fd data (some offset)) =
              (.ok (.count data.length), s.writeFile (s.desc e.description).path
                (Bytes.overlay (p.contents (p.opened e.description).file) offset data)) := by
            simp only [call, fdPwrite, he, hfile]
            split
            · rename_i hz
              have hd := List.length_eq_zero_iff.mp hz
              rw [hd, Bytes.overlay_nil (hnil' hd), FdLayer.writeFile, ← hfile, update_eq_self]
            · rfl
          have hq : p.write fd data (some offset) = (.ok (.count data.length),
              if data = [] then p
              else p.setContent (p.opened e.description).file
                (Bytes.overlay (p.contents (p.opened e.description).file) offset data)) := by
            simp [Posix.write, ht, hm]
          rw [hg, hk, hq]
          exact ⟨rfl, rfl, rfl, hw⟩
      | none =>
          generalize hpos : (if (p.opened e.description).flags.has O_APPEND = true then
            (p.contents (p.opened e.description).file).length
            else (p.opened e.description).cursor) = pos
          have hnil' : data = [] →
              pos ≤ (p.contents (p.opened e.description).file).length := fun hd => by
            rw [← hpos]
            split
            · exact Nat.le_refl _
            · rename_i hn
              exact (hnil hd).resolve_left hn
          have hw := h.written hcur pos hnil'
          have hg : Guest.fdWrite s fd data none = (.ok (.count data.length),
              (s.writeFile (s.desc e.description).path
                (Bytes.overlay (p.contents (p.opened e.description).file) pos data)).modifyDesc
                  e.description fun d => { d with cursor := pos + data.length }) := by
            simp [Guest.fdWrite, he, hm, hfl, hfile, hcu, hpos]
          have hk : call s (.write fd data none) = (.ok (.count data.length),
              (s.writeFile (s.desc e.description).path
                (Bytes.overlay (p.contents (p.opened e.description).file) pos data)).modifyDesc
                  e.description fun d => { d with cursor := pos + data.length }) := by
            simp [call, fdWrite, he, hfl, hfile, hcu, hpos]
          have hq : p.write fd data none = (.ok (.count data.length),
              Posix.setCursor (if data = [] then p
                else p.setContent (p.opened e.description).file
                  (Bytes.overlay (p.contents (p.opened e.description).file) pos data))
                e.description (pos + data.length)) := by
            simp [Posix.write, ht, hm, hpos]
          rw [hg, hk, hq]
          exact ⟨rfl, rfl, rfl, hw.setCursor _ _⟩

theorem call_close {fd : Nat}
    (hp : (⟨s, s, p⟩ : Joint).Plain (.close fd)) :
    Agree (Guest.fdClose s fd) (fdClose s fd) (p.close fd) := by
  obtain ⟨e, ht⟩ := Option.ne_none_iff_exists'.mp hp
  have ht : p.table.get fd = some e := ht
  have he := h.entry fd
  rw [ht] at he
  have hg : Guest.fdClose s fd = (.ok .done, s.close fd) := by simp only [Guest.fdClose, he]
  have hk : fdClose s fd = (.ok .done, s.close fd) := by
    simp only [fdClose, he]
  have hq : p.close fd = (.ok .done,
      { p with table := { p.table with entries := p.table.entries.delete fd } }) := by
    simp only [Posix.close, ht]
  rw [hg, hk, hq]
  exact ⟨rfl, rfl, rfl, h.close fd e ht⟩

theorem call_rename (old new : String) :
    Agree (s.rename old new) (s.rename old new) (p.rename old new) := by
  by_cases hon : old = new
  · rw [rename, if_pos hon, Posix.rename, if_pos hon]
    exact ⟨rfl, rfl, rfl, h⟩
  have hfile := h.files old
  rw [rename, if_neg hon, Posix.rename, if_neg hon]
  cases hf : p.names old with
  | none =>
      rw [Posix.content, hf, Option.map_none] at hfile
      rw [hfile]
      exact ⟨rfl, rfl, rfl, h⟩
  | some f =>
      rw [Posix.content, hf, Option.map_some] at hfile
      rw [hfile]
      refine ⟨rfl, rfl, rfl, h.names (fun path => ?_) ?_ ?_⟩
      · simp only [update_apply]
        split
        · rfl
        split
        · rfl
        · exact h.files path
      · intro path path' g h₁ h₂
        simp only [update_apply] at h₁ h₂
        split at h₁
        · cases h₁
        split at h₂
        · cases h₂
        rename_i hn₁ hn₂
        split at h₁ <;> split at h₂
        · rename_i e₁ e₂
          rw [e₁, e₂]
        · cases h₁
          exact absurd (h.inj _ _ f h₂ hf) hn₂
        · cases h₂
          exact absurd (h.inj _ _ f h₁ hf) hn₁
        · exact h.inj path path' g h₁ h₂
      · intro path g h₁
        simp only [update_apply] at h₁
        split at h₁
        · cases h₁
        split at h₁
        · cases h₁
          exact ⟨old, hf⟩
        · exact ⟨path, h₁⟩

theorem call_unlink (path : String) :
    Agree (s.unlink path) (s.unlink path) (p.unlink path) := by
  have hfile := h.files path
  rw [unlink, Posix.unlink]
  cases hf : p.names path with
  | none =>
      rw [Posix.content, hf, Option.map_none] at hfile
      rw [hfile]
      exact ⟨rfl, rfl, rfl, h⟩
  | some f =>
      rw [Posix.content, hf, Option.map_some] at hfile
      rw [hfile]
      refine ⟨rfl, rfl, rfl, h.names (fun path' => ?_) ?_ ?_⟩
      · simp only [update_apply]
        split
        · rfl
        · exact h.files path'
      · intro path₁ path₂ g h₁ h₂
        simp only [update_apply] at h₁ h₂
        split at h₁
        · cases h₁
        split at h₂
        · cases h₂
        exact h.inj path₁ path₂ g h₁ h₂
      · intro path₁ g h₁
        simp only [update_apply] at h₁
        split at h₁
        · cases h₁
        · exact ⟨path₁, h₁⟩

theorem call {c : Call} (hp : (⟨s, s, p⟩ : Joint).Plain c) :
    Agree (Guest.call s c) (call s c) (p.call c) := by
  cases c with
  | «open» path flags => exact h.call_open hp
  | read fd length position => exact h.call_read hp
  | write fd data position => exact h.call_write hp
  | close fd => exact h.call_close hp
  | rename old new => exact h.call_rename old new
  | unlink path => exact h.call_unlink path

end

theorem init (files : String → Option ByteArray8) :
    Refines (.init files) (.init (.init files)) where
  table := rfl
  next := rfl
  opened := fun _ => ⟨rfl, rfl⟩
  files := fun path => by
    change files path = ((files path).map fun _ => File.initial path).map fun f => match f with
      | .initial path => (files path).getD []
      | .made _ => []
    cases hf : files path with
    | none => rfl
    | some b => simp [hf]
  inj := fun path path' f h₁ h₂ => by
    change ((files path).map fun _ => File.initial path) = some f at h₁
    change ((files path').map fun _ => File.initial path') = some f at h₂
    obtain ⟨_, -, rfl⟩ := Option.map_eq_some_iff.mp h₁
    obtain ⟨_, -, hf⟩ := Option.map_eq_some_iff.mp h₂
    cases hf
    rfl
  fresh := fun path n hp => by
    change ((files path).map fun _ => File.initial path) = _ at hp
    obtain ⟨_, -, hf⟩ := Option.map_eq_some_iff.mp hp
    cases hf

end Refines

/-! ### Every run -/

/-- Both layers answered each call as the model did, and have its files. -/
structure Alike (j : Joint) (answers : List Joint.Answers) : Prop where
  answers : ∀ a ∈ answers, outcome a.guest = a.posix ∧ outcome a.kernel = a.posix
  guest : ∀ path, j.guest.files path = j.posix.content path
  kernel : ∀ path, j.kernel.files path = j.posix.content path

/-- **Two layers, one model.**  In every sequence of plain calls the guest's handlers and the kernel
succeed and fail as POSIX has it, return the same, and leave the same files. -/
theorem layers_agree {files : String → Option ByteArray8} {q : Joint × List Joint.Answers}
    (r : Reach (recorded Joint.step) (fun q c => q.1.Plain c) (Joint.init files, []) q) :
    Alike q.1 q.2 := by
  have hi : q.1.kernel = q.1.guest ∧ Refines q.1.guest q.1.posix ∧
      ∀ a ∈ q.2, outcome a.guest = a.posix ∧ outcome a.kernel = a.posix := by
    refine r.invariant (I := fun q => q.1.kernel = q.1.guest ∧ Refines q.1.guest q.1.posix ∧
      ∀ a ∈ q.2, outcome a.guest = a.posix ∧ outcome a.kernel = a.posix)
      ⟨rfl, Refines.init files, fun _ h => absurd h List.not_mem_nil⟩ ?_
    rintro ⟨⟨g, k, p⟩, answers⟩ c q ⟨hk, hR, ha⟩ hC hs
    obtain rfl : k = g := hk
    obtain ⟨r, hr, rfl⟩ := recorded_eq_some.mp hs
    simp only [Joint.step] at hr
    split at hr
    · cases hr
      have hc := hR.call hC
      refine ⟨hc.same, hc.refines, fun a hm => ?_⟩
      rcases List.mem_append.mp hm with hm | hm
      · exact ha a hm
      · cases List.mem_singleton.mp hm
        exact ⟨hc.guest, hc.kernel⟩
    · cases hr
  exact ⟨hi.2.2, hi.2.1.files, fun path => by rw [hi.1]; exact hi.2.1.files path⟩

/-- One file, of two bytes. -/
def oneFile (path : String) : Option ByteArray8 := if path = "/f" then some [1, 2] else none

/-- A file that is made, written, read back and renamed. -/
theorem layers_agree_made :
    ∃ q : Joint × List Joint.Answers, Alike q.1 q.2 ∧
      q.2.map (fun a => a.posix) = [.ok (.fd 3), .ok (.count 2), .ok (.data [8]), .error .EBADF,
        .ok .done, .ok .done] ∧
      q.1.posix.content "/h" = some [7, 8] :=
  (Reach.exists_of_execIf (recorded Joint.step) (fun q c => q.1.Plain c) (Joint.init oneFile, [])
    [.open "/g" (O_RDWR ||| O_CREAT ||| O_EXCL), .write 3 [7, 8] none, .read 3 5 (some 1),
      .read 9 1 none, .close 3, .rename "/g" "/h"] (by decide +kernel)).imp
    fun _ h => ⟨layers_agree h.1, h.2⟩

/-- **Two layers, two models.**  The guest's handlers do not know exclusive opens, and empty the
file; the kernel does not know access modes, and opens what is not there; and neither keeps a
descriptor at a file that was renamed. -/
theorem layers_differ :
    let run := fun calls => (exec (recorded Joint.step) (Joint.init oneFile, []) calls).map fun q =>
      (q.2.map fun a => (outcome a.guest, outcome a.kernel, a.posix), q.1.guest.files "/f",
        q.1.kernel.files "/f", q.1.posix.content "/f")
    run [.open "/f" (O_WRONLY ||| O_CREAT ||| O_EXCL ||| O_TRUNC)] =
      some ([(.ok (.fd 3), .error .EEXIST, .error .EEXIST)], some [], some [1, 2], some [1, 2]) ∧
    run [.open "/f" O_WRONLY, .read 3 2 none] =
      some ([(.ok (.fd 3), .ok (.fd 3), .ok (.fd 3)),
        (.error .EBADF, .ok (.data [1, 2]), .error .EBADF)], some [1, 2], some [1, 2], some [1, 2]) ∧
    run [.open "/missing" O_RDONLY] =
      some ([(.error .ENOENT, .ok (.fd 3), .error .ENOENT)], some [1, 2], some [1, 2], some [1, 2]) ∧
    run [.open "/f" O_RDONLY, .rename "/f" "/g", .read 3 2 none] =
      some ([(.ok (.fd 3), .ok (.fd 3), .ok (.fd 3)), (.ok .done, .ok .done, .ok .done),
        (.error .ENOENT, .error .ENOENT, .ok (.data [1, 2]))], none, none, none) := by
  intro run
  exact ⟨rfl, rfl, rfl, rfl⟩

end FdLayers
