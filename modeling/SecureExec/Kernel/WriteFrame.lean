import SecureExec.Kernel.Wrapper
import SecureExec.Kernel.SharedCursor

/-!
# Kernel — WriteFrame — what a write leaves of a file

`fdWrite` on a descriptor of a regular file, run to its end with nothing in between, over a file
system behind the permission layer (`wrapFileSystem`).  `vfsWrite` reads the whole file, puts the
data into it and writes it back; a read that fails, for whatever reason, counts as an empty file.

* `framed_overlay_nil`: the data put into nothing is the file with the data in it exactly when the
  file has nothing behind the data and only zeros before.
* `fdWrite_frame_iff`: a write that resolves keeps the rest of the file exactly when the file was
  read, or nothing of it is lost.
-/

namespace SecureExec.Kernel
open SecureExec Lts Prog

/-! ### Bytes -/

/-- `new` is `old` with `d` at `c`, and zeros where there was nothing. -/
structure Framed (old : ByteArray8) (c : Nat) (d new : ByteArray8) : Prop where
  length : new.length = max old.length (c + d.length)
  data : ∀ i < d.length, Bytes.byte new (c + i) = Bytes.byte d i
  rest : ∀ i < old.length, i < c ∨ c + d.length ≤ i → Bytes.byte new i = Bytes.byte old i
  gap : ∀ i, old.length ≤ i → i < c → Bytes.byte new i = 0

/-- The write covers what is behind `c`, and there are only zeros before. -/
structure Blank (old : ByteArray8) (c : Nat) (d : ByteArray8) : Prop where
  covered : old.length ≤ c + d.length
  zeros : ∀ i < old.length, i < c → Bytes.byte old i = 0

theorem framed_overlay (old : ByteArray8) (c : Nat) (d : ByteArray8) :
    Framed old c d (Bytes.overlay old c d) where
  length := Bytes.length_overlay old c d
  data := fun i hi => by
    rw [Bytes.byte_overlay, if_pos ⟨Nat.le_add_right c i, Nat.add_lt_add_left hi c⟩,
      Nat.add_sub_cancel_left]
  rest := fun i _ ho => by
    rw [Bytes.byte_overlay, if_neg fun h => ho.elim (Nat.not_lt.mpr h.1) (Nat.not_le.mpr h.2)]
  gap := fun i hl hc => by
    rw [Bytes.byte_overlay, if_neg fun h => Nat.not_lt.mpr h.1 hc, Bytes.byte_eq_zero_of_le hl]

/-- Data put into nothing. -/
theorem framed_overlay_nil (old : ByteArray8) (c : Nat) (d : ByteArray8) :
    Framed old c d (Bytes.overlay [] c d) ↔ Blank old c d := by
  have hlen : (Bytes.overlay ([] : ByteArray8) c d).length = c + d.length := by
    rw [Bytes.length_overlay, List.length_nil, Nat.zero_max]
  constructor
  · intro h
    have hcov : old.length ≤ c + d.length := by
      rw [← hlen, h.length]
      exact Nat.le_max_left _ _
    refine ⟨hcov, fun i hi hc => ?_⟩
    have hr := h.rest i hi (.inl hc)
    rw [Bytes.byte_overlay, if_neg fun hin => Nat.not_lt.mpr hin.1 hc, Bytes.byte_nil] at hr
    exact hr.symm
  · intro h
    refine ⟨?_, fun i hi => ?_, fun i hi ho => ?_, fun i _ hc => ?_⟩
    · rw [hlen, Nat.max_eq_right h.covered]
    · rw [Bytes.byte_overlay, if_pos ⟨Nat.le_add_right c i, Nat.add_lt_add_left hi c⟩,
        Nat.add_sub_cancel_left]
    · have hc : i < c := ho.resolve_right fun hge =>
        Nat.not_lt.mpr (Nat.le_trans h.covered hge) hi
      rw [Bytes.byte_overlay, if_neg fun hin => Nat.not_lt.mpr hin.1 hc, Bytes.byte_nil,
        h.zeros i hi hc]
    · rw [Bytes.byte_overlay, if_neg fun hin => Nat.not_lt.mpr hin.1 hc, Bytes.byte_nil]

/-! ### The call -/

section
variable {ε σ : Type}

/-- The kernel, and the file system below it. -/
abbrev WithFiles (ε σ : Type) : Type → Type := Prog ε (KernelImpl × σ)

/-- An operation of the file system. -/
def onFiles {α : Type} (p : Prog ε σ α) : WithFiles ε σ α :=
  zoom Prod.snd (fun f s => (s.1, f)) p

def modifyDescription (r : Nat) (f : FileDescription → FileDescription) : WithFiles ε σ PUnit :=
  update fun s => ({ s.1 with fds := { s.1.fds with descs := s.1.fds.descs.modify r f } }, s.2)

/-- `vfsWrite` from the content of the file on. -/
def writeInto (fs : VirtualFileSystem ε σ) (r : Nat) (data content : ByteArray8) :
    WithFiles ε σ Nat := do
  let description ← read fun s => s.1.desc r
  -- O_APPEND: every write seeks to end of file first (POSIX)
  let cursor := if description.flags.has O_APPEND then content.length else description.cursor
  let endPos := cursor + data.length
  onFiles (fs.writeFile description.path (.bytes (Bytes.overlay content cursor data)))
  match description.creationMode with
  | some mode =>
    onFiles (fs.chmod description.path mode)
    modifyDescription r ({ · with creationMode := none })
  | none => pure ⟨⟩
  modifyDescription r ({ · with cursor := endPos })
  return data.length

def vfsWrite (fs : VirtualFileSystem ε σ) (r : Nat) (data : ByteArray8) : WithFiles ε σ Nat := do
  let description ← read fun s => s.1.desc r
  let content ← tryCatch (onFiles (fs.readFile description.path)) fun _ => pure []
  writeInto fs r data content

/-- `fdWrite`; pipes and terminals are served by their managers. -/
def fdWrite (toError : Failure → ε) (fs : VirtualFileSystem ε σ) (driver : String) (pid fd : Nat)
    (data : ByteArray8) : WithFiles ε σ (Option Nat) := do
  let k ← read Prod.fst
  let e ← lift (((FileIo.fileEntry driver pid fd).exec k).1.mapError toError)
  if k.pipes.isPipe (k.desc e.description).id || k.ptys.isPty (k.desc e.description).id then
    return none
  else some <$> vfsWrite fs e.description data

/-! ### The file system -/

/-- The regular file at `path` is `content`: what is read is there, what is written is there after
it, and neither a read nor a change of mode changes it. -/
structure RegularFile (fs : VirtualFileSystem ε σ) (path : String)
    (content : σ → Option ByteArray8) : Prop where
  readFile : ∀ s b s', (fs.readFile path).exec s = (.ok b, s') → content s = some b
  reading : ∀ s, content ((fs.readFile path).exec s).2 = content s
  writeFile : ∀ b s s', (fs.writeFile path (.bytes b)).exec s = (.ok ⟨⟩, s') → content s' = some b
  chmod : ∀ mode s s', (fs.chmod path mode).exec s = (.ok ⟨⟩, s') → content s' = content s

/-- What the permission callback says. -/
def allowed (permissions : FsPolicy) (op : FsOp) (path : String) : Bool :=
  match permissions with
  | none => false
  | some check => (check (fsRequest op path)).allow

/-- The permission to read is given, and the file system reads the file. -/
def Readable (permissions : FsPolicy) (fs : VirtualFileSystem ε σ) (path : String) (s : σ) : Prop :=
  allowed permissions .read path = true ∧ ∃ b s', (fs.readFile path).exec s = (.ok b, s')

variable {toError : Failure → ε} {fs : VirtualFileSystem ε σ} {permissions : FsPolicy}
  {content : σ → Option ByteArray8} {path : String} {s : σ}

theorem check_wp {op : FsOp} {Q : PUnit → σ → Prop} {E : ε → σ → Prop}
    (hQ : allowed permissions op path = true → Q ⟨⟩ s)
    (hE : allowed permissions op path = false → ∀ e, E e s) :
    (check toError permissions op path).wp s Q E := by
  unfold check checkPermission
  cases permissions with
  | none => exact hE rfl _
  | some check =>
      dsimp only
      split
      · rename_i h
        exact hQ h
      · rename_i h
        exact hE (eq_false_of_ne_true h) _

section

variable (hfs : RegularFile fs path content)
include hfs

/-- What `vfsWrite` takes for the file: the file when it can be read, nothing when it cannot. -/
theorem read_wp :
    (tryCatch ((wrapFileSystem toError fs permissions).readFile path) fun _ => pure []).wp s
      (fun b s' => content s' = content s ∧ (Readable permissions fs path s → content s = some b) ∧
        (¬ Readable permissions fs path s → b = [])) fun _ _ => False := by
  rw [wp_tryCatch]
  show (do check toError permissions .read path; fs.readFile path : Prog ε σ ByteArray8).wp _ _ _
  rw [wp_bind]
  refine check_wp (fun hr => ?_) fun hr e => ?_
  · have hstate := hfs.reading s
    refine wp_of_exec (fun b s' he => ?_) fun e s' he => ?_
    · rw [he] at hstate
      exact ⟨hstate, fun _ => hfs.readFile s b s' he, fun hn => absurd ⟨hr, b, s', he⟩ hn⟩
    · rw [he] at hstate
      refine ⟨hstate, fun ⟨_, b, s'', hb⟩ => ?_, fun _ => rfl⟩
      rw [he] at hb
      cases hb
  · refine ⟨rfl, fun h => ?_, fun _ => rfl⟩
    rw [h.1] at hr
    cases hr

theorem write_wp (b : ByteArray8) :
    ((wrapFileSystem toError fs permissions).writeFile path (.bytes b)).wp s
      (fun _ s' => content s' = some b) fun _ _ => True := by
  show (do check toError permissions .write path; fs.writeFile path (.bytes b) : Prog ε σ PUnit).wp
    _ _ _
  rw [wp_bind]
  refine check_wp (fun _ => ?_) fun _ _ => trivial
  exact wp_of_exec (fun _ s' he => hfs.writeFile b s s' he) fun _ _ _ => trivial

theorem chmod_wp (mode : Nat) :
    ((wrapFileSystem toError fs permissions).chmod path mode).wp s
      (fun _ s' => content s' = content s) fun _ _ => True := by
  show (do check toError permissions .chmod path; fs.chmod path mode : Prog ε σ PUnit).wp _ _ _
  rw [wp_bind]
  refine check_wp (fun _ => ?_) fun _ _ => trivial
  exact wp_of_exec (fun _ s' he => hfs.chmod mode s s' he) fun _ _ _ => trivial

end

/-! ### The write -/

/-- What a write that resolves has put where, from content `b`. -/
structure Wrote (content : σ → Option ByteArray8) (d : FileDescription) (r : Nat)
    (data b : ByteArray8) (k' : KernelImpl) (s' : σ) : Prop where
  file : content s' = some (Bytes.overlay b d.cursor data)
  cursor : (k'.desc r).cursor = d.cursor + data.length

theorem desc_modify (k : KernelImpl) (r : Nat) (f : FileDescription → FileDescription) :
    ({ k with fds := { k.fds with descs := k.fds.descs.modify r f } } : KernelImpl).desc r =
      f (k.desc r) := Function.update_self ..

theorem writeInto_wp {k : KernelImpl} {r : Nat} (hfs : RegularFile fs (k.desc r).path content)
    (ha : (k.desc r).flags.has O_APPEND = false) (data b : ByteArray8) :
    (writeInto (wrapFileSystem toError fs permissions) r data b).wp (k, s)
      (fun _ s' => Wrote content (k.desc r) r data b s'.1 s'.2) fun _ _ => True := by
  rw [writeInto, wp_bind, wp_read, ha, if_neg Bool.false_ne_true, wp_bind, onFiles,
    wp_zoom]
  refine wp_mono (write_wp hfs _) (fun _ s₁ hw => ?_) fun _ _ _ => trivial
  -- the description's last statement, over any state of the kernel
  have hlast : ∀ k₁ s₂, content s₂ = content s₁ →
      (modifyDescription r ({ · with cursor := (k.desc r).cursor + data.length }) >>=
        fun _ => pure data.length : WithFiles ε σ Nat).wp (k₁, s₂)
      (fun _ s' => Wrote content (k.desc r) r data b s'.1 s'.2) fun _ _ => True := by
    intro k₁ s₂ hs₂
    rw [wp_bind, modifyDescription, wp_update, wp_pure]
    refine ⟨?_, ?_⟩
    · rw [hs₂]
      exact hw
    · rw [desc_modify]
  cases (k.desc r).creationMode with
  | none => exact hlast k s₁ rfl
  | some mode =>
      dsimp only
      rw [wp_bind, onFiles, wp_zoom]
      refine wp_mono (chmod_wp hfs mode) (fun _ s₂ hs₂ => ?_) fun _ _ _ => trivial
      rw [wp_bind, modifyDescription, wp_update]
      exact hlast _ s₂ hs₂

theorem vfsWrite_wp {k : KernelImpl} {r : Nat} (hfs : RegularFile fs (k.desc r).path content)
    (ha : (k.desc r).flags.has O_APPEND = false) (data : ByteArray8) :
    (vfsWrite (wrapFileSystem toError fs permissions) r data).wp (k, s)
      (fun _ s' => ∃ b, (Readable permissions fs (k.desc r).path s → content s = some b) ∧
        (¬ Readable permissions fs (k.desc r).path s → b = []) ∧
        Wrote content (k.desc r) r data b s'.1 s'.2) fun _ _ => True := by
  have hread : wp (tryCatch ((wrapFileSystem toError fs permissions).readFile (k.desc r).path)
      fun _ => pure []) s _ _ := read_wp hfs
  rw [wp_tryCatch] at hread
  rw [vfsWrite, wp_bind, wp_read, wp_bind, wp_tryCatch, onFiles, wp_zoom]
  -- what is read is what goes into the write
  have hinto : ∀ b s₁, content s₁ = content s ∧
      (Readable permissions fs (k.desc r).path s → content s = some b) ∧
      (¬ Readable permissions fs (k.desc r).path s → b = []) →
      (writeInto (wrapFileSystem toError fs permissions) r data b).wp (k, s₁)
        (fun _ s' => ∃ b, (Readable permissions fs (k.desc r).path s → content s = some b) ∧
          (¬ Readable permissions fs (k.desc r).path s → b = []) ∧
          Wrote content (k.desc r) r data b s'.1 s'.2) fun _ _ => True :=
    fun b _ hb => wp_mono (writeInto_wp hfs ha data b)
      (fun _ _ hw => ⟨b, hb.2.1, hb.2.2, hw⟩) fun _ _ => id
  exact wp_mono hread (fun b s₁ hb => hinto b s₁ hb) fun _ s₁ hb => hinto [] s₁ hb

/-- **Write frame**: a write that resolves leaves the rest of the file exactly when the file could
be read, or the file had nothing behind the data and only zeros before. -/
theorem fdWrite_frame_iff {k k' : KernelImpl} {s' : σ} {driver : String} {pid fd n : Nat}
    {e : FDEntry} {data : ByteArray8}
    (hfs : RegularFile fs (k.desc e.description).path content)
    (he : ((FileIo.fileEntry driver pid fd).exec k).1 = .ok e)
    (ha : (k.desc e.description).flags.has O_APPEND = false)
    (h : (fdWrite toError (wrapFileSystem toError fs permissions) driver pid fd data).exec (k, s) =
      (.ok (some n), (k', s'))) :
    ((∃ new, content s' = some new ∧
        Framed ((content s).getD []) (k.desc e.description).cursor data new) ∧
      (k'.desc e.description).cursor = (k.desc e.description).cursor + data.length) ↔
    Readable permissions fs (k.desc e.description).path s ∨
      Blank ((content s).getD []) (k.desc e.description).cursor data := by
  have hw : (fdWrite toError (wrapFileSystem toError fs permissions) driver pid fd data).wp (k, s)
      (fun n s' => n.isSome → ∃ b,
        (Readable permissions fs (k.desc e.description).path s → content s = some b) ∧
        (¬ Readable permissions fs (k.desc e.description).path s → b = []) ∧
        Wrote content (k.desc e.description) e.description data b s'.1 s'.2) fun _ _ => True := by
    rw [fdWrite, wp_bind, wp_read, wp_bind, he]
    show wp (if _ then _ else _) _ _ _
    split
    · exact nofun
    · rw [wp_map]
      exact wp_mono (vfsWrite_wp hfs ha data) (fun _ _ hb _ => hb) fun _ _ => id
  obtain ⟨b, hyes, hno, hb⟩ := of_wp_ok hw h rfl
  by_cases hr : Readable permissions fs (k.desc e.description).path s
  · refine iff_of_true ⟨⟨_, hb.file, ?_⟩, hb.cursor⟩ (.inl hr)
    rw [hyes hr]
    exact framed_overlay ..
  · rw [or_iff_right hr, ← framed_overlay_nil, ← hno hr]
    refine ⟨fun ⟨⟨new, hn, hf⟩, _⟩ => ?_, fun hf => ⟨⟨_, hb.file, hf⟩, hb.cursor⟩⟩
    cases hn.symm.trans hb.file
    exact hf

end

/-! ### A plain file system -/

namespace PlainFiles

/-- The files by path. -/
abbrev Files : Type := String → Option ByteArray8

def unsupported {α : Type} : Prog String Files α := throw "ENOSYS"

/-- Files and no directories. -/
def vfs : VirtualFileSystem String Files where
  readFile path := do
    let content ← read fun files => files path
    match content with
    | some b => pure b
    | none => throw "ENOENT"
  readTextFile _ := unsupported
  readDir _ := unsupported
  readDirWithTypes _ := unsupported
  writeFile path content :=
    match content with
    | .bytes b => update fun files => Function.update files path (some b)
    | .text _ => unsupported
  createDir _ := unsupported
  mkdir _ _ := unsupported
  fileExists path := read fun files => (files path).isSome
  stat _ := unsupported
  removeFile path := update fun files => Function.update files path none
  removeDir _ := unsupported
  rename _ _ := unsupported
  realpath _ := unsupported
  symlink _ _ := unsupported
  readlink _ := unsupported
  lstat _ := unsupported
  link _ _ := unsupported
  chmod _ _ := pure ⟨⟩
  chown _ _ _ := unsupported
  utimes _ _ _ := unsupported
  truncate _ _ := unsupported
  pread _ _ _ := unsupported
  pwrite _ _ _ := unsupported
  fsync := none
  copy := none
  readDirStat := none
  prepareOpenSync := none

theorem readFile_exec (path : String) (files : Files) :
    (vfs.readFile path).exec files =
      (match files path with | some b => .ok b | none => .error "ENOENT", files) := by
  show (match files path with | some b => pure b | none => throw "ENOENT" :
    Prog String Files ByteArray8).exec files = _
  cases files path <;> rfl

theorem regularFile (path : String) : RegularFile vfs path fun files => files path where
  readFile files b s' h := by
    rw [readFile_exec] at h
    cases hf : files path with
    | none =>
        rw [hf] at h
        cases h
    | some b' =>
        rw [hf] at h
        cases h
        rfl
  reading files := by rw [readFile_exec]
  writeFile b files s' h := by
    cases h
    exact Function.update_self ..
  chmod mode files s' h := by
    cases h
    rfl

/-- A process with a file open for writing. -/
def writing : KernelImpl :=
  (exec KernelImpl.step (.boot [("sh", ["sh"])] none)
    [.spawn "sh" ⟨none, none, none⟩ KernelImpl.answered,
      .fdOpen "sh" 1 "/f" O_WRONLY none (.ok false)]).getD (.boot [] none)

def everything : FsPolicy := some fun _ => ⟨true, none⟩

/-- All but reading. -/
def writeOnly : FsPolicy := some fun request => ⟨decide (request.op ≠ .read), none⟩

/-- Descriptor 3. -/
def entry : FDEntry := ⟨3, FILETYPE_REGULAR_FILE, false⟩

theorem entry_writing : ((FileIo.fileEntry "sh" 1 3).exec writing).1 = .ok entry := by rfl

/-- One byte at the start of a file of four. -/
def write (permissions : FsPolicy) : Except String (Option Nat) × KernelImpl × Files :=
  (fdWrite (fun _ => "EACCES") (wrapFileSystem (fun _ => "EACCES") vfs permissions) "sh" 1 3
    [9]).exec (writing, fourBytes)

/-- Everything is allowed: the other three bytes stay. -/
theorem fdWrite_frame_everything :
    (∃ new, (write everything).2.2 "/f" = some new ∧ Framed [1, 2, 3, 4] 0 [9] new) ∧
      ((write everything).2.1.desc 3).cursor = 1 :=
  (fdWrite_frame_iff (k := writing) (s := fourBytes) (e := entry) (regularFile "/f") entry_writing
    (by decide +kernel)
    (Prod.ext (show (write everything).1 = .ok (some 1) by decide +kernel) rfl)).mpr
    (.inl ⟨rfl, [1, 2, 3, 4], fourBytes, readFile_exec "/f" fourBytes⟩)

/-- A policy under which the file cannot be read: it is cut to the byte that is written. -/
theorem fdWrite_frame_fails :
    ¬ ∀ (permissions : FsPolicy) (k k' : KernelImpl) (s s' : Files) (driver : String)
      (pid fd n : Nat) (e : FDEntry) (data : ByteArray8),
      ((FileIo.fileEntry driver pid fd).exec k).1 = .ok e →
      (k.desc e.description).flags.has O_APPEND = false →
      (fdWrite (fun _ => "EACCES") (wrapFileSystem (fun _ => "EACCES") vfs permissions) driver pid fd
        data).exec (k, s) = (.ok (some n), (k', s')) →
      (∃ new, s' (k.desc e.description).path = some new ∧
          Framed ((s (k.desc e.description).path).getD []) (k.desc e.description).cursor data new) ∧
        (k'.desc e.description).cursor = (k.desc e.description).cursor + data.length := by
  intro hall
  obtain ⟨⟨new, hn, hf⟩, -⟩ := hall writeOnly writing _ fourBytes _ "sh" 1 3 1 entry [9]
    entry_writing (by decide +kernel)
    (Prod.ext (show (write writeOnly).1 = .ok (some 1) by decide +kernel) rfl)
  have hnine : (write writeOnly).2.2 "/f" = some [9] := by decide +kernel
  cases hnine.symm.trans hn
  have hlen := hf.length
  revert hlen
  decide +kernel

end PlainFiles

end SecureExec.Kernel
