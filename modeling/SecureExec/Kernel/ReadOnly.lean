import SecureExec.Kernel.MountFs

/-!
# Kernel — ReadOnly — no read-only mount is modified

The calls that the members of a mount table make to the mounted file systems, recorded with the
table at the time of the call.  A call that can modify a file system is never made to one that is
mounted read-only (`readOnly_unmodified`), as long as each operation is `Guarded`: a `mount` makes
its mount point in a file system that is not mounted read-only, and a writable mount shares its
file system with no read-only one.

`readOnly_mount_point`: a mount below a read-only mount makes a directory there.
-/

namespace SecureExec
open Prog Lts

/-! ### What modifies a file system -/

/-- The path whose file system a call can modify. -/
def FsCall.modifies : FsCall → Option String
  | .writeFile path _ => some path
  | .createDir path => some path
  | .mkdir path _ => some path
  | .removeFile path => some path
  | .removeDir path => some path
  | .rename oldPath _ => some oldPath
  | .symlink _ linkPath => some linkPath
  | .link oldPath _ => some oldPath
  | .chmod path _ => some path
  | .chown path _ _ => some path
  | .utimes path _ _ => some path
  | .truncate path _ => some path
  | .pwrite path _ _ => some path
  | .copy srcPath _ => some srcPath
  | .prepareOpenSync path flags =>
    if flags.has O_CREAT ∨ flags.has O_TRUNC then some path else none
  | _ => none

namespace Kernel

/-- A call to a mounted file system, and the table at that time. -/
structure Seen (φ : Type) where
  table : MountTable φ
  fs : φ
  call : FsCall

/-- The file system is mounted read-only. -/
def MountTable.MountedReadOnly {φ : Type} (t : MountTable φ) (fs : φ) : Prop :=
  ∃ m ∈ t.mounts, m.fs = fs ∧ m.readOnly = true

/-- The call leaves the read-only mounts as they are. -/
def Seen.Harmless {φ : Type} (c : Seen φ) : Prop :=
  c.call.modifies.isSome → ¬ c.table.MountedReadOnly c.fs

/-! ### Recording -/

section

variable {φ ε σ α : Type}

/-- The member `c` of the file system `fs` is called. -/
def recordCall (c : Seen φ) (p : Prog ε σ α) : Prog ε (σ × List (Seen φ)) α := fun s =>
  ((p.exec s.1).1, (p.exec s.1).2, s.2 ++ [c])

/-- The mounted file systems, every call of which is recorded. -/
def watched (t : MountTable φ) (backend : φ → VirtualFileSystem ε σ) (fs : φ) :
    VirtualFileSystem ε (σ × List (Seen φ)) where
  readFile path := recordCall ⟨t, fs, .readFile path⟩ ((backend fs).readFile path)
  readTextFile path := recordCall ⟨t, fs, .readTextFile path⟩ ((backend fs).readTextFile path)
  readDir path := recordCall ⟨t, fs, .readDir path⟩ ((backend fs).readDir path)
  readDirWithTypes path :=
    recordCall ⟨t, fs, .readDirWithTypes path⟩ ((backend fs).readDirWithTypes path)
  writeFile path content :=
    recordCall ⟨t, fs, .writeFile path content⟩ ((backend fs).writeFile path content)
  createDir path := recordCall ⟨t, fs, .createDir path⟩ ((backend fs).createDir path)
  mkdir path recursive := recordCall ⟨t, fs, .mkdir path recursive⟩ ((backend fs).mkdir path recursive)
  fileExists path := recordCall ⟨t, fs, .fileExists path⟩ ((backend fs).fileExists path)
  stat path := recordCall ⟨t, fs, .stat path⟩ ((backend fs).stat path)
  removeFile path := recordCall ⟨t, fs, .removeFile path⟩ ((backend fs).removeFile path)
  removeDir path := recordCall ⟨t, fs, .removeDir path⟩ ((backend fs).removeDir path)
  rename oldPath newPath :=
    recordCall ⟨t, fs, .rename oldPath newPath⟩ ((backend fs).rename oldPath newPath)
  realpath path := recordCall ⟨t, fs, .realpath path⟩ ((backend fs).realpath path)
  symlink target linkPath :=
    recordCall ⟨t, fs, .symlink target linkPath⟩ ((backend fs).symlink target linkPath)
  readlink path := recordCall ⟨t, fs, .readlink path⟩ ((backend fs).readlink path)
  lstat path := recordCall ⟨t, fs, .lstat path⟩ ((backend fs).lstat path)
  link oldPath newPath :=
    recordCall ⟨t, fs, .link oldPath newPath⟩ ((backend fs).link oldPath newPath)
  chmod path mode := recordCall ⟨t, fs, .chmod path mode⟩ ((backend fs).chmod path mode)
  chown path uid gid := recordCall ⟨t, fs, .chown path uid gid⟩ ((backend fs).chown path uid gid)
  utimes path atime mtime :=
    recordCall ⟨t, fs, .utimes path atime mtime⟩ ((backend fs).utimes path atime mtime)
  truncate path length :=
    recordCall ⟨t, fs, .truncate path length⟩ ((backend fs).truncate path length)
  pread path offset length :=
    recordCall ⟨t, fs, .pread path offset length⟩ ((backend fs).pread path offset length)
  pwrite path offset data :=
    recordCall ⟨t, fs, .pwrite path offset data⟩ ((backend fs).pwrite path offset data)
  fsync := (backend fs).fsync.map fun f path => recordCall ⟨t, fs, .fsync path⟩ (f path)
  copy := (backend fs).copy.map fun f src dst => recordCall ⟨t, fs, .copy src dst⟩ (f src dst)
  readDirStat :=
    (backend fs).readDirStat.map fun f path => recordCall ⟨t, fs, .readDirStat path⟩ (f path)
  prepareOpenSync := (backend fs).prepareOpenSync.map fun f path flags =>
    recordCall ⟨t, fs, .prepareOpenSync path flags⟩ (f path flags)

/-- An operation on a mount table; the calls that it makes are recorded. -/
def tableStep (backend : φ → VirtualFileSystem ε σ) (toError : Failure → ε)
    (w : MountTable φ × σ × List (Seen φ)) (op : TableOp φ) :
    Option (MountTable φ × σ × List (Seen φ)) :=
  some (op.perform (watched w.1 backend) toError w.1 w.2)

end

/-! ### The condition -/

/-- A call that a writable mount lets through modifies no read-only mount, and a mount point is
made in none. -/
def TableOp.Guarded {φ : Type} (t : MountTable φ) : TableOp φ → Prop
  | .call c => ∀ path, c.modifies = some path → ∀ r, t.resolve path = .ok r →
      r.mount.readOnly = false → ¬ t.MountedReadOnly r.mount.fs
  | .mount path fs readOnly => ∀ t' parent directory,
      t.mount path fs readOnly = .ok (t', parent, directory) → ¬ t.MountedReadOnly parent
  | .unmount _ => True

/-! ### The calls of a member -/

/-- Harmless calls are recorded, and nothing else. -/
def Records {φ σ : Type} (s s' : σ × List (Seen φ)) : Prop :=
  ∃ c : Seen φ, c.Harmless ∧ s'.2 = s.2 ++ [c]

section

variable {φ ε σ α : Type} {t : MountTable φ} {fs : φ} {backend : φ → VirtualFileSystem ε σ}
  {toError : Failure → ε}

theorem within_recordCall {c : Seen φ} (h : c.Harmless) (p : Prog ε σ α) :
    Within Records (recordCall c p) := fun _ => .single ⟨c, h, rfl⟩

/-- A call that modifies nothing. -/
theorem within_reading {c : FsCall} (h : c.modifies = none) (p : Prog ε σ α) :
    Within Records (recordCall ⟨t, fs, c⟩ p) := by
  refine within_recordCall ?_ p
  intro hm
  rw [h] at hm
  cases hm

/-- A call to a file system that is not mounted read-only. -/
theorem within_writing (h : ¬ t.MountedReadOnly fs) {c : FsCall} (p : Prog ε σ α) :
    Within Records (recordCall ⟨t, fs, c⟩ p) := within_recordCall (fun _ => h) p

theorem within_route {path : String} {k : ResolvedPath φ → Prog ε (σ × List (Seen φ)) α}
    (h : ∀ r, t.resolve path = .ok r → Within Records (k r)) :
    Within Records (MountTable.route toError t path >>= k) := by
  rw [MountTable.route]
  cases hr : t.resolve path with
  | error e => exact .throw (toError e)
  | ok r => exact h r hr

theorem within_assertWritable {mount : InternalMount φ} {path : String}
    {k : PUnit → Prog ε (σ × List (Seen φ)) α} (h : mount.readOnly = false → Within Records (k ⟨⟩)) :
    Within Records (MountTable.assertWritable toError mount path >>= k) := by
  rw [MountTable.assertWritable]
  cases hr : mount.readOnly with
  | true => exact .throw _
  | false => exact h hr

end

section

variable {φ ε σ : Type} {t : MountTable φ} {backend : φ → VirtualFileSystem ε σ}
  {toError : Failure → ε}

variable {α : Type} {path : String} {k : ResolvedPath φ → Prog ε (σ × List (Seen φ)) α}

/-- A member that calls a reading member. -/
theorem within_reader (h : ∀ r, Within Records (k r)) :
    Within Records (MountTable.route toError t path >>= k) :=
  within_route fun r _ => h r

/-- A member that calls a modifying member, where the mount lets it through. -/
theorem within_writer {shown : String} (hg : ∀ r, t.resolve path = .ok r →
      r.mount.readOnly = false → ¬ t.MountedReadOnly r.mount.fs)
    (h : ∀ r, ¬ t.MountedReadOnly r.mount.fs → Within Records (k r)) :
    Within Records (MountTable.route toError t path >>= fun r =>
      MountTable.assertWritable toError r.mount shown >>= fun _ => k r) :=
  within_route fun r hr => within_assertWritable fun hro => h r (hg r hr hro)

/-- A member that takes two paths in one mount. -/
theorem within_mover {old new shown : String} {e : ε}
    (hg : ∀ r, t.resolve old = .ok r → r.mount.readOnly = false → ¬ t.MountedReadOnly r.mount.fs)
    {k : ResolvedPath φ → ResolvedPath φ → Prog ε (σ × List (Seen φ)) α}
    (h : ∀ r r', ¬ t.MountedReadOnly r.mount.fs → Within Records (k r r')) :
    Within Records (MountTable.route toError t old >>= fun r =>
      MountTable.route toError t new >>= fun r' =>
        if r.mount.path ≠ r'.mount.path then
          throw e >>= fun (_ : PUnit) =>
            MountTable.assertWritable toError r.mount shown >>= fun _ => k r r'
        else MountTable.assertWritable toError r.mount shown >>= fun _ => k r r') := by
  refine within_route fun r hr => within_route fun r' _ => ?_
  have hk : Within Records (MountTable.assertWritable toError r.mount shown >>= fun _ => k r r') :=
    within_assertWritable fun hro => h r r' (hg r hr hro)
  exact .ite (.bind (.throw _) fun _ => hk) hk

/-- `prepareOpenSync`, whose flags say whether it modifies. -/
theorem within_opener {flags : Flags}
    (hg : flags.has O_CREAT ∨ flags.has O_TRUNC → ∀ r, t.resolve path = .ok r →
      r.mount.readOnly = false → ¬ t.MountedReadOnly r.mount.fs)
    {k : ResolvedPath φ → Prog ε (σ × List (Seen φ)) Bool}
    (h : ∀ r, (flags.has O_CREAT ∨ flags.has O_TRUNC → ¬ t.MountedReadOnly r.mount.fs) →
      Within Records (k r)) :
    Within Records (MountTable.route toError t path >>= fun r =>
      if flags &&& ~~~0 ≠ 0 ∧ r.mount.readOnly then
        if flags.has O_CREAT ∨ flags.has O_TRUNC then
          MountTable.assertWritable toError r.mount path >>= fun _ => k r
        else k r
      else k r) := by
  refine within_route fun r hr => ?_
  by_cases hf : flags.has O_CREAT = true ∨ flags.has O_TRUNC = true
  · have hnz : flags &&& ~~~0 ≠ 0 := by
      have hall : flags &&& ~~~0 = flags := BitVec.and_allOnes
      rw [hall]
      rintro rfl
      revert hf
      decide
    cases hro : r.mount.readOnly with
    | true =>
        rw [if_pos ⟨hnz, rfl⟩, if_pos hf, MountTable.assertWritable, hro, if_pos rfl]
        exact .throw _
    | false =>
        rw [if_neg (by simp)]
        exact h r fun _ => hg hf r hr hro
  · rw [if_neg hf, ite_self]
    exact h r fun hf' => absurd hf' hf

/-- A call of a member of the table. -/
theorem within_call {c : FsCall} (hg : TableOp.Guarded t (.call c)) :
    Within Records ((t.fileSystem (watched t backend) toError).call c) := by
  have hone : ∀ {α : Type} {g : α → FsReply} {path : String}
      {k : ResolvedPath φ → Prog ε (σ × List (Seen φ)) α}, (∀ r, Within Records (k r)) →
      Within Records (g <$> (MountTable.route toError t path >>= k)) :=
    fun h => .map _ (within_reader h)
  cases c with
  | readFile path | readTextFile path | fileExists path | stat path | lstat path | readlink path
  | pread path _ _ =>
      exact hone fun r => within_reading rfl _
  | readDir path =>
      refine hone fun r => .bind (within_reading rfl _) fun entries => ?_
      exact .ite (.pure _) (.pure _)
  | readDirWithTypes path => exact hone fun r => .bind (within_reading rfl _) fun _ => .pure _
  | realpath path =>
      refine hone fun r => .bind (within_reading rfl _) fun resolved => ?_
      exact .ite (.pure _) (.pure _)
  | writeFile path _ | createDir path | mkdir path _ | removeFile path | removeDir path
  | symlink _ path | chmod path _ | chown path _ _ | utimes path _ _ | truncate path _
  | pwrite path _ _ =>
      exact .map _ (within_writer (hg path rfl) fun r h => within_writing h _)
  | rename old new | link old new =>
      exact .map _ (within_mover (hg old rfl) fun r r' h => within_writing h _)
  | copy src dst =>
      refine .map _ (within_mover (hg src rfl) fun r r' h => ?_)
      simp only [watched]
      cases (backend r.mount.fs).copy with
      | some f => exact within_writing h _
      | none => exact .bind (within_reading rfl _) fun _ => within_writing h _
  | fsync path =>
      refine hone fun r => ?_
      simp only [watched]
      cases (backend r.mount.fs).fsync with
      | some f => exact within_reading rfl _
      | none => exact .pure _
  | lastClose path =>
      simp only [VirtualFileSystem.call, MountTable.fileSystem]
      refine .dropped (within_reader fun r => ?_) _
      simp only [watched]
      cases (backend r.mount.fs).fsync with
      | some f => exact within_reading rfl _
      | none => exact .pure _
  | readDirStat path =>
      refine hone fun r => ?_
      simp only [watched]
      cases (backend r.mount.fs).readDirStat with
      | some f => exact within_reading rfl _
      | none =>
          refine .bind (within_reading rfl _) fun entries => .mapM (fun entry => ?_) entries
          exact .bind (within_reading rfl _) fun _ => .pure _
  | prepareOpenSync path flags =>
      refine .map _ (within_opener ?_ fun r h => ?_)
      · intro hf
        exact hg path (if_pos hf)
      · simp only [watched]
        cases (backend r.mount.fs).prepareOpenSync with
        | none => exact .pure _
        | some f =>
            refine within_recordCall (fun hm => h ?_) _
            by_contra hf
            simp [FsCall.modifies, hf] at hm

/-- What a program does to the record. -/
theorem harmless_of_records {s s' : σ × List (Seen φ)} (h : Relation.ReflTransGen Records s s')
    (hs : ∀ c ∈ s.2, c.Harmless) : ∀ c ∈ s'.2, c.Harmless := by
  induction h with
  | refl => exact hs
  | tail _ hstep ih =>
      obtain ⟨c, hc, heq⟩ := hstep
      intro c' hc'
      rw [heq] at hc'
      rcases List.mem_append.mp hc' with hc' | hc'
      · exact ih c' hc'
      · rw [List.mem_singleton.mp hc']
        exact hc

/-- **A guarded operation modifies no read-only mount.** -/
theorem harmless_of_perform {s : σ × List (Seen φ)} {op : TableOp φ} (hg : op.Guarded t)
    (hs : ∀ c ∈ s.2, c.Harmless) :
    ∀ c ∈ (op.perform (watched t backend) toError t s).2.2, c.Harmless := by
  cases op with
  | call c => exact harmless_of_records (within_call hg s) hs
  | mount path fs readOnly =>
      rw [TableOp.perform]
      split
      · rename_i t' parent directory hm
        exact harmless_of_records (within_writing (hg t' parent directory hm) _ s) hs
      · exact hs
  | unmount path =>
      rw [TableOp.perform]
      split <;> exact hs

end

/-! ### Runs -/

/-- **No call that can modify a file system is made to one that is mounted read-only.** -/
theorem readOnly_unmodified {φ ε σ : Type} {backend : φ → VirtualFileSystem ε σ}
    {toError : Failure → ε} {rootFs : φ} {s₀ s : σ} {t : MountTable φ} {seen : List (Seen φ)}
    (r : Reach (tableStep backend toError) (fun w op => op.Guarded w.1)
      (MountTable.new rootFs, s₀, []) (t, s, seen)) :
    ∀ c ∈ seen, c.call.modifies.isSome → ¬ c.table.MountedReadOnly c.fs := by
  have h : ∀ c ∈ seen, c.Harmless := by
    refine r.invariant (I := fun w => ∀ c ∈ w.2.2, Seen.Harmless c) (by simp) ?_
    intro w op w' hw hg hstep
    cases hstep
    exact harmless_of_perform hg hw
  exact h

/-- A root file system and a read-only mount. -/
def withReadOnly : MountTable Nat := ⟨[⟨"/ro", 1, true⟩, ⟨"/", 0, false⟩]⟩

theorem push_readOnly : (MountTable.new 0).push ⟨"/ro", 1, true⟩ = withReadOnly := by
  have h : jsLength "/ro" ≤ jsLength "/" ↔ False := by decide
  simp [MountTable.push, MountTable.new, List.mergeSort, List.MergeSort.Internal.splitInTwo,
    withReadOnly, h]

/-- The read-only mount is made. -/
theorem mount_readOnly : (MountTable.new 0).mount "/ro" 1 true = .ok (withReadOnly, 0, "/ro") := by
  rw [← push_readOnly]
  rfl

theorem step_readOnly : tableStep (fun _ => WriteBehind.vfs) (fun _ => "EROFS")
    (MountTable.new 0, ⟨[], []⟩, []) (.mount "/ro" 1 true) =
      some (withReadOnly, ⟨[], []⟩, [⟨.new 0, 0, .mkdir "/ro" (some true)⟩]) := by
  simp only [tableStep, TableOp.perform, mount_readOnly]
  rfl

theorem not_readOnly_new (fs : Nat) : ¬ (MountTable.new 0).MountedReadOnly fs := by
  rintro ⟨m, hm, -, hro⟩
  rw [List.mem_singleton.mp hm] at hro
  cases hro

/-- A file is written beside a read-only mount. -/
theorem readOnly_unmodified_beside : ∃ t s, ∃ seen : List (Seen Nat),
    seen.map (fun c => (c.fs, c.call.modifies)) = [(0, some "/ro"), (0, some "/x")] ∧
      (∀ c ∈ seen, c.call.modifies.isSome → ¬ c.table.MountedReadOnly c.fs) ∧
      s = (⟨[], [("/x", .text "1")]⟩ : WriteBehind) ∧ t = withReadOnly := by
  have hwrite : tableStep (fun _ => WriteBehind.vfs) (fun _ => "EROFS")
      (withReadOnly, ⟨[], []⟩, [⟨.new 0, 0, .mkdir "/ro" (some true)⟩])
      (.call (.writeFile "/x" (.text "1"))) =
      some (withReadOnly, ⟨[], [("/x", .text "1")]⟩, [⟨.new 0, 0, .mkdir "/ro" (some true)⟩,
        ⟨withReadOnly, 0, .writeFile "/x" (.text "1")⟩]) := rfl
  have hr : Reach (tableStep (fun _ => WriteBehind.vfs) fun _ => "EROFS")
      (fun w op => op.Guarded w.1) (MountTable.new 0, ⟨[], []⟩, [])
      (withReadOnly, ⟨[], [("/x", .text "1")]⟩, [⟨.new 0, 0, .mkdir "/ro" (some true)⟩,
        ⟨withReadOnly, 0, .writeFile "/x" (.text "1")⟩]) := by
    refine .next (.one ?_ step_readOnly) ?_ hwrite
    · intro t' parent directory _
      exact not_readOnly_new parent
    · rintro path hpath r hres -
      cases hpath
      have hroot : withReadOnly.resolve "/x" = .ok ⟨⟨"/", 0, false⟩, "/x"⟩ := rfl
      cases hroot.symm.trans hres
      rintro ⟨m, hm, hfs, hro⟩
      rcases List.mem_pair.mp hm with rfl | rfl
      · cases hfs
      · cases hro
  exact ⟨_, _, _, rfl, readOnly_unmodified hr, rfl, rfl⟩

/-- A mount below a read-only mount makes its mount point there. -/
theorem readOnly_mount_point :
    ¬ ∀ (t : MountTable Nat) (s : WriteBehind) (seen : List (Seen Nat)),
      Reach (tableStep (fun _ => WriteBehind.vfs) fun _ => "EROFS") Any
        (MountTable.new 0, ⟨[], []⟩, []) (t, s, seen) →
      ∀ c ∈ seen, c.call.modifies.isSome → ¬ c.table.MountedReadOnly c.fs := by
  intro hall
  have hbelow : tableStep (fun _ => WriteBehind.vfs) (fun _ => "EROFS")
      (withReadOnly, ⟨[], []⟩, [⟨.new 0, 0, .mkdir "/ro" (some true)⟩])
      (.mount "/ro/sub" 2 false) =
      some (withReadOnly.push ⟨"/ro/sub", 2, false⟩, ⟨[], []⟩,
        [⟨.new 0, 0, .mkdir "/ro" (some true)⟩,
          ⟨withReadOnly, 1, .mkdir "sub" (some true)⟩]) := rfl
  have hr := hall _ _ _ (.next (.one trivial step_readOnly) trivial hbelow)
  refine hr ⟨withReadOnly, 1, .mkdir "sub" (some true)⟩ (by simp) rfl ?_
  exact ⟨⟨"/ro", 1, true⟩, List.mem_cons_self, rfl, rfl⟩

end Kernel

end SecureExec
