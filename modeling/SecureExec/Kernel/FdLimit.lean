import SecureExec.Lib.Lts
import SecureExec.Lib.Prog
import SecureExec.Kernel.FdRefs

/-!
# Kernel — FdLimit — the limit of descriptors per process

The methods of the descriptor tables, statement by statement.  What a method did before it threw
stays done, and none has done anything (`dup_exec` and the lemmas named after the other methods: each
is its function of `FdTable`).

* `keepsLimit`: a description is not put at a number chosen by the caller that is free in a full
  table; `dup2` does not look at the limit.
* `descriptors_limited`: in runs of such calls no table has more entries than the limit.
-/

namespace SecureExec.Kernel
open SecureExec Lts ProcessFDTable Prog OMap

/-- A method of the tables. -/
abbrev Fds (α : Type) : Type := Prog Failure FDTableManager α

namespace FDTableManager

/-! ### The methods -/

def tableOf (pid : Nat) : Fds ProcessFDTable := do
  match ← read (·.get pid) with
  | some t => pure t
  | none => throw (.kernelError .ESRCH ("no FD table for PID " ++ toString pid))

/-- A change of the table of a process. -/
def change (m : FDTableManager) (pid : Nat) (f : ProcessFDTable → ProcessFDTable) :
    FDTableManager :=
  match m.get pid with
  | none => m
  | some t => m.setTable pid (m.descs, f t)

def allocateFd (pid : Nat) : Fds Nat := do
  let t ← tableOf pid
  if MAX_FDS_PER_PROCESS ≤ t.entries.size then throw emfile
  else
    let fd := freeFrom t.entries t.nextFd
    update fun m => m.change pid ({ · with nextFd := fd + 1 })
    return fd

/-- `description.refCount++`, and an entry for it. -/
def install (pid fd description filetype : Nat) : Fds Unit := do
  update fun m => { m with descs := m.descs.addRef description 1 }
  update fun m => m.change pid (·.setEntry fd ⟨description, filetype, false⟩)

def openFd (pid : Nat) (path : String) (flags : Flags) (filetype : Nat) : Fds Nat := do
  let fd ← allocateFd pid
  let (description, m) ← read (·.allocDesc path (flags &&& ~~~O_CLOEXEC))
  update fun _ => m
  update fun m => m.change pid (·.setEntry fd ⟨description, filetype, flags.has O_CLOEXEC⟩)
  return fd

def openWith (pid description filetype : Nat) (targetFd : Option Nat) : Fds Nat := do
  let _ ← tableOf pid
  let fd ← (match targetFd with
    | some fd => pure fd
    | none => allocateFd pid : Fds Nat)
  install pid fd description filetype
  return fd

/-- The entry of a descriptor, or `EBADF`. -/
def entryOf (pid fd : Nat) : Fds FDEntry := do
  let t ← tableOf pid
  match t.get fd with
  | some e => pure e
  | none => throw (ebadf fd)

def close (pid fd : Nat) : Fds Unit := do
  let t ← tableOf pid
  match t.get fd with
  | none => pure ()
  | some e =>
    update fun m => { m with descs := m.descs.addRef e.description (-1) }
    update fun m => m.change pid fun t => { t with entries := t.entries.delete fd }

def dup (pid fd : Nat) : Fds Nat := do
  let e ← entryOf pid fd
  let newFd ← allocateFd pid
  install pid newFd e.description e.filetype
  return newFd

def dupMinFd (pid fd minFd : Nat) : Fds Nat := do
  let e ← entryOf pid fd
  let t ← tableOf pid
  if MAX_FDS_PER_PROCESS ≤ t.entries.size then throw emfile
  else
    let newFd := freeFrom t.entries minFd
    install pid newFd e.description e.filetype
    return newFd

def dup2 (pid oldFd newFd : Nat) : Fds Unit := do
  let e ← entryOf pid oldFd
  if oldFd = newFd then pure ()
  else
    close pid newFd
    install pid newFd e.description e.filetype

/-- `fork`; a parent without a table gives the child a new one. -/
def forkTable (parentPid childPid : Nat) : Fds Unit :=
  update fun m =>
    match m.get parentPid with
    | none => m.create childPid
    | some t => m.fork t childPid

/-! ### The methods as functions of a table -/

section
variable {α : Type} {m : FDTableManager} {pid : Nat} {t : ProcessFDTable}

/-- A method that returns, or throws and has changed nothing. -/
def outcome (m : FDTableManager) (pid : Nat) :
    Except Failure (α × Descs × ProcessFDTable) → Except Failure α × FDTableManager
  | .ok (a, s) => (.ok a, m.setTable pid s)
  | .error e => (.error e, m)

/-- A function of the table of a process, which changes nothing when it throws. -/
def onTable (pid : Nat)
    (f : Descs → ProcessFDTable → Except Failure (α × Descs × ProcessFDTable)) : Fds α := do
  let t ← tableOf pid
  let m ← read id
  let (a, s) ← lift (f m.descs t)
  update fun m => m.setTable pid s
  return a

variable (m)

theorem get_setTable_self (pid : Nat) (s : Descs × ProcessFDTable) :
    (m.setTable pid s).get pid = some s.2 := by
  rw [get, setTable, get_set, if_pos rfl]

theorem setTable_setTable (pid : Nat) (s s' : Descs × ProcessFDTable) :
    (m.setTable pid s).setTable pid s' = m.setTable pid s' := by
  simp only [setTable, set_set]

variable {m}

theorem change_eq (hg : m.get pid = some t) (f : ProcessFDTable → ProcessFDTable) :
    m.change pid f = m.setTable pid (m.descs, f t) := by
  rw [change, hg]

theorem tableOf_some (hg : m.get pid = some t) : (tableOf pid).exec m = (.ok t, m) := by
  simp only [tableOf, exec_bind, exec_read, hg, exec_pure]

theorem tableOf_none (hg : m.get pid = none) : (tableOf pid).exec m =
    (.error (.kernelError .ESRCH ("no FD table for PID " ++ toString pid)), m) := by
  simp only [tableOf, exec_bind, exec_read, hg, exec_throw]

theorem onTable_some (hg : m.get pid = some t)
    (f : Descs → ProcessFDTable → Except Failure (α × Descs × ProcessFDTable)) :
    (onTable pid f).exec m = m.outcome pid (f m.descs t) := by
  simp only [onTable, exec_bind, tableOf_some hg, exec_read, exec_lift, id]
  cases f m.descs t with
  | ok r => rfl
  | error e => rfl

theorem onTable_none (hg : m.get pid = none)
    (f : Descs → ProcessFDTable → Except Failure (α × Descs × ProcessFDTable)) :
    (onTable pid f).exec m =
      (.error (.kernelError .ESRCH ("no FD table for PID " ++ toString pid)), m) := by
  rw [onTable, exec_bind, tableOf_none hg]

section

variable (hg : m.get pid = some t)
include hg

theorem allocateFd_exec :
    (allocateFd pid).exec m =
      match t.allocateFd with
      | .ok (fd, t') => (.ok fd, m.setTable pid (m.descs, t'))
      | .error e => (.error e, m) := by
  rw [allocateFd, exec_bind, tableOf_some hg, ProcessFDTable.allocateFd]
  simp only
  split
  · rfl
  · simp only [exec_bind, exec_update, exec_pure, change_eq hg]

theorem install_exec (fd description filetype : Nat) :
    (install pid fd description filetype).exec m =
      (.ok ⟨⟩, m.setTable pid (openWithAt m.descs t description filetype fd)) := by
  have hg' : ({ m with descs := m.descs.addRef description 1 } : FDTableManager).get pid =
      some t := hg
  simp only [install, exec_bind, exec_update, change_eq hg']
  rfl

theorem entryOf_exec (fd : Nat) :
    (entryOf pid fd).exec m =
      match t.get fd with
      | some e => (.ok e, m)
      | none => (.error (ebadf fd), m) := by
  rw [entryOf, exec_bind, tableOf_some hg]
  simp only
  cases t.get fd with
  | none => rfl
  | some e => rfl

/-- An entry at a number that was allocated. -/
theorem installed_exec (description filetype : Nat) :
    ((do
      let fd ← allocateFd pid
      install pid fd description filetype
      return fd : Fds Nat)).exec m =
      m.outcome pid (ProcessFDTable.openWith m.descs t description filetype) := by
  rw [exec_bind, allocateFd_exec hg, ProcessFDTable.openWith]
  cases t.allocateFd with
  | error e => rfl
  | ok r =>
      obtain ⟨fd, t'⟩ := r
      simp only [exec_bind, install_exec (get_setTable_self m pid (m.descs, t')),
        setTable_setTable]
      rfl

end

variable (m)

theorem openWith_exec (pid description filetype : Nat) :
    (openWith pid description filetype none).exec m =
      (onTable pid fun h t => ProcessFDTable.openWith h t description filetype).exec m := by
  cases hg : m.get pid with
  | none => rw [onTable_none hg, openWith, exec_bind, tableOf_none hg]
  | some t =>
      rw [onTable_some hg, openWith, exec_bind, tableOf_some hg]
      dsimp only
      exact installed_exec hg description filetype

theorem openWithAt_exec (pid description filetype fd : Nat) :
    (openWith pid description filetype (some fd)).exec m =
      (onTable pid fun h t =>
        .ok (fd, openWithAt h t description filetype fd)).exec m := by
  cases hg : m.get pid with
  | none => rw [onTable_none hg, openWith, exec_bind, tableOf_none hg]
  | some t =>
      rw [onTable_some hg, openWith, exec_bind, tableOf_some hg]
      simp only [pure_bind, exec_bind, install_exec hg, exec_pure, outcome]

theorem dup_exec (pid fd : Nat) :
    (dup pid fd).exec m = (onTable pid fun h t => ProcessFDTable.dup h t fd).exec m := by
  cases hg : m.get pid with
  | none => rw [onTable_none hg, dup, exec_bind, entryOf, exec_bind, tableOf_none hg]
  | some t =>
      rw [onTable_some hg, dup, exec_bind, entryOf_exec hg, ProcessFDTable.dup]
      cases t.get fd with
      | none => rfl
      | some e =>
          dsimp only
          exact installed_exec hg e.description e.filetype

theorem dupMinFd_exec (pid fd minFd : Nat) : (dupMinFd pid fd minFd).exec m =
      (onTable pid fun h t => ProcessFDTable.dupMinFd h t fd minFd).exec m := by
  cases hg : m.get pid with
  | none =>
      rw [onTable_none hg, dupMinFd, exec_bind, entryOf, exec_bind, tableOf_none hg]
  | some t =>
      rw [onTable_some hg, dupMinFd, exec_bind, entryOf_exec hg, ProcessFDTable.dupMinFd]
      cases t.get fd with
      | none => rfl
      | some e =>
          simp only [exec_bind, tableOf_some hg]
          split
          · rfl
          · simp only [exec_bind, install_exec hg, exec_pure, outcome]

theorem close_exec (pid fd : Nat) : (close pid fd).exec m =
      (onTable pid fun h t => .ok ((), ProcessFDTable.close h t fd)).exec m := by
  cases hg : m.get pid with
  | none => rw [onTable_none hg, close, exec_bind, tableOf_none hg]
  | some t =>
      rw [onTable_some hg, close, exec_bind, tableOf_some hg, ProcessFDTable.close]
      cases hf : t.get fd with
      | none =>
          have hset : m.setTable pid (m.descs, t) = m := by
            rw [setTable, m.tables.set_of_get hg]
          simp only [hf, exec_pure, outcome, hset]
      | some e =>
          have hg' : ({ m with descs := m.descs.addRef e.description (-1) } : FDTableManager).get
              pid = some t := hg
          simp only [hf, exec_bind, exec_update, change_eq hg']
          rfl

theorem dup2_exec (pid oldFd newFd : Nat) : (dup2 pid oldFd newFd).exec m =
      (onTable pid fun h t => (ProcessFDTable.dup2 h t oldFd newFd).map fun s => ((), s)).exec m := by
  cases hg : m.get pid with
  | none => rw [onTable_none hg, dup2, exec_bind, entryOf, exec_bind, tableOf_none hg]
  | some t =>
      rw [onTable_some hg, dup2, exec_bind, entryOf_exec hg, ProcessFDTable.dup2]
      cases t.get oldFd with
      | none => rfl
      | some e =>
          dsimp only
          split
          · have hset : m.setTable pid (m.descs, t) = m := by
              rw [setTable, m.tables.set_of_get hg]
            simp only [exec_pure, Except.map, outcome, hset]
          · rw [exec_bind, close_exec, onTable_some hg]
            have hs := get_setTable_self m pid (ProcessFDTable.close m.descs t newFd)
            simp only [outcome, install_exec hs, setTable_setTable]
            rfl

theorem openFd_exec (pid : Nat) (path : String) (flags : Flags) (filetype : Nat) :
    (openFd pid path flags filetype).exec m =
      match m.get pid with
      | none => (.error (.kernelError .ESRCH ("no FD table for PID " ++ toString pid)), m)
      | some t =>
        match m.openIn pid t path flags filetype with
        | .ok (fd, _, m') => (.ok fd, m')
        | .error e => (.error e, m) := by
  cases hg : m.get pid with
  | none => rw [openFd, exec_bind, allocateFd, exec_bind, tableOf_none hg]
  | some t =>
      rw [openFd, exec_bind, allocateFd_exec hg]
      simp only [openIn]
      cases t.allocateFd with
      | error e => rfl
      | ok r =>
          obtain ⟨fd, t'⟩ := r
          have hg' : ((m.setTable pid (m.descs, t')).allocDesc path (flags &&& ~~~O_CLOEXEC)).2.get
              pid = some t' := get_setTable_self m pid (m.descs, t')
          simp only [exec_bind, exec_read, exec_update, change_eq hg']
          simp only [allocDesc, setTable, set_set]
          rfl

end

end FDTableManager

/-! ### The number of entries -/

namespace ProcessFDTable

variable {h : Descs} {t : ProcessFDTable} {s : Descs × ProcessFDTable} {fd n : Nat}
  {description filetype : Nat}

/-- One more entry, at a number that was free, within the limit. -/
structure Allocated (t : ProcessFDTable) (n : Nat) (t' : ProcessFDTable) : Prop where
  free : t.get n = none
  size : t'.entries.size = t.entries.size + 1
  room : t.entries.size < MAX_FDS_PER_PROCESS

theorem size_setEntry (t : ProcessFDTable) (fd : Nat) (e : FDEntry) :
    (t.setEntry fd e).entries.size + (if t.entries.has fd then 1 else 0) = t.entries.size + 1 :=
  t.entries.size_set fd e

theorem has_of_free (hn : t.get n = none) : t.entries.has n = false := by
  rw [has, show t.entries.get n = none from hn]
  rfl

theorem Allocated.setEntry (hn : t.get n = none) (hr : t.entries.size < MAX_FDS_PER_PROCESS)
    (e : FDEntry) : t.Allocated n (t.setEntry n e) := by
  have hs := t.size_setEntry n e
  rw [has_of_free hn] at hs
  exact ⟨hn, hs, hr⟩

theorem allocateFd_allocated {t' : ProcessFDTable} (ha : t.allocateFd = .ok (n, t'))
    (e : FDEntry) : t.Allocated n (t'.setEntry n e) := by
  have hroom : t.entries.size < MAX_FDS_PER_PROCESS := by
    unfold allocateFd at ha
    split at ha
    · cases ha
    · rename_i hr
      exact Nat.not_le.mp hr
  obtain ⟨hn, he⟩ := allocateFd_ok ha
  have hset := Allocated.setEntry hn hroom e
  refine ⟨hn, ?_, hroom⟩
  rw [← hset.size, setEntry, he]
  rfl

theorem openWith_allocated (ho : openWith h t description filetype = .ok (n, s)) :
    t.Allocated n s.2 := by
  unfold openWith at ho
  cases ha : t.allocateFd with
  | error e =>
      rw [ha] at ho
      cases ho
  | ok r =>
      rw [ha] at ho
      cases ho
      exact allocateFd_allocated ha _

theorem dup_allocated (hd : dup h t fd = .ok (n, s)) : t.Allocated n s.2 := by
  unfold dup at hd
  split at hd
  · cases hd
  · exact openWith_allocated (h := h) hd

theorem dupMinFd_allocated {minFd : Nat} (hd : dupMinFd h t fd minFd = .ok (n, s)) :
    t.Allocated n s.2 := by
  unfold dupMinFd at hd
  split at hd
  · cases hd
  · split at hd
    · cases hd
    · rename_i hr
      cases hd
      exact .setEntry (get_freeFrom _ _) (Nat.not_le.mp hr) _

theorem close_size (h : Descs) (t : ProcessFDTable) (fd : Nat) :
    (close h t fd).2.entries.size + (if t.entries.has fd then 1 else 0) = t.entries.size := by
  unfold close
  cases hf : t.get fd with
  | none => rw [has_of_free hf, if_neg Bool.false_ne_true, Nat.add_zero]
  | some e => exact t.entries.size_delete fd

/-- A description at a chosen number keeps the limit when the number is not free, or has room. -/
theorem openWithAt_size (hr : t.entries.has fd = true ∨ t.entries.size < MAX_FDS_PER_PROCESS)
    (ht : t.entries.size ≤ MAX_FDS_PER_PROCESS) :
    (openWithAt h t description filetype fd).2.entries.size ≤ MAX_FDS_PER_PROCESS := by
  have hs := t.size_setEntry fd ⟨description, filetype, false⟩
  rcases hr with hr | hr
  · rw [if_pos hr] at hs
    exact Nat.le_trans (Nat.le_of_eq (Nat.add_right_cancel hs)) ht
  · exact Nat.le_trans (Nat.le_trans (Nat.le_add_right _ _) (Nat.le_of_eq hs)) hr

theorem dup2_size {oldFd newFd : Nat} (hd : dup2 h t oldFd newFd = .ok s)
    (hr : t.entries.has newFd = true ∨ t.entries.size < MAX_FDS_PER_PROCESS)
    (ht : t.entries.size ≤ MAX_FDS_PER_PROCESS) : s.2.entries.size ≤ MAX_FDS_PER_PROCESS := by
  unfold dup2 at hd
  split at hd
  · cases hd
  · split at hd
    · cases hd
      exact ht
    · cases hd
      have hc := close_size h t newFd
      refine openWithAt_size (.inr ?_) ?_
      · rcases hr with hr | hr
        · rw [if_pos hr] at hc
          exact Nat.lt_of_lt_of_le (Nat.lt_of_succ_le (Nat.le_of_eq hc)) ht
        · exact Nat.lt_of_le_of_lt (Nat.le_trans (Nat.le_add_right _ _) (Nat.le_of_eq hc)) hr
      · exact Nat.le_trans (Nat.le_trans (Nat.le_add_right _ _) (Nat.le_of_eq hc)) ht

/-- A table that has all numbers below `k`. -/
structure Filled (t : ProcessFDTable) (k : Nat) : Prop where
  keys : t.entries.keys = List.range k
  next : t.nextFd = k
  pos : 0 < k

theorem freeFrom_of_get {m : OMap Nat FDEntry} (hn : m.get n = none) : freeFrom m n = n := by
  rw [freeFrom]
  cases bound m with
  | zero => rfl
  | succ fuel => rw [firstFree, if_neg (by simp [has, hn])]

variable {k : Nat}

section

variable (ht : t.Filled k)
include ht

theorem Filled.size : t.entries.size = k := by
  have hl := congrArg List.length ht.keys
  rwa [OMap.keys, List.length_map, List.length_range] at hl

theorem Filled.get_none (hn : k ≤ n) : t.get n = none := by
  rw [get, get_eq_none_iff, ht.keys, List.mem_range]
  exact Nat.not_lt.mpr hn

theorem Filled.get_zero : ∃ e, t.get 0 = some e := by
  refine Option.ne_none_iff_exists'.mp fun hn => ?_
  rw [get, get_eq_none_iff, ht.keys, List.mem_range] at hn
  exact hn ht.pos

/-- The next number. -/
theorem Filled.dup (hk : k < MAX_FDS_PER_PROCESS) (h : Descs) :
    ∃ s, ProcessFDTable.dup h t 0 = .ok (k, s) ∧ s.2.Filled (k + 1) := by
  obtain ⟨e, he⟩ := ht.get_zero
  have hfree := ht.get_none (Nat.le_refl k)
  have ha : t.allocateFd = .ok (k, { t with nextFd := k + 1 }) := by
    rw [allocateFd, ht.size, if_neg (Nat.not_le.mpr hk), ht.next, freeFrom_of_get hfree]
  refine ⟨openWithAt h { t with nextFd := k + 1 } e.description e.filetype k, ?_, ?_, rfl,
    Nat.succ_pos k⟩
  · rw [ProcessFDTable.dup, he, ha]
    rfl
  · rw [List.range_succ, ← ht.keys]
    exact t.entries.keys_set_of_get hfree _

end

theorem fork_size (h : Descs) (t : ProcessFDTable) :
    (fork h t).2.entries.size ≤ t.entries.size :=
  t.entries.size_filter_le _

end ProcessFDTable

/-! ### Runs -/

/-- The calls on the tables. -/
inductive FdCall where
  | create (pid : Nat)
  | openFd (pid : Nat) (path : String) (flags : Flags) (filetype : Nat)
  | openWith (pid description filetype : Nat) (targetFd : Option Nat)
  | dup (pid fd : Nat)
  | dupMinFd (pid fd minFd : Nat)
  | dup2 (pid oldFd newFd : Nat)
  | close (pid fd : Nat)
  | fork (parentPid childPid : Nat)
  | remove (pid : Nat)

namespace FDTableManager

variable {m m' : FDTableManager} {t : ProcessFDTable} {c : FdCall}

/-- A call; its value is the number it allocated, and in which table. -/
def perform : FdCall → Fds (Option (Nat × Nat))
  | .create pid => (fun _ => none) <$> (update (·.create pid) : Fds PUnit)
  | .openFd pid path flags filetype =>
    (fun fd => some (pid, fd)) <$> openFd pid path flags filetype
  | .openWith pid description filetype none =>
    (fun fd => some (pid, fd)) <$> openWith pid description filetype none
  | .openWith pid description filetype (some fd) =>
    (fun _ => none) <$> openWith pid description filetype (some fd)
  | .dup pid fd => (fun newFd => some (pid, newFd)) <$> dup pid fd
  | .dupMinFd pid fd minFd => (fun newFd => some (pid, newFd)) <$> dupMinFd pid fd minFd
  | .dup2 pid oldFd newFd => (fun _ => none) <$> dup2 pid oldFd newFd
  | .close pid fd => (fun _ => none) <$> close pid fd
  | .fork parentPid childPid => (fun _ => none) <$> forkTable parentPid childPid
  | .remove pid => (fun _ => none) <$> (update (·.remove pid) : Fds PUnit)

/-- What a call did stays done, also when it threw. -/
def step (m : FDTableManager) (c : FdCall) : Option FDTableManager := some ((perform c).exec m).2

/-- The table has the number, or room for it. -/
def roomAt (m : FDTableManager) (pid fd : Nat) : Bool :=
  match m.get pid with
  | none => true
  | some t => t.entries.has fd || decide (t.entries.size < MAX_FDS_PER_PROCESS)

/-- No description is put at a free number of the caller's choice in a full table. -/
def keepsLimit (m : FDTableManager) : FdCall → Bool
  | .openWith pid _ _ (some fd) => m.roomAt pid fd
  | .dup2 pid _ newFd => m.roomAt pid newFd
  | _ => true

/-- No table has more entries than the limit. -/
def Limited (m : FDTableManager) : Prop :=
  ∀ pid t, m.get pid = some t → t.entries.size ≤ MAX_FDS_PER_PROCESS

/-- What a call can do. -/
inductive CallSpec (m : FDTableManager) (c : FdCall) :
    Except Failure (Option (Nat × Nat)) × FDTableManager → Prop where
  | threw (e : Failure) : CallSpec m c (.error e, m)
  | allocated {pid fd : Nat} {t t' : ProcessFDTable} {m' : FDTableManager}
      (hg : m.get pid = some t) (ha : t.Allocated fd t')
      (ht : m'.tables = m.tables.set pid t') : CallSpec m c (.ok (some (pid, fd)), m')
  | returned {m' : FDTableManager} (hl : m.keepsLimit c = true → m.Limited → m'.Limited) :
      CallSpec m c (.ok none, m')

variable {pid : Nat}

theorem Limited.set {t' : ProcessFDTable} (h : m.Limited)
    (ht : m'.tables = m.tables.set pid t') (hs : t'.entries.size ≤ MAX_FDS_PER_PROCESS) :
    m'.Limited := by
  intro pid' t hg
  rw [get, ht, get_set] at hg
  split at hg
  · cases hg
    exact hs
  · exact h pid' t hg

/-- The value of a call is made of what its method returns. -/
theorem exec_map {α β : Type} (g : α → β) (p : Fds α) (m : FDTableManager) :
    (g <$> p).exec m = ((p.exec m).1.map g, (p.exec m).2) := by
  rw [map_eq_pure_bind, exec_bind]
  rcases p.exec m with ⟨_ | _, _⟩ <;> rfl

/-- A function of a table that allocates. -/
theorem CallSpec.onTable_allocates
    {f : Descs → ProcessFDTable → Except Failure (Nat × Descs × ProcessFDTable)}
    (hf : ∀ h t n s, f h t = .ok (n, s) → t.Allocated n s.2) :
    CallSpec m c (((fun fd => some (pid, fd)) <$> onTable pid f).exec m) := by
  rw [exec_map]
  cases hg : m.get pid with
  | none =>
      rw [onTable_none hg]
      exact .threw _
  | some t =>
      rw [onTable_some hg]
      cases hr : f m.descs t with
      | error e => exact .threw e
      | ok r => exact .allocated hg (hf _ _ _ _ hr) rfl

/-- A function of a table that keeps the limit where the condition holds. -/
theorem CallSpec.onTable_returns {α : Type}
    {f : Descs → ProcessFDTable → Except Failure (α × Descs × ProcessFDTable)}
    (hf : ∀ t a s, m.get pid = some t → f m.descs t = .ok (a, s) → m.keepsLimit c = true →
      t.entries.size ≤ MAX_FDS_PER_PROCESS → s.2.entries.size ≤ MAX_FDS_PER_PROCESS) :
    CallSpec m c (((fun _ => none) <$> onTable pid f).exec m) := by
  rw [exec_map]
  cases hg : m.get pid with
  | none =>
      rw [onTable_none hg]
      exact .threw _
  | some t =>
      rw [onTable_some hg]
      cases hr : f m.descs t with
      | error e => exact .threw e
      | ok r =>
          exact .returned fun hc hl => hl.set rfl (hf t r.1 r.2 hg hr hc (hl pid t hg))

theorem roomAt_spec {fd : Nat} (hg : m.get pid = some t) (h : m.roomAt pid fd = true) :
    t.entries.has fd = true ∨ t.entries.size < MAX_FDS_PER_PROCESS := by
  simpa [roomAt, hg] using h

theorem limited_create (h : m.Limited) (pid : Nat) : (m.create pid).Limited := by
  have hs : (m.create pid).tables = m.tables.set pid _ := rfl
  refine h.set hs ?_
  show 3 ≤ MAX_FDS_PER_PROCESS
  decide

theorem limited_fork (h : m.Limited) {parentPid : Nat} (hg : m.get parentPid = some t)
    (childPid : Nat) : (m.fork t childPid).Limited :=
  h.set rfl (Nat.le_trans (fork_size m.descs t) (h parentPid t hg))

theorem limited_remove (h : m.Limited) (pid : Nat) : (m.remove pid).Limited := by
  rw [remove]
  split
  · exact h
  · intro pid' t hg
    have hd := (m.tables.get_delete pid pid').symm.trans hg
    split at hd
    · cases hd
    · exact h pid' t hd

theorem perform_spec (m : FDTableManager) (c : FdCall) : CallSpec m c ((perform c).exec m) := by
  cases c with
  | create pid => exact .returned fun _ h => limited_create h pid
  | openFd pid path flags filetype =>
      rw [perform, exec_map, openFd_exec]
      cases hg : m.get pid with
      | none => exact .threw _
      | some t =>
          dsimp only
          cases ho : m.openIn pid t path flags filetype with
          | error e => exact .threw e
          | ok r =>
              unfold openIn at ho
              cases ha : t.allocateFd with
              | error e =>
                  rw [ha] at ho
                  cases ho
              | ok a =>
                  rw [ha] at ho
                  cases ho
                  exact .allocated hg (ProcessFDTable.allocateFd_allocated ha _) rfl
  | openWith pid description filetype targetFd =>
      cases targetFd with
      | none =>
          rw [perform, exec_map, openWith_exec, ← exec_map]
          exact .onTable_allocates fun _ _ _ _ => ProcessFDTable.openWith_allocated
      | some fd =>
          rw [perform, exec_map, openWithAt_exec, ← exec_map]
          refine .onTable_returns fun t a s hg hf hc ht => ?_
          cases hf
          exact ProcessFDTable.openWithAt_size (roomAt_spec hg hc) ht
  | dup pid fd =>
      rw [perform, exec_map, dup_exec, ← exec_map]
      exact .onTable_allocates fun _ _ _ _ => ProcessFDTable.dup_allocated
  | dupMinFd pid fd minFd =>
      rw [perform, exec_map, dupMinFd_exec, ← exec_map]
      exact .onTable_allocates fun _ _ _ _ => ProcessFDTable.dupMinFd_allocated
  | dup2 pid oldFd newFd =>
      rw [perform, exec_map, dup2_exec, ← exec_map]
      refine .onTable_returns fun t a s hg hf hc ht => ?_
      cases hd : ProcessFDTable.dup2 m.descs t oldFd newFd with
      | error e =>
          rw [hd] at hf
          cases hf
      | ok s' =>
          rw [hd] at hf
          cases hf
          exact ProcessFDTable.dup2_size hd (roomAt_spec hg hc) ht
  | close pid fd =>
      rw [perform, exec_map, close_exec, ← exec_map]
      refine .onTable_returns fun t a s hg hf hc ht => ?_
      cases hf
      have hs := ProcessFDTable.close_size m.descs t fd
      exact Nat.le_trans (Nat.le_trans (Nat.le_add_right _ _) (Nat.le_of_eq hs)) ht
  | fork parentPid childPid =>
      refine .returned fun _ h => ?_
      dsimp only
      split
      · exact limited_create h childPid
      · rename_i t hg
        exact limited_fork h hg childPid
  | remove pid => exact .returned fun _ h => limited_remove h pid

theorem limited_step (h : m.Limited) (hc : m.keepsLimit c = true) (hs : m.step c = some m') :
    m'.Limited := by
  cases hs
  have hspec := perform_spec m c
  generalize (perform c).exec m = r at hspec
  cases hspec with
  | threw e => exact h
  | allocated hg ha ht => exact h.set ht (Nat.le_trans (Nat.le_of_eq ha.size) ha.room)
  | returned hl => exact hl hc h

/-- **The limit of descriptors.**  In runs in which no description is put at a free number of the
caller's choice in a full table, no table has more entries than the limit; in every state, what is
allocated was free and a call that throws has changed nothing. -/
theorem descriptors_limited {m : FDTableManager} (h : Reach step (keepsLimit · ·) .new m) :
    (∀ pid t, m.get pid = some t → t.entries.size ≤ MAX_FDS_PER_PROCESS) ∧
    ∀ c, (∀ pid fd m', (perform c).exec m = (.ok (some (pid, fd)), m') →
        ∃ t, m.get pid = some t ∧ t.get fd = none) ∧
      ∀ e m', (perform c).exec m = (.error e, m') → m' = m := by
  refine ⟨h.invariant (I := Limited) (fun pid t hg => (by cases hg))
    fun _ _ _ hI hC hs => limited_step hI hC hs, fun c => ⟨fun pid fd m' he => ?_, fun e m' he => ?_⟩⟩
  · have hspec := perform_spec m c
    rw [he] at hspec
    cases hspec with
    | allocated hg ha ht => exact ⟨_, hg, ha.free⟩
  · have hspec := perform_spec m c
    rw [he] at hspec
    cases hspec with
    | threw e => rfl

/-- Descriptors made in several ways. -/
theorem descriptors_limited_several : ∃ m, Reach step (keepsLimit · ·) .new m ∧
    (m.get 1).map (·.entries.keys) = some [0, 1, 2, 3, 9, 5] ∧
    (m.get 2).map (·.entries.keys) = some [0, 2, 3] ∧
    ∀ pid t, m.get pid = some t → t.entries.size ≤ MAX_FDS_PER_PROCESS := by
  obtain ⟨m, hm, h₁, h₂⟩ := Reach.exists_of_execIf step (keepsLimit · ·) .new
    [.create 1, .dup 1 0, .fork 1 2, .close 2 1, .dup2 1 0 9, .dupMinFd 1 2 5, .dup 1 4]
    (P := fun m => (m.get 1).map (·.entries.keys) = some [0, 1, 2, 3, 9, 5] ∧
      (m.get 2).map (·.entries.keys) = some [0, 2, 3]) (by decide +kernel)
  exact ⟨m, hm, h₁, h₂, (descriptors_limited hm).1⟩

/-- A table that is filled by calls of `dup`. -/
theorem reach_filled {k : Nat} (hk : 3 ≤ k) (hm : k ≤ MAX_FDS_PER_PROCESS) :
    ∃ m t, Reach step Any .new m ∧ m.get 1 = some t ∧ t.Filled k := by
  induction k, hk using Nat.le_induction with
  | base => exact ⟨_, _, .one (a := .create 1) trivial rfl, rfl, rfl, rfl, Nat.succ_pos 2⟩
  | succ k hk ih =>
      obtain ⟨m, t, hr, hg, ht⟩ := ih (Nat.le_of_succ_le hm)
      obtain ⟨s, hs, hf⟩ := ht.dup hm m.descs
      refine ⟨m.setTable 1 s, s.2, hr.next (a := .dup 1 0) trivial ?_, get_setTable_self m 1 s, hf⟩
      rw [step, perform, exec_map, dup_exec, onTable_some hg, hs]
      rfl

/-- **`dup2` passes the limit.**  A full table gets one more entry. -/
theorem descriptors_limited_fails : ∃ m, Reach step Any .new m ∧
    ∃ t, m.get 1 = some t ∧ t.entries.size = MAX_FDS_PER_PROCESS + 1 := by
  obtain ⟨m, t, hr, hg, ht⟩ := reach_filled (k := 256) (by decide) (Nat.le_refl _)
  obtain ⟨e, he⟩ := ht.get_zero
  have hfree := ht.get_none (Nat.le_refl 256)
  have hd : ProcessFDTable.dup2 m.descs t 0 256 =
      .ok (ProcessFDTable.openWithAt m.descs t e.description e.filetype 256) := by
    rw [ProcessFDTable.dup2, he, ProcessFDTable.close, hfree]
    rfl
  have hs := t.size_setEntry 256 ⟨e.description, e.filetype, false⟩
  rw [ProcessFDTable.has_of_free hfree, if_neg Bool.false_ne_true, ht.size] at hs
  refine ⟨m.setTable 1 (ProcessFDTable.openWithAt m.descs t e.description e.filetype 256),
    hr.next (a := .dup2 1 0 256) trivial ?_, _, get_setTable_self _ _ _, hs⟩
  rw [step, perform, exec_map, dup2_exec, onTable_some hg, hd]
  rfl

end FDTableManager
end SecureExec.Kernel
