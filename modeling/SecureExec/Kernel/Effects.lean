import SecureExec.Kernel.FdRefs
import SecureExec.Kernel.Syscalls

/-!
# Kernel — Effects — what each call does to the descriptions

A description is live while a descriptor of some process holds it.  `KernelOk` is what holds of
every kernel: the counts are right (`FdsOk`), and nothing is known under a PID or a reference that
has not been given out.

`Effect k a ok k'` says what the call `a` can do to the descriptions, the managers of pipes and
terminals and the locks.  Here it is shown of the calls on descriptors, one lemma a call.
-/

namespace SecureExec.Kernel
open SecureExec Prog ProcessFDTable Function FDTableManager

namespace KernelImpl

/-- Some descriptor holds the description. -/
def Live (k : KernelImpl) (r : Nat) : Prop := 0 < k.fds.refs r

instance (k : KernelImpl) (r : Nat) : Decidable (k.Live r) := inferInstanceAs (Decidable (_ < _))

/-- No live description has this id. -/
def Unused (k : KernelImpl) (id : Nat) : Prop :=
  ∀ r < k.fds.descs.next, k.Live r → (k.desc r).id ≠ id

instance (k : KernelImpl) (id : Nat) : Decidable (k.Unused id) :=
  inferInstanceAs (Decidable (∀ r < k.fds.descs.next, k.Live r → (k.desc r).id ≠ id))

/-- The ids of the descriptions a call makes. -/
def allocs (k : KernelImpl) : Syscall → List Nat
  | .fdOpen _ _ path .. => if (devFd? path).isNone then [k.fds.nextDescriptionId] else []
  | .pipe .. => [k.pipes.nextDescId, k.pipes.nextDescId + 1]
  | .openpty .. => [k.ptys.nextPtyDescId, k.ptys.nextPtyDescId + 1]
  | .spawn .. => [0, 1, 2].map (k.fds.nextDescriptionId + ·)
  | .spawnFrom _ _ ppid .. =>
    if (k.callerTable (some ppid)).isNone then [0, 1, 2].map (k.fds.nextDescriptionId + ·) else []
  | _ => []

/-- Descriptors, managers and locks are the same. -/
structure SameCore (k k' : KernelImpl) : Prop where
  fds : k'.fds = k.fds
  pipes : k'.pipes = k.pipes
  ptys : k'.ptys = k.ptys
  ends : k'.ends = k.ends
  locks : k'.locks = k.locks

/-- Managers and locks are the same, and the descriptions that were there keep their names. -/
structure Keeps (k k' : KernelImpl) : Prop where
  next : k.fds.descs.next ≤ k'.fds.descs.next
  names : ∀ r, r < k.fds.descs.next →
    (k'.desc r).id = (k.desc r).id ∧ (k'.desc r).path = (k.desc r).path

structure SameManagers (k k' : KernelImpl) : Prop where
  pipes : k'.pipes = k.pipes
  ptys : k'.ptys = k.ptys
  ends : k'.ends = k.ends
  locks : k'.locks = k.locks

/-- The live descriptions, the managers and the locks are the same. -/
structure Quiet (k k' : KernelImpl) : Prop where
  names : Keeps k k'
  live : ∀ r, k'.Live r ↔ k.Live r
  managers : SameManagers k k'

/-- What a call can do; `ok` says that it returned. -/
inductive Effect (k : KernelImpl) (a : Syscall) (ok : Bool) (k' : KernelImpl) : Prop where
  | quiet (h : Quiet k k')
  /-- New files are open. -/
  | opened (n : Nat) (hn : Keeps k k') (hm : SameManagers k k')
      (hl : ∀ r, k'.Live r ↔ k.Live r ∨ ∃ i < n, r = k.fds.descs.next + i)
      (hid : ∀ i < n, (k'.desc (k.fds.descs.next + i)).id = k.fds.nextDescriptionId + i ∧
        k.fds.nextDescriptionId + i ∈ k.allocs a)
  /-- A pair of ends is there; a call that throws has opened one of them, or none. -/
  | paired (k₁ : KernelImpl) (o₁ o₂ : Bool)
      (hk : (k₁ = k.createPipe ∧ k.allocs a = [k.pipes.nextDescId, k.pipes.nextDescId + 1]) ∨
        (k₁ = k.createPty ∧ k.allocs a = [k.ptys.nextPtyDescId, k.ptys.nextPtyDescId + 1]))
      (hn : Keeps k₁ k') (hm : SameManagers k₁ k')
      (hl : ∀ r, k'.Live r ↔ k.Live r ∨ (o₁ = true ∧ r = k.fds.descs.next) ∨
        (o₂ = true ∧ r = k.fds.descs.next + 1))
      (hok : ok = true → o₁ = true ∧ o₂ = true)
  /-- A descriptor of the description `r` is gone. -/
  | dropped (k₁ : KernelImpl) (r : Nat) (hn : Keeps k k₁) (hm : SameManagers k k₁)
      (hr : k.Live r) (hl : ∀ x, x ≠ r → (k₁.Live x ↔ k.Live x))
      (hc : (k₁.desc r).refCount = k₁.fds.refs r) (he : k' = k₁.releaseDescription r)
  /-- The descriptors of a process are gone. -/
  | exited (k₀ : KernelImpl) (pid : Nat) (ha : a = .exit pid) (hs : SameCore k k₀)
      (he : k' = k₀.cleanupProcessFDs pid)
  /-- A descriptor's lock is asked for. -/
  | locked (r : Nat) (operation : BitVec 32) (hr : k.Live r)
      (he : k' = { k with locks := (k.locks.flock (k.desc r).path (k.desc r).id operation).2 })
  /-- A waiting lock call runs on. -/
  | resumed (h : Nat) (c : FlockCall) (out : FlockOutcome) (l : LockState) (ha : a = .resume h)
      (hr : k.locks.resume h = some (c, out, l)) (he : k' = { k with locks := l })

/-- What holds of every kernel. -/
structure KernelOk (k : KernelImpl) : Prop where
  fds : FdsOk k.fds
  pids : ∀ pid t, k.fds.get pid = some t → pid < k.nextPid
  ends : ∀ r, k.fds.descs.next ≤ r → k.ends r = none

variable {k k' k'' : KernelImpl} {a : Syscall} {b : Bool} {pid : Nat}

/-! ### Frames -/

theorem Keeps.refl (k : KernelImpl) : Keeps k k := ⟨Nat.le_refl _, fun _ _ => ⟨rfl, rfl⟩⟩

theorem Keeps.trans (h₁ : Keeps k k') (h₂ : Keeps k' k'') : Keeps k k'' := by
  refine ⟨Nat.le_trans h₁.next h₂.next, fun r hr => ?_⟩
  obtain ⟨hi, hp⟩ := h₁.names r hr
  obtain ⟨hi', hp'⟩ := h₂.names r (Nat.lt_of_lt_of_le hr h₁.next)
  exact ⟨hi'.trans hi, hp'.trans hp⟩

theorem Keeps.of_counts (h : k.fds.descs.CountsOnly k'.fds.descs) : Keeps k k' := by
  refine ⟨Nat.le_of_eq h.next.symm, fun r _ => ?_⟩
  obtain ⟨n, hn⟩ := h.same r
  rw [desc, hn]
  exact ⟨rfl, rfl⟩

theorem SameManagers.refl (k : KernelImpl) : SameManagers k k := ⟨rfl, rfl, rfl, rfl⟩

theorem SameManagers.trans (h₁ : SameManagers k k') (h₂ : SameManagers k' k'') :
    SameManagers k k'' :=
  ⟨h₂.pipes.trans h₁.pipes, h₂.ptys.trans h₁.ptys, h₂.ends.trans h₁.ends,
    h₂.locks.trans h₁.locks⟩

section

variable (h : SameCore k k')
include h

theorem SameCore.managers : SameManagers k k' :=
  ⟨h.pipes, h.ptys, h.ends, h.locks⟩

theorem SameCore.keeps : Keeps k k' := by
  refine .of_counts ?_
  rw [h.fds]
  exact .refl _

theorem SameCore.live (r : Nat) : k'.Live r ↔ k.Live r := by
  rw [Live, Live, h.fds]

theorem SameCore.ok (hk : KernelOk k) (hp : k.nextPid ≤ k'.nextPid) :
    KernelOk k' := by
  refine ⟨h.fds ▸ hk.fds, fun pid t ht => ?_, fun r hr => ?_⟩
  · rw [h.fds] at ht
    exact Nat.lt_of_lt_of_le (hk.pids pid t ht) hp
  · rw [h.fds] at hr
    rw [h.ends]
    exact hk.ends r hr

theorem SameCore.quiet : Quiet k k' := ⟨h.keeps, h.live, h.managers⟩

end

theorem Quiet.trans (h₁ : Quiet k k') (h₂ : Quiet k' k'') : Quiet k k'' :=
  ⟨h₁.names.trans h₂.names, fun r => (h₂.live r).trans (h₁.live r),
    h₁.managers.trans h₂.managers⟩

/-! ### An operation of one table -/

theorem get_setTable (m : FDTableManager) (pid pid' : Nat) (s : Descs × ProcessFDTable) :
    (m.setTable pid s).get pid' = if pid' = pid then some s.2 else m.get pid' :=
  m.tables.get_set pid pid' s.2

variable {t : ProcessFDTable} {s : Descs × ProcessFDTable}

/-- The kernel after a balanced operation of a table. -/
theorem KernelOk.setTable (hk : KernelOk k)
    (hg : k.fds.get pid = some t) (hb : Balanced k.fds.descs t s)
    (hv : ∀ r, k.fds.descs.next ≤ r → s.2.refs r = 0) :
    KernelOk { k with fds := k.fds.setTable pid s } := by
  refine ⟨hk.fds.setTable hg hb hv, fun pid' t' ht => ?_, fun r hr => ?_⟩
  · rw [get_setTable] at ht
    split at ht
    · rename_i hp
      subst hp
      exact hk.pids _ t hg
    · exact hk.pids pid' t' ht
  · exact hk.ends r (hb.only.next ▸ hr)

theorem keeps_setTable
    (hb : Balanced k.fds.descs t s) : Keeps k { k with fds := k.fds.setTable pid s } :=
  .of_counts hb.only

variable {r : Nat}

theorem live_setTable
    (hg : k.fds.get pid = some t) (hl : 0 < s.2.refs r ↔ 0 < t.refs r) :
    ({ k with fds := k.fds.setTable pid s } : KernelImpl).Live r ↔ k.Live r := by
  have h₁ := refs_setTable hg s r
  have h₂ := refs_le hg r
  unfold Live
  constructor <;> intro h
  · rcases Nat.eq_zero_or_pos (t.refs r) with h0 | hp
    · have : s.2.refs r = 0 := by omega
      simp only at h
      omega
    · omega
  · rcases Nat.eq_zero_or_pos (s.2.refs r) with h0 | hp
    · have : t.refs r = 0 := by omega
      simp only
      omega
    · simp only
      omega

/-- An operation of a table that holds on to the same descriptions. -/
theorem table_quiet (hk : KernelOk k)
    (hg : k.fds.get pid = some t) (hb : Balanced k.fds.descs t s)
    (hl : ∀ r, 0 < s.2.refs r ↔ 0 < t.refs r) :
    KernelOk { k with fds := k.fds.setTable pid s } ∧
      Quiet k { k with fds := k.fds.setTable pid s } := by
  refine ⟨hk.setTable hg hb fun r hr => ?_, keeps_setTable hb,
    fun r => live_setTable hg (hl r), ⟨rfl, rfl, rfl, rfl⟩⟩
  have h0 := hk.fds.table_valid hg r hr
  have := hl r
  omega

/-! ### The parts of a call -/

section Parts

variable {α : Type} {Q : α → KernelImpl → Prop} {E : Failure → KernelImpl → Prop}

theorem assertOwns_wp {Q : Unit → KernelImpl → Prop} {driver : String} (hQ : Q () k)
    (hE : ∀ e, E e k) : (assertOwns driver pid).wp k Q E := by
  simp only [assertOwns, wp_bind, wp_read]
  split
  · exact hQ
  · split
    · exact hE _
    · exact hE _

theorem getTable_wp {Q : ProcessFDTable → KernelImpl → Prop}
    (hQ : ∀ t, k.fds.get pid = some t → Q t k) (hE : ∀ e, E e k) : (getTable pid).wp k Q E := by
  simp only [getTable, wp_bind, wp_read]
  split
  · rename_i t ht
    exact hQ t ht
  · exact hE _

theorem getEntry_wp {Q : FDEntry → KernelImpl → Prop} {fd : Nat}
    (hQ : ∀ t e, k.fds.get pid = some t → t.get fd = some e → Q e k) (hE : ∀ e, E e k) :
    (getEntry pid fd).wp k Q E := by
  rw [getEntry, wp_bind]
  refine getTable_wp (fun t ht => ?_) hE
  split
  · rename_i e he
    exact hQ t e ht he
  · exact hE _

theorem onTable_wp {f : Descs → ProcessFDTable → Except Failure (α × Descs × ProcessFDTable)}
    (hQ : ∀ t x s, k.fds.get pid = some t → f k.fds.descs t = .ok (x, s) →
      Q x { k with fds := k.fds.setTable pid s }) (hE : ∀ e, E e k) :
    (onTable pid f).wp k Q E := by
  rw [onTable, wp_bind]
  refine getTable_wp (fun t ht => ?_) hE
  simp only [wp_bind, wp_read]
  cases hf : f k.fds.descs t with
  | error e => exact hE e
  | ok p => exact hQ t p.1 p.2 ht hf

end Parts

/-- The state after a call that changes neither descriptors nor managers. -/
def Post (k : KernelImpl) (a : Syscall) (ok : Bool) (k' : KernelImpl) : Prop :=
  KernelOk k' ∧ Effect k a ok k'

theorem Post.quiet (hk : KernelOk k') (h : Quiet k k') : Post k a b k' := ⟨hk, .quiet h⟩

section

variable (hk : KernelOk k)
include hk

theorem Post.same : Post k a b k :=
  .quiet hk (SameCore.quiet ⟨rfl, rfl, rfl, rfl, rfl⟩)

theorem dup_wp (fd : Nat) :
    (onTable pid fun h t => dup h t fd).wp k (fun _ k' => Post k a true k')
      fun _ k' => Post k a false k' := by
  refine onTable_wp (fun t x s hg hf => ?_) fun e => .same hk
  obtain ⟨hb, hl⟩ := dup_spec hf
  obtain ⟨hk', hq⟩ := table_quiet hk hg hb hl
  exact .quiet hk' hq

theorem dupMinFd_wp (pid fd minFd : Nat) :
    (onTable pid fun h t => dupMinFd h t fd minFd).wp k
      (fun _ k' => KernelOk k' ∧ Quiet k k') fun _ k' => k' = k := by
  refine onTable_wp (fun t x s hg hf => ?_) fun e => rfl
  obtain ⟨hb, hl⟩ := dupMinFd_spec hf
  exact table_quiet hk hg hb hl

/-! ### Opening a file -/

/-- The kernel with `n` new files. -/
theorem grows_post {m : FDTableManager} {n : Nat} (hg : Grows k.fds m n)
    (hp : ∀ pid t, m.get pid = some t → pid < k'.nextPid) (hf : k'.fds = m)
    (hm : SameManagers k k') (ha : ∀ i < n, k.fds.nextDescriptionId + i ∈ k.allocs a) :
    Post k a b k' := by
  subst hf
  refine ⟨⟨hg.ok hk.fds, hp, fun r hr => ?_⟩, .opened n ⟨?_, fun r hr => ?_⟩ hm (fun r => ?_)
    fun i hi => ⟨(hg.fresh i hi).2, ha i hi⟩⟩
  · rw [hm.ends]
    rw [hg.next] at hr
    exact hk.ends r (Nat.le_trans (Nat.le_add_right _ _) hr)
  · rw [hg.next]
    exact Nat.le_add_right _ _
  · rw [desc, hg.old r (by omega)]
    exact ⟨rfl, rfl⟩
  · rw [Live, Live, hg.refs]
    constructor
    · intro h
      by_cases hr : k.fds.descs.next ≤ r ∧ r < k.fds.descs.next + n
      · exact .inr ⟨r - k.fds.descs.next, by omega, by omega⟩
      · rw [if_neg hr] at h
        exact .inl h
    · rintro (h | ⟨i, hi, rfl⟩)
      · exact Nat.lt_of_lt_of_le h (Nat.le_add_right _ _)
      · rw [if_pos (by omega)]
        exact Nat.succ_pos _

theorem openPath_wp (path : String) (flags : Flags) (mode : Option Nat)
    (created : Bool) (ha : k.fds.nextDescriptionId ∈ k.allocs a) :
    (openPath pid path flags mode created).wp k (fun _ k' => Post k a true k')
      fun _ k' => Post k a false k' := by
  have halloc : ∀ i < 1, k.fds.nextDescriptionId + i ∈ k.allocs a := by
    intro i hi
    obtain rfl : i = 0 := Nat.lt_one_iff.mp hi
    exact ha
  rw [openPath, wp_bind]
  refine getTable_wp (fun t ht => ?_) fun e => .same hk
  simp only [wp_bind, wp_read]
  cases ho : k.fds.openIn pid t path flags FILETYPE_REGULAR_FILE with
  | error e => exact Post.same hk
  | ok p =>
      obtain ⟨fd, r, m⟩ := p
      obtain ⟨hg, rfl, hother⟩ := openIn_grows ht ho
      have hpids : ∀ pid' t', m.get pid' = some t' → pid' < k.nextPid := by
        intro pid' t' ht'
        by_cases hp : pid' = pid
        · subst hp
          exact hk.pids _ t ht
        · rw [hother pid' hp] at ht'
          exact hk.pids _ t' ht'
      simp only [wp_lift_ok, wp_update]
      split
      · simp only [wp_bind, wp_update, wp_pure]
        refine grows_post hk (hg.modify ⟨Nat.le_refl _, Nat.lt_succ_self _⟩ ?_) hpids rfl
          ⟨rfl, rfl, rfl, rfl⟩ halloc
        exact fun _ => ⟨rfl, rfl⟩
      · exact grows_post hk hg hpids rfl ⟨rfl, rfl, rfl, rfl⟩ halloc

theorem fdOpen_wp (driver : String) (path : String) (flags : Flags)
    (mode : Option Nat) (prepared : Except Failure Bool) :
    (fdOpen driver pid path flags mode prepared).wp k
      (fun _ k' => Post k (.fdOpen driver pid path flags mode prepared) true k')
      fun _ k' => Post k (.fdOpen driver pid path flags mode prepared) false k' := by
  rw [fdOpen, wp_bind]
  refine assertOwns_wp ?_ fun e => .same hk
  cases hd : devFd? path with
  | some raw =>
      simp only
      cases parseFd raw with
      | none => exact Post.same hk
      | some n => exact dup_wp hk n
  | none =>
      have ha : k.fds.nextDescriptionId ∈
          k.allocs (.fdOpen driver pid path flags mode prepared) := by
        simp [allocs, hd]
      simp only
      split
      · rw [wp_bind]
        cases prepared with
        | error e => exact Post.same hk
        | ok created => exact openPath_wp hk path flags mode created ha
      · exact openPath_wp hk path flags mode false ha

end

/-! ### Closing a descriptor -/

theorem Live.of_entry {fd : Nat} {e : FDEntry} (hg : k.fds.get pid = some t)
    (he : t.get fd = some e) : k.Live e.description :=
  Nat.lt_of_lt_of_le (refs_pos he) (refs_le hg _)

/-- The managers forget a description; the descriptors do not change. -/
theorem releaseDescription_fds (k : KernelImpl) (r : Nat) :
    (k.releaseDescription r).fds = k.fds ∧ (k.releaseDescription r).ends = k.ends ∧
      (k.releaseDescription r).nextPid = k.nextPid := by
  unfold releaseDescription releaseLock closePty closePipe
  repeat' split
  all_goals exact ⟨rfl, rfl, rfl⟩

theorem KernelOk.release (hk : KernelOk k) (r : Nat) : KernelOk (k.releaseDescription r) := by
  obtain ⟨hf, he, hn⟩ := releaseDescription_fds k r
  exact ⟨hf ▸ hk.fds, fun pid t ht => hn ▸ hk.pids pid t (hf ▸ ht),
    fun x hx => he ▸ hk.ends x (hf ▸ hx)⟩

/-- A description that is still held is not released. -/
theorem releaseDescription_live (hc : (k.desc r).refCount = k.fds.refs r)
    (hr : k.Live r) : k.releaseDescription r = k := by
  unfold releaseDescription
  rw [if_neg]
  rw [hc, Int.not_le]
  exact Int.natCast_pos.mpr hr

/-- A descriptor of `r` is gone: another is left, or `r` is released. -/
theorem dropped_cases (hr : k.Live r) (hl : ∀ x, x ≠ r → (k'.Live x ↔ k.Live x))
    (hc : (k'.desc r).refCount = k'.fds.refs r) :
    (k'.releaseDescription r = k' ∧ ∀ x, k'.Live x ↔ k.Live x) ∨
      ((k'.desc r).refCount ≤ 0 ∧
        ∀ x, (k'.releaseDescription r).Live x ↔ k.Live x ∧ x ≠ r) := by
  by_cases hlive : k'.Live r
  · refine .inl ⟨releaseDescription_live hc hlive, fun x => ?_⟩
    by_cases hx : x = r
    · exact hx ▸ iff_of_true hlive hr
    · exact hl x hx
  · refine .inr ⟨?_, fun x => ?_⟩
    · rw [hc, Int.natCast_nonpos_iff]
      exact Nat.eq_zero_of_not_pos hlive
    · rw [Live, (releaseDescription_fds k' r).1]
      by_cases hx : x = r
      · subst hx
        exact iff_of_false hlive fun h => h.2 rfl
      · exact (hl x hx).trans ⟨fun h => ⟨h, hx⟩, And.left⟩

theorem withTable_eq (hg : k.fds.get pid = some t)
    (f : Descs → ProcessFDTable → Descs × ProcessFDTable) :
    k.withTable pid f = { k with fds := k.fds.setTable pid (f k.fds.descs t) } := by
  rw [withTable, hg]

section

variable (hk : KernelOk k)
include hk

theorem KernelOk.closeFd (pid fd : Nat) :
    KernelOk (k.withTable pid fun h t => close h t fd) := by
  cases hg : k.fds.get pid with
  | none =>
      rw [withTable, hg]
      exact hk
  | some t =>
      rw [withTable_eq hg]
      refine hk.setTable hg (.close _ _ _) fun r hr => ?_
      exact Nat.le_zero.mp (hk.fds.table_valid hg r hr ▸ refs_close_le _ t fd r)

variable (driver : String)

theorem fdClose_wp (fd : Nat) :
    (fdClose driver pid fd).wp k (fun _ k' => Post k a true k')
      fun _ k' => Post k a false k' := by
  rw [fdClose, wp_bind]
  refine assertOwns_wp ?_ fun e => .same hk
  rw [wp_bind]
  refine getTable_wp (fun t ht => ?_) fun e => .same hk
  cases he : t.get fd with
  | none => exact Post.same hk
  | some e =>
      have hk₁ := hk.closeFd pid fd
      rw [withTable_eq ht] at hk₁
      simp only [wp_update, withTable_eq ht]
      have hb := Balanced.close k.fds.descs t fd
      obtain ⟨-, hrefs⟩ := close_spec (h := k.fds.descs) he
      refine ⟨hk₁.release _, .dropped _ e.description (keeps_setTable hb) ⟨rfl, rfl, rfl, rfl⟩
        (.of_entry ht he) (fun x hx => live_setTable ht ?_) (hk₁.fds.counts _) rfl⟩
      have h₂ := hrefs x
      rw [if_neg (Ne.symm hx)] at h₂
      rw [← h₂]
      rfl

theorem fdDup2_wp (oldFd newFd : Nat) :
    (fdDup2 driver pid oldFd newFd).wp k (fun _ k' => Post k a true k')
      fun _ k' => Post k a false k' := by
  rw [fdDup2, wp_bind]
  refine assertOwns_wp ?_ fun e => .same hk
  rw [wp_bind]
  refine getTable_wp (fun t ht => ?_) fun e => .same hk
  rw [wp_bind]
  refine onTable_wp (fun t' x s ht' hf => ?_) fun e => .same hk
  obtain rfl : t = t' := Option.some.inj (ht.symm.trans ht')
  cases hd : dup2 k.fds.descs t oldFd newFd with
  | error e => simp [hd, Except.map] at hf
  | ok s' =>
      simp only [hd, Except.map, Except.ok.injEq, Prod.mk.injEq] at hf
      obtain ⟨-, rfl⟩ := hf
      obtain ⟨hb, hsub, hl⟩ := dup2_spec hd
      have hk₁ : KernelOk { k with fds := k.fds.setTable pid s' } := by
        refine hk.setTable ht hb fun r hr => ?_
        have h₁ := hk.fds.table_valid ht r hr
        have h₂ := hsub r
        omega
      cases he : t.get newFd with
      | none =>
          have hl' := fun r => hl r (fun e h => by rw [he] at h; cases h)
          exact .quiet hk₁ (table_quiet hk ht hb hl').2
      | some e =>
          simp only [wp_update]
          refine ⟨hk₁.release _, .dropped _ e.description (keeps_setTable hb)
            ⟨rfl, rfl, rfl, rfl⟩ (.of_entry ht he) (fun x hx => live_setTable ht (hl x ?_))
            (hk₁.fds.counts _) rfl⟩
          intro e' he' hex
          rw [he] at he'
          cases he'
          exact hx hex.symm

/-! ### Flags of a descriptor -/

theorem setCloexec_quiet (pid fd : Nat) (value : Bool) :
    KernelOk (k.withTable pid fun h t => (h, t.setCloexec fd value)) ∧
      Quiet k (k.withTable pid fun h t => (h, t.setCloexec fd value)) := by
  cases hg : k.fds.get pid with
  | none =>
      rw [withTable, hg]
      exact ⟨hk, SameCore.quiet ⟨rfl, rfl, rfl, rfl, rfl⟩⟩
  | some t =>
      rw [withTable_eq hg]
      have hr := t.refs_setCloexec fd value
      refine table_quiet hk hg ⟨fun r => ?_, .refl _⟩ fun r => ?_
      · simp only [hr]
      · rw [hr]

theorem setCloexec_wp (fd : Nat) (value : Bool) :
    (setCloexec pid fd value).wp k (fun _ k' => Post k a true k')
      fun _ k' => Post k a false k' := by
  obtain ⟨hk', hq⟩ := setCloexec_quiet hk pid fd value
  exact .quiet hk' hq

theorem fdSetCloexec_wp (fd : Nat) (value : Bool) :
    (fdSetCloexec driver pid fd value).wp k (fun _ k' => Post k a true k')
      fun _ k' => Post k a false k' := by
  rw [fdSetCloexec, wp_bind]
  refine assertOwns_wp ?_ fun e => .same hk
  rw [wp_bind]
  exact getEntry_wp (fun t e _ _ => setCloexec_wp hk fd value) fun e => .same hk

theorem fcntl_wp (fd cmd : Nat) (arg : Option Nat) :
    (fcntl driver pid fd cmd arg).wp k (fun _ k' => Post k a true k')
      fun _ k' => Post k a false k' := by
  have hdup := dupMinFd_wp hk pid fd (arg.getD 0)
  have hthrow : ∀ k', k' = k → Post k a false k' := by
    rintro _ rfl
    exact .same hk
  rw [fcntl, wp_bind]
  refine assertOwns_wp ?_ fun e => .same hk
  rw [wp_bind]
  refine getEntry_wp (fun t e _ _ => ?_) fun e => .same hk
  split
  · exact wp_mono hdup (fun _ _ h => .quiet h.1 h.2) fun _ => hthrow
  · split
    · rw [wp_bind]
      refine wp_mono hdup (fun newFd k₁ h => ?_) fun _ => hthrow
      obtain ⟨hk₂, hq⟩ := setCloexec_quiet h.1 pid newFd true
      exact Post.quiet hk₂ (h.2.trans hq)
    · split
      · exact Post.same hk
      · split
        · rw [wp_bind]
          exact setCloexec_wp hk fd _
        · split
          · exact Post.same hk
          · exact Post.same hk

/-! ### Pairs of ends -/

theorem KernelOk.addPair (d₁ d₂ : FileDescription) (h₁ : d₁.refCount = 0)
    (h₂ : d₂.refCount = 0) (e₁ e₂ : DescEnd) : KernelOk (k.addPair d₁ d₂ e₁ e₂) := by
  refine ⟨⟨fun r => ?_, fun r hr => ?_⟩, hk.pids, fun r hr => ?_⟩
  · have hc := hk.fds.counts r
    have hv := hk.fds.valid r
    show (update (update k.fds.descs.objs k.fds.descs.next d₁)
      (k.fds.descs.next + 1) d₂ r).refCount = (k.fds.refs r : Int)
    by_cases hr₂ : r = k.fds.descs.next + 1
    · subst hr₂
      rw [update_self, h₂, hv (Nat.le_succ _)]
      rfl
    · rw [update_of_ne hr₂]
      by_cases hr₁ : r = k.fds.descs.next
      · subst hr₁
        rw [update_self, h₁, hv (Nat.le_refl _)]
        rfl
      · rw [update_of_ne hr₁]
        exact hc
  · exact hk.fds.valid r (Nat.le_trans (Nat.le_add_right _ 2) hr)
  · have hr' : k.fds.descs.next + 2 ≤ r := hr
    show update (update k.ends _ _) _ _ r = none
    rw [update_of_ne (by omega), update_of_ne (by omega)]
    exact hk.ends r (by omega)

end

/-- One more descriptor of a description. -/
theorem live_added
    (hg : k.fds.get pid = some t) (hs : ∀ x, s.2.refs x = t.refs x + if r = x then 1 else 0)
    (x : Nat) :
    ({ k with fds := k.fds.setTable pid s } : KernelImpl).Live x ↔ k.Live x ∨ x = r := by
  have h₁ := refs_setTable hg s x
  rw [hs, ← Nat.add_assoc, Nat.add_right_comm] at h₁
  rw [Live, Live, Nat.add_right_cancel h₁]
  split
  · rename_i hr
    exact ⟨fun _ => .inr hr.symm, fun _ => Nat.succ_pos _⟩
  · rename_i hr
    exact ⟨.inl, fun h => h.resolve_right fun e => hr e.symm⟩

theorem openWith_ok
    (hk : KernelOk k) (hg : k.fds.get pid = some t) (hr : r < k.fds.descs.next)
    (hb : Balanced k.fds.descs t s)
    (hs : ∀ x, s.2.refs x = t.refs x + if r = x then 1 else 0) :
    KernelOk { k with fds := k.fds.setTable pid s } := by
  refine hk.setTable hg hb fun x hx => ?_
  rw [hs, hk.fds.table_valid hg x hx, if_neg (by omega)]

/-- What `openPair` leaves, whether it returns or not. -/
def PairOpened (k : KernelImpl) (r : Nat) (o₁ o₂ : Bool) (k' : KernelImpl) : Prop :=
  KernelOk k' ∧ Keeps k k' ∧ SameManagers k k' ∧
    ∀ x, k'.Live x ↔ k.Live x ∨ (o₁ = true ∧ x = r) ∨ (o₂ = true ∧ x = r + 1)

variable (hk : KernelOk k)
include hk

theorem openPair_wp {filetype : Nat} (hr : r + 1 < k.fds.descs.next) :
    (openPair pid r filetype).wp k (fun _ k' => PairOpened k r true true k')
      fun _ k' => ∃ o₁ o₂, PairOpened k r o₁ o₂ k' := by
  rw [openPair, wp_bind]
  refine onTable_wp (fun t fd s hg ho => ?_) fun e =>
    ⟨false, false, hk, .refl k, .refl k, fun x => by simp⟩
  obtain ⟨hb, hs⟩ := openWith_spec ho
  have hk₁ := openWith_ok hk hg (Nat.lt_of_succ_lt hr) hb hs
  have hl₁ := live_added hg hs
  rw [wp_bind]
  refine onTable_wp (fun t' fd' s' hg' ho' => ?_) fun e =>
    ⟨true, false, hk₁, keeps_setTable hb, ⟨rfl, rfl, rfl, rfl⟩, fun x => by simp [hl₁]⟩
  obtain ⟨hb', hs'⟩ := openWith_spec ho'
  have hr' : r + 1 < (k.fds.setTable pid s).descs.next := hb.only.next ▸ hr
  refine ⟨openWith_ok hk₁ hg' hr' hb' hs', (keeps_setTable hb).trans (keeps_setTable hb'),
    ⟨rfl, rfl, rfl, rfl⟩, fun x => ?_⟩
  rw [live_added hg' hs', hl₁]
  simp [or_assoc]

theorem createPipe_ok : KernelOk k.createPipe := by
  have h := hk.addPair k.pipes.createPipe.1 k.pipes.createPipe.2.1 rfl rfl
    (.pipe ⟨k.pipes.nextPipeId, .read⟩) (.pipe ⟨k.pipes.nextPipeId, .write⟩)
  exact ⟨h.fds, h.pids, h.ends⟩

theorem createPty_ok : KernelOk k.createPty := by
  have h := hk.addPair k.ptys.createPty.1 k.ptys.createPty.2.1 rfl rfl
    (.pty ⟨k.ptys.nextPtyId, .master⟩) (.pty ⟨k.ptys.nextPtyId, .slave⟩)
  exact ⟨h.fds, h.pids, h.ends⟩

variable (driver : String)

theorem pipe_wp :
    (pipe driver pid).wp k (fun _ k' => Post k (.pipe driver pid) true k')
      fun _ k' => Post k (.pipe driver pid) false k' := by
  rw [pipe, wp_bind]
  refine assertOwns_wp ?_ fun e => .same hk
  rw [wp_bind]
  refine getTable_wp (fun t ht => ?_) fun e => .same hk
  simp only [createPipeFDs, wp_bind, wp_read, wp_update]
  refine wp_mono (openPair_wp (createPipe_ok hk) (Nat.lt_succ_self _))
    (fun _ k' h => ?_) fun _ k' h => ?_
  · exact ⟨h.1, .paired _ true true (.inl ⟨rfl, rfl⟩) h.2.1 h.2.2.1 h.2.2.2
      fun _ => ⟨rfl, rfl⟩⟩
  · obtain ⟨o₁, o₂, h⟩ := h
    exact ⟨h.1, .paired _ o₁ o₂ (.inl ⟨rfl, rfl⟩) h.2.1 h.2.2.1 h.2.2.2 (fun hf => by cases hf)⟩

theorem openpty_wp :
    (openpty driver pid).wp k (fun _ k' => Post k (.openpty driver pid) true k')
      fun _ k' => Post k (.openpty driver pid) false k' := by
  rw [openpty, wp_bind]
  refine assertOwns_wp ?_ fun e => .same hk
  rw [wp_bind]
  refine getTable_wp (fun t ht => ?_) fun e => .same hk
  simp only [createPtyFDs, wp_bind, wp_read, wp_update]
  refine wp_mono (openPair_wp (createPty_ok hk) (Nat.lt_succ_self _))
    (fun _ k' h => ?_) fun _ k' h => ?_
  · exact ⟨h.1, .paired _ true true (.inr ⟨rfl, rfl⟩) h.2.1 h.2.2.1 h.2.2.2
      fun _ => ⟨rfl, rfl⟩⟩
  · obtain ⟨o₁, o₂, h⟩ := h
    exact ⟨h.1, .paired _ o₁ o₂ (.inr ⟨rfl, rfl⟩) h.2.1 h.2.2.1 h.2.2.2 (fun hf => by cases hf)⟩

/-! ### Locks -/

theorem flock_wp (fd : Nat) (operation : BitVec 32) :
    (flock driver pid fd operation).wp k (fun _ k' => Post k a true k')
      fun _ k' => Post k a false k' := by
  rw [flock, wp_bind]
  refine assertOwns_wp ?_ fun e => .same hk
  rw [wp_bind]
  refine getEntry_wp (fun t e ht he => ?_) fun e => .same hk
  simp only [wp_bind, wp_read, wp_update]
  have hpost : ∀ b, Post k a b { k with locks := (k.locks.flock (k.desc e.description).path
      (k.desc e.description).id operation).2 } := fun b =>
    ⟨⟨hk.fds, hk.pids, hk.ends⟩, .locked e.description operation (.of_entry ht he) rfl⟩
  split
  · exact hpost false
  · exact hpost true

end KernelImpl

end SecureExec.Kernel
