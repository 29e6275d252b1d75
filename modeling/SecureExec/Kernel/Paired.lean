import SecureExec.Kernel.FdLimit
import SecureExec.Kernel.RefCount
import SecureExec.Socket.Table

/-!
# Kernel — Paired — creation of two ends

`pipe`, `openpty` and `socketpair` make two things one after the other.  When the limit comes between
the two, or behind the pipe or PTY that both descriptors are for, what was made stays.

* `PairRoom`, `roomForTwo`: there is room for both, or the call does not come as far as the first.
* `paired_creation_iff`: exactly then a call that throws has left nothing.
-/

namespace SecureExec.Kernel
open SecureExec Prog ProcessFDTable

/-! ### Pipes and terminals -/

theorem ProcessFDTable.openWith_full {t : ProcessFDTable}
    (hs : MAX_FDS_PER_PROCESS ≤ t.entries.size) (h : Descs) (description filetype : Nat) :
    openWith h t description filetype = .error emfile := by
  rw [openWith, allocateFd, if_pos hs]
  rfl

theorem ProcessFDTable.openWith_room {t : ProcessFDTable}
    (hs : t.entries.size < MAX_FDS_PER_PROCESS) (h : Descs) (description filetype : Nat) :
    ∃ r, openWith h t description filetype = .ok r := by
  rw [openWith, allocateFd, if_neg (Nat.not_le.mpr hs)]
  exact ⟨_, rfl⟩

namespace KernelImpl

variable {α : Type} {k : KernelImpl} {driver : String} {pid : Nat} {t : ProcessFDTable}

/-- A call has left nothing that it made, and the tables and maps are what they were. -/
structure NothingLeft (k k' : KernelImpl) : Prop where
  tables : k'.fds.tables = k.fds.tables
  descs : ∀ r, r < k.fds.descs.next → k'.desc r = k.desc r
  pipes : k'.pipes.pipes = k.pipes.pipes
  pipeEnds : k'.pipes.descToPipe = k.pipes.descToPipe
  ptys : k'.ptys.ptys = k.ptys.ptys
  ptyEnds : k'.ptys.descToPty = k.ptys.descToPty
  madePipes : ∀ id, k.pipes.nextPipeId ≤ id → id < k'.pipes.nextPipeId → k'.pipes.pipes id = false
  madePtys : ∀ id, k.ptys.nextPtyId ≤ id → id < k'.ptys.nextPtyId → k'.ptys.ptys id = false

theorem NothingLeft.refl (k : KernelImpl) : NothingLeft k k where
  tables := rfl
  descs := fun _ _ => rfl
  pipes := rfl
  pipeEnds := rfl
  ptys := rfl
  ptyEnds := rfl
  madePipes := fun _ h₁ h₂ => absurd h₂ (Nat.not_lt.mpr h₁)
  madePtys := fun _ h₁ h₂ => absurd h₂ (Nat.not_lt.mpr h₁)

/-- The table has room for two descriptors, when the call comes as far as the table. -/
def PairRoom (k : KernelImpl) (driver : String) (pid : Nat) : Prop :=
  k.owns driver pid = true → ∀ t, k.fds.get pid = some t →
    t.entries.size + 2 ≤ MAX_FDS_PER_PROCESS

theorem getTable_some (hg : k.fds.get pid = some t) : (getTable pid).exec k = (.ok t, k) := by
  simp only [getTable, exec_bind, exec_read, hg, exec_pure]

theorem getTable_none (hg : k.fds.get pid = none) : (getTable pid).exec k =
    (.error (.kernelError .ESRCH ("no FD table for PID " ++ toString pid)), k) := by
  simp only [getTable, exec_bind, exec_read, hg, exec_throw]

theorem assertOwns_owner (ho : k.owns driver pid = true) :
    (assertOwns driver pid).exec k = (.ok (), k) := by
  simp only [assertOwns, exec_bind, exec_read, ho, if_true, exec_pure]

theorem assertOwns_other (ho : k.owns driver pid = false) :
    ∃ e, (assertOwns driver pid).exec k = (.error e, k) := by
  simp only [assertOwns, exec_bind, exec_read, ho, Bool.false_eq_true, if_false]
  split
  · exact ⟨_, rfl⟩
  · exact ⟨_, rfl⟩

section

variable (hg : k.fds.get pid = some t)
include hg

variable {f : Descs → ProcessFDTable → Except Failure (α × Descs × ProcessFDTable)}

theorem onTable_ok {r : α × Descs × ProcessFDTable} (hf : f k.fds.descs t = .ok r) :
    (onTable pid f).exec k = (.ok r.1, { k with fds := k.fds.setTable pid r.2 }) := by
  simp only [onTable, exec_bind, getTable_some hg, exec_read, hf, exec_lift,
    exec_update, exec_pure]

theorem onTable_error {e : Failure}
    (hf : f k.fds.descs t = .error e) : (onTable pid f).exec k = (.error e, k) := by
  simp only [onTable, exec_bind, getTable_some hg, exec_read, hf, exec_lift]

/-- The two descriptors when the table has room for them. -/
theorem openPair_room (hs : t.entries.size + 2 ≤ MAX_FDS_PER_PROCESS) (r filetype : Nat) :
    ∃ fds k', (openPair pid r filetype).exec k = (.ok fds, k') := by
  obtain ⟨a, ha⟩ := openWith_room (Nat.lt_of_succ_lt hs) k.fds.descs r filetype
  have hs₁ : a.2.2.entries.size < MAX_FDS_PER_PROCESS := by
    rw [(openWith_allocated ha).size]
    exact hs
  obtain ⟨b, hb⟩ := openWith_room hs₁ a.2.1 (r + 1) filetype
  let k₁ : KernelImpl := { k with fds := k.fds.setTable pid a.2 }
  have hg₁ : k₁.fds.get pid = some a.2.2 := k.fds.get_setTable_self pid a.2
  refine ⟨(a.1, b.1), { k₁ with fds := k₁.fds.setTable pid b.2 }, ?_⟩
  rw [openPair, exec_bind, onTable_ok hg ha]
  dsimp only
  rw [exec_bind, onTable_ok hg₁ hb]
  rfl

/-- A table that is too full for both: the call throws, and the managers stay. -/
theorem openPair_full (hs : ¬ t.entries.size + 2 ≤ MAX_FDS_PER_PROCESS) (r filetype : Nat) :
    ∃ e k', (openPair pid r filetype).exec k = (.error e, k') ∧ k'.pipes = k.pipes ∧
      k'.ptys = k.ptys := by
  rw [openPair, exec_bind]
  cases ha : openWith k.fds.descs t r filetype with
  | error e =>
      refine ⟨e, k, ?_, rfl, rfl⟩
      rw [onTable_error hg ha]
  | ok a =>
      have hs₁ : MAX_FDS_PER_PROCESS ≤ a.2.2.entries.size := by
        rw [(openWith_allocated ha).size]
        exact Nat.le_of_lt_succ (Nat.not_le.mp hs)
      let k₁ : KernelImpl := { k with fds := k.fds.setTable pid a.2 }
      have hg₁ : k₁.fds.get pid = some a.2.2 := k.fds.get_setTable_self pid a.2
      have hb := openWith_full hs₁ a.2.1 (r + 1) filetype
      refine ⟨emfile, k₁, ?_, rfl, rfl⟩
      rw [onTable_ok hg ha]
      dsimp only
      rw [exec_bind, onTable_error hg₁ hb]

end

/-- A call of the owner that makes a pair in a table, and what it makes the pair with. -/
theorem paired_iff (create : KernelImpl → KernelImpl) {filetype : Nat}
    (hfds : ∀ k pid, (create k).fds.get pid = k.fds.get pid)
    (hleft : ∀ k k' : KernelImpl, k'.pipes = (create k).pipes → k'.ptys = (create k).ptys →
      ¬ NothingLeft k k') :
    (∀ e k', ((do
        assertOwns driver pid
        let _ ← getTable pid
        let r ← read (·.fds.descs.next)
        update create
        openPair pid r filetype : Sys (Nat × Nat))).exec k = (.error e, k') → NothingLeft k k') ↔
      PairRoom k driver pid := by
  cases ho : k.owns driver pid with
  | false =>
      obtain ⟨e', he'⟩ := assertOwns_other ho
      refine iff_of_true (fun e k' he => ?_) fun h => by rw [ho] at h; cases h
      rw [exec_bind, he'] at he
      cases he
      exact .refl k
  | true =>
      have hown := assertOwns_owner ho
      cases hg : k.fds.get pid with
      | none =>
          refine iff_of_true (fun e k' he => ?_) fun _ t ht => by rw [hg] at ht; cases ht
          simp only [exec_bind, hown, getTable_none hg] at he
          cases he
          exact .refl k
      | some t =>
          have hg' := (hfds k pid).trans hg
          have hex : ((do
              assertOwns driver pid
              let _ ← getTable pid
              let r ← read (·.fds.descs.next)
              update create
              openPair pid r filetype : Sys (Nat × Nat))).exec k =
              (openPair pid k.fds.descs.next filetype).exec (create k) := by
            simp only [exec_bind, hown, getTable_some hg, exec_read, exec_update]
          rw [hex]
          constructor
          · intro h _ t' ht'
            rw [hg] at ht'
            cases ht'
            refine Decidable.byContradiction fun hs => ?_
            obtain ⟨e, k', he, hp, hq⟩ := openPair_full hg' hs k.fds.descs.next filetype
            exact hleft k k' hp hq (h e k' he)
          · intro h e k' he
            obtain ⟨fds, k'', hk⟩ := openPair_room hg' (h ho t hg) k.fds.descs.next filetype
            rw [hk] at he
            cases he

theorem pipe_iff : (∀ e k', (pipe driver pid).exec k = (.error e, k') → NothingLeft k k') ↔
    PairRoom k driver pid := by
  refine paired_iff createPipe (fun _ _ => rfl) fun k k' hp _ hl => ?_
  have hmade := hl.madePipes k.pipes.nextPipeId (Nat.le_refl _) (by
    rw [hp]
    exact Nat.lt_succ_self _)
  rw [hp] at hmade
  have hself : k.createPipe.pipes.pipes k.pipes.nextPipeId = true := Function.update_self ..
  rw [hself] at hmade
  cases hmade

theorem openpty_iff : (∀ e k', (openpty driver pid).exec k = (.error e, k') → NothingLeft k k') ↔
    PairRoom k driver pid := by
  refine paired_iff createPty (fun _ _ => rfl) fun k k' _ hp hl => ?_
  have hmade := hl.madePtys k.ptys.nextPtyId (Nat.le_refl _) (by
    rw [hp]
    exact Nat.lt_succ_self _)
  rw [hp] at hmade
  have hself : k.createPty.ptys.ptys k.ptys.nextPtyId = true := Function.update_self ..
  rw [hself] at hmade
  cases hmade

end KernelImpl

/-! ### Sockets -/

end SecureExec.Kernel

namespace SecureExec.Socket.SocketTable
open Kernel

variable {t : SocketTable} {domain type protocol pid : Nat} {known : Bool}

/-- The table has the sockets it had, as they were. -/
structure SameSockets (t t' : SocketTable) : Prop where
  sockets : t'.sockets = t.sockets
  objs : ∀ id ∈ t.sockets, t'.objs id = t.objs id

/-- There is no room, or room for two, when the process is known. -/
def roomForTwo (t : SocketTable) (known : Bool) : Prop :=
  known = true → t.sockets.length + 1 ≠ t.maxSockets

theorem create_full (hs : t.maxSockets ≤ t.sockets.length) :
    (create domain type protocol pid known).exec t =
      (.error (.kernelError .EMFILE "too many open sockets"), t) := by
  rw [create, Prog.exec_bind, Prog.exec_read]
  dsimp only [id]
  rw [if_pos hs]
  rfl

theorem create_unknown (hs : t.sockets.length < t.maxSockets) :
    (create domain type protocol pid false).exec t =
      (.error (.kernelError .ESRCH ("cannot create socket for unknown pid " ++ toString pid)),
        t) := by
  rw [create, Prog.exec_bind, Prog.exec_read]
  dsimp only [id]
  rw [if_neg (Nat.not_le.mpr hs)]
  rfl

theorem create_room (hs : t.sockets.length < t.maxSockets) :
    (create domain type protocol pid true).exec t =
      (.ok t.nextSocketId, t.add (.new domain type protocol pid)) := by
  rw [create, Prog.exec_bind, Prog.exec_read]
  dsimp only [id]
  rw [if_neg (Nat.not_le.mpr hs)]
  rfl

theorem length_add (t : SocketTable) (s : KernelSocket) :
    (t.add s).sockets.length = t.sockets.length + 1 := by
  rw [add, List.length_append, List.length_singleton]

theorem socketpair_iff :
    (∀ e t', (socketpair domain type protocol pid known).exec t = (.error e, t') →
      SameSockets t t') ↔ t.roomForTwo known := by
  have hsame : ∀ {e : Failure} {e' t'},
      ((.error e, t) : Except Failure (Nat × Nat) × SocketTable) = (.error e', t') →
        SameSockets t t' := by
    intro e e' t' he
    cases he
    exact ⟨rfl, fun _ _ => rfl⟩
  rcases Nat.lt_or_ge t.sockets.length t.maxSockets with hs | hs
  · cases known with
    | false =>
        refine iff_of_true (fun e t' he => ?_) fun hk => (by cases hk)
        rw [socketpair, Prog.exec_bind, create_unknown hs] at he
        exact hsame he
    | true =>
        have hlen := t.length_add (.new domain type protocol pid)
        rcases Nat.lt_or_ge (t.add (.new domain type protocol pid)).sockets.length t.maxSockets
          with hs₁ | hs₁
        · refine iff_of_true (fun e t' he => ?_) fun _ => ?_
          · rw [socketpair, Prog.exec_bind, create_room hs] at he
            dsimp only at he
            rw [Prog.exec_bind, create_room (t := t.add _) hs₁] at he
            cases he
          · rw [← hlen]
            exact Nat.ne_of_lt hs₁
        · have hfull : t.sockets.length + 1 = t.maxSockets :=
            Nat.le_antisymm hs (hlen ▸ hs₁)
          refine iff_of_false (fun h => ?_) fun h => h rfl hfull
          have he : (socketpair domain type protocol pid true).exec t =
              (.error (.kernelError .EMFILE "too many open sockets"),
                t.add (.new domain type protocol pid)) := by
            rw [socketpair, Prog.exec_bind, create_room hs]
            dsimp only
            rw [Prog.exec_bind, create_full (t := t.add _) hs₁]
          have hl := congrArg List.length (h _ _ he).sockets
          rw [hlen] at hl
          exact Nat.succ_ne_self _ hl
  · refine iff_of_true (fun e t' he => ?_) fun _ => ?_
    · rw [socketpair, Prog.exec_bind, create_full hs] at he
      exact hsame he
    · exact Nat.ne_of_gt (Nat.lt_succ_of_le hs)

end SecureExec.Socket.SocketTable

namespace SecureExec.Kernel
open Socket Lts

/-- **Paired creation.**  A call that throws has left nothing exactly when there is room for both
halves, or the first is not made. -/
theorem paired_creation_iff (k : KernelImpl) (driver : String) (pid : Nat) (t : SocketTable)
    (domain type protocol owner : Nat) (known : Bool) :
    ((∀ e k', (KernelImpl.pipe driver pid).exec k = (.error e, k') → k.NothingLeft k') ↔
      k.PairRoom driver pid) ∧
    ((∀ e k', (KernelImpl.openpty driver pid).exec k = (.error e, k') → k.NothingLeft k') ↔
      k.PairRoom driver pid) ∧
    ((∀ e t', (SocketTable.socketpair domain type protocol owner known).exec t = (.error e, t') →
      t.SameSockets t') ↔ t.roomForTwo known) :=
  ⟨KernelImpl.pipe_iff, KernelImpl.openpty_iff, SocketTable.socketpair_iff⟩

/-- A process whose table is filled by calls of `fdDup`. -/
theorem KernelImpl.reach_filled {n : Nat} (hn : 3 ≤ n) (hm : n ≤ MAX_FDS_PER_PROCESS) :
    ∃ k t, Reach KernelImpl.step Any (.boot [("sh", ["sh"])] none) k ∧ k.owns "sh" 1 = true ∧
      k.fds.get 1 = some t ∧ t.Filled n := by
  induction n, hn using Nat.le_induction with
  | base =>
      exact ⟨_, _, .one (a := .spawn "sh" ⟨none, none, none⟩ answered) trivial rfl, rfl, rfl, rfl,
        rfl, Nat.succ_pos 2⟩
  | succ n hn ih =>
      obtain ⟨k, t, hr, ho, hg, ht⟩ := ih (Nat.le_of_succ_le hm)
      obtain ⟨s, hs, hf⟩ := ht.dup hm k.fds.descs
      have hd : (fdDup "sh" 1 0).exec k = (.ok n, { k with fds := k.fds.setTable 1 s }) := by
        rw [fdDup, Prog.exec_bind, assertOwns_owner ho]
        exact onTable_ok (f := fun h t => ProcessFDTable.dup h t 0) hg hs
      have hp : (perform (.fdDup "sh" 1 0)).Returns k
          fun _ k' => k' = { k with fds := k.fds.setTable 1 s } :=
        Prog.wp_map.mpr (Prog.returns_iff.mpr ⟨n, _, hd, rfl⟩)
      exact ⟨_, s.2, hr.next trivial (step_of_returns (by simp) hp).2, ho,
        k.fds.get_setTable_self 1 s, hf⟩

/-- **A half is left.**  With room for one descriptor `pipe` and `openpty` leave their first, and
with room for one socket `socketpair` does. -/
theorem paired_creation_fails :
    (∃ k, Reach KernelImpl.step Any (.boot [("sh", ["sh"])] none) k ∧
      (∃ e k', (KernelImpl.pipe "sh" 1).exec k = (.error e, k') ∧ ¬ k.NothingLeft k') ∧
      ∃ e k', (KernelImpl.openpty "sh" 1).exec k = (.error e, k') ∧ ¬ k.NothingLeft k') ∧
    ∃ e t', (SocketTable.socketpair 1 SOCK_STREAM 0 7 true).exec (.new 1 false false) =
      (.error e, t') ∧ t'.sockets = [1] ∧ ¬ SocketTable.SameSockets (.new 1 false false) t' := by
  obtain ⟨k, t, hr, ho, hg, ht⟩ := KernelImpl.reach_filled (n := 255) (by decide) (by decide)
  have hno : ¬ k.PairRoom "sh" 1 := fun h => by
    have hs := h ho t hg
    rw [ht.size] at hs
    exact absurd hs (by decide)
  refine ⟨⟨k, hr, ?_, ?_⟩, _, _, rfl, rfl, fun h => ?_⟩
  · have hp := mt KernelImpl.pipe_iff.mp hno
    push Not at hp
    exact hp
  · have hp := mt KernelImpl.openpty_iff.mp hno
    push Not at hp
    exact hp
  · cases h.sockets

end SecureExec.Kernel
