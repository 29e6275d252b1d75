import SecureExec.Process.ExitStatus

/-!
# Process — Waiters — every waiter is answered once

A `waitpid` on a process that has not exited queues a promise; `markExited` answers the queue when
it is nearly done, and a `waitpid` after that is answered at once.  A promise is in one queue or was
answered once (`CallState`), and a queue of a process that has exited is on its way to be answered:
its `markExited` is still on the stack (`Calls.served`).  Together with `Exits` this is the result
about every run, `statusFinal_of_keepsStatus`.
-/

namespace SecureExec.Process
open Function Machine

/-- A call that was not made, that waits in one queue, or that was answered once. -/
inductive CallState (m : Machine) (call : Nat) : Prop where
  | fresh (hn : m.nextCall ≤ call) (ha : m.answers call = 0) (hw : ∀ p, call ∉ m.waiters p)
  | waits (pid : Nat) (hn : call < m.nextCall) (ha : m.answers call = 0)
      (hw : (m.waiters pid).count call = 1) (ho : ∀ q, q ≠ pid → call ∉ m.waiters q)
  | answered (hn : call < m.nextCall) (ha : m.answers call = 1) (hw : ∀ p, call ∉ m.waiters p)

/-- Is it a frame of the `markExited` of `pid`? -/
def Frame.exitOf (pid : Nat) : Frame → Bool
  | exitHook p _ | notify p _ => p == pid
  | _ => false

/-- The calls of `waitpid`. -/
structure Calls (m : Machine) : Prop where
  state : ∀ call, CallState m call
  /-- A wait is in the log from the time it is made. -/
  made : ∀ call pid, .waiting call pid ∈ m.log → call < m.nextCall
  /-- It is still in the queue of its process, or was answered for it. -/
  own : ∀ call pid, .waiting call pid ∈ m.log → call ∈ m.waiters pid ∨
    0 < m.answers call ∧ ∀ info, .answered call info ∈ m.log → info.pid = pid
  /-- A queue belongs to a process that has not exited, or whose `markExited` is on the stack. -/
  served : ∀ pid, m.waiters pid ≠ [] → ∃ e, m.entries.get pid = some e ∧
    (e.live ∨ ∃ f ∈ m.stack, f.exitOf pid)

section

variable {m m' : Machine} {pid call : Nat} {e : ProcessEntry}

theorem answers_pos {info : WaitInfo} (h : .answered call info ∈ m.log) : 0 < m.answers call :=
  List.countP_pos_iff.mpr ⟨_, h, by simp [Event.answers]⟩

theorem exits_of_exitOf {f : Frame} (h : f.exitOf pid) : f.exits := by
  cases f <;> first | rfl | cases h

/-- The state of a call depends on the log, the queues and the counter. -/
theorem CallState.congr (h : CallState m call) (ha : m'.answers call = m.answers call)
    (hw : m'.waiters = m.waiters) (hn : m'.nextCall = m.nextCall) : CallState m' call := by
  cases h with
  | fresh hn' ha' hw' => exact .fresh (hn ▸ hn') (ha.trans ha') (hw ▸ hw')
  | waits pid hn' ha' hw' ho => exact .waits pid (hn ▸ hn') (ha.trans ha') (hw ▸ hw') (hw ▸ ho)
  | answered hn' ha' hw' => exact .answered (hn ▸ hn') (ha.trans ha') (hw ▸ hw')

namespace Calls

theorem boot (max : Option Nat) : Calls (.boot max) :=
  ⟨fun _ => .fresh (Nat.zero_le _) rfl fun _ => nofun, nofun, nofun, fun _ h => absurd rfl h⟩

section

variable (hi : Calls m)
include hi

/-- A step that makes no call and answers none. -/
theorem silent {n : List Event} (hl : m'.log = m.log ++ n)
    (hev : ∀ ev ∈ n, (∀ c, ev.answers c = false) ∧ ∀ c p, ev ≠ .waiting c p)
    (hw : m'.waiters = m.waiters) (hn : m'.nextCall = m.nextCall)
    (hs : ∀ pid, m.waiters pid ≠ [] → ∃ e, m'.entries.get pid = some e ∧
      (e.live ∨ ∃ f ∈ m'.stack, f.exitOf pid)) : Calls m' := by
  have hans : ∀ c, m'.answers c = m.answers c := fun c => by
    have h0 : n.countP (·.answers c) = 0 :=
      List.countP_eq_zero.mpr fun ev h ha => by simp [(hev ev h).1 c] at ha
    rw [answers, hl, List.countP_append, h0]
    rfl
  have hback : ∀ {ev : Event}, ev ∈ m'.log → ev ∉ n → ev ∈ m.log := fun h hnot =>
    (List.mem_append.mp (hl ▸ h)).resolve_right hnot
  have hmem : ∀ {c p}, .waiting c p ∈ m'.log → .waiting c p ∈ m.log := fun h =>
    hback h fun h => (hev _ h).2 _ _ rfl
  refine ⟨fun c => (hi.state c).congr (hans c) hw hn, fun c p h => hn ▸ hi.made c p (hmem h),
    fun c p h => ?_, hw ▸ hs⟩
  rw [hw, hans]
  refine (hi.own c p (hmem h)).imp_right fun ho => ⟨ho.1, fun info ha => ho.2 info (hback ha ?_)⟩
  exact fun ha => by simpa [Event.answers] using (hev _ ha).1 c

theorem calm (h : Calm m m') : Calls m' := by
  obtain ⟨n, hn, hc⟩ := h.log
  refine hi.silent hn (fun ev hev => ?_) h.waiters h.nextCall fun pid hw => ?_
  · have hev := hc ev hev
    cases ev with
    | exited | waiting | answered => cases hev
    | _ => exact ⟨fun _ => rfl, nofun⟩
  · obtain ⟨e, he, hs⟩ := hi.served pid hw
    obtain ⟨e', he', hf⟩ := h.get' he
    refine ⟨e', he', hs.imp (fun hl => hf.live.trans hl) ?_⟩
    rintro ⟨f, hm, hx⟩
    exact ⟨f, (h.frames f (exits_of_exitOf hx)).mpr hm, hx⟩

/-- `markExited`, up to its hook. -/
theorem exit (exitCode : Int) :
    Calls (((m.setEntry pid (e.exit exitCode)).emit (.exited pid exitCode e.termSignal)).push
      (.exitHook pid (e.exit exitCode).wstatus)) := by
  refine hi.silent rfl (fun ev hev => ?_) rfl rfl fun p hw => ?_
  · rw [List.mem_singleton.mp hev]
    exact ⟨fun _ => rfl, nofun⟩
  · by_cases hp : p = pid
    · subst hp
      exact ⟨_, OMap.get_set_self _ p _, .inr ⟨_, List.mem_cons_self, by simp [Frame.exitOf]⟩⟩
    · obtain ⟨f, hf, hs⟩ := hi.served p hw
      refine ⟨f, by rwa [push, emit, setEntry, OMap.get_set_other _ hp],
        hs.imp_right ?_⟩
      rintro ⟨g, hm, hx⟩
      exact ⟨g, List.mem_cons_of_mem _ hm, hx⟩

/-- A call that is answered at once. -/
theorem asked (info : WaitInfo) :
    Calls { m.emit (.answered m.nextCall info) with nextCall := m.nextCall + 1 } := by
  have hans : ∀ c, ({ m.emit (.answered m.nextCall info) with
      nextCall := m.nextCall + 1 } : Machine).answers c =
        m.answers c + if m.nextCall = c then 1 else 0 := by
    intro c
    simp [answers, emit, Event.answers, List.countP_cons]
  refine ⟨fun c => ?_, ?_, ?_, hi.served⟩
  · by_cases hc : m.nextCall = c
    · subst hc
      cases hi.state m.nextCall with
      | fresh hn ha hw =>
          exact .answered (Nat.lt_succ_self _) (by rw [hans, ha, if_pos rfl]) hw
      | waits pid hn => exact absurd hn (Nat.lt_irrefl _)
      | answered hn => exact absurd hn (Nat.lt_irrefl _)
    · have hsame := hans c
      rw [if_neg hc] at hsame
      cases hi.state c with
      | fresh hn ha hw =>
          exact .fresh (Nat.succ_le_of_lt (Nat.lt_of_le_of_ne hn hc)) (hsame.trans ha) hw
      | waits pid hn ha hw ho =>
          exact .waits pid (Nat.lt_succ_of_lt hn) (hsame.trans ha) hw ho
      | answered hn ha hw => exact .answered (Nat.lt_succ_of_lt hn) (hsame.trans ha) hw
  · intro c p hw
    have hw := (List.mem_append.mp hw).resolve_right fun h => by cases List.mem_singleton.mp h
    exact Nat.lt_succ_of_lt (hi.made c p hw)
  · intro c p hw
    have hw := (List.mem_append.mp hw).resolve_right fun h => by cases List.mem_singleton.mp h
    refine (hi.own c p hw).imp_right fun ho => ⟨?_, fun i ha => ?_⟩
    · rw [hans]
      exact Nat.lt_of_lt_of_le ho.1 (Nat.le_add_right _ _)
    · rcases List.mem_append.mp ha with ha | ha
      · exact ho.2 i ha
      · cases List.mem_singleton.mp ha
        exact absurd (hi.made _ p hw) (Nat.lt_irrefl _)

/-- A call that waits. -/
theorem waits (he : m.entries.get pid = some e) (hl : e.live) :
    Calls { m.emit (.waiting m.nextCall pid) with
      nextCall := m.nextCall + 1
      waiters := update m.waiters pid (m.waiters pid ++ [m.nextCall]) } := by
  generalize hm' : ({ m.emit (.waiting m.nextCall pid) with
      nextCall := m.nextCall + 1
      waiters := update m.waiters pid (m.waiters pid ++ [m.nextCall]) } : Machine) = m'
  have hlog : m'.log = m.log ++ [.waiting m.nextCall pid] := by rw [← hm']; rfl
  have hw' : m'.waiters = update m.waiters pid (m.waiters pid ++ [m.nextCall]) := by
    rw [← hm']
  have hn' : m'.nextCall = m.nextCall + 1 := by rw [← hm']
  have hent : m'.entries = m.entries := by rw [← hm']; rfl
  have hst : m'.stack = m.stack := by rw [← hm']; rfl
  have hans : ∀ c, m'.answers c = m.answers c := by
    intro c
    simp [answers, hlog, Event.answers]
  have hqueue : ∀ c q, c ≠ m.nextCall → (m'.waiters q).count c = (m.waiters q).count c := by
    intro c q hc
    rw [hw', update_apply]
    split
    · rename_i hq
      subst hq
      rw [List.count_append, List.count_singleton]
      simp [Ne.symm hc]
    · rfl
  have hmem : ∀ c q, c ≠ m.nextCall → (c ∈ m'.waiters q ↔ c ∈ m.waiters q) := by
    intro c q hc
    rw [← List.count_pos_iff, ← List.count_pos_iff, hqueue c q hc]
  refine ⟨fun c => ?_, ?_, ?_, ?_⟩
  · by_cases hc : c = m.nextCall
    · subst hc
      cases hi.state m.nextCall with
      | fresh hn ha hw =>
          refine .waits pid (hn' ▸ Nat.lt_succ_self _) ((hans _).trans ha) ?_ fun q hq => ?_
          · rw [hw', update_self, List.count_append, List.count_eq_zero.mpr (hw pid)]
            simp
          · rw [hw', update_of_ne hq]
            exact hw q
      | waits q hn => exact absurd hn (Nat.lt_irrefl _)
      | answered hn => exact absurd hn (Nat.lt_irrefl _)
    · cases hi.state c with
      | fresh hn ha hw =>
          refine .fresh ?_ ((hans c).trans ha) fun q => ?_
          · rw [hn']
            exact Nat.succ_le_of_lt (Nat.lt_of_le_of_ne hn (Ne.symm hc))
          · rw [hmem c q hc]
            exact hw q
      | waits q hn ha hw ho =>
          refine .waits q (hn' ▸ Nat.lt_succ_of_lt hn) ((hans c).trans ha)
            ((hqueue c q hc).trans hw) fun q' hq' => ?_
          rw [hmem c q' hc]
          exact ho q' hq'
      | answered hn ha hw =>
          refine .answered (hn' ▸ Nat.lt_succ_of_lt hn) ((hans c).trans ha) fun q => ?_
          rw [hmem c q hc]
          exact hw q
  · intro c p hw
    rw [hlog] at hw
    rw [hn']
    rcases List.mem_append.mp hw with hw | hw
    · exact Nat.lt_succ_of_lt (hi.made c p hw)
    · cases List.mem_singleton.mp hw
      exact Nat.lt_succ_self _
  · intro c p hw
    rw [hlog] at hw
    rcases List.mem_append.mp hw with hw | hw
    · have hc : c ≠ m.nextCall := Nat.ne_of_lt (hi.made c p hw)
      refine (hi.own c p hw).imp (hmem c p hc).mpr fun ho => ⟨(hans c).symm ▸ ho.1, fun i ha => ?_⟩
      rw [hlog] at ha
      exact ho.2 i ((List.mem_append.mp ha).resolve_right fun h => nomatch List.mem_singleton.mp h)
    · cases List.mem_singleton.mp hw
      refine .inl ?_
      rw [hw', update_self]
      exact List.mem_append_right _ (List.mem_singleton_self _)
  · intro p hp
    rw [hent, hst]
    by_cases hpp : p = pid
    · subst hpp
      exact ⟨e, he, .inl hl⟩
    · rw [hw', update_of_ne hpp] at hp
      exact hi.served p hp

end

variable {k : List Frame}

variable (hi : Calls m)
include hi

/-- The end of `markExited`: the queue is answered. -/
theorem notifyWaiters {wstatus : BitVec 32}
    (he : m.entries.get pid = some e) (hk : m.stack = .notify pid wstatus :: k) :
    Calls ({ m with stack := k }.notifyWaiters pid wstatus) := by
  generalize hm' : { m with stack := k }.notifyWaiters pid wstatus = m'
  have hdef : m' = { m with
      stack := k
      log := m.log ++ (m.waiters pid).map fun call => .answered call ⟨pid, wstatus, e.termSignal⟩
      waiters := update m.waiters pid []
      zombieTimers := m.zombieTimers.insert pid } := by
    rw [← hm', Machine.notifyWaiters]
    simp only [he]
  have hlog : m'.log = m.log ++ (m.waiters pid).map fun call =>
      .answered call ⟨pid, wstatus, e.termSignal⟩ := by rw [hdef]
  have hw' : m'.waiters = update m.waiters pid [] := by rw [hdef]
  have hn' : m'.nextCall = m.nextCall := by rw [hdef]
  have hent : m'.entries = m.entries := by rw [hdef]
  have hst : m'.stack = k := by rw [hdef]
  have hans : ∀ c, m'.answers c = m.answers c + (m.waiters pid).count c := by
    intro c
    rw [Machine.answers, hlog, List.countP_append, List.countP_map]
    rfl
  have hsub : ∀ c q, c ∈ m'.waiters q → c ∈ m.waiters q := by
    intro c q h
    rw [hw', update_apply] at h
    split at h
    · cases h
    · exact h
  refine ⟨fun c => ?_, ?_, ?_, ?_⟩
  · cases hi.state c with
    | fresh hn ha hw =>
        refine .fresh (hn' ▸ hn) ?_ fun q h => hw q (hsub c q h)
        rw [hans, ha, List.count_eq_zero.mpr (hw pid)]
    | waits q hn ha hw ho =>
        by_cases hq : q = pid
        · subst hq
          refine .answered (hn' ▸ hn) (by rw [hans, ha, hw]) fun p h => ?_
          by_cases hp : p = q
          · subst hp
            rw [hw', update_self] at h
            cases h
          · exact ho p hp (hsub c p h)
        · refine .waits q (hn' ▸ hn) ?_ ?_ fun p hp h => ho p hp (hsub c p h)
          · rw [hans, ha, List.count_eq_zero.mpr (ho pid (Ne.symm hq))]
          · rw [hw', update_of_ne hq]
            exact hw
    | answered hn ha hw =>
        refine .answered (hn' ▸ hn) ?_ fun q h => hw q (hsub c q h)
        rw [hans, ha, List.count_eq_zero.mpr (hw pid)]
  · intro c p hw
    rw [hlog] at hw
    rw [hn']
    rcases List.mem_append.mp hw with hw | hw
    · exact hi.made c p hw
    · obtain ⟨c', -, h⟩ := List.mem_map.mp hw
      cases h
  · intro c p hw
    have hold : .waiting c p ∈ m.log := by
      rw [hlog] at hw
      refine (List.mem_append.mp hw).resolve_right fun h => ?_
      obtain ⟨c', -, h⟩ := List.mem_map.mp h
      cases h
    have hanswered : ∀ info, .answered c info ∈ m'.log →
        .answered c info ∈ m.log ∨ c ∈ m.waiters pid ∧ info.pid = pid := by
      intro info h
      rw [hlog] at h
      refine (List.mem_append.mp h).imp_right fun h => ?_
      obtain ⟨c', hc', h⟩ := List.mem_map.mp h
      cases h
      exact ⟨hc', rfl⟩
    rcases hi.own c p hold with hmem | ⟨hpos, hown⟩
    · by_cases hp : p = pid
      · subst hp
        refine .inr ⟨?_, fun info h => ?_⟩
        · rw [hans]
          exact Nat.add_pos_right _ (List.count_pos_iff.mpr hmem)
        · rcases hanswered info h with h | h
          · have hpos := answers_pos h
            cases hi.state c with
            | fresh _ ha => rw [ha] at hpos; cases hpos
            | waits _ _ ha => rw [ha] at hpos; cases hpos
            | answered _ _ hw => exact absurd hmem (hw p)
          · exact h.2
      · refine .inl ?_
        rw [hw', update_of_ne hp]
        exact hmem
    · refine .inr ⟨?_, fun info h => ?_⟩
      · rw [hans]
        exact Nat.lt_of_lt_of_le hpos (Nat.le_add_right _ _)
      · rcases hanswered info h with h | ⟨hmem, -⟩
        · exact hown info h
        · -- answered already, so in no queue
          cases hi.state c with
          | fresh _ ha => rw [ha] at hpos; cases hpos
          | waits _ _ ha => rw [ha] at hpos; cases hpos
          | answered _ _ hw => exact absurd hmem (hw pid)
  · intro p hp
    by_cases hpp : p = pid
    · subst hpp
      rw [hw', update_self] at hp
      exact absurd rfl hp
    · rw [hw', update_of_ne hpp] at hp
      obtain ⟨f, hf, hs⟩ := hi.served p hp
      refine ⟨f, hent ▸ hf, hs.imp_right ?_⟩
      rintro ⟨g, hg, hx⟩
      rw [hk] at hg
      rcases List.mem_cons.mp hg with rfl | hg
      · exact absurd (beq_iff_eq.mp hx).symm hpp
      · exact ⟨g, hst ▸ hg, hx⟩

theorem hookReturned {wstatus : BitVec 32} (hk : m.stack = .exitHook pid wstatus :: k) :
    Calls ({ m with stack := k }.push (.notify pid wstatus)) := by
  refine ⟨fun c => (hi.state c).congr rfl rfl rfl, hi.made, hi.own, fun p hp => ?_⟩
  obtain ⟨f, hf, hs⟩ := hi.served p hp
  refine ⟨f, hf, hs.imp_right ?_⟩
  rintro ⟨g, hg, hx⟩
  rw [hk] at hg
  rcases List.mem_cons.mp hg with rfl | hg
  · exact ⟨_, List.mem_cons_self, hx⟩
  · exact ⟨g, List.mem_cons_of_mem _ hg, hx⟩

theorem registered {ppid : Nat} {driver : String} (hN : Named m)
    (hk : m.stack = .driverSpawn pid ppid driver :: k) :
    Calls ({ m with stack := k }.register pid ppid driver) := by
  refine ⟨fun c => (hi.state c).congr rfl rfl rfl, hi.made, hi.own, fun p hp => ?_⟩
  obtain ⟨f, hf, hs⟩ := hi.served p hp
  have hpp : p ≠ pid := by
    rintro rfl
    rw [hN.not_registered hk] at hf
    cases hf
  refine ⟨f, by rwa [register, setEntry, OMap.get_set_other _ hpp],
    hs.imp_right ?_⟩
  rintro ⟨g, hg, hx⟩
  rw [hk] at hg
  rcases List.mem_cons.mp hg with rfl | hg
  · cases hx
  · exact ⟨g, hg, hx⟩

theorem reaped (hk : m.stack = []) (he : m.entries.get pid = some e)
    (hl : e.live = false) :
    Calls ({ m with entries := m.entries.delete pid }.emit (.reaped pid)) := by
  refine hi.silent rfl (fun ev hev => ?_) rfl rfl fun p hp => ?_
  · rw [List.mem_singleton.mp hev]
    exact ⟨fun _ => rfl, nofun⟩
  · obtain ⟨f, hf, hs⟩ := hi.served p hp
    have hpp : p ≠ pid := by
      rintro rfl
      rw [he] at hf
      cases hf
      rcases hs with hs | ⟨g, hg, -⟩
      · rw [hl] at hs
        cases hs
      · rw [hk] at hg
        cases hg
    exact ⟨f, by rwa [emit, OMap.get_delete_other _ hpp], hs⟩

theorem of_effect (hN : Named m) (hX : Exits m) (h : ExitEffect m m') :
    Calls m' := by
  cases h with
  | calm h => exact hi.calm h
  | exited pid exitCode e he hl h => exact (hi.exit exitCode).calm h
  | asked pid e he hl => exact hi.asked _
  | waits pid e he hl => exact hi.waits he hl
  | hookReturned pid wstatus k hk h => exact (hi.hookReturned hk).calm h
  | notified pid wstatus k hk =>
      obtain ⟨e, he, -, -⟩ := hX.frames pid wstatus (.inr (by rw [hk]; exact List.mem_cons_self))
      exact hi.notifyWaiters he hk
  | registered pid ppid driver k hk => exact hi.registered hN hk
  | reaped pid e hk he hl h => exact (hi.reaped hk he hl).calm h

theorem answers_le (call : Nat) : m.answers call ≤ 1 := by
  cases hi.state call with
  | fresh _ ha => exact ha ▸ Nat.zero_le 1
  | waits _ _ ha => exact ha ▸ Nat.zero_le 1
  | answered _ ha => exact ha ▸ Nat.le_refl 1

end Calls

theorem statusFinal_of_inv (hX : Exits m) (hi : Calls m) : StatusFinal m where
  agree call info call' info' ha ha' hp := by
    obtain ⟨c, hx, hs⟩ := hX.answered call info ha
    obtain ⟨c', hx', hs'⟩ := hX.answered call' info' ha'
    obtain ⟨hc, ht⟩ := hX.unique _ c _ c' _ (hp ▸ hx) hx'
    cases info
    cases info'
    simp only at hp ht hs hs'
    rw [hs, hs', hc, ht, hp]
  reports call info ha := by
    obtain ⟨c, hx, hs⟩ := hX.answered call info ha
    exact ⟨c, hx, hs ▸ decodes_statusWord c (hX.signal _ c _ hx)⟩
  atMostOnce := hi.answers_le
  own call pid info hw ha := by
    rcases hi.own call pid hw with hm | ho
    · have hpos := answers_pos ha
      cases hi.state call with
      | fresh _ ha => rw [ha] at hpos; cases hpos
      | waits _ _ ha => rw [ha] at hpos; cases hpos
      | answered _ _ hw => exact absurd hm (hw pid)
    · exact ho.2 info ha
  once hk call pid code t hw hx := by
    rcases hi.own call pid hw with hm | ho
    · -- a queue that is not empty has a process that has not exited, or a frame
      obtain ⟨e, he, hs⟩ := hi.served pid (List.ne_nil_of_mem hm)
      rcases hs with hl | ⟨f, hf, -⟩
      · rw [(hX.entry pid code t hx e he).1] at hl
        cases hl
      · rw [hk] at hf
        cases hf
    · exact Nat.le_antisymm (hi.answers_le call) ho.1

end

/-! ### Every run -/

/-- In every run in which no pending signal with a terminating default action is dispatched to a
process that has exited by another, and no exception ends `markExited`: all answers of `waitpid` for
a process agree with its exit and decode to it, no call is answered twice, and each that waited is
answered once the exit is through. -/
theorem statusFinal_of_keepsStatus (max : Option Nat) (m : Machine)
    (r : Lts.Reach step (fun m a => keepsStatus m a) (.boot max) m) : StatusFinal m := by
  have hi : (Named m ∧ SignalsOk m) ∧ Exits m ∧ Calls m := by
    refine r.invariant (I := fun m => (Named m ∧ SignalsOk m) ∧ Exits m ∧ Calls m)
      ⟨⟨.boot max, .boot max⟩, .boot max, .boot max⟩ ?_
    rintro t a u ⟨⟨hN, hS⟩, hX, hi⟩ hC h
    have heff := ExitEffect.of_step hS hC (step_inv h)
    exact ⟨⟨hN.step h, hS.of_step (step_inv h)⟩, hX.of_effect hN hS heff,
      hi.of_effect hN hX heff⟩
  exact statusFinal_of_inv hi.2.1 hi.2.2

/-- A parent waits for its child, `SIGTERM` makes the driver report an exit at once, and the parent
asks again. -/
def terminatedRun : List Action :=
  [.call (.spawn (.ok "wasm") none), .ret, .call (.spawn (.ok "wasm") (some 1)), .ret,
    .call (.waitpid 2 0), .call (.kill 2 15), .call (.markExited 2 143), .ret, .run, .ret,
    .call (.sigprocmask 2 0 [10]), .call (.waitpid 2 0), .zombieExpiry 2]

theorem statusFinal_of_keepsStatus_terminated :
    ∃ m, (Lts.execIf step (fun m a => keepsStatus m a) (.boot none) terminatedRun = some m ∧
      m.log.filter (fun ev => ev.answers 0 || ev.answers 1) =
        [.answered 0 ⟨2, 15, 15⟩, .answered 1 ⟨2, 15, 15⟩]) ∧ StatusFinal m := by
  have h : (Lts.execIf step (fun m a => keepsStatus m a) (.boot none) terminatedRun).map
      (fun m => m.log.filter fun ev => ev.answers 0 || ev.answers 1) =
        some [.answered 0 ⟨2, 15, 15⟩, .answered 1 ⟨2, 15, 15⟩] := by decide +kernel
  obtain ⟨m, hm, hl⟩ := Option.map_eq_some_iff.mp h
  exact ⟨m, ⟨hm, hl⟩, statusFinal_of_keepsStatus none m (.of_execIf hm)⟩

/-- A process exits with `SIGTERM` blocked and pending, and `sigprocmask` unblocks it after that. -/
def zombieSignalRun : List Action :=
  [.call (.spawn (.ok "wasm") none), .ret, .call (.sigprocmask 1 0 [15]), .call (.kill 1 15),
    .call (.markExited 1 0), .ret, .run, .call (.waitpid 1 0), .call (.sigprocmask 1 1 [15]), .run,
    .ret, .run, .call (.waitpid 1 0)]

/-- The first answer is an exit with code 0, the second a death by `SIGTERM`. -/
theorem statusFinal_fails : ∃ m, Lts.Reach step Lts.Any (.boot none) m ∧ ¬ StatusFinal m := by
  obtain ⟨m, hm, h₀, h₁⟩ := Lts.Reach.exists_of_exec step (.boot none) zombieSignalRun
    (P := fun m => .answered 0 ⟨1, 0, 0⟩ ∈ m.log ∧ .answered 1 ⟨1, 15, 15⟩ ∈ m.log)
    (by decide +kernel)
  refine ⟨m, hm, fun hf => ?_⟩
  have hag := hf.agree 0 ⟨1, 0, 0⟩ 1 ⟨1, 15, 15⟩ h₀ h₁ rfl
  cases (WaitInfo.mk.inj hag).2.2

end SecureExec.Process
