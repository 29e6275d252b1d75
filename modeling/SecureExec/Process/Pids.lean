import SecureExec.Process.Steps

/-!
# Process — Pids — who is there, and under which names

What a step does to the set of processes, their parents, groups and sessions, and who has exited.
Most steps are `Quiet`: they deliver signals, set masks and handlers and answer waiters, and leave
all that alone.  `step_effect` lists the others.

A pid is `Known` when it was allocated and its process is not still in `driver.spawn`; entries, log
and stack name only known pids (`Named`), so a process that is registered is new to all of them.
-/

namespace SecureExec.Process
open Machine

/-! ### Entries -/

/-- The same family, group, session and liveness. -/
structure Same (e e' : ProcessEntry) : Prop where
  ppid : e'.ppid = e.ppid
  pgid : e'.pgid = e.pgid
  sid : e'.sid = e.sid
  live : e'.live = e.live

namespace Same

variable {e e' e'' : ProcessEntry}

theorem refl (e : ProcessEntry) : Same e e := ⟨rfl, rfl, rfl, rfl⟩

theorem trans (h : Same e e') (h' : Same e' e'') : Same e e'' :=
  ⟨h'.ppid.trans h.ppid, h'.pgid.trans h.pgid, h'.sid.trans h.sid, h'.live.trans h.live⟩

variable (e)

theorem setBlocked (set : List Nat) : Same e (e.setBlocked set) :=
  ⟨rfl, rfl, rfl, rfl⟩

variable (signal : Nat)

theorem deletePending : Same e (e.deletePending signal) :=
  ⟨rfl, rfl, rfl, rfl⟩

theorem stop : Same e e.stop := by
  unfold ProcessEntry.stop
  split
  · rename_i h
    exact ⟨rfl, rfl, rfl, by rw [ProcessEntry.live, ProcessEntry.live, h]; rfl⟩
  · exact refl e

theorem cont : Same e e.cont := by
  unfold ProcessEntry.cont
  split
  · rename_i h
    exact ⟨rfl, rfl, rfl, by rw [ProcessEntry.live, ProcessEntry.live, h]; rfl⟩
  · exact refl e

theorem applyDefaultAction :
    Same e (e.applyDefaultAction signal).entry := by
  unfold ProcessEntry.applyDefaultAction
  split_ifs
  · exact stop e
  · exact cont e
  · exact refl e
  · exact ⟨rfl, rfl, rfl, rfl⟩

theorem dispatchDefault :
    Same e (e.dispatchDefault signal).entry := by
  unfold ProcessEntry.dispatchDefault
  refine trans ?_ (applyDefaultAction _ _)
  split
  · exact ⟨rfl, rfl, rfl, rfl⟩
  · exact refl e

theorem dispatchSignal :
    Same e (e.dispatchSignal signal).entry := by
  unfold ProcessEntry.dispatchSignal
  split
  · exact dispatchDefault e signal
  · split
    · exact refl e
    · exact dispatchDefault e signal
    · exact ⟨rfl, rfl, rfl, rfl⟩

theorem pendOrDispatch :
    Same e (e.pendOrDispatch signal).entry := by
  unfold ProcessEntry.pendOrDispatch
  split
  · exact ⟨rfl, rfl, rfl, rfl⟩
  · exact dispatchSignal e signal

theorem deliverSignal :
    Same e (e.deliverSignal signal).entry := by
  unfold ProcessEntry.deliverSignal
  split_ifs
  · exact applyDefaultAction e signal
  · exact (cont e).trans (pendOrDispatch _ _)
  · exact pendOrDispatch e signal

theorem handlerReturned (registration : SignalHandler)
    (saved : List Nat) : Same e (e.handlerReturned signal registration saved) := by
  unfold ProcessEntry.handlerReturned
  split <;> exact ⟨rfl, rfl, rfl, rfl⟩

end Same

/-! ### Names -/

/-- The process that `driver.spawn` is called for. -/
def Frame.spawns : Frame → Option Nat
  | driverSpawn pid .. => some pid
  | _ => none

/-- The processes that `driver.spawn` has not returned for. -/
def spawning (k : List Frame) : List Nat := k.filterMap Frame.spawns

/-- The registered process that a frame is about. -/
def Frame.pid : Frame → Option Nat
  | handler pid .. | driverKill pid _ | exitHook pid _ | pending pid _ | dispatched pid _
  | notify pid _ => some pid
  | driverSpawn .. | group .. => none

/-- The process that an event is about. -/
def Event.pid : Event → Option Nat
  | directed pid _ | fate pid .. | masked pid .. | exited pid .. | reaped pid | waiting _ pid =>
      some pid
  | answered _ info => some info.pid
  | groupDone .. => none

/-- `p` has an entry, or a frame or an event is about it. -/
def Machine.Names (m : Machine) (p : Nat) : Prop :=
  (m.entries.get p).isSome ∨ (∃ f ∈ m.stack, f.pid = some p) ∨ ∃ e ∈ m.log, e.pid = some p

/-- `p` was allocated, and `driver.spawn` is not running for it. -/
def Machine.Known (m : Machine) (p : Nat) : Prop := p < m.nextPid ∧ p ∉ spawning m.stack

theorem Frame.spawns_ofCall (pid since : Nat) (c : Call) :
    (Frame.ofCall pid since c).spawns = none := by
  cases c <;> rfl

theorem Frame.pid_ofCall (pid since : Nat) (c : Call) :
    (Frame.ofCall pid since c).pid = some pid := by
  cases c <;> rfl

/-! ### Quiet steps -/

/-- The same processes in the same families, groups and sessions, no new names, none spawning that
was not. -/
structure Quiet (m m' : Machine) : Prop where
  nextPid : m'.nextPid = m.nextPid
  maxProcesses : m'.maxProcesses = m.maxProcesses
  spawning : (spawning m'.stack).Sublist (spawning m.stack)
  names : ∀ p, m'.Names p → m.Names p
  entries : ∀ p, Option.Rel Same (m.entries.get p) (m'.entries.get p)
  liveCount : m'.liveCount = m.liveCount

namespace Quiet

variable {m m' m'' : Machine} {pid : Nat} {e e' : ProcessEntry}

theorem rel_refl (o : Option ProcessEntry) : Option.Rel Same o o := by
  cases o with
  | none => exact .none
  | some e => exact .some (.refl e)

theorem refl (m : Machine) : Quiet m m :=
  ⟨rfl, rfl, .refl _, fun _ h => h, fun _ => rel_refl _, rfl⟩

theorem trans (h : Quiet m m') (h' : Quiet m' m'') : Quiet m m'' where
  nextPid := h'.nextPid.trans h.nextPid
  maxProcesses := h'.maxProcesses.trans h.maxProcesses
  spawning := h'.spawning.trans h.spawning
  names p hp := h.names p (h'.names p hp)
  entries p := by
    have h₁ := h.entries p
    have h₂ := h'.entries p
    revert h₁ h₂
    generalize m.entries.get p = o, m'.entries.get p = o', m''.entries.get p = o''
    rintro (⟨h₁⟩ | _) (⟨h₂⟩ | _)
    · exact .some (h₁.trans h₂)
    · exact .none
  liveCount := h'.liveCount.trans h.liveCount

/-- The bookkeeping that no name, process or frame depends on. -/
theorem of_eq (hp : m'.nextPid = m.nextPid) (hm : m'.maxProcesses = m.maxProcesses)
    (hs : m'.stack = m.stack) (he : m'.entries = m.entries) (hl : m'.log = m.log) :
    Quiet m m' :=
  ⟨hp, hm, by rw [hs], by intro p; simp only [Names, hs, he, hl]; exact id,
    by intro p; rw [he]; exact rel_refl _, by simp only [Machine.liveCount, he]⟩

theorem emit {ev : Event} (h : ∀ p, ev.pid = some p → m.Names p) : Quiet m (m.emit ev) where
  nextPid := rfl
  maxProcesses := rfl
  spawning := .refl _
  names p hp := by
    rcases hp with hp | hp | ⟨ev', he, hp⟩
    · exact .inl hp
    · exact .inr (.inl hp)
    · rcases List.mem_append.mp he with he | he
      · exact .inr (.inr ⟨ev', he, hp⟩)
      · rw [List.mem_singleton.mp he] at hp
        exact h p hp
  entries _ := rel_refl _
  liveCount := rfl

theorem push {f : Frame} (hs : f.spawns = none) (h : ∀ p, f.pid = some p → m.Names p) :
    Quiet m (m.push f) where
  nextPid := rfl
  maxProcesses := rfl
  spawning := by simp [Machine.push, Process.spawning, hs]
  names p hp := by
    rcases hp with hp | ⟨f', hf, hp⟩ | hp
    · exact .inl hp
    · rcases List.mem_cons.mp hf with rfl | hf
      · exact h p hp
      · exact .inr (.inl ⟨f', hf, hp⟩)
    · exact .inr (.inr hp)
  entries _ := rel_refl _
  liveCount := rfl

/-- An event about a process that is named. -/
theorem emit_about {ev : Event} (h : m.Names pid) (hp : ev.pid = some pid) :
    Quiet m (m.emit ev) := by
  refine emit fun p hp' => ?_
  rw [hp] at hp'
  cases hp'
  exact h

/-- A frame about a process that is named. -/
theorem push_about {f : Frame} (h : m.Names pid) (hs : f.spawns = none)
    (hp : f.pid = some pid) : Quiet m (m.push f) := by
  refine push hs fun p hp' => ?_
  rw [hp] at hp'
  cases hp'
  exact h

/-- Frames leave the stack. -/
theorem pop {k : List Frame} (h : k.Sublist m.stack) : Quiet m { m with stack := k } where
  nextPid := rfl
  maxProcesses := rfl
  spawning := h.filterMap _
  names p hp := by
    rcases hp with hp | ⟨f, hf, hp⟩ | hp
    · exact .inl hp
    · exact .inr (.inl ⟨f, h.subset hf, hp⟩)
    · exact .inr (.inr hp)
  entries _ := rel_refl _
  liveCount := rfl

section

variable (he : m.entries.get pid = some e)
include he

theorem names_of_get : m.Names pid :=
  .inl (by rw [he, Option.isSome_some])

theorem names_setEntry (e' : ProcessEntry) {p : Nat}
    (hp : (m.setEntry pid e').Names p) : m.Names p := by
  rcases hp with hp | hp | hp
  · simp only [setEntry, OMap.get_set] at hp
    split at hp
    · rename_i heq
      rw [heq]
      exact names_of_get he
    · exact .inl hp
  · exact .inr (.inl hp)
  · exact .inr (.inr hp)

theorem liveCount_setEntry (h : e'.live = e.live) :
    (m.setEntry pid e').liveCount = m.liveCount := by
  have hc := m.entries.countP_values_set (v := e') ProcessEntry.live he
  rw [h] at hc
  exact Nat.add_right_cancel hc

theorem setEntry (h : Same e e') :
    Quiet m (m.setEntry pid e') where
  nextPid := rfl
  maxProcesses := rfl
  spawning := .refl _
  names p hp := names_setEntry he e' hp
  entries p := by
    simp only [Machine.setEntry, OMap.get_set]
    split
    · rename_i heq
      rw [heq, he]
      exact .some h
    · exact rel_refl _
  liveCount := liveCount_setEntry he h.live

theorem settle {signal : Nat} {o : Outcome}
    (h : Same e o.entry) : Quiet m (m.settle pid signal o) := by
  have h₁ : Quiet m ((m.setEntry pid o.entry).emit (.fate pid signal o.fate)) := by
    exact (setEntry he h).trans (emit_about (names_of_get (m.entries.get_set_self pid _)) rfl)
  cases hc : o.call with
  | none =>
      have heq : m.settle pid signal o =
          (m.setEntry pid o.entry).emit (.fate pid signal o.fate) := by
        simp [Machine.settle, hc, Machine.emit, Machine.setEntry]
      rw [heq]
      exact h₁
  | some c =>
      have heq : m.settle pid signal o =
          ((m.setEntry pid o.entry).emit (.fate pid signal o.fate)).push
            (.ofCall pid (m.log.length + 1) c) := by
        simp [Machine.settle, hc, Machine.emit, Machine.setEntry, Machine.push]
      rw [heq]
      exact h₁.trans (push_about (names_of_get (m.entries.get_set_self pid _))
        (Frame.spawns_ofCall _ _ _) (Frame.pid_ofCall _ _ _))

end

theorem deliverSignal (m : Machine) (pid signal : Nat) :
    Quiet m (m.deliverSignal pid signal) := by
  unfold Machine.deliverSignal
  split
  · exact refl m
  · exact settle ‹_› (.deliverSignal _ _)

theorem direct (signal : Nat) (he : m.entries.get pid = some e) :
    Quiet m (m.direct pid signal) :=
  (emit_about (names_of_get he) rfl).trans (deliverSignal _ pid signal)

variable (m)

theorem directIfRunning (pid signal : Nat) :
    Quiet m (m.directIfRunning pid signal) := by
  unfold Machine.directIfRunning
  split
  · exact refl m
  · rename_i e he
    split
    · exact refl m
    · exact emit_about (names_of_get he) rfl
    · exact direct signal he

theorem deliverPendingSignals (pid : Nat) :
    Quiet m (m.deliverPendingSignals pid) := by
  unfold Machine.deliverPendingSignals
  split
  · exact refl m
  · rename_i e he
    split
    · exact refl m
    · exact push_about (names_of_get he) rfl rfl

theorem runGroup (pgid signal : Nat) (excludeLeaders : Bool) (next count : Nat) :
    Quiet m (m.runGroup pgid signal excludeLeaders next count) := by
  have hpush : ∀ count, Quiet m (m.push (.group pgid signal excludeLeaders (next + 1) count)) :=
    fun _ => push rfl nofun
  exact runGroup_rule (emit nofun) hpush fun c _ e he _ =>
    (hpush c).trans (direct (e := e) signal he)

theorem notifyWaiters (pid : Nat) (wstatus : BitVec 32) :
    Quiet m (m.notifyWaiters pid wstatus) := by
  unfold Machine.notifyWaiters
  split
  · exact refl m
  · rename_i e he
    refine ⟨rfl, rfl, .refl _, fun p hp => ?_, fun _ => rel_refl _, rfl⟩
    rcases hp with hp | hp | ⟨ev, hev, hp⟩
    · exact .inl hp
    · exact .inr (.inl hp)
    · rcases List.mem_append.mp hev with hev | hev
      · exact .inr (.inr ⟨ev, hev, hp⟩)
      · obtain ⟨call, -, rfl⟩ := List.mem_map.mp hev
        cases hp
        exact names_of_get he

theorem turn (f : Frame) : Quiet m (m.turn f) := by
  refine turn_rule (refl m) (fun _ _ _ he => push_about (names_of_get he) rfl rfl)
    (fun pid e signal rest _ he _ hg => ?_) (fun _ _ _ _ _ _ => runGroup ..)
    fun _ _ _ => notifyWaiters ..
  have hp : Quiet m ((m.setEntry pid (e.deletePending signal)).push (.dispatched pid rest)) :=
    (setEntry he (.deletePending e signal)).trans
      (push_about (names_of_get (m.entries.get_set_self pid _)) rfl rfl)
  exact hp.trans (settle hg (.dispatchSignal _ _))

theorem abandon (f : Frame) : Quiet m (m.abandon f) := by
  cases f with
  | handler pid signal registration saved since =>
      simp only [Machine.abandon]
      split
      · exact refl m
      · exact setEntry ‹_› (.setBlocked _ _)
  | _ => exact refl m

end Quiet

/-! ### The other steps -/

/-- What a step does to the set of processes. -/
inductive Effect (m : Machine) : Action → Machine → Prop where
  | quiet {a : Action} {m' : Machine} (h : Quiet m m') : Effect m a m'
  | allocated : Effect m (.call .allocatePid) { m with nextPid := m.nextPid + 1 }
  | spawned (driver : String) (callerPid : Option Nat) (hb : m.overBudget = false) :
      Effect m (.call (.spawn (.ok driver) callerPid))
        ({ m with nextPid := m.nextPid + 1 }.push
          (.driverSpawn m.nextPid (callerPid.getD 0) driver))
  | exited (pid : Nat) (exitCode : Int) (e : ProcessEntry) (he : m.entries.get pid = some e)
      (hl : e.live) {m₁ m' : Machine} (h₁ : m₁ = m.setEntry pid (e.exit exitCode))
      (h : Quiet m₁ m') : Effect m (.call (.markExited pid exitCode)) m'
  | registered (pid ppid : Nat) (driver : String) (k : List Frame)
      (hk : m.stack = .driverSpawn pid ppid driver :: k) :
      Effect m .ret ({ m with stack := k }.register pid ppid driver)
  | grouped (pid pgid target : Nat) (e : ProcessEntry) (he : m.entries.get pid = some e)
      (ht : target = if pgid = 0 then pid else pgid)
      (hg : target ≠ pid → ∃ member,
        (m.entries.values.find? fun f => f.pgid == target && f.live) = some member ∧
          member.sid = e.sid) :
      Effect m (.call (.setpgid pid pgid)) (m.setEntry pid { e with pgid := target })
  | sessioned (pid : Nat) (e : ProcessEntry) (he : m.entries.get pid = some e)
      (hp : e.pgid ≠ pid) :
      Effect m (.call (.setsid pid)) (m.setEntry pid { e with sid := pid, pgid := pid })
  | reaped (pid : Nat) (e : ProcessEntry) (he : m.entries.get pid = some e)
      (hl : e.live = false) {m₁ m' : Machine}
      (h₁ : m₁ = { m with entries := m.entries.delete pid }.emit (.reaped pid))
      (h : Quiet m₁ m') : Effect m (.zombieExpiry pid) m'

section

variable {m m' : Machine} {a : Action}

theorem Effect.returned {f : Frame} {k : List Frame} (hk : m.stack = f :: k) :
    Effect m .ret ({ m with stack := k }.resume f) := by
  have hpop : Quiet m { m with stack := k } := .pop (by rw [hk]; exact List.sublist_cons_self _ _)
  cases f with
  | handler pid signal registration saved since =>
      simp only [resume]
      split
      · exact .quiet hpop
      · rename_i e he
        exact .quiet ((hpop.trans (.setEntry he (.handlerReturned _ _ _ _))).trans
          (.deliverPendingSignals _ _))
  | exitHook pid wstatus =>
      have hn : m.Names pid := .inr (.inl ⟨_, by rw [hk]; exact List.mem_cons_self, rfl⟩)
      -- the frame that names the process gives way to another that names it
      have hpush : Quiet m ({ m with stack := k }.push (.notify pid wstatus)) := by
        refine ⟨rfl, rfl, ?_, fun p hp => ?_, fun _ => Quiet.rel_refl _, rfl⟩
        · simp [push, spawning, hk, List.filterMap_cons, Frame.spawns]
        · rcases hp with hp | ⟨f, hf, hp⟩ | hp
          · exact .inl hp
          · rcases List.mem_cons.mp hf with rfl | hf
            · cases hp
              exact hn
            · exact .inr (.inl ⟨f, by rw [hk]; exact List.mem_cons_of_mem _ hf, hp⟩)
          · exact .inr (.inr hp)
      simp only [resume, exitHookReturned]
      split
      · exact .quiet hpush
      · split
        · exact .quiet (hpush.trans (.directIfRunning _ _ _))
        · exact .quiet hpush
  | driverSpawn pid ppid driver => exact .registered pid ppid driver k hk
  | _ => exact .quiet hpop

theorem Effect.of_step (h : Step m a m') : Effect m a m' := by
  cases h with
  | nothing op => exact .quiet (.refl m)
  | allocated => exact .allocated
  | spawned driver callerPid hb => exact .spawned driver callerPid hb
  | exited pid exitCode e he hl =>
      refine .exited pid exitCode e he hl rfl ?_
      have hg : (m.setEntry pid (e.exit exitCode)).entries.get pid = some (e.exit exitCode) :=
        m.entries.get_set_self pid _
      have hq : Quiet (m.setEntry pid (e.exit exitCode))
          (((m.setEntry pid (e.exit exitCode)).emit (.exited pid exitCode e.termSignal)).push
            (.exitHook pid (e.exit exitCode).wstatus)) := by
        exact (Quiet.emit_about (Quiet.names_of_get hg) rfl).trans
          (.push_about (Quiet.names_of_get hg) rfl rfl)
      exact hq.trans (.of_eq rfl rfl rfl rfl rfl)
  | asked pid options e he hl =>
      have hq : Quiet m (m.emit (.answered m.nextCall ⟨pid, e.wstatus, e.termSignal⟩)) :=
        Quiet.emit_about (Quiet.names_of_get he) rfl
      exact .quiet (hq.trans (.of_eq rfl rfl rfl rfl rfl))
  | waits pid options e he hl =>
      have hq : Quiet m (m.emit (.waiting m.nextCall pid)) :=
        Quiet.emit_about (Quiet.names_of_get he) rfl
      exact .quiet (hq.trans (.of_eq rfl rfl rfl rfl rfl))
  | groupCalled op pgid signal excludeLeaders hs => exact .quiet (.push rfl nofun)
  | killed pid signal e he hl hs => exact .quiet (.direct signal he)
  | timed op timers => exact .quiet (.of_eq rfl rfl rfl rfl rfl)
  | handlerSet pid signal handler e he => exact .quiet (.setEntry he ⟨rfl, rfl, rfl, rfl⟩)
  | masked pid how set mask e he hm =>
      have hq : Quiet m ((m.setEntry pid (e.setBlocked mask)).emit (.masked pid mask m.stack)) :=
        (Quiet.setEntry he (.setBlocked e mask)).trans
          (.emit_about (Quiet.names_of_get (m.entries.get_set_self pid _)) rfl)
      exact .quiet (hq.trans (.deliverPendingSignals _ _))
  | stopped pid e he => exact .quiet (.setEntry he (.stop e))
  | continued pid e he => exact .quiet (.setEntry he (.cont e))
  | grouped pid pgid target e he ht hg => exact .grouped pid pgid target e he ht hg
  | sessioned pid e he hp => exact .sessioned pid e he hp
  | returned f k hk hf => exact .returned hk
  | thrown f k hk hf =>
      refine .quiet (Quiet.trans (.pop ?_) (.abandon _ f))
      rw [hk]
      exact (List.dropWhile_sublist _).trans (List.sublist_cons_self _ _)
  | ran f k hk hf =>
      refine .quiet (Quiet.trans (.pop ?_) (.turn _ f))
      rw [hk]
      exact List.sublist_cons_self _ _
  | alarmExpired pid hk =>
      have ht : Quiet m { m with alarmTimers := m.alarmTimers.delete pid } :=
        .of_eq rfl rfl rfl rfl rfl
      exact .quiet (ht.trans (.directIfRunning _ _ _))
  | zombieExpired pid hk =>
      simp only [reap]
      split
      · exact .quiet (.of_eq rfl rfl rfl rfl rfl)
      · rename_i e he
        split
        · exact .quiet (.of_eq rfl rfl rfl rfl rfl)
        · rename_i hl
          exact .reaped pid e he (by simpa using hl) rfl (.of_eq rfl rfl rfl rfl rfl)

theorem step_effect (h : step m a = some m') : Effect m a m' := .of_step (step_inv h)

end

/-! ### Only known pids are named -/

/-- Entries, frames and events name known pids; the processes in `driver.spawn` are distinct. -/
structure Named (m : Machine) : Prop where
  known : ∀ p, m.Names p → m.Known p
  allocated : ∀ p ∈ spawning m.stack, p < m.nextPid
  nodup : (spawning m.stack).Nodup

namespace Named

variable {m m' : Machine} {a : Action}

theorem boot (max : Option Nat) : Named (.boot max) where
  known p hp := by
    rcases hp with hp | ⟨f, hf, -⟩ | ⟨e, he, -⟩
    · cases hp
    · cases hf
    · cases he
  allocated := nofun
  nodup := .nil

variable (hi : Named m)
include hi

/-- No new names, and none spawning that was not. -/
theorem of_names (hn : ∀ p, m'.Names p → m.Names p) (hp : m'.nextPid = m.nextPid)
    (hs : (spawning m'.stack).Sublist (spawning m.stack)) : Named m' where
  known p hp' := by
    have hk := hi.known p (hn p hp')
    exact ⟨hp ▸ hk.1, fun h => hk.2 (hs.subset h)⟩
  allocated p h := hp ▸ hi.allocated p (hs.subset h)
  nodup := hi.nodup.sublist hs

theorem quiet (h : Quiet m m') : Named m' :=
  hi.of_names h.names h.nextPid h.spawning

theorem setEntry {pid : Nat} {e : ProcessEntry} (he : m.entries.get pid = some e)
    (e' : ProcessEntry) : Named (m.setEntry pid e') :=
  hi.of_names (fun _ => Quiet.names_setEntry he e') rfl (.refl _)

/-- A process in `driver.spawn` is new to everything. -/
theorem not_names {pid ppid : Nat} {driver : String} {k : List Frame}
    (hk : m.stack = .driverSpawn pid ppid driver :: k) : ¬ m.Names pid := by
  intro hp
  refine (hi.known pid hp).2 ?_
  rw [hk]
  exact List.mem_cons_self

theorem not_registered {pid ppid : Nat} {driver : String} {k : List Frame}
    (hk : m.stack = .driverSpawn pid ppid driver :: k) : m.entries.get pid = none := by
  by_contra hn
  exact hi.not_names hk (.inl (Option.isSome_iff_ne_none.mpr hn))

theorem of_effect (h : Effect m a m') : Named m' := by
  cases h with
  | quiet h => exact hi.quiet h
  | allocated =>
      refine ⟨fun p hp => ?_, fun p hp => ?_, hi.nodup⟩
      · exact ⟨Nat.lt_succ_of_lt (hi.known p hp).1, (hi.known p hp).2⟩
      · exact Nat.lt_succ_of_lt (hi.allocated p hp)
  | spawned driver callerPid hb =>
      refine ⟨fun p hp => ?_, fun p hp => ?_, ?_⟩
      · have hk : m.Known p := by
          refine hi.known p ?_
          rcases hp with hp | ⟨f, hf, hp⟩ | hp
          · exact .inl hp
          · rcases List.mem_cons.mp hf with rfl | hf
            · cases hp
            · exact .inr (.inl ⟨f, hf, hp⟩)
          · exact .inr (.inr hp)
        refine ⟨Nat.lt_succ_of_lt hk.1, fun hs => ?_⟩
        rcases List.mem_cons.mp hs with rfl | hs
        · exact Nat.lt_irrefl _ hk.1
        · exact hk.2 hs
      · rcases List.mem_cons.mp hp with rfl | hp
        · exact Nat.lt_succ_self _
        · exact Nat.lt_succ_of_lt (hi.allocated p hp)
      · exact List.nodup_cons.mpr ⟨fun h => Nat.lt_irrefl _ (hi.allocated _ h), hi.nodup⟩
  | exited pid exitCode e he hl h₁ h =>
      subst h₁
      exact (hi.setEntry he _).quiet h
  | registered pid ppid driver k hk =>
      have hs : spawning m.stack = pid :: spawning k := by rw [hk]; rfl
      have hnd := List.nodup_cons.mp (hs ▸ hi.nodup)
      refine ⟨fun p hp => ?_, fun p hp => hi.allocated p ?_, hnd.2⟩
      · by_cases heq : p = pid
        · subst heq
          exact ⟨hi.allocated p (by rw [hs]; exact List.mem_cons_self), hnd.1⟩
        · have hk' : m.Known p := by
            refine hi.known p ?_
            rcases hp with hp | ⟨f, hf, hp⟩ | hp
            · refine .inl ?_
              rwa [Machine.register, Machine.setEntry, OMap.get_set_other _ heq] at hp
            · exact .inr (.inl ⟨f, by rw [hk]; exact List.mem_cons_of_mem _ hf, hp⟩)
            · exact .inr (.inr hp)
          exact ⟨hk'.1, fun h => hk'.2 (by rw [hs]; exact List.mem_cons_of_mem _ h)⟩
      · rw [hs]
        exact List.mem_cons_of_mem _ hp
  | grouped pid pgid target e he ht hg => exact hi.setEntry he _
  | sessioned pid e he hp => exact hi.setEntry he _
  | reaped pid e he hl h₁ h =>
      subst h₁
      have hd : Named ({ m with entries := m.entries.delete pid }.emit (.reaped pid)) := by
        refine hi.of_names (fun p hp => ?_) rfl (.refl _)
        rcases hp with hp | hp | ⟨ev, hev, hp⟩
        · simp only [Machine.emit, OMap.get_delete] at hp
          split at hp
          · cases hp
          · exact .inl hp
        · exact .inr (.inl hp)
        · rcases List.mem_append.mp hev with hev | hev
          · exact .inr (.inr ⟨ev, hev, hp⟩)
          · rw [List.mem_singleton.mp hev] at hp
            cases hp
            exact Quiet.names_of_get he
      exact hd.quiet h

theorem step (h : step m a = some m') : Named m' := hi.of_effect (step_effect h)

end Named

end SecureExec.Process
