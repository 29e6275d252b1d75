import SecureExec.Process.Pids

/-!
# Process — Delivery — no signal is lost

A signal that an operation, a child's exit or an alarm directs at a process that has not exited is
either dispatched at once, or blocked and recorded as pending; and what is pending stays so until it
is dispatched, or its process is reaped.  In terms of the log (`NoLostSignal`): the event `directed`
is followed by the signal's fate, and a fate `pended` is at every later moment still true, or was
made up for.

`kill` reaches every process that has not exited.  `markExited` and the alarm timer deliver only to
a process that is running: a `SIGCHLD` or a `SIGALRM` for a stopped process is dropped.
`notStopped` asks that there be none.
-/

namespace SecureExec.Process

open Machine

/-- `signal` is pending at `pid`. -/
def Machine.Pending (m : Machine) (pid signal : Nat) : Prop :=
  ∃ e, m.entries.get pid = some e ∧ signal ∈ e.pending

/-- After the event `i` of the log, `signal` was dispatched to `pid`, or `pid` was reaped. -/
def EndedAfter (log : List Event) (i pid signal : Nat) : Prop :=
  ∃ j, i < j ∧ ((∃ f : Fate, log[j]? = some (.fate pid signal f) ∧ f.dispatched) ∨
    log[j]? = some (.reaped pid))

/-- Every signal directed at a process was dispatched at once, or was blocked and recorded as
pending, and then is still pending, or was dispatched later, or its process was reaped. -/
def NoLostSignal (m : Machine) : Prop :=
  ∀ i pid signal, m.log[i]? = some (.directed pid signal) →
    ∃ f, m.log[i + 1]? = some (.fate pid signal f) ∧
      (f.dispatched ∨ ∃ blocked, f = .pended blocked ∧ signal ∈ blocked ∧
        (m.Pending pid signal ∨ EndedAfter m.log (i + 1) pid signal))

/-- The parent of the process whose exit hook returns, and the process whose alarm expires, are not
stopped. -/
def notStopped (m : Machine) : Action → Bool
  | .ret =>
      match m.stack with
      | .exitHook pid _ :: _ =>
          (m.entries.get pid).all fun e =>
            e.ppid == 0 || (m.entries.get e.ppid).all fun parent => parent.status != .stopped
      | _ => true
  | .alarmExpiry pid => (m.entries.get pid).all fun e => e.status != .stopped
  | _ => true

/-! ### The log -/

/-- Each `directed` is followed by the fate of that signal. -/
def Followed (log : List Event) : Prop :=
  ∀ i pid signal, log[i]? = some (.directed pid signal) →
    ∃ f, log[i + 1]? = some (.fate pid signal f) ∧ ∀ blocked, f = .pended blocked → signal ∈ blocked

/-- Does the event end the wait of a pending signal? -/
def Event.Ends (pid signal : Nat) (ev : Event) : Prop :=
  (∃ f : Fate, ev = .fate pid signal f ∧ f.dispatched) ∨ ev = .reaped pid

/-- What is recorded as pending is pending still, or has ended. -/
def Kept (m : Machine) : Prop :=
  ∀ i pid signal blocked, m.log[i]? = some (.fate pid signal (.pended blocked)) →
    m.Pending pid signal ∨ EndedAfter m.log i pid signal

structure Settled (m : Machine) : Prop where
  followed : Followed m.log
  kept : Kept m

section

variable {m m' : Machine} {log n : List Event}

theorem Followed.append (h : Followed log) (h' : Followed n) : Followed (log ++ n) := by
  intro i pid signal hi
  by_cases hlt : i < log.length
  · rw [List.getElem?_append_left hlt] at hi
    obtain ⟨f, hf, hb⟩ := h i pid signal hi
    have hlt' : i + 1 < log.length := (List.getElem?_eq_some_iff.mp hf).1
    exact ⟨f, by rwa [List.getElem?_append_left hlt'], hb⟩
  · have hge := Nat.le_of_not_lt hlt
    rw [List.getElem?_append_right hge] at hi
    obtain ⟨f, hf, hb⟩ := h' _ pid signal hi
    refine ⟨f, ?_, hb⟩
    rwa [List.getElem?_append_right (Nat.le_succ_of_le hge), Nat.succ_sub hge]

/-- Events that direct no signal. -/
theorem Followed.of_none (h : ∀ ev ∈ n, ∀ pid signal, ev ≠ .directed pid signal) :
    Followed n := by
  intro i pid signal hi
  exact absurd rfl (h _ (List.mem_of_getElem? hi) pid signal)

variable {pid signal : Nat}

theorem Followed.pair {f : Fate}
    (h : ∀ blocked, f = .pended blocked → signal ∈ blocked) :
    Followed [.directed pid signal, .fate pid signal f] := by
  rintro (_ | _ | i) p x hi
  · cases hi
    exact ⟨f, rfl, h⟩
  · cases hi
  · cases hi

theorem EndedAfter.append {i : Nat} (h : EndedAfter log i pid signal) :
    EndedAfter (log ++ n) i pid signal := by
  obtain ⟨j, hj, h⟩ := h
  refine ⟨j, hj, ?_⟩
  rcases h with ⟨f, hf, hd⟩ | h
  · exact .inl ⟨f, by
      rwa [List.getElem?_append_left (List.getElem?_eq_some_iff.mp hf).1], hd⟩
  · exact .inr (by rwa [List.getElem?_append_left (List.getElem?_eq_some_iff.mp h).1])

theorem EndedAfter.of_mem {i : Nat} {ev : Event} (hi : i < log.length)
    (hev : ev ∈ n) (he : ev.Ends pid signal) : EndedAfter (log ++ n) i pid signal := by
  obtain ⟨k, hk⟩ := List.mem_iff_getElem?.mp hev
  have hk' : (log ++ n)[log.length + k]? = some ev := by
    rwa [List.getElem?_append_right (Nat.le_add_right _ _), Nat.add_sub_cancel_left]
  refine ⟨log.length + k, Nat.lt_add_right k hi, ?_⟩
  rcases he with ⟨f, rfl, hd⟩ | rfl
  · exact .inl ⟨f, hk', hd⟩
  · exact .inr hk'

/-- **What a step has to keep.**  The events it adds are followed by fates; what was pending still
is, or one of them ends it; and what they say is pending is. -/
theorem Settled.append (hi : Settled m) (hl : m'.log = m.log ++ n) (hf : Followed n)
    (hk : ∀ pid signal, m.Pending pid signal →
      m'.Pending pid signal ∨ ∃ ev ∈ n, ev.Ends pid signal)
    (hn : ∀ pid signal blocked, .fate pid signal (.pended blocked) ∈ n →
      m'.Pending pid signal) : Settled m' := by
  refine ⟨hl ▸ hi.followed.append hf, ?_⟩
  intro i pid signal blocked hev
  rw [hl] at hev ⊢
  by_cases hlt : i < m.log.length
  · rw [List.getElem?_append_left hlt] at hev
    rcases hi.kept i pid signal blocked hev with h | h
    · rcases hk pid signal h with h | ⟨ev, hm, he⟩
      · exact .inl h
      · exact .inr (.of_mem hlt hm he)
    · exact .inr h.append
  · rw [List.getElem?_append_right (Nat.le_of_not_lt hlt)] at hev
    exact .inl (hn pid signal blocked (List.mem_of_getElem? hev))

/-- An event that is about no delivery. -/
def Event.silent : Event → Bool
  | .directed .. | .fate .. => false
  | _ => true

/-- A step that delivers nothing. -/
theorem Settled.silent (hi : Settled m) (hl : m'.log = m.log ++ n)
    (hs : ∀ ev ∈ n, ev.silent) (hk : ∀ pid signal, m.Pending pid signal →
      m'.Pending pid signal) : Settled m' := by
  refine hi.append hl (.of_none ?_) (fun p x h => .inl (hk p x h)) ?_
  · rintro ev hev p x rfl
    cases hs _ hev
  · intro p x b hev
    cases hs _ hev

theorem Settled.same (hi : Settled m) (hl : m'.log = m.log) (he : m'.entries = m.entries) :
    Settled m' := by
  refine hi.silent (n := []) (by rw [hl, List.append_nil]) nofun fun p x h => ?_
  rw [Pending, he]
  exact h

variable {e : ProcessEntry}

/-- An entry is replaced by one with the same signals pending. -/
theorem Machine.Pending.setEntry {e' : ProcessEntry} (he : m.entries.get pid = some e)
    (hp : e.pending ⊆ e'.pending) {p x : Nat} (h : m.Pending p x) :
    (m.setEntry pid e').Pending p x := by
  obtain ⟨f, hf, hx⟩ := h
  by_cases hpp : p = pid
  · subst hpp
    rw [he] at hf
    cases hf
    exact ⟨e', m.entries.get_set_self p e', hp hx⟩
  · exact ⟨f, by rwa [Machine.setEntry, OMap.get_set_other _ hpp], hx⟩

theorem Settled.setEntry {x : ProcessEntry} (hi : Settled m)
    (he : m.entries.get pid = some e) (hp : e.pending ⊆ x.pending) :
    Settled (m.setEntry pid x) :=
  hi.silent (n := []) (by rw [List.append_nil]; rfl) nofun fun _ _ => .setEntry he hp

theorem Settled.direct (hi : Settled m)
    (he : m.entries.get pid = some e) : Settled (m.direct pid signal) := by
  rw [direct_eq he]
  have hset : ∀ {p x}, m.Pending p x → e.pending ⊆ (e.deliverSignal signal).entry.pending →
      ((m.emit (.directed pid signal)).settle pid signal (e.deliverSignal signal)).Pending p x :=
    fun h hs => Machine.Pending.setEntry he hs h
  refine hi.append (n := [.directed pid signal, .fate pid signal (e.deliverSignal signal).fate])
    (by simp [settle, emit]) (.pair ?_) ?_ ?_
  · intro b hb
    cases e.deliverSignal_spec signal with
    | pended hmem _ ho =>
        rw [ho] at hb
        cases hb
        exact hmem
    | dispatched h =>
        have := h.dispatched
        rw [hb] at this
        cases this
  · intro p x h
    refine .inl (hset h ?_)
    cases e.deliverSignal_spec signal with
    | pended _ _ _ _ hp => rw [hp]; exact fun _ => List.mem_insert_of_mem
    | dispatched h => rw [h.pending]; exact List.Subset.refl _
  · intro p x b hev
    rcases List.mem_cons.mp hev with hev | hev
    · cases hev
    · have hev := List.mem_singleton.mp hev
      cases e.deliverSignal_spec signal with
      | pended _ _ _ _ hp =>
          obtain ⟨rfl, rfl, -⟩ := Event.fate.inj hev
          exact ⟨_, m.entries.get_set_self p _, by rw [hp]; exact List.mem_insert_self⟩
      | dispatched h =>
          have hd := h.dispatched
          rw [← (Event.fate.inj hev).2.2] at hd
          cases hd

theorem Settled.directIfRunning (hi : Settled m)
    (hs : (m.entries.get pid).all fun e => e.status != .stopped) :
    Settled (m.directIfRunning pid signal) := by
  unfold Machine.directIfRunning
  split
  · exact hi
  · rename_i e he
    split
    · exact hi
    · rename_i hst
      rw [he, Option.all_some, hst] at hs
      cases hs
    · exact hi.direct he

variable {k : List Frame}

variable (hi : Settled m)
include hi

/-- The dispatch of a signal that was pending. -/
theorem Settled.dispatch (he : m.entries.get pid = some e) :
    Settled (({ m with stack := k }.setEntry pid (e.deletePending signal)).dispatchSignal
      pid signal) := by
  have hd := (e.deletePending signal).dispatchSignal_spec signal
  simp only [Machine.dispatchSignal, Machine.setEntry, OMap.get_set_self]
  refine hi.append (n := [.fate pid signal
    ((e.deletePending signal).dispatchSignal signal).fate]) rfl (.of_none ?_) ?_ ?_
  · rintro ev hev p x rfl
    cases List.mem_singleton.mp hev
  · rintro p x ⟨f, hf, hx⟩
    by_cases hpp : p = pid
    · subst hpp
      rw [he] at hf
      cases hf
      by_cases hxs : x = signal
      · subst hxs
        exact .inr ⟨_, List.mem_singleton_self _, .inl ⟨_, rfl, hd.dispatched⟩⟩
      · refine .inl ⟨_, OMap.get_set_self _ p _, ?_⟩
        rw [hd.pending]
        exact List.mem_filter.mpr ⟨hx, by simpa using hxs⟩
    · refine .inl ⟨f, ?_, hx⟩
      simp only [settle]
      rwa [OMap.get_set_other _ hpp, OMap.get_set_other _ hpp]
  · intro p x b hev
    have hf := (Event.fate.inj (List.mem_singleton.mp hev)).2.2
    have := hd.dispatched
    rw [← hf] at this
    cases this

theorem Settled.deliverPendingSignals :
    Settled (m.deliverPendingSignals pid) := by
  unfold Machine.deliverPendingSignals
  split
  · exact hi
  · split
    · exact hi
    · exact hi.same rfl rfl

theorem Settled.runGroup {pgid next count : Nat} {excludeLeaders : Bool}
    : Settled (m.runGroup pgid signal excludeLeaders next count) := by
  have hpush : ∀ f, Settled (m.push f) := fun f => hi.same rfl rfl
  refine runGroup_rule ?_ (fun _ => hpush _) fun _ _ e he _ => (hpush _).direct (e := e) he
  exact hi.silent (n := [.groupDone pgid signal excludeLeaders count]) rfl
    (by intro ev hev; rw [List.mem_singleton.mp hev]; rfl) fun _ _ h => h

theorem Settled.notifyWaiters {wstatus : BitVec 32} :
    Settled (m.notifyWaiters pid wstatus) := by
  unfold Machine.notifyWaiters
  split
  · exact hi
  · refine hi.silent rfl ?_ fun _ _ h => h
    intro ev hev
    obtain ⟨call, -, rfl⟩ := List.mem_map.mp hev
    rfl

theorem Settled.turn {f : Frame} :
    Settled ({ m with stack := k }.turn f) := by
  have hk : Settled { m with stack := k } := hi.same rfl rfl
  refine turn_rule hk (fun _ _ _ _ => hk.same rfl rfl) (fun pid e signal rest _ he _ hg => ?_)
    (fun _ _ _ _ _ _ => hk.runGroup) fun _ _ _ => hk.notifyWaiters
  rw [← dispatchSignal_eq hg]
  exact hi.dispatch (k := .dispatched pid rest :: k) he

theorem Settled.resume {f : Frame} (hN : Named m)
    (hk : m.stack = f :: k) (hC : notStopped m .ret) : Settled ({ m with stack := k }.resume f) := by
  have hp : Settled { m with stack := k } := hi.same rfl rfl
  cases f with
  | handler pid signal registration saved since =>
      simp only [Machine.resume]
      split
      · exact hp
      · rename_i e he
        refine Settled.deliverPendingSignals (hp.setEntry he ?_)
        unfold ProcessEntry.handlerReturned
        split <;> exact List.Subset.refl _
  | exitHook pid wstatus =>
      simp only [notStopped, hk] at hC
      simp only [Machine.resume, Machine.exitHookReturned]
      split
      · exact hp.same rfl rfl
      · rename_i e he
        split
        · rename_i hpos
          refine Settled.directIfRunning (m := { m with stack := k }.push (.notify pid wstatus))
            (hp.same rfl rfl) ?_
          have he' : m.entries.get pid = some e := he
          rw [he', Option.all_some, Bool.or_eq_true, beq_iff_eq] at hC
          exact hC.resolve_left (Nat.ne_of_gt hpos)
        · exact hp.same rfl rfl
  | driverSpawn pid ppid driver =>
      refine hp.silent (n := []) (by rw [List.append_nil]; rfl) (fun _ h => by cases h) ?_
      rintro p x ⟨e, he, hx⟩
      have hne : p ≠ pid := by
        rintro rfl
        have hnone := hN.not_registered hk
        rw [hnone] at he
        cases he
      exact ⟨e, by rwa [Machine.resume, register, Machine.setEntry, OMap.get_set_other _ hne], hx⟩
  | _ => exact hp

theorem Settled.of_step {a : Action} (hN : Named m) (hC : notStopped m a)
    (h : Step m a m') : Settled m' := by
  have hemit : ∀ ev : Event, ev.silent → Settled (m.emit ev) := fun ev hev =>
    hi.silent (n := [ev]) rfl (fun _ h => List.mem_singleton.mp h ▸ hev) fun _ _ h => h
  cases h with
  | nothing op => exact hi
  | allocated => exact hi.same rfl rfl
  | spawned driver callerPid hb => exact hi.same rfl rfl
  | exited pid exitCode e he hl =>
      exact (hemit (.exited pid exitCode e.termSignal) rfl).setEntry
        (x := e.exit exitCode) he (List.Subset.refl _) |>.same rfl rfl
  | asked pid options e he hl => exact (hemit _ rfl).same rfl rfl
  | waits pid options e he hl => exact (hemit _ rfl).same rfl rfl
  | groupCalled op pgid signal excludeLeaders hs => exact hi.same rfl rfl
  | killed pid signal e he hl hs => exact hi.direct he
  | timed op timers => exact hi.same rfl rfl
  | handlerSet _ _ _ _ he | grouped _ _ _ _ he | sessioned _ _ he =>
      exact hi.setEntry he (List.Subset.refl _)
  | masked pid how set mask e he hm =>
      refine Settled.deliverPendingSignals ?_
      exact ((hemit (.masked pid mask m.stack) rfl).setEntry
        (x := e.setBlocked mask) he (List.Subset.refl _)).same rfl rfl
  | stopped pid e he => exact hi.setEntry he (by rw [ProcessEntry.pending_stop]; exact fun _ => id)
  | continued pid e he => exact hi.setEntry he (by rw [ProcessEntry.pending_cont]; exact fun _ => id)
  | returned f k hk hf => exact hi.resume hN hk hC
  | thrown f k hk hf =>
      have hp : Settled { m with stack := k.dropWhile (!·.outside) } := hi.same rfl rfl
      cases f with
      | handler pid signal registration saved since =>
          simp only [Machine.abandon]
          split
          · exact hp
          · rename_i e he
            exact hp.setEntry he (List.Subset.refl _)
      | _ => exact hp
  | ran f k hk hf => exact hi.turn
  | alarmExpired pid hk =>
      exact Settled.directIfRunning (m := { m with alarmTimers := m.alarmTimers.delete pid })
        (hi.same rfl rfl) hC
  | zombieExpired pid hk =>
      have hz : Settled { m with zombieTimers := m.zombieTimers.erase pid } := hi.same rfl rfl
      simp only [Machine.reap]
      split
      · exact hz
      · rename_i e he
        split
        · exact hz
        · refine hi.append (n := [.reaped pid]) rfl (.of_none ?_) ?_ ?_
          · rintro ev hev p x rfl
            cases List.mem_singleton.mp hev
          · rintro p x ⟨f, hf, hx⟩
            by_cases hpp : p = pid
            · subst hpp
              exact .inr ⟨_, List.mem_singleton_self _, .inr rfl⟩
            · exact .inl ⟨f, by rwa [Machine.emit, OMap.get_delete_other _ hpp], hx⟩
          · intro p x b hev
            cases List.mem_singleton.mp hev

theorem Settled.noLostSignal : NoLostSignal m := by
  intro i pid signal hd
  obtain ⟨f, hf, hb⟩ := hi.followed i pid signal hd
  refine ⟨f, hf, ?_⟩
  cases f with
  | pended blocked =>
      exact .inr ⟨blocked, rfl, hb blocked rfl, hi.kept (i + 1) pid signal blocked hf⟩
  | handled h => exact .inl rfl
  | ignored => exact .inl rfl
  | defaulted => exact .inl rfl

end

/-! ### Every run -/

/-- In every run in which a parent is not stopped when its child's exit is reported, nor a process
when its alarm expires, no signal is lost. -/
theorem noLostSignal_of_notStopped (max : Option Nat) (m : Machine)
    (r : Lts.Reach step (fun m a => notStopped m a) (.boot max) m) : NoLostSignal m := by
  have hi : Named m ∧ Settled m := by
    refine r.invariant (I := fun m => Named m ∧ Settled m) ⟨.boot max, ⟨nofun, nofun⟩⟩ ?_
    intro t a u ht hC h
    exact ⟨ht.1.step h, ht.2.of_step ht.1 hC (step_inv h)⟩
  exact hi.2.noLostSignal

/-- A parent blocks `SIGCHLD`, its child exits, it sets a handler and unblocks the signal. -/
def blockedChildRun : List Action :=
  [.call (.spawn (.ok "wasm") none), .ret, .call (.spawn (.ok "wasm") (some 1)), .ret,
    .call (.sigprocmask 1 0 [17]), .call (.markExited 2 3), .ret, .run,
    .call (.sigaction 1 17 ⟨.user 0, [], 0⟩), .call (.sigprocmask 1 1 [17]), .run, .ret, .run, .run]

theorem noLostSignal_of_notStopped_blockedChild :
    ∃ m, (Lts.execIf step (fun m a => notStopped m a) (.boot none) blockedChildRun = some m ∧
      m.log = [.masked 1 [17] [], .exited 2 3 0, .directed 1 17, .fate 1 17 (.pended [17]),
        .masked 1 [] [], .fate 1 17 (.handled 0)]) ∧ NoLostSignal m := by
  have h : (Lts.execIf step (fun m a => notStopped m a) (.boot none) blockedChildRun).map (·.log) =
      some [.masked 1 [17] [], .exited 2 3 0, .directed 1 17, .fate 1 17 (.pended [17]),
        .masked 1 [] [], .fate 1 17 (.handled 0)] := by
    decide +kernel
  obtain ⟨m, hm, hl⟩ := Option.map_eq_some_iff.mp h
  exact ⟨m, ⟨hm, hl⟩, noLostSignal_of_notStopped none m (.of_execIf hm)⟩

/-- A log that ends with a signal that was only directed. -/
theorem lost_of_last {m : Machine} {log : List Event} {pid signal : Nat}
    (h : m.log = log ++ [.directed pid signal]) : ¬ NoLostSignal m := by
  intro hn
  obtain ⟨f, hf, -⟩ := hn log.length pid signal (by rw [h]; simp)
  rw [h] at hf
  simp at hf

/-- The parent is stopped when its child exits. -/
def stoppedParentRun : List Action :=
  [.call (.spawn (.ok "wasm") none), .ret, .call (.spawn (.ok "wasm") (some 1)), .ret,
    .call (.kill 1 19), .ret, .call (.markExited 2 0), .ret]

/-- A process is stopped when its alarm expires. -/
def stoppedAlarmRun : List Action :=
  [.call (.spawn (.ok "wasm") none), .ret, .call (.alarm 1 5 0), .call (.kill 1 19), .ret,
    .alarmExpiry 1]

/-- `SIGCHLD` and `SIGALRM` for a stopped process are neither pending nor dispatched. -/
theorem noLostSignal_fails :
    (∃ m, Lts.exec step (.boot none) stoppedParentRun = some m ∧ ¬ NoLostSignal m) ∧
      ∃ m, Lts.exec step (.boot none) stoppedAlarmRun = some m ∧ ¬ NoLostSignal m := by
  have hp : (Lts.exec step (.boot none) stoppedParentRun).map (·.log) =
      some ([.directed 1 19, .fate 1 19 .defaulted, .exited 2 0 0] ++ [.directed 1 17]) := by
    decide +kernel
  have ha : (Lts.exec step (.boot none) stoppedAlarmRun).map (·.log) =
      some ([.directed 1 19, .fate 1 19 .defaulted] ++ [.directed 1 14]) := by
    decide +kernel
  obtain ⟨m, hm, hl⟩ := Option.map_eq_some_iff.mp hp
  obtain ⟨m', hm', hl'⟩ := Option.map_eq_some_iff.mp ha
  exact ⟨⟨m, hm, lost_of_last hl⟩, m', hm', lost_of_last hl'⟩

end SecureExec.Process
