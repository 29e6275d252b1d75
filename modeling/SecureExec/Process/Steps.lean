import SecureExec.Process.Table

/-!
# Process — Steps — what a step can do

`Step m a m'` lists the steps of the machine by what they do, with what the code has checked before
it does it; `step_inv` is the inversion of `step`.  The invariants below go through this list.
-/

namespace SecureExec.Process

open Machine

/-! ### Deliveries to a process that has an entry -/

section

variable {m : Machine} {pid : Nat} {e : ProcessEntry}

theorem direct_eq {signal : Nat} (he : m.entries.get pid = some e) : m.direct pid signal =
    (m.emit (.directed pid signal)).settle pid signal (e.deliverSignal signal) := by
  simp only [direct, deliverSignal, emit, he]

theorem dispatchSignal_eq {signal : Nat} (he : m.entries.get pid = some e) :
    m.dispatchSignal pid signal = m.settle pid signal (e.dispatchSignal signal) := by
  simp only [dispatchSignal, he]

variable {P : Machine → Prop}

/-- A turn of the loop of a group: it is done, or it may signal the next process. -/
theorem runGroup_rule {pgid signal next count : Nat} {excludeLeaders : Bool}
    (done : P (m.emit (.groupDone pgid signal excludeLeaders count)))
    (push : ∀ c, P (m.push (.group pgid signal excludeLeaders (next + 1) c)))
    (direct : ∀ c pid e, m.entries.get pid = some e → e.live →
      P ((m.push (.group pgid signal excludeLeaders (next + 1) c)).direct pid signal)) :
    P (m.runGroup pgid signal excludeLeaders next count) := by
  unfold runGroup
  split
  · exact done
  · rename_i pid e he
    split
    · rename_i hc
      dsimp only
      split
      · exact direct _ pid e ((m.entries.get_eq_some_iff pid e).mpr (List.mem_of_getElem? he)) hc.2.1
      · exact push _
    · exact push _

/-- A turn of a frame: nothing, or the frame goes on, or its next signal is dispatched. -/
theorem turn_rule {f : Frame} (stay : P m)
    (push : ∀ pid e rest, m.entries.get pid = some e → P (m.push (.pending pid rest)))
    (dispatch : ∀ pid e signal rest, f = .pending pid (signal :: rest) →
      m.entries.get pid = some e → signal ∉ e.blocked ∧ signal ∈ e.pending →
      ((m.setEntry pid (e.deletePending signal)).push (.dispatched pid rest)).entries.get pid =
        some (e.deletePending signal) →
      P (((m.setEntry pid (e.deletePending signal)).push (.dispatched pid rest)).settle pid signal
        ((e.deletePending signal).dispatchSignal signal)))
    (group : ∀ pgid signal excludeLeaders next count,
      f = .group pgid signal excludeLeaders next count →
      P (m.runGroup pgid signal excludeLeaders next count))
    (notify : ∀ pid wstatus, f = .notify pid wstatus → P (m.notifyWaiters pid wstatus)) :
    P (m.turn f) := by
  cases f with
  | pending pid rest =>
      cases rest with
      | nil => exact stay
      | cons signal rest =>
          simp only [turn, runPending]
          split
          · exact stay
          · rename_i e he
            split
            · rename_i hb
              have hg := m.entries.get_set_self pid (e.deletePending signal)
              rw [dispatchSignal_eq hg]
              exact dispatch pid e signal rest rfl he hb hg
            · exact push pid e rest he
  | dispatched pid rest =>
      simp only [turn, runDispatched]
      split
      · exact stay
      · rename_i e he
        split
        · exact push pid e rest he
        · exact stay
  | group pgid signal excludeLeaders next count => exact group _ _ _ _ _ rfl
  | notify pid wstatus => exact notify pid wstatus rfl
  | _ => exact stay

end

/-- The steps. -/
inductive Step (m : Machine) : Action → Machine → Prop where
  /-- An operation that throws, or finds nothing to do. -/
  | nothing (op : Op) : Step m (.call op) m
  | allocated : Step m (.call .allocatePid) { m with nextPid := m.nextPid + 1 }
  | spawned (driver : String) (callerPid : Option Nat) (hb : m.overBudget = false) :
      Step m (.call (.spawn (.ok driver) callerPid))
        ({ m with nextPid := m.nextPid + 1 }.push
          (.driverSpawn m.nextPid (callerPid.getD 0) driver))
  | exited (pid : Nat) (exitCode : Int) (e : ProcessEntry) (he : m.entries.get pid = some e)
      (hl : e.live) :
      Step m (.call (.markExited pid exitCode))
        ((({ m with alarmTimers := m.alarmTimers.delete pid }.setEntry pid
          (e.exit exitCode)).emit (.exited pid exitCode e.termSignal)).push
            (.exitHook pid (e.exit exitCode).wstatus))
  | asked (pid : Nat) (options : Flags) (e : ProcessEntry) (he : m.entries.get pid = some e)
      (hl : e.live = false) :
      Step m (.call (.waitpid pid options))
        { m.emit (.answered m.nextCall ⟨pid, e.wstatus, e.termSignal⟩) with
          nextCall := m.nextCall + 1 }
  | waits (pid : Nat) (options : Flags) (e : ProcessEntry) (he : m.entries.get pid = some e)
      (hl : e.live) :
      Step m (.call (.waitpid pid options))
        { m.emit (.waiting m.nextCall pid) with
          nextCall := m.nextCall + 1
          waiters := Function.update m.waiters pid (m.waiters pid ++ [m.nextCall]) }
  | groupCalled (op : Op) (pgid signal : Nat) (excludeLeaders : Bool) (hs : signal ≤ 64) :
      Step m (.call op) (m.push (.group pgid signal excludeLeaders 0 0))
  | killed (pid signal : Nat) (e : ProcessEntry) (he : m.entries.get pid = some e)
      (hl : e.live) (hs : 0 < signal ∧ signal ≤ 64) :
      Step m (.call (.kill pid signal)) (m.direct pid signal)
  | timed (op : Op) (timers : OMap Nat Alarm) :
      Step m (.call op) { m with alarmTimers := timers }
  | handlerSet (pid : Nat) (signal : Int) (handler : SignalHandler) (e : ProcessEntry)
      (he : m.entries.get pid = some e) :
      Step m (.call (.sigaction pid signal handler))
        (m.setEntry pid (e.setHandler signal.toNat handler))
  | masked (pid : Nat) (how : Int) (set mask : List Nat) (e : ProcessEntry)
      (he : m.entries.get pid = some e) (hm : e.newMask how set = .ok mask) :
      Step m (.call (.sigprocmask pid how set))
        (((m.setEntry pid (e.setBlocked mask)).emit
          (.masked pid mask m.stack)).deliverPendingSignals pid)
  | stopped (pid : Nat) (e : ProcessEntry) (he : m.entries.get pid = some e) :
      Step m (.call (.stop pid)) (m.setEntry pid e.stop)
  | continued (pid : Nat) (e : ProcessEntry) (he : m.entries.get pid = some e) :
      Step m (.call (.cont pid)) (m.setEntry pid e.cont)
  | grouped (pid pgid target : Nat) (e : ProcessEntry) (he : m.entries.get pid = some e)
      (ht : target = if pgid = 0 then pid else pgid)
      (hg : target ≠ pid → ∃ member,
        (m.entries.values.find? fun f => f.pgid == target && f.live) = some member ∧
          member.sid = e.sid) :
      Step m (.call (.setpgid pid pgid)) (m.setEntry pid { e with pgid := target })
  | sessioned (pid : Nat) (e : ProcessEntry) (he : m.entries.get pid = some e)
      (hp : e.pgid ≠ pid) :
      Step m (.call (.setsid pid)) (m.setEntry pid { e with sid := pid, pgid := pid })
  | returned (f : Frame) (k : List Frame) (hk : m.stack = f :: k) (hf : f.outside) :
      Step m .ret ({ m with stack := k }.resume f)
  | thrown (f : Frame) (k : List Frame) (hk : m.stack = f :: k) (hf : f.outside) :
      Step m .throw ({ m with stack := k.dropWhile (!·.outside) }.abandon f)
  | ran (f : Frame) (k : List Frame) (hk : m.stack = f :: k) (hf : f.outside = false) :
      Step m .run ({ m with stack := k }.turn f)
  | alarmExpired (pid : Nat) (hk : m.stack = []) : Step m (.alarmExpiry pid) (m.alarmExpiry pid)
  | zombieExpired (pid : Nat) (hk : m.stack = []) :
      Step m (.zombieExpiry pid) ({ m with zombieTimers := m.zombieTimers.erase pid }.reap pid)

section Inversion

variable {m m' : Machine} {v : Value}

theorem bind_ok {α β : Type} {x : Except Failure α} {f : α → Except Failure β} {b : β}
    (h : (x >>= f) = .ok b) : ∃ a, x = .ok a ∧ f a = .ok b := by
  cases x with
  | error e => cases h
  | ok a => exact ⟨a, rfl, h⟩

variable {pid : Nat}

theorem lookup_ok {e : ProcessEntry} (h : m.lookup pid = .ok e) :
    m.entries.get pid = some e := by
  unfold lookup at h
  split at h
  · cases h
  · rename_i e' he
    cases h
    exact he

variable {signal : Int}

theorem checkSignal_ok {n : Nat} (h : checkSignal signal = .ok n) :
    signal = n ∧ n ≤ 64 := by
  unfold checkSignal at h
  split at h
  · cases h
  · cases h
    omega

theorem spawn_inv {found : Except Failure String} {callerPid : Option Nat}
    (h : m.spawn found callerPid = .ok (m', v)) :
    Step m (.call (.spawn found callerPid)) m' := by
  obtain ⟨driver, rfl, hr⟩ := bind_ok h
  split at hr
  · cases hr
  · rename_i hb
    cases hr
    exact .spawned driver callerPid (by simpa using hb)

theorem kill_inv {pid : Int} (h : m.kill pid signal = .ok (m', v)) :
    Step m (.call (.kill pid signal)) m' := by
  obtain ⟨n, hn, hr⟩ := bind_ok h
  obtain ⟨rfl, hle⟩ := checkSignal_ok hn
  split at hr
  · cases hr
    exact .groupCalled _ _ n false hle
  · rename_i hp
    split at hr
    · cases hr
    · rename_i e he
      split at hr
      · cases hr
        exact .nothing _
      · rename_i hc
        cases hr
        simp only [Bool.not_eq_true', not_or, Bool.not_eq_false] at hc
        obtain ⟨p, rfl⟩ : ∃ p : Nat, pid = p := ⟨pid.toNat, by omega⟩
        exact .killed p n e he hc.1 ⟨by omega, hle⟩

theorem sigaction_inv {handler : SignalHandler}
    (h : m.sigaction pid signal handler = .ok (m', v)) :
    Step m (.call (.sigaction pid signal handler)) m' := by
  obtain ⟨e, he, h⟩ := bind_ok h
  split at h
  · cases h
  · split at h
    · cases h
    · cases h
      exact .handlerSet pid signal handler e (lookup_ok he)

theorem sigprocmask_inv {how : Int} {set : List Nat}
    (h : m.sigprocmask pid how set = .ok (m', v)) :
    Step m (.call (.sigprocmask pid how set)) m' := by
  obtain ⟨e, he, h⟩ := bind_ok h
  obtain ⟨mask, hm, h⟩ := bind_ok h
  cases h
  exact .masked pid how set mask e (lookup_ok he) hm

theorem alarm_inv {seconds now : Nat} (h : m.alarm pid seconds now = .ok (m', v)) :
    Step m (.call (.alarm pid seconds now)) m' := by
  obtain ⟨e, -, h⟩ := bind_ok h
  split at h
  · cases h
    exact .timed _ _
  · cases h
    exact .timed _ _

theorem markExited_inv (pid : Nat) (exitCode : Int) :
    Step m (.call (.markExited pid exitCode)) (m.markExited pid exitCode) := by
  unfold markExited
  split
  · exact .nothing _
  · rename_i e he
    split
    · exact .exited pid exitCode e he ‹_›
    · exact .nothing _

theorem waitpid_inv {options : Flags} (h : m.waitpid pid options = .ok (m', v)) :
    Step m (.call (.waitpid pid options)) m' := by
  unfold waitpid at h
  split at h
  · cases h
  · rename_i e he
    split at h
    · rename_i hl
      cases h
      exact .asked pid options e he (by simpa using hl)
    · rename_i hl
      split at h
      · cases h
        exact .nothing _
      · cases h
        exact .waits pid options e he (by simpa using hl)

theorem checkGroup_ok {e : ProcessEntry} {target : Nat} {u : Unit}
    (h : m.checkGroup e pid target = .ok u) (ht : target ≠ pid) :
    ∃ member, (m.entries.values.find? fun f => f.pgid == target && f.live) = some member ∧
      member.sid = e.sid := by
  rw [checkGroup, if_pos ht] at h
  split at h
  · cases h
  · rename_i member hm
    split at h
    · cases h
    · rename_i hs
      exact ⟨member, hm, Classical.not_not.mp hs⟩

theorem setpgid_inv {pgid : Nat} (h : m.setpgid pid pgid = .ok (m', v)) :
    Step m (.call (.setpgid pid pgid)) m' := by
  obtain ⟨e, he, h⟩ := bind_ok h
  obtain ⟨u, hu, h⟩ := bind_ok h
  cases h
  exact .grouped pid pgid _ e (lookup_ok he) rfl (checkGroup_ok hu)

theorem setsid_inv (h : m.setsid pid = .ok (m', v)) :
    Step m (.call (.setsid pid)) m' := by
  obtain ⟨e, he, h⟩ := bind_ok h
  split at h
  · cases h
  · rename_i hp
    cases h
    exact .sessioned pid e (lookup_ok he) hp

theorem perform_inv {op : Op} (h : m.perform op = .ok (m', v)) : Step m (.call op) m' := by
  cases op with
  | spawn found callerPid => exact spawn_inv h
  | allocatePid => cases h; exact .allocated
  | markExited pid exitCode => cases h; exact markExited_inv pid exitCode
  | waitpid pid options => exact waitpid_inv h
  | kill pid signal => exact kill_inv h
  | killGroupExcludeLeaders pgid signal =>
      obtain ⟨n, hn, h⟩ := bind_ok h
      cases h
      exact .groupCalled _ _ n true (checkSignal_ok hn).2
  | alarm pid seconds now => exact alarm_inv h
  | sigaction pid signal handler => exact sigaction_inv h
  | sigprocmask pid how set => exact sigprocmask_inv h
  | stop pid =>
      obtain ⟨e, he, h⟩ := bind_ok h
      cases h
      exact .stopped pid e (lookup_ok he)
  | cont pid =>
      obtain ⟨e, he, h⟩ := bind_ok h
      cases h
      exact .continued pid e (lookup_ok he)
  | setpgid pid pgid => exact setpgid_inv h
  | setsid pid => exact setsid_inv h

/-- **The inversion of `step`.** -/
theorem step_inv {a : Action} (h : step m a = some m') : Step m a m' := by
  cases a with
  | call op =>
      simp only [step] at h
      split at h
      · split at h
        · rename_i hp
          cases h
          exact perform_inv hp
        · cases h
          exact .nothing op
      · cases h
  | ret =>
      simp only [step] at h
      split at h
      · cases h
      · rename_i f k hk
        split at h
        · cases h
          exact .returned f k hk ‹_›
        · cases h
  | throw =>
      simp only [step] at h
      split at h
      · cases h
      · rename_i f k hk
        split at h
        · cases h
          exact .thrown f k hk ‹_›
        · cases h
  | run =>
      simp only [step] at h
      split at h
      · cases h
      · rename_i f k hk
        split at h
        · cases h
        · rename_i hf
          cases h
          exact .ran f k hk (by simpa using hf)
  | alarmExpiry pid =>
      simp only [step] at h
      split at h
      · rename_i hk
        cases h
        exact .alarmExpired pid hk.1
      · cases h
  | zombieExpiry pid =>
      simp only [step] at h
      split at h
      · rename_i hk
        cases h
        exact .zombieExpired pid hk.1
      · cases h

end Inversion

end SecureExec.Process
