import SecureExec.Process.Pids

/-!
# Process — Budget — the process limit

`spawnInternal` compares `maxProcesses` with `runningCount`.  That count leaves out the processes
that are stopped, which `SIGCONT` makes run again, and those whose `driver.spawn` has not returned,
which are registered only afterwards.  `withinBudget` asks of every spawn that passes the check that
the limit has room for these too; then the processes that have not exited stay within the limit,
and the running ones with them.
-/

namespace SecureExec.Process

open Machine

/-- A spawn that passes the check finds room beside the stopped and the spawning processes. -/
def withinBudget (m : Machine) : Action → Bool
  | .call (.spawn (.ok _) _) =>
      m.maxProcesses.all fun max =>
        m.overBudget || decide (m.liveCount + (spawning m.stack).length < max)
  | _ => true

/-- The processes that have not exited and the spawning ones fit in the limit. -/
structure BudgetOk (max : Nat) (m : Machine) : Prop where
  named : Named m
  limit : m.maxProcesses = some max
  room : m.liveCount + (spawning m.stack).length ≤ max

section

variable {max : Nat} {m m' : Machine} {a : Action}

theorem runningCount_le_liveCount (m : Machine) : m.runningCount ≤ m.liveCount := by
  refine List.countP_mono_left fun e _ h => ?_
  rw [beq_iff_eq] at h
  simp [ProcessEntry.live, h]

theorem BudgetOk.boot (max : Nat) : BudgetOk max (.boot (some max)) :=
  ⟨.boot _, rfl, Nat.zero_le _⟩

variable (hi : BudgetOk max m)
include hi

theorem BudgetOk.quiet (h : Quiet m m') : BudgetOk max m' := by
  refine ⟨hi.named.quiet h, h.maxProcesses.trans hi.limit, ?_⟩
  rw [h.liveCount]
  exact (Nat.add_le_add_left h.spawning.length_le _).trans hi.room

theorem BudgetOk.set {pid : Nat} {e x : ProcessEntry}
    (he : m.entries.get pid = some e) (h : x.live = e.live) :
    BudgetOk max (m.setEntry pid x) := by
  refine ⟨hi.named.setEntry he x, hi.limit, ?_⟩
  rw [Quiet.liveCount_setEntry he h]
  exact hi.room

theorem BudgetOk.step (hC : withinBudget m a)
    (h : step m a = some m') : BudgetOk max m' := by
  have hn := hi.named.step h
  cases step_effect h with
  | quiet h => exact hi.quiet h
  | allocated => exact ⟨hn, hi.limit, hi.room⟩
  | spawned driver callerPid hb =>
      refine ⟨hn, hi.limit, ?_⟩
      have hlt : m.liveCount + (spawning m.stack).length < max := by
        simpa [withinBudget, hi.limit, hb] using hC
      exact hlt
  | exited pid exitCode e he hl h₁ hq =>
      subst h₁
      refine BudgetOk.quiet (m := m.setEntry pid (e.exit exitCode))
        ⟨hi.named.setEntry he _, hi.limit, ?_⟩ hq
      have hc := m.entries.countP_values_set (v := e.exit exitCode) ProcessEntry.live he
      rw [hl, show (e.exit exitCode).live = false from rfl] at hc
      refine le_trans (Nat.add_le_add_right ?_ _) hi.room
      exact Nat.le_of_lt (Nat.lt_of_lt_of_eq (Nat.lt_succ_self _) hc)
  | registered pid ppid driver k hk =>
      refine ⟨hn, hi.limit, ?_⟩
      -- one process more, one spawn less
      have hc : ({ m with stack := k }.register pid ppid driver).liveCount = m.liveCount + 1 :=
        m.entries.countP_values_add ProcessEntry.live (hi.named.not_registered hk)
      have hr := hi.room
      rw [hk] at hr
      rw [hc, Nat.add_right_comm]
      exact hr
  | grouped pid pgid target e he ht hg => exact hi.set (x := { e with pgid := target }) he rfl
  | sessioned pid e he hp => exact hi.set (x := { e with sid := pid, pgid := pid }) he rfl
  | reaped pid e he hl h₁ hq =>
      subst h₁
      refine BudgetOk.quiet (m := { m with entries := m.entries.delete pid }.emit (.reaped pid))
        ⟨hi.named.of_effect (.reaped pid e he hl rfl (.refl _)), hi.limit, ?_⟩ hq
      have hc := m.entries.countP_values_delete ProcessEntry.live he
      rw [hl] at hc
      exact le_trans (Nat.add_le_add_right (Nat.le_of_eq hc) _) hi.room

end

/-! ### Every run -/

/-- In every run in which each spawn that passes the check finds room beside the stopped and the
spawning processes, neither the running processes nor those that have not exited exceed the
limit. -/
theorem processes_le_of_withinBudget (max : Nat) (m : Machine)
    (r : Lts.Reach step (fun m a => withinBudget m a) (.boot (some max)) m) :
    m.runningCount ≤ max ∧ m.liveCount ≤ max := by
  have hi : BudgetOk max m :=
    r.invariant (I := BudgetOk max) (.boot max) fun t a u ht hC h => ht.step hC h
  have hl : m.liveCount ≤ max := (Nat.le_add_right _ _).trans hi.room
  exact ⟨(runningCount_le_liveCount m).trans hl, hl⟩

/-- Two processes under a limit of two, one stopped and continued; a third is refused, and spawned
once one has exited. -/
def fullRun : List Action :=
  [.call (.spawn (.ok "wasm") none), .ret, .call (.spawn (.ok "wasm") (some 1)), .ret,
    .call (.spawn (.ok "wasm") (some 1)), .call (.kill 2 20), .ret, .call (.kill 2 18), .ret,
    .call (.markExited 2 0), .ret, .run, .call (.spawn (.ok "node") (some 1)), .ret]

theorem processes_le_of_withinBudget_full :
    ∃ m, (Lts.execIf step (fun m a => withinBudget m a) (.boot (some 2)) fullRun = some m ∧
      m.entries.keys = [1, 2, 3]) ∧ m.runningCount ≤ 2 ∧ m.liveCount ≤ 2 := by
  have h : (Lts.execIf step (fun m a => withinBudget m a) (.boot (some 2)) fullRun).map
      (·.entries.keys) = some [1, 2, 3] := by decide +kernel
  obtain ⟨m, hm, hk⟩ := Option.map_eq_some_iff.mp h
  exact ⟨m, ⟨hm, hk⟩, processes_le_of_withinBudget 2 m (.of_execIf hm)⟩

/-- Under a limit of one, a process is stopped, a second is spawned, and the first continues. -/
def stoppedRun : List Action :=
  [.call (.spawn (.ok "wasm") none), .ret, .call (.kill 1 19), .ret,
    .call (.spawn (.ok "wasm") none), .ret, .call (.kill 1 18), .ret]

/-- Two processes run under a limit of one. -/
theorem processes_le_fails :
    ∃ m, Lts.Reach step Lts.Any (.boot (some 1)) m ∧ ¬ m.runningCount ≤ 1 ∧ ¬ m.liveCount ≤ 1 :=
  Lts.Reach.exists_of_exec step (.boot (some 1)) stoppedRun (by decide +kernel)

end SecureExec.Process
