import Mathlib.Data.List.Basic
import SecureExec.Lib.Lts

/-!
# Node — Exit — how the exit of a process is reported

A process of the Node runtime driver (`spawn` and `_executeAsync` of `kernel-runtime.ts`) as a
machine.  `_executeAsync` runs from one `await` to the next; in between, the process can be killed
and its standard input written and closed.  The termination of its isolate is a promise: what waits
for it runs later, in the order in which it asked.

* `Killable`: what a step has to meet so that only one of the paths reports the exit.
* `Stage`: where the process and its reports are.
* `exit_reported_once`: in a run whose steps all meet this, `onExit` is called once, with the code
  that `wait` resolves with.
* `exit_reported_twice`: a process that is killed before its entry is found to be missing.
-/

namespace NodeDriver
open Lts

/-! ### Values -/

/-- Standard input: a queue that the process reads, or chunks that are joined before it starts. -/
inductive Stdin where
  | live (queue : List (List UInt8)) (closed : Bool) (waiter : Bool)
  /-- `scheduled`: the microtask has not run.  `data`: what the promise was resolved with, the bytes
  of a text or `undefined`. -/
  | batch (chunks : List (List UInt8)) (scheduled : Bool) (data : Option (Option (List UInt8)))
  deriving DecidableEq

/-- The `await`s of `_executeAsync`. -/
inductive Main where
  | resolvingEntry
  | awaitingStdin
  | executing
  /-- The isolate is terminated: after a result, after an error, after a kill. -/
  | terminating (code : Int)
  | cleaning
  | discarding
  | ended
  deriving DecidableEq

/-- What runs when the termination of the isolate has settled. -/
inductive Reaction where
  | main
  | reportKilledExit (signal : Int)
  deriving DecidableEq

/-- What throws while a process starts. -/
inductive Failure where
  | entry
  | systemDriver
  | executionDriver
  deriving DecidableEq

structure State where
  stdin : Stdin
  /-- What `exitPromise` was resolved with. -/
  exit : Option Int
  killedSignal : Option Int
  killExitReported : Bool
  /-- Whether `_activeDrivers` has the process. -/
  activeDriver : Bool
  /-- The promise in `_terminatingDrivers`, as what waits for it. -/
  terminatingDriver : Option (List Reaction)
  /-- What waited for a termination that has settled. -/
  jobs : List Reaction
  main : Main
  deriving DecidableEq

inductive Note where
  /-- A kill that found the exit unresolved. -/
  | killed (signal : Int)
  | onExit (code : Int)
  deriving DecidableEq

inductive Event where
  | writeStdin (data : List UInt8)
  | closeStdin
  | stdinMicrotask
  | readStdin
  | kill (signal : Int)
  /-- `_resolveEntry` settles; `fails` is what throws from there on. -/
  | entryResolved (fails : Option Failure)
  /-- `batchStdinPromise` is resolved. -/
  | stdinResolved (fails : Bool)
  /-- `exec` settles: with an exit code, or with an error. -/
  | executed (result : Option Int)
  /-- `driver.terminate()` settles; an error is caught. -/
  | driverTerminated
  | job
  deriving DecidableEq

/-! ### Standard input -/

namespace Stdin

def write (data : List UInt8) : Stdin → Stdin
  | .live queue closed waiter =>
    if closed then .live queue closed waiter
    else if waiter then .live queue closed false
    else .live (queue ++ [data]) closed waiter
  | .batch chunks scheduled d => .batch (chunks ++ [data]) scheduled d

def close : Stdin → Stdin
  | .live queue _ _ => .live queue true false
  | .batch chunks scheduled none =>
    .batch chunks scheduled (some (if chunks.isEmpty then none else some chunks.flatten))
  | .batch chunks scheduled (some d) => .batch chunks scheduled (some d)

/-- `streamCloseStdin()`, which a kill calls in streaming mode only. -/
def closeLive : Stdin → Stdin
  | .live queue _ _ => .live queue true false
  | s => s

def microtask : Stdin → Option Stdin
  | .batch chunks true none => some (.batch chunks false (if chunks.isEmpty then some none else none))
  | .batch chunks true (some d) => some (.batch chunks false (some d))
  | _ => none

def read : Stdin → Option Stdin
  | .live (_ :: queue) closed waiter => some (.live queue closed waiter)
  | .live [] closed waiter => some (.live [] closed (if closed then waiter else true))
  | .batch _ _ _ => none

end Stdin

/-! ### Steps -/

namespace State

/-- `spawn`, up to the first `await` of `_executeAsync`. -/
def spawn (streamStdin : Bool) : State where
  stdin := if streamStdin then .live [] false false else .batch [] true none
  exit := none
  killedSignal := none
  killExitReported := false
  activeDriver := false
  terminatingDriver := none
  jobs := []
  main := .resolvingEntry

def resolveExit (s : State) (code : Int) : State := { s with exit := s.exit.or (some code) }

def reportKilledExit (s : State) (signal : Int) : State × List Note :=
  if s.killExitReported then (s, [])
  else ({ s with killExitReported := true }.resolveExit (128 + signal), [.onExit (128 + signal)])

/-- `_terminateDriver`, and what is to run when it has settled. -/
def terminateDriver (s : State) (r : Reaction) : State :=
  { s with terminatingDriver := some (s.terminatingDriver.getD [] ++ [r]) }

def kill (s : State) (signal : Int) : State × List Note :=
  if s.exit.isSome then (s, [])
  else
    let signal := if signal > 0 then signal else 15
    let s := { s with killedSignal := some signal, stdin := s.stdin.closeLive }
    if s.activeDriver || s.terminatingDriver.isSome then
      (s.terminateDriver (.reportKilledExit signal), [.killed signal])
    else ((s.reportKilledExit signal).1, .killed signal :: (s.reportKilledExit signal).2)

/-- `resolveExit(code); proc.onExit?.(code)`, the end of `_executeAsync`. -/
def report (s : State) (code : Int) : State × List Note :=
  ({ s with main := .ended }.resolveExit code, [.onExit code])

/-- The `catch` clause. -/
def throw (s : State) : State × List Note :=
  if s.activeDriver then ({ s with main := .cleaning }.terminateDriver .main, []) else s.report 1

/-- From the construction of the isolate to `exec`. -/
def launch (s : State) (fails : Bool) : State × List Note :=
  if fails then s.throw
  else if s.killedSignal.isSome then
    ({ s with activeDriver := true, main := .discarding }.terminateDriver .main, [])
  else ({ s with activeDriver := true, main := .executing }, [])

def entryResolved (s : State) (fails : Option Failure) : State × List Note :=
  if fails = some .entry then s.throw
  else if s.killedSignal.isSome then ({ s with main := .ended }, [])
  else if fails = some .systemDriver then s.throw
  else
    match s.stdin with
    | .batch _ _ _ => ({ s with main := .awaitingStdin }, [])
    | .live _ _ _ => s.launch (fails = some .executionDriver)

def stdinResolved (s : State) (fails : Bool) : State × List Note :=
  if s.killedSignal.isSome then ({ s with main := .ended }, []) else s.launch fails

def executed (s : State) : Option Int → State × List Note
  | some code => ({ s with main := .terminating code }.terminateDriver .main, [])
  | none => s.throw

def runJob (s : State) : Reaction → Option (State × List Note)
  | .reportKilledExit signal => some (s.reportKilledExit signal)
  | .main =>
    match s.main with
    | .terminating code => some (s.report code)
    | .cleaning => some (s.report 1)
    | .discarding => some ({ s with main := .ended }, [])
    | _ => none

end State

def step (s : State) : Event → Option (State × List Note)
  | .writeStdin data => some ({ s with stdin := s.stdin.write data }, [])
  | .closeStdin => some ({ s with stdin := s.stdin.close }, [])
  | .stdinMicrotask => s.stdin.microtask.map fun stdin => ({ s with stdin }, [])
  | .readStdin =>
    if s.main = .executing then s.stdin.read.map fun stdin => ({ s with stdin }, []) else none
  | .kill signal => some (s.kill signal)
  | .entryResolved fails =>
    if s.main = .resolvingEntry then some (s.entryResolved fails) else none
  | .stdinResolved fails =>
    match s.main, s.stdin with
    | .awaitingStdin, .batch _ _ (some _) => some (s.stdinResolved fails)
    | _, _ => none
  | .executed result => if s.main = .executing then some (s.executed result) else none
  | .driverTerminated =>
    match s.terminatingDriver with
    | some reactions =>
      some ({ s with
        activeDriver := false
        terminatingDriver := none
        jobs := s.jobs ++ reactions }, [])
    | none => none
  | .job =>
    match s.jobs with
    | r :: jobs => { s with jobs }.runJob r
    | [] => none

/-! ### The property -/

def reports (log : List Note) : List Int :=
  log.filterMap fun
    | .onExit code => some code
    | _ => none

/-- The signals of the kills that took effect. -/
def kills (log : List Note) : List Int :=
  log.filterMap fun
    | .killed signal => some signal
    | _ => none

/-- The exit is reported once, with the code that `wait` resolves with. -/
structure ReportedOnce (s : State) (log : List Note) : Prop where
  once : reports log = s.exit.toList
  killed : kills log ≠ [] → ∀ code ∈ s.exit, ∃ signal ∈ kills log, code = 128 + signal
  /-- When nothing is left to run, it was reported. -/
  ends : s.main = .ended ∨ kills log ≠ [] → s.terminatingDriver = none → s.jobs = [] → s.exit.isSome

/-! ### The condition -/

/-- A kill comes before the program has finished, and after it the start-up does not fail and the
program does not finish. -/
def Killable (s : State × List Note) : Event → Prop
  | .kill _ => s.1.exit = none →
    s.1.main = .resolvingEntry ∨ s.1.main = .awaitingStdin ∨ s.1.main = .executing
  | .entryResolved fails => s.1.killedSignal.isSome → fails ≠ some .entry
  | .executed _ => s.1.killedSignal = none
  | _ => True

instance (s : State × List Note) (e : Event) : Decidable (Killable s e) := by
  cases e <;> unfold Killable <;> infer_instance

/-! ### The invariant -/

section

variable (log ns : List Note)

@[simp] theorem reports_append : reports (log ++ ns) = reports log ++ reports ns :=
  List.filterMap_append

@[simp] theorem kills_append : kills (log ++ ns) = kills log ++ kills ns := List.filterMap_append

end

/-- No kill took effect, and nothing was reported. -/
structure Quiet (s : State) (log : List Note) : Prop where
  exit : s.exit = none
  killedSignal : s.killedSignal = none
  reported : s.killExitReported = false
  reports : reports log = []
  kills : kills log = []

theorem Quiet.not_killed {s : State} {log : List Note} (h : Quiet s log) :
    ¬ s.killedSignal.isSome := by
  rw [h.killedSignal]
  simp

/-- What is to run reports a kill. -/
def Reports (log : List Note) (rs : List Reaction) : Prop :=
  ∀ r ∈ rs, ∃ signal ∈ kills log, r = .reportKilledExit signal

/-- No driver is active or being terminated. -/
structure NoDriver (s : State) : Prop where
  active : s.activeDriver = false
  terminating : s.terminatingDriver = none

namespace Reports

variable {log : List Note} {rs : List Reaction} {signal : Int}

theorem nil (log : List Note) : Reports log [] := fun _ h => by cases h

theorem append (h : Reports log rs) (ns : List Note) : Reports (log ++ ns) rs := by
  intro r hr
  obtain ⟨signal, hmem, rfl⟩ := h r hr
  refine ⟨signal, ?_, rfl⟩
  rw [kills_append]
  exact List.mem_append_left _ hmem

theorem last (h : signal ∈ kills log) : Reports log [.reportKilledExit signal] := by
  intro r hr
  exact ⟨signal, h, List.mem_singleton.mp hr⟩

theorem add {rs' : List Reaction} (h : Reports log rs) (h' : Reports log rs') :
    Reports log (rs ++ rs') := by
  intro r hr
  exact (List.mem_append.mp hr).elim (h r) (h' r)

end Reports

/-- Where a process and its reports are. -/
inductive Stage (s : State) (log : List Note) : Prop where
  | starting (quiet : Quiet s log) (none : NoDriver s) (jobs : s.jobs = [])
      (main : s.main = .resolvingEntry ∨ s.main = .awaitingStdin)
  | running (quiet : Quiet s log) (active : s.activeDriver = true)
      (terminating : s.terminatingDriver = none) (jobs : s.jobs = []) (main : s.main = .executing)
  /-- The program has finished, and its isolate is terminated. -/
  | finishing (quiet : Quiet s log)
      (waits : s.terminatingDriver = some [.main] ∧ s.jobs = [] ∨ NoDriver s ∧ s.jobs = [.main])
      (main : (∃ code, s.main = .terminating code) ∨ s.main = .cleaning)
  | finished {code : Int} (exit : s.exit = some code) (reports : reports log = [code])
      (kills : kills log = []) (none : NoDriver s) (jobs : s.jobs = []) (main : s.main = .ended)
  /-- A kill waits until the isolate is terminated. -/
  | dying {rs : List Reaction} (exit : s.exit = none) (reported : s.killExitReported = false)
      (reports : reports log = []) (killed : s.killedSignal.isSome) (active : s.activeDriver = true)
      (terminating : s.terminatingDriver = some rs) (waits : Reports log rs) (some : rs ≠ [])
      (jobs : s.jobs = []) (main : s.main = .executing)
  /-- The isolate of a killed process is terminated. -/
  | dead (exit : s.exit = none) (reported : s.killExitReported = false)
      (reports : reports log = []) (killed : s.killedSignal.isSome) (none : NoDriver s)
      (waits : Reports log s.jobs) (some : s.jobs ≠ []) (main : s.main = .executing)
  | killed {signal : Int} (exit : s.exit = some (128 + signal)) (hsignal : signal ∈ kills log)
      (reported : s.killExitReported = true) (reports : reports log = [128 + signal])
      (killed : s.killedSignal.isSome) (none : NoDriver s) (waits : Reports log s.jobs)
      (main : s.main = .resolvingEntry ∨ s.main = .awaitingStdin ∨ s.main = .executing ∨
        s.main = .ended)

namespace Stage

variable {s : State} {log : List Note}

theorem spawn (streamStdin : Bool) : Stage (.spawn streamStdin) [] :=
  .starting ⟨rfl, rfl, rfl, rfl, rfl⟩ ⟨rfl, rfl⟩ rfl (.inl rfl)

/-- Standard input is of no account. -/
theorem stdin (k : Stage s log) (stdin : Stdin) : Stage { s with stdin } log := by
  cases k with
  | starting quiet none jobs main =>
      exact .starting ⟨quiet.1, quiet.2, quiet.3, quiet.4, quiet.5⟩ ⟨none.1, none.2⟩ jobs main
  | running quiet active terminating jobs main =>
      exact .running ⟨quiet.1, quiet.2, quiet.3, quiet.4, quiet.5⟩ active terminating jobs main
  | finishing quiet waits main =>
      refine .finishing ⟨quiet.1, quiet.2, quiet.3, quiet.4, quiet.5⟩ ?_ main
      exact waits.imp_right fun h => ⟨⟨h.1.1, h.1.2⟩, h.2⟩
  | finished exit reports kills none jobs main =>
      exact .finished exit reports kills ⟨none.1, none.2⟩ jobs main
  | dying exit reported reports killed active terminating waits some jobs main =>
      exact .dying exit reported reports killed active terminating waits some jobs main
  | dead exit reported reports killed none waits some main =>
      exact .dead exit reported reports killed ⟨none.1, none.2⟩ waits some main
  | killed exit hsignal reported reports killed none waits main =>
      exact .killed exit hsignal reported reports killed ⟨none.1, none.2⟩ waits main

theorem reportedOnce (k : Stage s log) : ReportedOnce s log := by
  cases k with
  | starting quiet none jobs main =>
      refine ⟨by rw [quiet.exit, quiet.reports]; rfl, fun h => absurd quiet.kills h, ?_⟩
      rintro (h | h)
      · rcases main with hm | hm <;> rw [hm] at h <;> cases h
      · exact absurd quiet.kills h
  | running quiet active terminating jobs main =>
      refine ⟨by rw [quiet.exit, quiet.reports]; rfl, fun h => absurd quiet.kills h, ?_⟩
      rintro (h | h)
      · rw [main] at h
        cases h
      · exact absurd quiet.kills h
  | finishing quiet waits main =>
      refine ⟨by rw [quiet.exit, quiet.reports]; rfl, fun h => absurd quiet.kills h, ?_⟩
      rintro (h | h)
      · rcases main with ⟨code, hm⟩ | hm <;> rw [hm] at h <;> cases h
      · exact absurd quiet.kills h
  | finished exit reports kills none jobs main =>
      refine ⟨by rw [exit, reports]; rfl, fun h => absurd kills h, ?_⟩
      intro _ _ _
      rw [exit]
      rfl
  | dying exit reported reports killed active terminating waits some jobs main =>
      refine ⟨by rw [exit, reports]; rfl, ?_, ?_⟩
      · intro _ code h
        rw [exit] at h
        cases h
      · intro _ h
        rw [terminating] at h
        cases h
  | dead exit reported reports killed none waits some main =>
      refine ⟨by rw [exit, reports]; rfl, ?_, fun _ _ h => absurd h some⟩
      intro _ code h
      rw [exit] at h
      cases h
  | @killed signal exit hsignal reported reports killed none waits main =>
      refine ⟨by rw [exit, reports]; rfl, ?_, ?_⟩
      · intro _ code h
        rw [exit] at h
        cases h
        exact ⟨signal, hsignal, rfl⟩
      · intro _ _ _
        rw [exit]
        rfl

/-- A program that has not finished is killed. -/
theorem kill (k : Stage s log) (signal : Int) (h : s.exit = none →
      s.main = .resolvingEntry ∨ s.main = .awaitingStdin ∨ s.main = .executing) :
    Stage (s.kill signal).1 (log ++ (s.kill signal).2) := by
  have hsame : s.exit.isSome → Stage (s.kill signal).1 (log ++ (s.kill signal).2) := by
    intro he
    rw [State.kill, if_pos he, List.append_nil]
    exact k
  -- no driver is active: the kill is reported at once
  have hreports : s.exit = none → s.killExitReported = false → reports log = [] → NoDriver s →
      Reports log s.jobs → (s.main = .resolvingEntry ∨ s.main = .awaitingStdin ∨
        s.main = .executing ∨ s.main = .ended) →
      Stage (s.kill signal).1 (log ++ (s.kill signal).2) := by
    intro exit reported reports none waits main
    have hkill : s.kill signal =
        ({ s with
            killedSignal := some (if signal > 0 then signal else 15)
            stdin := s.stdin.closeLive
            killExitReported := true
            exit := some (128 + if signal > 0 then signal else 15) },
          [.killed (if signal > 0 then signal else 15),
            .onExit (128 + if signal > 0 then signal else 15)]) := by
      simp [State.kill, State.reportKilledExit, State.resolveExit, exit, reported, none.active,
        none.terminating]
    rw [hkill]
    refine .killed rfl ?_ rfl ?_ rfl ⟨none.active, none.terminating⟩ (waits.append _) main
    · simp [kills]
    · rw [reports_append, reports]
      rfl
  cases k with
  | starting quiet none jobs main =>
      refine hreports quiet.exit quiet.reported quiet.reports none ?_ ?_
      · rw [jobs]
        exact .nil _
      · exact main.imp_right .inl
  | running quiet active terminating jobs main =>
      have hkill : s.kill signal =
          ({ s with
              killedSignal := some (if signal > 0 then signal else 15)
              stdin := s.stdin.closeLive
              terminatingDriver := some [.reportKilledExit (if signal > 0 then signal else 15)] },
            [.killed (if signal > 0 then signal else 15)]) := by
        simp [State.kill, State.terminateDriver, quiet.exit, active, terminating]
      rw [hkill]
      refine .dying quiet.exit quiet.reported ?_ rfl active rfl ?_ (by simp) jobs main
      · rw [reports_append, quiet.reports]
        rfl
      · exact .last (by simp [kills])
  | finishing quiet waits main =>
      rcases h quiet.exit with hm | hm | hm <;> rcases main with ⟨code, hm'⟩ | hm' <;>
        rw [hm] at hm' <;> cases hm'
  | finished exit reports kills none jobs main => exact hsame (by rw [exit]; rfl)
  | @dying rs exit reported reports killed active terminating waits some jobs main =>
      have hkill : s.kill signal =
          ({ s with
              killedSignal := Option.some (if signal > 0 then signal else 15)
              stdin := s.stdin.closeLive
              terminatingDriver := Option.some
                (rs ++ [.reportKilledExit (if signal > 0 then signal else 15)]) },
            [.killed (if signal > 0 then signal else 15)]) := by
        simp [State.kill, State.terminateDriver, exit, active, terminating]
      rw [hkill]
      refine .dying exit reported ?_ rfl active rfl ?_ (by simp) jobs main
      · rw [reports_append, reports]
        rfl
      · exact (waits.append _).add (.last (by simp [kills]))
  | dead exit reported reports killed none waits some main =>
      exact hreports exit reported reports none waits (.inr (.inr (.inl main)))
  | killed exit hsignal reported reports killed none waits main =>
      exact hsame (by rw [exit]; rfl)

/-- An error while no driver is active. -/
theorem throw (quiet : Quiet s log) (none : NoDriver s) (jobs : s.jobs = []) :
    Stage s.throw.1 (log ++ s.throw.2) := by
  rw [State.throw, none.active]
  refine .finished (show _ = some (1 : Int) from ?_) ?_ ?_ ⟨none.1, none.2⟩ jobs rfl
  · simp [State.report, State.resolveExit, quiet.exit]
  · rw [reports_append, quiet.reports]
    rfl
  · rw [kills_append, quiet.kills]
    rfl

theorem launch (quiet : Quiet s log) (none : NoDriver s) (jobs : s.jobs = []) (fails : Bool) :
    Stage (s.launch fails).1 (log ++ (s.launch fails).2) := by
  rw [State.launch]
  split
  · exact throw quiet none jobs
  · rw [if_neg quiet.not_killed, List.append_nil]
    exact .running ⟨quiet.1, quiet.2, quiet.3, quiet.4, quiet.5⟩ rfl none.terminating jobs rfl

variable (k : Stage s log)
include k

/-- The entry is resolved; for a killed process, nothing follows. -/
theorem entryResolved (hmain : s.main = .resolvingEntry)
    (fails : Option Failure) (h : s.killedSignal.isSome → fails ≠ some .entry) :
    Stage (s.entryResolved fails).1 (log ++ (s.entryResolved fails).2) := by
  cases k with
  | starting quiet none jobs main =>
      rw [State.entryResolved]
      split
      · exact throw quiet none jobs
      · rw [if_neg quiet.not_killed]
        split
        · exact throw quiet none jobs
        · split
          · rw [List.append_nil]
            exact .starting ⟨quiet.1, quiet.2, quiet.3, quiet.4, quiet.5⟩ ⟨none.1, none.2⟩ jobs
              (.inr rfl)
          · exact launch quiet none jobs _
  | killed exit hsignal reported reports killed none waits main =>
      rw [State.entryResolved, if_neg (h killed), if_pos killed, List.append_nil]
      exact .killed exit hsignal reported reports killed ⟨none.1, none.2⟩ waits
        (.inr (.inr (.inr rfl)))
  | running _ _ _ _ main | dying _ _ _ _ _ _ _ _ _ main | dead _ _ _ _ _ _ _ main
  | finished _ _ _ _ _ main => cases hmain.symm.trans main
  | finishing _ _ main =>
      rcases main with ⟨code, hm⟩ | hm <;> cases hmain.symm.trans hm

theorem stdinResolved (hmain : s.main = .awaitingStdin) (fails : Bool) :
    Stage (s.stdinResolved fails).1 (log ++ (s.stdinResolved fails).2) := by
  cases k with
  | starting quiet none jobs main =>
      rw [State.stdinResolved, if_neg quiet.not_killed]
      exact launch quiet none jobs fails
  | killed exit hsignal reported reports killed none waits main =>
      rw [State.stdinResolved, if_pos killed, List.append_nil]
      exact .killed exit hsignal reported reports killed ⟨none.1, none.2⟩ waits
        (.inr (.inr (.inr rfl)))
  | running _ _ _ _ main | dying _ _ _ _ _ _ _ _ _ main | dead _ _ _ _ _ _ _ main
  | finished _ _ _ _ _ main => cases hmain.symm.trans main
  | finishing _ _ main =>
      rcases main with ⟨code, hm⟩ | hm <;> cases hmain.symm.trans hm

/-- A program finishes that was not killed. -/
theorem executed (hmain : s.main = .executing) (result : Option Int)
    (h : s.killedSignal = none) :
    Stage (s.executed result).1 (log ++ (s.executed result).2) := by
  have hkilled : s.killedSignal.isSome → False := by
    rw [h]
    simp
  cases k with
  | running quiet active terminating jobs main =>
      have hquiet : ∀ m, Quiet ({ s with main := m }.terminateDriver .main) log := fun m =>
        ⟨quiet.1, quiet.2, quiet.3, quiet.4, quiet.5⟩
      cases result with
      | some code =>
          rw [State.executed, List.append_nil]
          refine .finishing (hquiet _) (.inl ⟨?_, jobs⟩) (.inl ⟨code, rfl⟩)
          simp [State.terminateDriver, terminating]
      | none =>
          rw [State.executed, State.throw, if_pos active, List.append_nil]
          refine .finishing (hquiet _) (.inl ⟨?_, jobs⟩) (.inr rfl)
          simp [State.terminateDriver, terminating]
  | dying _ _ _ killed _ _ _ _ _ _ | dead _ _ _ killed _ _ _ _ | killed _ _ _ _ killed _ _ _ =>
      exact (hkilled killed).elim
  | starting _ _ _ main => rcases main with hm | hm <;> cases hmain.symm.trans hm
  | finishing _ _ main =>
      rcases main with ⟨code, hm⟩ | hm <;> cases hmain.symm.trans hm
  | finished _ _ _ _ _ main => cases hmain.symm.trans main

theorem driverTerminated {rs : List Reaction}
    (h : s.terminatingDriver = some rs) :
    Stage { s with
      activeDriver := false
      terminatingDriver := none
      jobs := s.jobs ++ rs } log := by
  have hnone : NoDriver s → False := by
    intro hn
    rw [hn.terminating] at h
    cases h
  cases k with
  | starting _ none _ _ => exact (hnone none).elim
  | running _ _ terminating _ _ =>
      rw [terminating] at h
      cases h
  | finishing quiet waits main =>
      rcases waits with ⟨hwaits, jobs⟩ | ⟨none, -⟩
      · rw [hwaits] at h
        cases h
        refine .finishing ⟨quiet.1, quiet.2, quiet.3, quiet.4, quiet.5⟩ (.inr ⟨⟨rfl, rfl⟩, ?_⟩) main
        simp [jobs]
      · exact (hnone none).elim
  | finished _ _ _ none _ _ => exact (hnone none).elim
  | dying exit reported reports killed active terminating waits some jobs main =>
      rw [terminating] at h
      cases h
      exact .dead exit reported reports killed ⟨rfl, rfl⟩ (by simpa [jobs] using waits)
        (by simpa [jobs] using some) main
  | dead _ _ _ _ none _ _ _ => exact (hnone none).elim
  | killed _ _ _ _ _ none _ _ => exact (hnone none).elim

theorem job {r : Reaction} {jobs : List Reaction} (hjobs : s.jobs = r :: jobs)
    {s' : State} {ns : List Note} (h : { s with jobs }.runJob r = some (s', ns)) :
    Stage s' (log ++ ns) := by
  have hnil : s.jobs = [] → False := by
    intro he
    rw [hjobs] at he
    cases he
  cases k with
  | starting _ _ jobs _ | running _ _ _ jobs _ | finished _ _ _ _ jobs _
  | dying _ _ _ _ _ _ _ _ jobs _ => exact (hnil jobs).elim
  | finishing quiet waits main =>
      rcases waits with ⟨-, he⟩ | ⟨none, he⟩
      · exact (hnil he).elim
      · rw [hjobs] at he
        cases he
        have hreport : ∀ code : Int, some (({ s with jobs := [] } : State).report code) =
            some (s', ns) → Stage s' (log ++ ns) := by
          rintro code ⟨⟩
          refine .finished (show _ = some code from ?_) ?_ ?_ ⟨none.1, none.2⟩ rfl rfl
          · simp [State.resolveExit, quiet.exit]
          · rw [reports_append, quiet.reports]
            rfl
          · rw [kills_append, quiet.kills]
            rfl
        rcases main with ⟨code, hm⟩ | hm <;> simp only [State.runJob, hm] at h
        · exact hreport code h
        · exact hreport 1 h
  | dead exit reported reports killed none waits some main =>
      obtain ⟨signal, hsignal, rfl⟩ := waits r (hjobs ▸ List.mem_cons_self)
      have hrest : Reports log jobs := fun q hq => waits q (hjobs ▸ List.mem_cons_of_mem _ hq)
      have hrun : ({ s with jobs } : State).runJob (.reportKilledExit signal) =
          Option.some ({ s with
            jobs
            killExitReported := true
            exit := Option.some (128 + signal) }, [.onExit (128 + signal)]) := by
        simp [State.runJob, State.reportKilledExit, State.resolveExit, reported, exit]
      rw [hrun] at h
      cases h
      refine .killed rfl ?_ rfl ?_ killed ⟨none.1, none.2⟩ (hrest.append _) (.inr (.inr (.inl main)))
      · rw [kills_append]
        exact List.mem_append_left _ hsignal
      · rw [reports_append, reports]
        rfl
  | @killed signal₀ exit hsignal₀ reported reports killed none waits main =>
      obtain ⟨signal, hsignal, rfl⟩ := waits r (hjobs ▸ List.mem_cons_self)
      have hrest : Reports log jobs := fun q hq => waits q (hjobs ▸ List.mem_cons_of_mem _ hq)
      have hrun : ({ s with jobs } : State).runJob (.reportKilledExit signal) =
          some ({ s with jobs }, []) := by
        simp [State.runJob, State.reportKilledExit, reported]
      rw [hrun] at h
      cases h
      rw [List.append_nil]
      exact .killed exit hsignal₀ reported reports killed ⟨none.1, none.2⟩ hrest main

/-- A step that meets the condition. -/
theorem step {e : Event} {r : State × List Note} (h : step s e = some r)
    (hkill : Killable (s, log) e) : Stage r.1 (log ++ r.2) := by
  have hstdin : ∀ stdin, Stage { s with stdin } (log ++ []) := by
    intro stdin
    rw [List.append_nil]
    exact k.stdin stdin
  cases e with
  | writeStdin data | closeStdin =>
      cases h
      exact hstdin _
  | stdinMicrotask =>
      obtain ⟨stdin, -, rfl⟩ := Option.map_eq_some_iff.mp h
      exact hstdin stdin
  | readStdin =>
      simp only [NodeDriver.step] at h
      split at h
      · obtain ⟨stdin, -, rfl⟩ := Option.map_eq_some_iff.mp h
        exact hstdin stdin
      · cases h
  | kill signal =>
      cases h
      exact k.kill signal hkill
  | entryResolved fails =>
      simp only [NodeDriver.step] at h
      split at h
      · rename_i hmain
        cases h
        exact k.entryResolved hmain fails hkill
      · cases h
  | stdinResolved fails =>
      simp only [NodeDriver.step] at h
      split at h
      · rename_i hmain _
        cases h
        exact k.stdinResolved hmain fails
      · cases h
  | executed result =>
      simp only [NodeDriver.step] at h
      split at h
      · rename_i hmain
        cases h
        exact k.executed hmain result hkill
      · cases h
  | driverTerminated =>
      simp only [NodeDriver.step] at h
      split at h
      · rename_i rs hrs
        cases h
        rw [List.append_nil]
        exact k.driverTerminated hrs
      · cases h
  | job =>
      simp only [NodeDriver.step] at h
      split at h
      · rename_i q jobs hjobs
        exact k.job hjobs h
      · cases h

end Stage

/-! ### Runs -/

/-- **A process exit is reported once**, while a kill that takes effect is the end of the program. -/
theorem exit_reported_once {streamStdin : Bool} {s : State} {log : List Note}
    (r : Reach (recorded step) Killable (.spawn streamStdin, []) (s, log)) : ReportedOnce s log := by
  have k : Stage s log := by
    refine r.invariant (I := fun s => Stage s.1 s.2) (.spawn streamStdin) ?_
    rintro ⟨u, l⟩ e v hu hkill hstep
    obtain ⟨w, hw, rfl⟩ := recorded_eq_some.mp hstep
    exact hu.step hw hkill
  exact k.reportedOnce

/-- A program is killed while it runs. -/
theorem exit_reported_once_killed : ∃ s log, s.exit = some 143 ∧ s.main = .executing ∧
    ReportedOnce s log := by
  obtain ⟨⟨s, log⟩, hs, hexit, hmain⟩ := Reach.exists_of_execIf (recorded step) Killable
    (.spawn true, []) [.writeStdin [104, 105], .entryResolved none, .readStdin, .kill 0, .kill 9,
      .driverTerminated, .job, .job] (P := fun s => s.1.exit = some 143 ∧ s.1.main = .executing)
    (by decide +kernel)
  exact ⟨s, log, hexit, hmain, exit_reported_once hs⟩

/-- A process is killed before its entry is found to be missing. -/
theorem exit_reported_twice :
    ¬ ∀ (s : State) (log : List Note),
      Reach (recorded step) Any (.spawn false, []) (s, log) → ReportedOnce s log := by
  intro hall
  obtain ⟨⟨s, log⟩, hs, hexit, hreports⟩ := Reach.exists_of_exec (recorded step) (.spawn false, [])
    [.kill 15, .entryResolved (some .entry)]
    (P := fun s => s.1.exit = some 143 ∧ reports s.2 = [143, 1]) (by decide +kernel)
  have honce := (hall s log hs).once
  rw [hexit, hreports] at honce
  cases honce

end NodeDriver
