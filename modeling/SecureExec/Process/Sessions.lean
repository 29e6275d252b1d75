import SecureExec.Process.Pids

/-!
# Process — Sessions — a process group lives in one session

Group and session of a process change apart from each other: `setpgid` moves it to another group,
`setsid` gives it a session and a group under its own number, `register` copies both from its
parent.  The invariant is that two processes that have not exited and share a group share a session
(`OneSession`).

`setpgid` into another process's group looks at one member of it, and by the invariant one is
enough.  Three calls look at none, and each can put a process beside members of another session:
`setsid` and `setpgid` to a group under the caller's own number, which others may still be in after
the caller left it, and the registration of a child of a process that has exited, whose group may
meanwhile be in use again.  `keepsSessions` asks that they do not; then the invariant holds along
every run.
-/

namespace SecureExec.Process

open Machine

/-- Any two processes that have not exited and are in one group are in one session. -/
def OneSession (m : Machine) : Prop :=
  ∀ p q e f, m.entries.get p = some e → m.entries.get q = some f → e.live → f.live →
    e.pgid = f.pgid → e.sid = f.sid

/-- The members of `pgid` that have not exited, `except` aside, are in the session `sid`. -/
def Machine.inSession (m : Machine) (pgid sid except : Nat) : Bool :=
  m.entries.entries.all fun (q, f) => q == except || !f.live || f.pgid != pgid || f.sid == sid

/-- A process that takes up the group under its own number finds nobody of another session there,
nor does a child of a process that has exited in its parent's group. -/
def keepsSessions (m : Machine) : Action → Bool
  | .call (.setsid pid) =>
      (m.entries.get pid).all fun e => !e.live || e.pgid == pid || m.inSession pid pid pid
  | .call (.setpgid pid pgid) =>
      (pgid != 0 && pgid != pid) ||
        (m.entries.get pid).all fun e => !e.live || m.inSession pid e.sid pid
  | .ret =>
      match m.stack with
      | .driverSpawn pid ppid _ :: _ =>
          ppid == 0 || (m.entries.get ppid).all fun z => z.live || m.inSession z.pgid z.sid pid
      | _ => true
  | _ => true

section

variable {m m' : Machine} {a : Action} {pid : Nat} {e : ProcessEntry}

theorem inSession_spec {pgid sid except q : Nat} {f : ProcessEntry}
    (h : m.inSession pgid sid except) (hf : m.entries.get q = some f) (hq : q ≠ except)
    (hl : f.live) (hg : f.pgid = pgid) : f.sid = sid := by
  have := List.all_eq_true.mp h (q, f) ((m.entries.get_eq_some_iff q f).mp hf)
  simpa [hq, hl, hg] using this

/-- The invariant: beside `OneSession`, groups have the numbers of known processes. -/
structure SessionsOk (m : Machine) : Prop where
  named : Named m
  one : OneSession m
  groups : ∀ p e, m.entries.get p = some e → m.Known e.pgid

theorem OneSession.quiet (hi : OneSession m) (h : Quiet m m') : OneSession m' := by
  intro p q e' f' hp hq hle hlf hg
  have hrp := h.entries p
  have hrq := h.entries q
  rw [hp] at hrp
  rw [hq] at hrq
  generalize ho : m.entries.get p = o at hrp
  generalize ho' : m.entries.get q = o' at hrq
  obtain ⟨hsp⟩ | _ := hrp
  obtain ⟨hsq⟩ | _ := hrq
  rw [hsp.sid, hsq.sid]
  rw [hsp.live] at hle
  rw [hsq.live] at hlf
  rw [hsp.pgid, hsq.pgid] at hg
  exact hi p q _ _ ho ho' hle hlf hg

/-- One process gets a new entry, and the members of its group are in its session. -/
theorem OneSession.set (hi : OneSession m) {e' : ProcessEntry}
    (h : e'.live → ∀ q f, q ≠ pid → m.entries.get q = some f → f.live → f.pgid = e'.pgid →
      f.sid = e'.sid) : OneSession (m.setEntry pid e') := by
  intro p q x y hp hq hlx hly hg
  simp only [setEntry, OMap.get_set] at hp hq
  split at hp
  · cases hp
    split at hq
    · cases hq
      rfl
    · exact (h hlx q y ‹_› hq hly hg.symm).symm
  · split at hq
    · cases hq
      exact h hly p x ‹_› hp hlx hg
    · exact hi p q x y hp hq hlx hly hg

variable (hi : SessionsOk m)
include hi

theorem known_quiet (h : Quiet m m') :
    ∀ p e, m'.entries.get p = some e → m'.Known e.pgid := by
  intro p e' he'
  have hr := h.entries p
  rw [he'] at hr
  generalize ho : m.entries.get p = o at hr
  obtain ⟨hs⟩ | _ := hr
  have hk := hi.groups p _ ho
  rw [hs.pgid]
  exact ⟨h.nextPid ▸ hk.1, fun hm => hk.2 (h.spawning.subset hm)⟩

theorem SessionsOk.quiet (h : Quiet m m') : SessionsOk m' :=
  ⟨hi.named.quiet h, hi.one.quiet h, known_quiet hi h⟩

/-- One process gets a new entry, with a group of known number. -/
theorem SessionsOk.set {e' : ProcessEntry}
    (he : m.entries.get pid = some e) (hk : m.Known e'.pgid)
    (h : e'.live → ∀ q f, q ≠ pid → m.entries.get q = some f → f.live → f.pgid = e'.pgid →
      f.sid = e'.sid) : SessionsOk (m.setEntry pid e') where
  named := hi.named.setEntry he e'
  one := hi.one.set h
  groups p x hx := by
    simp only [setEntry, OMap.get_set] at hx
    split at hx
    · cases hx
      exact hk
    · exact hi.groups p x hx

/-- A live process in the group of a member that `setpgid` found is in that member's session. -/
theorem SessionsOk.found {target : Nat} {member : ProcessEntry}
    (h : (m.entries.values.find? fun f => f.pgid == target && f.live) = some member) :
    m.Known target ∧ ∀ q f, m.entries.get q = some f → f.live → f.pgid = target →
      f.sid = member.sid := by
  have hp := List.find?_some h
  simp only [Bool.and_eq_true, beq_iff_eq] at hp
  obtain ⟨⟨q, member⟩, hmem, rfl⟩ := List.mem_map.mp (List.mem_of_find?_eq_some h)
  have hq : m.entries.get q = some member := (m.entries.get_eq_some_iff q member).mpr hmem
  refine ⟨hp.1 ▸ hi.groups q member hq, fun q' f hf hl hg => ?_⟩
  exact hi.one q' q f member hf hq hl hp.2 (hg.trans hp.1.symm)

theorem SessionsOk.grouped {pgid target : Nat}
    (hC : keepsSessions m (.call (.setpgid pid pgid))) (he : m.entries.get pid = some e)
    (ht : target = if pgid = 0 then pid else pgid)
    (hg : target ≠ pid → ∃ member,
      (m.entries.values.find? fun f => f.pgid == target && f.live) = some member ∧
        member.sid = e.sid) : SessionsOk (m.setEntry pid { e with pgid := target }) := by
  by_cases htp : target = pid
  · have hin : e.live → m.inSession pid e.sid pid := by
      have hp : ¬ (pgid ≠ 0 ∧ pgid ≠ pid) := by
        rintro ⟨h0, h1⟩
        rw [if_neg h0] at ht
        exact h1 (ht ▸ htp)
      simp only [keepsSessions, he, Option.all_some, Bool.or_eq_true, Bool.and_eq_true, bne_iff_ne,
        Bool.not_eq_true'] at hC
      intro hl
      rcases hC with hC | hC | hC
      · exact absurd hC hp
      · rw [hl] at hC
        cases hC
      · exact hC
    refine hi.set he (htp ▸ hi.named.known pid (Quiet.names_of_get he)) ?_
    intro hl q f hq hf hlf hgf
    exact inSession_spec (hin hl) hf hq hlf (hgf.trans htp)
  · obtain ⟨member, hm, hs⟩ := hg htp
    obtain ⟨hk, hsid⟩ := hi.found hm
    exact hi.set he hk fun _ q f _ hf hlf hgf => (hsid q f hf hlf hgf).trans hs

theorem SessionsOk.sessioned (hC : keepsSessions m (.call (.setsid pid)))
    (he : m.entries.get pid = some e) (hp : e.pgid ≠ pid) :
    SessionsOk (m.setEntry pid { e with sid := pid, pgid := pid }) := by
  refine hi.set he (hi.named.known pid (Quiet.names_of_get he)) ?_
  intro hl q f hq hf hlf hgf
  have hl' : e.live = true := hl
  have hin : m.inSession pid pid pid := by
    simpa [keepsSessions, he, hp, hl'] using hC
  exact inSession_spec hin hf hq hlf hgf

theorem SessionsOk.registered {ppid : Nat} {driver : String} {k : List Frame}
    (hC : keepsSessions m .ret)
    (hk : m.stack = .driverSpawn pid ppid driver :: k) :
    SessionsOk ({ m with stack := k }.register pid ppid driver) := by
  have hn : Named ({ m with stack := k }.register pid ppid driver) :=
    hi.named.of_effect (.registered pid ppid driver k hk)
  have hnone := hi.named.not_registered hk
  -- known pids stay known, and the new one is
  have hmono : ∀ p, m.Known p → ({ m with stack := k }.register pid ppid driver).Known p := by
    intro p hp
    refine ⟨hp.1, fun h => hp.2 ?_⟩
    rw [hk]
    exact List.mem_cons_of_mem _ h
  have hnew : ({ m with stack := k }.register pid ppid driver).Known pid :=
    hn.known pid (Quiet.names_of_get (m.entries.get_set_self pid _))
  generalize hpar : (if ppid = 0 then none else m.entries.get ppid) = parent
  have hone : ∀ q f, m.entries.get q = some f → f.live → f.pgid = parent.elim pid (·.pgid) →
      f.sid = parent.elim pid (·.sid) := by
    intro q f hf hlf hg
    have hqp : q ≠ pid := by
      rintro rfl
      rw [hnone] at hf
      cases hf
    cases parent with
    | none =>
        -- a group under the new number would have been named before
        exact absurd (hi.groups q f hf).2 (by rw [hg, hk]; simp [spawning, Frame.spawns])
    | some z =>
        have hz : ppid ≠ 0 ∧ m.entries.get ppid = some z := by
          split at hpar
          · cases hpar
          · exact ⟨‹_›, hpar⟩
        cases hzl : z.live with
        | true => exact hi.one q ppid f z hf hz.2 hlf hzl hg
        | false =>
            have hin : m.inSession z.pgid z.sid pid := by
              simpa [keepsSessions, hk, hz.1, hz.2, hzl] using hC
            exact inSession_spec hin hf hqp hlf hg
  refine ⟨hn, ?_, ?_⟩
  · unfold register
    rw [hpar]
    exact OneSession.set (m := { m with stack := k }) hi.one fun _ q f _ hf hlf hg =>
      hone q f hf hlf hg
  · intro p x hx
    simp only [register, setEntry, OMap.get_set] at hx
    split at hx
    · cases hx
      rw [hpar]
      cases parent with
      | none => exact hnew
      | some z =>
          refine hmono _ ?_
          split at hpar
          · cases hpar
          · exact hi.groups ppid z hpar
    · exact hmono _ (hi.groups p x hx)

theorem SessionsOk.step (hC : keepsSessions m a)
    (h : step m a = some m') : SessionsOk m' := by
  cases step_effect h with
  | quiet h => exact hi.quiet h
  | allocated =>
      exact ⟨hi.named.step h, hi.one, fun p e he =>
        ⟨Nat.lt_succ_of_lt (hi.groups p e he).1, (hi.groups p e he).2⟩⟩
  | spawned driver callerPid hb =>
      refine ⟨hi.named.step h, hi.one, fun p e he => ?_⟩
      have hk := hi.groups p e he
      refine ⟨Nat.lt_succ_of_lt hk.1, fun hs => ?_⟩
      rcases List.mem_cons.mp hs with heq | hs
      · exact Nat.lt_irrefl _ (heq ▸ hk.1)
      · exact hk.2 hs
  | exited pid exitCode e he hl h₁ hq =>
      subst h₁
      have hx : SessionsOk (m.setEntry pid (e.exit exitCode)) := by
        refine hi.set he (hi.groups pid e he) fun hl => ?_
        cases hl
      exact hx.quiet hq
  | registered pid ppid driver k hk => exact hi.registered hC hk
  | grouped pid pgid target e he ht hg => exact hi.grouped hC he ht hg
  | sessioned pid e he hp => exact hi.sessioned hC he hp
  | reaped pid e he hl h₁ hq =>
      have hd : OneSession ({ m with entries := m.entries.delete pid }.emit (.reaped pid)) := by
        intro p q x y hx hy
        simp only [emit, OMap.get_delete] at hx hy
        split at hx
        · cases hx
        · split at hy
          · cases hy
          · exact hi.one p q x y hx hy
      have hn : Named ({ m with entries := m.entries.delete pid }.emit (.reaped pid)) :=
        hi.named.of_effect (.reaped pid e he hl rfl (.refl _))
      subst h₁
      refine SessionsOk.quiet (m := { m with entries := m.entries.delete pid }.emit (.reaped pid))
        ⟨hn, hd, fun p x hx => ?_⟩ hq
      simp only [emit, OMap.get_delete] at hx
      split at hx
      · cases hx
      · exact hi.groups p x hx

end

/-! ### Every run -/

/-- In every run in which a process takes up the group under its own number, or joins the group of a
parent that has exited, only where nobody of another session is, a group lives in one session. -/
theorem oneSession_of_keepsSessions (max : Option Nat) (m : Machine)
    (r : Lts.Reach step (fun m a => keepsSessions m a) (.boot max) m) : OneSession m := by
  have hi : SessionsOk m := by
    refine r.invariant (I := SessionsOk) ⟨.boot max, ?_, ?_⟩ fun t a u ht hC h => ht.step hC h
    · intro p q e f hp
      cases hp
    · intro p e hp
      cases hp
  exact hi.one

/-- The calls that give a process `pid`, a child of `ppid`. -/
def spawned (ppid : Option Nat) : List Action := [.call (.spawn (.ok "wasm") ppid), .ret]

/-- A shell, a job of two processes in a group of its own, and a daemon that leaves the job for a
session of its own. -/
def daemonRun : List Action :=
  spawned none ++ spawned (some 1) ++ [.call (.setpgid 2 0)] ++ spawned (some 2) ++
    [.call (.setsid 3)]

theorem oneSession_of_keepsSessions_daemon :
    ∃ m, (Lts.execIf step (fun m a => keepsSessions m a) (.boot none) daemonRun = some m ∧
      (m.entries.values.map fun e => (e.pgid, e.sid)) = [(1, 1), (2, 1), (3, 3)]) ∧
      OneSession m := by
  have h : (Lts.execIf step (fun m a => keepsSessions m a) (.boot none) daemonRun).map
      (fun m => m.entries.values.map fun e => (e.pgid, e.sid)) =
        some [(1, 1), (2, 1), (3, 3)] := by decide +kernel
  obtain ⟨m, hm, hg⟩ := Option.map_eq_some_iff.mp h
  exact ⟨m, ⟨hm, hg⟩, oneSession_of_keepsSessions none m (.of_execIf hm)⟩

/-- Process 2 makes a group of its own, has a child in it, goes back to its parent's group and then
starts a session. -/
def oldGroupRun : List Action :=
  spawned none ++ spawned (some 1) ++ [.call (.setpgid 2 0)] ++ spawned (some 2) ++
    [.call (.setpgid 2 1), .call (.setsid 2)]

/-- The new session's leader and the child it left behind are both in group 2, in two sessions. -/
theorem oneSession_fails :
    ∃ m, Lts.Reach step Lts.Any (.boot none) m ∧ ¬ OneSession m := by
  obtain ⟨m, hm, hg, hg'⟩ := Lts.Reach.exists_of_exec step (.boot none) oldGroupRun
    (P := fun m => (m.entries.get 2).map (fun e => (e.live, e.pgid, e.sid)) = some (true, 2, 2) ∧
      (m.entries.get 3).map (fun e => (e.live, e.pgid, e.sid)) = some (true, 2, 1))
    (by decide +kernel)
  obtain ⟨e, he, hee⟩ := Option.map_eq_some_iff.mp hg
  obtain ⟨f, hf, hff⟩ := Option.map_eq_some_iff.mp hg'
  simp only [Prod.mk.injEq] at hee hff
  refine ⟨m, hm, fun hone => ?_⟩
  have hs := hone 2 3 e f he hf hee.1 hff.1 (hee.2.1.trans hff.2.1.symm)
  rw [hee.2.2, hff.2.2] at hs
  cases hs

end SecureExec.Process
