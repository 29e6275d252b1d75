import SecureExec.Process.Pids

/-!
# Process — Pending — what is pending is blocked

With no outside code running, a signal that is pending at a process that has not exited is blocked:
every change of the mask delivers what it unblocks before it is done.  While handlers run this is a
matter of debts.  A pending signal that is not blocked is `Covered` by a frame that will deliver it:
a handler of the process, which delivers everything unblocked when it has returned, or a loop of
`deliverPendingSignals` that has not come to it.  `Covered D` allows in addition the debts `D` of
the code that is just running.

A frame pays only when it is run to its end, so the invariant is for runs in which no handler throws
and no other exception takes a loop over pending signals with it (`returns`).  `SIGKILL` and
`SIGSTOP` are never pending, whatever is thrown (`SignalsOk`).
-/

namespace SecureExec.Process

open Machine

/-- Has the frame signals to deliver? -/
def Frame.owes : Frame → Bool
  | handler .. | pending .. | dispatched .. => true
  | _ => false

/-- Handlers return, and no exception takes a frame with it that has signals to deliver. -/
def returns (m : Machine) : Action → Bool
  | .throw =>
      match m.stack with
      | [] => true
      | f :: k => !f.owes && (k.takeWhile (!·.outside)).all (!·.owes)
  | _ => true

/-- Will the frame deliver `signal` to `pid` once it is not blocked? -/
def Frame.covers (pid signal : Nat) : Frame → Bool
  | handler p .. => p == pid
  | pending p rest | dispatched p rest => p == pid && rest.contains signal
  | _ => false

/-- What is pending at a live process and not blocked is owed, or covered by a frame. -/
def Covered (D : Nat → Nat → Prop) (m : Machine) : Prop :=
  ∀ pid e signal, m.entries.get pid = some e → e.live → signal ∈ e.pending → signal ∉ e.blocked →
    D pid signal ∨ ∃ f ∈ m.stack, f.covers pid signal

/-- No debt. -/
def NoDebt (_ _ : Nat) : Prop := False

/-- The signals of a process are signals, and neither `SIGKILL` nor `SIGSTOP` is pending. -/
structure ProcessEntry.SignalsOk (e : ProcessEntry) : Prop where
  pending : ∀ signal ∈ e.pending, signal ≤ 64 ∧ signal ≠ SIGKILL ∧ signal ≠ SIGSTOP
  termSignal : e.termSignal ≤ 64

/-- So they are at every process, and the group kills on their way send signals too. -/
structure SignalsOk (m : Machine) : Prop where
  entries : ∀ pid e, m.entries.get pid = some e → e.SignalsOk
  groups : ∀ pgid signal excludeLeaders next count,
    .group pgid signal excludeLeaders next count ∈ m.stack → signal ≤ 64

section

variable {D E : Nat → Nat → Prop} {m m' : Machine} {a : Action} {pid : Nat} {e x : ProcessEntry}

theorem Frame.owes_of_covers {p y : Nat} {f : Frame} (h : f.covers p y) : f.owes := by
  cases f <;> first | rfl | cases h

namespace Covered

/-- A debt is paid when there is nothing behind it. -/
theorem pay (h : Covered E m)
    (hD : ∀ p f y, m.entries.get p = some f → f.live → y ∈ f.pending → E p y → D p y) :
    Covered D m := by
  intro p f y hf hl hp hb
  exact (h p f y hf hl hp hb).imp_left (hD p f y hf hl hp)

theorem mono (h : Covered D m) (hD : ∀ p y, D p y → E p y) : Covered E m :=
  h.pay fun p _ y _ _ _ => hD p y

/-- A process with no entry is owed nothing. -/
theorem absent (h : Covered E m) (hn : m.entries.get pid = none)
    (hD : ∀ p y, E p y → D p y ∨ p = pid) : Covered D m := by
  refine h.pay fun p f y hf _ _ hd => (hD p y hd).resolve_right ?_
  rintro rfl
  rw [hn] at hf
  cases hf

/-- The same entries, and no frame gone. -/
theorem keep (h : Covered D m) (he : m'.entries = m.entries) (hs : m.stack ⊆ m'.stack) :
    Covered D m' := by
  intro p f y hf hl hp hb
  rw [he] at hf
  refine (h p f y hf hl hp hb).imp_right ?_
  rintro ⟨g, hg, hc⟩
  exact ⟨g, hs hg, hc⟩

variable {f : Frame} {k : List Frame}

section

variable (h : Covered D m)
include h

/-- A frame that leaves the stack leaves its debt. -/
theorem pop (hk : m.stack = f :: k) :
    Covered (fun p y => D p y ∨ f.covers p y) { m with stack := k } := by
  intro p g y hg hl hp hb
  rcases h p g y hg hl hp hb with h | ⟨f', hf', hc⟩
  · exact .inl (.inl h)
  · rw [hk] at hf'
    rcases List.mem_cons.mp hf' with rfl | hf'
    · exact .inl (.inr hc)
    · exact .inr ⟨f', hf', hc⟩

/-- A frame with nothing to deliver leaves none. -/
theorem pop_free (hk : m.stack = f :: k)
    (hf : ∀ p y, f.covers p y = false) : Covered D { m with stack := k } := by
  refine (h.pop hk).mono ?_
  rintro p y (h | h)
  · exact h
  · rw [hf] at h
    cases h

omit h in
/-- A frame that is pushed takes over what it covers. -/
theorem push (h : Covered E m) (hD : ∀ p y, E p y → D p y ∨ f.covers p y) :
    Covered D (m.push f) := by
  intro p g y hg hl hp hb
  rcases h p g y hg hl hp hb with h | ⟨f', hf', hc⟩
  · rcases hD p y h with h | h
    · exact .inl h
    · exact .inr ⟨f, List.mem_cons_self, h⟩
  · exact .inr ⟨f', List.mem_cons_of_mem _ hf', hc⟩

/-- An entry changes, and nothing new in it is pending and not blocked. -/
theorem setEntry (he : m.entries.get pid = some e)
    (hx : x.live → e.live ∧ ∀ y ∈ x.pending, y ∉ x.blocked → D pid y ∨ y ∈ e.pending ∧ y ∉ e.blocked) :
    Covered D (m.setEntry pid x) := by
  intro p f y hf hl hp hb
  simp only [Machine.setEntry, OMap.get_set] at hf
  split at hf
  · rename_i heq
    subst heq
    cases hf
    obtain ⟨hle, hy⟩ := hx hl
    rcases hy y hp hb with hd | ⟨hp', hb'⟩
    · exact .inl hd
    · exact h p e y he hle hp' hb'
  · exact h p f y hf hl hp hb

/-- An entry with no less blocked and nothing more pending. -/
theorem setEntry_le (he : m.entries.get pid = some e)
    (hl : x.live → e.live) (hp : x.pending ⊆ e.pending) (hb : e.blocked ⊆ x.blocked) :
    Covered D (m.setEntry pid x) :=
  h.setEntry he fun hx => ⟨hl hx, fun _ hy hn => .inr ⟨hp hy, fun hm => hn (hb hm)⟩⟩

/-- A new process has nothing pending. -/
theorem register {ppid : Nat} {driver : String} :
    Covered D (m.register pid ppid driver) := by
  intro p f y hf hl hp hb
  simp only [Machine.register, Machine.setEntry, OMap.get_set] at hf
  split at hf
  · cases hf
    cases hp
  · exact h p f y hf hl hp hb

end

variable {signal : Nat}

theorem settle {o : Outcome} (h : Covered D m)
    (he : m.entries.get pid = some e) (hs : Same e o.entry) (hd : e.DeliverSpec signal o) :
    Covered D (m.settle pid signal o) := by
  have hset : Covered D (m.setEntry pid o.entry) := by
    refine h.setEntry he fun hl => ⟨hs.live ▸ hl, fun y hy hn => .inr ?_⟩
    cases hd with
    | pended hb _ _ _ hp hm =>
        rw [hm] at hn
        rw [hp] at hy
        rcases List.mem_insert_iff.mp hy with rfl | hy
        · exact absurd hb hn
        · exact ⟨hy, hn⟩
    | dispatched hd =>
        refine ⟨hd.pending ▸ hy, fun hm => hn ?_⟩
        by_cases hc : ∃ z registration saved, o.call = some (.handler z registration saved)
        · obtain ⟨z, registration, saved, hc⟩ := hc
          rw [(hd.handler z registration saved hc).2.2]
          exact List.mem_insert_of_mem (List.mem_union_left hm _)
        · rw [hd.blocked fun z r s hz => hc ⟨z, r, s, hz⟩]
          exact hm
  exact hset.keep rfl fun f hf => List.mem_append_right _ hf

theorem direct (h : Covered D m) (he : m.entries.get pid = some e) :
    Covered D (m.direct pid signal) := by
  rw [direct_eq he]
  exact Covered.settle (m := m.emit (.directed pid signal)) h he (.deliverSignal e signal)
    (e.deliverSignal_spec signal)

theorem directIfRunning (h : Covered D m) :
    Covered D (m.directIfRunning pid signal) := by
  unfold Machine.directIfRunning
  split
  · exact h
  · split
    · exact h
    · exact h
    · exact h.direct ‹_›

/-- `deliverPendingSignals` takes over everything its process is owed. -/
theorem deliverPendingSignals (h : Covered (fun p _ => p = pid) m) :
    Covered NoDebt (m.deliverPendingSignals pid) := by
  unfold Machine.deliverPendingSignals
  split
  · exact h.absent ‹_› fun _ _ hd => .inr hd
  · rename_i e he
    split
    · rename_i hnil
      refine h.pay ?_
      rintro p f y hf - hp rfl
      rw [he] at hf
      cases hf
      rw [hnil] at hp
      cases hp
    · intro p f y hf hl hp hb
      rcases h p f y hf hl hp hb with rfl | ⟨g, hg, hc⟩
      · refine .inr ⟨_, List.mem_cons_self, ?_⟩
        have hfe : m.entries.get p = some f := hf
        rw [he] at hfe
        cases hfe
        simpa [Frame.covers] using hp
      · exact .inr ⟨g, List.mem_cons_of_mem _ hg, hc⟩

/-- A turn of the loop delivers its first signal, if it may, and owes the rest. -/
theorem runPending {rest : List Nat} (h : Covered (fun p y => p = pid ∧ y ∈ rest) m) :
    Covered NoDebt (m.runPending pid rest) := by
  cases rest with
  | nil => exact h.mono fun _ _ h => nomatch h.2
  | cons signal rest =>
      simp only [Machine.runPending]
      split
      · exact h.absent ‹_› fun _ _ hd => .inr hd.1
      · rename_i e he
        split
        · -- dispatched: it is pending no more
          have h₁ : Covered (fun p y => p = pid ∧ y ∈ rest)
              (m.setEntry pid (e.deletePending signal)) := by
            intro p f y hf hl hp hb
            simp only [Machine.setEntry, OMap.get_set] at hf
            split at hf
            · rename_i heq
              subst heq
              cases hf
              obtain ⟨hp', hne⟩ := List.mem_filter.mp hp
              refine (h p e y he hl hp' hb).imp_left fun hd => ⟨rfl, ?_⟩
              exact (List.mem_cons.mp hd.2).resolve_left (by simpa using hne)
            · rename_i hpp
              exact (h p f y hf hl hp hb).imp_left fun hd => absurd hd.1 hpp
          have h₂ : Covered NoDebt ((m.setEntry pid (e.deletePending signal)).push
              (.dispatched pid rest)) := by
            refine h₁.push ?_
            rintro p y ⟨rfl, hy⟩
            exact .inr (by simpa [Frame.covers] using hy)
          have hg : ((m.setEntry pid (e.deletePending signal)).push
              (.dispatched pid rest)).entries.get pid = some (e.deletePending signal) :=
            m.entries.get_set_self pid _
          rw [dispatchSignal_eq hg]
          exact h₂.settle hg (.dispatchSignal _ _) (.dispatched (ProcessEntry.dispatchSignal_spec _ _))
        · rename_i hno
          intro p f y hf hl hp hb
          rcases h p f y hf hl hp hb with ⟨rfl, hy⟩ | ⟨g, hg, hc⟩
          · have hfe : m.entries.get p = some f := hf
            rw [he] at hfe
            cases hfe
            refine .inr ⟨_, List.mem_cons_self, ?_⟩
            rcases List.mem_cons.mp hy with rfl | hy
            · exact absurd ⟨hb, hp⟩ hno
            · simpa [Frame.covers] using hy
          · exact .inr ⟨g, List.mem_cons_of_mem _ hg, hc⟩

theorem runDispatched {rest : List Nat} (h : Covered (fun p y => p = pid ∧ y ∈ rest) m) :
    Covered NoDebt (m.runDispatched pid rest) := by
  unfold Machine.runDispatched
  split
  · exact h.absent ‹_› fun _ _ hd => .inr hd.1
  · rename_i e he
    split
    · refine h.push ?_
      rintro p y ⟨rfl, hy⟩
      exact .inr (by simpa [Frame.covers] using hy)
    · -- the process has exited
      rename_i hdead
      refine h.pay ?_
      rintro p f y hf hl - ⟨rfl, -⟩
      rw [he] at hf
      cases hf
      exact hdead hl

theorem runGroup {pgid next count : Nat} {excludeLeaders : Bool} (h : Covered D m) :
    Covered D (m.runGroup pgid signal excludeLeaders next count) := by
  have hpush : ∀ f, Covered D (m.push f) := fun f => h.keep rfl (List.subset_cons_self _ _)
  exact runGroup_rule h (fun _ => hpush _) fun _ _ e he _ => (hpush _).direct (e := e) he

theorem notifyWaiters {wstatus : BitVec 32} (h : Covered D m) :
    Covered D (m.notifyWaiters pid wstatus) := by
  unfold Machine.notifyWaiters
  split
  · exact h
  · exact h

variable (h : Covered NoDebt m)
include h

theorem turn (hk : m.stack = f :: k)
    (hf : f.outside = false) : Covered NoDebt ({ m with stack := k }.turn f) := by
  cases f with
  | pending pid rest =>
      refine Covered.runPending ((h.pop hk).mono ?_)
      rintro p y (h | h)
      · cases h
      · simp only [Frame.covers, Bool.and_eq_true, beq_iff_eq, List.contains_iff_mem] at h
        exact ⟨h.1.symm, h.2⟩
  | dispatched pid rest =>
      refine Covered.runDispatched ((h.pop hk).mono ?_)
      rintro p y (h | h)
      · cases h
      · simp only [Frame.covers, Bool.and_eq_true, beq_iff_eq, List.contains_iff_mem] at h
        exact ⟨h.1.symm, h.2⟩
  | group pgid signal excludeLeaders next count => exact (h.pop_free hk fun _ _ => rfl).runGroup
  | notify pid wstatus => exact (h.pop_free hk fun _ _ => rfl).notifyWaiters
  | handler pid signal registration saved since => cases hf
  | driverKill pid signal => cases hf
  | exitHook pid wstatus => cases hf
  | driverSpawn pid ppid driver => cases hf

theorem resume (hk : m.stack = f :: k)
    (hf : f.outside) : Covered NoDebt ({ m with stack := k }.resume f) := by
  cases f with
  | handler pid signal registration saved since =>
      have hp : Covered (fun p _ => p = pid) { m with stack := k } := by
        refine (h.pop hk).mono ?_
        rintro p y (h | h)
        · cases h
        · simpa [Frame.covers] using Eq.symm (beq_iff_eq.mp h)
      simp only [Machine.resume]
      split
      · exact hp.absent ‹_› fun _ _ hd => .inr hd
      · rename_i e he
        refine Covered.deliverPendingSignals (hp.setEntry he fun hl => ⟨?_, fun _ _ _ => .inl rfl⟩)
        rwa [(Same.handlerReturned e signal registration saved).live] at hl
  | exitHook pid wstatus =>
      have hp : Covered NoDebt { m with stack := k } := h.pop_free hk fun _ _ => rfl
      have hpush : Covered NoDebt ({ m with stack := k }.push (.notify pid wstatus)) :=
        hp.keep rfl (List.subset_cons_self _ _)
      simp only [Machine.resume, Machine.exitHookReturned]
      split
      · exact hpush
      · split
        · exact hpush.directIfRunning
        · exact hpush
  | driverSpawn pid ppid driver => exact (h.pop_free hk fun _ _ => rfl).register
  | driverKill pid signal => exact h.pop_free hk fun _ _ => rfl
  | pending pid rest => cases hf
  | dispatched pid rest => cases hf
  | group pgid signal excludeLeaders next count => cases hf
  | notify pid wstatus => cases hf

/-- An exception that takes no frame with it that has signals to deliver. -/
theorem thrown (hk : m.stack = f :: k)
    (hr : returns m .throw) :
    Covered NoDebt ({ m with stack := k.dropWhile (!·.outside) }.abandon f) := by
  simp only [returns, hk, Bool.and_eq_true, Bool.not_eq_true'] at hr
  have hp : Covered NoDebt { m with stack := k.dropWhile (!·.outside) } := by
    intro p g y hg hl hp hb
    refine (h p g y hg hl hp hb).imp_right ?_
    rintro ⟨g', hg', hc⟩
    have ho := Frame.owes_of_covers hc
    rw [hk] at hg'
    rcases List.mem_cons.mp hg' with rfl | hg'
    · rw [hr.1] at ho
      cases ho
    · rw [← List.takeWhile_append_dropWhile (p := (!·.outside)) (l := k)] at hg'
      rcases List.mem_append.mp hg' with hg' | hg'
      · have hn := List.all_eq_true.mp hr.2 g' hg'
        rw [ho] at hn
        cases hn
      · exact ⟨g', hg', hc⟩
  cases f with
  | handler pid signal registration saved since => cases hr.1
  | _ => exact hp

theorem of_step (hr : returns m a) (hs : Step m a m') :
    Covered NoDebt m' := by
  cases hs with
  | nothing op => exact h
  | allocated => exact h
  | spawned | groupCalled => exact h.keep rfl (List.subset_cons_self _ _)
  | exited pid exitCode e he hl =>
      have hx : Covered NoDebt (m.setEntry pid (e.exit exitCode)) := by
        refine h.setEntry he fun hl => ?_
        cases hl
      exact hx.keep rfl (List.subset_cons_self _ _)
  | asked pid options e he hl => exact h
  | waits pid options e he hl => exact h
  | killed pid signal e he hl hs => exact h.direct he
  | timed op timers => exact h
  | handlerSet _ _ _ _ he | grouped _ _ _ _ he | sessioned _ _ he =>
      exact h.setEntry_le he id (List.Subset.refl _) (List.Subset.refl _)
  | masked pid how set mask e he hm =>
      refine Covered.deliverPendingSignals ?_
      have hd : Covered (fun p _ => p = pid) m := h.mono fun _ _ hd => nomatch hd
      exact hd.setEntry (x := e.setBlocked mask) he fun hl => ⟨hl, fun _ _ _ => .inl rfl⟩
  | stopped pid e he =>
      refine h.setEntry_le he (fun hl => (Same.stop e).live ▸ hl) ?_ ?_
      · rw [ProcessEntry.pending_stop]
        exact List.Subset.refl _
      · rw [ProcessEntry.blocked_stop]
        exact List.Subset.refl _
  | continued pid e he =>
      refine h.setEntry_le he (fun hl => (Same.cont e).live ▸ hl) ?_ ?_
      · rw [ProcessEntry.pending_cont]
        exact List.Subset.refl _
      · rw [ProcessEntry.blocked_cont]
        exact List.Subset.refl _
  | returned f k hk hf => exact h.resume hk hf
  | thrown f k hk hf => exact h.thrown hk hr
  | ran f k hk hf => exact h.turn hk hf
  | alarmExpired pid hk =>
      exact Covered.directIfRunning (m := { m with alarmTimers := m.alarmTimers.delete pid }) h
  | zombieExpired pid hk =>
      simp only [Machine.reap]
      split
      · exact h
      · split
        · exact h
        · intro p f y hf hl hp hb
          simp only [emit, OMap.get_delete] at hf
          split at hf
          · cases hf
          · exact h p f y hf hl hp hb

end Covered

/-! ### What can be pending -/

/-- The same signals. -/
theorem ProcessEntry.SignalsOk.congr (h : e.SignalsOk) (hp : x.pending = e.pending)
    (ht : x.termSignal = e.termSignal) : x.SignalsOk :=
  ⟨fun y hy => h.pending y (hp ▸ hy), ht ▸ h.termSignal⟩

theorem ProcessEntry.SignalsOk.deliver {signal : Nat} {o : Outcome} (h : e.SignalsOk)
    (hs : signal ≤ 64) (hd : e.DeliverSpec signal o) : o.entry.SignalsOk := by
  cases hd with
  | pended _ hks _ _ hp _ _ ht =>
      refine ⟨fun y hy => ?_, ht ▸ h.termSignal⟩
      rw [hp] at hy
      rcases List.mem_insert_iff.mp hy with rfl | hy
      · exact ⟨hs, hks⟩
      · exact h.pending y hy
  | dispatched hd =>
      refine ⟨fun y hy => h.pending y (hd.pending ▸ hy), ?_⟩
      rcases hd.termSignal with ht | ht
      · exact ht ▸ h.termSignal
      · exact ht.1 ▸ hs

namespace SignalsOk

theorem boot (max : Option Nat) : SignalsOk (.boot max) := ⟨nofun, nofun⟩

/-- The same entries, and no group kill that was not there. -/
theorem keep (h : SignalsOk m) (he : m'.entries = m.entries)
    (hs : ∀ pgid signal excludeLeaders next count,
      .group pgid signal excludeLeaders next count ∈ m'.stack → signal ≤ 64) : SignalsOk m' :=
  ⟨he ▸ h.entries, hs⟩

theorem setEntry (h : SignalsOk m) (hx : x.SignalsOk) : SignalsOk (m.setEntry pid x) := by
  refine ⟨fun p f hf => ?_, h.groups⟩
  simp only [Machine.setEntry, OMap.get_set] at hf
  split at hf
  · cases hf
    exact hx
  · exact h.entries p f hf

variable {f : Frame}

theorem push (h : SignalsOk m) (hf : ∀ pgid signal excludeLeaders next count,
    f = .group pgid signal excludeLeaders next count → signal ≤ 64) : SignalsOk (m.push f) := by
  refine h.keep rfl fun pgid signal l n c hg => ?_
  rcases List.mem_cons.mp hg with hg | hg
  · exact hf pgid signal l n c hg.symm
  · exact h.groups pgid signal l n c hg

variable {k : List Frame}

theorem pop (h : SignalsOk m) (hk : k ⊆ m.stack) :
    SignalsOk { m with stack := k } :=
  h.keep rfl fun pgid signal l n c hg => h.groups pgid signal l n c (hk hg)

variable {signal : Nat}

variable (h : SignalsOk m)
include h

theorem settle {o : Outcome} (he : m.entries.get pid = some e)
    (hs : signal ≤ 64) (hd : e.DeliverSpec signal o) : SignalsOk (m.settle pid signal o) := by
  have hset : SignalsOk (m.setEntry pid o.entry) :=
    h.setEntry ((h.entries pid e he).deliver hs hd)
  refine hset.keep rfl fun pgid x l n c hg => ?_
  rcases List.mem_append.mp hg with hg | hg
  · simp only [Option.mem_toList, Option.map_eq_some_iff] at hg
    obtain ⟨call, -, hg⟩ := hg
    cases call <;> cases hg
  · exact h.groups pgid x l n c hg

theorem direct (he : m.entries.get pid = some e)
    (hs : signal ≤ 64) : SignalsOk (m.direct pid signal) := by
  rw [direct_eq he]
  have hemit : SignalsOk (m.emit (.directed pid signal)) := ⟨h.entries, h.groups⟩
  exact hemit.settle he hs (e.deliverSignal_spec signal)

theorem directIfRunning (hs : signal ≤ 64) :
    SignalsOk (m.directIfRunning pid signal) := by
  unfold Machine.directIfRunning
  split
  · exact h
  · split
    · exact h
    · exact ⟨h.entries, h.groups⟩
    · exact h.direct ‹_› hs

theorem deliverPendingSignals : SignalsOk (m.deliverPendingSignals pid) := by
  unfold Machine.deliverPendingSignals
  split
  · exact h
  · split
    · exact h
    · exact h.push nofun

theorem runGroup {pgid next count : Nat} {excludeLeaders : Bool}
    (hs : signal ≤ 64) : SignalsOk (m.runGroup pgid signal excludeLeaders next count) := by
  have hpush : ∀ c, SignalsOk (m.push (.group pgid signal excludeLeaders (next + 1) c)) := by
    intro c
    refine h.push ?_
    rintro _ _ _ _ _ ⟨⟩
    exact hs
  exact runGroup_rule ⟨h.entries, h.groups⟩ hpush fun c _ e he _ => (hpush c).direct (e := e) he hs

theorem notifyWaiters {wstatus : BitVec 32} :
    SignalsOk (m.notifyWaiters pid wstatus) := by
  unfold Machine.notifyWaiters
  split
  · exact h
  · exact ⟨h.entries, h.groups⟩

theorem turn (hk : m.stack = f :: k) :
    SignalsOk ({ m with stack := k }.turn f) := by
  have hp : SignalsOk { m with stack := k } := h.pop (hk ▸ List.subset_cons_self _ _)
  refine turn_rule hp (fun _ _ _ _ => hp.push nofun) (fun pid e signal rest _ he hb hg => ?_)
    (fun pgid signal excludeLeaders next count hf => ?_) fun _ _ _ => hp.notifyWaiters
  · have hd : SignalsOk (({ m with stack := k }.setEntry pid (e.deletePending signal)).push
        (.dispatched pid rest)) := by
      refine SignalsOk.push (hp.setEntry ⟨fun y hy => ?_, (h.entries pid e he).termSignal⟩) nofun
      exact (h.entries pid e he).pending y (List.mem_filter.mp hy).1
    exact hd.settle hg ((h.entries pid e he).pending signal hb.2).1
      (.dispatched (ProcessEntry.dispatchSignal_spec _ _))
  · refine hp.runGroup (h.groups pgid signal excludeLeaders next count ?_)
    rw [hk, hf]
    exact List.mem_cons_self

theorem resume (hk : m.stack = f :: k) :
    SignalsOk ({ m with stack := k }.resume f) := by
  have hp : SignalsOk { m with stack := k } := h.pop (hk ▸ List.subset_cons_self _ _)
  cases f with
  | handler pid signal registration saved since =>
      simp only [Machine.resume]
      split
      · exact hp
      · rename_i e he
        refine SignalsOk.deliverPendingSignals (hp.setEntry ((hp.entries pid e he).congr ?_ ?_))
        · unfold ProcessEntry.handlerReturned
          split <;> rfl
        · unfold ProcessEntry.handlerReturned
          split <;> rfl
  | exitHook pid wstatus =>
      have hpush : SignalsOk ({ m with stack := k }.push (.notify pid wstatus)) :=
        hp.push fun _ _ _ _ _ h => by cases h
      simp only [Machine.resume, Machine.exitHookReturned]
      split
      · exact hpush
      · split
        · exact hpush.directIfRunning (by decide)
        · exact hpush
  | driverSpawn pid ppid driver => exact hp.setEntry ⟨fun _ h => (by cases h), Nat.zero_le _⟩
  | _ => exact hp

theorem of_step (hs : Step m a m') : SignalsOk m' := by
  have hset : ∀ {pid e x}, m.entries.get pid = some e → x.pending = e.pending →
      x.termSignal = e.termSignal → SignalsOk (m.setEntry pid x) :=
    fun he hp ht => h.setEntry ((h.entries _ _ he).congr hp ht)
  cases hs with
  | nothing op => exact h
  | allocated => exact ⟨h.entries, h.groups⟩
  | spawned driver callerPid hb =>
      exact SignalsOk.push (m := { m with nextPid := m.nextPid + 1 }) ⟨h.entries, h.groups⟩ nofun
  | exited pid exitCode e he hl =>
      have hx : SignalsOk (m.setEntry pid (e.exit exitCode)) := hset he rfl rfl
      refine hx.keep rfl fun pgid signal l n c hg => ?_
      rcases List.mem_cons.mp hg with hg | hg
      · cases hg
      · exact h.groups pgid signal l n c hg
  | asked pid options e he hl => exact ⟨h.entries, h.groups⟩
  | waits pid options e he hl => exact ⟨h.entries, h.groups⟩
  | groupCalled op pgid signal excludeLeaders hs =>
      refine h.push ?_
      rintro _ _ _ _ _ ⟨⟩
      exact hs
  | killed pid signal e he hl hs => exact h.direct he hs.2
  | timed op timers => exact ⟨h.entries, h.groups⟩
  | handlerSet pid signal handler e he => exact hset he rfl rfl
  | masked pid how set mask e he hm =>
      refine SignalsOk.deliverPendingSignals ?_
      have hx : SignalsOk (m.setEntry pid (e.setBlocked mask)) := hset he rfl rfl
      exact ⟨hx.entries, hx.groups⟩
  | stopped pid e he => exact hset he ProcessEntry.pending_stop ProcessEntry.termSignal_stop
  | continued pid e he => exact hset he ProcessEntry.pending_cont ProcessEntry.termSignal_cont
  | grouped pid pgid target e he ht hg => exact hset he rfl rfl
  | sessioned pid e he hp => exact hset he rfl rfl
  | returned f k hk hf => exact h.resume hk
  | thrown f k hk hf =>
      have hp : SignalsOk { m with stack := k.dropWhile (!·.outside) } := by
        refine h.pop fun g hg => ?_
        rw [hk]
        exact List.mem_cons_of_mem _ ((List.dropWhile_sublist _).subset hg)
      cases f with
      | handler pid signal registration saved since =>
          simp only [Machine.abandon]
          split
          · exact hp
          · rename_i e he
            exact hp.setEntry ((hp.entries pid e he).congr rfl rfl)
      | _ => exact hp
  | ran f k hk hf => exact h.turn hk
  | alarmExpired pid hk =>
      exact SignalsOk.directIfRunning (m := { m with alarmTimers := m.alarmTimers.delete pid })
        ⟨h.entries, h.groups⟩ (by decide)
  | zombieExpired pid hk =>
      simp only [Machine.reap]
      split
      · exact ⟨h.entries, h.groups⟩
      · split
        · exact ⟨h.entries, h.groups⟩
        · refine ⟨fun p f hf => ?_, h.groups⟩
          simp only [emit, OMap.get_delete] at hf
          split at hf
          · cases hf
          · exact h.entries p f hf

end SignalsOk

end

end SecureExec.Process
