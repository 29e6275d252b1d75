import SecureExec.Process.Pending

/-!
# Process — Masks — signal masks and the handlers that run

`dispatchSignal` saves the mask of a process, adds the handler's signal and mask to it, and puts the
saved one back when the handler is done.  Handlers of one process nest, and `sigprocmask` can be
called at any depth, by a handler of this process or of another.

`Chain` follows the saved masks down the stack: below the last handler of a process lies the mask
that its last `sigprocmask` outside its own handlers left (`lastMask`).  While a handler runs, its
signal and its `sa_mask` are blocked, unless `sigprocmask` was called for the process since it
started.
-/

namespace SecureExec.Process
open Machine Process.Frame

/-- No handler of `pid` is among the callers. -/
def noHandlerOf (pid : Nat) (callers : List Frame) : Bool := !callers.any (·.handlerOf pid)

/-- The mask after an event, if it is a `sigprocmask` for `pid` whose callers are as `P` says. -/
def maskAfter (P : List Frame → Bool) (pid : Nat) (mask : List Nat) : Event → List Nat
  | .masked p blocked callers => if p = pid ∧ P callers then blocked else mask
  | _ => mask

/-- The mask that the last such `sigprocmask` left. -/
def lastMask (P : List Frame → Bool) (pid : Nat) (log : List Event) : List Nat :=
  log.foldl (maskAfter P pid) []

/-- `sigprocmask` was called for `pid` at or after the event `since`. -/
def MaskedSince (pid since : Nat) (log : List Event) : Prop :=
  ∃ i, since ≤ i ∧ ∃ blocked callers, log[i]? = some (.masked pid blocked callers)

/-- The handlers of `pid` on the stack have their signals and masks blocked in `mask`, those aside
that started before the last `sigprocmask`. -/
def Guarded (pid : Nat) (log : List Event) (mask : List Nat) (k : List Frame) : Prop :=
  ∀ signal registration saved since, .handler pid signal registration saved since ∈ k →
    MaskedSince pid since log ∨ signal ∈ mask ∧ ∀ y ∈ registration.mask, y ∈ mask

/-- The masks of `pid` down the stack: the one in force, those that its handlers have saved, and at
the bottom the last that `sigprocmask` left. -/
inductive Chain (pid : Nat) (log : List Event) : List Nat → List Frame → Prop where
  | nil : Chain pid log (lastMask (noHandlerOf pid) pid log) []
  | handler {mask saved : List Nat} {signal since : Nat} {registration : SignalHandler}
      {k : List Frame}
      (hg : Guarded pid log mask (.handler pid signal registration saved since :: k))
      (h : Chain pid log saved k) :
      Chain pid log mask (.handler pid signal registration saved since :: k)
  | other {mask : List Nat} {f : Frame} {k : List Frame} (hf : f.handlerOf pid = false)
      (h : Chain pid log mask k) : Chain pid log mask (f :: k)

/-- The masks of all processes, and the ages of the handlers that run. -/
structure MasksOk (m : Machine) : Prop where
  chain : ∀ pid e, m.entries.get pid = some e → Chain pid m.log e.blocked m.stack
  since : ∀ pid signal registration saved since,
    .handler pid signal registration saved since ∈ m.stack → since ≤ m.log.length

/-! ### The log -/

section

variable {P : List Frame → Bool} {pid : Nat} {log n : List Event} {mask : List Nat}
  {k : List Frame} {f : Frame}

theorem maskAfter_of_ne {ev : Event}
    (h : ∀ blocked callers, P callers → ev ≠ .masked pid blocked callers) :
    maskAfter P pid mask ev = mask := by
  cases ev with
  | masked p blocked callers =>
      refine if_neg ?_
      rintro ⟨rfl, hP⟩
      exact h blocked callers hP rfl
  | _ => rfl

theorem lastMask_append
    (h : ∀ ev ∈ n, ∀ blocked callers, P callers → ev ≠ .masked pid blocked callers) :
    lastMask P pid (log ++ n) = lastMask P pid log := by
  unfold lastMask
  rw [List.foldl_append]
  generalize List.foldl (maskAfter P pid) [] log = start
  induction n with
  | nil => rfl
  | cons ev n ih =>
      rw [List.foldl_cons, maskAfter_of_ne (h ev List.mem_cons_self)]
      exact ih fun ev' hev => h ev' (List.mem_cons_of_mem _ hev)

variable {callers : List Frame}

theorem lastMask_masked {blocked : List Nat} (hP : P callers) :
    lastMask P pid (log ++ [.masked pid blocked callers]) = blocked := by
  simp [lastMask, maskAfter, hP]

theorem MaskedSince.append {since : Nat} (h : MaskedSince pid since log) :
    MaskedSince pid since (log ++ n) := by
  obtain ⟨i, hi, blocked, callers, h⟩ := h
  refine ⟨i, hi, blocked, callers, ?_⟩
  rwa [List.getElem?_append_left (List.getElem?_eq_some_iff.mp h).1]

theorem Guarded.append (h : Guarded pid log mask k) : Guarded pid (log ++ n) mask k := by
  intro signal registration saved since hf
  exact (h signal registration saved since hf).imp_left .append

theorem Guarded.mono {mask' : List Nat} (h : Guarded pid log mask k) (hm : mask ⊆ mask') :
    Guarded pid log mask' k := by
  intro signal registration saved since hf
  refine (h signal registration saved since hf).imp_right fun hb => ?_
  exact ⟨hm hb.1, fun y hy => hm (hb.2 y hy)⟩

/-- Whatever was guarded before, a `sigprocmask` after the handlers started excuses them. -/
theorem Guarded.masked {blocked : List Nat}
    (hs : ∀ signal registration saved since,
      .handler pid signal registration saved since ∈ k → since ≤ log.length) :
    Guarded pid (log ++ [.masked pid blocked callers]) mask k := by
  intro signal registration saved since hf
  refine .inl ⟨log.length, hs signal registration saved since hf, blocked, callers, ?_⟩
  rw [List.getElem?_append_right (Nat.le_refl _), Nat.sub_self]
  rfl

theorem Frame.handlerOf_false {p signal since : Nat} {registration : SignalHandler}
    {saved : List Nat} (h : p ≠ pid) :
    (handler p signal registration saved since).handlerOf pid = false := by
  simpa [handlerOf] using h

/-! ### Chains -/

namespace Chain

theorem guarded (h : Chain pid log mask k) : Guarded pid log mask k := by
  induction h with
  | nil => exact fun _ _ _ _ hf => nomatch hf
  | handler hg _ _ => exact hg
  | other hf _ ih =>
      intro signal registration saved since hm
      rcases List.mem_cons.mp hm with rfl | hm
      · simp [handlerOf] at hf
      · exact ih signal registration saved since hm

theorem append (h : Chain pid log mask k)
    (hn : ∀ ev ∈ n, ∀ blocked callers, noHandlerOf pid callers → ev ≠ .masked pid blocked callers) :
    Chain pid (log ++ n) mask k := by
  induction h with
  | nil =>
      rw [← lastMask_append (P := noHandlerOf pid) hn]
      exact .nil
  | handler hg _ ih => exact .handler hg.append ih
  | other hf _ ih => exact .other hf ih

/-- Below a frame that is no handler of `pid`. -/
theorem of_other (h : Chain pid log mask (f :: k)) (hf : f.handlerOf pid = false) :
    Chain pid log mask k := by
  cases h with
  | handler => simp [handlerOf] at hf
  | other _ h => exact h

/-- Below a handler of `pid` lies the mask it saved. -/
theorem of_handler {signal since : Nat} {registration : SignalHandler} {saved : List Nat}
    (h : Chain pid log mask (.handler pid signal registration saved since :: k)) :
    Chain pid log saved k := by
  cases h with
  | handler _ h => exact h
  | other hf _ => simp [handlerOf] at hf

/-- With nothing on the stack, the mask is the last one. -/
theorem bottom (h : Chain pid log mask []) : mask = lastMask (noHandlerOf pid) pid log := by
  cases h
  rfl

theorem dropWhile (h : Chain pid log mask k) : Chain pid log mask (k.dropWhile (!·.outside)) := by
  induction k with
  | nil => exact h
  | cons f k ih =>
      rw [List.dropWhile_cons]
      split
      · rename_i ho
        refine ih (h.of_other ?_)
        cases f <;> first | rfl | cases ho
      · exact h

/-- A process that nothing is about yet. -/
theorem fresh (hk : ∀ f ∈ k, f.pid ≠ some pid) (hl : ∀ ev ∈ log, ev.pid ≠ some pid) :
    Chain pid log [] k := by
  induction k with
  | nil =>
      have hm : lastMask (noHandlerOf pid) pid ([] ++ log) = [] := by
        refine lastMask_append fun ev hev blocked callers _ h => ?_
        subst h
        exact hl _ hev rfl
      rw [List.nil_append] at hm
      exact hm ▸ .nil
  | cons f k ih =>
      refine .other ?_ (ih fun f hf => hk f (List.mem_cons_of_mem _ hf))
      have hf := hk f List.mem_cons_self
      cases f with
      | handler p signal registration saved since =>
          exact handlerOf_false fun h => hf (by rw [h]; rfl)
      | _ => rfl

/-- No handler of `pid` runs: the mask that `sigprocmask` leaves is the last. -/
theorem masked_outside {blocked : List Nat}
    (hc : noHandlerOf pid callers) (hk : ∀ f ∈ k, f.handlerOf pid = false) :
    Chain pid (log ++ [.masked pid blocked callers]) blocked k := by
  induction k with
  | nil =>
      have h : Chain pid (log ++ [.masked pid blocked callers]) _ [] := .nil
      rwa [lastMask_masked hc] at h
  | cons f k ih =>
      exact .other (hk f List.mem_cons_self) (ih fun f hf => hk f (List.mem_cons_of_mem _ hf))

/-- A handler of `pid` runs: the masks that the handlers saved stay. -/
theorem masked_inside {blocked : List Nat} (h : Chain pid log mask k)
    (hc : noHandlerOf pid callers = false) (hk : ∃ f ∈ k, f.handlerOf pid)
    (hs : ∀ signal registration saved since,
      .handler pid signal registration saved since ∈ k → since ≤ log.length) :
    Chain pid (log ++ [.masked pid blocked callers]) blocked k := by
  have hn : ∀ ev ∈ [Event.masked pid blocked callers], ∀ b c, noHandlerOf pid c →
      ev ≠ .masked pid b c := by
    rintro ev hev b c hP rfl
    obtain ⟨-, -, rfl⟩ := Event.masked.inj (List.mem_singleton.mp hev)
    rw [hc] at hP
    cases hP
  induction h with
  | nil =>
      obtain ⟨f, hf, -⟩ := hk
      cases hf
  | handler _ h _ => exact .handler (.masked hs) (h.append hn)
  | other hf _ ih =>
      refine .other hf (ih ?_ fun a b c d hm => hs a b c d (List.mem_cons_of_mem _ hm))
      obtain ⟨g, hg, hgp⟩ := hk
      rcases List.mem_cons.mp hg with rfl | hg
      · rw [hf] at hgp
        cases hgp
      · exact ⟨g, hg, hgp⟩

end Chain

/-! ### Steps -/

variable {m m' : Machine} {a : Action} {e x : ProcessEntry}

namespace MasksOk

section

variable (h : MasksOk m)
include h

/-- No handler starts or ends, and no mask changes. -/
theorem keep (hl : m'.log = m.log ++ n)
    (hn : ∀ ev ∈ n, ∀ p b c, ev ≠ .masked p b c)
    (hc : ∀ p f', m'.entries.get p = some f' → ∃ f, m.entries.get p = some f ∧
      f'.blocked = f.blocked)
    (hs : ∀ p log mask, Chain p log mask m.stack → Chain p log mask m'.stack)
    (hm : ∀ p x r s t, .handler p x r s t ∈ m'.stack → .handler p x r s t ∈ m.stack) :
    MasksOk m' := by
  refine ⟨fun p f' hf' => ?_, fun p x r s t ht => ?_⟩
  · obtain ⟨f, hf, hb⟩ := hc p f' hf'
    rw [hl, hb]
    exact hs p _ _ ((h.chain p f hf).append fun ev hev b c _ => hn ev hev p b c)
  · rw [hl, List.length_append]
    exact Nat.le_add_right_of_le (h.since p x r s t (hm p x r s t ht))

theorem same (hl : m'.log = m.log) (he : m'.entries = m.entries)
    (hs : m'.stack = m.stack) : MasksOk m' := by
  refine ⟨fun p f hf => ?_, fun p x r s t ht => ?_⟩
  · rw [hl, hs]
    exact h.chain p f (he ▸ hf)
  · rw [hl]
    exact h.since p x r s t (hs ▸ ht)

theorem emit {ev : Event} (hev : ∀ p b c, ev ≠ .masked p b c) :
    MasksOk (m.emit ev) := by
  refine h.keep (n := [ev]) rfl ?_ (fun p f hf => ⟨f, hf, rfl⟩) (fun _ _ _ h => h)
    fun _ _ _ _ _ h => h
  intro ev' hev'
  rw [List.mem_singleton.mp hev']
  exact hev

theorem push (hf : ∀ p, f.handlerOf p = false) : MasksOk (m.push f) := by
  refine ⟨fun p g hg => .other (hf p) (h.chain p g hg), fun p x r s t ht => ?_⟩
  rcases List.mem_cons.mp ht with rfl | ht
  · have := hf p
    simp [handlerOf] at this
  · exact h.since p x r s t ht

/-- A frame that is no handler leaves the stack. -/
theorem pop (hk : m.stack = f :: k) (hf : ∀ p, f.handlerOf p = false) :
    MasksOk { m with stack := k } := by
  refine ⟨fun p g hg => ?_, fun p x r s t ht => ?_⟩
  · have hc := h.chain p g hg
    rw [hk] at hc
    exact hc.of_other (hf p)
  · exact h.since p x r s t (by rw [hk]; exact List.mem_cons_of_mem _ ht)

theorem setEntry (he : m.entries.get pid = some e) (hb : x.blocked = e.blocked) :
    MasksOk (m.setEntry pid x) := by
  refine ⟨fun p f hf => ?_, h.since⟩
  simp only [Machine.setEntry, OMap.get_set] at hf
  split at hf
  · rename_i heq
    subst heq
    cases hf
    exact hb ▸ h.chain p e he
  · exact h.chain p f hf

end

variable {signal : Nat} {o : Outcome}

variable (h : MasksOk m)
include h

section

variable (he : m.entries.get pid = some e)
include he

/-- A handler starts. -/
theorem settle_handler {y : Nat} {registration : SignalHandler} {saved : List Nat}
    (hd : e.DispatchSpec signal o) (hc : o.call = some (.handler y registration saved)) :
    MasksOk (m.settle pid signal o) := by
  obtain ⟨rfl, rfl, hb⟩ := hd.handler y registration saved hc
  have hst : (m.settle pid y o).stack =
      .handler pid y registration e.blocked (m.log.length + 1) :: m.stack := by
    simp [settle, hc, ofCall]
  have hn : ∀ p, ∀ ev ∈ [Event.fate pid y o.fate], ∀ b c, noHandlerOf p c → ev ≠ .masked p b c := by
    rintro p ev hev b c - rfl
    cases List.mem_singleton.mp hev
  refine ⟨fun p f hf => ?_, fun p z r s t ht => ?_⟩
  · rw [hst]
    simp only [settle, OMap.get_set] at hf
    split at hf
    · rename_i heq
      subst heq
      cases hf
      have hold := (h.chain p e he).append (hn p)
      have hsub : e.blocked ⊆ o.entry.blocked := by
        intro z hz
        rw [hb]
        exact List.mem_insert_of_mem (List.mem_union_left hz _)
      refine .handler ?_ hold
      intro z r s t hm
      rcases List.mem_cons.mp hm with hm | hm
      · cases hm
        refine .inr ⟨?_, fun w hw => ?_⟩
        · rw [hb]
          exact List.mem_insert_self
        · rw [hb]
          exact List.mem_insert_of_mem (List.mem_union_right _ hw)
      · exact hold.guarded.mono hsub z r s t hm
    · rename_i hpp
      exact .other (handlerOf_false (Ne.symm hpp)) ((h.chain p f hf).append (hn p))
  · rw [hst] at ht
    have hlen : (m.settle pid y o).log.length = m.log.length + 1 := by simp [settle]
    rw [hlen]
    rcases List.mem_cons.mp ht with ht | ht
    · cases ht
      exact Nat.le_refl _
    · exact Nat.le_succ_of_le (h.since p z r s t ht)

/-- No handler starts. -/
theorem settle_other (hb : o.entry.blocked = e.blocked)
    (hc : ∀ y registration saved, o.call ≠ some (.handler y registration saved)) :
    MasksOk (m.settle pid signal o) := by
  have h₁ : MasksOk ((m.setEntry pid o.entry).emit (.fate pid signal o.fate)) :=
    (h.setEntry he hb).emit nofun
  cases ho : o.call with
  | none => exact h₁.same rfl rfl (by simp [settle, ho, Machine.emit, Machine.setEntry])
  | some c =>
      cases c with
      | handler y registration saved => exact absurd ho (hc y registration saved)
      | kill y =>
          have h₂ := h₁.push (f := .driverKill pid y) fun _ => rfl
          exact h₂.same rfl rfl
            (by simp [settle, ho, Machine.emit, Machine.setEntry, Machine.push, ofCall])

theorem settle (hd : e.DeliverSpec signal o) : MasksOk (m.settle pid signal o) := by
  cases hd with
  | pended _ _ _ hc _ hm => exact h.settle_other he hm (by rw [hc]; exact nofun)
  | dispatched hd =>
      by_cases hc : ∃ y registration saved, o.call = some (.handler y registration saved)
      · obtain ⟨y, registration, saved, hc⟩ := hc
        exact h.settle_handler he hd hc
      · have hno : ∀ y registration saved, o.call ≠ some (.handler y registration saved) :=
          fun y r s hy => hc ⟨y, r, s, hy⟩
        exact h.settle_other he (hd.blocked hno) hno

theorem direct :
    MasksOk (m.direct pid signal) := by
  rw [direct_eq he]
  have hd : MasksOk (m.emit (.directed pid signal)) := h.emit nofun
  exact hd.settle he (e.deliverSignal_spec signal)

end

theorem directIfRunning :
    MasksOk (m.directIfRunning pid signal) := by
  unfold Machine.directIfRunning
  split
  · exact h
  · split
    · exact h
    · exact h.emit nofun
    · exact h.direct ‹_›

theorem deliverPendingSignals : MasksOk (m.deliverPendingSignals pid) := by
  unfold Machine.deliverPendingSignals
  split
  · exact h
  · split
    · exact h
    · exact h.push fun _ => rfl

theorem runGroup {pgid next count : Nat} {excludeLeaders : Bool} :
    MasksOk (m.runGroup pgid signal excludeLeaders next count) :=
  runGroup_rule (h.emit nofun) (fun _ => h.push fun _ => rfl) fun _ _ _ he _ =>
    MasksOk.direct (h.push fun _ => rfl) he

theorem notifyWaiters {wstatus : BitVec 32} :
    MasksOk (m.notifyWaiters pid wstatus) := by
  unfold Machine.notifyWaiters
  split
  · exact h
  · refine h.keep rfl ?_ (fun p f hf => ⟨f, hf, rfl⟩) (fun _ _ _ h => h) fun _ _ _ _ _ h => h
    rintro ev hev p b c rfl
    obtain ⟨call, -, hev⟩ := List.mem_map.mp hev
    cases hev

theorem turn (hk : m.stack = f :: k) (hf : f.outside = false) :
    MasksOk ({ m with stack := k }.turn f) := by
  have hp : MasksOk { m with stack := k } := by
    refine h.pop hk fun p => ?_
    cases f <;> first | rfl | cases hf
  refine turn_rule hp (fun _ _ _ _ => hp.push fun _ => rfl) (fun pid e signal rest _ he _ hg => ?_)
    (fun _ _ _ _ _ _ => hp.runGroup) fun _ _ _ => hp.notifyWaiters
  have hd : MasksOk (({ m with stack := k }.setEntry pid (e.deletePending signal)).push
      (.dispatched pid rest)) :=
    MasksOk.push (hp.setEntry (x := e.deletePending signal) he rfl) fun _ => rfl
  exact hd.settle hg (.dispatched (ProcessEntry.dispatchSignal_spec _ _))

/-- A handler ends, and the mask it saved is back. -/
theorem restore {since : Nat} {registration : SignalHandler} {saved : List Nat}
    (hk : m.stack = .handler pid signal registration saved since :: k)
    (he : m.entries.get pid = some e) (hb : x.blocked = saved) : MasksOk ({ m with stack := k }.setEntry pid x) := by
  refine ⟨fun p f hf => ?_, fun p y r s t ht => ?_⟩
  · simp only [Machine.setEntry, OMap.get_set] at hf
    split at hf
    · rename_i heq
      subst heq
      cases hf
      have hc := h.chain p e he
      rw [hk] at hc
      exact hb ▸ hc.of_handler
    · rename_i hpp
      have hc := h.chain p f hf
      rw [hk] at hc
      exact hc.of_other (handlerOf_false (Ne.symm hpp))
  · exact h.since p y r s t (by rw [hk]; exact List.mem_cons_of_mem _ ht)

/-- A handler of a process without an entry. -/
theorem pop_absent (hk : m.stack = f :: k)
    (hf : ∀ p, f.handlerOf p → m.entries.get p = none) : MasksOk { m with stack := k } := by
  refine ⟨fun p g hg => ?_, fun p y r s t ht => ?_⟩
  · have hc := h.chain p g hg
    rw [hk] at hc
    refine hc.of_other ?_
    by_contra hne
    have hg' : m.entries.get p = some g := hg
    rw [hf p (by simpa using hne)] at hg'
    cases hg'
  · exact h.since p y r s t (by rw [hk]; exact List.mem_cons_of_mem _ ht)

/-- A process that nothing is about yet is registered. -/
theorem register {ppid : Nat} {driver : String}
    (hk : ∀ f ∈ m.stack, f.pid ≠ some pid) (hl : ∀ ev ∈ m.log, ev.pid ≠ some pid) :
    MasksOk (m.register pid ppid driver) := by
  refine ⟨fun p f hf => ?_, h.since⟩
  simp only [Machine.register, Machine.setEntry, OMap.get_set] at hf
  split at hf
  · rename_i heq
    subst heq
    cases hf
    exact .fresh hk hl
  · exact h.chain p f hf

theorem resume (hN : Named m) (hk : m.stack = f :: k) :
    MasksOk ({ m with stack := k }.resume f) := by
  cases f with
  | handler pid signal registration saved since =>
      simp only [Machine.resume]
      split
      · rename_i hn
        refine h.pop_absent hk fun p hp => ?_
        rw [← beq_iff_eq.mp hp]
        exact hn
      · rename_i e he
        refine MasksOk.deliverPendingSignals (h.restore hk he ?_)
        unfold ProcessEntry.handlerReturned
        split <;> rfl
  | exitHook pid wstatus =>
      have hp : MasksOk ({ m with stack := k }.push (.notify pid wstatus)) :=
        (h.pop hk fun _ => rfl).push fun _ => rfl
      simp only [Machine.resume, Machine.exitHookReturned]
      split
      · exact hp
      · split
        · exact hp.directIfRunning
        · exact hp
  | driverSpawn pid ppid driver =>
      have hn := hN.not_names hk
      refine MasksOk.register (h.pop hk fun _ => rfl) (fun g hg hp => hn ?_) fun ev hev hp => hn ?_
      · exact .inr (.inl ⟨g, by rw [hk]; exact List.mem_cons_of_mem _ hg, hp⟩)
      · exact .inr (.inr ⟨ev, hev, hp⟩)
  | _ => exact h.pop hk fun _ => rfl

/-- `sigprocmask`. -/
theorem masked (he : m.entries.get pid = some e) :
    MasksOk ((m.setEntry pid (e.setBlocked mask)).emit (.masked pid mask m.stack)) := by
  refine ⟨fun p f hf => ?_, fun p y r s t ht => ?_⟩
  · simp only [Machine.emit, Machine.setEntry, OMap.get_set] at hf
    split at hf
    · rename_i heq
      subst heq
      cases hf
      cases hc : noHandlerOf p m.stack with
      | true =>
          refine Chain.masked_outside hc fun g hg => ?_
          simpa [noHandlerOf] using List.all_eq_true.mp
            (by simpa [noHandlerOf] using hc : m.stack.all fun g => !g.handlerOf p) g hg
      | false =>
          refine (h.chain p e he).masked_inside hc ?_ fun y r s t hm => h.since p y r s t hm
          simpa [noHandlerOf] using hc
    · rename_i hpp
      refine (h.chain p f hf).append ?_
      rintro ev hev b c - rfl
      exact hpp (Event.masked.inj (List.mem_singleton.mp hev)).1
  · refine (h.since p y r s t ht).trans ?_
    simp [Machine.emit, Machine.setEntry]

theorem of_step (hN : Named m) (hs : Step m a m') : MasksOk m' := by
  cases hs with
  | nothing op => exact h
  | allocated => exact h.same rfl rfl rfl
  | spawned driver callerPid hb =>
      exact MasksOk.push (m := { m with nextPid := m.nextPid + 1 }) (h.same rfl rfl rfl)
        fun _ => rfl
  | exited pid exitCode e he hl =>
      have hx : MasksOk (((m.setEntry pid (e.exit exitCode)).emit
          (.exited pid exitCode e.termSignal)).push (.exitHook pid (e.exit exitCode).wstatus)) :=
        MasksOk.push (MasksOk.emit (h.setEntry (x := e.exit exitCode) he rfl) nofun) fun _ => rfl
      exact hx.same rfl rfl rfl
  | asked pid options e he hl =>
      have hx : MasksOk (m.emit (.answered m.nextCall ⟨pid, e.wstatus, e.termSignal⟩)) :=
        h.emit nofun
      exact hx.same rfl rfl rfl
  | waits pid options e he hl =>
      have hx : MasksOk (m.emit (.waiting m.nextCall pid)) := h.emit nofun
      exact hx.same rfl rfl rfl
  | groupCalled op pgid signal excludeLeaders hs => exact h.push fun _ => rfl
  | killed pid signal e he hl hs => exact h.direct he
  | timed op timers => exact h.same rfl rfl rfl
  | handlerSet pid signal handler e he =>
      exact h.setEntry (x := e.setHandler signal.toNat handler) he rfl
  | masked pid how set mask e he hm => exact (h.masked he).deliverPendingSignals
  | stopped pid e he => exact h.setEntry he ProcessEntry.blocked_stop
  | continued pid e he => exact h.setEntry he ProcessEntry.blocked_cont
  | grouped pid pgid target e he ht hg =>
      exact h.setEntry (x := { e with pgid := target }) he rfl
  | sessioned pid e he hp => exact h.setEntry (x := { e with sid := pid, pgid := pid }) he rfl
  | returned f k hk hf => exact h.resume hN hk
  | thrown f k hk hf =>
      -- the mask is restored as on return, and the table's own frames below go
      have hdrop : ∀ m₁ : Machine, m₁.stack = k → MasksOk m₁ →
          MasksOk { m₁ with stack := k.dropWhile (!·.outside) } := by
        intro m₁ hk₁ h₁
        refine ⟨fun p g hg => ?_, fun p y r s t ht => ?_⟩
        · exact (hk₁ ▸ h₁.chain p g hg).dropWhile
        · exact h₁.since p y r s t (hk₁ ▸ (List.dropWhile_sublist _).subset ht)
      cases f with
      | handler pid signal registration saved since =>
          simp only [Machine.abandon]
          split
          · rename_i hn
            refine hdrop { m with stack := k } rfl (h.pop_absent hk fun p hp => ?_)
            rw [← beq_iff_eq.mp hp]
            exact hn
          · rename_i e he
            exact hdrop _ rfl (h.restore (x := e.setBlocked saved) hk he rfl)
      | _ => exact hdrop { m with stack := k } rfl (h.pop hk fun _ => rfl)
  | ran f k hk hf => exact h.turn hk hf
  | alarmExpired pid hk =>
      exact MasksOk.directIfRunning (m := { m with alarmTimers := m.alarmTimers.delete pid })
        (h.same rfl rfl rfl)
  | zombieExpired pid hk =>
      have hz : MasksOk { m with zombieTimers := m.zombieTimers.erase pid } := h.same rfl rfl rfl
      simp only [Machine.reap]
      split
      · exact hz
      · split
        · exact hz
        · refine hz.keep (n := [.reaped pid]) rfl ?_ ?_ (fun _ _ _ h => h) fun _ _ _ _ _ h => h
          · rintro ev hev p b c rfl
            cases List.mem_singleton.mp hev
          · intro p f hf
            simp only [Machine.emit, OMap.get_delete] at hf
            split at hf
            · cases hf
            · exact ⟨f, hf, rfl⟩

end MasksOk

end

/-! ### Every run -/

/-- In every run in which handlers return, and no other exception takes a loop over pending signals
with it: `SIGKILL` and `SIGSTOP` are never pending; while a handler runs, its signal and its
`sa_mask` are blocked, unless `sigprocmask` was called for its process since it started; and with
nothing on the stack, each process has the mask that the last `sigprocmask` left that no handler of
its own called, and what is pending at a process that has not exited is blocked. -/
theorem masks_of_returns (max : Option Nat) (m : Machine)
    (r : Lts.Reach step (fun m a => returns m a) (.boot max) m) :
    (∀ pid e signal, m.entries.get pid = some e → signal ∈ e.pending →
      signal ≠ SIGKILL ∧ signal ≠ SIGSTOP) ∧
    (∀ pid e signal registration saved since, m.entries.get pid = some e →
      .handler pid signal registration saved since ∈ m.stack →
        MaskedSince pid since m.log ∨ signal ∈ e.blocked ∧ ∀ y ∈ registration.mask, y ∈ e.blocked) ∧
    (m.stack = [] → ∀ pid e, m.entries.get pid = some e →
      e.blocked = lastMask (noHandlerOf pid) pid m.log ∧
        (e.live → ∀ signal ∈ e.pending, signal ∈ e.blocked)) := by
  have hi : (Named m ∧ MasksOk m) ∧ SignalsOk m ∧ Covered NoDebt m := by
    refine r.invariant (I := fun m => (Named m ∧ MasksOk m) ∧ SignalsOk m ∧ Covered NoDebt m)
      ⟨⟨.boot max, nofun, nofun⟩, .boot max, nofun⟩ ?_
    rintro t a u ⟨⟨hN, hM⟩, hS, hCov⟩ hC h
    exact ⟨⟨hN.step h, hM.of_step hN (step_inv h)⟩, hS.of_step (step_inv h),
      hCov.of_step hC (step_inv h)⟩
  obtain ⟨⟨-, hM⟩, hS, hCov⟩ := hi
  refine ⟨fun pid e signal he hp => ((hS.entries pid e he).pending signal hp).2, ?_, ?_⟩
  · intro pid e signal registration saved since he hf
    exact (hM.chain pid e he).guarded signal registration saved since hf
  · intro hk pid e he
    refine ⟨?_, fun hl signal hp => ?_⟩
    · have hc := hM.chain pid e he
      rw [hk] at hc
      exact hc.bottom
    · by_contra hb
      rcases hCov pid e signal he hl hp hb with hd | ⟨f, hf, -⟩
      · cases hd
      · rw [hk] at hf
        cases hf

/-- A handler for `SIGUSR1` (10) that blocks `SIGTERM` gets a `SIGTERM` and a second `SIGUSR1`
while it runs, and sends itself a `SIGUSR2` (12) that has a one-shot handler. -/
def nestedRun : List Action :=
  [.call (.spawn (.ok "wasm") none), .ret, .call (.sigaction 1 10 ⟨.user 0, [15], 0⟩),
    .call (.sigaction 1 12 ⟨.user 1, [], SA_RESETHAND⟩), .call (.sigaction 1 15 ⟨.user 2, [], 0⟩),
    .call (.kill 1 10), .call (.kill 1 15), .call (.kill 1 10), .call (.kill 1 12), .ret, .run, .run,
    .run, .ret, .run, .ret, .run, .ret, .run, .run, .run, .run, .run]

theorem masks_of_returns_nested :
    ∃ m, (Lts.execIf step (fun m a => returns m a) (.boot none) nestedRun = some m ∧
      m.stack = [] ∧ m.log.filterMap (fun ev => match ev with
        | .fate _ signal (.handled h) => some (signal, h)
        | _ => none) = [(10, 0), (12, 1), (10, 0), (15, 2)]) ∧
      ∀ pid e, m.entries.get pid = some e → e.blocked = lastMask (noHandlerOf pid) pid m.log := by
  have h : (Lts.execIf step (fun m a => returns m a) (.boot none) nestedRun).map
      (fun m => (m.stack, m.log.filterMap fun ev => match ev with
        | .fate _ signal (.handled h) => some (signal, h)
        | _ => none)) = some ([], [(10, 0), (12, 1), (10, 0), (15, 2)]) := by decide +kernel
  obtain ⟨m, hm, hl⟩ := Option.map_eq_some_iff.mp h
  obtain ⟨hk, hl⟩ := Prod.mk.inj hl
  have hr := masks_of_returns none m (.of_execIf hm)
  exact ⟨m, ⟨hm, hk, hl⟩, fun pid e he => (hr.2.2 hk pid e he).1⟩

/-- A handler of process 1 blocks signals for process 2. -/
def foreignMaskRun : List Action :=
  [.call (.spawn (.ok "wasm") none), .ret, .call (.spawn (.ok "wasm") none), .ret,
    .call (.sigaction 1 10 ⟨.user 0, [], 0⟩), .call (.kill 1 10), .call (.sigprocmask 2 0 [12]),
    .ret]

/-- Back at top level, process 2 has a mask that no `sigprocmask` at top level left. -/
theorem topLevelMask_fails :
    ∃ m, Lts.Reach step (fun m a => returns m a) (.boot none) m ∧ m.stack = [] ∧
      ∃ pid e, m.entries.get pid = some e ∧ e.live ∧
        e.blocked ≠ lastMask (·.isEmpty) pid m.log := by
  obtain ⟨m, hm, hk, ht, hl⟩ := Lts.Reach.exists_of_execIf step (fun m a => returns m a)
    (.boot none) foreignMaskRun (P := fun m => m.stack = [] ∧ lastMask (·.isEmpty) 2 m.log = [] ∧
      (m.entries.get 2).map (fun e => (e.live, e.blocked)) = some (true, [12]))
    (by decide +kernel)
  simp only [Prod.mk.injEq, Option.map_eq_some_iff] at hl
  obtain ⟨e, he, hlive, hb⟩ := hl
  refine ⟨m, hm, hk, 2, e, he, hlive, ?_⟩
  rw [hb, ht]
  exact fun h => by cases h

end SecureExec.Process
