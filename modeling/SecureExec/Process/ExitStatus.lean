import SecureExec.Process.Pending
import Mathlib.Data.Nat.Bitwise

/-!
# Process — ExitStatus — the exit status is final

`markExited` fixes the exit code, and with `termSignal` the status word; it calls the exit hook and
the parent's `SIGCHLD` handler, and then answers the waiters.  A `waitpid` after the exit computes
the word anew from the entry.  All answers for a process agree with its exit, each call is answered
at most once, and once the exit is through none waits any more.

Two things can go wrong, and `keepsStatus` excludes them.  A loop of `deliverPendingSignals` that
comes to a process that has exited dispatches one more signal to it, and a default action that
terminates overwrites `termSignal`.  And an exception out of the exit hook or the `SIGCHLD` handler
ends `markExited` before the waiters are answered.
-/

namespace SecureExec.Process
open Machine ProcessEntry

/-! ### Status words -/

theorem toNat_and_low (b : BitVec 32) {k : Nat} (hk : k < 32) :
    (b &&& BitVec.ofNat 32 (2 ^ k - 1)).toNat = b.toNat % 2 ^ k := by
  have hlt : 2 ^ k - 1 < 2 ^ 32 :=
    Nat.lt_of_le_of_lt (Nat.sub_le _ _) (Nat.pow_lt_pow_right (by decide) hk)
  rw [BitVec.toNat_and, BitVec.toNat_ofNat, Nat.mod_eq_of_lt hlt, Nat.and_two_pow_sub_one_eq_mod]

theorem toNat_and_7f (s : BitVec 32) : (s &&& 0x7f).toNat = s.toNat % 128 :=
  toNat_and_low s (k := 7) (by decide)

theorem toNat_encodeSignalStatus {signal : Nat} (h : signal ≤ 64) :
    (encodeSignalStatus signal).toNat = signal := by
  rw [encodeSignalStatus, toNat_and_7f, BitVec.toNat_ofNat]
  omega

theorem toNat_encodeExitStatus (code : Int) :
    (encodeExitStatus code).toNat = (code % 256).toNat * 256 := by
  have hlow : (BitVec.ofInt 32 code &&& 0xff).toNat = (code % 256).toNat := by
    refine (toNat_and_low (BitVec.ofInt 32 code) (k := 8) (by decide)).trans ?_
    rw [BitVec.toNat_ofInt]
    omega
  have hlt : (code % 256).toNat < 256 := by omega
  rw [encodeExitStatus, BitVec.toNat_shiftLeft, hlow, Nat.shiftLeft_eq, Nat.mod_eq_of_lt]
  omega

theorem toNat_WEXITSTATUS {status : BitVec 32} (h : status.toNat < 2 ^ 31) :
    (WEXITSTATUS status).toNat = status.toNat / 256 % 256 := by
  have hmsb : status.msb = false := by
    rw [BitVec.msb_eq_false_iff_two_mul_lt]
    omega
  rw [WEXITSTATUS, BitVec.sshiftRight_eq_of_msb_false hmsb]
  refine (toNat_and_low (status >>> 8) (k := 8) (by decide)).trans ?_
  rw [BitVec.toNat_ushiftRight, Nat.shiftRight_eq_div_pow]
  rfl

/-- The status word of an exit with this code and, if it is not `0`, by this signal. -/
def statusWord (code : Int) (termSignal : Nat) : BitVec 32 :=
  if 0 < termSignal then encodeSignalStatus termSignal else encodeExitStatus code

/-- Decoding gives back the exit code modulo 256, or the terminating signal. -/
def Decodes (status : BitVec 32) (code : Int) (termSignal : Nat) : Prop :=
  if 0 < termSignal then
    WIFSIGNALED status ∧ !WIFEXITED status ∧ (WTERMSIG status).toNat = termSignal
  else WIFEXITED status ∧ !WIFSIGNALED status ∧ ((WEXITSTATUS status).toNat : Int) = code % 256

theorem decodes_statusWord (code : Int) {termSignal : Nat} (h : termSignal ≤ 64) :
    Decodes (statusWord code termSignal) code termSignal := by
  unfold Decodes statusWord
  split
  · rename_i hpos
    have ht : (WTERMSIG (encodeSignalStatus termSignal)).toNat = termSignal := by
      rw [WTERMSIG, toNat_and_7f, toNat_encodeSignalStatus h]
      omega
    have hne : (encodeSignalStatus termSignal &&& 0x7f) ≠ 0 := by
      intro h0
      rw [WTERMSIG, h0] at ht
      exact Nat.ne_of_gt hpos ht.symm
    exact ⟨by simpa [WIFSIGNALED] using hne, by simpa [WIFEXITED] using hne, ht⟩
  · have hz : (encodeExitStatus code &&& 0x7f) = 0 := by
      apply BitVec.eq_of_toNat_eq
      rw [toNat_and_7f, toNat_encodeExitStatus]
      simp
      omega
    refine ⟨by rw [WIFEXITED, hz]; rfl, by rw [WIFSIGNALED, hz]; rfl, ?_⟩
    rw [toNat_WEXITSTATUS (by rw [toNat_encodeExitStatus]; omega), toNat_encodeExitStatus]
    omega

/-! ### The property -/

/-- Is the event an answer to `call`? -/
def Event.answers (call : Nat) : Event → Bool
  | .answered c _ => c == call
  | _ => false

/-- How often `call` was answered. -/
def Machine.answers (m : Machine) (call : Nat) : Nat := m.log.countP (·.answers call)

/-- The answers of `waitpid`. -/
structure StatusFinal (m : Machine) : Prop where
  /-- All answers for one process are the same. -/
  agree : ∀ call info call' info', .answered call info ∈ m.log → .answered call' info' ∈ m.log →
    info.pid = info'.pid → info = info'
  /-- They report its exit, and decode to it. -/
  reports : ∀ call info, .answered call info ∈ m.log →
    ∃ code, .exited info.pid code info.termSignal ∈ m.log ∧
      Decodes info.status code info.termSignal
  /-- No call is answered twice. -/
  atMostOnce : ∀ call, m.answers call ≤ 1
  /-- A call that waits is answered for the process it waits for. -/
  own : ∀ call pid info, .waiting call pid ∈ m.log → .answered call info ∈ m.log → info.pid = pid
  /-- When the exit is through, every call that waited for it is answered. -/
  once : m.stack = [] → ∀ call pid code termSignal, .waiting call pid ∈ m.log →
    .exited pid code termSignal ∈ m.log → m.answers call = 1

/-- Is it a frame of `markExited`? -/
def Frame.exits : Frame → Bool
  | exitHook .. | notify .. => true
  | _ => false

/-- Would the loop of `deliverPendingSignals` overwrite `termSignal` of a process that has
exited? -/
def ProcessEntry.overwrites (e : ProcessEntry) (signal : Nat) : Bool :=
  !e.live && !e.blocked.contains signal && e.pending.contains signal && e.defaults signal &&
    terminates signal && e.termSignal != signal

/-- No pending signal with a terminating default action is dispatched to a process that has exited
by another, and no exception ends `markExited`. -/
def keepsStatus (m : Machine) : Action → Bool
  | .run =>
      match m.stack with
      | .pending pid (signal :: _) :: _ => (m.entries.get pid).all fun e => !e.overwrites signal
      | _ => true
  | .throw =>
      match m.stack with
      | [] => true
      | f :: k => !f.exits && (k.takeWhile (!·.outside)).all (!·.exits)
  | _ => true

/-! ### Calm steps -/

/-- A process that has exited keeps its exit code and signal. -/
structure Frozen (e e' : ProcessEntry) : Prop where
  live : e'.live = e.live
  exitCode : e.live = false → e'.exitCode = e.exitCode
  termSignal : e.live = false → e'.termSignal = e.termSignal

/-- An event that is about no exit, wait or answer. -/
def Event.calm : Event → Bool
  | .exited .. | .waiting .. | .answered .. => false
  | _ => true

/-- Nothing exits, waits or is answered. -/
structure Calm (m m' : Machine) : Prop where
  log : ∃ n, m'.log = m.log ++ n ∧ ∀ ev ∈ n, ev.calm
  entries : ∀ p, Option.Rel Frozen (m.entries.get p) (m'.entries.get p)
  frames : ∀ f, f.exits → (f ∈ m'.stack ↔ f ∈ m.stack)
  waiters : m'.waiters = m.waiters
  nextCall : m'.nextCall = m.nextCall

namespace Frozen

variable {e e' e'' : ProcessEntry}

theorem refl (e : ProcessEntry) : Frozen e e := ⟨rfl, fun _ => rfl, fun _ => rfl⟩

theorem trans (h : Frozen e e') (h' : Frozen e' e'') : Frozen e e'' where
  live := h'.live.trans h.live
  exitCode hl := (h'.exitCode (h.live.trans hl)).trans (h.exitCode hl)
  termSignal hl := (h'.termSignal (h.live.trans hl)).trans (h.termSignal hl)

theorem rel_refl (o : Option ProcessEntry) : Option.Rel Frozen o o := by
  cases o with
  | none => exact .none
  | some e => exact .some (refl e)

theorem rel_trans {o o' o'' : Option ProcessEntry} (h : Option.Rel Frozen o o')
    (h' : Option.Rel Frozen o' o'') : Option.Rel Frozen o o'' := by
  cases h with
  | none => exact h'
  | some h =>
      cases h' with
      | some h' => exact .some (h.trans h')

/-- The fields that `waitpid` reads stay. -/
theorem of_eq (hl : e'.live = e.live) (hx : e'.exitCode = e.exitCode)
    (ht : e'.termSignal = e.termSignal) : Frozen e e' := ⟨hl, fun _ => hx, fun _ => ht⟩

theorem wstatus (h : Frozen e e') (hl : e.live = false) : e'.wstatus = e.wstatus := by
  rw [ProcessEntry.wstatus, ProcessEntry.wstatus, h.exitCode hl, h.termSignal hl]

/-- A process that has not exited has nothing to lose. -/
theorem of_live (h : Same e e') (hl : e.live) : Frozen e e' := by
  refine ⟨h.live, fun hn => ?_, fun hn => ?_⟩
  · rw [hl] at hn
    cases hn
  · rw [hl] at hn
    cases hn

end Frozen

namespace Calm

variable {m m' m'' : Machine} {pid : Nat} {e x : ProcessEntry}

theorem refl (m : Machine) : Calm m m :=
  ⟨⟨[], (List.append_nil _).symm, nofun⟩, fun _ => Frozen.rel_refl _, fun _ _ => .rfl, rfl, rfl⟩

theorem trans (h : Calm m m') (h' : Calm m' m'') : Calm m m'' where
  log := by
    obtain ⟨n, hn, hc⟩ := h.log
    obtain ⟨n', hn', hc'⟩ := h'.log
    refine ⟨n ++ n', by rw [hn', hn, List.append_assoc], fun ev hev => ?_⟩
    exact (List.mem_append.mp hev).elim (hc ev) (hc' ev)
  entries p := Frozen.rel_trans (h.entries p) (h'.entries p)
  frames f hf := (h'.frames f hf).trans (h.frames f hf)
  waiters := h'.waiters.trans h.waiters
  nextCall := h'.nextCall.trans h.nextCall

/-- The bookkeeping that is about no exit. -/
theorem of_eq (hl : m'.log = m.log) (he : m'.entries = m.entries) (hs : m'.stack = m.stack)
    (hw : m'.waiters = m.waiters) (hn : m'.nextCall = m.nextCall) : Calm m m' :=
  ⟨⟨[], by rw [hl, List.append_nil], nofun⟩, fun p => by rw [he]; exact Frozen.rel_refl _,
    fun _ _ => by rw [hs], hw, hn⟩

theorem emit {ev : Event} (h : ev.calm) : Calm m (m.emit ev) where
  log := ⟨[ev], rfl, fun _ hev => List.mem_singleton.mp hev ▸ h⟩
  entries _ := Frozen.rel_refl _
  frames _ _ := .rfl
  waiters := rfl
  nextCall := rfl

theorem push {f : Frame} (h : f.exits = false) : Calm m (m.push f) where
  log := ⟨[], (List.append_nil _).symm, nofun⟩
  entries _ := Frozen.rel_refl _
  frames g hg := by
    refine ⟨fun hm => ?_, List.mem_cons_of_mem _⟩
    rcases List.mem_cons.mp hm with rfl | hm
    · rw [h] at hg
      cases hg
    · exact hm
  waiters := rfl
  nextCall := rfl

/-- Frames leave the stack that are none of `markExited`. -/
theorem pop {k d : List Frame} (hk : m.stack = d ++ k) (hd : ∀ f ∈ d, f.exits = false) :
    Calm m { m with stack := k } where
  log := ⟨[], (List.append_nil _).symm, nofun⟩
  entries _ := Frozen.rel_refl _
  frames g hg := by
    refine ⟨fun hm => by rw [hk]; exact List.mem_append_right _ hm, fun hm => ?_⟩
    rw [hk] at hm
    rcases List.mem_append.mp hm with hm | hm
    · rw [hd g hm] at hg
      cases hg
    · exact hm
  waiters := rfl
  nextCall := rfl

theorem setEntry (he : m.entries.get pid = some e) (h : Frozen e x) :
    Calm m (m.setEntry pid x) where
  log := ⟨[], (List.append_nil _).symm, nofun⟩
  entries p := by
    simp only [Machine.setEntry, OMap.get_set]
    split
    · rename_i heq
      rw [heq, he]
      exact .some h
    · exact Frozen.rel_refl _
  frames _ _ := .rfl
  waiters := rfl
  nextCall := rfl

variable {signal : Nat}

theorem settle {o : Outcome} (he : m.entries.get pid = some e)
    (h : Frozen e o.entry) : Calm m (m.settle pid signal o) := by
  have h₁ : Calm m ((m.setEntry pid o.entry).emit (.fate pid signal o.fate)) :=
    (setEntry he h).trans (emit rfl)
  cases hc : o.call with
  | none =>
      refine h₁.trans (of_eq rfl rfl ?_ rfl rfl)
      simp [Machine.settle, hc, Machine.emit, Machine.setEntry]
  | some c =>
      have h₂ := h₁.trans (push (f := .ofCall pid (m.log.length + 1) c) (by cases c <;> rfl))
      refine h₂.trans (of_eq rfl rfl ?_ rfl rfl)
      simp [Machine.settle, hc, Machine.emit, Machine.setEntry, Machine.push]

theorem direct (he : m.entries.get pid = some e) (hl : e.live) :
    Calm m (m.direct pid signal) := by
  rw [direct_eq he]
  have hd : Calm m (m.emit (.directed pid signal)) := emit rfl
  exact hd.trans (settle he (.of_live (.deliverSignal e signal) hl))

variable (m)

theorem directIfRunning (pid signal : Nat) :
    Calm m (m.directIfRunning pid signal) := by
  unfold Machine.directIfRunning
  split
  · exact refl m
  · rename_i e he
    split
    · exact refl m
    · exact emit rfl
    · rename_i hs
      exact direct he (by rw [live, hs]; rfl)

theorem deliverPendingSignals (pid : Nat) :
    Calm m (m.deliverPendingSignals pid) := by
  unfold Machine.deliverPendingSignals
  split
  · exact refl m
  · split
    · exact refl m
    · exact push rfl

/-- A dispatch that does not overwrite `termSignal`. -/
theorem frozen_dispatch (ho : e.overwrites signal = false) (hs : e.SignalsOk)
    (hb : signal ∉ e.blocked ∧ signal ∈ e.pending) :
    Frozen e ((e.deletePending signal).dispatchSignal signal).entry := by
  have hd := (e.deletePending signal).dispatchSignal_spec signal
  refine ⟨(Same.dispatchSignal (e.deletePending signal) signal).live, fun _ => hd.exitCode,
    fun hl => ?_⟩
  rcases hd.termSignal with ht | ⟨ht, hterm, hdef⟩
  · exact ht
  · have hdef : e.defaults signal := hdef.resolve_right (hs.pending signal hb.2).2.1
    have heq : e.termSignal = signal := by
      simpa [overwrites, hl, hb.1, hb.2, hdef, hterm] using ho
    exact ht.trans heq.symm

theorem runGroup (pgid signal : Nat) (excludeLeaders : Bool) (next count : Nat) :
    Calm m (m.runGroup pgid signal excludeLeaders next count) := by
  have hpush : ∀ c, Calm m (m.push (.group pgid signal excludeLeaders (next + 1) c)) :=
    fun _ => push rfl
  exact runGroup_rule (emit rfl) hpush fun c _ e he hl => (hpush c).trans (direct (e := e) he hl)

variable {m}

theorem turn (hS : SignalsOk m) (hf : f.exits = false)
    (hC : ∀ pid signal rest, f = .pending pid (signal :: rest) →
      (m.entries.get pid).all fun e => !e.overwrites signal) : Calm m (m.turn f) := by
  refine turn_rule (refl m) (fun _ _ _ _ => push rfl) (fun pid e signal rest hpend he hb hg => ?_)
    (fun _ _ _ _ _ _ => runGroup ..) fun pid wstatus hn => ?_
  · have ho : e.overwrites signal = false := by
      have := hC pid signal rest hpend
      simpa [he] using this
    have h₁ : Calm m ((m.setEntry pid (e.deletePending signal)).push (.dispatched pid rest)) :=
      (setEntry (x := e.deletePending signal) he (.of_eq rfl rfl rfl)).trans (push rfl)
    have hz := frozen_dispatch ho (hS.entries pid e he) hb
    exact h₁.trans (settle hg ⟨hz.live, hz.exitCode, hz.termSignal⟩)
  · rw [hn] at hf
    cases hf

end Calm

/-! ### The other steps -/

/-- What a step does to exits, waits and answers. -/
inductive ExitEffect (m : Machine) : Machine → Prop where
  | calm {m' : Machine} (h : Calm m m') : ExitEffect m m'
  | exited (pid : Nat) (exitCode : Int) (e : ProcessEntry) (he : m.entries.get pid = some e)
      (hl : e.live) {m' : Machine} (h : Calm (((m.setEntry pid (e.exit exitCode)).emit
        (.exited pid exitCode e.termSignal)).push (.exitHook pid (e.exit exitCode).wstatus)) m') :
      ExitEffect m m'
  | asked (pid : Nat) (e : ProcessEntry) (he : m.entries.get pid = some e) (hl : e.live = false) :
      ExitEffect m { m.emit (.answered m.nextCall ⟨pid, e.wstatus, e.termSignal⟩) with
        nextCall := m.nextCall + 1 }
  | waits (pid : Nat) (e : ProcessEntry) (he : m.entries.get pid = some e) (hl : e.live) :
      ExitEffect m { m.emit (.waiting m.nextCall pid) with
        nextCall := m.nextCall + 1
        waiters := Function.update m.waiters pid (m.waiters pid ++ [m.nextCall]) }
  | hookReturned (pid : Nat) (wstatus : BitVec 32) (k : List Frame)
      (hk : m.stack = .exitHook pid wstatus :: k) {m' : Machine}
      (h : Calm ({ m with stack := k }.push (.notify pid wstatus)) m') : ExitEffect m m'
  | notified (pid : Nat) (wstatus : BitVec 32) (k : List Frame)
      (hk : m.stack = .notify pid wstatus :: k) :
      ExitEffect m ({ m with stack := k }.notifyWaiters pid wstatus)
  | registered (pid ppid : Nat) (driver : String) (k : List Frame)
      (hk : m.stack = .driverSpawn pid ppid driver :: k) :
      ExitEffect m ({ m with stack := k }.register pid ppid driver)
  | reaped (pid : Nat) (e : ProcessEntry) (hk : m.stack = []) (he : m.entries.get pid = some e)
      (hl : e.live = false) {m' : Machine}
      (h : Calm ({ m with entries := m.entries.delete pid }.emit (.reaped pid)) m') :
      ExitEffect m m'

section

variable {m m' : Machine} {a : Action} {f : Frame} {k : List Frame}

theorem ExitEffect.returned (hk : m.stack = f :: k) (hf : f.outside) :
    ExitEffect m ({ m with stack := k }.resume f) := by
  have hpop : f.exits = false → Calm m { m with stack := k } := fun hf =>
    .pop (d := [f]) hk fun g hg => List.mem_singleton.mp hg ▸ hf
  cases f with
  | handler pid signal registration saved since =>
      simp only [resume]
      split
      · exact .calm (hpop rfl)
      · rename_i e he
        refine .calm (((hpop rfl).trans (.setEntry he ?_)).trans (.deliverPendingSignals _ _))
        refine .of_eq (Same.handlerReturned e signal registration saved).live ?_ ?_
        · unfold handlerReturned
          split <;> rfl
        · unfold handlerReturned
          split <;> rfl
  | exitHook pid wstatus =>
      refine .hookReturned pid wstatus k hk ?_
      simp only [resume, exitHookReturned]
      split
      · exact .refl _
      · split
        · exact .directIfRunning _ _ _
        · exact .refl _
  | driverSpawn pid ppid driver => exact .registered pid ppid driver k hk
  | notify pid wstatus => cases hf
  | _ => exact .calm (hpop rfl)

theorem ExitEffect.ran (hS : SignalsOk m) (hC : keepsStatus m .run) (hk : m.stack = f :: k)
    (hf : f.outside = false) : ExitEffect m ({ m with stack := k }.turn f) := by
  have hcalm : f.exits = false → ExitEffect m ({ m with stack := k }.turn f) := fun hf => by
    have hpop : Calm m { m with stack := k } :=
      .pop (d := [f]) hk fun g hg => List.mem_singleton.mp hg ▸ hf
    refine .calm (hpop.trans (.turn (hS.pop (hk ▸ List.subset_cons_self _ _)) hf ?_))
    rintro pid signal rest rfl
    simpa [keepsStatus, hk] using hC
  cases f with
  | notify pid wstatus => exact .notified pid wstatus k hk
  | exitHook pid wstatus => cases hf
  | driverSpawn pid ppid driver => cases hf
  | _ => exact hcalm rfl

theorem ExitEffect.thrown (hC : keepsStatus m .throw) (hk : m.stack = f :: k) :
    ExitEffect m ({ m with stack := k.dropWhile (!·.outside) }.abandon f) := by
  simp only [keepsStatus, hk, Bool.and_eq_true, Bool.not_eq_true'] at hC
  have hp : Calm m { m with stack := k.dropWhile (!·.outside) } := by
    refine .pop (d := f :: k.takeWhile (!·.outside)) ?_ fun g hg => ?_
    · rw [hk, List.cons_append, List.takeWhile_append_dropWhile]
    · rcases List.mem_cons.mp hg with rfl | hg
      · exact hC.1
      · simpa using List.all_eq_true.mp hC.2 g hg
  cases f with
  | handler pid signal registration saved since =>
      simp only [abandon]
      split
      · exact .calm hp
      · rename_i e he
        exact .calm (hp.trans (.setEntry (x := e.setBlocked saved) he (.of_eq rfl rfl rfl)))
  | _ => exact .calm hp

theorem ExitEffect.of_step (hS : SignalsOk m) (hC : keepsStatus m a) (h : Step m a m') :
    ExitEffect m m' := by
  have hset : ∀ {pid e x}, m.entries.get pid = some e → Same e x → x.exitCode = e.exitCode →
      x.termSignal = e.termSignal → Calm m (m.setEntry pid x) :=
    fun he hs hx ht => .setEntry he (.of_eq hs.live hx ht)
  cases h with
  | nothing op => exact .calm (.refl m)
  | allocated => exact .calm (.of_eq rfl rfl rfl rfl rfl)
  | spawned driver callerPid hb =>
      have hq : Calm m { m with nextPid := m.nextPid + 1 } := .of_eq rfl rfl rfl rfl rfl
      exact .calm (hq.trans (.push rfl))
  | exited pid exitCode e he hl =>
      exact .exited pid exitCode e he hl (.of_eq rfl rfl rfl rfl rfl)
  | asked pid options e he hl => exact .asked pid e he hl
  | waits pid options e he hl => exact .waits pid e he hl
  | groupCalled op pgid signal excludeLeaders hs => exact .calm (.push rfl)
  | killed pid signal e he hl hs => exact .calm (.direct he hl)
  | timed op timers => exact .calm (.of_eq rfl rfl rfl rfl rfl)
  | handlerSet pid signal handler e he =>
      exact .calm (.setEntry (x := e.setHandler signal.toNat handler) he (.of_eq rfl rfl rfl))
  | masked pid how set mask e he hm =>
      have hq : Calm m ((m.setEntry pid (e.setBlocked mask)).emit (.masked pid mask m.stack)) :=
        (Calm.setEntry (x := e.setBlocked mask) he (.of_eq rfl rfl rfl)).trans (.emit rfl)
      exact .calm (hq.trans (.deliverPendingSignals _ _))
  | stopped pid e he =>
      exact .calm (hset he (.stop e) exitCode_stop termSignal_stop)
  | continued pid e he =>
      exact .calm (hset he (.cont e) exitCode_cont termSignal_cont)
  | grouped pid pgid target e he ht hg =>
      exact .calm (.setEntry (x := { e with pgid := target }) he (.of_eq rfl rfl rfl))
  | sessioned pid e he hp =>
      exact .calm (.setEntry (x := { e with sid := pid, pgid := pid }) he (.of_eq rfl rfl rfl))
  | returned f k hk hf => exact .returned hk hf
  | thrown f k hk hf => exact .thrown hC hk
  | ran f k hk hf => exact .ran hS hC hk hf
  | alarmExpired pid hk =>
      have hq : Calm m { m with alarmTimers := m.alarmTimers.delete pid } :=
        .of_eq rfl rfl rfl rfl rfl
      exact .calm (hq.trans (.directIfRunning _ _ _))
  | zombieExpired pid hk =>
      simp only [reap]
      split
      · exact .calm (.of_eq rfl rfl rfl rfl rfl)
      · rename_i e he
        split
        · exact .calm (.of_eq rfl rfl rfl rfl rfl)
        · rename_i hl
          exact .reaped pid e hk he (by simpa using hl) (.of_eq rfl rfl rfl rfl rfl)

end

/-! ### Exits -/

/-- What the log says about exits is what the entries say, and what the waiters will be told. -/
structure Exits (m : Machine) : Prop where
  entry : ∀ pid code termSignal, .exited pid code termSignal ∈ m.log → ∀ e,
    m.entries.get pid = some e →
      e.live = false ∧ e.exitCode = some code ∧ e.termSignal = termSignal
  unique : ∀ pid code termSignal code' termSignal', .exited pid code termSignal ∈ m.log →
    .exited pid code' termSignal' ∈ m.log → code = code' ∧ termSignal = termSignal'
  logged : ∀ pid e, m.entries.get pid = some e → e.live = false →
    ∃ code, e.exitCode = some code ∧ .exited pid code e.termSignal ∈ m.log
  signal : ∀ pid code termSignal, .exited pid code termSignal ∈ m.log → termSignal ≤ 64
  answered : ∀ call info, .answered call info ∈ m.log →
    ∃ code, .exited info.pid code info.termSignal ∈ m.log ∧
      info.status = statusWord code info.termSignal
  frames : ∀ pid wstatus, .exitHook pid wstatus ∈ m.stack ∨ .notify pid wstatus ∈ m.stack →
    ∃ e, m.entries.get pid = some e ∧ e.live = false ∧ e.wstatus = wstatus

section

variable {m m' : Machine} {pid : Nat} {e : ProcessEntry}

theorem Calm.mem_iff {ev : Event} (h : Calm m m') (hev : ev.calm = false) :
    ev ∈ m'.log ↔ ev ∈ m.log := by
  obtain ⟨n, hn, hc⟩ := h.log
  rw [hn, List.mem_append]
  refine or_iff_left fun hm => ?_
  rw [hc ev hm] at hev
  cases hev

theorem Calm.get {p : Nat} {e' : ProcessEntry} (h : Calm m m') (he : m'.entries.get p = some e') :
    ∃ e, m.entries.get p = some e ∧ Frozen e e' := by
  have hr := h.entries p
  rw [he] at hr
  generalize ho : m.entries.get p = o at hr
  cases hr with
  | some hf => exact ⟨_, rfl, hf⟩

theorem Calm.get' {p : Nat} (h : Calm m m') (he : m.entries.get p = some e) :
    ∃ e', m'.entries.get p = some e' ∧ Frozen e e' := by
  have hr := h.entries p
  rw [he] at hr
  generalize ho : m'.entries.get p = o at hr
  cases hr with
  | some hf => exact ⟨_, rfl, hf⟩

theorem wstatus_eq {code : Int} (h : e.exitCode = some code) :
    e.wstatus = statusWord code e.termSignal := by
  rw [wstatus, statusWord, h]
  rfl

namespace Exits

theorem boot (max : Option Nat) : Exits (.boot max) := by
  refine ⟨nofun, nofun, nofun, nofun, nofun, ?_⟩
  rintro pid wstatus (h | h) <;> cases h

theorem calm (hi : Exits m) (h : Calm m m') : Exits m' where
  entry pid code t hx e' he' := by
    obtain ⟨e, he, hf⟩ := h.get he'
    obtain ⟨hl, hc, ht⟩ := hi.entry pid code t ((h.mem_iff rfl).mp hx) e he
    exact ⟨hf.live.trans hl, (hf.exitCode hl).trans hc, (hf.termSignal hl).trans ht⟩
  unique pid c t c' t' hx hx' :=
    hi.unique pid c t c' t' ((h.mem_iff rfl).mp hx) ((h.mem_iff rfl).mp hx')
  logged pid e' he' hl' := by
    obtain ⟨e, he, hf⟩ := h.get he'
    have hl : e.live = false := hf.live.symm.trans hl'
    obtain ⟨code, hc, hx⟩ := hi.logged pid e he hl
    refine ⟨code, (hf.exitCode hl).trans hc, (h.mem_iff rfl).mpr ?_⟩
    rwa [hf.termSignal hl]
  signal pid code t hx := hi.signal pid code t ((h.mem_iff rfl).mp hx)
  answered call info ha := by
    obtain ⟨code, hx, hs⟩ := hi.answered call info ((h.mem_iff rfl).mp ha)
    exact ⟨code, (h.mem_iff rfl).mpr hx, hs⟩
  frames pid w hf := by
    rw [h.frames _ rfl, h.frames _ rfl] at hf
    obtain ⟨e, he, hl, hw⟩ := hi.frames pid w hf
    obtain ⟨e', he', hfr⟩ := h.get' he
    exact ⟨e', he', hfr.live.trans hl, (hfr.wstatus hl).trans hw⟩

/-- `markExited`, up to its hook. -/
theorem exit (hi : Exits m) (hS : SignalsOk m) (he : m.entries.get pid = some e) (hl : e.live)
    (exitCode : Int) : Exits (((m.setEntry pid (e.exit exitCode)).emit
      (.exited pid exitCode e.termSignal)).push (.exitHook pid (e.exit exitCode).wstatus)) := by
  -- the process has not exited before
  have hnew : ∀ code t, .exited pid code t ∉ m.log := by
    intro code t hx
    rw [(hi.entry pid code t hx e he).1] at hl
    cases hl
  have hget : ∀ p f, (m.entries.set pid (e.exit exitCode)).get p = some f →
      p = pid ∧ f = e.exit exitCode ∨ p ≠ pid ∧ m.entries.get p = some f := by
    intro p f hf
    rw [OMap.get_set] at hf
    split at hf
    · exact .inl ⟨‹_›, (Option.some.inj hf).symm⟩
    · exact .inr ⟨‹_›, hf⟩
  have hmem : ∀ p c t, .exited p c t ∈ m.log ++ [.exited pid exitCode e.termSignal] →
      p ≠ pid ∧ .exited p c t ∈ m.log ∨ p = pid ∧ c = exitCode ∧ t = e.termSignal := by
    intro p c t hx
    rcases List.mem_append.mp hx with hold | hx
    · refine .inl ⟨?_, hold⟩
      rintro rfl
      exact hnew c t hold
    · exact .inr (Event.exited.inj (List.mem_singleton.mp hx))
  refine ⟨?_, ?_, ?_, ?_, ?_, ?_⟩
  · intro p c t hx f hf
    rcases hmem p c t hx with ⟨hp, hx⟩ | ⟨rfl, rfl, rfl⟩
    · rcases hget p f hf with ⟨hp', -⟩ | ⟨-, hf⟩
      · exact absurd hp' hp
      · exact hi.entry p c t hx f hf
    · rcases hget p f hf with ⟨-, rfl⟩ | ⟨hp, -⟩
      · exact ⟨rfl, rfl, rfl⟩
      · exact absurd rfl hp
  · intro p c t c' t' hx hx'
    rcases hmem p c t hx with ⟨hp, hx⟩ | ⟨rfl, rfl, rfl⟩
    · rcases hmem p c' t' hx' with ⟨-, hx'⟩ | ⟨hp', -⟩
      · exact hi.unique p c t c' t' hx hx'
      · exact absurd hp' hp
    · rcases hmem p c' t' hx' with ⟨hp', -⟩ | ⟨-, rfl, rfl⟩
      · exact absurd rfl hp'
      · exact ⟨rfl, rfl⟩
  · intro p f hf hlf
    rcases hget p f hf with ⟨rfl, rfl⟩ | ⟨-, hf⟩
    · exact ⟨exitCode, rfl, List.mem_append_right _ (List.mem_singleton_self _)⟩
    · obtain ⟨c, hc, hx⟩ := hi.logged p f hf hlf
      exact ⟨c, hc, List.mem_append_left _ hx⟩
  · intro p c t hx
    rcases hmem p c t hx with ⟨-, hx⟩ | ⟨-, -, rfl⟩
    · exact hi.signal p c t hx
    · exact (hS.entries pid e he).termSignal
  · intro call info ha
    rcases List.mem_append.mp ha with ha | ha
    · obtain ⟨c, hx, hs⟩ := hi.answered call info ha
      exact ⟨c, List.mem_append_left _ hx, hs⟩
    · cases List.mem_singleton.mp ha
  · intro p w hf
    have hold : .exitHook p w ∈ m.stack ∨ .notify p w ∈ m.stack →
        ∃ f, (m.entries.set pid (e.exit exitCode)).get p = some f ∧ f.live = false ∧
          f.wstatus = w := by
      intro h
      obtain ⟨f, hg, hlf, hw⟩ := hi.frames p w h
      have hp : p ≠ pid := by
        rintro rfl
        rw [he] at hg
        cases hg
        rw [hl] at hlf
        cases hlf
      exact ⟨f, by rwa [OMap.get_set_other _ hp], hlf, hw⟩
    rcases hf with hf | hf
    · rcases List.mem_cons.mp hf with hf | hf
      · cases hf
        exact ⟨_, OMap.get_set_self _ _ _, rfl, rfl⟩
      · exact hold (.inl hf)
    · rcases List.mem_cons.mp hf with hf | hf
      · cases hf
      · exact hold (.inr hf)

/-- Answers that report the exit of `pid`, or new waits; frames of `markExited` may go. -/
theorem report {n : List Event} (hi : Exits m) (hlog : m'.log = m.log ++ n)
    (hent : m'.entries = m.entries) (hx : ∀ p c t, .exited p c t ∉ n)
    (hn : ∀ call info, .answered call info ∈ n → ∃ e, m.entries.get info.pid = some e ∧
      e.live = false ∧ info.termSignal = e.termSignal ∧ info.status = e.wstatus)
    (hf : ∀ p w, .exitHook p w ∈ m'.stack ∨ .notify p w ∈ m'.stack →
      .exitHook p w ∈ m.stack ∨ .notify p w ∈ m.stack) : Exits m' := by
  have hmem : ∀ p c t, .exited p c t ∈ m'.log ↔ .exited p c t ∈ m.log := by
    intro p c t
    rw [hlog, List.mem_append]
    exact or_iff_left (hx p c t)
  refine ⟨?_, ?_, ?_, ?_, ?_, ?_⟩
  · intro p c t h f hg
    exact hi.entry p c t ((hmem p c t).mp h) f (hent ▸ hg)
  · intro p c t c' t' h h'
    exact hi.unique p c t c' t' ((hmem p c t).mp h) ((hmem p c' t').mp h')
  · intro p f hg hlf
    obtain ⟨c, hc, h⟩ := hi.logged p f (hent ▸ hg) hlf
    exact ⟨c, hc, (hmem p c _).mpr h⟩
  · intro p c t h
    exact hi.signal p c t ((hmem p c t).mp h)
  · intro call info ha
    rw [hlog] at ha
    rcases List.mem_append.mp ha with ha | ha
    · obtain ⟨c, h, hs⟩ := hi.answered call info ha
      exact ⟨c, (hmem _ c _).mpr h, hs⟩
    · obtain ⟨e, he, hl, ht, hs⟩ := hn call info ha
      obtain ⟨c, hc, h⟩ := hi.logged info.pid e he hl
      refine ⟨c, (hmem _ c _).mpr (ht ▸ h), ?_⟩
      rw [hs, ht, wstatus_eq hc]
  · intro p w h
    rw [hent]
    exact hi.frames p w (hf p w h)

variable {k : List Frame}

variable (hi : Exits m)
include hi

/-- The end of `markExited`. -/
theorem notifyWaiters {wstatus : BitVec 32} (hk : m.stack = .notify pid wstatus :: k) :
    Exits ({ m with stack := k }.notifyWaiters pid wstatus) := by
  obtain ⟨e, he, hl, hw⟩ := hi.frames pid wstatus (.inr (by rw [hk]; exact List.mem_cons_self))
  have hg : ({ m with stack := k } : Machine).entries.get pid = some e := he
  unfold Machine.notifyWaiters
  rw [hg]
  refine hi.report rfl rfl ?_ ?_ ?_
  · intro p c t h
    obtain ⟨call, -, h⟩ := List.mem_map.mp h
    cases h
  · intro call info h
    obtain ⟨call', -, h⟩ := List.mem_map.mp h
    cases h
    exact ⟨e, he, hl, rfl, hw.symm⟩
  · intro p w h
    rw [hk]
    exact h.imp (List.mem_cons_of_mem _) (List.mem_cons_of_mem _)

/-- The hook has returned. -/
theorem hookReturned {wstatus : BitVec 32} (hk : m.stack = .exitHook pid wstatus :: k) :
    Exits ({ m with stack := k }.push (.notify pid wstatus)) := by
  refine ⟨hi.entry, hi.unique, hi.logged, hi.signal, hi.answered, fun p w h => hi.frames p w ?_⟩
  rw [hk]
  rcases h with h | h
  · rcases List.mem_cons.mp h with h | h
    · cases h
    · exact .inl (List.mem_cons_of_mem _ h)
  · rcases List.mem_cons.mp h with h | h
    · cases h
      exact .inl List.mem_cons_self
    · exact .inr (List.mem_cons_of_mem _ h)

theorem registered {ppid : Nat} {driver : String} (hN : Named m)
    (hk : m.stack = .driverSpawn pid ppid driver :: k) :
    Exits ({ m with stack := k }.register pid ppid driver) := by
  have hnone := hN.not_registered hk
  have hlog : ∀ c t, .exited pid c t ∉ m.log := fun c t h =>
    hN.not_names hk (.inr (.inr ⟨_, h, rfl⟩))
  have hget : ∀ p f, ({ m with stack := k }.register pid ppid driver).entries.get p = some f →
      p = pid ∧ f.live ∨ m.entries.get p = some f := by
    intro p f hf
    simp only [register, setEntry, OMap.get_set] at hf
    split at hf
    · cases hf
      exact .inl ⟨‹_›, rfl⟩
    · exact .inr hf
  refine ⟨?_, hi.unique, ?_, hi.signal, hi.answered, ?_⟩
  · intro p c t h f hf
    rcases hget p f hf with ⟨rfl, -⟩ | hf
    · exact absurd h (hlog c t)
    · exact hi.entry p c t h f hf
  · intro p f hf hlf
    rcases hget p f hf with ⟨-, hl⟩ | hf
    · rw [hlf] at hl
      cases hl
    · exact hi.logged p f hf hlf
  · intro p w h
    obtain ⟨f, hf, hlf, hw⟩ := hi.frames p w (by
      rw [hk]
      exact h.imp (List.mem_cons_of_mem _) (List.mem_cons_of_mem _))
    have hp : p ≠ pid := by
      rintro rfl
      rw [hnone] at hf
      cases hf
    exact ⟨f, by rwa [register, setEntry, OMap.get_set_other _ hp], hlf, hw⟩

theorem reaped (hk : m.stack = []) :
    Exits ({ m with entries := m.entries.delete pid }.emit (.reaped pid)) := by
  have hmem : ∀ {ev : Event}, ev.calm = false → (ev ∈ m.log ++ [.reaped pid] ↔ ev ∈ m.log) := by
    intro ev hev
    rw [List.mem_append]
    refine or_iff_left fun h => ?_
    rw [List.mem_singleton.mp h] at hev
    cases hev
  have hget : ∀ p f, (m.entries.delete pid).get p = some f → m.entries.get p = some f := by
    intro p f hf
    rw [OMap.get_delete] at hf
    split at hf
    · cases hf
    · exact hf
  refine ⟨?_, ?_, ?_, ?_, ?_, ?_⟩
  · intro p c t h f hf
    exact hi.entry p c t ((hmem rfl).mp h) f (hget p f hf)
  · intro p c t c' t' h h'
    exact hi.unique p c t c' t' ((hmem rfl).mp h) ((hmem rfl).mp h')
  · intro p f hf hlf
    obtain ⟨c, hc, h⟩ := hi.logged p f (hget p f hf) hlf
    exact ⟨c, hc, (hmem rfl).mpr h⟩
  · intro p c t h
    exact hi.signal p c t ((hmem rfl).mp h)
  · intro call info h
    obtain ⟨c, h, hs⟩ := hi.answered call info ((hmem rfl).mp h)
    exact ⟨c, (hmem rfl).mpr h, hs⟩
  · intro p w h
    have h' : .exitHook p w ∈ m.stack ∨ .notify p w ∈ m.stack := h
    rw [hk] at h'
    rcases h' with h' | h' <;> cases h'

theorem of_effect (hN : Named m) (hS : SignalsOk m) (h : ExitEffect m m') :
    Exits m' := by
  cases h with
  | calm h => exact hi.calm h
  | exited pid exitCode e he hl h => exact (hi.exit hS he hl exitCode).calm h
  | asked pid e he hl =>
      refine hi.report (n := [.answered m.nextCall ⟨pid, e.wstatus, e.termSignal⟩]) rfl rfl ?_ ?_
        fun _ _ h => h
      · intro p c t h
        cases List.mem_singleton.mp h
      · intro call info h
        cases List.mem_singleton.mp h
        exact ⟨e, he, hl, rfl, rfl⟩
  | waits pid e he hl =>
      refine hi.report (n := [.waiting m.nextCall pid]) rfl rfl ?_ ?_ fun _ _ h => h
      · intro p c t h
        cases List.mem_singleton.mp h
      · intro call info h
        cases List.mem_singleton.mp h
  | hookReturned pid wstatus k hk h => exact (hi.hookReturned hk).calm h
  | notified pid wstatus k hk => exact hi.notifyWaiters hk
  | registered pid ppid driver k hk => exact hi.registered hN hk
  | reaped pid e hk he hl h => exact (hi.reaped hk).calm h

end Exits

end

end SecureExec.Process
