import SecureExec.Lib.Registry
import SecureExec.Kernel.StepEffect

/-!
# Kernel — RefCount — the counts of the descriptions and the ends of pipes and terminals

A description counts its descriptors, and the pipe and the PTY manager know an end by the id of its
description.  `KernelOk` has the counts right in every run.  The ends are registered, and open,
exactly while a descriptor is left (`RefsOk`), as long as no two live descriptions have one id.

The ids come from three counters: files from 1, pipes from 100000 and terminals from 200000.
Nothing keeps a counter out of the range of the next one, so a kernel that has opened enough files
closes a pipe with the last descriptor of a file (`refCount_fails`).  `FreshIds` is the condition on
a step under which this does not happen: the ids it gives out are not in use.
-/

namespace SecureExec.Kernel
open SecureExec Lts KernelImpl Registry ProcessFDTable Function FDTableManager Prog DescEnd PipeRef

/-! ### The managers as registries -/

def PipeState.closedAt (st : PipeState) : PipeEnd → Bool
  | .read => st.closedRead
  | .write => st.closedWrite

def PtyState.closedAt (st : PtyState) : PtyEnd → Bool
  | .master => st.closedMaster
  | .slave => st.closedSlave

theorem PipeState.closedAt_close (st : PipeState) (side side' : PipeEnd) :
    (st.close side).closedAt side' = (decide (side' = side) || st.closedAt side') := by
  cases side <;> cases side' <;> rfl

theorem PtyState.closedAt_close (st : PtyState) (side side' : PtyEnd) :
    (st.close side).closedAt side' = (decide (side' = side) || st.closedAt side') := by
  cases side <;> cases side' <;> rfl

namespace PipeManager

/-- The pipe manager as a registry of ends. -/
def view (m : PipeManager) : Registry PipeRef :=
  .ofStates pipeId side PipeState.closedAt m.descToPipe m.pipes m.states
    m.nextPipeId

theorem close_closes (m : PipeManager) (d : Nat) :
    Closes pipeId m.view (m.close d).view d := by
  unfold close
  split
  · rename_i hd
    refine .same fun e he => ?_
    cases hd.symm.trans he
  · rename_i ref hd
    split
    · refine .ofStates (fun e e' hg hs => ?_) hd (PipeState.closedAt_close _ _) fun hb side => ?_
      · cases e
        cases e'
        exact congrArg₂ _ hg hs
      · rw [Bool.and_eq_true] at hb
        cases side
        · exact hb.1
        · exact hb.2
    · rename_i hk
      refine .same fun e he => ?_
      cases hd.symm.trans he
      exact Bool.eq_false_iff.mpr hk

theorem createPipe_creates (m : PipeManager) :
    Creates pipeId m.view m.createPipe.2.2.view m.nextDescId (m.nextDescId + 1)
      ⟨m.nextPipeId, .read⟩ ⟨m.nextPipeId, .write⟩ := by
  refine .ofStates ⟨rfl, rfl⟩ (by simp) (by simp) fun side => ?_
  cases side <;> rfl

end PipeManager

namespace PtyManager

/-- The PTY manager as a registry of ends. -/
def view (m : PtyManager) : Registry PtyRef :=
  .ofStates PtyRef.ptyId PtyRef.side PtyState.closedAt m.descToPty m.ptys m.states m.nextPtyId

theorem close_closes (m : PtyManager) (d : Nat) :
    Closes PtyRef.ptyId m.view (m.close d).view d := by
  unfold close
  split
  · rename_i hd
    refine .same fun e he => ?_
    cases hd.symm.trans he
  · rename_i ref hd
    split
    · refine .ofStates (fun e e' hg hs => ?_) hd (PtyState.closedAt_close _ _) fun hb side => ?_
      · cases e
        cases e'
        exact congrArg₂ _ hg hs
      · rw [Bool.and_eq_true] at hb
        cases side
        · exact hb.1
        · exact hb.2
    · rename_i hk
      refine .same fun e he => ?_
      cases hd.symm.trans he
      exact Bool.eq_false_iff.mpr hk

theorem createPty_creates (m : PtyManager) :
    Creates PtyRef.ptyId m.view m.createPty.2.2.view m.nextPtyDescId
      (m.nextPtyDescId + 1) ⟨m.nextPtyId, .master⟩ ⟨m.nextPtyId, .slave⟩ := by
  refine .ofStates ⟨rfl, rfl⟩ (by simp) (by simp) fun side => ?_
  cases side <;> rfl

end PtyManager

/-! ### The invariant -/

def DescEnd.pipe? : DescEnd → Option PipeRef
  | .pipe ref => some ref
  | .pty _ => none

def DescEnd.pty? : DescEnd → Option PtyRef
  | .pipe _ => none
  | .pty ref => some ref

namespace KernelImpl

/-- The ends of one manager, by reference. -/
def endsOf {ε : Type} (k : KernelImpl) (sel : DescEnd → Option ε) (r : Nat) : Option ε :=
  (k.ends r).bind sel

/-- The ends a manager sees as `v` are registered exactly while one of `live` is held. -/
def EndsOk {ε : Type} (k : KernelImpl) (group : ε → Nat) (v : Registry ε)
    (sel : DescEnd → Option ε) (live : Nat → Prop) : Prop :=
  Ok group v (k.endsOf sel) live fun r => (k.desc r).id

structure RefsOk (k : KernelImpl) : Prop where
  kernel : KernelOk k
  unique : UniqueIds k
  pipes : k.EndsOk pipeId k.pipes.view pipe? k.Live
  ptys : k.EndsOk PtyRef.ptyId k.ptys.view pty? k.Live

variable {k k' : KernelImpl} {a : Syscall} {ε : Type} {group : ε → Nat} {v v' : Registry ε}
  {sel : DescEnd → Option ε}

variable {r : Nat}

theorem endsOf_fresh (hk : KernelOk k) (hr : k.fds.descs.next ≤ r) :
    k.endsOf sel r = none := by
  rw [endsOf, hk.ends r hr]
  rfl

theorem lt_next_of_end (hk : KernelOk k) {e : ε} (he : k.endsOf sel r = some e) :
    r < k.fds.descs.next := by
  by_contra hge
  cases (endsOf_fresh hk (Nat.le_of_not_lt hge)).symm.trans he

theorem endsOf_congr (he : k'.ends = k.ends) (sel : DescEnd → Option ε) :
    k'.endsOf sel = k.endsOf sel := by
  funext r
  rw [endsOf, endsOf, he]

/-- The manager and its ends are the same, and as many of them are held. -/
theorem EndsOk.congr {live live' : Nat → Prop} (h : k.EndsOk group v sel live) (hk : KernelOk k)
    (he : k'.endsOf sel = k.endsOf sel)
    (hl : ∀ r e, k.endsOf sel r = some e → (live' r ↔ live r))
    (hn : ∀ r < k.fds.descs.next, (k'.desc r).id = (k.desc r).id) :
    k'.EndsOk group v sel live' := by
  rw [EndsOk, he]
  exact Ok.congr h hl fun r e hre _ => hn r (lt_next_of_end hk hre)

theorem EndsOk.boot {mounted : List (String × List String)} {max : Option Nat}
    (hv : ∀ d, v.reg d = none) :
    (boot mounted max).EndsOk group v sel (boot mounted max).Live := by
  refine ⟨fun r r' e he => ?_, fun r e he => ?_, fun d e hd => ?_, fun r e _ he => ?_,
    fun r e _ he => ?_, fun r e he => ?_⟩
  · cases he
  · cases he
  · rw [hv] at hd
    cases hd
  · cases he
  · cases he
  · cases he

variable (mounted : List (String × List String))

theorem KernelOk.boot (max : Option Nat) :
    KernelOk (boot mounted max) :=
  ⟨.new, fun _ _ h => (nomatch h), fun _ _ => rfl⟩

theorem RefsOk.boot (max : Option Nat) :
    RefsOk (boot mounted max) :=
  ⟨.boot mounted max, fun _ _ h => absurd h (Nat.lt_irrefl 0), .boot fun _ => rfl,
    .boot fun _ => rfl⟩

/-! ### Closing -/

/-- The last descriptor of `r` is closed by hand. -/
theorem EndsOk.close [DecidableEq ε] {live : Nat → Prop} (h : k.EndsOk group v sel live)
    (hu : ∀ x, live x → (k.desc x).id = (k.desc r).id → x = r)
    (hc : Closes group v v' (k.desc r).id) :
    k.EndsOk group v' sel fun x => live x ∧ x ≠ r :=
  Ok.close h hu hc

theorem closePipe_pipes (k : KernelImpl) (d : Nat) : (k.closePipe d).pipes = k.pipes.close d := by
  unfold closePipe
  split
  · rfl
  · rename_i h
    have hd : k.pipes.descToPipe d = none := by simpa [PipeManager.isPipe] using h
    rw [PipeManager.close, hd]

theorem closePty_ptys (k : KernelImpl) (d : Nat) : (k.closePty d).ptys = k.ptys.close d := by
  unfold closePty
  split
  · rfl
  · rename_i h
    have hd : k.ptys.descToPty d = none := by simpa [PtyManager.isPty] using h
    rw [PtyManager.close, hd]

/-- What `releaseDescription` closes. -/
theorem releaseDescription_dead (hr : (k.desc r).refCount ≤ 0) :
    (k.releaseDescription r).pipes = k.pipes.close (k.desc r).id ∧
      (k.releaseDescription r).ptys = k.ptys.close (k.desc r).id := by
  have hpty : ∀ d, (k.closePipe d).ptys = k.ptys := fun d => by
    unfold closePipe
    split <;> rfl
  have hpipe : ∀ (k : KernelImpl) d, (k.closePty d).pipes = k.pipes := fun k d => by
    unfold closePty
    split <;> rfl
  rw [releaseDescription, if_pos hr]
  exact ⟨(hpipe _ _).trans (closePipe_pipes k _), (closePty_ptys _ _).trans (by rw [hpty])⟩

/-- The managers are the same, and the descriptions that were there are held as before. -/
theorem RefsOk.of_same (h : RefsOk k) (hk' : KernelOk k') (hu : UniqueIds k')
    (hp : k'.pipes = k.pipes) (ht : k'.ptys = k.ptys) (he : k'.ends = k.ends)
    (hl : ∀ r < k.fds.descs.next, (k'.Live r ↔ k.Live r))
    (hn : ∀ r < k.fds.descs.next, (k'.desc r).id = (k.desc r).id) : RefsOk k' := by
  refine ⟨hk', hu, ?_, ?_⟩
  · rw [hp]
    exact h.pipes.congr h.kernel (endsOf_congr he _)
      (fun r _ hr => hl r (lt_next_of_end h.kernel hr)) hn
  · rw [ht]
    exact h.ptys.congr h.kernel (endsOf_congr he _)
      (fun r _ hr => hl r (lt_next_of_end h.kernel hr)) hn

/-- A descriptor of `r` is gone, and `r` is released if it was the last. -/
theorem RefsOk.dropped {k₁ : KernelImpl} (h : RefsOk k) (hk₁ : KernelOk k')
    (hn : Keeps k k₁) (hm : SameManagers k k₁) (hr : k.Live r)
    (hl : ∀ x, x ≠ r → (k₁.Live x ↔ k.Live x)) (hc : (k₁.desc r).refCount = k₁.fds.refs r)
    (hu : UniqueIds k') (he : k' = k₁.releaseDescription r) : RefsOk k' := by
  have hnames : ∀ x < k.fds.descs.next, (k₁.desc x).id = (k.desc x).id :=
    fun x hx => (hn.names x hx).1
  rcases dropped_cases hr hl hc with ⟨hsame, hlive⟩ | ⟨hdead, hlive⟩
  · rw [← he] at hsame
    subst hsame
    exact h.of_same hk₁ hu hm.pipes hm.ptys hm.ends (fun x _ => hlive x) hnames
  · obtain ⟨hf, hends, -⟩ := releaseDescription_fds k₁ r
    obtain ⟨hpipes, hptys⟩ := releaseDescription_dead hdead
    subst he
    have hnames' : ∀ x < k.fds.descs.next,
        ((k₁.releaseDescription r).desc x).id = (k.desc x).id := fun x hx => by
      rw [desc, hf]
      exact hnames x hx
    have hid := hnames r (h.kernel.lt_next hr)
    have huniq : ∀ x, k.Live x → (k.desc x).id = (k.desc r).id → x = r :=
      fun x hx hxr => h.unique x r hx hr hxr
    refine ⟨hk₁, hu, ?_, ?_⟩
    · rw [hpipes, hm.pipes, hid]
      exact (h.pipes.close huniq (PipeManager.close_closes _ _)).congr h.kernel
        (endsOf_congr (hends.trans hm.ends) _) (fun x _ _ => hlive x) hnames'
    · rw [hptys, hm.ptys, hid]
      exact (h.ptys.close huniq (PtyManager.close_closes _ _)).congr h.kernel
        (endsOf_congr (hends.trans hm.ends) _) (fun x _ _ => hlive x) hnames'

/-! ### A new pair -/

/-- The ends after `addPair`. -/
def PairAdded (k : KernelImpl) (e₁ e₂ : DescEnd) (k' : KernelImpl) : Prop :=
  k'.ends = update (update k.ends k.fds.descs.next (some e₁))
    (k.fds.descs.next + 1) (some e₂)

variable {e₁ e₂ : DescEnd}

theorem PairAdded.endsOf (he : PairAdded k e₁ e₂ k')
    (sel : DescEnd → Option ε) :
    k'.endsOf sel = update (update (k.endsOf sel) k.fds.descs.next (sel e₁))
      (k.fds.descs.next + 1) (sel e₂) := by
  funext r
  rw [KernelImpl.endsOf, he]
  simp only [KernelImpl.endsOf, update_apply]
  split
  · rfl
  · split
    · rfl
    · rfl

section

variable (h : k.EndsOk group v sel k.Live) (hk : KernelOk k) (he : PairAdded k e₁ e₂ k')
  (hl : ∀ r, k'.Live r ↔ k.Live r ∨ r = k.fds.descs.next ∨ r = k.fds.descs.next + 1)
  (hn : ∀ r < k.fds.descs.next, (k'.desc r).id = (k.desc r).id)
include h hk he hl hn

/-- The pair is not of this manager. -/
theorem EndsOk.paired_other (h₁ : sel e₁ = none) (h₂ : sel e₂ = none) :
    k'.EndsOk group v sel k'.Live := by
  have hends : k'.endsOf sel = k.endsOf sel := by
    have hupd : ∀ r, k.fds.descs.next ≤ r →
        update (k.endsOf sel) r none = k.endsOf sel :=
      fun r hr => update_eq_self_iff.mpr (endsOf_fresh hk hr).symm
    rw [he.endsOf sel, h₁, h₂, hupd _ (Nat.le_refl _), hupd _ (Nat.le_succ _)]
  refine h.congr hk hends (fun r e hr => ?_) hn
  have hr' := lt_next_of_end hk hr
  rw [hl]
  exact ⟨fun h => h.resolve_right (by omega), .inl⟩

/-- The pair is of this manager. -/
theorem EndsOk.paired {x₁ x₂ : ε} {d : Nat} (hc : Creates group v v' d (d + 1) x₁ x₂)
    (h₁ : sel e₁ = some x₁) (h₂ : sel e₂ = some x₂)
    (hid : (k'.desc k.fds.descs.next).id = d ∧ (k'.desc (k.fds.descs.next + 1)).id = d + 1)
    (ha : k.Unused d ∧ k.Unused (d + 1)) : k'.EndsOk group v' sel k'.Live := by
  have hends := he.endsOf sel
  rw [h₁, h₂] at hends
  exact Ok.create h hc hends (Nat.ne_of_lt (Nat.lt_succ_self _))
    ⟨endsOf_fresh hk (Nat.le_refl _), endsOf_fresh hk (Nat.le_succ _)⟩ hl hid
    (fun r hr => hn r (hk.lt_next hr)) fun r hr => ⟨ha.1.ne hk hr, ha.2.ne hk hr⟩

end

/-! ### Process exit -/

section Exit

variable [DecidableEq ε] {view : KernelImpl → Registry ε} {kind : ManagedKind}

/-- The loop of `cleanupProcessFDs` closes what is filed under its kind and is dead. -/
theorem foldl_closeManaged_ok {id : Nat → Nat} {ends : Nat → Option ε} (dead : Nat → Prop)
    (hsame : ∀ k r kind', kind' ≠ kind → view (k.closeManaged r kind') = view k)
    (hclose : ∀ k r, (k.desc r).refCount ≤ 0 →
      Closes group (view k) (view (k.closeManaged r kind)) (k.desc r).id) :
    ∀ (l : List (Nat × ManagedKind)) (k : KernelImpl) (live : Nat → Prop),
      (∀ r r', live r → id r = id r' → (r', kind) ∈ l → r = r') →
      (∀ r, (k.desc r).id = id r) → (∀ r, (k.desc r).refCount ≤ 0 ↔ dead r) →
      Ok group (view k) ends live id →
      Ok group (view (l.foldl (fun k m => k.closeManaged m.1 m.2) k)) ends
        (fun r => live r ∧ ¬ ((r, kind) ∈ l ∧ dead r)) id := by
  intro l
  induction l with
  | nil =>
      intro k live _ _ _ h
      exact h.congr (fun r _ _ => by simp) fun _ _ _ _ => rfl
  | cons m l ih =>
      intro k live hu hid hd h
      obtain ⟨r, kind'⟩ := m
      obtain ⟨hf, -⟩ := closeManaged_fds k r kind'
      have hid' : ∀ x, ((k.closeManaged r kind').desc x).id = id x := fun x => by
        rw [desc, hf]
        exact hid x
      have hd' : ∀ x, ((k.closeManaged r kind').desc x).refCount ≤ 0 ↔ dead x := fun x => by
        rw [desc, hf]
        exact hd x
      have hu' : ∀ x r', live x → id x = id r' → (r', kind) ∈ l → x = r' :=
        fun x r' hx he hm => hu x r' hx he (List.mem_cons_of_mem _ hm)
      rw [List.foldl_cons]
      by_cases hcl : kind' = kind ∧ (k.desc r).refCount ≤ 0
      · obtain ⟨rfl, hdead⟩ := hcl
        have hr : ∀ x, live x → id x = id r → x = r :=
          fun x hx he => hu x r hx he List.mem_cons_self
        have h' := ih (k.closeManaged r kind') (fun x => live x ∧ x ≠ r)
          (fun x r' hx => hu' x r' hx.1) hid' hd' (h.close hr (hid r ▸ hclose k r hdead))
        refine h'.congr (fun x _ _ => ?_) fun _ _ _ _ => rfl
        have hrd := (hd r).mp hdead
        simp only [List.mem_cons, Prod.mk.injEq, and_true]
        by_cases hx : x = r
        · subst hx
          simp [hrd]
        · simp [hx]
      · -- nothing of this kind is closed
        have hview : view (k.closeManaged r kind') = view k := by
          by_cases hkind : kind' = kind
          · unfold closeManaged
            rw [if_neg fun h0 => hcl ⟨hkind, h0⟩]
          · exact hsame k r kind' hkind
        have h' := ih (k.closeManaged r kind') live hu' hid' hd' (hview ▸ h)
        refine h'.congr (fun x _ _ => ?_) fun _ _ _ _ => rfl
        have hne : ¬ ((x, kind) = (r, kind') ∧ dead x) := by
          rintro ⟨he, hx⟩
          obtain ⟨rfl, rfl⟩ := Prod.mk.inj he
          exact hcl ⟨rfl, (hd x).mpr hx⟩
        simp only [List.mem_cons]
        tauto

/-- What `cleanupProcessFDs` files under a kind. -/
theorem mem_managedDescs {t : ProcessFDTable} {r : Nat} :
    (r, kind) ∈ k.managedDescs t ↔ 0 < t.refs r ∧ k.managedKind (k.desc r).id = some kind := by
  rw [refs_pos_iff, managedDescs, List.mem_filterMap]
  constructor
  · rintro ⟨e, he, hm⟩
    obtain ⟨kind', hk, hp⟩ := Option.map_eq_some_iff.mp hm
    obtain ⟨rfl, rfl⟩ := Prod.mk.inj hp
    exact ⟨⟨e, he, rfl⟩, hk⟩
  · rintro ⟨⟨e, he, rfl⟩, hk⟩
    exact ⟨e, he, Option.map_eq_some_iff.mpr ⟨kind, hk, rfl⟩⟩

/-- Process exit closes the ends the process was the last to hold. -/
theorem EndsOk.cleanup {pid : Nat} (view : KernelImpl → Registry ε) (kind : ManagedKind)
    (hsame : ∀ k r kind', kind' ≠ kind → view (k.closeManaged r kind') = view k)
    (hclose : ∀ k r, (k.desc r).refCount ≤ 0 →
      Closes group (view k) (view (k.closeManaged r kind)) (k.desc r).id)
    (hview : ∀ (k : KernelImpl) m, view { k with fds := m } = view k)
    (h : k.EndsOk group (view k) sel k.Live) (hf : FdsOk k.fds) (hu : UniqueIds k)
    (hkind : ∀ r e, k.Live r → k.endsOf sel r = some e →
      k.managedKind (k.desc r).id = some kind) :
    (k.cleanupProcessFDs pid).EndsOk group (view (k.cleanupProcessFDs pid)) sel
      (k.cleanupProcessFDs pid).Live := by
  cases hg : k.fds.get pid with
  | none =>
      rw [show k.cleanupProcessFDs pid = k by rw [cleanupProcessFDs, hg]]
      exact h
  | some t =>
      obtain ⟨hfds, hends, -⟩ := cleanupProcessFDs_fds k pid
      have hrefs := refs_remove hg
      have hids : ∀ r, ((k.fds.remove pid).descs.objs r).id = (k.desc r).id := fun r => by
        obtain ⟨n, hn⟩ := (Descs.CountsOnly.foldl t.entries.values (-1) k.fds.descs).same r
        rw [remove, hg]
        show ((closeAll k.fds.descs t).objs r).id = _
        rw [closeAll, hn]
        rfl
      have hcl : k.cleanupProcessFDs pid = (k.managedDescs t).foldl
          (fun k m => k.closeManaged m.1 m.2) { k with fds := k.fds.remove pid } := by
        rw [cleanupProcessFDs, hg]
      -- after the table is gone, before anything is closed
      have h₀ : Ok group (view { k with fds := k.fds.remove pid }) (k.endsOf sel) k.Live
          fun r => (k.desc r).id := by
        rw [hview]
        exact h
      have h₁ := foldl_closeManaged_ok (fun r => ¬ 0 < (k.fds.remove pid).refs r) hsame hclose
        (k.managedDescs t) { k with fds := k.fds.remove pid } k.Live ?_ hids ?_ h₀
      · rw [← hcl] at h₁
        rw [EndsOk, endsOf_congr hends]
        refine h₁.congr (fun r e hre => ?_) fun r e _ _ => ?_
        · rw [Live, hfds, mem_managedDescs]
          have hr := hrefs r
          constructor
          · intro hl
            exact ⟨by rw [Live]; omega, fun hd => hd.2 hl⟩
          · rintro ⟨hl, hd⟩
            by_contra hn
            refine hd ⟨⟨?_, hkind r e hl hre⟩, hn⟩
            rw [Live] at hl
            omega
        · rw [desc, hfds]
          exact hids r
      · intro r r' hr hid hm
        refine hu r r' hr (Nat.lt_of_lt_of_le (mem_managedDescs.mp hm).1 ?_) hid
        exact refs_le hg r'
      · intro r
        rw [desc, (hf.remove pid).counts]
        omega

end Exit

theorem isPipe_iff (h : k.EndsOk pipeId k.pipes.view pipe? k.Live)
    (hu : UniqueIds k) (hr : k.Live r) :
    k.pipes.isPipe (k.desc r).id = true ↔ ∃ ref, k.endsOf pipe? r = some ref := by
  rw [PipeManager.isPipe, Option.isSome_iff_exists]
  constructor
  · rintro ⟨ref, hd⟩
    obtain ⟨r', hr', hid, he⟩ := Ok.held h _ ref hd
    exact ⟨ref, hu r' r hr' hr hid ▸ he⟩
  · rintro ⟨ref, he⟩
    exact ⟨ref, Ok.reg h r ref hr he⟩

theorem RefsOk.exited {k₀ : KernelImpl} {pid : Nat} (h : RefsOk k) (hs : SameCore k k₀)
    (hk' : KernelOk (k₀.cleanupProcessFDs pid)) (hu' : UniqueIds (k₀.cleanupProcessFDs pid)) :
    RefsOk (k₀.cleanupProcessFDs pid) := by
  have hf : FdsOk k₀.fds := hs.fds ▸ h.kernel.fds
  have hends : ∀ {ε : Type} {group : ε → Nat} {v : Registry ε} {sel : DescEnd → Option ε},
      k.EndsOk group v sel k.Live → k₀.EndsOk group v sel k₀.Live := fun he =>
    he.congr h.kernel (endsOf_congr hs.ends _) (fun r _ _ => hs.live r)
      fun r hr => (hs.keeps.names r hr).1
  have hu : UniqueIds k₀ := h.unique.of_sub (fun r => (hs.live r).mp)
    fun r hr => (hs.keeps.names r (h.kernel.lt_next hr)).1
  have hp := hs.pipes ▸ hends h.pipes
  have ht := hs.ptys ▸ hends h.ptys
  have hsel : ∀ r ref, k₀.endsOf pty? r = some ref → k₀.endsOf pipe? r = none := by
    intro r ref hr
    rw [endsOf] at hr ⊢
    cases he : k₀.ends r with
    | none => rfl
    | some e =>
        rw [he] at hr
        cases e with
        | pipe _ => cases hr
        | pty _ => rfl
  refine ⟨hk', hu', ?_, ?_⟩
  · refine hp.cleanup (fun k => k.pipes.view) .pipe (fun k r kind' hne => ?_)
      (fun k r hr => ?_) (fun _ _ => rfl) hf hu fun r ref hr he => ?_
    · unfold closeManaged
      split
      · cases kind' with
        | pipe => exact absurd rfl hne
        | pty => rfl
        | lock => rfl
      · rfl
    · rw [closeManaged, if_pos hr]
      exact PipeManager.close_closes _ _
    · rw [managedKind, if_pos ((isPipe_iff hp hu hr).mpr ⟨ref, he⟩)]
  · refine ht.cleanup (fun k => k.ptys.view) .pty (fun k r kind' hne => ?_)
      (fun k r hr => ?_) (fun _ _ => rfl) hf hu fun r ref hr he => ?_
    · unfold closeManaged
      split
      · cases kind' with
        | pipe => rfl
        | pty => exact absurd rfl hne
        | lock => rfl
      · rfl
    · rw [closeManaged, if_pos hr]
      exact PtyManager.close_closes _ _
    · have hpipe : ¬ k₀.pipes.isPipe (k₀.desc r).id = true := fun hpipe => by
        obtain ⟨ref', he'⟩ := (isPipe_iff hp hu hr).mp hpipe
        cases (hsel r ref he).symm.trans he'
      have hpty : k₀.ptys.isPty (k₀.desc r).id = true :=
        Option.isSome_iff_exists.mpr ⟨ref, Ok.reg ht r ref hr he⟩
      rw [managedKind, if_neg hpipe, if_pos hpty]

/-! ### Every call -/

/-- The ids a call gives out are not in use. -/
def FreshIds (k : KernelImpl) (a : Syscall) : Prop := ∀ id ∈ k.allocs a, k.Unused id

instance (k : KernelImpl) (a : Syscall) : Decidable (k.FreshIds a) :=
  inferInstanceAs (Decidable (∀ id ∈ k.allocs a, k.Unused id))

theorem RefsOk.step (h : RefsOk k) (ha : ofProcess a = true) (ht : k.throws a = false)
    (hfresh : k.FreshIds a) (hs : k.step a = some k') : RefsOk k' := by
  obtain ⟨hk', heff⟩ := step_effect h.kernel ha hs
  have hu := heff.unique h.kernel hfresh h.unique
  have hnames : ∀ r < k.fds.descs.next, (k'.desc r).id = (k.desc r).id :=
    fun r hr => (heff.names hr).1
  cases heff with
  | quiet hq =>
      exact h.of_same hk' hu hq.managers.pipes hq.managers.ptys hq.managers.ends
        (fun r _ => hq.live r) hnames
  | opened n _ hm hl _ =>
      refine h.of_same hk' hu hm.pipes hm.ptys hm.ends (fun r hr => ?_) hnames
      rw [hl]
      refine ⟨fun hlr => hlr.resolve_right ?_, .inl⟩
      rintro ⟨i, -, rfl⟩
      omega
  | paired k₁ o₁ o₂ hp hn hm hl hok =>
      rw [ht] at hok
      obtain ⟨rfl, rfl⟩ := hok rfl
      obtain ⟨d, had, hd₁, hd₂, -⟩ := paired_ids hp hn
      have hunused : k.Unused d ∧ k.Unused (d + 1) := by
        rw [FreshIds, had] at hfresh
        exact ⟨hfresh d (by simp), hfresh (d + 1) (by simp)⟩
      have hl' : ∀ r, k'.Live r ↔ k.Live r ∨ r = k.fds.descs.next ∨ r = k.fds.descs.next + 1 := by
        simpa using hl
      rcases hp with ⟨rfl, had'⟩ | ⟨rfl, had'⟩
      · obtain rfl : d = k.pipes.nextDescId := by
          rw [had'] at had
          exact (List.cons.inj had).1.symm
        refine ⟨hk', hu, ?_, ?_⟩
        · rw [hm.pipes]
          exact h.pipes.paired h.kernel hm.ends hl' hnames
            (PipeManager.createPipe_creates k.pipes) rfl rfl ⟨hd₁, hd₂⟩ hunused
        · rw [hm.ptys]
          exact h.ptys.paired_other h.kernel hm.ends hl' hnames rfl rfl
      · obtain rfl : d = k.ptys.nextPtyDescId := by
          rw [had'] at had
          exact (List.cons.inj had).1.symm
        refine ⟨hk', hu, ?_, ?_⟩
        · rw [hm.pipes]
          exact h.pipes.paired_other h.kernel hm.ends hl' hnames rfl rfl
        · rw [hm.ptys]
          exact h.ptys.paired h.kernel hm.ends hl' hnames
            (PtyManager.createPty_creates k.ptys) rfl rfl ⟨hd₁, hd₂⟩ hunused
  | dropped k₁ r hn hm hr hl hc he => exact h.dropped hk' hn hm hr hl hc hu he
  | exited k₀ pid _ hcore he =>
      subst he
      exact h.exited hcore hk' hu
  | locked r op _ he =>
      subst he
      exact h.of_same hk' hu rfl rfl rfl (fun _ _ => Iff.rfl) hnames
  | resumed _ _ _ l _ _ he =>
      subst he
      exact h.of_same hk' hu rfl rfl rfl (fun _ _ => Iff.rfl) hnames

/-! ### The counts and the ends -/

/-- The end is registered in its manager under the id of the description. -/
def registered (k : KernelImpl) (r : Nat) : DescEnd → Prop
  | .pipe ref => k.pipes.descToPipe (k.desc r).id = some ref ∧ k.pipes.pipes ref.pipeId = true
  | .pty ref => k.ptys.descToPty (k.desc r).id = some ref ∧ k.ptys.ptys ref.ptyId = true

/-- The other side has been told that the end is gone. -/
def hungUp (k : KernelImpl) : DescEnd → Prop
  | .pipe ref => (k.pipes.states ref.pipeId).closedAt ref.side = true
  | .pty ref => (k.ptys.states ref.ptyId).closedAt ref.side = true

/-- Each description counts its descriptors; an end is registered, and not hung up, exactly while
one is left. -/
structure Counted (k : KernelImpl) : Prop where
  counts : ∀ r, (k.desc r).refCount = k.fds.refs r
  registered : ∀ r e, k.ends r = some e → (k.registered r e ↔ 0 < (k.desc r).refCount)
  hungUp : ∀ r e, k.ends r = some e → (k.hungUp e ↔ (k.desc r).refCount ≤ 0)

/-- A call of a process that does not throw. -/
def Returning (k : KernelImpl) (a : Syscall) : Prop := ofProcess a = true ∧ k.throws a = false

instance (k : KernelImpl) (a : Syscall) : Decidable (k.Returning a) :=
  inferInstanceAs (Decidable (_ ∧ _))

theorem EndsOk.registered_iff (h : k.EndsOk group v sel k.Live) (hk : KernelOk k) {x : ε}
    (hx : k.endsOf sel r = some x) :
    (v.reg (k.desc r).id = some x ∧ v.known (group x) = true ↔ 0 < (k.desc r).refCount) ∧
      (v.isOpen x = false ↔ (k.desc r).refCount ≤ 0) := by
  have hc : (k.desc r).refCount = k.fds.refs r := hk.fds.counts r
  have hlive : k.Live r ↔ 0 < (k.desc r).refCount := by rw [hc, Live, Int.natCast_pos]
  have hopen := Ok.isOpen h r x hx
  constructor
  · rw [← hlive]
    exact ⟨fun hr => (Ok.reg_iff h hx).mp hr.1,
      fun hl => ⟨Ok.reg h r x hl hx, Ok.known h r x hl hx⟩⟩
  · rw [← Bool.not_eq_true, hopen, hlive, Int.not_lt]

theorem RefsOk.counted (h : RefsOk k) : Counted k := by
  refine ⟨h.kernel.fds.counts, fun r e he => ?_, fun r e he => ?_⟩
  · cases e with
    | pipe ref => exact (h.pipes.registered_iff h.kernel (by rw [endsOf, he]; rfl)).1
    | pty ref => exact (h.ptys.registered_iff h.kernel (by rw [endsOf, he]; rfl)).1
  · cases e with
    | pipe ref =>
        have hi := (h.pipes.registered_iff h.kernel (x := ref) (by rw [endsOf, he]; rfl)).2
        simpa [PipeManager.view, ofStates, hungUp] using hi
    | pty ref =>
        have hi := (h.ptys.registered_iff h.kernel (x := ref) (by rw [endsOf, he]; rfl)).2
        simpa [PtyManager.view, ofStates, hungUp] using hi

end KernelImpl

open KernelImpl

/-- **Reference counting**: in every run without exceptions whose calls give out ids that are not
in use, each description counts its descriptors and each end of a pipe or PTY is registered exactly
while it has one. -/
theorem counted_of_freshIds {mounted : List (String × List String)} {max : Option Nat}
    {k : KernelImpl}
    (h : Reach KernelImpl.step (fun k a => k.Returning a ∧ k.FreshIds a) (boot mounted max) k) :
    k.Counted :=
  (h.invariant (RefsOk.boot mounted max)
    fun _ _ _ hi hc hs => hi.step hc.1.1 hc.1.2 hc.2 hs).counted

/-- A shell with a pipe starts a child that reads from it, and exits; the child still holds the
read end, and the write end is gone. -/
theorem counted_of_freshIds_inherited :
    ∃ k, Reach KernelImpl.step (fun k a => k.Returning a ∧ k.FreshIds a)
      (boot [("sh", ["sh", "cat"])] none) k ∧ k.ends 3 = some (.pipe ⟨1, .read⟩) ∧
      (k.desc 3).refCount = 1 ∧ (k.desc 4).refCount = 0 ∧ k.Counted := by
  obtain ⟨k, hk, h₁, h₂, h₃⟩ := Reach.exists_of_execIf KernelImpl.step
    (fun k a => k.Returning a ∧ k.FreshIds a) (boot [("sh", ["sh", "cat"])] none)
    [.spawn "sh" ⟨none, none, none⟩ answered, .pipe "sh" 1, .fdDup2 "sh" 1 4 9,
      .spawnFrom "sh" "cat" 1 ⟨some 3, none, none⟩ answered, .fdClose "sh" 1 4, .exit 1]
    (P := fun k => k.ends 3 = some (.pipe ⟨1, .read⟩) ∧ (k.desc 3).refCount = 1 ∧
      (k.desc 4).refCount = 0) (by decide +kernel)
  exact ⟨k, hk, h₁, h₂, h₃, counted_of_freshIds hk⟩

/-! ### Files with the ids of pipes -/

/-- A shell that can open a file, whose next file gets the id `n`; the description `3` is the read
end of its pipe. -/
structure Idle (k : KernelImpl) (n : Nat) (p : PipeManager) : Prop where
  owns : k.owns "sh" 1 = true
  table : ∃ t, k.fds.get 1 = some t ∧ t.entries.size < MAX_FDS_PER_PROCESS
  next : k.fds.nextDescriptionId = n
  pipes : k.pipes = p
  made : 3 < k.fds.descs.next
  readEnd : k.ends 3 = some (.pipe ⟨1, .read⟩)
  desc : (k.desc 3).id = 100000 ∧ (k.desc 3).refCount = 1

variable {k : KernelImpl}

/-- A call that returns is a step. -/
theorem step_of_returns {k' : KernelImpl} {a : Syscall} (ha : ∀ h, a ≠ .resume h)
    (h : (perform a).Returns k fun _ s => s = k') :
    k.throws a = false ∧ k.step a = some k' := by
  obtain ⟨_, _, he, rfl⟩ := returns_iff.mp h
  refine ⟨by rw [throws, he], ?_⟩
  unfold KernelImpl.step
  split
  · exact absurd rfl (ha _)
  · rw [he]

theorem assertOwns_returns {driver : String} {pid : Nat}
    {Q : Unit → KernelImpl → Prop} (ho : k.owns driver pid = true) (hQ : Q () k) :
    (assertOwns driver pid).Returns k Q := by
  simp only [Returns, assertOwns, wp_bind, wp_read, ho]
  exact hQ

theorem getTable_returns {pid : Nat} {t : ProcessFDTable}
    {Q : ProcessFDTable → KernelImpl → Prop} (ht : k.fds.get pid = some t) (hQ : Q t k) :
    (getTable pid).Returns k Q := by
  simp only [Returns, getTable, wp_bind, wp_read, ht]
  exact hQ

theorem releaseDescription_driverPids (k : KernelImpl) (r : Nat) :
    (k.releaseDescription r).driverPids = k.driverPids := by
  unfold releaseDescription releaseLock closePty closePipe
  repeat' split
  all_goals rfl

/-- A file is opened and closed again: its id is used up, and closed in the pipe manager. -/
theorem Idle.openClose {n : Nat} {p : PipeManager} (h : Idle k n p) :
    ∃ k', Reach KernelImpl.step Returning k k' ∧ Idle k' (n + 1) (p.close n) := by
  obtain ⟨t, ht, hsize⟩ := h.table
  let r := k.fds.descs.next
  let fd := freeFrom t.entries t.nextFd
  let t₁ : ProcessFDTable := ⟨t.entries.set fd ⟨r, FILETYPE_REGULAR_FILE, false⟩, fd + 1⟩
  let m : FDTableManager :=
    ⟨⟨update k.fds.descs.objs r ⟨k.fds.nextDescriptionId, "/f", 0, 0, 1, none⟩, r + 1⟩,
      k.fds.tables.set 1 t₁, k.fds.nextDescriptionId + 1⟩
  have halloc : t.allocateFd = .ok (fd, { t with nextFd := fd + 1 }) := by
    rw [ProcessFDTable.allocateFd, if_neg (Nat.not_le.mpr hsize)]
  have hopenIn : k.fds.openIn 1 t "/f" 0 FILETYPE_REGULAR_FILE = .ok (fd, r, m) := by
    rw [openIn, halloc]
    rfl
  have hopen : (perform (.fdOpen "sh" 1 "/f" 0 none (.ok false))).Returns k
      fun _ s => s = { k with fds := m } := by
    have hd : devFd? "/f" = none := by decide
    have hflags : Flags.has 0 (O_CREAT ||| O_EXCL ||| O_TRUNC) = false := by decide
    refine wp_map.mpr (Returns.bind (R := fun _ s => s = k)
      (assertOwns_returns h.owns rfl) ?_)
    rintro _ _ rfl
    simp only [hd, hflags]
    refine Returns.bind (getTable_returns ht ⟨rfl, rfl⟩) (R := fun x s => x = t ∧ s = _) ?_
    rintro _ _ ⟨rfl, rfl⟩
    simp only [Returns, wp_bind, wp_read, hopenIn, wp_lift_ok, wp_update]
    rfl
  obtain ⟨hr₁, hs₁⟩ := step_of_returns (by simp) hopen
  let k₁ : KernelImpl := { k with fds := m }
  let k₂ : KernelImpl := k₁.withTable 1 fun h t => close h t fd
  have hg₁ : k₁.fds.get 1 = some t₁ := OMap.get_set_self _ _ _
  have he₁ : t₁.get fd = some ⟨r, FILETYPE_REGULAR_FILE, false⟩ := OMap.get_set_self _ _ _
  have hclose : (perform (.fdClose "sh" 1 fd)).Returns k₁
      fun _ s => s = k₂.releaseDescription r := by
    refine Returns.bind (R := fun _ s => s = k₁) (assertOwns_returns h.owns rfl) ?_
    rintro _ _ rfl
    refine Returns.bind (getTable_returns hg₁ ⟨rfl, rfl⟩) (R := fun x s => x = t₁ ∧ s = k₁) ?_
    rintro _ _ ⟨rfl, rfl⟩
    simp only [he₁]
    rfl
  obtain ⟨hr₂, hs₂⟩ := step_of_returns (by simp) hclose
  refine ⟨k₂.releaseDescription r, .next (.one ⟨rfl, hr₁⟩ hs₁) ⟨rfl, hr₂⟩ hs₂, ?_⟩
  -- the table is as before, and the description is dead
  have hfds₂ : k₂.fds = m.setTable 1 (m.descs.addRef r (-1), ⟨t.entries, fd + 1⟩) := by
    have hdel : t₁.entries.delete fd = t.entries :=
      t.entries.delete_set (get_freeFrom _ _) _
    show (k₁.withTable 1 _).fds = _
    rw [withTable_eq hg₁, ProcessFDTable.close, he₁, hdel]
  obtain ⟨hf, hends, -⟩ := releaseDescription_fds k₂ r
  have hrest : k₂.ends = k.ends ∧ k₂.pipes = k.pipes ∧ k₂.driverPids = k.driverPids := by
    show (k₁.withTable 1 _).ends = _ ∧ (k₁.withTable 1 _).pipes = _ ∧
      (k₁.withTable 1 _).driverPids = _
    rw [withTable_eq hg₁]
    exact ⟨rfl, rfl, rfl⟩
  have hr : k₂.desc r = ⟨n, "/f", 0, 0, 0, none⟩ := by
    rw [KernelImpl.desc, hfds₂, ← h.next]
    simp [setTable, Descs.addRef, Descs.modify, m]
  have h3 : k₂.desc 3 = k.desc 3 := by
    have hne : 3 ≠ r := Nat.ne_of_lt h.made
    rw [KernelImpl.desc, hfds₂]
    simp [setTable, Descs.addRef, Descs.modify, m, hne, KernelImpl.desc]
  have hpipes := (releaseDescription_dead (k := k₂) (r := r) (by rw [hr])).1
  refine ⟨?_, ⟨⟨t.entries, fd + 1⟩, ?_, hsize⟩, ?_, ?_, ?_, ?_, ?_⟩
  · rw [KernelImpl.owns, releaseDescription_driverPids, hrest.2.2]
    exact h.owns
  · rw [hf, hfds₂]
    exact OMap.get_set_self _ _ _
  · rw [hf, hfds₂]
    exact congrArg (· + 1) h.next
  · rw [hpipes, hr, hrest.2.1, h.pipes]
  · rw [hf, hfds₂]
    exact Nat.lt_succ_of_lt h.made
  · rw [hends, hrest.1]
    exact h.readEnd
  · have hd : (k₂.releaseDescription r).desc 3 = k.desc 3 := by
      rw [← h3, KernelImpl.desc, hf]
      rfl
    rw [hd]
    exact h.desc

/-- As many files as it takes. -/
theorem Idle.openFiles {n : Nat} {p : PipeManager} (h : Idle k n p) (i : Nat)
    (hp : ∀ d < n + i, p.descToPipe d = none) :
    ∃ k', Reach KernelImpl.step Returning k k' ∧ Idle k' (n + i) p := by
  induction i with
  | zero => exact ⟨k, .start, h⟩
  | succ i ih =>
      obtain ⟨k₁, hr₁, h₁⟩ := ih fun d hd => hp d (Nat.lt_succ_of_lt hd)
      obtain ⟨k₂, hr₂, h₂⟩ := h₁.openClose
      have hclose : p.close (n + i) = p := by
        rw [PipeManager.close, hp (n + i) (Nat.lt_succ_self _)]
      rw [hclose] at h₂
      exact ⟨k₂, hr₁.trans hr₂, h₂⟩

/-- The pipe manager with one pipe. -/
def onePipe : PipeManager := PipeManager.new.createPipe.2.2

theorem idle_start : ∃ k, Reach KernelImpl.step Returning (boot [("sh", ["sh"])] none) k ∧
    Idle k 4 onePipe := by
  have hrun : (execIf KernelImpl.step Returning (boot [("sh", ["sh"])] none)
      [.spawn "sh" ⟨none, none, none⟩ answered, .pipe "sh" 1]).map
      (fun k => (k.owns "sh" 1, (k.fds.get 1).map (·.entries.size),
        [k.fds.nextDescriptionId, k.fds.descs.next, (k.desc 3).id], k.ends 3,
        (k.desc 3).refCount)) =
        some (true, some 5, [4, 5, 100000], some (.pipe ⟨1, .read⟩), 1) := by decide +kernel
  obtain ⟨k, hk, hv⟩ := Option.map_eq_some_iff.mp hrun
  have hpipes : some k.pipes = some onePipe := by
    rw [← Option.map_some (f := pipes), ← hk]
    rfl
  simp only [Prod.mk.injEq, List.cons.injEq, and_true] at hv
  obtain ⟨ho, ht, ⟨hn, hd, hi⟩, he, hc⟩ := hv
  obtain ⟨t, ht, hs⟩ := Option.map_eq_some_iff.mp ht
  exact ⟨k, .of_execIf hk, ho, ⟨t, ht, by rw [hs]; decide⟩, hn, Option.some.inj hpipes,
    by rw [hd]; decide, he, hi, hc⟩

/-- A shell makes a pipe and then opens and closes 99997 files.  The last of them has the id of the
read end of the pipe, which is closed with it. -/
theorem refCount_fails :
    ¬ ∀ mounted max k, Reach KernelImpl.step Returning (boot mounted max) k → k.Counted := by
  intro hall
  obtain ⟨k₁, hr₁, h₁⟩ := idle_start
  obtain ⟨k₂, hr₂, h₂⟩ := h₁.openFiles 99996 fun d hd => by
    show update (update (fun _ => none) 100000 _) 100001 _ d = none
    rw [update_of_ne (by omega), update_of_ne (by omega)]
  obtain ⟨k₃, hr₃, h₃⟩ := h₂.openClose
  have hcounted := hall _ none k₃ ((hr₁.trans hr₂).trans hr₃)
  have hreg := (hcounted.registered 3 _ h₃.readEnd).mpr (by rw [h₃.desc.2]; decide)
  have hgone : (onePipe.close 100000).descToPipe 100000 = none := by decide
  have hsome := hreg.1
  rw [h₃.pipes, h₃.desc.1, hgone] at hsome
  cases hsome

end SecureExec.Kernel
