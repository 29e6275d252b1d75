import SecureExec.Lib.Lts
import SecureExec.Lib.Savepoints
import SecureExec.Vfs.Transactional

/-!
# Vfs — Transactions — transactions that overlap

Operations of a ChunkedVFS over one `SqliteMetadataStore` that run beside each other, turn by turn.
`transaction` of `packages/core/src/vfs/sqlite-metadata.ts` opens a savepoint on the store's one
connection and closes it when its callback has settled, and SQLite's savepoints nest by the time
they were opened: whoever closes one also closes those that others opened since.

The database is the list of the changes that stand in it; a turn that changes the tables adds one
(`Change`), and a rollback takes back those since the savepoint, whoever made them.  `made` is what
each operation has changed, whether it still stands or not.

`transactions_independent`: in a run whose operations close a savepoint only when it is open, and
roll back only what is their own (`Closes`), one that succeeds has all its changes in the database
and one that fails has none.  `transactions_swallowed`: two `writeFile`s of new files that overlap,
and one fails with its changes in the database.
-/

namespace SecureExec.Vfs
open SecureExec Lts Function Connection Prog

/-! ### The database and the calls -/

/-- A change: whose turn it was, and the tables it left. -/
structure Change (P : Type) where
  owner : P
  tables : SqliteTables
  deriving DecidableEq

/-- How far a call has come. -/
inductive Phase where
  | before (c : OverTask SqliteTables (Option (Transaction SqliteTables)))
  /-- Within `transaction`, whose savepoint is `sp_{name}`. -/
  | within (name : Nat) (locks : List Nat) (fn : OverTask SqliteTables PUnit)
  | after (locks : List Nat) (r : Except Failure PUnit)
  | done (r : Except Failure PUnit)
  /-- It came to its end without a transaction. -/
  | skipped (r : Except Failure PUnit)

/-- The savepoint of a call within its transaction. -/
def Phase.savepoint? : Phase → Option Nat
  | .within name _ _ => some name
  | _ => none

/-- The callback has settled, and the transaction ends in the next turn: its savepoint, and what the
callback came to. -/
def Phase.ending? : Phase → Option (Nat × Except Failure PUnit)
  | .within name _ fn => fn.outcome?.map (name, ·)
  | _ => none

/-- What a call that ran a transaction has come to. -/
def Phase.result? : Phase → Option (Except Failure PUnit)
  | .done r => some r
  | _ => none

/-- The transaction has failed. -/
def Phase.failed : Phase → Bool
  | .after _ (.error _) => true
  | .done (.error _) => true
  | _ => false

/-- The stores, the locks and the calls. -/
structure SqliteWorld (P : Type) where
  initial : SqliteTables
  connection : Connection Nat (List (Change P))
  savepointCounter : Nat
  blocks : InMemoryBlockStore
  writeBuffers : OMap Nat InodeWriteBuffer
  randomCalls : Nat
  clockCalls : Nat
  held : Nat → Bool
  calls : P → Phase
  made : P → List (Change P)

section Savepoints
variable {D : Type}

/-- A statement on a savepoint; SQLite refuses one that names none. -/
def execSavepoint (statement : Connection Nat D → Nat → Option (Connection Nat D)) (name : Nat) :
    Prog Failure (Connection Nat D) PUnit := do
  match ← read (statement · name) with
  | some c => update fun _ => c
  | none => throw (.error ("no such savepoint: sp_" ++ toString name))

/-- `transaction` from where its callback has settled. -/
def endTransaction (name : Nat) (result : Except Failure PUnit) :
    Prog Failure (Connection Nat D) PUnit :=
  tryCatch
    (do
      lift result
      execSavepoint release name)
    fun err => do
      execSavepoint rollbackTo name
      execSavepoint release name
      throw err

end Savepoints

namespace SqliteWorld

variable {P : Type} [DecidableEq P]

/-- The tables as they are. -/
def tables (w : SqliteWorld P) : SqliteTables :=
  (w.connection.data.getLast?.map (·.tables)).getD w.initial

/-- What a turn sees. -/
def view (w : SqliteWorld P) : VfsOver SqliteTables where
  metadata := w.tables
  blocks := w.blocks
  writeBuffers := w.writeBuffers
  randomCalls := w.randomCalls
  clockCalls := w.clockCalls

/-- The changes of `p` that stand in the database. -/
def standing (w : SqliteWorld P) (p : P) : List (Change P) :=
  w.connection.data.filter (·.owner = p)

/-- What the turn of `p` that left the tables `t` has changed. -/
def changes (w : SqliteWorld P) (p : P) (t : SqliteTables) : List (Change P) :=
  if t = w.tables then [] else [⟨p, t⟩]

/-- What one turn of the program `c` of `p` leaves. -/
def afterTurn {α : Type} (w : SqliteWorld P) (p : P) (c : OverTask SqliteTables α) :
    SqliteWorld P :=
  let t := c.advance w.held w.view
  { w with
    connection :=
      { w.connection with data := w.connection.data ++ w.changes p t.state.metadata }
    made := update w.made p (w.made p ++ w.changes p t.state.metadata)
    blocks := t.state.blocks
    writeBuffers := t.state.writeBuffers
    randomCalls := t.state.randomCalls
    clockCalls := t.state.clockCalls
    held := t.held }

/-- The rest of the program after one turn. -/
def restOf {α : Type} (w : SqliteWorld P) (c : OverTask SqliteTables α) : OverTask SqliteTables α :=
  (c.advance w.held w.view).rest

def setPhase (w : SqliteWorld P) (p : P) (phase : Phase) : SqliteWorld P :=
  { w with calls := update w.calls p phase }

/-- `SAVEPOINT sp_{savepointCounter++}`. -/
def openSavepoint (w : SqliteWorld P) : SqliteWorld P :=
  { w with
    savepointCounter := w.savepointCounter + 1
    connection := w.connection.savepoint w.savepointCounter }

/-- The call of `p` runs its transaction: the savepoint and the first turn of the callback. -/
def beginTransaction (w : SqliteWorld P) (p : P) (tx : Transaction SqliteTables) : SqliteWorld P :=
  let name := w.savepointCounter
  let w := w.openSavepoint
  (w.afterTurn p tx.fn).setPhase p (.within name tx.locks (w.restOf tx.fn))

/-- One turn of `p`. -/
def step (w : SqliteWorld P) (p : P) : Option (SqliteWorld P) :=
  match w.calls p with
  | .before c =>
    match c.outcome? with
    | none => some ((w.afterTurn p c).setPhase p (.before (w.restOf c)))
    | some (.error e) => some (w.setPhase p (.skipped (.error e)))
    | some (.ok none) => some (w.setPhase p (.skipped (.ok ⟨⟩)))
    | some (.ok (some tx)) => some (w.beginTransaction p tx)
  | .within name locks fn =>
    match fn.outcome? with
    | none => some ((w.afterTurn p fn).setPhase p (.within name locks (w.restOf fn)))
    | some result =>
      let closed := (endTransaction name result).exec w.connection
      some ({ w with connection := closed.2 }.setPhase p (.after locks closed.1))
  | .after locks r =>
    some ({ w with held := fun l => w.held l && l ∉ locks }.setPhase p (.done r))
  | .done _ => none
  | .skipped _ => none

/-- The calls begin, over any stores. -/
def start (o : ChunkedVfsOptions) (v : VfsOver SqliteTables) (savepointCounter : Nat)
    (ops : P → TransactionalOp) : SqliteWorld P where
  initial := v.metadata
  connection := ⟨[], []⟩
  savepointCounter := savepointCounter
  blocks := v.blocks
  writeBuffers := v.writeBuffers
  randomCalls := v.randomCalls
  clockCalls := v.clockCalls
  held := fun _ => false
  calls := fun p => .before ((ops p).task o)
  made := fun _ => []

/-- The savepoint `name` of `p` may be closed on the callback's `result`: it is open, and what a
rollback would take back is the call's own, and all that is. -/
def MayEnd (w : SqliteWorld P) (p : P) (name : Nat) : Except Failure PUnit → Prop
  | .ok _ => (w.connection.saved name).isSome
  | .error _ => ∃ saved ∈ w.connection.saved name,
      (∀ c ∈ saved, c.owner ≠ p) ∧ ∀ c ∈ w.connection.data.drop saved.length, c.owner = p

instance (w : SqliteWorld P) (p : P) (name : Nat) : DecidablePred (w.MayEnd p name)
  | .ok _ => inferInstanceAs (Decidable ((w.connection.saved name).isSome = true))
  | .error _ => inferInstanceAs (Decidable (∃ saved ∈ w.connection.saved name,
      (∀ c ∈ saved, c.owner ≠ p) ∧ ∀ c ∈ w.connection.data.drop saved.length, c.owner = p))

/-- A turn of `p` in which its transaction ends finds its savepoint as it should be. -/
def Closes (w : SqliteWorld P) (p : P) : Prop :=
  ∀ e ∈ (w.calls p).ending?, w.MayEnd p e.1 e.2

instance (w : SqliteWorld P) (p : P) : Decidable (Closes w p) :=
  inferInstanceAs (Decidable (∀ e ∈ (w.calls p).ending?, w.MayEnd p e.1 e.2))

/-- The transactions do not touch each other: a call that succeeded has all its changes in the
database, one that failed has none, and what stands is final when none is within its
transaction. -/
structure Independent (w : SqliteWorld P) : Prop where
  succeeded : ∀ p, (w.calls p).result? = some (.ok ⟨⟩) → w.standing p = w.made p
  failed : ∀ p e, (w.calls p).result? = some (.error e) → w.standing p = []
  settled : (∀ p, (w.calls p).savepoint? = none) → w.connection.savepoints = []

/-! ### Closing a savepoint -/

section Savepoints
variable {D : Type} {c : Connection Nat D} {n : Nat} {d : D}

theorem endTransaction_ok (h : c.saved n = some d) :
    ∃ above rest, c.savepoints = above ++ (n, d) :: rest ∧
      (endTransaction n (.ok ⟨⟩)).exec c = (.ok ⟨⟩, { c with savepoints := rest }) := by
  obtain ⟨above, rest, hs, hr⟩ := release_eq h
  refine ⟨above, rest, hs, ?_⟩
  have hrel : (execSavepoint release n).exec c =
      (.ok ⟨⟩, { c with savepoints := rest }) := by
    rw [execSavepoint, exec_bind, exec_read, hr]
    rfl
  rw [endTransaction, exec_tryCatch, exec_bind, exec_lift]
  dsimp only
  rw [hrel]

theorem endTransaction_error (h : c.saved n = some d) (e : Failure) :
    ∃ above rest, c.savepoints = above ++ (n, d) :: rest ∧
      (endTransaction n (.error e)).exec c = (.error e, ⟨d, rest⟩) := by
  obtain ⟨above, rest, hs, hr⟩ := rollbackTo_eq h
  refine ⟨above, rest, hs, ?_⟩
  have hback : (execSavepoint rollbackTo n).exec c = (.ok ⟨⟩, ⟨d, (n, d) :: rest⟩) := by
    rw [execSavepoint, exec_bind, exec_read, hr]
    rfl
  have hrel : (execSavepoint release n).exec (⟨d, (n, d) :: rest⟩ : Connection Nat D) =
      (.ok ⟨⟩, ⟨d, rest⟩) := by
    rw [execSavepoint, exec_bind, exec_read, release,
      openedUpTo_cons_self]
    rfl
  rw [endTransaction, exec_tryCatch, exec_bind, exec_lift]
  dsimp only
  rw [exec_bind, hback]
  dsimp only
  rw [exec_bind, hrel]
  rfl

end Savepoints

/-! ### What every turn keeps -/

variable {w w' : SqliteWorld P} {p : P} {n : Nat} {phase : Phase}

/-- The savepoints are nested, each is that of one call within its transaction, and the changes of
a call stand unless it has failed. -/
structure Tracked (w : SqliteWorld P) : Prop where
  nested : w.connection.Nested
  nodup : w.connection.names.Nodup
  opened : ∀ n ∈ w.connection.names, ∃ p, (w.calls p).savepoint? = some n
  below : ∀ p n, (w.calls p).savepoint? = some n → n < w.savepointCounter
  distinct : ∀ p q n, (w.calls p).savepoint? = some n → (w.calls q).savepoint? = some n → p = q
  stands : ∀ p, w.standing p = if (w.calls p).failed then [] else w.made p

omit [DecidableEq P] in
theorem owner_of_changes (t : SqliteTables) : ∀ c ∈ w.changes p t, c.owner = p := by
  intro c hc
  rw [changes] at hc
  split at hc
  · cases hc
  · exact (List.mem_singleton.mp hc) ▸ rfl

theorem filter_own {l : List (Change P)} (h : ∀ c ∈ l, c.owner = p) :
    l.filter (·.owner = p) = l :=
  List.filter_eq_self.mpr fun c hc => decide_eq_true (h c hc)

theorem filter_other {l : List (Change P)} {q : P} (hq : q ≠ p) (h : ∀ c ∈ l, c.owner = p) :
    l.filter (·.owner = q) = [] :=
  List.filter_eq_nil_iff.mpr fun c hc he => hq ((of_decide_eq_true he).symm.trans (h c hc))

namespace Tracked

variable (h : Tracked w)
include h

/-- The phase moves on without closing or opening a savepoint. -/
theorem setPhase (hs : phase.savepoint? = (w.calls p).savepoint?)
    (hf : phase.failed = (w.calls p).failed) : Tracked (w.setPhase p phase) := by
  have hsp : ∀ q, (update w.calls p phase q).savepoint? = (w.calls q).savepoint? := by
    intro q
    by_cases hq : q = p
    · rw [hq, update_self, hs]
    · rw [update_of_ne hq]
  have hfa : ∀ q, (update w.calls p phase q).failed = (w.calls q).failed := by
    intro q
    by_cases hq : q = p
    · rw [hq, update_self, hf]
    · rw [update_of_ne hq]
  refine ⟨h.nested, h.nodup, fun n hn => ?_, fun q n hq => ?_, fun q r n hq hr => ?_, fun q => ?_⟩
  · obtain ⟨q, hq⟩ := h.opened n hn
    exact ⟨q, (hsp q).trans hq⟩
  · exact h.below q n ((hsp q).symm.trans hq)
  · exact h.distinct q r n ((hsp q).symm.trans hq) ((hsp r).symm.trans hr)
  · exact (h.stands q).trans (congrArg (fun b : Bool => if b then [] else w.made q) (hfa q).symm)

/-- A turn changes what it changes, in the database and in what the call has made. -/
theorem afterTurn {α : Type} (hf : (w.calls p).failed = false)
    (c : OverTask SqliteTables α) : Tracked (w.afterTurn p c) := by
  refine ⟨h.nested.append _, h.nodup, h.opened, h.below, h.distinct, fun q => ?_⟩
  have hown := owner_of_changes (w := w) (p := p) (c.advance w.held w.view).state.metadata
  change (w.connection.data ++ w.changes p _).filter _ =
    if (w.calls q).failed then [] else update w.made p _ q
  rw [List.filter_append]
  by_cases hq : q = p
  · subst hq
    have hst := h.stands q
    rw [hf] at hst ⊢
    rw [filter_own hown, update_self]
    exact congrArg (· ++ _) hst
  · rw [filter_other hq hown, update_of_ne hq, List.append_nil]
    exact h.stands q

/-- The call opens a savepoint of its own. -/
theorem openSavepoint (hs : (w.calls p).savepoint? = none)
    (hf : (w.calls p).failed = false) (locks : List Nat) (fn : OverTask SqliteTables PUnit) :
    Tracked (w.openSavepoint.setPhase p (.within w.savepointCounter locks fn)) := by
  -- the new name is nobody's
  have hnew : ∀ q, (w.calls q).savepoint? ≠ some w.savepointCounter := fun q hq =>
    Nat.lt_irrefl _ (h.below q _ hq)
  refine ⟨h.nested.savepoint, List.nodup_cons.mpr ⟨fun hn => ?_, h.nodup⟩, fun n hn => ?_,
    fun q n hq => ?_, fun q r n hq hr => ?_, fun q => ?_⟩
  · obtain ⟨q, hq⟩ := h.opened _ hn
    exact hnew q hq
  · rcases List.mem_cons.mp hn with rfl | hn
    · exact ⟨p, by simp [SqliteWorld.setPhase, Phase.savepoint?]⟩
    · obtain ⟨q, hq⟩ := h.opened n hn
      have hqp : q ≠ p := by
        rintro rfl
        rw [hs] at hq
        cases hq
      exact ⟨q, by simpa [SqliteWorld.setPhase, SqliteWorld.openSavepoint, hqp] using hq⟩
  · by_cases hqp : q = p
    · subst hqp
      obtain rfl : w.savepointCounter = n := by
        simpa [SqliteWorld.setPhase, Phase.savepoint?] using hq
      exact Nat.lt_succ_self _
    · refine Nat.lt_succ_of_lt (h.below q n ?_)
      simpa [SqliteWorld.setPhase, SqliteWorld.openSavepoint, hqp] using hq
  · by_cases hqp : q = p <;> by_cases hrp : r = p
    · rw [hqp, hrp]
    · refine absurd ?_ (hnew r)
      simp only [SqliteWorld.setPhase, hqp, update_self, Phase.savepoint?,
        Option.some.injEq, update_of_ne hrp] at hq hr
      exact hq ▸ hr
    · refine absurd ?_ (hnew q)
      simp only [SqliteWorld.setPhase, hrp, update_self, Phase.savepoint?,
        Option.some.injEq, update_of_ne hqp] at hq hr
      exact hr ▸ hq
    · refine h.distinct q r n ?_ ?_
      · simpa [SqliteWorld.setPhase, SqliteWorld.openSavepoint, hqp] using hq
      · simpa [SqliteWorld.setPhase, SqliteWorld.openSavepoint, hrp] using hr
  · refine (h.stands q).trans ?_
    by_cases hqp : q = p
    · subst hqp
      rw [hf]
      simp [SqliteWorld.setPhase, SqliteWorld.openSavepoint, Phase.failed]
    · simp [SqliteWorld.setPhase, SqliteWorld.openSavepoint, hqp]

/-- The call's savepoint is closed, with those opened since. -/
theorem close {d : List (Change P)} {above rest : List (Nat × List (Change P))}
    (hs : (w.calls p).savepoint? = some n) (hsp : w.connection.savepoints = above ++ (n, d) :: rest)
    (hph : phase.savepoint? = none) {data : List (Change P)}
    (hnested : (⟨data, rest⟩ : Connection Nat (List (Change P))).Nested)
    (hst : ∀ q, data.filter (·.owner = q) =
      if (update w.calls p phase q).failed then [] else w.made q) :
    Tracked ({ w with connection := ⟨data, rest⟩ }.setPhase p phase) := by
  have hnd := h.nodup
  rw [names, hsp, List.map_append, List.map_cons] at hnd
  have hnd' := (List.nodup_append.mp hnd).2.1
  -- a call that is within its transaction now is another one, and was before
  have hother : ∀ q n', (update w.calls p phase q).savepoint? = some n' →
      q ≠ p ∧ (w.calls q).savepoint? = some n' := by
    intro q n' hq
    by_cases hqp : q = p
    · rw [hqp, update_self, hph] at hq
      cases hq
    · exact ⟨hqp, by rwa [update_of_ne hqp] at hq⟩
  refine ⟨hnested, (List.nodup_cons.mp hnd').2, fun n' hn' => ?_, fun q n' hq => ?_,
    fun q r n' hq hr => ?_, hst⟩
  · have hmem : n' ∈ w.connection.names := by
      rw [names, hsp, List.map_append, List.map_cons]
      exact List.mem_append_right _ (List.mem_cons_of_mem _ hn')
    obtain ⟨q, hq⟩ := h.opened n' hmem
    have hqp : q ≠ p := by
      rintro rfl
      obtain rfl : n = n' := Option.some.inj (hs.symm.trans hq)
      exact (List.nodup_cons.mp hnd').1 hn'
    exact ⟨q, by simpa [SqliteWorld.setPhase, hqp] using hq⟩
  · exact h.below q n' (hother q n' hq).2
  · exact h.distinct q r n' (hother q n' hq).2 (hother r n' hr).2

end Tracked

theorem tracked_start (o : ChunkedVfsOptions) (v : VfsOver SqliteTables) (k : Nat)
    (ops : P → TransactionalOp) : Tracked (start o v k ops) where
  nested := List.pairwise_singleton _ _
  nodup := List.nodup_nil
  opened := fun _ hn => nomatch hn
  below := fun _ _ hn => nomatch hn
  distinct := fun _ _ _ hn => nomatch hn
  stands := fun _ => rfl

/-- **One turn.** -/
theorem tracked_step (h : Tracked w) (hc : Closes w p) (hstep : w.step p = some w') :
    Tracked w' := by
  rw [step] at hstep
  rcases hp : w.calls p with c | ⟨name, locks, fn⟩ | ⟨locks, r⟩ | r | r
  · rw [hp] at hstep
    dsimp only at hstep
    have hf : (w.calls p).failed = false := by rw [hp]; rfl
    have hs : (w.calls p).savepoint? = none := congrArg Phase.savepoint? hp
    rcases ho : c.outcome? with _ | e | _ | tx
    · rw [ho] at hstep
      exact Option.some.inj hstep ▸ (h.afterTurn hf c).setPhase hs.symm hf.symm
    · rw [ho] at hstep
      exact Option.some.inj hstep ▸ h.setPhase hs.symm hf.symm
    · rw [ho] at hstep
      exact Option.some.inj hstep ▸ h.setPhase hs.symm hf.symm
    · rw [ho] at hstep
      have hopen := h.openSavepoint hs hf tx.locks (w.openSavepoint.restOf tx.fn)
      have hbegin := hopen.afterTurn (p := p) (by simp [setPhase, Phase.failed]) tx.fn
      exact Option.some.inj hstep ▸ hbegin
  · have hs : (w.calls p).savepoint? = some name := congrArg Phase.savepoint? hp
    have hf : (w.calls p).failed = false := by rw [hp]; rfl
    rw [hp] at hstep
    dsimp only at hstep
    rcases ho : fn.outcome? with _ | result
    · rw [ho] at hstep
      exact Option.some.inj hstep ▸ (h.afterTurn hf fn).setPhase hs.symm hf.symm
    · rw [ho] at hstep
      dsimp only at hstep
      have hend : w.MayEnd p name result :=
        hc (name, result) (by rw [hp, Phase.ending?, ho]; rfl)
      have hstand := h.stands p
      rw [hf, if_neg Bool.false_ne_true] at hstand
      rcases result with e | _
      · -- a rollback: what is taken back is the call's own
        obtain ⟨saved, hsv, hbefore, hsince⟩ := hend
        obtain ⟨above, rest, hsp, hend⟩ := endTransaction_error hsv e
        have hdata := h.nested.data_eq hsv
        rw [hend] at hstep
        refine Option.some.inj hstep ▸ h.close hs hsp rfl (h.nested.back hsp) fun q => ?_
        by_cases hq : q = p
        · subst hq
          rw [update_self]
          exact List.filter_eq_nil_iff.mpr fun c hm he => hbefore c hm (of_decide_eq_true he)
        · rw [update_of_ne hq, ← h.stands q, standing]
          conv_rhs => rw [← hdata, List.filter_append, filter_other hq hsince, List.append_nil]
      · -- a release: every change stays
        obtain ⟨saved, hsv⟩ := Option.isSome_iff_exists.mp hend
        obtain ⟨above, rest, hsp, hend⟩ := endTransaction_ok hsv
        have hsp' : w.connection.savepoints = (above ++ [(name, saved)]) ++ rest := by simpa using hsp
        rw [hend] at hstep
        refine Option.some.inj hstep ▸ h.close hs hsp rfl (h.nested.drop hsp') fun q => ?_
        by_cases hq : q = p
        · subst hq
          rw [update_self]
          exact hstand
        · rw [update_of_ne hq]
          exact h.stands q
  · rw [hp] at hstep
    have hs : Phase.savepoint? (.done r) = (w.calls p).savepoint? := by rw [hp]; rfl
    have hf : Phase.failed (.done r) = (w.calls p).failed := by
      rw [hp]
      cases r <;> rfl
    have hset := h.setPhase hs hf
    have hheld : Tracked ({ w with held := fun l => w.held l && l ∉ locks }.setPhase p (.done r)) :=
      ⟨hset.nested, hset.nodup, hset.opened, hset.below, hset.distinct, hset.stands⟩
    exact Option.some.inj hstep ▸ hheld
  · rw [hp] at hstep
    cases hstep
  · rw [hp] at hstep
    cases hstep

omit [DecidableEq P] in
theorem calls_of_result {r : Except Failure PUnit} (h : (w.calls p).result? = some r) :
    w.calls p = .done r := by
  rcases hp : w.calls p with _ | _ | _ | r' | _ <;> rw [hp] at h <;> cases h
  rfl

theorem Tracked.independent (h : Tracked w) : Independent w where
  succeeded := fun p hp => by
    have hst := h.stands p
    rwa [calls_of_result hp] at hst
  failed := fun p e hp => by
    have hst := h.stands p
    rwa [calls_of_result hp] at hst
  settled := fun hnone => by
    rcases hsp : w.connection.savepoints with _ | ⟨e, rest⟩
    · rfl
    · have hmem : e.1 ∈ w.connection.names := by
        rw [names, hsp]
        exact List.mem_cons_self
      obtain ⟨p, hp⟩ := h.opened e.1 hmem
      rw [hnone p] at hp
      cases hp

/-- **Transactions that overlap are independent** as long as each, when it ends, finds its
savepoint open, and has only its own changes to take back when it fails. -/
theorem transactions_independent (o : ChunkedVfsOptions) (v : VfsOver SqliteTables) (k : Nat)
    (ops : P → TransactionalOp) {w : SqliteWorld P} (r : Reach step Closes (start o v k ops) w) :
    Independent w :=
  (r.invariant (tracked_start o v k ops) fun _ _ _ => tracked_step).independent

/-! ### Two calls -/

/-- Small chunks, no buffering, no versioning. -/
def plainOptions : ChunkedVfsOptions where
  chunkSize := 4
  inlineThreshold := 2
  writeBuffering := false
  versioning := false
  randomId := fun _ => ""
  dateNow := id

/-- Two new files in the root directory of an empty file system. -/
def twoFiles : SqliteWorld Bool :=
  start plainOptions ⟨.new 0, .new, .empty, 0, 0⟩ 0 fun p =>
    if p then .writeFile "/b" [2] else .writeFile "/a" [1]

/-- The second call opens its savepoint in the first one's, and closes it first. -/
def nestedTurns : List Bool :=
  [false, false, false, true, true, true] ++ List.replicate 6 true ++ List.replicate 6 false

/-- The second call opens its savepoint in the first one's, and the first one closes both. -/
def crossedTurns : List Bool :=
  [false, false, false, true, true, true] ++ List.replicate 6 false ++ List.replicate 6 true

theorem nestedTurns_run : (execIf step Closes twoFiles nestedTurns).isSome := by decide +kernel

theorem crossedTurns_run : (exec step twoFiles crossedTurns).isSome := by decide +kernel

theorem transactions_independent_nested :
    ∃ w : SqliteWorld Bool, Reach step Closes twoFiles w ∧
      (∀ p, (w.calls p).result? = some (.ok ⟨⟩)) ∧ (∀ p, (w.made p).length = 4) ∧
      Independent w := by
  have hrun := Reach.of_execIf (Option.some_get nestedTurns_run).symm
  exact ⟨_, hrun, by decide +kernel, by decide +kernel, transactions_independent _ _ _ _ hrun⟩

/-- The second call fails, and its file is there. -/
theorem transactions_swallowed :
    ∃ w : SqliteWorld Bool, Reach step Any twoFiles w ∧
      (w.calls false).result? = some (.ok ⟨⟩) ∧
      (w.calls true).result? = some (.error (.error "no such savepoint: sp_1")) ∧
      (w.standing true).length = 4 ∧ w.tables.lookup 1 "b" = some 3 :=
  ⟨_, .of_exec (Option.some_get crossedTurns_run).symm, by decide +kernel, by decide +kernel,
    by decide +kernel, by decide +kernel⟩

end SqliteWorld

end SecureExec.Vfs
