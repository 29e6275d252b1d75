import SecureExec.Kernel.FdTable

/-!
# Kernel — FdRefs — counting the entries of the descriptor tables

`refs r` is the number of table entries that hold the description `r`.  An operation of a table is
`Balanced` when it changes the counts the descriptions carry by as much as it changes the entries,
and `FdsOk` says that over all tables the counts are the numbers of entries (`FdsOk.setTable`: a
balanced operation of one table keeps it).
-/

namespace SecureExec.Kernel
open SecureExec ProcessFDTable Function OMap Descs

/-! ### Free descriptors -/

namespace ProcessFDTable

variable {m : OMap Nat FDEntry}

theorem lt_bound {n : Nat} (h : n ∈ m.keys) : n < bound m := by
  unfold bound
  generalize m.keys = l at h ⊢
  induction l with
  | nil => cases h
  | cons k l ih =>
      rw [List.foldr_cons]
      rcases List.mem_cons.mp h with rfl | h
      · exact Nat.lt_of_lt_of_le (Nat.lt_succ_self _) (Nat.le_max_left _ _)
      · exact Nat.lt_of_lt_of_le (ih h) (Nat.le_max_right _ _)

theorem get_of_bound_le {n : Nat} (h : bound m ≤ n) : m.get n = none :=
  (m.get_eq_none_iff n).mpr fun hn => Nat.lt_irrefl _ (Nat.lt_of_lt_of_le (lt_bound hn) h)

theorem get_firstFree : ∀ {fuel n : Nat}, bound m ≤ n + fuel →
    m.get (firstFree m fuel n) = none := by
  intro fuel
  induction fuel with
  | zero => exact fun h => get_of_bound_le h
  | succ fuel ih =>
      intro n h
      rw [firstFree]
      cases hn : m.get n with
      | none =>
          rw [if_neg (by simp [has, hn])]
          exact hn
      | some e =>
          rw [if_pos (by simp [has, hn])]
          exact ih (Nat.le_trans h (Nat.le_of_eq (by omega)))

/-- A number found free has no entry. -/
theorem get_freeFrom (m : OMap Nat FDEntry) (n : Nat) : m.get (freeFrom m n) = none :=
  get_firstFree (Nat.le_add_left _ _)

theorem allocateFd_ok {t t' : ProcessFDTable} {fd : Nat} (h : t.allocateFd = .ok (fd, t')) :
    t.get fd = none ∧ t'.entries = t.entries := by
  unfold allocateFd at h
  split at h
  · cases h
  · cases h
    exact ⟨get_freeFrom _ _, rfl⟩

/-! ### The entries of one table -/

/-- The number of entries that hold a description. -/
def refs (t : ProcessFDTable) (r : Nat) : Nat :=
  t.entries.sumBy fun _ e => if e.description = r then 1 else 0

variable {t : ProcessFDTable} {fd : Nat} {e : FDEntry} {h : Descs}

theorem refs_congr {t' : ProcessFDTable} (he : t'.entries = t.entries) (r : Nat) :
    t'.refs r = t.refs r := by
  rw [refs, refs, he]

theorem refs_new (r : Nat) : new.refs r = 0 := rfl

theorem refs_setEntry (hn : t.get fd = none) (e : FDEntry) (r : Nat) :
    (t.setEntry fd e).refs r = t.refs r + if e.description = r then 1 else 0 := by
  have hs := t.entries.sumBy_set (fun _ e => if e.description = r then 1 else 0) fd e
  rw [weight, show t.entries.get fd = none from hn] at hs
  exact hs

theorem refs_replace {e' : FDEntry} (hn : t.get fd = some e') (he : e.description = e'.description)
    (r : Nat) : (t.setEntry fd e).refs r = t.refs r := by
  have hs := t.entries.sumBy_set (fun _ e => if e.description = r then 1 else 0) fd e
  rw [weight, show t.entries.get fd = some e' from hn, he] at hs
  exact Nat.add_right_cancel hs

theorem refs_delete (hn : t.get fd = some e) (r : Nat) :
    ({ t with entries := t.entries.delete fd } : ProcessFDTable).refs r +
      (if e.description = r then 1 else 0) = t.refs r := by
  have hs := t.entries.sumBy_delete (fun _ e => if e.description = r then 1 else 0) fd
  rw [weight, show t.entries.get fd = some e from hn] at hs
  exact hs

/-- The description of an entry is held. -/
theorem refs_pos (hn : t.get fd = some e) : 0 < t.refs e.description := by
  have h := refs_delete hn e.description
  rw [if_pos rfl] at h
  omega

variable (t)

theorem refs_eq_countP (r : Nat) :
    t.refs r = t.entries.values.countP (fun e => e.description == r) := by
  rw [refs, sumBy, values, List.countP_map]
  induction t.entries.entries with
  | nil => rfl
  | cons p l ih =>
      rw [List.map_cons, List.sum_cons, ih, List.countP_cons, Nat.add_comm]
      simp

theorem refs_pos_iff (r : Nat) :
    0 < t.refs r ↔ ∃ e ∈ t.entries.values, e.description = r := by
  rw [refs_eq_countP, List.countP_pos_iff]
  simp

end ProcessFDTable

/-! ### Only the counts change -/

namespace Descs

/-- Nothing but the counts of the descriptions differs. -/
structure CountsOnly (h h' : Descs) : Prop where
  next : h'.next = h.next
  same : ∀ r, ∃ n, h'.objs r = { h.objs r with refCount := n }

variable {h h' h'' : Descs}

theorem CountsOnly.refl (h : Descs) : CountsOnly h h := ⟨rfl, fun r => ⟨(h.objs r).refCount, rfl⟩⟩

theorem CountsOnly.trans (h₁ : CountsOnly h h') (h₂ : CountsOnly h' h'') : CountsOnly h h'' := by
  refine ⟨h₂.next.trans h₁.next, fun r => ?_⟩
  obtain ⟨n, hn⟩ := h₁.same r
  obtain ⟨n', hn'⟩ := h₂.same r
  exact ⟨n', by rw [hn', hn]⟩

theorem CountsOnly.addRef (h : Descs) (r : Nat) (n : Int) : CountsOnly h (h.addRef r n) := by
  refine ⟨rfl, fun x => ?_⟩
  by_cases hx : x = r
  · subst hx
    exact ⟨(h.objs x).refCount + n, update_self ..⟩
  · exact ⟨(h.objs x).refCount, update_of_ne hx _ _⟩

theorem refCount_addRef (h : Descs) (r : Nat) (n : Int) (x : Nat) :
    ((h.addRef r n).objs x).refCount = (h.objs x).refCount + if r = x then n else 0 := by
  by_cases hx : x = r
  · subst hx
    simp [addRef, modify]
  · simp [addRef, modify, hx, Ne.symm hx]

/-- One turn for each entry of a list. -/
theorem refCount_foldl (l : List FDEntry) (n : Int) : ∀ (h : Descs) (x : Nat),
    ((l.foldl (fun h e => h.addRef e.description n) h).objs x).refCount =
      (h.objs x).refCount + n * (l.countP (fun e => e.description == x) : Int) := by
  induction l with
  | nil => simp
  | cons e l ih =>
      intro h x
      rw [List.foldl_cons, ih, refCount_addRef, List.countP_cons, Int.natCast_add, Int.mul_add]
      by_cases he : e.description = x
      · rw [if_pos he, if_pos (beq_iff_eq.mpr he), Int.natCast_one, Int.mul_one]
        omega
      · rw [if_neg he, if_neg (fun hb => he (beq_iff_eq.mp hb)), Int.natCast_zero, Int.mul_zero]
        omega

theorem CountsOnly.foldl (l : List FDEntry) (n : Int) : ∀ h : Descs,
    CountsOnly h (l.foldl (fun h e => h.addRef e.description n) h) := by
  induction l with
  | nil => exact CountsOnly.refl
  | cons e l ih => exact fun h => (CountsOnly.addRef h e.description n).trans (ih _)

end Descs

/-! ### Balanced operations -/

/-- The counts change by as much as the entries. -/
structure Balanced (h : Descs) (t : ProcessFDTable) (s : Descs × ProcessFDTable) : Prop where
  counts : ∀ r, (s.1.objs r).refCount + t.refs r = (h.objs r).refCount + s.2.refs r
  only : h.CountsOnly s.1

namespace Balanced

variable {h : Descs} {t t' : ProcessFDTable} {s s' : Descs × ProcessFDTable} {fd : Nat}
  {e : FDEntry}

theorem refl (h : Descs) (t : ProcessFDTable) : Balanced h t (h, t) :=
  ⟨fun _ => rfl, .refl h⟩

theorem trans (h₁ : Balanced h t s) (h₂ : Balanced s.1 s.2 s') : Balanced h t s' := by
  refine ⟨fun r => ?_, h₁.only.trans h₂.only⟩
  have := h₁.counts r
  have := h₂.counts r
  omega

theorem congr (hb : Balanced h t' s) (he : ∀ r, t'.refs r = t.refs r) : Balanced h t s := by
  refine ⟨fun r => ?_, hb.only⟩
  rw [← he]
  exact hb.counts r

variable (h)

/-- One more entry for a description. -/
theorem openWithAt (hn : t.get fd = none) (r filetype : Nat) :
    Balanced h t (ProcessFDTable.openWithAt h t r filetype fd) := by
  refine ⟨fun x => ?_, .addRef h r 1⟩
  rw [ProcessFDTable.openWithAt, refCount_addRef, ProcessFDTable.refs_setEntry hn]
  split <;> omega

variable (t)

theorem close (fd : Nat) :
    Balanced h t (ProcessFDTable.close h t fd) := by
  unfold ProcessFDTable.close
  split
  · exact refl h t
  · rename_i e he
    refine ⟨fun x => ?_, .addRef h e.description (-1)⟩
    have hd := ProcessFDTable.refs_delete he x
    show ((h.addRef e.description (-1)).objs x).refCount + _ = _ + _
    rw [refCount_addRef, ← hd]
    split <;> simp only <;> omega

theorem fork : Balanced h .new (t.fork h) := by
  refine ⟨fun r => ?_, .foldl _ 1 h⟩
  rw [ProcessFDTable.fork, refCount_foldl, ProcessFDTable.refs_new,
    ProcessFDTable.refs_eq_countP]
  simp

end Balanced

/-! ### What each operation of a table does -/

namespace ProcessFDTable

variable {h : Descs} {t : ProcessFDTable} {s : Descs × ProcessFDTable} {fd fd' : Nat}

theorem refs_openWithAt (h : Descs) (hn : t.get fd = none) (r filetype x : Nat) :
    (openWithAt h t r filetype fd).2.refs x = t.refs x + if r = x then 1 else 0 :=
  refs_setEntry hn _ x

theorem openWith_spec {r filetype : Nat} (ho : openWith h t r filetype = .ok (fd, s)) :
    Balanced h t s ∧ ∀ x, s.2.refs x = t.refs x + if r = x then 1 else 0 := by
  cases ha : t.allocateFd with
  | error e => simp [openWith, ha, bind, Except.bind] at ho
  | ok p =>
      obtain ⟨fd₀, t'⟩ := p
      obtain ⟨hn, he⟩ := allocateFd_ok ha
      simp only [openWith, ha, bind, Except.bind, pure, Except.pure, Except.ok.injEq,
        Prod.mk.injEq] at ho
      obtain ⟨rfl, rfl⟩ := ho
      have hn' : t'.get fd₀ = none := by rw [get, he]; exact hn
      refine ⟨(Balanced.openWithAt h hn' r filetype).congr (refs_congr he), fun x => ?_⟩
      rw [refs_openWithAt h hn', refs_congr he]

/-- A copy of an entry: the descriptions held stay the same. -/
theorem held_of_copy {e : FDEntry} (he : t.get fd = some e) {t' : ProcessFDTable}
    (hr : ∀ x, t'.refs x = t.refs x + if e.description = x then 1 else 0) (x : Nat) :
    0 < t'.refs x ↔ 0 < t.refs x := by
  have hp := refs_pos he
  rw [hr]
  split
  · rename_i hx
    subst hx
    exact ⟨fun _ => hp, fun _ => Nat.succ_pos _⟩
  · exact Iff.rfl

theorem dup_spec (ho : dup h t fd = .ok (fd', s)) :
    Balanced h t s ∧ ∀ x, 0 < s.2.refs x ↔ 0 < t.refs x := by
  unfold dup at ho
  split at ho
  · cases ho
  · rename_i e he
    obtain ⟨hb, hr⟩ := openWith_spec ho
    exact ⟨hb, held_of_copy he hr⟩

theorem dupMinFd_spec {minFd : Nat} (ho : dupMinFd h t fd minFd = .ok (fd', s)) :
    Balanced h t s ∧ ∀ x, 0 < s.2.refs x ↔ 0 < t.refs x := by
  unfold dupMinFd at ho
  split at ho
  · cases ho
  · rename_i e he
    split at ho
    · cases ho
    · simp only [Except.ok.injEq, Prod.mk.injEq] at ho
      obtain ⟨-, rfl⟩ := ho
      have hn := get_freeFrom t.entries minFd
      exact ⟨.openWithAt h hn _ _, held_of_copy he (refs_openWithAt h hn _ _)⟩

theorem close_spec {e : FDEntry} (he : t.get fd = some e) :
    (close h t fd).2.get fd = none ∧
      ∀ x, (close h t fd).2.refs x + (if e.description = x then 1 else 0) = t.refs x := by
  unfold close
  rw [he]
  exact ⟨t.entries.get_delete_self fd, refs_delete he⟩

theorem close_none (he : t.get fd = none) : close h t fd = (h, t) := by
  unfold close
  rw [he]

theorem get_close_self (h : Descs) (t : ProcessFDTable) (fd : Nat) :
    (close h t fd).2.get fd = none := by
  cases he : t.get fd with
  | none =>
      rw [close_none he]
      exact he
  | some e => exact (close_spec he).1

theorem refs_close_le (h : Descs) (t : ProcessFDTable) (fd x : Nat) :
    (close h t fd).2.refs x ≤ t.refs x := by
  cases he : t.get fd with
  | none => rw [close_none he]
  | some e => exact (close_spec (h := h) he).2 x ▸ Nat.le_add_right _ _

/-- Only the description that had the new number can lose an entry. -/
theorem dup2_spec {oldFd newFd : Nat} (ho : dup2 h t oldFd newFd = .ok s) :
    Balanced h t s ∧ (∀ x, 0 < s.2.refs x → 0 < t.refs x) ∧
      ∀ x, (∀ e, t.get newFd = some e → e.description ≠ x) →
        (0 < s.2.refs x ↔ 0 < t.refs x) := by
  unfold dup2 at ho
  split at ho
  · cases ho
  · rename_i e he
    have hp := refs_pos he
    split at ho
    · cases ho
      exact ⟨.refl h t, fun _ => id, fun _ _ => Iff.rfl⟩
    · simp only [Except.ok.injEq] at ho
      subst ho
      cases hn : t.get newFd with
      | none =>
          rw [close_none hn]
          have hl := held_of_copy he (refs_openWithAt h hn e.description e.filetype)
          exact ⟨.openWithAt h hn _ _, fun x => (hl x).mp, fun x _ => hl x⟩
      | some e' =>
          obtain ⟨hn', hc⟩ := close_spec (h := h) hn
          have hr := refs_openWithAt (close h t newFd).1 hn' e.description e.filetype
          refine ⟨(Balanced.close h t newFd).trans (.openWithAt _ hn' _ _), fun x hx => ?_,
            fun x hx => ?_⟩
          · have h₁ := hc x
            rw [hr] at hx
            split at hx
            · rename_i hex
              exact hex ▸ hp
            · omega
          · have h₁ := hc x
            rw [if_neg (hx e' rfl)] at h₁
            rw [hr, ← h₁]
            split
            · rename_i hex
              rw [hex, ← h₁] at hp
              exact ⟨fun _ => hp, fun _ => Nat.succ_pos _⟩
            · exact Iff.rfl

/-- A child holds what its parent holds. -/
theorem refs_fork (h : Descs) (t : ProcessFDTable) {r : Nat} (hr : 0 < (fork h t).2.refs r) :
    0 < t.refs r := by
  obtain ⟨e, he, hd⟩ := (refs_pos_iff _ r).mp hr
  obtain ⟨p, hp, rfl⟩ := List.mem_map.mp he
  exact (refs_pos_iff t r).mpr ⟨p.2, List.mem_map_of_mem (List.mem_of_mem_filter hp), hd⟩

theorem refs_setCloexec (t : ProcessFDTable) (fd : Nat) (value : Bool) (r : Nat) :
    (t.setCloexec fd value).refs r = t.refs r := by
  unfold setCloexec
  split
  · rfl
  · rename_i e he
    refine refs_replace he ?_ r
    rfl

end ProcessFDTable

/-! ### All tables -/

namespace FDTableManager

/-- The number of entries of all tables that hold a description. -/
def refs (m : FDTableManager) (r : Nat) : Nat := m.tables.sumBy fun _ t => t.refs r

variable {m m' : FDTableManager} {pid : Nat} {t : ProcessFDTable} {s : Descs × ProcessFDTable}

theorem refs_setTable (hg : m.get pid = some t) (s : Descs × ProcessFDTable) (r : Nat) :
    (m.setTable pid s).refs r + t.refs r = m.refs r + s.2.refs r := by
  have hs := m.tables.sumBy_set (fun _ t => t.refs r) pid s.2
  rwa [weight, show m.tables.get pid = some t from hg] at hs

theorem refs_addTable (hg : m.get pid = none) (s : Descs × ProcessFDTable) (r : Nat) :
    (m.setTable pid s).refs r = m.refs r + s.2.refs r := by
  have hs := m.tables.sumBy_set (fun _ t => t.refs r) pid s.2
  rwa [weight, show m.tables.get pid = none from hg] at hs

theorem refs_remove (hg : m.get pid = some t) (r : Nat) :
    (m.remove pid).refs r + t.refs r = m.refs r := by
  have hs := m.tables.sumBy_delete (fun _ t => t.refs r) pid
  rw [weight, show m.tables.get pid = some t from hg] at hs
  rw [remove, hg]
  exact hs

theorem refs_le (hg : m.get pid = some t) (r : Nat) : t.refs r ≤ m.refs r := by
  have h := refs_remove hg r
  omega

end FDTableManager

/-- Every description carries the number of its entries; what is not made yet has none. -/
structure FdsOk (m : FDTableManager) : Prop where
  counts : ∀ r, (m.descs.objs r).refCount = m.refs r
  valid : ∀ r, m.descs.next ≤ r → m.refs r = 0

namespace FdsOk

open FDTableManager

variable {m : FDTableManager} {pid : Nat} {t : ProcessFDTable} {s : Descs × ProcessFDTable}

theorem new : FdsOk .new := ⟨fun _ => rfl, fun _ _ => rfl⟩

variable (hm : FdsOk m)
include hm

theorem lt_next {r : Nat} (hr : 0 < m.refs r) : r < m.descs.next := by
  by_contra hge
  rw [hm.valid r (Nat.le_of_not_lt hge)] at hr
  exact Nat.lt_irrefl _ hr

theorem setTable (hg : m.get pid = some t) (hb : Balanced m.descs t s)
    (hv : ∀ r, m.descs.next ≤ r → s.2.refs r = 0) : FdsOk (m.setTable pid s) := by
  refine ⟨fun r => ?_, fun r hr => ?_⟩
  · have h₁ := hm.counts r
    have h₂ := hb.counts r
    have h₃ := refs_setTable hg s r
    show (s.1.objs r).refCount = _
    omega
  · have hr' : m.descs.next ≤ r := hb.only.next ▸ hr
    have h₁ := hm.valid r hr'
    have h₂ := hv r hr'
    have h₃ := refs_setTable hg s r
    omega

theorem addTable (hg : m.get pid = none) (hb : Balanced m.descs .new s)
    (hv : ∀ r, m.descs.next ≤ r → s.2.refs r = 0) : FdsOk (m.setTable pid s) := by
  refine ⟨fun r => ?_, fun r hr => ?_⟩
  · have h₁ := hm.counts r
    have h₂ := hb.counts r
    rw [refs_new] at h₂
    have h₃ := refs_addTable hg s r
    show (s.1.objs r).refCount = _
    omega
  · have hr' : m.descs.next ≤ r := hb.only.next ▸ hr
    rw [refs_addTable hg, hm.valid r hr', hv r hr']

/-- The descriptions a table holds have been made. -/
theorem table_valid (hg : m.get pid = some t) (r : Nat) (hr : m.descs.next ≤ r) :
    t.refs r = 0 := by
  have h₁ := hm.valid r hr
  have h₂ := refs_le hg r
  omega

theorem remove (pid : Nat) : FdsOk (m.remove pid) := by
  cases hg : m.get pid with
  | none =>
      rw [FDTableManager.remove, hg]
      exact hm
  | some t =>
      have hd : (m.remove pid).descs = t.closeAll m.descs := by rw [FDTableManager.remove, hg]
      refine ⟨fun r => ?_, fun r hr => ?_⟩
      · have h₁ := hm.counts r
        have h₂ := refs_remove hg r
        have h₃ := t.refs_eq_countP r
        rw [hd, closeAll, refCount_foldl]
        omega
      · rw [hd] at hr
        have h₁ := hm.valid r ((CountsOnly.foldl t.entries.values (-1) m.descs).next ▸ hr)
        have h₂ := refs_remove hg r
        omega

end FdsOk

/-! ### New files -/

/-- `n` new descriptions, each with one entry and an id of the manager. -/
structure Grows (m m' : FDTableManager) (n : Nat) : Prop where
  next : m'.descs.next = m.descs.next + n
  old : ∀ r, ¬ (m.descs.next ≤ r ∧ r < m.descs.next + n) → m'.descs.objs r = m.descs.objs r
  fresh : ∀ i < n, (m'.descs.objs (m.descs.next + i)).refCount = 1 ∧
    (m'.descs.objs (m.descs.next + i)).id = m.nextDescriptionId + i
  refs : ∀ r, m'.refs r = m.refs r + if m.descs.next ≤ r ∧ r < m.descs.next + n then 1 else 0

theorem Grows.ok {m m' : FDTableManager} {n : Nat} (h : Grows m m' n) (hm : FdsOk m) :
    FdsOk m' := by
  refine ⟨fun r => ?_, fun r hr => ?_⟩
  · by_cases hn : m.descs.next ≤ r ∧ r < m.descs.next + n
    · have hr : r = m.descs.next + (r - m.descs.next) := by omega
      have hc := (h.fresh (r - m.descs.next) (by omega)).1
      rw [← hr] at hc
      rw [hc, h.refs, hm.valid r hn.1, if_pos hn]
      rfl
    · rw [h.old r hn, h.refs, if_neg hn]
      exact hm.counts r
  · rw [h.next] at hr
    rw [h.refs, hm.valid r (by omega), if_neg (by omega)]

/-- A new description may be changed further. -/
theorem Grows.modify {m m' : FDTableManager} {n r : Nat} (h : Grows m m' n)
    (hr : m.descs.next ≤ r ∧ r < m.descs.next + n) {f : FileDescription → FileDescription}
    (hf : ∀ d, (f d).refCount = d.refCount ∧ (f d).id = d.id) :
    Grows m { m' with descs := m'.descs.modify r f } n := by
  refine ⟨h.next, fun x hx => ?_, fun i hi => ?_, h.refs⟩
  · have hne : x ≠ r := fun e => hx (e ▸ hr)
    exact (update_of_ne hne _ _).trans (h.old x hx)
  · simp only [Descs.modify]
    by_cases he : m.descs.next + i = r
    · rw [he, update_self, (hf _).1, (hf _).2, ← he]
      exact h.fresh i hi
    · rw [update_of_ne he]
      exact h.fresh i hi

namespace FDTableManager

variable {m m' : FDTableManager} {pid : Nat} {t : ProcessFDTable}

theorem openIn_grows {path : String} {flags : Flags} {filetype fd r : Nat}
    (hg : m.get pid = some t) (ho : m.openIn pid t path flags filetype = .ok (fd, r, m')) :
    Grows m m' 1 ∧ r = m.descs.next ∧ ∀ pid', pid' ≠ pid → m'.get pid' = m.get pid' := by
  cases ha : t.allocateFd with
  | error e => simp [openIn, ha, bind, Except.bind] at ho
  | ok p =>
      obtain ⟨fd₀, t'⟩ := p
      obtain ⟨hn, he⟩ := ProcessFDTable.allocateFd_ok ha
      have hn' : t'.get fd₀ = none := by rw [ProcessFDTable.get, he]; exact hn
      simp only [openIn, ha, bind, Except.bind, pure, Except.pure, allocDesc, alloc,
        Except.ok.injEq, Prod.mk.injEq] at ho
      obtain ⟨-, rfl, rfl⟩ := ho
      refine ⟨⟨rfl, fun x hx => ?_, fun i hi => ?_, fun x => ?_⟩, rfl,
        fun pid' hp => m.tables.get_set_other hp _⟩
      · refine update_of_ne ?_ _ _
        omega
      · obtain rfl : i = 0 := by omega
        simp [setTable]
      · have hs := m.tables.sumBy_set (fun _ t => t.refs x) pid
          (t'.setEntry fd₀ ⟨m.descs.next, filetype, flags.has O_CLOEXEC⟩)
        rw [weight, show m.tables.get pid = some t from hg] at hs
        simp only [ProcessFDTable.refs_setEntry hn', ProcessFDTable.refs_congr he] at hs
        have hx : (m.descs.next = x) ↔ (m.descs.next ≤ x ∧ x < m.descs.next + 1) := by omega
        rw [← if_congr hx rfl rfl]
        have h' : (m.tables.set pid (t'.setEntry fd₀
            ⟨m.descs.next, filetype, flags.has O_CLOEXEC⟩)).sumBy (fun _ t => t.refs x) =
            m.tables.sumBy (fun _ t => t.refs x) + if m.descs.next = x then 1 else 0 := by omega
        exact h'

theorem create_grows (hg : m.get pid = none) :
    Grows m (m.create pid) 3 ∧ ∀ pid', pid' ≠ pid → (m.create pid).get pid' = m.get pid' := by
  refine ⟨⟨rfl, fun x hx => ?_, fun i hi => ?_, fun x => ?_⟩,
    fun pid' hp => m.tables.get_set_other hp _⟩
  · show update (update (update _ _ _) _ _) _ _ x = _
    dsimp only
    rw [update_of_ne (by omega), update_of_ne (by omega),
      update_of_ne (by omega)]
  · have hi' : i = 0 ∨ i = 1 ∨ i = 2 := by omega
    rcases hi' with rfl | rfl | rfl <;>
      simp [create, allocDesc, alloc, setTable, Nat.add_assoc]
  · have hs := m.tables.sumBy_set (fun _ t => t.refs x) pid
      (ProcessFDTable.new.initStdio m.descs.next (m.descs.next + 1) (m.descs.next + 2))
    rw [weight, show m.tables.get pid = none from hg] at hs
    have hstd : (ProcessFDTable.new.initStdio m.descs.next (m.descs.next + 1)
        (m.descs.next + 2)).refs x =
        if m.descs.next ≤ x ∧ x < m.descs.next + 3 then 1 else 0 := by
      unfold ProcessFDTable.initStdio
      rw [ProcessFDTable.refs_setEntry rfl, ProcessFDTable.refs_setEntry rfl,
        ProcessFDTable.refs_setEntry rfl, ProcessFDTable.refs_new]
      simp only
      repeat' split
      all_goals omega
    rw [← hstd]
    exact hs

end FDTableManager

end SecureExec.Kernel
