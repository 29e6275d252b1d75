import Mathlib.Data.List.Infix
import Mathlib.Data.List.Nodup

/-!
# Lib — Savepoints — a connection with a stack of savepoints

`Connection N D` is a connection to a database whose contents are a `D`, with its open savepoints,
each with its name and what the contents were when it was opened, the last opened in front.
Savepoints nest by the time they were opened: `release n` closes the savepoint `n` and every one
opened since, `rollbackTo n` goes back to the contents it has kept and closes those opened since,
and both fail when no savepoint `n` is open.

`Connection.Nested`, for a database that is the list of the changes made to it: each savepoint
keeps a beginning of what those opened since have kept, and of the contents.
-/

/-- A connection and its savepoints. -/
structure Connection (N D : Type) where
  data : D
  savepoints : List (N × D)

namespace Connection

variable {N D α : Type}

/-- `SAVEPOINT n`. -/
def savepoint (c : Connection N D) (n : N) : Connection N D :=
  { c with savepoints := (n, c.data) :: c.savepoints }

/-- The names of the open savepoints. -/
def names (c : Connection N D) : List N := c.savepoints.map Prod.fst

section Named
variable [DecidableEq N]

/-- The last opened savepoint `n`, with those opened before it. -/
def openedUpTo (n : N) : List (N × D) → List (N × D)
  | [] => []
  | e :: l => if e.1 = n then e :: l else openedUpTo n l

/-- `RELEASE n`. -/
def release (c : Connection N D) (n : N) : Option (Connection N D) :=
  match openedUpTo n c.savepoints with
  | [] => none
  | _ :: rest => some { c with savepoints := rest }

/-- `ROLLBACK TO n`. -/
def rollbackTo (c : Connection N D) (n : N) : Option (Connection N D) :=
  match openedUpTo n c.savepoints with
  | [] => none
  | e :: rest => some ⟨e.2, e :: rest⟩

/-- What the savepoint `n` has kept, if one is open. -/
def saved (c : Connection N D) (n : N) : Option D :=
  (openedUpTo n c.savepoints).head?.map Prod.snd

variable {n : N} {d : D}

theorem openedUpTo_eq {l : List (N × D)}
    (h : (openedUpTo n l).head?.map Prod.snd = some d) :
    ∃ above rest, l = above ++ (n, d) :: rest ∧ openedUpTo n l = (n, d) :: rest := by
  induction l with
  | nil => cases h
  | cons e l ih =>
      rw [openedUpTo] at h ⊢
      split at h
      · rename_i he
        obtain rfl : e = (n, d) := Prod.ext he (Option.some.inj h)
        exact ⟨[], l, rfl, if_pos he⟩
      · rename_i he
        obtain ⟨above, rest, hl, ho⟩ := ih h
        exact ⟨e :: above, rest, congrArg (e :: ·) hl, (if_neg he).trans ho⟩

/-- **An open savepoint is released** with those opened since. -/
theorem release_eq {c : Connection N D} (h : c.saved n = some d) :
    ∃ above rest, c.savepoints = above ++ (n, d) :: rest ∧
      c.release n = some { c with savepoints := rest } := by
  obtain ⟨above, rest, hs, ho⟩ := openedUpTo_eq h
  exact ⟨above, rest, hs, by rw [release, ho]⟩

/-- **To roll back** brings back what the savepoint has kept. -/
theorem rollbackTo_eq {c : Connection N D} (h : c.saved n = some d) :
    ∃ above rest, c.savepoints = above ++ (n, d) :: rest ∧
      c.rollbackTo n = some ⟨d, (n, d) :: rest⟩ := by
  obtain ⟨above, rest, hs, ho⟩ := openedUpTo_eq h
  exact ⟨above, rest, hs, by rw [rollbackTo, ho]⟩

@[simp] theorem openedUpTo_cons_self (n : N) (d : D) (l : List (N × D)) :
    openedUpTo n ((n, d) :: l) = (n, d) :: l := if_pos rfl

end Named

/-! ### A database that is the list of its changes -/

/-- Each savepoint keeps a beginning of what came after it. -/
def Nested (c : Connection N (List α)) : Prop :=
  (c.data :: c.savepoints.map Prod.snd).Pairwise fun later earlier => earlier <+: later

namespace Nested

variable {c : Connection N (List α)} {n : N} {d : List α}

variable (h : c.Nested)
include h

theorem savepoint : (c.savepoint n).Nested := by
  refine List.pairwise_cons.mpr ⟨fun d hd => ?_, h⟩
  rcases List.mem_cons.mp hd with rfl | hd
  · exact List.prefix_rfl
  · exact List.rel_of_pairwise_cons h hd

/-- A change is made. -/
theorem append (l : List α) :
    ({ c with data := c.data ++ l } : Connection N _).Nested :=
  List.pairwise_cons.mpr
    ⟨fun _ hd => (List.rel_of_pairwise_cons h hd).trans (List.prefix_append _ _),
      (List.pairwise_cons.mp h).2⟩

variable {above rest : List (N × List α)}

/-- Savepoints are closed. -/
theorem drop (hs : c.savepoints = above ++ rest) :
    ({ c with savepoints := rest } : Connection N _).Nested := by
  refine h.sublist (List.Sublist.cons_cons _ (List.Sublist.map _ ?_))
  rw [hs]
  exact List.sublist_append_right _ _

/-- The contents go back to what a savepoint has kept. -/
theorem back (hs : c.savepoints = above ++ (n, d) :: rest) :
    (⟨d, rest⟩ : Connection N (List α)).Nested := by
  have hsub : (d :: rest.map Prod.snd).Sublist (c.savepoints.map Prod.snd) := by
    rw [hs, List.map_append]
    exact List.sublist_append_right _ _
  exact (List.pairwise_cons.mp h).2.sublist hsub

/-- The contents are what a savepoint has kept and what came after. -/
theorem data_eq [DecidableEq N] (hd : c.saved n = some d) :
    d ++ c.data.drop d.length = c.data := by
  obtain ⟨above, rest, hs, -⟩ := openedUpTo_eq hd
  have hp : d <+: c.data := List.rel_of_pairwise_cons h (by rw [hs]; simp)
  exact List.prefix_iff_eq_append.mp hp

end Nested

end Connection
