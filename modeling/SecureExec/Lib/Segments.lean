import Mathlib.Data.List.Basic

/-!
# Lib — Segments — separated words and the paths they spell

A word over `α` is cut at every `sep` into its segments.  The segments `here` and `up` are
special: a walk over the segments passes over `here`, goes back one step at `up`, and takes every
other segment as a step.

* `squeeze sep w`: `w` with each run of separators as one; it has the segments of `w` but for the
  empty ones in between (`splitOn_squeeze`).
* `walk`: the steps that are left.  Walks over the same segments are the same whatever is done
  about the empty ones (`walk_nonempty`, `walk_rooted`), they are made of steps (`walk_steps`), and
  a walk over steps takes them all (`walk_of_steps`).
* `join`, `parts`: the word that spells a list of steps, and the steps a word spells.
-/

namespace Segments

variable {α : Type} {sep : α} {here up seg : List α} {w : List α}
  {segs steps : List (List α)} {skips : Bool} {keep : Nat}

/-! ### Runs of separators -/

/-- The segments but for the empty ones before the last. -/
def squeezed (segs : List (List α)) : List (List α) :=
  segs.dropLast.filter (· ≠ []) ++ segs.getLast?.toList

theorem squeezed_cons (h : segs ≠ []) :
    squeezed (seg :: segs) = (if seg = [] then [] else [seg]) ++ squeezed segs := by
  obtain ⟨a, l, rfl⟩ := List.exists_cons_of_ne_nil h
  by_cases hs : seg = []
  · simp [squeezed, hs]
  · simp [squeezed, hs]

theorem filter_squeezed (segs : List (List α)) :
    (squeezed segs).filter (· ≠ []) = segs.filter (· ≠ []) := by
  induction segs with
  | nil => rfl
  | cons seg segs ih =>
      by_cases hn : segs = []
      · simp [hn, squeezed]
      · rw [squeezed_cons hn, List.filter_append, ih]
        by_cases hs : seg = []
        · simp [hs]
        · simp [hs]

section Split
variable [DecidableEq α]

/-- Each run of separators becomes one. -/
def squeeze (sep : α) : List α → List α
  | [] => []
  | c :: t => if c = sep ∧ t.head? = some sep then squeeze sep t else c :: squeeze sep t

theorem splitOn_cons_sep (w : List α) : (sep :: w).splitOn sep = [] :: w.splitOn sep := by
  rw [List.splitOn_cons_eq_if_modifyHead, if_pos (BEq.rfl)]

theorem splitOn_cons_other {c : α} (h : c ≠ sep) (w : List α) :
    (c :: w).splitOn sep = (w.splitOn sep).modifyHead (c :: ·) := by
  rw [List.splitOn_cons_eq_if_modifyHead, if_neg (by simpa using h)]

/-- The first segment and the others. -/
theorem exists_splitOn (sep : α) (w : List α) : ∃ a l, w.splitOn sep = a :: l :=
  List.exists_cons_of_ne_nil (List.splitOn_ne_nil sep w)

theorem head_splitOn_eq_nil (h : w.splitOn sep = [] :: segs) : w = [] ∨ w.head? = some sep := by
  cases w with
  | nil => exact .inl rfl
  | cons c t =>
      by_cases hc : c = sep
      · exact .inr (congrArg some hc)
      · obtain ⟨a, l, hal⟩ := exists_splitOn sep t
        rw [splitOn_cons_other hc, hal, List.modifyHead_cons] at h
        cases h

/-- The segments of a squeezed word. -/
theorem splitOn_squeeze (sep : α) (w : List α) : ∀ a l, w.splitOn sep = a :: l →
    (squeeze sep w).splitOn sep = a :: squeezed l := by
  induction w with
  | nil =>
      intro a l h
      cases h
      rfl
  | cons c t ih =>
      intro a l h
      obtain ⟨b, m, hbm⟩ := exists_splitOn sep t
      by_cases hc : c = sep
      · subst hc
        rw [splitOn_cons_sep, hbm] at h
        cases h
        rw [squeeze]
        split
        · rename_i hh
          -- the next one is a separator too
          obtain ⟨t', rfl⟩ : ∃ t', t = c :: t' := by
            cases t with
            | nil => cases hh.2
            | cons d t' => exact ⟨t', by rw [Option.some.inj hh.2]⟩
          rw [splitOn_cons_sep] at hbm
          cases hbm
          rw [ih [] _ (splitOn_cons_sep t'), squeezed_cons (List.splitOn_ne_nil c t')]
          simp
        · rename_i hh
          rw [splitOn_cons_sep, ih b m hbm]
          by_cases hm : m = []
          · simp [hm, squeezed]
          · have hb : b ≠ [] := by
              rintro rfl
              rcases head_splitOn_eq_nil hbm with rfl | hhead
              · cases hbm
                exact hm rfl
              · exact hh ⟨rfl, hhead⟩
            rw [squeezed_cons hm, if_neg hb]
            rfl
      · rw [splitOn_cons_other hc, hbm, List.modifyHead_cons] at h
        cases h
        rw [squeeze, if_neg fun hh => hc hh.1, splitOn_cons_other hc, ih b _ hbm,
          List.modifyHead_cons]

variable (w)

/-- A separator at the end adds an empty segment. -/
theorem splitOn_append_sep : (w ++ [sep]).splitOn sep = w.splitOn sep ++ [[]] :=
  List.splitOn_append_cons_self w []

theorem mem_of_mem_splitOn : ∀ s ∈ w.splitOn sep, sep ∉ s := by
  induction w with
  | nil =>
      intro s hs
      simp_all
  | cons c t ih =>
      intro s hs
      by_cases hc : c = sep
      · rw [hc, splitOn_cons_sep] at hs
        rcases List.mem_cons.mp hs with rfl | hs
        · exact List.not_mem_nil
        · exact ih s hs
      · obtain ⟨a, l, hal⟩ := exists_splitOn sep t
        rw [hal] at ih
        rw [splitOn_cons_other hc, hal, List.modifyHead_cons] at hs
        rcases List.mem_cons.mp hs with rfl | hs
        · simp only [List.mem_cons, not_or]
          exact ⟨Ne.symm hc, ih a List.mem_cons_self⟩
        · exact ih s (List.mem_cons_of_mem _ hs)

end Split

/-! ### Walks -/

/-- The segment is a step of its own. -/
structure IsStep (sep : α) (here up seg : List α) : Prop where
  nonempty : seg ≠ []
  here : seg ≠ here
  up : seg ≠ up
  whole : sep ∉ seg

section Walk
variable [DecidableEq α]

/-- What is left of the segments after `resolved`: `here` is passed over, and so is the empty
segment when the walk `skips`; `up` takes the last step back as long as there are more than `keep`. -/
def walk (here up : List α) (skips : Bool) (keep : Nat) :
    List (List α) → List (List α) → List (List α)
  | resolved, [] => resolved
  | resolved, seg :: segs =>
    if seg = here ∨ (skips = true ∧ seg = []) then walk here up skips keep resolved segs
    else if seg = up then
      walk here up skips keep (if keep < resolved.length then resolved.dropLast else resolved) segs
    else walk here up skips keep (resolved ++ [seg]) segs

theorem walk_append (l : List (List α)) :
    ∀ resolved, walk here up skips keep resolved (segs ++ l) =
      walk here up skips keep (walk here up skips keep resolved segs) l := by
  induction segs with
  | nil => exact fun _ => rfl
  | cons seg segs ih =>
      intro resolved
      simp only [List.cons_append, walk]
      split
      · exact ih _
      · split
        · exact ih _
        · exact ih _

/-- A walk that skips empty segments does not see them. -/
theorem walk_nonempty (segs : List (List α)) :
    ∀ resolved, walk here up true keep resolved (segs.filter (· ≠ [])) =
      walk here up true keep resolved segs := by
  induction segs with
  | nil => exact fun _ => rfl
  | cons seg segs ih =>
      intro resolved
      by_cases hs : seg = []
      · rw [List.filter_cons_of_neg (by simp [hs]), walk, if_pos (.inr ⟨rfl, hs⟩), ih]
      · rw [List.filter_cons_of_pos (by simpa using hs), walk, walk]
        simp only [ih]

/-- A walk that keeps an empty segment in front for the root is the walk without it. -/
theorem walk_rooted : ∀ (segs steps : List (List α)), (∀ s ∈ segs, s ≠ []) →
    walk here up false 1 ([] :: steps) segs = [] :: walk here up true 0 steps segs := by
  intro segs
  induction segs with
  | nil => exact fun _ _ => rfl
  | cons seg segs ih =>
      intro steps h
      have hs : seg ≠ [] := h seg List.mem_cons_self
      have ih' := fun r => ih r fun s hs => h s (List.mem_cons_of_mem _ hs)
      simp only [walk, hs, Bool.false_eq_true, and_false, or_false]
      split
      · exact ih' steps
      · split
        · cases steps with
          | nil => exact ih' []
          | cons a l => simp [← ih']
        · exact ih' (steps ++ [seg])

theorem walk_steps : ∀ (segs steps : List (List α)), (∀ s ∈ segs, sep ∉ s) →
    (∀ s ∈ steps, IsStep sep here up s) →
    ∀ s ∈ walk here up true keep steps segs, IsStep sep here up s := by
  intro segs
  induction segs with
  | nil => exact fun _ _ h => h
  | cons seg segs ih =>
      intro steps hsegs h
      have ih' := fun r => ih r fun s hs => hsegs s (List.mem_cons_of_mem _ hs)
      rw [walk]
      split
      · exact ih' steps h
      · rename_i hne
        obtain ⟨hhere, hnil⟩ := not_or.mp hne
        split
        · refine ih' _ fun s hs => ?_
          split at hs
          · exact h s (List.dropLast_subset _ hs)
          · exact h s hs
        · rename_i hup
          refine ih' _ fun s hs => ?_
          rcases List.mem_append.mp hs with hs | hs
          · exact h s hs
          · obtain rfl := List.mem_singleton.mp hs
            exact ⟨fun h' => hnil ⟨rfl, h'⟩, hhere, hup, hsegs s List.mem_cons_self⟩

/-- A walk over steps takes them all. -/
theorem walk_of_steps : ∀ (segs steps : List (List α)), (∀ s ∈ segs, IsStep sep here up s) →
    walk here up skips keep steps segs = steps ++ segs := by
  intro segs
  induction segs with
  | nil => exact fun steps _ => (List.append_nil steps).symm
  | cons seg segs ih =>
      intro steps h
      have hs := h seg List.mem_cons_self
      rw [walk, if_neg (by simp [hs.here, hs.nonempty]), if_neg hs.up,
        ih _ fun s hs => h s (List.mem_cons_of_mem _ hs), List.append_assoc]
      rfl

end Walk

/-! ### Words that spell steps -/

/-- The word that spells the steps, with a separator before each. -/
def join (sep : α) (steps : List (List α)) : List α := sep :: [sep].intercalate steps

/-- The non-empty segments. -/
def parts [DecidableEq α] (sep : α) (w : List α) : List (List α) := (w.splitOn sep).filter (· ≠ [])

theorem parts_join [DecidableEq α] (h : ∀ s ∈ steps, IsStep sep here up s) : parts sep (join sep steps) = steps := by
  rw [parts, join, splitOn_cons_sep, List.filter_cons_of_neg (by simp)]
  by_cases hn : steps = []
  · simp [hn]
  · rw [List.splitOn_intercalate sep (fun s hs => (h s hs).whole) hn, List.filter_eq_self]
    intro s hs
    simpa using (h s hs).nonempty

/-- A word of steps does not start with a separator. -/
theorem head_intercalate (h : ∀ s ∈ steps, IsStep sep here up s) :
    ([sep].intercalate steps).head? ≠ some sep := by
  cases steps with
  | nil => simp
  | cons a l =>
      have ha := h a List.mem_cons_self
      obtain ⟨c, t, rfl⟩ := List.exists_cons_of_ne_nil ha.nonempty
      intro hc
      refine ha.whole ?_
      cases l with
      | nil =>
          rw [List.intercalate_singleton] at hc
          exact Option.some.inj hc ▸ List.mem_cons_self
      | cons b m =>
          rw [List.intercalate_cons_cons] at hc
          exact Option.some.inj hc ▸ List.mem_cons_self

theorem intercalate_append (a : List α) (l m : List (List α)) (hm : m ≠ []) :
    [sep].intercalate (a :: l ++ m) = [sep].intercalate (a :: l) ++ sep :: [sep].intercalate m := by
  induction l generalizing a with
  | nil =>
      obtain ⟨b, m', rfl⟩ := List.exists_cons_of_ne_nil hm
      simp [List.intercalate_cons_cons]
  | cons b l ih =>
      rw [List.cons_append, List.cons_append, List.intercalate_cons_cons, ← List.cons_append, ih b,
        List.intercalate_cons_cons]
      simp

/-- A word of steps does not end with a separator. -/
theorem getLast_join (h : ∀ s ∈ steps, IsStep sep here up s) (hn : steps ≠ []) :
    (join sep steps).getLast? ≠ some sep := by
  obtain ⟨l, s, rfl⟩ := (List.eq_nil_or_concat steps).resolve_left hn
  have hs : IsStep sep here up s := h s (by simp)
  have hend : ∃ t, join sep (l ++ [s]) = t ++ s := by
    cases l with
    | nil => exact ⟨[sep], by rw [List.nil_append, join, List.intercalate_singleton]; rfl⟩
    | cons a l =>
        refine ⟨sep :: ([sep].intercalate (a :: l) ++ [sep]), ?_⟩
        rw [join, intercalate_append a l [s] (List.cons_ne_nil s [])]
        simp
  obtain ⟨t, ht⟩ := hend
  rw [List.concat_eq_append, ht, List.getLast?_append_of_ne_nil t hs.nonempty]
  intro hlast
  exact hs.whole (List.mem_of_getLast? hlast)

end Segments
