import Mathlib.Data.List.Nodup
import Mathlib.Data.List.Perm.Basic

/-!
# Lib — Ledger — requests, and the answers that arrive for them

A party issues requests, each under an identifier of its own, and messages arrive for it, some of
which answer a request.  What happened is a list of `Entry`s.  A message is in transit between its
arrival and the moment the party looks at it; a request is open until it is completed by its answer
or abandoned.

* `Balanced`: the messages in transit and the open requests are the ones that the entries say.
* One rule for each thing that can happen: `issue`, `arrive`, `complete`, `drop`, `abandon`.
-/

namespace Ledger

variable {I F : Type}

inductive Entry (I F : Type) where
  | issued (i : I)
  | arrived (f : F)
  | completed (i : I) (f : F)
  | abandoned (i : I)
  deriving DecidableEq

def Entry.completed? : Entry I F → Option I
  | .completed i _ => some i
  | _ => none

/-- The requests that were completed. -/
def completions (es : List (Entry I F)) : List I := es.filterMap Entry.completed?

/-- `transit` and `opens` are the messages and requests that `es` leaves, where `answers f` is the
request that the message `f` answers. -/
structure Balanced (answers : F → Option I) (transit : List F) (opens : List I)
    (es : List (Entry I F)) : Prop where
  transitNodup : (transit.filterMap answers).Nodup
  transitArrived : ∀ f ∈ transit, .arrived f ∈ es
  transitOpen : ∀ f ∈ transit, ∀ i, answers f = some i → i ∉ completions es
  opensNodup : opens.Nodup
  opensIssued : ∀ i ∈ opens, .issued i ∈ es ∧ i ∉ completions es
  /-- A request is open until it is completed or abandoned. -/
  issued : ∀ i, .issued i ∈ es → i ∈ opens ∨ i ∈ completions es ∨ .abandoned i ∈ es
  /-- An answer is in transit until it completes its request, if that is not abandoned. -/
  arrived : ∀ f i, .arrived f ∈ es → answers f = some i →
    .issued i ∈ es ∧ (.completed i f ∈ es ∨ f ∈ transit ∨ .abandoned i ∈ es)
  completed : ∀ i f, .completed i f ∈ es → answers f = some i ∧ .arrived f ∈ es
  /-- No request is completed twice. -/
  once : (completions es).Nodup

section Completions

variable (es : List (Entry I F))

@[simp] theorem completions_append (es' : List (Entry I F)) :
    completions (es ++ es') = completions es ++ completions es' := List.filterMap_append

/-- An entry of another kind. -/
theorem completions_other {e : Entry I F} (h : e.completed? = none) :
    completions (es ++ [e]) = completions es := by
  rw [completions_append, completions, completions, List.filterMap_cons_none h,
    List.filterMap_nil, List.append_nil]

theorem mem_completions {i : I} : i ∈ completions es ↔ ∃ f, .completed i f ∈ es := by
  rw [completions, List.mem_filterMap]
  constructor
  · rintro ⟨e, he, hi⟩
    cases e with
    | completed j f => cases hi; exact ⟨f, he⟩
    | _ => cases hi
  · rintro ⟨f, hf⟩
    exact ⟨_, hf, rfl⟩

end Completions

namespace Balanced

variable {answers : F → Option I} {transit transit' : List F} {opens opens' : List I}
  {es : List (Entry I F)}

theorem empty : Balanced answers [] [] ([] : List (Entry I F)) where
  transitNodup := List.nodup_nil
  transitArrived := by simp
  transitOpen := by simp
  opensNodup := List.nodup_nil
  opensIssued := by simp
  issued := by simp
  arrived := by simp
  completed := by simp
  once := List.nodup_nil

variable (b : Balanced answers transit opens es)
include b

/-- The order in which messages and requests are held does not matter. -/
theorem perm (ht : transit.Perm transit')
    (ho : opens.Perm opens') : Balanced answers transit' opens' es where
  transitNodup := (ht.filterMap answers).nodup_iff.mp b.transitNodup
  transitArrived f hf := b.transitArrived f (ht.mem_iff.mpr hf)
  transitOpen f hf := b.transitOpen f (ht.mem_iff.mpr hf)
  opensNodup := ho.nodup_iff.mp b.opensNodup
  opensIssued i hi := b.opensIssued i (ho.mem_iff.mpr hi)
  issued i hi := (b.issued i hi).imp_left ho.mem_iff.mp
  arrived f i hf hi := (b.arrived f i hf hi).imp_right (.imp_right (.imp_left ht.mem_iff.mp))
  completed := b.completed
  once := b.once

/-- An entry that is no arrival and completes nothing. -/
theorem append {e : Entry I F} (he : e.completed? = none)
    (harr : ∀ f, e ≠ .arrived f) (hnodup : opens'.Nodup)
    (hopens : ∀ i ∈ opens', .issued i ∈ es ++ [e] ∧ i ∉ completions es)
    (hissued : ∀ i, .issued i ∈ es ++ [e] →
      i ∈ opens' ∨ i ∈ completions es ∨ .abandoned i ∈ es ++ [e]) :
    Balanced answers transit opens' (es ++ [e]) where
  transitNodup := b.transitNodup
  transitArrived f hf := List.mem_append_left _ (b.transitArrived f hf)
  transitOpen f hf j hj := by
    rw [completions_other es he]
    exact b.transitOpen f hf j hj
  opensNodup := hnodup
  opensIssued := by rwa [completions_other es he]
  issued := by rwa [completions_other es he]
  arrived f j hf hj := by
    have hold := (List.mem_append.mp hf).resolve_right fun h => harr f (List.mem_singleton.mp h).symm
    obtain ⟨hiss, h⟩ := b.arrived f j hold hj
    exact ⟨List.mem_append_left _ hiss, h.imp (List.mem_append_left _)
      (.imp_right (List.mem_append_left _))⟩
  completed j f hf := by
    rcases List.mem_append.mp hf with hf | hf
    · obtain ⟨ha, harr⟩ := b.completed j f hf
      exact ⟨ha, List.mem_append_left _ harr⟩
    · cases List.mem_singleton.mp hf
      cases he
  once := by rw [completions_other es he]; exact b.once

/-- A request that was not issued before. -/
theorem issue {i : I} (hi : .issued i ∉ es) :
    Balanced answers transit (i :: opens) (es ++ [.issued i]) := by
  refine b.append rfl nofun (List.nodup_cons.mpr ⟨fun h => hi (b.opensIssued i h).1, b.opensNodup⟩)
    (fun j hj => ?_) fun j hj => ?_
  · rcases List.mem_cons.mp hj with rfl | hj
    · refine ⟨List.mem_append_right _ List.mem_cons_self, fun hc => ?_⟩
      obtain ⟨f, hf⟩ := (mem_completions es).mp hc
      obtain ⟨ha, harr⟩ := b.completed j f hf
      exact hi (b.arrived f j harr ha).1
    · exact (b.opensIssued j hj).imp_left (List.mem_append_left _)
  · rcases List.mem_append.mp hj with hj | hj
    · exact (b.issued j hj).imp (List.mem_cons_of_mem _) (.imp_right (List.mem_append_left _))
    · cases List.mem_singleton.mp hj
      exact .inl List.mem_cons_self

/-- A message arrives: no answer, or the first answer to a request that was issued. -/
theorem arrive {f : F}
    (hf : ∀ i, answers f = some i →
      .issued i ∈ es ∧ ∀ g, answers g = some i → .arrived g ∉ es) :
    Balanced answers (f :: transit) opens (es ++ [.arrived f]) where
  transitNodup := by
    cases ha : answers f with
    | none => rw [List.filterMap_cons_none ha]; exact b.transitNodup
    | some i =>
        rw [List.filterMap_cons_some ha]
        refine List.nodup_cons.mpr ⟨?_, b.transitNodup⟩
        intro hmem
        obtain ⟨g, hg, hgi⟩ := List.mem_filterMap.mp hmem
        exact (hf i ha).2 g hgi (b.transitArrived g hg)
  transitArrived g hg := by
    rcases List.mem_cons.mp hg with rfl | hg
    · exact List.mem_append_right _ List.mem_cons_self
    · exact List.mem_append_left _ (b.transitArrived g hg)
  transitOpen g hg i hi := by
    have hold : i ∉ completions es := by
      rcases List.mem_cons.mp hg with rfl | hg
      · intro hc
        obtain ⟨g', hg'⟩ := (mem_completions es).mp hc
        obtain ⟨ha, harr⟩ := b.completed i g' hg'
        exact (hf i hi).2 g' ha harr
      · exact b.transitOpen g hg i hi
    rw [completions_other es rfl]
    exact hold
  opensNodup := b.opensNodup
  opensIssued i hi := by
    obtain ⟨hiss, hc⟩ := b.opensIssued i hi
    exact ⟨List.mem_append_left _ hiss, by rw [completions_other es rfl]; exact hc⟩
  issued i hi := by
    rcases b.issued i (by simpa using hi) with h | h | h
    · exact .inl h
    · exact .inr (.inl (by rw [completions_other es rfl]; exact h))
    · exact .inr (.inr (List.mem_append_left _ h))
  arrived g i hg hi := by
    rcases List.mem_append.mp hg with hg | hg
    · obtain ⟨hiss, h⟩ := b.arrived g i hg hi
      exact ⟨List.mem_append_left _ hiss, h.imp (List.mem_append_left _)
        (.imp (List.mem_cons_of_mem _) (List.mem_append_left _))⟩
    · cases List.mem_singleton.mp hg
      exact ⟨List.mem_append_left _ (hf i hi).1, .inr (.inl List.mem_cons_self)⟩
  completed i g hg := by
    obtain ⟨ha, harr⟩ := b.completed i g (by simpa using hg)
    exact ⟨ha, List.mem_append_left _ harr⟩
  once := by rw [completions_other es rfl]; exact b.once

/-- An answer in transit completes its request. -/
theorem complete [DecidableEq I] {f : F} {i : I}
    (ht : transit.Perm (f :: transit')) (hf : answers f = some i) (hi : i ∈ opens) :
    Balanced answers transit' (opens.erase i) (es ++ [.completed i f]) := by
  have b' := b.perm ht (List.Perm.refl _)
  have hnodup := b'.transitNodup
  rw [List.filterMap_cons_some hf, List.nodup_cons] at hnodup
  obtain ⟨hiss, hnew⟩ := b.opensIssued i hi
  have hc : ∀ j, j ∈ completions (es ++ [.completed i f]) ↔ j ∈ completions es ∨ j = i := by
    intro j
    simp [completions, Entry.completed?]
  refine ⟨hnodup.2, ?_, ?_, b.opensNodup.erase i, ?_, ?_, ?_, ?_, ?_⟩
  · intro g hg
    exact List.mem_append_left _ (b'.transitArrived g (List.mem_cons_of_mem _ hg))
  · intro g hg j hj hmem
    rcases (hc j).mp hmem with h | rfl
    · exact b'.transitOpen g (List.mem_cons_of_mem _ hg) j hj h
    · exact hnodup.1 (List.mem_filterMap.mpr ⟨g, hg, hj⟩)
  · intro j hj
    obtain ⟨hne, hj⟩ := (b.opensNodup.mem_erase_iff).mp hj
    obtain ⟨hj', hcj⟩ := b.opensIssued j hj
    refine ⟨List.mem_append_left _ hj', fun hmem => ?_⟩
    rcases (hc j).mp hmem with h | h
    · exact hcj h
    · exact hne h
  · intro j hj
    rw [hc]
    rcases b.issued j (by simpa using hj) with h | h | h
    · by_cases hji : j = i
      · exact .inr (.inl (.inr hji))
      · exact .inl ((List.mem_erase_of_ne hji).mpr h)
    · exact .inr (.inl (.inl h))
    · exact .inr (.inr (List.mem_append_left _ h))
  · intro g j hg hj
    obtain ⟨hj', h⟩ := b'.arrived g j (by simpa using hg) hj
    refine ⟨List.mem_append_left _ hj', ?_⟩
    rcases h with h | h | h
    · exact .inl (List.mem_append_left _ h)
    · rcases List.mem_cons.mp h with rfl | h
      · cases hf.symm.trans hj
        exact .inl (List.mem_append_right _ List.mem_cons_self)
      · exact .inr (.inl h)
    · exact .inr (.inr (List.mem_append_left _ h))
  · intro j g hg
    rcases List.mem_append.mp hg with hg | hg
    · obtain ⟨ha, harr⟩ := b.completed j g hg
      exact ⟨ha, List.mem_append_left _ harr⟩
    · cases List.mem_singleton.mp hg
      exact ⟨hf, List.mem_append_left _ (b'.transitArrived f List.mem_cons_self)⟩
  · rw [completions_append]
    refine List.nodup_append.mpr ⟨b.once, List.nodup_singleton i, ?_⟩
    rintro j hj k hk rfl
    cases List.mem_singleton.mp hk
    exact hnew hj

/-- A message in transit is passed over: it answers no open request. -/
theorem drop {f : F}
    (ht : transit.Perm (f :: transit')) (hf : ∀ i, answers f = some i → i ∉ opens) :
    Balanced answers transit' opens es := by
  have b' := b.perm ht (List.Perm.refl _)
  refine ⟨?_, ?_, ?_, b.opensNodup, b.opensIssued, b.issued, ?_, b.completed, b.once⟩
  · exact b'.transitNodup.sublist ((List.sublist_cons_self f transit').filterMap answers)
  · intro g hg
    exact b'.transitArrived g (List.mem_cons_of_mem _ hg)
  · intro g hg
    exact b'.transitOpen g (List.mem_cons_of_mem _ hg)
  · intro g i hg hi
    obtain ⟨hiss, h⟩ := b'.arrived g i hg hi
    refine ⟨hiss, ?_⟩
    rcases h with h | h | h
    · exact .inl h
    · rcases List.mem_cons.mp h with rfl | h
      · -- its request is settled, and not by an answer that is still in transit
        rcases b.issued i hiss with ho | hc | ha
        · exact absurd ho (hf i hi)
        · exact absurd hc (b'.transitOpen g List.mem_cons_self i hi)
        · exact .inr (.inr ha)
      · exact .inr (.inl h)
    · exact .inr (.inr h)

/-- A request is given up. -/
theorem abandon [DecidableEq I] (i : I) :
    Balanced answers transit (opens.erase i) (es ++ [.abandoned i]) := by
  refine b.append rfl nofun (b.opensNodup.erase i) (fun j hj => ?_) fun j hj => ?_
  · exact (b.opensIssued j (List.mem_of_mem_erase hj)).imp_left (List.mem_append_left _)
  · rcases b.issued j (by simpa using hj) with h | h | h
    · by_cases hji : j = i
      · subst hji
        exact .inr (.inr (List.mem_append_right _ List.mem_cons_self))
      · exact .inl ((List.mem_erase_of_ne hji).mpr h)
    · exact .inr (.inl h)
    · exact .inr (.inr (List.mem_append_left _ h))

end Balanced

end Ledger
