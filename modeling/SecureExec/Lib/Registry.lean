import SecureExec.Lib.PartialMap

/-!
# Lib — Registry — ends that are registered while they are held

Objects are given out as references and held, or not, from outside (`live`).  Some of them are an
end of something: two ends make a group.  A `Registry` knows the ends by a number their object
carries, and which groups it still has.

`Ok` says that an end is registered, and open, exactly while its object is held.  It is kept when
objects that are no ends come and go (`congr`), when a pair of ends is made under numbers nobody
uses (`create`), and when the registry closes the number of an object that nobody holds any more
(`close`), provided no two held objects carry one number.

`Tidy` is about the registry alone: what is registered is open and known.
-/

/-- A registry of ends `ε`. -/
structure Registry (ε : Type) where
  /-- The end that is registered under a number. -/
  reg : Nat → Option ε
  /-- The groups the registry still has. -/
  known : Nat → Bool
  isOpen : ε → Bool
  /-- The next group. -/
  next : Nat

namespace Registry
open Function

variable {ε : Type} {group : ε → Nat} {v v' : Registry ε}

/-- The number `d` is closed: its end is, and a group with an open end stays. -/
structure Closes [DecidableEq ε] (group : ε → Nat) (v v' : Registry ε) (d : Nat) : Prop where
  absent : v.reg d = none → v' = v
  reg : ∀ e, v.reg d = some e → v.known (group e) = true → v'.reg = update v.reg d none
  isOpen : ∀ e, v.reg d = some e → v.known (group e) = true →
    v'.isOpen = update v.isOpen e false
  next : v'.next = v.next
  known : ∀ e, v'.isOpen e = true → v.known (group e) = true → v'.known (group e) = true

/-- A new group with two open ends. -/
structure Creates (group : ε → Nat) (v v' : Registry ε) (d₁ d₂ : Nat) (e₁ e₂ : ε) : Prop where
  groups : group e₁ = v.next ∧ group e₂ = v.next
  ends : e₁ ≠ e₂
  numbers : d₁ ≠ d₂
  reg : v'.reg = update (update v.reg d₁ (some e₁)) d₂ (some e₂)
  isOpen : ∀ e, v'.isOpen e = if group e = v.next then true else v.isOpen e
  known : ∀ n, v'.known n = if n = v.next then true else v.known n
  next : v'.next = v.next + 1

/-! ### A state for each group -/

section States

variable {S α : Type} {side : ε → α} {closed : S → α → Bool} {reg : Nat → Option ε}
  {known : Nat → Bool} {states : Nat → S} {next d : Nat}

/-- The registry of groups that are each a state with closed sides. -/
def ofStates (group : ε → Nat) (side : ε → α) (closed : S → α → Bool) (reg : Nat → Option ε)
    (known : Nat → Bool) (states : Nat → S) (next : Nat) : Registry ε where
  reg := reg
  known := known
  isOpen e := !closed (states (group e)) (side e)
  next := next

/-- Nothing happens to a number that is not registered, or whose group is gone. -/
theorem Closes.same [DecidableEq ε] (h : ∀ e, v.reg d = some e → v.known (group e) = false) :
    Closes group v v d := by
  refine ⟨fun _ => rfl, fun e hd hk => ?_, fun e hd hk => ?_, rfl, fun _ _ hk => hk⟩
  · rw [h e hd] at hk
    cases hk
  · rw [h e hd] at hk
    cases hk

/-- One side of the group is closed, and the group goes with its last one. -/
theorem Closes.ofStates [DecidableEq ε] [DecidableEq α]
    (hext : ∀ e e', group e = group e' → side e = side e' → e = e') {e : ε} {st : S} {both : Bool}
    (hd : reg d = some e)
    (hst : ∀ a, closed st a = (decide (a = side e) || closed (states (group e)) a))
    (hboth : both = true → ∀ a, closed st a = true) :
    Closes group (ofStates group side closed reg known states next)
      (ofStates group side closed (update reg d none)
        (if both then update known (group e) false else known)
        (update states (group e) st) next) d := by
  have hreg : ∀ e', (Registry.ofStates group side closed reg known states next).reg d = some e' →
      e = e' := fun e' h => Option.some.inj (hd.symm.trans h)
  refine ⟨fun h => ?_, fun e' h _ => rfl, fun e' h _ => ?_, rfl, fun e' ho hk => ?_⟩
  · cases hd.symm.trans h
  · obtain rfl := hreg e' h
    funext x
    simp only [Registry.ofStates]
    by_cases hx : x = e
    · subst hx
      rw [update_self, update_self, hst]
      simp
    · rw [update_of_ne hx]
      by_cases hg : group x = group e
      · have hs : side x ≠ side e := fun hs => hx (hext x e hg hs)
        rw [hg, update_self, hst]
        simp [hs]
      · rw [update_of_ne hg]
  · simp only [Registry.ofStates] at ho hk ⊢
    split
    · rename_i hb
      have hg : group e' ≠ group e := by
        intro hg
        rw [hg, update_self, hboth hb] at ho
        cases ho
      rw [update_of_ne hg]
      exact hk
    · exact hk

theorem Creates.ofStates {d₁ d₂ : Nat} {e₁ e₂ : ε} {st : S}
    (hg : group e₁ = next ∧ group e₂ = next) (he : e₁ ≠ e₂) (hd : d₁ ≠ d₂)
    (hst : ∀ a, closed st a = false) :
    Creates group (ofStates group side closed reg known states next)
      (ofStates group side closed
        (update (update reg d₁ (some e₁)) d₂ (some e₂))
        (update known next true) (update states next st) (next + 1))
      d₁ d₂ e₁ e₂ := by
  refine ⟨hg, he, hd, rfl, fun e => ?_, fun n => update_apply .., rfl⟩
  show (!closed (update states next st (group e)) (side e)) =
    if group e = next then true else !closed (states (group e)) (side e)
  rw [update_apply]
  by_cases hn : group e = next
  · rw [if_pos hn, if_pos hn, hst]
    rfl
  · rw [if_neg hn, if_neg hn]

end States

/-! ### The invariant -/

/-- Each end is registered and open exactly while its object is held. -/
structure Ok (group : ε → Nat) (v : Registry ε) (ends : Nat → Option ε) (live : Nat → Prop)
    (id : Nat → Nat) : Prop where
  inj : ∀ r r' e, ends r = some e → ends r' = some e → r = r'
  bound : ∀ r e, ends r = some e → group e < v.next
  held : ∀ d e, v.reg d = some e → ∃ r, live r ∧ id r = d ∧ ends r = some e
  reg : ∀ r e, live r → ends r = some e → v.reg (id r) = some e
  known : ∀ r e, live r → ends r = some e → v.known (group e) = true
  isOpen : ∀ r e, ends r = some e → (v.isOpen e = true ↔ live r)

namespace Ok

variable {ends ends' : Nat → Option ε} {live live' : Nat → Prop} {id id' : Nat → Nat}

variable (h : Ok group v ends live id)
include h

/-- An end is registered under the number of its object exactly while this is held. -/
theorem reg_iff {r : Nat} {e : ε} (he : ends r = some e) :
    v.reg (id r) = some e ↔ live r := by
  refine ⟨fun hr => ?_, fun hl => h.reg r e hl he⟩
  obtain ⟨r', hl, -, he'⟩ := h.held _ _ hr
  exact h.inj r r' e he he' ▸ hl

/-- Objects that are no ends may come and go. -/
theorem congr (hl : ∀ r e, ends r = some e → (live' r ↔ live r))
    (hi : ∀ r e, ends r = some e → live r → id' r = id r) : Ok group v ends live' id' where
  inj := h.inj
  bound := h.bound
  held d e hd := by
    obtain ⟨r, hr, hid, he⟩ := h.held d e hd
    exact ⟨r, (hl r e he).mpr hr, (hi r e he hr).trans hid, he⟩
  reg r e hr he := by
    have hr' := (hl r e he).mp hr
    rw [hi r e he hr']
    exact h.reg r e hr' he
  known r e hr he := h.known r e ((hl r e he).mp hr) he
  isOpen r e he := (h.isOpen r e he).trans (hl r e he).symm

/-- A pair of ends is made under numbers nobody uses. -/
theorem create {r₁ r₂ d₁ d₂ : Nat} {e₁ e₂ : ε} (hc : Creates group v v' d₁ d₂ e₁ e₂)
    (hends : ends' = update (update ends r₁ (some e₁)) r₂ (some e₂))
    (hne : r₁ ≠ r₂) (hn : ends r₁ = none ∧ ends r₂ = none)
    (hl : ∀ r, live' r ↔ live r ∨ r = r₁ ∨ r = r₂) (hid : id' r₁ = d₁ ∧ id' r₂ = d₂)
    (hi : ∀ r, live r → id' r = id r) (hd : ∀ r, live r → id r ≠ d₁ ∧ id r ≠ d₂) :
    Ok group v' ends' live' id' := by
  -- an end is one of the two new ones or was there, and so is what is registered
  have hends' : ∀ r e, ends' r = some e ↔
      (r = r₁ ∧ e = e₁) ∨ (r = r₂ ∧ e = e₂) ∨ (r ≠ r₁ ∧ r ≠ r₂ ∧ ends r = some e) := fun r e => by
    rw [hends, PartialMap.setPair_eq_some hne]
  have hreg' : ∀ d e, v'.reg d = some e ↔
      (d = d₁ ∧ e = e₁) ∨ (d = d₂ ∧ e = e₂) ∨ (d ≠ d₁ ∧ d ≠ d₂ ∧ v.reg d = some e) := fun d e => by
    rw [hc.reg, PartialMap.setPair_eq_some hc.numbers]
  have hgroup : ∀ r e, ends r = some e → group e ≠ v.next :=
    fun r e he => Nat.ne_of_lt (h.bound r e he)
  have hlive : ∀ r, live' r → r ≠ r₁ → r ≠ r₂ → live r := fun r hr hr₁ hr₂ =>
    ((hl r).mp hr).resolve_right fun h => h.elim hr₁ hr₂
  refine ⟨fun r r' e he he' => ?_, fun r e he => ?_, fun d e hde => ?_, fun r e hr he => ?_,
    fun r e hr he => ?_, fun r e he => ?_⟩
  · rcases (hends' r e).mp he with ⟨rfl, rfl⟩ | ⟨rfl, rfl⟩ | ⟨-, -, ho⟩ <;>
      rcases (hends' r' _).mp he' with ⟨rfl, hee⟩ | ⟨rfl, hee⟩ | ⟨-, -, ho'⟩
    · rfl
    · exact absurd hee hc.ends
    · exact absurd hc.groups.1 (hgroup _ _ ho')
    · exact absurd hee.symm hc.ends
    · rfl
    · exact absurd hc.groups.2 (hgroup _ _ ho')
    · exact absurd (hee ▸ hc.groups.1) (hgroup _ _ ho)
    · exact absurd (hee ▸ hc.groups.2) (hgroup _ _ ho)
    · exact h.inj r r' e ho ho'
  · rw [hc.next]
    rcases (hends' r e).mp he with ⟨-, rfl⟩ | ⟨-, rfl⟩ | ⟨-, -, ho⟩
    · exact hc.groups.1 ▸ Nat.lt_succ_self _
    · exact hc.groups.2 ▸ Nat.lt_succ_self _
    · exact Nat.lt_succ_of_lt (h.bound r e ho)
  · rcases (hreg' d e).mp hde with ⟨rfl, rfl⟩ | ⟨rfl, rfl⟩ | ⟨-, -, ho⟩
    · exact ⟨r₁, (hl r₁).mpr (.inr (.inl rfl)), hid.1, (hends' _ _).mpr (.inl ⟨rfl, rfl⟩)⟩
    · exact ⟨r₂, (hl r₂).mpr (.inr (.inr rfl)), hid.2, (hends' _ _).mpr (.inr (.inl ⟨rfl, rfl⟩))⟩
    · obtain ⟨r, hr, hrd, hre⟩ := h.held d e ho
      refine ⟨r, (hl r).mpr (.inl hr), (hi r hr).trans hrd,
        (hends' r e).mpr (.inr (.inr ⟨?_, ?_, hre⟩))⟩
      · rintro rfl
        cases hn.1.symm.trans hre
      · rintro rfl
        cases hn.2.symm.trans hre
  · rw [hreg']
    rcases (hends' r e).mp he with ⟨rfl, rfl⟩ | ⟨rfl, rfl⟩ | ⟨hr₁, hr₂, ho⟩
    · exact .inl ⟨hid.1, rfl⟩
    · exact .inr (.inl ⟨hid.2, rfl⟩)
    · have hr' := hlive r hr hr₁ hr₂
      rw [hi r hr']
      exact .inr (.inr ⟨(hd r hr').1, (hd r hr').2, h.reg r e hr' ho⟩)
  · rw [hc.known]
    split
    · rfl
    · rename_i hg
      rcases (hends' r e).mp he with ⟨-, rfl⟩ | ⟨-, rfl⟩ | ⟨hr₁, hr₂, ho⟩
      · exact absurd hc.groups.1 hg
      · exact absurd hc.groups.2 hg
      · exact h.known r e (hlive r hr hr₁ hr₂) ho
  · rw [hc.isOpen]
    rcases (hends' r e).mp he with ⟨rfl, rfl⟩ | ⟨rfl, rfl⟩ | ⟨hr₁, hr₂, ho⟩
    · rw [if_pos hc.groups.1]
      exact ⟨fun _ => (hl _).mpr (.inr (.inl rfl)), fun _ => rfl⟩
    · rw [if_pos hc.groups.2]
      exact ⟨fun _ => (hl _).mpr (.inr (.inr rfl)), fun _ => rfl⟩
    · rw [if_neg (hgroup r e ho), h.isOpen r e ho, hl]
      exact ⟨.inl, fun hr => hlive r ((hl r).mpr hr) hr₁ hr₂⟩

/-- The number of an object is closed that nobody holds any more. -/
theorem close [DecidableEq ε] {r : Nat}
    (hu : ∀ x, live x → id x = id r → x = r) (hc : Closes group v v' (id r)) :
    Ok group v' ends (fun x => live x ∧ x ≠ r) id := by
  cases hreg : v.reg (id r) with
  | none =>
      -- `r` is not held, or is no end
      have hne : ∀ x e, ends x = some e → live x → x ≠ r := by
        rintro x e he hl rfl
        rw [h.reg x e hl he] at hreg
        cases hreg
      rw [hc.absent hreg]
      exact h.congr (fun x e he => ⟨And.left, fun hl => ⟨hl, hne x e he hl⟩⟩)
        fun _ _ _ _ => rfl
  | some e =>
      obtain ⟨r', hl, hid, he⟩ := h.held _ e hreg
      obtain rfl : r' = r := hu r' hl hid
      have hk := h.known r' e hl he
      have hreg' := hc.reg e hreg hk
      have hopen' := hc.isOpen e hreg hk
      have hother : ∀ x e', ends x = some e' → x ≠ r' → e' ≠ e := by
        rintro x e' hx hne rfl
        exact hne (h.inj x r' e' hx he)
      have hiff : ∀ x e', ends x = some e' → (v'.isOpen e' = true ↔ live x ∧ x ≠ r') := by
        intro x e' hx
        rw [hopen']
        by_cases hxr : x = r'
        · subst hxr
          obtain rfl : e' = e := Option.some.inj (hx.symm.trans he)
          rw [update_self]
          exact ⟨fun h => (nomatch h), fun h => absurd rfl h.2⟩
        · rw [update_of_ne (hother x e' hx hxr), h.isOpen x e' hx]
          exact ⟨fun hl => ⟨hl, hxr⟩, And.left⟩
      refine ⟨h.inj, fun x e' hx => ?_, fun d e' hd => ?_, fun x e' hx hxe => ?_,
        fun x e' hx hxe => ?_, hiff⟩
      · rw [hc.next]
        exact h.bound x e' hx
      · rw [hreg', PartialMap.erase_eq_some] at hd
        obtain ⟨x, hx, hxd, hxe⟩ := h.held d e' hd.2
        refine ⟨x, ⟨hx, ?_⟩, hxd, hxe⟩
        rintro rfl
        exact hd.1 hxd.symm
      · have hne : id x ≠ id r' := fun hxr => hx.2 (hu x hx.1 hxr)
        rw [hreg', update_of_ne hne]
        exact h.reg x e' hx.1 hxe
      · exact hc.known e' ((hiff x e' hxe).mpr hx) (h.known x e' hx.1 hxe)

end Ok

/-! ### What is registered -/

/-- What is registered is open and known, under one number below `bound`. -/
structure Tidy (group : ε → Nat) (v : Registry ε) (bound : Nat) : Prop where
  below : ∀ d e, v.reg d = some e → d < bound ∧ group e < v.next
  live : ∀ d e, v.reg d = some e → v.known (group e) = true ∧ v.isOpen e = true
  inj : ∀ d d' e, v.reg d = some e → v.reg d' = some e → d = d'

namespace Tidy

variable {bound : Nat}

theorem close [DecidableEq ε] {d : Nat} (h : Tidy group v bound) (hc : Closes group v v' d) :
    Tidy group v' bound := by
  cases hd : v.reg d with
  | none => exact hc.absent hd ▸ h
  | some e =>
      have hk := (h.live d e hd).1
      have hreg : ∀ x y, v'.reg x = some y → x ≠ d ∧ v.reg x = some y := fun x y hx => by
        rw [hc.reg e hd hk, update_apply] at hx
        split at hx
        · cases hx
        · exact ⟨‹_›, hx⟩
      refine ⟨fun x y hx => ?_, fun x y hx => ?_, fun x x' y hx hx' => ?_⟩
      · rw [hc.next]
        exact h.below x y (hreg x y hx).2
      · obtain ⟨hne, hx⟩ := hreg x y hx
        have hy : y ≠ e := fun hy => hne (h.inj x d e (hy ▸ hx) hd)
        have ho : v'.isOpen y = true := by
          rw [hc.isOpen e hd hk, update_of_ne hy]
          exact (h.live x y hx).2
        exact ⟨hc.known y ho (h.live x y hx).1, ho⟩
      · exact h.inj x x' y (hreg x y hx).2 (hreg x' y hx').2

theorem create {e₁ e₂ : ε} (h : Tidy group v bound)
    (hc : Creates group v v' bound (bound + 1) e₁ e₂) : Tidy group v' (bound + 2) := by
  have hreg : ∀ d e, v'.reg d = some e → (d = bound ∧ e = e₁) ∨ (d = bound + 1 ∧ e = e₂) ∨
      (v.reg d = some e ∧ d < bound ∧ group e ≠ v.next) := fun d e hd => by
    rw [hc.reg, PartialMap.setPair_eq_some hc.numbers] at hd
    rcases hd with hd | hd | ⟨-, -, hd⟩
    · exact .inl hd
    · exact .inr (.inl hd)
    · exact .inr (.inr ⟨hd, (h.below d e hd).1, Nat.ne_of_lt (h.below d e hd).2⟩)
  refine ⟨fun d e hd => ?_, fun d e hd => ?_, fun d d' e hd hd' => ?_⟩
  · rw [hc.next]
    rcases hreg d e hd with ⟨rfl, rfl⟩ | ⟨rfl, rfl⟩ | ⟨hd, hlt, -⟩
    · exact ⟨by omega, hc.groups.1 ▸ Nat.lt_succ_self _⟩
    · exact ⟨by omega, hc.groups.2 ▸ Nat.lt_succ_self _⟩
    · exact ⟨by omega, Nat.lt_succ_of_lt (h.below d e hd).2⟩
  · rw [hc.known, hc.isOpen]
    rcases hreg d e hd with ⟨-, rfl⟩ | ⟨-, rfl⟩ | ⟨hd, -, hg⟩
    · simp [hc.groups.1]
    · simp [hc.groups.2]
    · simpa [hg] using h.live d e hd
  · rcases hreg d e hd with ⟨rfl, rfl⟩ | ⟨rfl, rfl⟩ | ⟨hv, -, hg⟩ <;>
      rcases hreg d' _ hd' with ⟨rfl, hee⟩ | ⟨rfl, hee⟩ | ⟨hv', -, hg'⟩
    · rfl
    · exact absurd hee hc.ends
    · exact absurd hc.groups.1 hg'
    · exact absurd hee.symm hc.ends
    · rfl
    · exact absurd hc.groups.2 hg'
    · exact absurd (hee ▸ hc.groups.1) hg
    · exact absurd (hee ▸ hc.groups.2) hg
    · exact h.inj d d' e hv hv'

end Tidy

end Registry
