import Mathlib.Data.List.MinMax
import Mathlib.Data.Prod.Lex
import SecureExec.Lib.Segments
import SecureExec.Node.Resolve

/-!
# Node — Patterns — keys with a star

In an object of `exports` or `imports` a key with a star stands for many subpaths.  `nodeTarget` is
the rule for them: the key decides that has the longest prefix of those that leave something for the
star, and each star of its target is replaced by that.  The code takes the first key whose ends the
subpath has and whose target resolves.

* `patterns_hold_iff`: when the code comes to what the rule says in every order, and the path of the file
  stays in the directory of the package.
-/

namespace Bundler

/-- The two fields of a `package.json` that map subpaths. -/
inductive MapField where
  | exports
  | imports

def MapField.resolve (mode : ResolveMode) : MapField → Json → String → Option String
  | .exports => resolveExportsTarget mode
  | .imports => resolveImportsTarget mode

/-- The object maps subpaths; one of `exports` may be of conditions, for the package itself. -/
def MapField.IsMap (fields : List (String × Json)) (subpath : String) : MapField → Prop
  | .exports => ¬ (subpath = "." ∧ ¬ fields.any (fun entry => startsWith entry.1 "./"))
  | .imports => True

instance : ∀ (kind : MapField) (fields : List (String × Json)) (subpath : String),
    Decidable (kind.IsMap fields subpath)
  | .exports, _, _ => inferInstanceAs (Decidable (¬ (_ ∧ _)))
  | .imports, _, _ => inferInstanceAs (Decidable True)

/-! ### The rule -/

/-- What stands for the star of the key, when it is not empty. -/
def between (key subpath : String) : Option (List Char) :=
  match key.toList.splitOn '*' with
  | [before, after] =>
    if before.isPrefixOf subpath.toList ∧ after.isSuffixOf subpath.toList ∧
        before.length + after.length < subpath.length then
      some ((subpath.toList.take (subpath.length - after.length)).drop before.length)
    else none
  | _ => none

/-- The longer prefix stands higher, then the longer key. -/
def rank (key : String) : ℕ ×ₗ ℕ :=
  toLex (((key.toList.splitOn '*').headD []).length, key.length)

/-- The key that decides, with its value. -/
def decider (fields : List (String × Json)) (subpath : String) : Option (String × Json) :=
  (fields.filter fun entry => (between entry.1 subpath).isSome).argmax fun entry => rank entry.1

/-- Every star is replaced. -/
def substitute (target : String) (w : List Char) : String :=
  String.ofList (target.toList.flatMap fun c => if c = '*' then w else [c])

/-- What the subpath is mapped to.  A key that is the subpath itself comes first. -/
def nodeTarget (mode : ResolveMode) (fields : List (String × Json)) (subpath : String) :
    Option String :=
  match fields.lookup subpath with
  | some value => truthy (resolveExportsTarget mode value ".")
  | none => do
    let entry ← decider fields subpath
    let target ← truthy (resolveExportsTarget mode entry.2 ".")
    let w ← between entry.1 subpath
    return substitute target w

/-- The segments of the file's path begin with those of the directory; both stand last first. -/
def Inside (packageDir target : String) : Prop :=
  joinParts [] [packageDir] <:+ joinParts [] [packageDir, normalizePackagePath target]

/-- The mapping is as in Node: in every order of the keys it gives what the rule gives, and a file of
`exports` is in the directory of the package. -/
structure PatternsHold (kind : MapField) (mode : ResolveMode) (fields : List (String × Json))
    (packageDir subpath : String) : Prop where
  result : ∀ fields', fields'.Perm fields →
    truthy (kind.resolve mode (.obj fields') subpath) = nodeTarget mode fields subpath
  confined : kind = .exports → ∀ target,
    truthy (kind.resolve mode (.obj fields) subpath) = some target → Inside packageDir target

/-! ### What the search comes to -/

/-- The key fits as the code sees it, with what it gives. -/
structure Candidate (mode : ResolveMode) (fields : List (String × Json)) (subpath key : String)
    (value : Json) (w target : String) : Prop where
  mem : (key, value) ∈ fields
  fits : wildcard key subpath = some w
  resolves : truthy (resolveExportsTarget mode value ".") = some target

/-- Every '..' of the segments that goes above where they start; `depth` names stand before them. -/
def leaves : Nat → List (List Char) → Nat
  | _, [] => 0
  | depth, seg :: segs =>
    if seg = ['.', '.'] then
      if depth = 0 then leaves 0 segs + 1 else leaves (depth - 1) segs
    else if seg = [] ∨ seg = ['.'] then leaves depth segs
    else leaves (depth + 1) segs

/-- The target leaves no directory of the package's path, or names those again that it left. -/
def StaysIn (packageDir target : String) : Prop :=
  let dir := joinParts [] [packageDir]
  let path := normalizePackagePath target
  let segs := path.toList.splitOn '/'
  dir.take (if startsWith path "/" then dir.length else leaves 0 segs) <:+ joinSegments [] segs

/-- Every key the code may take gives what the rule gives, and stays in the directory. -/
structure PatternsAgree (kind : MapField) (mode : ResolveMode) (fields : List (String × Json))
    (packageDir subpath : String) : Prop where
  agree : fields.lookup subpath = none → ∀ key value w target,
    Candidate mode fields subpath key value w target →
      truthy (some (replaceAll target w)) = nodeTarget mode fields subpath
  stays : kind = .exports → ∀ target, nodeTarget mode fields subpath = some target →
    StaysIn packageDir target

variable {kind : MapField} {mode : ResolveMode} {fields : List (String × Json)}
  {packageDir subpath : String}

theorem resolveFields_eq_map (mode : ResolveMode) : ∀ fields : List (String × Json),
    resolveFields mode fields = fields.map fun entry => (entry.1, resolveExportsTarget mode entry.2)
  | [] => by rw [resolveFields, List.map_nil]
  | (key, value) :: fields => by rw [resolveFields, resolveFields_eq_map mode fields, List.map_cons]

theorem lookup_resolveFields (mode : ResolveMode) (key : String) : ∀ fields : List (String × Json),
    (resolveFields mode fields).lookup key = (fields.lookup key).map (resolveExportsTarget mode)
  | [] => by rw [resolveFields]; rfl
  | (key', value) :: fields => by
      rw [resolveFields, List.lookup_cons, List.lookup_cons, lookup_resolveFields mode key fields]
      cases key == key' <;> rfl

/-- An object that maps subpaths: a key that is the subpath, then the patterns. -/
theorem resolve_map (h : kind.IsMap fields subpath) :
    kind.resolve mode (.obj fields) subpath =
      match fields.lookup subpath with
      | some value => resolveExportsTarget mode value "."
      | none => resolvePattern subpath (resolveFields mode fields) := by
  cases kind with
  | imports =>
      rw [MapField.resolve, resolveImportsTarget, lookup_resolveFields]
      cases fields.lookup subpath <;> rfl
  | exports =>
      rw [MapField.resolve, resolveExportsTarget, resolveRecord, if_neg, lookup_resolveFields]
      · cases fields.lookup subpath <;> rfl
      · rw [resolveFields_eq_map, List.any_map]
        exact h

/-- The loop over the keys comes to what a candidate gives, or there is none. -/
theorem resolvePattern_cases (mode : ResolveMode) (subpath : String) (fields : List (String × Json)) :
    (resolvePattern subpath (resolveFields mode fields) = none ∧
        ∀ key value w target, ¬ Candidate mode fields subpath key value w target) ∨
      ∃ key value w target, Candidate mode fields subpath key value w target ∧
        resolvePattern subpath (resolveFields mode fields) = some (replaceAll target w) := by
  induction fields with
  | nil =>
      refine .inl ⟨by rw [resolveFields, resolvePattern], fun key value w target hc => ?_⟩
      exact List.not_mem_nil hc.mem
  | cons entry fields ih =>
      obtain ⟨key, value⟩ := entry
      rw [resolveFields, resolvePattern]
      split
      · rename_i w target hw ht
        exact .inr ⟨key, value, w, target, ⟨List.mem_cons_self, hw, ht⟩, rfl⟩
      · rename_i hno
        refine ih.imp (And.imp_right fun hnone key' value' w target hc => ?_) ?_
        · rcases List.mem_cons.mp hc.mem with he | hmem
          · cases he
            exact hno w target hc.fits hc.resolves
          · exact hnone _ _ _ _ ⟨hmem, hc.fits, hc.resolves⟩
        · rintro ⟨key', value', w, target, hc, hr⟩
          exact ⟨key', value', w, target, ⟨List.mem_cons_of_mem _ hc.mem, hc.fits, hc.resolves⟩, hr⟩

/-- A key that leaves something for the star is one that fits. -/
theorem wildcard_of_between {key : String} {w : List Char} (h : between key subpath = some w) :
    wildcard key subpath = some (String.ofList w) := by
  unfold between at h
  split at h
  · rename_i before after hsplit
    split at h
    · rename_i hm
      rw [wildcard, hsplit]
      dsimp only
      rw [if_pos ⟨hm.1, hm.2.1⟩, Option.some.inj h]
    · cases h
  · cases h

/-- **The rule**: the key that decides has the longest prefix of those that leave something. -/
theorem decider_spec {entry : String × Json} (h : decider fields subpath = some entry) :
    entry ∈ fields ∧ (between entry.1 subpath).isSome = true ∧ ∀ other ∈ fields,
      (between other.1 subpath).isSome = true → rank other.1 ≤ rank entry.1 := by
  have hmem := List.mem_filter.mp (List.argmax_mem h)
  exact ⟨hmem.1, hmem.2, fun other ho hb =>
    List.le_of_mem_argmax (f := fun entry : String × Json => rank entry.1)
      (List.mem_filter.mpr ⟨ho, hb⟩) h⟩

/-- Without a candidate the rule gives nothing either. -/
theorem nodeTarget_eq_none (hkey : fields.lookup subpath = none)
    (h : ∀ key value w target, ¬ Candidate mode fields subpath key value w target) :
    nodeTarget mode fields subpath = none := by
  rw [nodeTarget, hkey]
  cases hd : decider fields subpath with
  | none => rfl
  | some entry =>
      obtain ⟨hmem, hsome, -⟩ := decider_spec hd
      obtain ⟨w, hw⟩ := Option.isSome_iff_exists.mp hsome
      cases ht : truthy (resolveExportsTarget mode entry.2 ".") with
      | none =>
          show (truthy _).bind _ = none
          rw [ht]
          rfl
      | some target => exact absurd ⟨hmem, wildcard_of_between hw, ht⟩ (h entry.1 entry.2 _ target)

variable {fields' : List (String × Json)}

theorem lookup_perm (hp : fields'.Perm fields)
    (hnodup : (fields.map Prod.fst).Nodup) (key : String) :
    fields'.lookup key = fields.lookup key := by
  induction hp with
  | nil => rfl
  | cons entry _ ih => rw [List.lookup_cons, List.lookup_cons, ih (List.nodup_cons.mp hnodup).2]
  | swap a b l =>
      have hne : a.1 ≠ b.1 := fun he => (List.nodup_cons.mp hnodup).1 (he ▸ List.mem_cons_self)
      rw [List.lookup_cons, List.lookup_cons, List.lookup_cons, List.lookup_cons]
      by_cases ha : key = a.1
      · have hb : (key == b.1) = false := by simpa [ha] using hne
        rw [hb]
      · have ha' : (key == a.1) = false := by simpa using ha
        rw [ha']
  | trans _ h₂ ih₁ ih₂ => rw [ih₁ ((h₂.map Prod.fst).nodup_iff.mpr hnodup), ih₂ hnodup]

theorem isMap_perm (hp : fields'.Perm fields)
    (h : kind.IsMap fields subpath) : kind.IsMap fields' subpath := by
  cases kind with
  | imports => trivial
  | exports =>
      rw [MapField.IsMap, hp.any_eq]
      exact h

/-! ### Leaving the directory -/

/-- What the segments do on top of `base`: names of their own, and `base` without those they leave. -/
theorem joinSegments_append (own base : List (List Char)) (segs : List (List Char)) :
    joinSegments (own ++ base) segs = joinSegments own segs ++ base.drop (leaves own.length segs) := by
  induction segs generalizing own base with
  | nil => rfl
  | cons seg segs ih =>
      rw [joinSegments, joinSegments, leaves]
      split
      · cases own with
        | nil =>
            rw [List.nil_append, List.tail_nil, List.length_nil, if_pos rfl, ← List.drop_tail]
            exact ih [] base.tail
        | cons o own => exact ih own base
      · split
        · exact ih own base
        · exact ih (seg :: own) base

theorem inside_iff (packageDir target : String) :
    Inside packageDir target ↔ StaysIn packageDir target := by
  rw [Inside, StaysIn, joinParts, joinParts]
  dsimp only [joinParts]
  cases startsWith (normalizePackagePath target) "/" with
  | true => rw [if_pos rfl, if_pos rfl, List.take_length]
  | false =>
      rw [if_neg Bool.false_ne_true, if_neg Bool.false_ne_true]
      generalize hdir : joinSegments _ (packageDir.toList.splitOn '/') = dir
      generalize (normalizePackagePath target).toList.splitOn '/' = segs
      have happend := joinSegments_append [] dir segs
      rw [List.nil_append, List.length_nil] at happend
      have hsuffix := @List.suffix_append_self_iff _ (dir.take (leaves 0 segs)) (joinSegments [] segs)
        (dir.drop (leaves 0 segs))
      rw [List.take_append_drop] at hsuffix
      rw [happend]
      exact hsuffix

/-- **When patterns are mapped as in Node.** -/
theorem patterns_hold_iff (hnodup : (fields.map Prod.fst).Nodup) (hmap : kind.IsMap fields subpath) :
    PatternsHold kind mode fields packageDir subpath ↔
      PatternsAgree kind mode fields packageDir subpath := by
  constructor
  · intro h
    refine ⟨fun hkey key value w target hc => ?_, fun hkind target ht => ?_⟩
    · -- the candidate stands first in one order of the keys
      obtain ⟨l₁, l₂, hl⟩ := List.append_of_mem hc.mem
      have hp : ((key, value) :: (l₁ ++ l₂)).Perm fields := hl ▸ List.perm_middle.symm
      have hr := h.result _ hp
      rw [resolve_map (isMap_perm hp hmap), lookup_perm hp hnodup, hkey] at hr
      rw [← hr, resolveFields, resolvePattern, hc.fits, hc.resolves]
    · have hr := h.result fields (.refl _)
      exact (inside_iff ..).mp (h.confined hkind target (hr.trans ht))
  · intro h
    have hresult : ∀ fields', fields'.Perm fields →
        truthy (kind.resolve mode (.obj fields') subpath) = nodeTarget mode fields subpath := by
      intro fields' hp
      rw [resolve_map (isMap_perm hp hmap), lookup_perm hp hnodup]
      cases hkey : fields.lookup subpath with
      | some value => rw [nodeTarget, hkey]
      | none =>
          rcases resolvePattern_cases mode subpath fields' with ⟨hr, hno⟩ | ⟨key, value, w, target, hc, hr⟩
          · rw [hr, nodeTarget_eq_none hkey fun key value w target hc =>
              hno key value w target ⟨hp.mem_iff.mpr hc.mem, hc.fits, hc.resolves⟩]
            rfl
          · rw [hr]
            exact h.agree hkey key value w target ⟨hp.mem_iff.mp hc.mem, hc.fits, hc.resolves⟩
    exact ⟨hresult, fun hkind target ht =>
      (inside_iff ..).mpr (h.stays hkind target ((hresult fields (.refl _)).symm.trans ht))⟩

/-- One key fits, and its target stays in the package. -/
theorem patterns_hold_one : PatternsHold .exports .require
    [("./a/*", .str "./src/*.js"), ("./b/*", .null)] "/node_modules/p" "./a/x" := by
  refine (patterns_hold_iff (by decide) (by decide +kernel)).mpr ⟨fun _ key value w target hc => ?_, ?_⟩
  · rcases List.mem_pair.mp hc.mem with he | he <;> cases he
    · have hw : wildcard "./a/*" "./a/x" = some "x" := by decide +kernel
      cases hw.symm.trans hc.fits
      have ht := hc.resolves
      rw [resolveExportsTarget] at ht
      cases ht
      decide +kernel
    · have hw : wildcard "./b/*" "./a/x" = none := by decide +kernel
      cases hw.symm.trans hc.fits
  · intro _ target ht
    have hrule : nodeTarget .require [("./a/*", .str "./src/*.js"), ("./b/*", .null)] "./a/x" =
        some "./src/x.js" := by
      decide +kernel
    cases hrule.symm.trans ht
    unfold StaysIn
    decide +kernel

/-- A key of `null` is passed over for a broader one. -/
theorem patterns_hold_fails :
    ¬ ∀ (kind : MapField) (mode : ResolveMode) (fields : List (String × Json))
      (packageDir subpath : String), (fields.map Prod.fst).Nodup → kind.IsMap fields subpath →
        PatternsHold kind mode fields packageDir subpath := by
  intro hall
  have h := (hall .exports .require [("./*", .str "./src/*.js"), ("./internal/*", .null)]
    "/node_modules/p" "./internal/x" (by decide) (by decide +kernel)).result _ (.refl _)
  exact absurd h (by decide +kernel)

end Bundler
