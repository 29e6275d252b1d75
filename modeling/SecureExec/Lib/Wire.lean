import Mathlib.Data.List.Induction
import Mathlib.Data.List.TakeDrop
import Mathlib.Tactic.Ring

/-!
# Lib — Wire — numbers and text as bytes

`be w n` is the number `n` in `w` bytes, the most significant first, and `ofBe` reads such a
number back.  `utf8` and `ofUtf8?` are UTF-8 on byte lists; `lossy` is the decoding that never
fails: it puts U+FFFD in the place of every maximal ill-formed part.

A `Reader` consumes the bytes that are left to read and may fail.  `take` reads a given number of
bytes, `rest` all of them; a reader that returns has consumed a prefix of its input
(`Reader.take_eq_ok`), and at the bytes a writer has just written it reads them and leaves what
follows (`Reader.run_take_append`).

* `ofBe_be`, `be_ofBe`: the two number codecs are inverse.
* `ofUtf8?_utf8`, `utf8_of_ofUtf8?`: so are the two text codecs.
* `lossy_utf8`: on well-formed text the lossy decoding is the strict one.
-/

namespace Wire

/-! ### Numbers -/

/-- `n` in `w` bytes, the most significant first; what does not fit is cut off. -/
def be : Nat → Nat → List UInt8
  | 0, _ => []
  | w + 1, n => be w (n / 256) ++ [UInt8.ofNat n]

/-- The number the bytes stand for, the most significant first. -/
def ofBe (bs : List UInt8) : Nat := bs.foldl (fun n b => n * 256 + b.toNat) 0

@[simp] theorem length_be (w n : Nat) : (be w n).length = w := by
  induction w generalizing n with
  | zero => rfl
  | succ w ih => simp [be, ih]

@[simp] theorem ofBe_nil : ofBe [] = 0 := rfl

theorem ofBe_concat (bs : List UInt8) (b : UInt8) : ofBe (bs ++ [b]) = ofBe bs * 256 + b.toNat := by
  simp [ofBe]

theorem ofBe_be (w n : Nat) : ofBe (be w n) = n % 256 ^ w := by
  induction w generalizing n with
  | zero => simp [be, Nat.mod_one]
  | succ w ih =>
      have hs : 256 ^ (w + 1) = 256 * 256 ^ w := by ring
      rw [be, ofBe_concat, ih, UInt8.toNat_ofNat', hs, Nat.mod_mul]
      omega

theorem ofBe_be_of_lt {w n : Nat} (h : n < 256 ^ w) : ofBe (be w n) = n := by
  rw [ofBe_be, Nat.mod_eq_of_lt h]

theorem ofBe_lt (bs : List UInt8) : ofBe bs < 256 ^ bs.length := by
  induction bs using List.reverseRecOn with
  | nil => simp
  | append_singleton bs b ih =>
      have hb : b.toNat < 256 := b.toNat_lt
      have hs : 256 ^ (bs.length + 1) = 256 * 256 ^ bs.length := by ring
      rw [ofBe_concat, List.length_append, List.length_singleton, hs]
      omega

theorem ofBe_take_lt (w : Nat) (bs : List UInt8) : ofBe (bs.take w) < 256 ^ w :=
  Nat.lt_of_lt_of_le (ofBe_lt _) (Nat.pow_le_pow_right (by decide) (List.length_take_le w bs))

theorem be_ofBe (bs : List UInt8) : be bs.length (ofBe bs) = bs := by
  induction bs using List.reverseRecOn with
  | nil => rfl
  | append_singleton bs b ih =>
      have hb : b.toNat < 256 := b.toNat_lt
      have hdiv : (ofBe bs * 256 + b.toNat) / 256 = ofBe bs := by omega
      have hlast : UInt8.ofNat (ofBe bs * 256 + b.toNat) = b := by
        apply UInt8.toNat_inj.mp
        rw [UInt8.toNat_ofNat']
        omega
      rw [List.length_append, List.length_singleton, be, ofBe_concat, hdiv, ih, hlast]

/-- A number that is cut off to `w` bytes. -/
theorem be_mod (w n : Nat) : be w (n % 256 ^ w) = be w n := by
  have h := be_ofBe (be w n)
  rwa [length_be, ofBe_be] at h

/-! ### One encoding after the other -/

/-- A prefix of some encodings is the first of them and a part of the next. -/
theorem prefix_split {α β : Type} {enc : β → List α} {bs : List β} {r more : List α}
    (h : r ++ more = bs.flatMap enc) (hr : r.length < (bs.flatMap enc).length) :
    ∃ m part b s, bs[m]? = some b ∧ r = (bs.take m).flatMap enc ++ part ∧ enc b = part ++ s ∧
      s ≠ [] := by
  induction bs generalizing r with
  | nil => cases hr
  | cons b bs ih =>
      rw [List.flatMap_cons] at h hr
      by_cases hl : r.length < (enc b).length
      · obtain ⟨s, hs⟩ : ∃ s, enc b = r ++ s := by
          obtain ⟨s, h₁, -⟩ | ⟨s, h₁, -⟩ := List.append_eq_append_iff.mp h
          · exact ⟨s, h₁⟩
          · rw [h₁, List.length_append] at hl
            omega
        refine ⟨0, r, b, s, rfl, by simp, hs, ?_⟩
        rintro rfl
        rw [List.append_nil] at hs
        rw [hs] at hl
        exact Nat.lt_irrefl _ hl
      · obtain ⟨r', h₁, h₂⟩ : ∃ r', r = enc b ++ r' ∧ r' ++ more = bs.flatMap enc := by
          obtain ⟨s, h₁, h₂⟩ | ⟨s, h₁, h₂⟩ := List.append_eq_append_iff.mp h
          · rw [h₁, List.length_append] at hl
            have hs : s = [] := List.eq_nil_of_length_eq_zero (by omega)
            subst hs
            exact ⟨[], by rw [h₁, List.append_nil, List.append_nil], h₂⟩
          · exact ⟨s, h₁, h₂.symm⟩
        rw [h₁, List.length_append, List.length_append] at hr
        obtain ⟨m, part, b', s, hm, hr', hb, hs⟩ := ih h₂ (by omega)
        refine ⟨m + 1, part, b', s, hm, ?_, hb, hs⟩
        rw [h₁, hr', List.take_succ_cons, List.flatMap_cons, List.append_assoc]

/-! ### Text -/

/-- The UTF-8 bytes of a text. -/
def utf8 (s : String) : List UInt8 := s.toByteArray.data.toList

theorem utf8_ofList (l : List Char) :
    utf8 (String.ofList l) = l.flatMap String.utf8EncodeChar := by
  simp [utf8, List.utf8Encode]

/-- A text of characters of one byte each. -/
theorem length_utf8_replicate {c : Char} (h : c.utf8Size = 1) (n : Nat) :
    (utf8 (String.ofList (List.replicate n c))).length = n := by
  rw [utf8_ofList]
  simp [List.length_flatMap, List.map_replicate, h]

/-- The text with these UTF-8 bytes, when they are well formed. -/
def ofUtf8? (bs : List UInt8) : Option String := String.fromUTF8? ⟨bs.toArray⟩

variable (s : String)

theorem ofUtf8?_utf8 : ofUtf8? (utf8 s) = some s := by
  have hb : (⟨(utf8 s).toArray⟩ : ByteArray) = s.toByteArray := by simp [utf8]
  rw [ofUtf8?, hb, String.fromUTF8?, dif_pos s.isValidUTF8]
  rfl

variable {bs : List UInt8}

theorem utf8_of_ofUtf8? {s : String} (h : ofUtf8? bs = some s) : utf8 s = bs := by
  simp only [ofUtf8?, String.fromUTF8?] at h
  split at h
  · cases h
    simp [utf8, String.fromUTF8]
  · cases h

@[simp] theorem utf8_empty : utf8 "" = [] := rfl

/-- Byte lists that are the UTF-8 of some text. -/
def WellFormed (bs : List UInt8) : Prop := (ofUtf8? bs).isSome

instance (bs : List UInt8) : Decidable (WellFormed bs) := inferInstanceAs (Decidable (_ = true))

theorem wellFormed_iff : WellFormed bs ↔ ∃ s, ofUtf8? bs = some s := by
  rw [WellFormed, Option.isSome_iff_exists]

/-! ### Text that may be ill formed -/

/-- The character whose UTF-8 the bytes start with. -/
def char? (bs : List UInt8) : Option Char := ByteArray.utf8DecodeChar? ⟨bs.toArray⟩ 0

/-- What may follow a first byte: the number of further bytes and the bounds of the second. -/
def following (b : UInt8) : Nat × UInt8 × UInt8 :=
  if 0xC2 ≤ b ∧ b ≤ 0xDF then (1, 0x80, 0xBF)
  else if b = 0xE0 then (2, 0xA0, 0xBF)
  else if b = 0xED then (2, 0x80, 0x9F)
  else if 0xE1 ≤ b ∧ b ≤ 0xEF then (2, 0x80, 0xBF)
  else if b = 0xF0 then (3, 0x90, 0xBF)
  else if 0xF1 ≤ b ∧ b ≤ 0xF3 then (3, 0x80, 0xBF)
  else if b = 0xF4 then (3, 0x80, 0x8F)
  else (0, 0, 0)

/-- The length of the maximal ill-formed part at the front: the longest start of a character
there, and one byte where there is none. -/
def illFormed : List UInt8 → Nat
  | [] => 0
  | [_] => 1
  | b :: c :: cs =>
    let (n, low, high) := following b
    if n ≠ 0 ∧ low ≤ c ∧ c ≤ high then
      2 + ((cs.take (n - 1)).takeWhile fun d => 0x80 ≤ d && d ≤ 0xBF).length
    else 1

/-- Decode at most `fuel` characters, with U+FFFD for every maximal ill-formed part. -/
def lossyChars : Nat → List UInt8 → List Char
  | 0, _ => []
  | _ + 1, [] => []
  | fuel + 1, b :: bs =>
    match char? (b :: bs) with
    | some c => c :: lossyChars fuel ((b :: bs).drop c.utf8Size)
    | none => '\uFFFD' :: lossyChars fuel ((b :: bs).drop (illFormed (b :: bs)))

/-- The decoding that never fails.  Every turn consumes a byte. -/
def lossy (bs : List UInt8) : String := String.ofList (lossyChars bs.length bs)

theorem char?_encode (c : Char) (bs : List UInt8) :
    char? (String.utf8EncodeChar c ++ bs) = some c := by
  have h := ByteArray.utf8DecodeChar?_utf8EncodeChar_append (b := ⟨bs.toArray⟩) (c := c)
  have he : (String.utf8EncodeChar c).toByteArray ++ ⟨bs.toArray⟩
      = (⟨(String.utf8EncodeChar c ++ bs).toArray⟩ : ByteArray) := by
    apply ByteArray.ext
    simp
  rw [he] at h
  exact h

theorem lossyChars_encode (cs : List Char) (fuel : Nat)
    (h : (cs.flatMap String.utf8EncodeChar).length ≤ fuel) :
    lossyChars fuel (cs.flatMap String.utf8EncodeChar) = cs := by
  induction cs generalizing fuel with
  | nil => cases fuel <;> rfl
  | cons c cs ih =>
      have hc := char?_encode c (cs.flatMap String.utf8EncodeChar)
      have hl : (String.utf8EncodeChar c).length = c.utf8Size := String.length_utf8EncodeChar c
      have hpos : 0 < c.utf8Size := c.utf8Size_pos
      rw [List.flatMap_cons] at h ⊢
      rw [List.length_append, hl] at h
      obtain ⟨b, bs, hb⟩ : ∃ b bs, String.utf8EncodeChar c ++ cs.flatMap String.utf8EncodeChar
          = b :: bs := by
        refine List.exists_cons_of_length_pos ?_
        rw [List.length_append]
        omega
      have hdrop : (b :: bs).drop c.utf8Size = cs.flatMap String.utf8EncodeChar := by
        rw [← hb, ← hl, List.drop_left]
      rw [hb] at hc ⊢
      cases fuel with
      | zero => omega
      | succ fuel =>
          simp only [lossyChars, hc, hdrop]
          rw [ih fuel (by omega)]

theorem utf8_eq_flatMap : utf8 s = s.toList.flatMap String.utf8EncodeChar := by
  rw [utf8, ← String.utf8Encode_toList]
  simp [List.utf8Encode]

/-- **On well-formed text nothing is replaced.** -/
theorem lossy_utf8 : lossy (utf8 s) = s := by
  rw [lossy, utf8_eq_flatMap, lossyChars_encode _ _ le_rfl, String.ofList_toList]

theorem lossy_of_ofUtf8? {s : String} (h : ofUtf8? bs = some s) :
    lossy bs = s := by
  rw [← utf8_of_ofUtf8? h, lossy_utf8]

/-! ### Results -/

section Results

variable {ε α β : Type} {f : α → Except ε β}

/-- Peel the first statement of a writer that returns. -/
theorem bind_eq_ok {x : Except ε α} {b : β} (h : x >>= f = .ok b) :
    ∃ a, x = .ok a ∧ f a = .ok b := by
  cases x with
  | ok a => exact ⟨a, rfl, h⟩
  | error e => cases h

theorem bind_eq_ok_iff {x : Except ε α} {b : β} :
    x >>= f = .ok b ↔ ∃ a, x = .ok a ∧ f a = .ok b := by
  constructor
  · intro h
    exact bind_eq_ok h
  · rintro ⟨a, rfl, h⟩
    exact h

theorem pure_eq_ok_iff {a b : α} : (pure a : Except ε α) = .ok b ↔ b = a := by
  constructor
  · intro h
    cases h
    rfl
  · rintro rfl
    rfl

theorem bind_ok (a : α) (f : α → Except ε β) : (Except.ok a >>= f) = f a := rfl

theorem bind_error (e : ε) (f : α → Except ε β) : (Except.error e >>= f) = .error e := rfl

end Results

/-! ### Readers -/

/-- A program that consumes the bytes left to read and may fail. -/
abbrev Reader (ε α : Type) : Type := StateT (List UInt8) (Except ε) α

namespace Reader

variable {ε α β : Type}

/-- The next `n` bytes, or the error `e` where fewer are left. -/
def take (e : ε) (n : Nat) : Reader ε (List UInt8) := fun bs =>
  if n ≤ bs.length then .ok (bs.take n, bs.drop n) else .error e

/-- All that is left. -/
def rest : Reader ε (List UInt8) := fun bs => .ok (bs, [])

/-- The number of bytes left. -/
def left : Reader ε Nat := fun bs => .ok (bs.length, bs)

/-- A result that is already there, or its error. -/
def lift : Except ε α → Reader ε α
  | .ok a => fun bs => .ok (a, bs)
  | .error e => fun _ => .error e

/-! #### Reading back what was written -/

variable {m : Reader ε α} {f : α → Reader ε β} {bs bs' : List UInt8} {a : α}

theorem run_bind_ok
    (h : m bs = .ok (a, bs')) : (m >>= f) bs = f a bs' := by
  simp only [bind, StateT.bind, h, Except.bind]

variable {e : ε}

theorem run_bind_error
    (h : m bs = .error e) : (m >>= f) bs = .error e := by
  simp only [bind, StateT.bind, h, Except.bind]

variable {n : Nat}

theorem run_take_append {xs : List UInt8} (h : xs.length = n)
    (bs : List UInt8) : take e n (xs ++ bs) = .ok (xs, bs) := by
  subst h
  simp [take]

/-! #### What a reader that returns has read -/

variable {r : β × List UInt8}

/-- Peel the first statement of a reader that returns. -/
theorem bind_eq_ok (h : (m >>= f) bs = .ok r) : ∃ a bs', m bs = .ok (a, bs') ∧ f a bs' = .ok r := by
  cases hm : m bs with
  | error e =>
      rw [run_bind_error hm] at h
      cases h
  | ok p =>
      obtain ⟨a, bs'⟩ := p
      rw [run_bind_ok hm] at h
      exact ⟨a, bs', rfl, h⟩

theorem take_eq_ok {xs : List UInt8} :
    take e n bs = .ok (xs, bs') ↔ n ≤ bs.length ∧ xs = bs.take n ∧ bs' = bs.drop n := by
  rw [take]
  split
  · rename_i hn
    constructor
    · intro h
      cases h
      exact ⟨hn, rfl, rfl⟩
    · rintro ⟨-, rfl, rfl⟩
      rfl
  · rename_i hn
    constructor
    · intro h
      cases h
    · rintro ⟨h, -, -⟩
      exact absurd h hn

theorem pure_eq_ok {b : α} :
    (pure a : Reader ε α) bs = .ok (b, bs') ↔ b = a ∧ bs' = bs := by
  constructor
  · intro h
    cases h
    exact ⟨rfl, rfl⟩
  · rintro ⟨rfl, rfl⟩
    rfl

theorem left_eq_ok :
    (left : Reader ε _) bs = .ok (n, bs') ↔ n = bs.length ∧ bs' = bs := by
  constructor
  · intro h
    cases h
    exact ⟨rfl, rfl⟩
  · rintro ⟨rfl, rfl⟩
    rfl

theorem bind_eq_ok_iff :
    (m >>= f) bs = .ok r ↔ ∃ a bs', m bs = .ok (a, bs') ∧ f a bs' = .ok r := by
  constructor
  · intro h
    exact bind_eq_ok h
  · rintro ⟨a, bs', hm, hf⟩
    rw [run_bind_ok hm, hf]

/-- Some bytes, as a value. -/
theorem take_map_eq_ok {g : List UInt8 → α} :
    (take e n >>= fun xs => pure (g xs)) bs = .ok (a, bs') ↔
      n ≤ bs.length ∧ a = g (bs.take n) ∧ bs' = bs.drop n := by
  simp only [bind_eq_ok_iff, take_eq_ok, pure_eq_ok]
  constructor
  · rintro ⟨_, _, ⟨hn, rfl, rfl⟩, rfl, rfl⟩
    exact ⟨hn, rfl, rfl⟩
  · rintro ⟨hn, rfl, rfl⟩
    exact ⟨_, _, ⟨hn, rfl, rfl⟩, rfl, rfl⟩

/-! #### What a reader can return -/

/-- Every value the reader returns satisfies `P`. -/
def Yields (m : Reader ε α) (P : α → Prop) : Prop := ∀ bs a bs', m bs = .ok (a, bs') → P a

theorem Yields.pure {P : α → Prop} (h : P a) : Yields (pure a : Reader ε α) P := by
  intro bs b bs' hb
  rw [(pure_eq_ok.mp hb).1]
  exact h

theorem Yields.bind {P : β → Prop}
    (h : ∀ a, Yields (f a) P) : Yields (m >>= f) P := by
  intro bs b bs' hb
  obtain ⟨a, bs₁, -, hf⟩ := bind_eq_ok hb
  exact h a _ _ _ hf

/-! #### When a reader returns -/

/-- The reader returns on these bytes. -/
def Accepts (m : Reader ε α) (bs : List UInt8) : Prop := ∃ r, m bs = .ok r

@[simp] theorem accepts_pure (a : α) (bs : List UInt8) : Accepts (pure a : Reader ε α) bs :=
  ⟨(a, bs), rfl⟩

/-- A program returns when its first statement does and the rest returns after it. -/
theorem accepts_bind :
    Accepts (m >>= f) bs ↔ ∃ a bs', m bs = .ok (a, bs') ∧ Accepts (f a) bs' := by
  constructor
  · rintro ⟨r, hr⟩
    obtain ⟨a, bs', hm, hf⟩ := bind_eq_ok hr
    exact ⟨a, bs', hm, r, hf⟩
  · rintro ⟨a, bs', hm, r, hf⟩
    exact ⟨r, by rw [run_bind_ok hm, hf]⟩

/-- A first statement that reads a known value under a condition. -/
theorem accepts_bind_of {d : List UInt8} {v : α}
    {P : Prop} (h : ∀ a bs', m bs = .ok (a, bs') ↔ P ∧ a = v ∧ bs' = d) :
    Accepts (m >>= f) bs ↔ P ∧ Accepts (f v) d := by
  rw [accepts_bind]
  constructor
  · rintro ⟨a, bs', hm, hf⟩
    obtain ⟨hp, rfl, rfl⟩ := (h a bs').mp hm
    exact ⟨hp, hf⟩
  · rintro ⟨hp, hf⟩
    exact ⟨v, d, (h v d).mpr ⟨hp, rfl, rfl⟩, hf⟩

theorem accepts_rest {f : List UInt8 → Reader ε β} :
    Accepts (rest >>= f) bs ↔ Accepts (f bs) [] := by
  rw [Accepts, Accepts, run_bind_ok rfl]

theorem accepts_left {f : Nat → Reader ε β} :
    Accepts (left >>= f) bs ↔ Accepts (f bs.length) bs := by
  rw [Accepts, Accepts, run_bind_ok rfl]

end Reader

end Wire
