import Fish.Binary64.Numeral
import Mathlib.Data.List.TakeWhile
import Mathlib.Data.Option.Basic

/-!
# The grammar of numerals

A numeral made of digits is an optional sign, the digits of a whole part, an optional point with
digits after it, and an optional exponent of its own sign and digits; there is a digit on one side
of the point, and one in the exponent. A `Spelling` is a text of this form, in its parts. Reading a
text succeeds if it is the text of some spelling, and then gives what this spelling denotes: each
part ends at a character with which the next one begins.

Main lemmas:

* `Numeral.ofChars?_chars`          a spelling is read as what it denotes
* `Numeral.ofChars?_eq_some_iff`    what is read is a spelling
* `Numeral.Spelling.mem_chars`      the characters of a spelling
-/

namespace Fish.Numeral

/-! ## Spellings -/

/-- The text of a sign that may be there; the flag tells whether it is a minus. -/
def signText : Option Bool → List Char
  | none => []
  | some negative => [if negative then '-' else '+']

/-- The text of a point with the digits after it. -/
def pointText : Option (List Char) → List Char
  | none => []
  | some places => '.' :: places

/-- An exponent as it is written. -/
structure Exponent where
  mark : Char
  sign : Option Bool
  digits : List Char
  mark_eq : mark = 'e' ∨ mark = 'E'
  digits_ne_nil : digits ≠ []
  isDigit_digits : ∀ c ∈ digits, c.isDigit = true

/-- The text of an exponent that may be there. -/
def exponentText : Option Exponent → List Char
  | none => []
  | some e => e.mark :: (signText e.sign ++ e.digits)

/-- The number that an exponent denotes; none stands for zero. -/
def exponentValue : Option Exponent → Int
  | none => 0
  | some e => if e.sign = some true then -(natOfDigits e.digits : Int) else natOfDigits e.digits

/-- A numeral as it is written. -/
structure Spelling where
  sign : Option Bool
  whole : List Char
  /-- The digits after the point, if there is a point. -/
  places : Option (List Char)
  exponent : Option Exponent
  isDigit_whole : ∀ c ∈ whole, c.isDigit = true
  isDigit_places : ∀ c ∈ places.getD [], c.isDigit = true
  exists_digit : whole ++ places.getD [] ≠ []

namespace Spelling

/-- The text of a spelling. -/
def chars (s : Spelling) : List Char :=
  signText s.sign ++ (s.whole ++ (pointText s.places ++ exponentText s.exponent))

/-- There is a minus. -/
def negative (s : Spelling) : Bool := s.sign = some true

/-- The number that the digits on both sides of the point make up. -/
def digits (s : Spelling) : Nat := natOfDigits (s.whole ++ s.places.getD [])

/-- The power of ten that counts the last of these digits. -/
def power (s : Spelling) : Int := exponentValue s.exponent - (s.places.getD []).length

/-- What a spelling denotes. -/
def numeral (s : Spelling) : Numeral := ⟨s.negative, ⟨s.digits, s.power⟩⟩

end Spelling

/-! ## Reading a spelling -/

variable {cs rest digits places : List Char} {sign : Option Bool}

/-- The digits at the beginning end where another character follows. -/
theorem splitDigits_append (hdigits : ∀ c ∈ digits, c.isDigit = true)
    (hrest : ∀ c ∈ rest.head?, c.isDigit = false) :
    splitDigits (digits ++ rest) = (digits, rest) := by
  have htake : rest.takeWhile Char.isDigit = [] ∧ rest.dropWhile Char.isDigit = rest := by
    cases rest with
    | nil => exact ⟨rfl, rfl⟩
    | cons c rest =>
      have hc : c.isDigit = false := hrest c rfl
      simp [hc]
  rw [splitDigits, List.takeWhile_append_of_pos hdigits, List.dropWhile_append_of_pos hdigits,
    htake.1, htake.2, List.append_nil]

/-- A sign is taken off where no other one follows. -/
theorem splitSign_signText (hrest : ∀ c ∈ rest.head?, c ≠ '+' ∧ c ≠ '-') :
    splitSign (signText sign ++ rest) = (decide (sign = some true), rest) := by
  match sign with
  | some true => rfl
  | some false => rfl
  | none =>
    show splitSign rest = (false, rest)
    unfold splitSign
    split
    · exact absurd rfl (hrest '+' rfl).1
    · exact absurd rfl (hrest '-' rfl).2
    · rfl

/-- A digit is no sign. -/
theorem ne_sign_of_isDigit {c : Char} (h : c.isDigit = true) : c ≠ '+' ∧ c ≠ '-' := by
  constructor
  · rintro rfl
    cases h
  · rintro rfl
    cases h

/-- An exponent begins with its mark. -/
theorem head?_exponentText {e : Option Exponent} {c : Char} (h : c ∈ (exponentText e).head?) :
    c = 'e' ∨ c = 'E' := by
  cases e with
  | none => cases h
  | some e =>
    cases h
    exact e.mark_eq

/-- The point and the digits after it are taken off up to the exponent. -/
theorem splitPlaces_pointText {places : Option (List Char)} {e : Option Exponent}
    (h : ∀ c ∈ places.getD [], c.isDigit = true) :
    splitPlaces (pointText places ++ exponentText e) = (places.getD [], exponentText e) := by
  cases places with
  | some digits =>
    apply splitDigits_append h
    intro c hc
    rcases head?_exponentText hc with rfl | rfl <;> rfl
  | none =>
    -- Without a point the text is that of the exponent, which does not begin with one.
    show splitPlaces (exponentText e) = ([], exponentText e)
    unfold splitPlaces
    split
    · rename_i rest htext
      rcases head?_exponentText (c := '.') (e := e) (by rw [htext]; rfl) with h | h <;> cases h
    · rfl

/-- An exponent is read as the number that it denotes. -/
theorem exponent?_exponentText (e : Option Exponent) :
    exponent? (exponentText e) = some (exponentValue e) := by
  cases e with
  | none => rfl
  | some e =>
    -- The sign ends at a digit, and the digits at the end of the text.
    have hsign : splitSign (signText e.sign ++ e.digits) =
        (decide (e.sign = some true), e.digits) := by
      refine splitSign_signText fun c hc => ne_sign_of_isDigit (e.isDigit_digits c ?_)
      exact List.mem_of_mem_head? hc
    have hdigits : splitDigits e.digits = (e.digits, []) := by
      have hsplit : splitDigits (e.digits ++ []) = (e.digits, []) :=
        splitDigits_append e.isDigit_digits nofun
      rwa [List.append_nil] at hsplit
    simp [exponentText, exponent?, hsign, hdigits, e.mark_eq, e.digits_ne_nil, exponentValue]

/-- A spelling is read as what it denotes. -/
theorem ofChars?_chars (s : Spelling) : ofChars? s.chars = some s.numeral := by
  -- Each part ends where the next one begins: the sign at a digit, a point or a mark, the digits at
  -- a point or a mark.
  have hafter : ∀ c ∈ (pointText s.places ++ exponentText s.exponent).head?,
      c = '.' ∨ c = 'e' ∨ c = 'E' := by
    intro c hc
    cases hplaces : s.places with
    | some places =>
      rw [hplaces] at hc
      cases hc
      exact .inl rfl
    | none =>
      rw [hplaces] at hc
      exact .inr (head?_exponentText hc)
  have hsign : splitSign s.chars =
      (s.negative, s.whole ++ (pointText s.places ++ exponentText s.exponent)) := by
    apply splitSign_signText
    intro c hc
    -- Without digits in front of the point it is the next part that shows what follows the sign.
    cases hwhole : s.whole with
    | cons d whole =>
      rw [hwhole] at hc
      obtain rfl : d = c := Option.some.inj hc
      exact ne_sign_of_isDigit (s.isDigit_whole d (hwhole ▸ List.mem_cons_self))
    | nil =>
      rw [hwhole] at hc
      rcases hafter c hc with rfl | rfl | rfl <;> decide
  have hwhole : splitDigits (s.whole ++ (pointText s.places ++ exponentText s.exponent)) =
      (s.whole, pointText s.places ++ exponentText s.exponent) := by
    apply splitDigits_append s.isDigit_whole
    intro c hc
    rcases hafter c hc with rfl | rfl | rfl <;> rfl
  simp [ofChars?, hsign, hwhole, splitPlaces_pointText s.isDigit_places, s.exists_digit,
    exponent?_exponentText, guard]
  rfl

/-! ## What is read is a spelling -/

/-- What is taken off at the beginning of a text is a sign, if there is one. -/
theorem eq_signText_append (cs : List Char) :
    ∃ sign, cs = signText sign ++ (splitSign cs).2 ∧
      (splitSign cs).1 = decide (sign = some true) := by
  unfold splitSign
  split
  · exact ⟨some false, rfl, rfl⟩
  · exact ⟨some true, rfl, rfl⟩
  · exact ⟨none, rfl, rfl⟩

/-- The digits at the beginning and what follows them make up the text. -/
theorem splitDigits_fst_append (cs : List Char) : (splitDigits cs).1 ++ (splitDigits cs).2 = cs :=
  List.takeWhile_append_dropWhile

/-- What is taken off as digits are digits. -/
theorem isDigit_splitDigits (cs : List Char) : ∀ c ∈ (splitDigits cs).1, c.isDigit = true :=
  fun _ hc => List.mem_takeWhile_imp hc

/-- What is taken off as places is a point with digits after it, or nothing. -/
theorem eq_pointText_append (cs : List Char) :
    ∃ places : Option (List Char), cs = pointText places ++ (splitPlaces cs).2 ∧
      (splitPlaces cs).1 = places.getD [] ∧ ∀ c ∈ places.getD [], c.isDigit = true := by
  unfold splitPlaces
  split
  · rename_i rest
    refine ⟨some (splitDigits rest).1, ?_, rfl, isDigit_splitDigits rest⟩
    show '.' :: rest = '.' :: ((splitDigits rest).1 ++ (splitDigits rest).2)
    rw [splitDigits_fst_append]
  · exact ⟨none, rfl, rfl, List.forall_mem_nil _⟩

/-- A text that is read as an exponent is that of an exponent. -/
theorem eq_exponentText {value : Int} (h : exponent? cs = some value) :
    ∃ e, cs = exponentText e ∧ value = exponentValue e := by
  cases cs with
  | nil =>
    cases h
    exact ⟨none, rfl, rfl⟩
  | cons mark rest =>
    obtain ⟨sign, hrest, hnegative⟩ := eq_signText_append rest
    simp only [exponent?] at h
    -- It is read only if there is a mark, digits follow, and nothing follows these.
    split at h
    · rename_i hvalid
      obtain ⟨hmark, hdigits, hend⟩ := hvalid
      cases h
      let e : Exponent := ⟨mark, sign, _, hmark, hdigits, isDigit_splitDigits _⟩
      refine ⟨some e, ?_, ?_⟩
      · have hall := splitDigits_fst_append (splitSign rest).2
        rw [hend, List.append_nil] at hall
        show mark :: rest = mark :: (signText sign ++ (splitDigits (splitSign rest).2).1)
        rw [hall, ← hrest]
      · show _ = if sign = some true then _ else _
        simp [hnegative]
        rfl
    · cases h

/-- A text is read if it is that of a spelling, and then as what the spelling denotes. -/
theorem ofChars?_eq_some_iff {n : Numeral} :
    ofChars? cs = some n ↔ ∃ s : Spelling, s.chars = cs ∧ s.numeral = n := by
  constructor
  · intro h
    obtain ⟨sign, hsign, hnegative⟩ := eq_signText_append cs
    obtain ⟨places, hplaces, hfst, hdigits⟩ :=
      eq_pointText_append (splitDigits (splitSign cs).2).2
    have hwhole := splitDigits_fst_append (splitSign cs).2
    -- The parts that reading takes off one after the other are those of the spelling.
    simp only [ofChars?, guard, hfst] at h
    split at h
    · rename_i hsome
      cases hvalue : exponent? (splitPlaces (splitDigits (splitSign cs).2).2).2 with
      | none =>
        rw [hvalue] at h
        cases h
      | some value =>
        rw [hvalue] at h
        cases h
        obtain ⟨e, htext, rfl⟩ := eq_exponentText hvalue
        let s : Spelling := ⟨sign, _, places, e, isDigit_splitDigits _, hdigits, hsome⟩
        refine ⟨s, ?_, ?_⟩
        · -- Put together again they are the text.
          rw [Spelling.chars, ← htext, ← hplaces]
          exact (congrArg (signText sign ++ ·) hwhole).trans hsign.symm
        · rw [hnegative]
          rfl
    · cases h
  · rintro ⟨s, rfl, rfl⟩
    exact ofChars?_chars s

/-! ## The characters of a spelling -/

/-- A sign is a plus or a minus. -/
theorem mem_signText {c : Char} (h : c ∈ signText sign) : c = '+' ∨ c = '-' := by
  match sign with
  | none => cases h
  | some true => exact .inr (List.mem_singleton.1 h)
  | some false => exact .inl (List.mem_singleton.1 h)

/-- The characters of an exponent are digits, a sign and the mark. -/
theorem mem_exponentText {e : Option Exponent} {c : Char} (h : c ∈ exponentText e) :
    c.isDigit = true ∨ (c = '+' ∨ c = '-') ∨ c = 'e' ∨ c = 'E' := by
  cases e with
  | none => cases h
  | some e =>
    rcases List.mem_cons.1 h with rfl | h
    · exact .inr (.inr e.mark_eq)
    · rcases List.mem_append.1 h with hsign | hdigits
      · exact .inr (.inl (mem_signText hsign))
      · exact .inl (e.isDigit_digits c hdigits)

/-- Every character of a spelling is a digit, a sign, a point or the mark of an exponent. -/
theorem Spelling.mem_chars {s : Spelling} {c : Char} (h : c ∈ s.chars) :
    c.isDigit = true ∨ c ∈ ['+', '-', '.', 'e', 'E'] := by
  simp only [chars, List.mem_append] at h
  -- The parts one after the other; only the point and the exponent have characters of their own.
  rcases h with hsign | hwhole | hplaces | hexponent
  · rcases mem_signText hsign with rfl | rfl <;> simp
  · exact .inl (s.isDigit_whole c hwhole)
  · cases hp : s.places with
    | none =>
      rw [hp] at hplaces
      cases hplaces
    | some places =>
      rw [hp] at hplaces
      rcases List.mem_cons.1 hplaces with rfl | hdigit
      · simp
      · exact .inl (s.isDigit_places c (by rw [hp]; exact hdigit))
  · rcases mem_exponentText hexponent with hdigit | (rfl | rfl) | rfl | rfl
    · exact .inl hdigit
    all_goals simp

/-- At least one of them is a digit. -/
theorem Spelling.exists_isDigit (s : Spelling) : ∃ c ∈ s.chars, c.isDigit = true := by
  obtain ⟨c, hc⟩ := List.exists_mem_of_ne_nil _ s.exists_digit
  rcases List.mem_append.1 hc with hwhole | hplaces
  · exact ⟨c, by simp [chars, hwhole], s.isDigit_whole c hwhole⟩
  · refine ⟨c, ?_, s.isDigit_places c hplaces⟩
    cases hp : s.places with
    | none =>
      rw [hp] at hplaces
      cases hplaces
    | some places =>
      rw [hp] at hplaces
      simp [chars, hp, pointText, show c ∈ places from hplaces]

end Fish.Numeral
