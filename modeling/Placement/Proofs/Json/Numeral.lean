import Placement.Proofs.Json.Scan
/-
  Numbers as JSON spells them (`Numeral`): a minus if the number is negative, digits of which only a
  lone one is a leading zero, a fraction if there is one, an exponent if there is one.

  `scalar?_chars`: the reader takes a numeral off the front of a text and makes of it the number of
  its parts, given that what follows cannot belong to a number (`EndsNumber`). `unsigned?_eq_some`:
  what it takes is a numeral.
-/
namespace Placement.Json

open Decimal (NoDigit spanDigits)

/-- Digits, one at least. -/
structure Digits where
  chars : List Char
  nonempty : chars ≠ []
  areDigits : ∀ c ∈ chars, c.isDigit = true

/-- An exponent as JSON spells it. -/
structure Power where
  letter : Char
  /-- The sign if it is written: whether it is a minus. -/
  sign : Option Bool
  digits : Digits
  isLetter : letter = 'e' ∨ letter = 'E'

/-- A number as JSON spells it. -/
structure Numeral where
  negative : Bool
  whole : Digits
  fraction : Option Digits
  power : Option Power
  /-- Digits that start with a zero are a zero. -/
  leading : whole.chars = ['0'] ∨ whole.chars.head? ≠ some '0'

namespace Power

/-- The characters of a sign. -/
def signChars : Option Bool → List Char
  | none => []
  | some false => ['+']
  | some true => ['-']

/-- The characters of an exponent. -/
def chars (p : Power) : List Char := p.letter :: (signChars p.sign ++ p.digits.chars)

/-- The integer that an exponent denotes. -/
def value (p : Power) : Int := Decimal.signed (p.sign.getD false) (Decimal.ofDigits p.digits.chars)

end Power

namespace Numeral

/-- The characters of a fraction, its point included. -/
def fractionChars : Option Digits → List Char
  | none => []
  | some digits => '.' :: digits.chars

/-- The characters of an exponent, if there is one. -/
def powerChars : Option Power → List Char
  | none => []
  | some p => p.chars

/-- The characters of a numeral without its minus. -/
def unsignedChars (n : Numeral) : List Char :=
  n.whole.chars ++ (fractionChars n.fraction ++ powerChars n.power)

/-- The characters of a numeral. -/
def chars (n : Numeral) : List Char :=
  if n.negative then '-' :: n.unsignedChars else n.unsignedChars

/-- The parts of a numeral. -/
def literal (n : Numeral) : Decimal.Literal :=
  ⟨n.negative, n.whole.chars, (n.fraction.map Digits.chars).getD [], (n.power.map Power.value).getD 0⟩

/-- The double nearest to a numeral. -/
def nearest (n : Numeral) : Float := n.literal.toFloat

/-- A numeral without its exponent. -/
def plain (n : Numeral) : Numeral := { n with power := none }

/-- The number that the reader makes of a numeral, unless it is beyond the doubles. -/
def number? (n : Numeral) : Option Number :=
  Number.ofLiteral? n.negative n.whole.chars (n.fraction.map Digits.chars) (n.power.map Power.value)

/-- The reader takes a numeral for the double nearest to it. -/
def ReadExactly (n : Numeral) : Prop := ∃ m, n.number? = some m ∧ m.toFloat = n.nearest

end Numeral

/-! ## Reading the parts -/

theorem noDigit_append {cs tail : List Char} (h : NoDigit cs) (htail : NoDigit tail) :
    NoDigit (cs ++ tail) := by
  cases cs with
  | nil => exact htail
  | cons c rest => exact h

theorem noDigit_cons {c : Char} (h : c.isDigit = false) (rest : List Char) :
    NoDigit (c :: rest) := by
  rintro c' hc'
  cases hc'
  exact h

/-- Digits start with one. -/
theorem Digits.exists_cons (d : Digits) : ∃ c rest, d.chars = c :: rest ∧ c.isDigit = true := by
  obtain ⟨c, rest, hd⟩ := List.exists_cons_of_ne_nil d.nonempty
  exact ⟨c, rest, hd, d.areDigits c (hd ▸ List.mem_cons_self)⟩

theorem Digits.spanDigits_append (d : Digits) {tail : List Char} (h : NoDigit tail) :
    spanDigits (d.chars ++ tail) = (d.chars, tail) := Decimal.spanDigits_of_digits d.areDigits h

theorem Digits.someDigits?_append (d : Digits) {tail : List Char} (h : NoDigit tail) :
    Json.someDigits? (d.chars ++ tail) = some (d.chars, tail) := by
  unfold Json.someDigits?
  rw [d.spanDigits_append h]
  exact if_neg (by simpa using d.nonempty)

theorem Digits.someDigits?_self (d : Digits) : Json.someDigits? d.chars = some (d.chars, []) := by
  have h : Json.someDigits? (d.chars ++ []) = some (d.chars, []) := d.someDigits?_append nofun
  rwa [List.append_nil] at h

theorem fraction?_of_no_point {cs : List Char} (h : cs.head? ≠ some '.') :
    fraction? cs = some (none, cs) := by
  unfold fraction?
  split
  · exact absurd rfl h
  · rfl

theorem Power.exponent?_chars (p : Power) :
    Json.exponent? (signChars p.sign ++ p.digits.chars) = some (p.value, []) := by
  unfold value
  cases p.sign with
  | some minus =>
    cases minus <;>
    · show (Json.someDigits? p.digits.chars).map _ = _
      rw [p.digits.someDigits?_self]
      rfl
  | none =>
    -- the reader tells a missing sign by the first digit
    obtain ⟨c, rest, hd, hc⟩ := p.digits.exists_cons
    have hplus : c ≠ '+' := by rintro rfl; exact absurd hc (by decide)
    have hminus : c ≠ '-' := by rintro rfl; exact absurd hc (by decide)
    have hdigits := p.digits.someDigits?_self
    rw [hd] at hdigits ⊢
    unfold Json.exponent? signChars
    split
    · rename_i heq
      exact absurd (List.cons.inj heq).1 hplus
    · rename_i heq
      exact absurd (List.cons.inj heq).1 hminus
    · rw [List.nil_append, hdigits]
      rfl

theorem Power.power?_chars (p : Power) : Json.power? p.chars = some (some p.value, []) := by
  have hpower : Json.power? p.chars = (Json.exponent? (signChars p.sign ++ p.digits.chars)).map
      fun r => (some r.1, r.2) := by
    obtain ⟨_, _, _, rfl | rfl⟩ := p <;> rfl
  rw [hpower, p.exponent?_chars]
  rfl

namespace Numeral

variable (n : Numeral)

/-- What follows the digits before the point is no digit. -/
theorem noDigit_powerChars : NoDigit (powerChars n.power) := by
  cases n.power with
  | none => nofun
  | some p => obtain ⟨_, _, _, rfl | rfl⟩ := p <;> exact noDigit_cons rfl _

theorem noDigit_fractionChars :
    NoDigit (fractionChars n.fraction ++ powerChars n.power) := by
  cases n.fraction with
  | none => exact n.noDigit_powerChars
  | some digits => exact noDigit_cons rfl _

theorem whole?_append {tail : List Char} (h : NoDigit tail) :
    whole? (n.whole.chars ++ tail) = some (n.whole.chars, tail) := by
  rcases n.leading with hzero | hhead
  · rw [hzero]
    rfl
  · have hdigits := n.whole.someDigits?_append h
    obtain ⟨c, rest, hd, -⟩ := n.whole.exists_cons
    rw [hd] at hdigits hhead ⊢
    unfold whole?
    split
    · rename_i heq
      exact absurd (congrArg some (List.cons.inj heq).1) hhead
    · exact hdigits

theorem fraction?_chars :
    fraction? (fractionChars n.fraction ++ powerChars n.power)
      = some (n.fraction.map Digits.chars, powerChars n.power) := by
  cases n.fraction with
  | none =>
    refine fraction?_of_no_point ?_
    cases n.power with
    | none => nofun
    | some p => obtain ⟨_, _, _, rfl | rfl⟩ := p <;> simp [fractionChars, powerChars, Power.chars]
  | some digits =>
    show (someDigits? (digits.chars ++ _)).map _ = _
    rw [digits.someDigits?_append n.noDigit_powerChars]
    rfl

theorem power?_chars :
    power? (powerChars n.power) = some (n.power.map Power.value, []) := by
  cases n.power with
  | none => rfl
  | some p => exact p.power?_chars

/-- A numeral is read whole, as the number of its parts. -/
theorem unsigned?_chars {m : Number} (h : n.number? = some m) :
    unsigned? n.negative n.unsignedChars = some (.number m, []) := by
  unfold unsigned? unsignedChars
  simp only [n.whole?_append n.noDigit_fractionChars, n.fraction?_chars, n.power?_chars,
    Option.bind_eq_bind, Option.bind_some]
  show (n.number?.bind _) = _
  rw [h]
  rfl

theorem unsignedChars_head : ∃ c rest, n.unsignedChars = c :: rest ∧ c.isDigit = true := by
  obtain ⟨c, rest, hd, hc⟩ := n.whole.exists_cons
  unfold unsignedChars
  rw [hd]
  exact ⟨c, _, rfl, hc⟩

/-- The characters of a numeral that are no digits. -/
def marks : List Char := ['-', '+', '.', 'e', 'E']

theorem mem_powerChars {c : Char} (h : c ∈ powerChars n.power) : c.isDigit = true ∨ c ∈ marks := by
  cases hp : n.power with
  | none =>
    rw [hp] at h
    exact absurd h List.not_mem_nil
  | some p =>
    rw [hp] at h
    rcases List.mem_cons.mp h with rfl | h
    · right
      rcases p.isLetter with hletter | hletter <;> rw [hletter] <;> decide
    · rcases List.mem_append.mp h with h | h
      · right
        cases hsign : p.sign with
        | none =>
          rw [hsign] at h
          exact absurd h List.not_mem_nil
        | some minus =>
          rw [hsign] at h
          cases minus <;> rw [List.mem_singleton.mp h] <;> decide
      · exact .inl (p.digits.areDigits c h)

theorem mem_chars {c : Char} (h : c ∈ n.chars) : c.isDigit = true ∨ c ∈ marks := by
  have hunsigned (h : c ∈ n.unsignedChars) : c.isDigit = true ∨ c ∈ marks := by
    rcases List.mem_append.mp h with h | h
    · exact .inl (n.whole.areDigits c h)
    · rcases List.mem_append.mp h with h | h
      · cases hf : n.fraction with
        | none =>
          rw [hf] at h
          exact absurd h List.not_mem_nil
        | some digits =>
          rw [hf] at h
          rcases List.mem_cons.mp h with rfl | h
          · exact .inr (by decide)
          · exact .inl (digits.areDigits c h)
      · exact n.mem_powerChars h
  unfold chars at h
  split_ifs at h
  · rcases List.mem_cons.mp h with rfl | h
    · exact .inr (by decide)
    · exact hunsigned h
  · exact hunsigned h

/-- A numeral starts with a minus or a digit. -/
theorem chars_head : ∃ c rest, n.chars = c :: rest ∧ (c = '-' ∨ c.isDigit = true) := by
  unfold chars
  cases n.negative with
  | true => exact ⟨'-', _, rfl, .inl rfl⟩
  | false =>
    obtain ⟨c, rest, hd, hc⟩ := n.unsignedChars_head
    exact ⟨c, rest, hd, .inr hc⟩

theorem scalar?_chars_self {m : Number} (h : n.number? = some m) :
    scalar? n.chars = some (.number m, []) := by
  have hread := n.unsigned?_chars h
  unfold chars
  cases hnegative : n.negative with
  | true =>
    rw [hnegative] at hread
    exact hread
  | false =>
    obtain ⟨c, rest, hd, hc⟩ := n.unsignedChars_head
    rw [hnegative, hd] at hread
    rw [if_neg Bool.false_ne_true, hd, scalar?_digit hc]
    exact hread

/-- The reader takes a numeral off the front of a text. -/
theorem scalar?_chars {m : Number} (h : n.number? = some m) {tail : List Char}
    (htail : EndsNumber tail) : scalar? (n.chars ++ tail) = some (.number m, tail) :=
  scalar?_append htail (n.scalar?_chars_self h)

end Numeral

/-! ## What is read is a numeral -/

theorem someDigits?_eq_some {cs ds rest : List Char} (h : someDigits? cs = some (ds, rest)) :
    ∃ d : Digits, d.chars = ds ∧ cs = ds ++ rest := by
  obtain ⟨hdigits, hsplit⟩ := Decimal.spanDigits_split cs
  unfold someDigits? at h
  dsimp only at h
  split_ifs at h with hempty
  rw [Option.some.inj h] at hdigits hsplit hempty
  exact ⟨⟨ds, by simpa using hempty, hdigits⟩, rfl, hsplit⟩

theorem whole?_eq_some {cs ds rest : List Char} (h : whole? cs = some (ds, rest)) :
    ∃ d : Digits, d.chars = ds ∧ (ds = ['0'] ∨ ds.head? ≠ some '0') ∧ cs = ds ++ rest := by
  unfold whole? at h
  split at h
  · cases h
    exact ⟨⟨['0'], by decide, List.all_eq_true.mp rfl⟩, rfl, .inl rfl, rfl⟩
  · rename_i hzero
    obtain ⟨d, rfl, rfl⟩ := someDigits?_eq_some h
    obtain ⟨c, more, hd, -⟩ := d.exists_cons
    refine ⟨d, rfl, .inr fun hhead => ?_, rfl⟩
    rw [hd] at hhead hzero
    exact hzero _ (by rw [Option.some.inj hhead]; rfl)

theorem fraction?_eq_some {cs rest : List Char} {f : Option (List Char)}
    (h : fraction? cs = some (f, rest)) :
    ∃ d : Option Digits, f = d.map Digits.chars ∧ cs = Numeral.fractionChars d ++ rest := by
  unfold fraction? at h
  split at h
  · obtain ⟨⟨ds, more⟩, hds, heq⟩ := Option.map_eq_some_iff.mp h
    obtain ⟨d, rfl, rfl⟩ := someDigits?_eq_some hds
    cases heq
    exact ⟨some d, rfl, rfl⟩
  · cases h
    exact ⟨none, rfl, rfl⟩

theorem exponent?_eq_some {cs rest : List Char} {e : Int} (h : exponent? cs = some (e, rest)) :
    ∃ (sign : Option Bool) (d : Digits),
      e = Decimal.signed (sign.getD false) (Decimal.ofDigits d.chars) ∧
      cs = Power.signChars sign ++ (d.chars ++ rest) := by
  unfold exponent? at h
  split at h
  case' h_1 => refine ⟨some false, ?_⟩
  case' h_2 => refine ⟨some true, ?_⟩
  case' h_3 => refine ⟨none, ?_⟩
  all_goals
    obtain ⟨⟨ds, more⟩, hds, heq⟩ := Option.map_eq_some_iff.mp h
    obtain ⟨d, rfl, rfl⟩ := someDigits?_eq_some hds
    cases heq
    exact ⟨d, rfl, rfl⟩

theorem power?_eq_some {cs rest : List Char} {e : Option Int} (h : power? cs = some (e, rest)) :
    ∃ p : Option Power, e = p.map Power.value ∧ cs = Numeral.powerChars p ++ rest := by
  have hpower (letter : Char) (hletter : letter = 'e' ∨ letter = 'E') {more : List Char}
      (h : (exponent? more).map (fun r => (some r.1, r.2)) = some (e, rest)) :
      ∃ p : Option Power, e = p.map Power.value ∧
        letter :: more = Numeral.powerChars p ++ rest := by
    obtain ⟨⟨value, after⟩, hvalue, heq⟩ := Option.map_eq_some_iff.mp h
    obtain ⟨sign, d, rfl, rfl⟩ := exponent?_eq_some hvalue
    cases heq
    exact ⟨some ⟨letter, sign, d, hletter⟩, rfl, by simp [Numeral.powerChars, Power.chars]⟩
  unfold power? at h
  split at h
  · exact hpower 'e' (.inl rfl) h
  · exact hpower 'E' (.inr rfl) h
  · cases h
    exact ⟨none, rfl, rfl⟩

/-- What is read as a number is a numeral, and it is read as the number of its parts. -/
theorem unsigned?_eq_some {negative : Bool} {cs rest : List Char} {v : Json}
    (h : unsigned? negative cs = some (v, rest)) :
    ∃ (n : Numeral) (m : Number), n.negative = negative ∧ n.number? = some m ∧ v = .number m ∧
      cs = n.unsignedChars ++ rest := by
  simp only [unsigned?, Option.bind_eq_bind, Option.bind_eq_some_iff] at h
  obtain ⟨⟨_, _⟩, hwhole, ⟨_, _⟩, hfraction, ⟨_, _⟩, hpower, m, hm, heq⟩ := h
  obtain ⟨whole, rfl, hleading, rfl⟩ := whole?_eq_some hwhole
  obtain ⟨fraction, rfl, rfl⟩ := fraction?_eq_some hfraction
  obtain ⟨power, rfl, rfl⟩ := power?_eq_some hpower
  cases heq
  exact ⟨⟨negative, whole, fraction, power, hleading⟩, m, rfl, hm, rfl,
    by simp [Numeral.unsignedChars]⟩

end Placement.Json
