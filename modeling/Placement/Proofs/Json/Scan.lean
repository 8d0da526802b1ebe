import Placement.Json.Printer
import Placement.Json.Reader
import Placement.Proofs.Decimal.Digits
/-
  What the scanners of the reader do with printed text. `scalar?_append`: a number that is read to
  the end of a text is read all the same when the text goes on with something that cannot belong to
  a number (`EndsNumber`). `ofLiteral?_natural` and `ofLiteral?_negative`: digits of an integer are
  read as that integer. `stringBody?_flatMap`: a string literal is read as the string it was printed
  from.
-/
namespace Placement.Json

open Decimal (NoDigit spanDigits spanDigits_append)

/-! ## Numbers -/

/-- A text does not go on with a character of a number. -/
def EndsNumber (tail : List Char) : Prop :=
  ∀ c, tail.head? = some c → c.isDigit = false ∧ c ≠ '.' ∧ c ≠ 'e' ∧ c ≠ 'E'

theorem EndsNumber.noDigit {tail : List Char} (h : EndsNumber tail) : NoDigit tail :=
  fun c hc => (h c hc).1

theorem endsNumber_nil : EndsNumber [] := nofun

/-- A result of a scanner on a text that goes on. -/
def goingOn {α : Type} (tail : List Char) (r : α × List Char) : α × List Char := (r.1, r.2 ++ tail)

theorem someDigits?_append {tail : List Char} (h : NoDigit tail) (cs : List Char) :
    someDigits? (cs ++ tail) = (someDigits? cs).map (goingOn tail) := by
  simp only [someDigits?]
  rw [spanDigits_append h]
  split <;> rfl

/-- A text that does not start with a digit has no whole part. -/
theorem whole?_of_noDigit {cs : List Char} (h : NoDigit cs) : whole? cs = none := by
  cases cs with
  | nil => rfl
  | cons c rest =>
    have hne : c ≠ '0' := by
      rintro rfl
      exact absurd (h '0' rfl) (by decide)
    unfold whole?
    split
    · rename_i heq
      exact absurd (List.cons.inj heq).1 hne
    · exact someDigits?_append h []

/-- A whole part starts with a digit. -/
theorem whole?_head {cs : List Char} {r : List Char × List Char} (h : whole? cs = some r) :
    ∃ c rest, cs = c :: rest ∧ c.isDigit = true := by
  cases cs with
  | nil => exact nomatch h
  | cons c rest =>
    refine ⟨c, rest, rfl, ?_⟩
    by_contra hc
    have hno : NoDigit (c :: rest) := by
      rintro c' hc'
      cases hc'
      exact Bool.eq_false_iff.mpr hc
    rw [whole?_of_noDigit hno] at h
    exact nomatch h

section

variable {tail : List Char} (h : EndsNumber tail)
include h

theorem whole?_append (cs : List Char) :
    whole? (cs ++ tail) = (whole? cs).map (goingOn tail) := by
  cases cs with
  | nil => exact whole?_of_noDigit h.noDigit
  | cons c rest =>
    by_cases hc : c = '0'
    · subst hc
      rfl
    · have hdigits : ∀ more, whole? (c :: more) = someDigits? (c :: more) := by
        intro more
        unfold whole?
        split
        · rename_i heq
          exact absurd (List.cons.inj heq).1 hc
        · rfl
      rw [hdigits rest, ← someDigits?_append h.noDigit]
      exact hdigits (rest ++ tail)

theorem fraction?_append (cs : List Char) :
    fraction? (cs ++ tail) = (fraction? cs).map (goingOn tail) := by
  have hnone : ∀ c more, c ≠ '.' → fraction? (c :: more) = some (none, c :: more) := by
    intro c more hc
    unfold fraction?
    split
    · rename_i heq
      exact absurd (List.cons.inj heq).1 hc
    · rfl
  cases cs with
  | nil =>
    cases tail with
    | nil => rfl
    | cons c rest => exact hnone c rest (h c rfl).2.1
  | cons c rest =>
    by_cases hc : c = '.'
    · subst hc
      show (someDigits? (rest ++ tail)).map _ = ((someDigits? rest).map _).map _
      rw [someDigits?_append h.noDigit, Option.map_map, Option.map_map]
      rfl
    · rw [hnone c rest hc]
      exact hnone c (rest ++ tail) hc

theorem exponent?_append {cs : List Char} {r : Int × List Char} (hs : exponent? cs = some r) :
    exponent? (cs ++ tail) = some (goingOn tail r) := by
  have hsigned : ∀ (negative : Bool) (more : List Char),
      (someDigits? more).map (fun r => (Decimal.signed negative (Decimal.ofDigits r.1), r.2))
        = some r →
      (someDigits? (more ++ tail)).map
        (fun r => (Decimal.signed negative (Decimal.ofDigits r.1), r.2))
        = some (goingOn tail r) := by
    intro negative more hm
    rw [someDigits?_append h.noDigit, Option.map_map]
    obtain ⟨digits, hdigits, rfl⟩ := Option.map_eq_some_iff.mp hm
    rw [hdigits]
    rfl
  have hplain : ∀ c more, c ≠ '+' → c ≠ '-' → exponent? (c :: more) =
      (someDigits? (c :: more)).map
        (fun r => (Decimal.signed false (Decimal.ofDigits r.1), r.2)) := by
    intro c more hplus hminus
    unfold exponent?
    split
    · rename_i heq
      exact absurd (List.cons.inj heq).1 hplus
    · rename_i heq
      exact absurd (List.cons.inj heq).1 hminus
    · rfl
  cases cs with
  | nil => exact nomatch hs
  | cons c rest =>
    by_cases hplus : c = '+'
    · subst hplus
      exact hsigned false rest hs
    · by_cases hminus : c = '-'
      · subst hminus
        exact hsigned true rest hs
      · rw [hplain c rest hplus hminus] at hs
        exact (hplain c (rest ++ tail) hplus hminus).trans (hsigned false (c :: rest) hs)

theorem power?_append {cs : List Char} {r : Option Int × List Char} (hs : power? cs = some r) :
    power? (cs ++ tail) = some (goingOn tail r) := by
  have hsome : ∀ more, (exponent? more).map (fun r => (some r.1, r.2)) = some r →
      (exponent? (more ++ tail)).map (fun r => (some r.1, r.2)) = some (goingOn tail r) := by
    intro more hm
    obtain ⟨e, he, rfl⟩ := Option.map_eq_some_iff.mp hm
    rw [exponent?_append h he]
    rfl
  have hnone : ∀ c more, c ≠ 'e' → c ≠ 'E' → power? (c :: more) = some (none, c :: more) := by
    intro c more he hE
    unfold power?
    split
    · rename_i heq
      exact absurd (List.cons.inj heq).1 he
    · rename_i heq
      exact absurd (List.cons.inj heq).1 hE
    · rfl
  cases cs with
  | nil =>
    cases hs
    cases tail with
    | nil => rfl
    | cons c rest =>
      obtain ⟨-, -, he, hE⟩ := h c rfl
      exact hnone c rest he hE
  | cons c rest =>
    by_cases he : c = 'e'
    · subst he
      exact hsome rest hs
    · by_cases hE : c = 'E'
      · subst hE
        exact hsome rest hs
      · rw [hnone c rest he hE] at hs
        cases hs
        exact hnone c (rest ++ tail) he hE

/-- A number that is read before the end of a text is read all the same when the text goes on. -/
theorem unsigned?_append {negative : Bool} {cs : List Char} {r : Json × List Char}
    (hs : unsigned? negative cs = some r) :
    unsigned? negative (cs ++ tail) = some (goingOn tail r) := by
  simp only [unsigned?, Option.bind_eq_bind, Option.bind_eq_some_iff] at hs ⊢
  obtain ⟨⟨whole, rest⟩, hw, ⟨fraction, rest'⟩, hf, ⟨power, rest''⟩, hp, n, hn, hr⟩ := hs
  refine ⟨(whole, rest ++ tail), ?_, (fraction, rest' ++ tail), ?_, (power, rest'' ++ tail), ?_,
    n, hn, ?_⟩
  · rw [whole?_append h, hw]
    rfl
  · rw [fraction?_append h, hf]
    rfl
  · exact power?_append h hp
  · cases hr
    rfl

/-! ## Integers -/

/-- The digits of an integer are its whole part. -/
theorem whole?_toDigits (n : Nat) :
    whole? (Nat.toDigits 10 n ++ tail) = some (Nat.toDigits 10 n, tail) := by
  rw [whole?_append h]
  have hspan : spanDigits (Nat.toDigits 10 n) = (Nat.toDigits 10 n, []) := by
    have hd : spanDigits (Nat.toDigits 10 n ++ []) = (Nat.toDigits 10 n, []) :=
      Decimal.spanDigits_of_digits (fun c hc => Decimal.isDigit_toDigits hc) nofun
    rwa [List.append_nil] at hd
  have hwhole : whole? (Nat.toDigits 10 n) = some (Nat.toDigits 10 n, []) := by
    rcases Nat.eq_zero_or_pos n with rfl | hpos
    · rfl
    · unfold whole?
      split
      · rename_i heq
        exact absurd heq (Decimal.toDigits_head_ne_zero hpos _)
      · simp only [someDigits?]
        rw [hspan, if_neg (by simp [Nat.toDigits_ne_nil])]
  rw [hwhole]
  rfl

theorem fraction?_tail : fraction? tail = some (none, tail) := fraction?_append h []

theorem power?_tail : power? tail = some (none, tail) :=
  power?_append h (show power? [] = some (none, []) from rfl)

theorem unsigned?_toDigits (negative : Bool) (n : Nat) :
    unsigned? negative (Nat.toDigits 10 n ++ tail) =
      (Number.ofLiteral? negative (Nat.toDigits 10 n) none none).map
        fun m => (.number m, tail) := by
  simp only [unsigned?, whole?_toDigits h n, fraction?_tail h, power?_tail h,
    Option.bind_eq_bind, Option.bind_some]
  cases Number.ofLiteral? negative (Nat.toDigits 10 n) none none <;> rfl

omit h in
theorem ofLiteral?_natural (n : UInt64) :
    Number.ofLiteral? false (Nat.toDigits 10 n.toNat) none none = some (.natural n) := by
  unfold Number.ofLiteral?
  rw [Decimal.ofDigits_toDigits]
  simp [n.toNat_lt]

omit h in
theorem ofLiteral?_negative {i : Int64} (hi : i < 0) :
    Number.ofLiteral? true (Nat.toDigits 10 i.toInt.natAbs) none none = some (.negative i) := by
  have hneg : i.toInt < 0 := Int64.lt_iff_toInt_lt.mp hi
  have hlow := i.le_toInt
  unfold Number.ofLiteral?
  rw [Decimal.ofDigits_toDigits]
  have habs : -(i.toInt.natAbs : Int) = i.toInt := by omega
  simp only [Option.isNone_none, Bool.and_self, Bool.not_true, Bool.and_false, Bool.false_and]
  rw [if_neg Bool.false_ne_true, if_pos (by simp; omega), habs, Int64.ofInt_toInt]

/-! ## Scalars -/

omit h in
/-- What starts with a digit is a number. -/
theorem scalar?_digit {c : Char} (hc : c.isDigit = true) (rest : List Char) :
    scalar? (c :: rest) = unsigned? false (c :: rest) := by
  unfold scalar?
  split
  case h_6 => rfl
  all_goals
    rename_i heq
    rw [(List.cons.inj heq).1] at hc
    exact absurd hc (by decide)

omit h in
theorem unsigned?_head {negative : Bool} {cs : List Char} {r : Json × List Char}
    (hs : unsigned? negative cs = some r) : ∃ c rest, cs = c :: rest ∧ c.isDigit = true := by
  simp only [unsigned?, Option.bind_eq_bind, Option.bind_eq_some_iff] at hs
  obtain ⟨_, hw, -⟩ := hs
  exact whole?_head hw

omit h in
/-- The text of a number starts with a digit or a minus. -/
theorem scalar?_number {cs rest : List Char} {n : Number}
    (hs : scalar? cs = some (.number n, rest)) :
    (∃ more, cs = '-' :: more ∧ unsigned? true more = some (.number n, rest)) ∨
      ∃ c more, cs = c :: more ∧ c.isDigit = true ∧
        unsigned? false (c :: more) = some (.number n, rest) := by
  unfold scalar? at hs
  split at hs
  · exact nomatch hs
  · exact nomatch hs
  · exact nomatch hs
  · obtain ⟨_, -, hr⟩ := Option.map_eq_some_iff.mp hs
    exact nomatch hr
  · exact .inl ⟨_, rfl, hs⟩
  · obtain ⟨c, more, rfl, hc⟩ := unsigned?_head hs
    exact .inr ⟨c, more, rfl, hc, hs⟩

/-- A number is read all the same when the text goes on. -/
theorem scalar?_append {cs rest : List Char} {n : Number}
    (hs : scalar? cs = some (.number n, rest)) :
    scalar? (cs ++ tail) = some (.number n, rest ++ tail) := by
  rcases scalar?_number hs with ⟨more, rfl, hm⟩ | ⟨c, more, rfl, hc, hm⟩
  · exact unsigned?_append h hm
  · rw [List.cons_append, scalar?_digit hc]
    exact unsigned?_append h hm

end

/-- Where no container starts, a value is a scalar, however deep it may go. -/
theorem value?_of_scalar? {cs : List Char} {r : Json × List Char} (hs : scalar? cs = some r)
    (depth : Nat) : value? depth cs = some r := by
  cases depth with
  | zero => exact hs
  | succ depth =>
    unfold value?
    split
    · exact nomatch hs
    · exact nomatch hs
    · exact hs

/-! ## Strings -/

theorem stringBody?_quote (rest : List Char) : stringBody? ('"' :: rest) = some ([], rest) := by
  rw [stringBody?]
  rfl

/-- An escape stands for its character. -/
theorem stringBody?_escape {c : Char} {more rest : List Char}
    (h : escape? more = some (c, rest)) :
    stringBody? ('\\' :: more) = (stringBody? rest).map fun r => (c :: r.1, r.2) := by
  rw [stringBody?, if_neg (by decide), if_pos rfl]
  split
  · rename_i hnone
    rw [h] at hnone
    cases hnone
  · rename_i hsome
    rw [h] at hsome
    cases hsome
    rfl

/-- A character that needs no escape stands for itself. -/
theorem stringBody?_plain {c : Char} (hquote : c ≠ '"') (hslash : c ≠ '\\')
    (hcontrol : ¬ c.toNat < 0x20) (rest : List Char) :
    stringBody? (c :: rest) = (stringBody? rest).map fun r => (c :: r.1, r.2) := by
  rw [stringBody?, if_neg hquote, if_neg hslash, if_neg hcontrol]

/-- A control character is read back from its number. -/
theorem numberedChar?_control {c : Char} (h : c.toNat < 0x20) (rest : List Char) :
    numberedChar? (['0', '0', Text.hexDigit (c.toNat / 16), Text.hexDigit c.toNat] ++ rest)
      = some (c, rest) := by
  have hall : ∀ n < 0x20, hexValue? (Text.hexDigit (n / 16)) = some (n / 16) ∧
      hexValue? (Text.hexDigit n) = some (n % 16) := by decide
  obtain ⟨hhigh, hlow⟩ := hall c.toNat h
  have hunit : hexUnit? (['0', '0', Text.hexDigit (c.toNat / 16), Text.hexDigit c.toNat] ++ rest)
      = some (c.toNat, rest) := by
    have hzero : hexValue? '0' = some 0 := rfl
    simp only [hexUnit?, List.cons_append, List.nil_append, hzero, hhigh, hlow,
      Option.bind_eq_bind, Option.bind_some]
    rw [show ((0 * 16 + 0) * 16 + c.toNat / 16) * 16 + c.toNat % 16 = c.toNat by omega]
  simp only [numberedChar?, hunit, Option.bind_eq_bind, Option.bind_some]
  rw [if_neg (by omega), if_neg (by omega), Char.ofNat_toNat]

/-- What a character is printed as is read as that character. -/
theorem stringBody?_escaped (c : Char) (rest : List Char) :
    stringBody? (escaped c ++ rest) = (stringBody? rest).map fun r => (c :: r.1, r.2) := by
  unfold escaped
  split
  · subst c
    exact stringBody?_escape rfl
  split
  · subst c
    exact stringBody?_escape rfl
  split
  · subst c
    exact stringBody?_escape rfl
  split
  · subst c
    exact stringBody?_escape rfl
  split
  · subst c
    exact stringBody?_escape rfl
  split
  · subst c
    exact stringBody?_escape rfl
  split
  · subst c
    exact stringBody?_escape rfl
  split
  · rename_i hcontrol
    exact stringBody?_escape (numberedChar?_control hcontrol rest)
  · exact stringBody?_plain ‹_› ‹_› ‹_› rest

/-- A printed string is read up to its closing quote. -/
theorem stringBody?_flatMap (cs rest : List Char) :
    stringBody? (cs.flatMap escaped ++ '"' :: rest) = some (cs, rest) := by
  induction cs with
  | nil => exact stringBody?_quote rest
  | cons c cs ih =>
    rw [List.flatMap_cons, List.append_assoc, stringBody?_escaped, ih]
    rfl

theorem renderText_append (s : String) (tail : List Char) :
    (renderText s).toList ++ tail = '"' :: (s.toList.flatMap escaped ++ '"' :: tail) := by
  unfold renderText
  rw [String.toList_ofList]
  simp

end Placement.Json
