import Placement.Proofs.Json.Numeral
import Placement.Toml.Lexeme
/-
  Numbers of a document. A number without an exponent is spelled alike in TOML and in JSON, so the
  numerals of JSON serve here as well. `numberOrMoment?_double` and `numberOrMoment?_integer`: at
  the end of a line the reader takes one for the number of its parts, given that it is in range. It
  cannot be mistaken for a date or a time of day, since the digits that it starts with are followed
  by a point or by the end of the line.
-/
namespace Placement.Toml

open Decimal (NoDigit)
open Json (Digits Numeral)

/-! ## Runs of digits -/

/-- A run of digits ends here. -/
def EndsRun (tail : List Char) : Prop := ∀ c, tail.head? = some c → c.isDigit = false ∧ c ≠ '_'

theorem endsRun_cons {c : Char} (hdigit : c.isDigit = false) (hscore : c ≠ '_') (rest : List Char) :
    EndsRun (c :: rest) := by
  rintro c' hc'
  cases hc'
  exact ⟨hdigit, hscore⟩

/-- A run of digits is taken whole. -/
theorem digitRun?_append {ds tail : List Char} (hne : ds ≠ [])
    (hdigits : ∀ c ∈ ds, c.isDigit = true) (htail : EndsRun tail) :
    digitRun? Char.isDigit (ds ++ tail) = some (ds, tail) := by
  induction ds with
  | nil => exact absurd rfl hne
  | cons c ds ih =>
    obtain ⟨hc, hrest⟩ := List.forall_mem_cons.mp hdigits
    cases ds with
    | nil =>
      cases tail with
      | nil => simp [digitRun?, hc]
      | cons t tail =>
        obtain ⟨ht, hscore⟩ := htail t rfl
        show digitRun? Char.isDigit (c :: t :: tail) = some ([c], t :: tail)
        rw [digitRun?, if_pos hc, if_neg (by rw [ht]; exact Bool.false_ne_true)]
        exact hscore
    | cons d ds =>
      have hd : d.isDigit = true := hrest d List.mem_cons_self
      have hscore : d ≠ '_' := by
        rintro rfl
        exact absurd hd (by decide)
      have hrun : digitRun? Char.isDigit (d :: (ds ++ tail)) = some (d :: ds, tail) :=
        ih (List.cons_ne_nil d ds) hrest
      show digitRun? Char.isDigit (c :: d :: (ds ++ tail)) = some (c :: d :: ds, tail)
      rw [digitRun?, if_pos hc, if_pos hd, hrun]
      · rfl
      · exact hscore

theorem digitRun?_digits (d : Digits) {tail : List Char} (htail : EndsRun tail) :
    digitRun? Char.isDigit (d.chars ++ tail) = some (d.chars, tail) :=
  digitRun?_append d.nonempty d.areDigits htail

/-! ## Numerals -/

section Numeral

variable (n : Numeral) (hpower : n.power = none) (rest : List Char)

/-- What follows the digits before the point at the end of a line. -/
def afterWhole (n : Numeral) (rest : List Char) : List Char :=
  Numeral.fractionChars n.fraction ++ '\n' :: rest

theorem afterWhole_head : ∃ c more, afterWhole n rest = c :: more ∧ (c = '.' ∨ c = '\n') := by
  unfold afterWhole
  cases n.fraction with
  | none => exact ⟨'\n', _, rfl, .inr rfl⟩
  | some digits => exact ⟨'.', _, rfl, .inl rfl⟩

theorem endsRun_afterWhole : EndsRun (afterWhole n rest) := by
  obtain ⟨c, more, hcons, hc⟩ := afterWhole_head n rest
  rw [hcons]
  rcases hc with rfl | rfl <;> exact endsRun_cons rfl (by decide) more

theorem whole?_numeral :
    whole? (n.whole.chars ++ afterWhole n rest) = some (n.whole.chars, afterWhole n rest) := by
  rcases n.leading with hzero | hhead
  · rw [hzero]
    rfl
  · obtain ⟨c, more, hd, -⟩ := n.whole.exists_cons
    have hrun := digitRun?_digits n.whole (endsRun_afterWhole n rest)
    rw [hd] at hrun hhead ⊢
    unfold whole?
    split
    · rename_i heq
      exact absurd (congrArg some (List.cons.inj heq).1) hhead
    · exact hrun

theorem fraction?_numeral :
    fraction? (afterWhole n rest) = some (n.fraction.map Digits.chars, '\n' :: rest) := by
  unfold afterWhole
  cases n.fraction with
  | none => rfl
  | some digits =>
    show (digitRun? Char.isDigit (digits.chars ++ '\n' :: rest)).map _ = _
    rw [digitRun?_digits digits (endsRun_cons rfl (by decide) rest)]
    rfl

include hpower in
theorem unsignedChars_eq :
    n.unsignedChars ++ '\n' :: rest = n.whole.chars ++ afterWhole n rest := by
  unfold Numeral.unsignedChars afterWhole
  rw [hpower, List.append_assoc, List.append_assoc]
  rfl

theorem not_isInf_of_isFinite {x : Float} (h : x.isFinite = true) : x.isInf = false := by
  change x.toModel.unpack.isFinite = true at h
  show x.toModel.unpack.isInf = false
  cases hu : x.toModel.unpack with
  | infinity s =>
    rw [hu] at h
    exact absurd h Bool.false_ne_true
  | _ => rfl

include hpower in
/-- With a fraction a numeral is a double. -/
theorem decimal?_double (hfraction : n.fraction ≠ none) (hfinite : n.nearest.isFinite = true) :
    decimal? n.negative (n.unsignedChars ++ '\n' :: rest)
      = some (.double n.nearest, '\n' :: rest) := by
  obtain ⟨digits, hdigits⟩ := Option.ne_none_iff_exists'.mp hfraction
  have hnearest : n.nearest = Decimal.Literal.toFloat
      ⟨n.negative, n.whole.chars, digits.chars, 0⟩ := by
    unfold Numeral.nearest Numeral.literal
    rw [hdigits, hpower]
    rfl
  have hinf := not_isInf_of_isFinite hfinite
  rw [hnearest] at hinf ⊢
  rw [unsignedChars_eq n hpower]
  unfold decimal?
  simp only [whole?_numeral, fraction?_numeral, Option.bind_eq_bind, Option.bind_some]
  rw [hdigits]
  simp [power?, hinf]

include hpower in
/-- Without one it is an integer. -/
theorem decimal?_integer (hfraction : n.fraction = none) {v : Toml}
    (hv : integer? n.negative (Decimal.ofDigits n.whole.chars) = some v) :
    decimal? n.negative (n.unsignedChars ++ '\n' :: rest) = some (v, '\n' :: rest) := by
  rw [unsignedChars_eq n hpower]
  unfold decimal?
  simp only [whole?_numeral, fraction?_numeral, Option.bind_eq_bind, Option.bind_some]
  rw [hfraction]
  simp [power?, hv]

include hpower in
/-- The first digits of a numeral are followed by a point or the end of the line. -/
theorem after_digits {ds more : List Char} {c : Char} (hne : ds ≠ [])
    (hdigits : ∀ c ∈ ds, c.isDigit = true) (hc : c.isDigit = false)
    (h : n.chars ++ '\n' :: rest = ds ++ c :: more) : c = '.' ∨ c = '\n' := by
  have hspan : Decimal.spanDigits (ds ++ c :: more) = (ds, c :: more) :=
    Decimal.spanDigits_of_digits hdigits (Json.noDigit_cons hc more)
  rw [← h] at hspan
  unfold Numeral.chars at hspan
  cases hnegative : n.negative with
  | true =>
    rw [hnegative, if_pos rfl] at hspan
    have hnil : Decimal.spanDigits ('-' :: n.unsignedChars ++ '\n' :: rest)
        = ([], '-' :: n.unsignedChars ++ '\n' :: rest) :=
      @Decimal.spanDigits_of_digits [] _ (fun _ h => absurd h List.not_mem_nil)
        (Json.noDigit_cons rfl _)
    rw [hnil] at hspan
    exact absurd (Prod.mk.inj hspan).1.symm hne
  | false =>
    obtain ⟨c', more', hcons, hc'⟩ := afterWhole_head n rest
    rw [hnegative, if_neg Bool.false_ne_true, unsignedChars_eq n hpower, hcons] at hspan
    have hwhole : Decimal.spanDigits (n.whole.chars ++ c' :: more')
        = (n.whole.chars, c' :: more') :=
      n.whole.spanDigits_append (Json.noDigit_cons (by rcases hc' with rfl | rfl <;> rfl) more')
    rw [hwhole] at hspan
    rw [← (List.cons.inj (Prod.mk.inj hspan).2).1]
    exact hc'

end Numeral

/-- Exactly so many digits are split off. -/
theorem exists_of_digits? {k v v' : ℕ} {cs rest : List Char}
    (h : digits? k v cs = some (v', rest)) :
    ∃ ds, cs = ds ++ rest ∧ ds.length = k ∧ ∀ c ∈ ds, c.isDigit = true := by
  induction k generalizing v cs with
  | zero =>
    cases h
    exact ⟨[], rfl, rfl, fun _ h => absurd h List.not_mem_nil⟩
  | succ k ih =>
    cases cs with
    | nil => cases h
    | cons c cs =>
      rw [digits?] at h
      split at h
      · rename_i hc
        obtain ⟨ds, rfl, hlength, hdigits⟩ := ih h
        exact ⟨c :: ds, rfl, by rw [List.length_cons, hlength],
          List.forall_mem_cons.mpr ⟨hc, hdigits⟩⟩
      · cases h

section Value

variable (n : Numeral) (hpower : n.power = none) (rest : List Char)
include hpower

/-- A numeral is no date and no time of day. -/
theorem numberOrMoment?_numeral :
    numberOrMoment? (n.chars ++ '\n' :: rest) = number? (n.chars ++ '\n' :: rest) := by
  unfold numberOrMoment?
  split
  · rename_i hdigits
    obtain ⟨ds, hsplit, hlength, hds⟩ := exists_of_digits? hdigits
    have hne : ds ≠ [] := by
      rintro rfl
      cases hlength
    exact absurd (after_digits n hpower rest hne hds rfl hsplit) (by decide)
  · rename_i hpair _
    obtain ⟨⟨v, rest'⟩, hdigits, hif⟩ := Option.bind_eq_some_iff.mp hpair
    obtain ⟨-, heq⟩ := Option.ite_none_right_eq_some.mp hif
    cases heq
    obtain ⟨ds, hsplit, hlength, hds⟩ := exists_of_digits? hdigits
    have hne : ds ≠ [] := by
      rintro rfl
      cases hlength
    exact absurd (after_digits n hpower rest hne hds rfl hsplit) (by decide)
  · rfl

/-- It is no number in another base either, and neither infinite nor no number. -/
theorem number?_numeral :
    number? (n.chars ++ '\n' :: rest) = decimal? n.negative (n.unsignedChars ++ '\n' :: rest) := by
  have hzero {c : Char} {more : List Char} (hc : c.isDigit = false)
      (h : n.chars ++ '\n' :: rest = ['0'] ++ c :: more) : c = '.' ∨ c = '\n' :=
    after_digits n hpower rest (List.cons_ne_nil _ _) (List.forall_mem_singleton.mpr rfl) hc h
  obtain ⟨c, more, hcons, hc⟩ := n.unsignedChars_head
  have hsign : sign (n.chars ++ '\n' :: rest) = (n.negative, n.unsignedChars ++ '\n' :: rest) := by
    unfold Numeral.chars
    cases n.negative with
    | true => rfl
    | false =>
      rw [if_neg Bool.false_ne_true, hcons]
      unfold sign
      split
      · rename_i heq
        rw [(List.cons.inj heq).1] at hc
        exact absurd hc (by decide)
      · rename_i heq
        rw [(List.cons.inj heq).1] at hc
        exact absurd hc (by decide)
      · rfl
  unfold number?
  split
  · exact absurd (hzero rfl ‹_›) (by decide)
  · exact absurd (hzero rfl ‹_›) (by decide)
  · exact absurd (hzero rfl ‹_›) (by decide)
  · rw [hsign, hcons]
    unfold signed?
    split
    · rename_i heq
      rw [(List.cons.inj heq).1] at hc
      exact absurd hc (by decide)
    · rename_i heq
      rw [(List.cons.inj heq).1] at hc
      exact absurd hc (by decide)
    · rfl

/-- At the end of a line a numeral with a fraction is read as the double nearest to it. -/
theorem numberOrMoment?_double (hfraction : n.fraction ≠ none)
    (hfinite : n.nearest.isFinite = true) :
    numberOrMoment? (n.chars ++ '\n' :: rest) = some (.double n.nearest, '\n' :: rest) := by
  rw [numberOrMoment?_numeral n hpower, number?_numeral n hpower,
    decimal?_double n hpower rest hfraction hfinite]

/-- At the end of a line a numeral without a fraction is read as the integer that it denotes. -/
theorem numberOrMoment?_integer (hfraction : n.fraction = none) {v : Toml}
    (hv : integer? n.negative (Decimal.ofDigits n.whole.chars) = some v) :
    numberOrMoment? (n.chars ++ '\n' :: rest) = some (v, '\n' :: rest) := by
  rw [numberOrMoment?_numeral n hpower, number?_numeral n hpower,
    decimal?_integer n hpower rest hfraction hv]

end Value

end Placement.Toml
