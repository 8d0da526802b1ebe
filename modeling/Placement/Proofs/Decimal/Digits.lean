import Mathlib.Data.List.TakeDrop
import Mathlib.Data.List.TakeWhile
import Mathlib.Tactic.Ring
import Placement.Decimal.Literal
/-
  Digits of natural numbers. `ofDigits_toDigits` reads a number back from its digits,
  `toDigits_head_ne_zero` says that those of a positive number start with no zero, and
  `spanDigits_append` splits a run of digits off whole, given that what follows starts with no digit
  (`NoDigit`).
-/
namespace Placement.Decimal

theorem digitValue_digitChar {d : Nat} (h : d < 10) : digitValue d.digitChar = d := by
  have hall : ∀ d < 10, digitValue d.digitChar = d := by decide
  exact hall d h

theorem ofDigits_snoc (cs : List Char) (c : Char) :
    ofDigits (cs ++ [c]) = 10 * ofDigits cs + digitValue c := by
  unfold ofDigits
  rw [List.foldl_append]
  rfl

/-- The digits of a number denote it. -/
@[simp] theorem ofDigits_toDigits (n : Nat) : ofDigits (Nat.toDigits 10 n) = n := by
  induction n using Nat.strongRecOn with
  | ind n ih =>
    rw [Nat.toDigits_eq_if (by decide)]
    split
    · rename_i h
      show 10 * 0 + digitValue n.digitChar = n
      rw [digitValue_digitChar h, Nat.mul_zero, Nat.zero_add]
    · rw [ofDigits_snoc, ih (n / 10) (by omega), digitValue_digitChar (Nat.mod_lt n (by decide))]
      omega

theorem foldl_digits (ds : List Char) (n : Nat) :
    ds.foldl (fun n c => 10 * n + digitValue c) n = n * 10 ^ ds.length + ofDigits ds := by
  unfold ofDigits
  induction ds generalizing n with
  | nil => exact (Nat.mul_one n).symm
  | cons d ds ih =>
    rw [List.foldl_cons, List.foldl_cons, ih, ih (10 * 0 + digitValue d), List.length_cons]
    ring

theorem ofDigits_append (cs ds : List Char) :
    ofDigits (cs ++ ds) = ofDigits cs * 10 ^ ds.length + ofDigits ds := by
  rw [← foldl_digits]
  exact List.foldl_append

theorem ofDigits_zeros (n : Nat) : ofDigits (List.replicate n '0') = 0 := by
  induction n with
  | zero => rfl
  | succ n ih =>
    rw [List.replicate_succ', ofDigits_snoc, ih]
    rfl

theorem isDigit_toDigits {n : Nat} {c : Char} (h : c ∈ Nat.toDigits 10 n) : c.isDigit = true :=
  Nat.isDigit_of_mem_toDigits (by decide) (by decide) h

theorem digitChar_ne_zero {d : Nat} (hpos : 0 < d) (h : d < 10) : d.digitChar ≠ '0' := by
  have hall : ∀ d < 10, 0 < d → d.digitChar ≠ '0' := by decide
  exact hall d h hpos

/-- The first digit of a positive number is not zero. -/
theorem toDigits_head_ne_zero {n : Nat} (hpos : 0 < n) (rest : List Char) :
    Nat.toDigits 10 n ≠ '0' :: rest := by
  induction n using Nat.strongRecOn generalizing rest with
  | ind n ih =>
    rw [Nat.toDigits_eq_if (by decide)]
    split
    · rename_i h
      intro heq
      exact digitChar_ne_zero hpos h (List.cons.inj heq).1
    · cases hd : Nat.toDigits 10 (n / 10) with
      | nil => exact absurd hd Nat.toDigits_ne_nil
      | cons c cs =>
        intro heq
        have hc : c = '0' := (List.cons.inj heq).1
        subst hc
        exact ih (n / 10) (by omega) (by omega) cs hd

/-! ## Runs of digits -/

/-- A text does not start with a digit. -/
def NoDigit (cs : List Char) : Prop := ∀ c, cs.head? = some c → c.isDigit = false

/-- What is split off is digits, and nothing is lost. -/
theorem spanDigits_split (cs : List Char) :
    (∀ c ∈ (spanDigits cs).1, c.isDigit = true) ∧ cs = (spanDigits cs).1 ++ (spanDigits cs).2 := by
  unfold spanDigits
  rw [List.span_eq_takeWhile_dropWhile]
  exact ⟨fun c hc => List.mem_takeWhile_imp hc, List.takeWhile_append_dropWhile.symm⟩

/-- What follows a run of digits does not change it, unless it goes on with a digit. -/
theorem spanDigits_append {tail : List Char} (h : NoDigit tail) (cs : List Char) :
    spanDigits (cs ++ tail) = ((spanDigits cs).1, (spanDigits cs).2 ++ tail) := by
  unfold spanDigits
  rw [List.span_eq_takeWhile_dropWhile, List.span_eq_takeWhile_dropWhile]
  induction cs with
  | nil =>
    cases tail with
    | nil => rfl
    | cons c rest =>
      have hc : c.isDigit = false := h c rfl
      simp [hc]
  | cons c rest ih =>
    rw [Prod.mk.injEq] at ih
    cases hc : c.isDigit with
    | true => simp [hc, ih.1, ih.2]
    | false => simp [hc]

/-- A run of digits is split off whole. -/
theorem spanDigits_of_digits {ds tail : List Char} (hd : ∀ c ∈ ds, c.isDigit = true)
    (h : NoDigit tail) : spanDigits (ds ++ tail) = (ds, tail) := by
  rw [spanDigits_append h]
  unfold spanDigits
  rw [List.span_eq_takeWhile_dropWhile, List.takeWhile_eq_self_iff.mpr hd,
    List.dropWhile_eq_nil_iff.mpr hd]
  rfl

end Placement.Decimal
