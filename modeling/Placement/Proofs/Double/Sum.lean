import Placement.Proofs.Double.Integral
import Placement.Proofs.Double.Positive
/-
  Sums of doubles. `Within n x`: `x` is finite and at most `n` on either side of zero.
  `Within.foldl`: a sum of doubles within bounds is within the sum of the bounds, given that this is
  below `2^53` and so is not rounded itself. `foldl_add_nonneg`: a sum of doubles that are not
  negative is no less than any of them, even if it runs over into infinity.
-/
namespace Placement.Double

/-! ## Bounds -/

theorem rounded_neg (q : ℚ) : rounded (-q) = -rounded q := by
  unfold rounded
  rw [nearest_neg, bounded_neg]

theorem rounded_natCast {n : ℕ} (h : n < 2 ^ 53) : rounded n = n := by
  unfold rounded
  rw [nearest_natCast h]
  refine bounded_of_abs_le ?_
  rw [abs_of_nonneg (Nat.cast_nonneg n)]
  exact (natCast_lt_limit (h.le.trans (by norm_num))).le

/-- A number within a double is rounded to a number within it. -/
theorem abs_rounded_le_of_eq {q b : ℚ} (hb : rounded b = b) (h : |q| ≤ b) : |rounded q| ≤ b := by
  obtain ⟨hlow, hhigh⟩ := abs_le.mp h
  have hlow' := rounded_mono hlow
  have hhigh' := rounded_mono hhigh
  rw [rounded_neg, hb] at hlow'
  rw [hb] at hhigh'
  exact abs_le.mpr ⟨hlow', hhigh'⟩

/-- A number within a whole number of 53 bits is rounded to a number within it. -/
theorem abs_rounded_le {q : ℚ} {n : ℕ} (hn : n < 2 ^ 53) (h : |q| ≤ n) : |rounded q| ≤ n :=
  abs_rounded_le_of_eq (rounded_natCast hn) h

/-- A finite double within a bound. -/
structure Within (n : ℕ) (x : Float) : Prop where
  isFinite : x.isFinite = true
  abs_le : |value x| ≤ n

theorem Denotes.within {x : Float} {q : ℚ} (h : Denotes x (rounded q)) {n : ℕ}
    (hn : n < 2 ^ 53) (hq : |q| ≤ n) : Within n x := by
  have hbound := abs_rounded_le hn hq
  refine ⟨h.isFinite_iff.mpr (hbound.trans_lt (natCast_lt_limit (hn.le.trans (by norm_num)))), ?_⟩
  rwa [h.value]

theorem within_zero : Within 0 0 := ⟨isFinite_zero, by simp⟩

namespace Within

variable {n k : ℕ} {x y : Float}

theorem mono (h : Within n x) (hnk : n ≤ k) : Within k x :=
  ⟨h.isFinite, h.abs_le.trans (by exact_mod_cast hnk)⟩

theorem add (hx : Within n x) (hy : Within k y) (h : n + k < 2 ^ 53) : Within (n + k) (x + y) := by
  refine (denotes_add hx.isFinite hy.isFinite).within h ((abs_add_le _ _).trans ?_)
  push_cast
  exact add_le_add hx.abs_le hy.abs_le

theorem mul (hx : Within n x) (hy : Within k y) (h : n * k < 2 ^ 53) : Within (n * k) (x * y) := by
  refine (denotes_mul hx.isFinite hy.isFinite).within h ?_
  rw [abs_mul, Nat.cast_mul]
  exact mul_le_mul hx.abs_le hy.abs_le (abs_nonneg _) (Nat.cast_nonneg n)

/-- A sum grows by the bound of each summand at most. -/
theorem foldl {l : List Float} (hl : ∀ y ∈ l, Within k y) {x : Float} (hx : Within n x)
    (h : n + k * l.length < 2 ^ 53) : Within (n + k * l.length) (l.foldl (· + ·) x) := by
  induction l generalizing n x with
  | nil => simpa using hx
  | cons y l ih =>
    obtain ⟨hy, hl⟩ := List.forall_mem_cons.mp hl
    have hlength : n + k * (y :: l).length = n + k + k * l.length := by
      rw [List.length_cons]
      ring
    rw [hlength] at h ⊢
    exact ih hl (hx.add hy (by omega)) h

end Within

/-! ## Sums without negative terms -/

/-- A sum of doubles that are not negative is not negative, and no less than any of them. -/
theorem foldl_add_nonneg {l : List Float} (hl : ∀ y ∈ l, 0 ≤ y) {x : Float} (hx : 0 ≤ x) :
    0 ≤ l.foldl (· + ·) x ∧ value x ≤ value (l.foldl (· + ·) x) ∧
      ∀ y ∈ l, value y ≤ value (l.foldl (· + ·) x) := by
  induction l generalizing x with
  | nil => exact ⟨hx, le_rfl, fun _ h => absurd h List.not_mem_nil⟩
  | cons y l ih =>
    obtain ⟨hy, hl⟩ := List.forall_mem_cons.mp hl
    obtain ⟨hleft, hright⟩ := value_le_value_add hx hy
    obtain ⟨hnonneg, hfirst, hrest⟩ := ih hl (zero_le_add hx hy)
    exact ⟨hnonneg, hleft.trans hfirst, List.forall_mem_cons.mpr ⟨hright.trans hfirst, hrest⟩⟩

end Placement.Double
