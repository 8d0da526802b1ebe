import Placement.Proofs.Double.Root
import Placement.Proofs.Double.Sum
import Placement.Proofs.Scoring.Monotone
import Placement.Proofs.Scoring.Origin
import Placement.Proofs.Tuning.Ranges
import Placement.Scoring.Embedding
/-
  When the raw value of an embedding score is finite. GIVEN a tuning that passes its check, a
  context that passes the gate, and an exponential that is a level at and below 0:

  * `within_normalize`: a vector brought to length 1 keeps its slots within 2, since its length is
    at least half of each of them or it is no direction at all; so a similarity is finite.
  * `isLevel_headroom_float`, `isLevel_decay`: headroom and the exponential of a slowdown are
    levels.
  * `value_isFinite_iff`: so the value is finite exactly if the weighted sums of the live term and
    of the blend do not round to infinity; with weights up to `2^500` none does.
  * `value_overweight`: a weight is only asked to be finite, and there are weights that overflow.
-/
namespace Placement

open Double

namespace Embedding

open Scalar (greater ofFloat ofCount)

/-! ## Vectors brought to length 1 -/

/-- Every slot is finite. -/
def FiniteSlots (v : Features Float) : Prop := ∀ i (hi : i < 14), v[i].isFinite = true

theorem finiteSlots_map (raw : Features Float) :
    FiniteSlots (raw.map fun x => if Scalar.isFinite x then x else 0) := by
  intro i hi
  rw [Vector.getElem_map]
  show (if raw[i].isFinite then raw[i] else 0).isFinite = true
  split
  · assumption
  · exact isFinite_zero

theorem mem_products {u v : Features Float} {p : Float}
    (h : p ∈ (u.zipWith (· * ·) v).toList) : ∃ i, ∃ hi : i < 14, p = u[i] * v[i] := by
  obtain ⟨i, hi, rfl⟩ := List.mem_iff_getElem.mp h
  rw [Vector.length_toList] at hi
  exact ⟨i, hi, by simp⟩

section Norm

variable {v : Features Float} (hv : FiniteSlots v)
include hv

theorem denotes_square (i : ℕ) (hi : i < 14) :
    Denotes (v[i] * v[i]) (rounded (Double.value v[i] * Double.value v[i])) :=
  denotes_mul (hv i hi) (hv i hi)

/-- The square of a vector is no less than the square of each of its slots. -/
theorem square_le_dot :
    0 ≤ dot v v ∧ ∀ i (hi : i < 14),
      rounded (Double.value v[i] * Double.value v[i]) ≤ Double.value (dot v v) := by
  have hproducts : ∀ p ∈ (v.zipWith (· * ·) v).toList, 0 ≤ p := by
    intro p hp
    obtain ⟨i, hi, rfl⟩ := mem_products hp
    exact (denotes_square hv i hi).nonneg (rounded_nonneg (mul_self_nonneg _))
  obtain ⟨hnonneg, -, hle⟩ := foldl_add_nonneg hproducts (Double.le_refl rfl)
  refine ⟨hnonneg, fun i hi => ?_⟩
  rw [← (denotes_square hv i hi).value]
  refine hle _ (List.mem_iff_getElem.mpr ⟨i, by simpa using hi, ?_⟩)
  simp

/-- A finite length from the least one on is at least half of every slot. -/
theorem abs_slot_le_norm (hfin : (norm v).isFinite = true) (hlong : ¬ norm v < 1e-12) (i : ℕ)
    (hi : i < 14) : |Double.value v[i]| ≤ 2 * Double.value (norm v) := by
  obtain ⟨hnonneg, hsquare⟩ := square_le_dot hv
  have hn := isNaN_of_isFinite hfin
  have hlength : Double.value 1e-12 ≤ Double.value (norm v) :=
    (le_iff_value rfl hn).mp ((not_lt_iff_le hn rfl).mp hlong)
  rcases lt_or_ge |Double.value v[i]| (2 ^ (-511 : ℤ)) with hsmall | hlarge
  · have hleast : (2 : ℚ) ^ (-511 : ℤ) ≤ Double.value 1e-12 := by decide +kernel
    have hpos := zpow_two_pos (-511)
    linarith
  · exact abs_le_two_mul_sqrt hnonneg (isFinite_of_sqrt hnonneg hfin) hlarge (hsquare i hi)

end Norm

theorem value_least_pos : 0 < Double.value 1e-12 := value_pos (by decide)

/-- A vector brought to length 1 has slots within 2. -/
theorem within_normalize (raw : Features Float) (i : ℕ) (hi : i < 14) :
    Within 2 (normalize raw)[i] := by
  have hv := finiteSlots_map raw
  unfold normalize
  dsimp only
  generalize (raw.map fun x => if Scalar.isFinite x then x else 0) = v at hv
  split_ifs with hshort
  · rw [Vector.getElem_replicate]
    exact within_zero.mono (by norm_num)
  · have hfin : (norm v).isFinite = true ∧ ¬ norm v < 1e-12 := by
      have hshort' : ¬ (!(norm v).isFinite || decide (norm v < 1e-12)) = true := hshort
      simpa using hshort'
    obtain ⟨hfin, hlong⟩ := hfin
    have hn := isNaN_of_isFinite hfin
    have hpos : 0 < Double.value (norm v) :=
      value_least_pos.trans_le ((le_iff_value rfl hn).mp ((not_lt_iff_le hn rfl).mp hlong))
    rw [Vector.getElem_map]
    refine (denotes_div (hv i hi) hfin hpos.ne').within (by norm_num) ?_
    rw [abs_div, abs_of_pos hpos, div_le_iff₀ hpos]
    exact abs_slot_le_norm hv hfin hlong i hi

/-- The product of two vectors brought to length 1 is finite. -/
theorem within_dot_normalize (raw raw' : Features Float) :
    Within 56 (dot (normalize raw) (normalize raw')) := by
  have hproducts : ∀ p ∈ ((normalize raw).zipWith (· * ·) (normalize raw')).toList,
      Within 4 p := by
    intro p hp
    obtain ⟨i, hi, rfl⟩ := mem_products hp
    exact (within_normalize raw i hi).mul (within_normalize raw' i hi) (by norm_num)
  have hlength : ((normalize raw).zipWith (· * ·) (normalize raw')).toList.length = 14 :=
    Vector.length_toList
  have hsum := within_zero.foldl hproducts (by rw [hlength]; norm_num)
  rwa [hlength] at hsum

/-- The greater of two doubles is one of them. -/
theorem greater_eq_or (a b : Float) : greater a b = a ∨ greater a b = b := by
  unfold greater
  split_ifs <;> simp

/-- A similarity is finite and not negative, whatever the tuning. -/
theorem similarity_bounds (curves : Curves Float) (t : EmbeddingTuning) (job : Job)
    (system : System) :
    0 ≤ similarity curves t job system ∧ Within 56 (similarity curves t job system) := by
  refine ⟨le_greater_right rfl, ?_⟩
  unfold similarity
  rcases greater_eq_or (dot (ofJob curves t job) (ofSystem curves t system)) 0 with h | h
  · rw [h]
    exact within_dot_normalize _ _
  · rw [h]
    exact within_zero.mono (by norm_num)

/-! ## The live term -/

/-- The greater of two finite doubles is finite, and above zero if the second is. -/
theorem greater_pos {a b : Float} (ha : a.isFinite = true) (hb : b.isFinite = true) (h : 0 < b) :
    (greater a b).isFinite = true ∧ 0 < greater a b := by
  refine ⟨?_, lt_of_lt_of_le h (le_greater_right (isNaN_of_isFinite hb))⟩
  rcases greater_eq_or a b with heq | heq
  · rwa [heq]
  · rwa [heq]

/-- A ratio that is brought below 1 is a level. -/
theorem isLevel_div_one_add {h : Float} (h0 : 0 ≤ h) (hle : Double.value h ≤ 2 ^ 64) :
    IsLevel (h / (1 + h)) := by
  have hv := value_nonneg h0
  have hfin : h.isFinite = true :=
    (Denotes.of_isNaN (isNaN_of_le h0).2).isFinite_of_le_two_zpow (k := 64) (by norm_num) hv
      (by exact_mod_cast hle)
  have hsum := denotes_add isFinite_one hfin
  rw [value_one] at hsum
  have hsumfin : (1 + h).isFinite = true := by
    refine hsum.isFinite_of_le_two_zpow (k := 65) (by norm_num) (rounded_nonneg (by linarith)) ?_
    refine rounded_le_two_zpow (by norm_num) (by norm_num) ?_
    norm_num at hle ⊢
    linarith
  obtain ⟨hone, hright⟩ := value_le_value_add (x := 1) (by decide) h0
  rw [value_one] at hone
  have hpos : 0 < Double.value (1 + h) := by linarith
  exact (denotes_div hfin hsumfin hpos.ne').isLevel (rounded_nonneg (div_nonneg hv hpos.le))
    (IsLevel.rounded_le_one ((div_le_one hpos).mpr hright))

/-- Free nodes over requested ones are a level once they are brought below 1. -/
theorem isLevel_headroom_float (status : Status) (job : Job) :
    IsLevel (headroom status job) := by
  obtain ⟨hfin, hpos⟩ := greater_pos (isFinite_count job.nodes) isFinite_one (by decide)
  have hone : 1 ≤ Double.value (greater job.nodes.toFloat 1) := by
    have hle := le_greater_right (a := job.nodes.toFloat) (b := 1) rfl
    rwa [le_iff_value rfl (isNaN_of_isFinite hfin), value_one] at hle
  have hfree := value_count_nonneg status.available
  have hratio := denotes_div (isFinite_count status.available) hfin (value_pos hpos).ne'
  have hbound : Double.value status.available.toFloat / Double.value (greater job.nodes.toFloat 1)
      ≤ 2 ^ (64 : ℤ) :=
    (div_le_self hfree hone).trans (by exact_mod_cast value_count_le _)
  refine isLevel_div_one_add (hratio.nonneg (rounded_nonneg (div_nonneg hfree (value_pos hpos).le)))
    ?_
  exact hratio.value.trans_le
    (by exact_mod_cast rounded_le_two_zpow (by norm_num) (by norm_num) hbound)

theorem pos_of_not_le {x : Float} (hx : x.isFinite = true) (h : ¬ x ≤ 0) : 0 < x := by
  by_contra hlt
  exact h ((not_lt_iff_le rfl (isNaN_of_isFinite hx)).mp hlt)

/-- The predicted slowdown is not negative, but may be infinite. -/
theorem zero_le_slowdown {t : EmbeddingTuning} (ht : t.InRange) {c : Context}
    (hwalltime : 0 < c.job.walltime) : 0 ≤ (slowdown t c : Float) := by
  obtain ⟨-, -, hfinite, -⟩ := Job.validate_eq_ok.mp c.jobValid
  obtain ⟨-, -, -, -, hspeedfin, hspeed⟩ := System.validate_eq_ok.mp c.systemValid
  have hleast : (0 : Float) < 1e-9 := by decide
  obtain ⟨hbasefin, hbase⟩ := greater_pos ht.baselineSpeed.isFinite (b := 1e-9) rfl hleast
  obtain ⟨hrequestedfin, hrequested⟩ := greater_pos hfinite isFinite_one (by decide)
  have hratio : 0 ≤ c.system.nodeSpeed / greater t.baselineSpeed 1e-9 :=
    zero_le_div (le_of_lt (pos_of_not_le hspeedfin hspeed)) hbase (.inl hspeedfin)
  -- the pace is positive, and only an infinite one makes no use of the walltime
  have hpace :
      0 < greater (greater (c.system.nodeSpeed / greater t.baselineSpeed 1e-9) 1e-3) 1e-9 :=
    lt_of_lt_of_le hleast (le_greater_right rfl)
  have hrun := zero_le_div (le_of_lt hwalltime) hpace (.inl hfinite)
  have hwait : 0 ≤ c.wait Float := le_greater_right rfl
  exact zero_le_div (zero_le_add hwait hrun) hrequested (.inr hrequestedfin)

/-! ## Weights -/

/-- A weighted level is finite and no more than its weight. -/
theorem weighted_level {w x : Float} (hw : IsWeight w) (hx : IsLevel x) :
    Denotes (w * x) (rounded (Double.value w * Double.value x)) ∧ 0 ≤ w * x ∧
      (w * x).isFinite = true ∧ Double.value (w * x) ≤ Double.value w := by
  have hproduct := denotes_mul hw.isFinite hx.isFinite
  have hnonneg := rounded_nonneg (mul_nonneg hw.value_nonneg hx.value_nonneg)
  have hle : Double.value (w * x) ≤ Double.value w := by
    rw [hproduct.value]
    exact rounded_le hw.isFinite (mul_le_of_le_one_right hw.value_nonneg hx.value_le_one)
  have h0 := hproduct.nonneg hnonneg
  refine ⟨hproduct, h0, ?_, hle⟩
  refine isFinite_of_le h0 ?_ hw.isFinite
  exact (le_iff_value hproduct.isNaN (isNaN_of_isFinite hw.isFinite)).mpr hle

/-- A sum of two terms up to a power of two is at most the next. -/
theorem rounded_add_le {q r : ℚ} {k : ℤ} (hlow : -1023 ≤ k) (hhigh : k ≤ 1022) (hq : q ≤ 2 ^ k)
    (hr : r ≤ 2 ^ k) : rounded (q + r) ≤ 2 ^ (k + 1) := by
  refine rounded_le_two_zpow (by omega) (by omega) ?_
  rw [zpow_add_one₀ (by norm_num)]
  linarith

theorem rounded_mul_le {q r : ℚ} {k n : ℤ} (hlow : -1022 ≤ k + n) (hhigh : k + n ≤ 1023)
    (hr0 : 0 ≤ r) (hq : q ≤ 2 ^ k) (hr : r ≤ 2 ^ n) : rounded (q * r) ≤ 2 ^ (k + n) := by
  refine rounded_le_two_zpow hlow hhigh ?_
  rw [zpow_add₀ (by norm_num)]
  exact mul_le_mul hq hr hr0 (zpow_two_pos k).le

/-- The live term before its sum is rounded. -/
def liveSum (curves : Curves Float) (t : EmbeddingTuning) (c : Context) : ℚ :=
  rounded (Double.value t.headroomWeight * Double.value (headroom c.status c.job))
    + rounded (Double.value t.slowdownWeight * Double.value (curves.exp (-slowdown t c)))

/-- The blend before its sum is rounded. -/
def blendSum (curves : Curves Float) (t : EmbeddingTuning) (c : Context) : ℚ :=
  rounded (Double.value t.staticWeight * Double.value (similarity curves t c.job c.system))
    + rounded (Double.value t.dynamicWeight * Double.value (dynamic curves t c))

section Value

variable {curves : Curves Float} (hexp : ∀ x, x ≤ 0 → IsLevel (curves.exp x))
  {t : EmbeddingTuning} (ht : t.InRange) {c : Context} (hwalltime : 0 < c.job.walltime)
include hexp ht hwalltime

/-- The exponential of a predicted slowdown is a level. -/
theorem isLevel_decay : IsLevel (curves.exp (-slowdown t c)) := by
  have h0 := zero_le_slowdown ht hwalltime
  have hn : (-slowdown t c : Float).isNaN = false := (isNaN_neg _).trans (isNaN_of_le h0).2
  refine hexp _ ((le_iff_value hn rfl).mpr ?_)
  rw [value_neg, value_zero]
  exact neg_nonpos.mpr (value_nonneg h0)

/-- The live term is the rounded sum of its weighted levels. -/
theorem denotes_dynamic :
    0 ≤ dynamic curves t c ∧ Denotes (dynamic curves t c) (rounded (liveSum curves t c)) := by
  obtain ⟨hleft, hleft0, -⟩ :=
    weighted_level ht.headroomWeight (isLevel_headroom_float c.status c.job)
  obtain ⟨hright, hright0, -⟩ := weighted_level ht.slowdownWeight (isLevel_decay hexp ht hwalltime)
  have hsum := denotes_add_of_nonneg hleft0 hright0
  rw [hleft.value, hright.value] at hsum
  exact ⟨zero_le_add hleft0 hright0, hsum⟩

/-- With a finite live term the value is the rounded sum of both weighted terms. -/
theorem denotes_value (hdynamic : (dynamic curves t c).isFinite = true) :
    0 ≤ value curves t c ∧ Denotes (value curves t c) (rounded (blendSum curves t c)) := by
  obtain ⟨hlive0, -⟩ := denotes_dynamic hexp ht hwalltime
  obtain ⟨hsimilarity0, hsimilarity⟩ := similarity_bounds curves t c.job c.system
  have hleft := denotes_mul ht.staticWeight.isFinite hsimilarity.isFinite
  have hright := denotes_mul ht.dynamicWeight.isFinite hdynamic
  have hleft0 := hleft.nonneg (rounded_nonneg
    (mul_nonneg ht.staticWeight.value_nonneg (value_nonneg hsimilarity0)))
  have hright0 := hright.nonneg (rounded_nonneg
    (mul_nonneg ht.dynamicWeight.value_nonneg (value_nonneg hlive0)))
  have hsum := denotes_add_of_nonneg hleft0 hright0
  rw [hleft.value, hright.value] at hsum
  exact ⟨zero_le_add hleft0 hright0, hsum⟩

theorem dynamic_isFinite_iff :
    (dynamic curves t c).isFinite = true ↔ rounded (liveSum curves t c) < limit := by
  obtain ⟨h0, hdenotes⟩ := denotes_dynamic hexp ht hwalltime
  exact hdenotes.isFinite_iff_lt h0

theorem value_isFinite_iff_sum : (value curves t c).isFinite = true ↔
    (dynamic curves t c).isFinite = true ∧ rounded (blendSum curves t c) < limit := by
  constructor
  · intro h
    have hdynamic := isFinite_of_mul (isFinite_of_add h)
    obtain ⟨h0, hdenotes⟩ := denotes_value hexp ht hwalltime hdynamic
    exact ⟨hdynamic, (hdenotes.isFinite_iff_lt h0).mp h⟩
  · rintro ⟨hdynamic, hlt⟩
    obtain ⟨h0, hdenotes⟩ := denotes_value hexp ht hwalltime hdynamic
    exact (hdenotes.isFinite_iff_lt h0).mpr hlt

/-- Weights up to `2^500` let no sum run over. -/
theorem value_isFinite_of_weights_le
    (hweights : ∀ w ∈ [t.staticWeight, t.dynamicWeight, t.headroomWeight, t.slowdownWeight],
      Double.value w ≤ 2 ^ (500 : ℤ)) : (value curves t c).isFinite = true := by
  simp only [List.forall_mem_cons] at hweights
  obtain ⟨hstatic, hdynamic, hheadroom, hslowdown, -⟩ := hweights
  obtain ⟨hlive0, hlive⟩ := denotes_dynamic hexp ht hwalltime
  obtain ⟨hsimilarity0, hsimilarity⟩ := similarity_bounds curves t c.job c.system
  obtain ⟨hleft, -, -, hleft_le⟩ :=
    weighted_level ht.headroomWeight (isLevel_headroom_float c.status c.job)
  obtain ⟨hright, -, -, hright_le⟩ :=
    weighted_level ht.slowdownWeight (isLevel_decay hexp ht hwalltime)
  rw [hleft.value] at hleft_le
  rw [hright.value] at hright_le
  have hlive_le : Double.value (dynamic curves t c) ≤ 2 ^ (501 : ℤ) := by
    rw [hlive.value]
    exact rounded_add_le (k := 500) (by norm_num) (by norm_num) (hleft_le.trans hheadroom)
      (hright_le.trans hslowdown)
  have hsimilarity_le : Double.value (similarity curves t c.job c.system) ≤ 2 ^ (6 : ℤ) :=
    (le_abs_self _).trans (hsimilarity.abs_le.trans (by norm_num))
  have hstatic_le := rounded_mul_le (by norm_num) (by norm_num) (value_nonneg hsimilarity0) hstatic
    hsimilarity_le
  have hdynamic_le := rounded_mul_le (by norm_num) (by norm_num) (value_nonneg hlive0) hdynamic
    hlive_le
  have hlarger : (2 : ℚ) ^ (500 + 6 : ℤ) ≤ 2 ^ (500 + 501 : ℤ) :=
    zpow_le_zpow_right₀ (by norm_num) (by norm_num)
  refine (value_isFinite_iff_sum hexp ht hwalltime).mpr
    ⟨(dynamic_isFinite_iff hexp ht hwalltime).mpr ?_, ?_⟩
  · rw [← hlive.value]
    exact hlive_le.trans_lt (two_zpow_lt_limit (by norm_num))
  · have hblend_le :=
      rounded_add_le (by norm_num) (by norm_num) (hstatic_le.trans hlarger) hdynamic_le
    exact hblend_le.trans_lt (two_zpow_lt_limit (by norm_num))

end Value

/-- When the raw value of an embedding score is finite. For every accepted tuning and every job that
passes the gate the similarity is finite and not negative, and headroom and the exponential of the
slowdown are levels. The live term is finite exactly when the rounded sum of its weighted levels
stays below the limit, and the value exactly when the live term is finite and the rounded sum of the
blend stays below it too. No weight up to `2^500` takes them there, but the check of a tuning does
not ask for that. -/
theorem value_isFinite_iff (curves : Curves Float) (hexp : ∀ x, x ≤ 0 → IsLevel (curves.exp x))
    (t : Tuning) (ht : t.check = .ok ()) (c : Context)
    (hpass : c.infeasibility? t.gate.nodeCheck = none) :
    (0 ≤ similarity curves t.embedding c.job c.system ∧
      (similarity curves t.embedding c.job c.system).isFinite = true) ∧
    IsLevel (headroom c.status c.job) ∧ IsLevel (curves.exp (-slowdown t.embedding c)) ∧
    ((dynamic curves t.embedding c).isFinite = true ↔
      rounded (liveSum curves t.embedding c) < limit) ∧
    ((value curves t.embedding c).isFinite = true ↔
      (dynamic curves t.embedding c).isFinite = true ∧
        rounded (blendSum curves t.embedding c) < limit) ∧
    ((∀ w ∈ [t.embedding.staticWeight, t.embedding.dynamicWeight, t.embedding.headroomWeight,
        t.embedding.slowdownWeight], Double.value w ≤ 2 ^ (500 : ℤ)) →
      (value curves t.embedding c).isFinite = true) := by
  have hrange := Tuning.embedding_inRange ht
  obtain ⟨-, -, hfinite, -⟩ := Job.validate_eq_ok.mp c.jobValid
  obtain ⟨-, -, -, -, hpositive⟩ := infeasibility?_eq_none.mp hpass
  have hwalltime := pos_of_not_le hfinite hpositive
  obtain ⟨hsimilarity0, hsimilarity⟩ := similarity_bounds curves t.embedding c.job c.system
  exact ⟨⟨hsimilarity0, hsimilarity.isFinite⟩, isLevel_headroom_float c.status c.job,
    isLevel_decay hexp hrange hwalltime, dynamic_isFinite_iff hexp hrange hwalltime,
    value_isFinite_iff_sum hexp hrange hwalltime,
    value_isFinite_of_weights_le hexp hrange hwalltime⟩

theorem value_isFinite_iff_homely :
    homely.infeasibility? .total = none ∧ (value .steep {} homely).isFinite = true := by
  have hpass : homely.infeasibility? .total = none := rfl
  obtain ⟨-, -, -, -, -, hfinite⟩ :=
    value_isFinite_iff .steep Curves.decays_steep.range {} rfl homely hpass
  have hlevels : ∀ w ∈ [0.6, 0.4, 0.5, 0.5], 0 ≤ w ∧ w ≤ (1 : Float) := by decide
  refine ⟨hpass, hfinite fun w hw => ?_⟩
  obtain ⟨h0, h1⟩ := hlevels w hw
  exact (IsLevel.value_le_one ⟨h0, h1⟩).trans (one_le_zpow₀ one_le_two (by norm_num))

/-! ## Weights that run over -/

/-- A finite term of weight 0 adds nothing. -/
theorem value_add_zero_mul {x e : Float} (hx : x.isFinite = true) (he : e.isFinite = true) :
    Double.value (x + 0 * e) = Double.value x := by
  have hzero := denotes_mul isFinite_zero he
  rw [value_zero, zero_mul, rounded_zero] at hzero
  have hzero_finite := hzero.isFinite_iff.mpr (by rw [abs_zero]; exact limit_pos)
  rw [(denotes_add hx hzero_finite).value, hzero.value, add_zero, rounded_value hx]

/-- A tuning with finite weights: the headroom is weighed so much that its double runs over, and the
slowdown not at all. -/
def overweight : Tuning where
  embedding := { headroomWeight := 1.7e308, slowdownWeight := 0, dynamicWeight := 2 }

/-- The tuning is accepted. The weighed headroom is a finite double, and twice that is not. -/
theorem headroom_overweight :
    overweight.check = .ok () ∧
      ((1.7e308 : Float) * headroom homely.status homely.job).isFinite = true ∧
      ((2 : Float) * (1.7e308 * headroom homely.status homely.job)).isFinite = false := by
  decide +kernel

/-- The value runs over whatever the curves are: the slowdown brings in a zero, or no number. -/
theorem not_isFinite_value_overweight (curves : Curves Float) :
    (value curves overweight.embedding homely).isFinite = false := by
  rw [Bool.eq_false_iff]
  intro hvalue
  have hlive : (2 * dynamic curves overweight.embedding homely).isFinite = true :=
    isFinite_of_add hvalue
  have hdynamic := isFinite_of_mul hlive
  have hslowdown : (0 * curves.exp (-slowdown overweight.embedding homely)).isFinite = true :=
    isFinite_of_add hdynamic
  obtain ⟨-, hweighed, htwice⟩ := headroom_overweight
  have hsame : Double.value (dynamic curves overweight.embedding homely)
      = Double.value ((1.7e308 : Float) * headroom homely.status homely.job) :=
    value_add_zero_mul hweighed (isFinite_of_mul hslowdown)
  have htwo : (2 : Float).isFinite = true := rfl
  have hboth := denotes_mul htwo hdynamic
  rw [hsame] at hboth
  have hover : ((2 : Float) * (1.7e308 * headroom homely.status homely.job)).isFinite = true :=
    (denotes_mul htwo hweighed).isFinite_iff.mpr (hboth.isFinite_iff.mp hlive)
  exact Bool.false_ne_true (htwice.symm.trans hover)

/-- An accepted tuning, a job that passes the gate, and a raw value that is not finite, whatever the
curves are: so the bid is the zero that says that the job cannot run. -/
theorem value_overweight :
    overweight.check = .ok () ∧ homely.infeasibility? overweight.gate.nodeCheck = none ∧
      ∀ curves : Curves Float, (value curves overweight.embedding homely).isFinite = false ∧
        ∀ seconds, ((overweight.scorerOf curves .embedding).bid homely seconds).value = 0 := by
  refine ⟨headroom_overweight.1, rfl, fun curves => ⟨not_isFinite_value_overweight curves, fun seconds => ?_⟩⟩
  rw [Scorer.value_bid]
  show sanitize (value curves overweight.embedding homely) = 0
  unfold sanitize
  rw [if_neg (by rw [not_isFinite_value_overweight]; exact Bool.false_ne_true)]

end Embedding

end Placement
