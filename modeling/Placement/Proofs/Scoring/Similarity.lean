import Mathlib.Algebra.BigOperators.Field
import Mathlib.Algebra.BigOperators.Fin
import Mathlib.Algebra.Order.BigOperators.Ring.Finset
import Placement.Proofs.Record.Ranges
import Placement.Proofs.Scoring.Exact
import Placement.Proofs.Scoring.Origin
import Placement.Proofs.Tuning.Ranges
import Placement.Scoring.Embedding
/-
  The embedding score without rounding. `IsDirection`: the zero vector, or a vector of length 1.
  `IsProfile`: a direction without negative features.

  * `isDirection_unit`, `IsDirection.abs_dot_le_one`: features brought to length 1 are a direction,
    and a product of two directions is within -1 and 1.
  * `isProfile_ofJob`, `isProfile_ofSystem`: valid jobs and systems embed as profiles, GIVEN a
    tuning in range.
  * `IsLevel.blend`: a blend of levels whose weights sum to at most 1 is a level.
  * `exact_scores_are_levels`: similarity, live term and value are levels, GIVEN a tuning that
    passes its check, blends with weights that sum to at most 1, and a walltime above 0. So nothing
    of such a score is cut off.
-/
namespace Placement

namespace Exact

/-- A real number that is not negative. -/
def IsNonneg (a : Exact) : Prop := ∃ x, 0 ≤ x ∧ a = real x

/-- A real number within 0 and 1. -/
def IsLevel (a : Exact) : Prop := ∃ x, 0 ≤ x ∧ x ≤ 1 ∧ a = real x

theorem IsLevel.isNonneg {a : Exact} (h : IsLevel a) : IsNonneg a := by
  obtain ⟨x, h0, -, rfl⟩ := h
  exact ⟨x, h0, rfl⟩

theorem isNonneg_zero : IsNonneg 0 := ⟨0, le_rfl, rfl⟩

theorem isLevel_zero : IsLevel 0 := ⟨0, le_rfl, zero_le_one, rfl⟩

theorem isLevel_one : IsLevel 1 := ⟨1, zero_le_one, le_rfl, rfl⟩

theorem IsNonneg.mul {a b : Exact} (ha : IsNonneg a) (hb : IsNonneg b) : IsNonneg (a * b) := by
  obtain ⟨x, hx, rfl⟩ := ha
  obtain ⟨y, hy, rfl⟩ := hb
  exact ⟨x * y, mul_nonneg hx hy, rfl⟩

/-- A weight is a real number that is not negative. -/
theorem isNonneg_weight {w : Float} (h : IsWeight w) : IsNonneg (Scalar.ofFloat w) :=
  ⟨Double.value w, by exact_mod_cast h.value_nonneg, ofFloat_eq h.isFinite⟩

/-- A convex blend of levels is a level. -/
theorem IsLevel.blend {w w' : Float} (hw : IsWeight w) (hw' : IsWeight w')
    (hconvex : Double.value w + Double.value w' ≤ 1) {a b : Exact} (ha : IsLevel a)
    (hb : IsLevel b) :
    IsLevel (Scalar.ofFloat w * a + Scalar.ofFloat w' * b) := by
  obtain ⟨x, hx0, hx1, rfl⟩ := ha
  obtain ⟨y, hy0, hy1, rfl⟩ := hb
  have hv : (0 : ℝ) ≤ Double.value w := by exact_mod_cast hw.value_nonneg
  have hv' : (0 : ℝ) ≤ Double.value w' := by exact_mod_cast hw'.value_nonneg
  have hsum : (Double.value w : ℝ) + Double.value w' ≤ 1 := by exact_mod_cast hconvex
  rw [ofFloat_eq hw.isFinite, ofFloat_eq hw'.isFinite, real_mul, real_mul, real_add]
  refine ⟨_, add_nonneg (mul_nonneg hv hx0) (mul_nonneg hv' hy0), ?_, rfl⟩
  calc (Double.value w : ℝ) * x + Double.value w' * y
      ≤ Double.value w * 1 + Double.value w' * 1 :=
        add_le_add (mul_le_mul_of_nonneg_left hx1 hv) (mul_le_mul_of_nonneg_left hy1 hv')
    _ ≤ 1 := by linarith

end Exact

namespace Embedding

open Exact (real IsNonneg IsLevel)
open Scalar (greater)

/-! ## Directions -/

/-- Features that are real numbers. -/
noncomputable def ofReal (v : Fin 14 → ℝ) : Features Exact := Vector.ofFn fun i => real (v i)

/-- No direction at all, or a vector of length 1. -/
def IsDirection (v : Fin 14 → ℝ) : Prop := v = 0 ∨ ∑ i, v i ^ 2 = 1

/-- Sums of real numbers are those of the reals. -/
theorem foldl_real (l : List ℝ) (x : ℝ) :
    (l.map real).foldl (· + ·) (real x) = real (x + l.sum) := by
  induction l generalizing x with
  | nil => simp
  | cons y l ih =>
    rw [List.map_cons, List.foldl_cons, Exact.real_add, ih, List.sum_cons, add_assoc]

theorem dot_ofReal (u v : Fin 14 → ℝ) : dot (ofReal u) (ofReal v) = real (∑ i, u i * v i) := by
  have hproducts : ((ofReal u).zipWith (· * ·) (ofReal v)).toList
      = (List.ofFn fun i => u i * v i).map real := by
    refine List.ext_getElem (by simp) fun i hi _ => ?_
    simp only [ofReal, Vector.getElem_toList, Vector.getElem_zipWith, Vector.getElem_ofFn,
      List.getElem_map, List.getElem_ofFn, Exact.real_mul]
  unfold dot
  rw [hproducts, Exact.zero_eq, foldl_real, zero_add, List.sum_ofFn]

/-- The product of two directions lies between -1 and 1. -/
theorem IsDirection.abs_dot_le_one {u v : Fin 14 → ℝ} (hu : IsDirection u)
    (hv : IsDirection v) : |∑ i, u i * v i| ≤ 1 := by
  have hsquare : ∀ w : Fin 14 → ℝ, IsDirection w → ∑ i, w i ^ 2 ≤ 1 := by
    rintro w (rfl | hw)
    · simp
    · exact hw.le
  rw [← sq_le_one_iff_abs_le_one]
  calc (∑ i, u i * v i) ^ 2
      ≤ (∑ i, u i ^ 2) * ∑ i, v i ^ 2 := Finset.sum_mul_sq_le_sq_mul_sq ..
    _ ≤ 1 := mul_le_one₀ (hsquare u hu) (Finset.sum_nonneg fun i _ => sq_nonneg _) (hsquare v hv)

/-! ## Vectors brought to length 1 -/

/-- The real number of a slot; what is not finite counts as zero. -/
noncomputable def finitePart : Exact → ℝ
  | .real x => x
  | _ => 0

theorem finitePart_eq (a : Exact) :
    (if Scalar.isFinite a then a else 0) = real (finitePart a) := by
  cases a <;> rfl

/-- The length below which a vector has no direction. -/
noncomputable def shortest : ℝ := Double.value 1e-12

theorem shortest_pos : 0 < shortest := by
  have hpos : 0 < Double.value 1e-12 :=
    (IsCap.mk (x := 1e-12) rfl (by decide)).value_pos
  unfold shortest
  exact_mod_cast hpos

open Classical in
/-- A vector over its length, unless it is too short. -/
noncomputable def unit (v : Fin 14 → ℝ) : Fin 14 → ℝ :=
  if √(∑ i, v i ^ 2) < shortest then 0 else fun i => v i / √(∑ i, v i ^ 2)

theorem normalize_eq (raw : Features Exact) :
    normalize raw = ofReal (unit fun i => finitePart raw[i]) := by
  have hfinite : (raw.map fun x => if Scalar.isFinite x then x else 0)
      = ofReal fun i => finitePart raw[i] := by
    ext i hi
    rw [Vector.getElem_map, finitePart_eq]
    simp [ofReal]
  unfold normalize
  dsimp only
  rw [hfinite]
  generalize (fun i : Fin 14 => finitePart raw[i]) = v
  have hnonneg : 0 ≤ ∑ i, v i ^ 2 := Finset.sum_nonneg fun i _ => sq_nonneg _
  have hnorm : norm (ofReal v) = real √(∑ i, v i ^ 2) := by
    unfold norm
    simp only [dot_ofReal, ← pow_two]
    rw [Exact.sqrt_real hnonneg]
  have hthreshold : (Scalar.ofFloat 1e-12 : Exact) = real shortest := Exact.ofFloat_eq rfl
  rw [hnorm, hthreshold, Exact.isFinite_real, Bool.not_true, Bool.false_or]
  unfold unit
  by_cases hshort : √(∑ i, v i ^ 2) < shortest
  · rw [if_pos ((Exact.less_real _ _).mpr hshort), if_pos hshort]
    rfl
  · rw [if_neg (mt (Exact.less_real _ _).mp hshort), if_neg hshort]
    have hpos : √(∑ i, v i ^ 2) ≠ 0 := (shortest_pos.trans_le (not_lt.mp hshort)).ne'
    ext i hi
    simp [ofReal, Exact.real_div hpos]

theorem isDirection_unit (v : Fin 14 → ℝ) : IsDirection (unit v) := by
  unfold unit
  split_ifs with hshort
  · exact .inl rfl
  have hnonneg : 0 ≤ ∑ i, v i ^ 2 := Finset.sum_nonneg fun i _ => sq_nonneg _
  have hpos : 0 < √(∑ i, v i ^ 2) := shortest_pos.trans_le (not_lt.mp hshort)
  refine .inr ?_
  calc ∑ i, (v i / √(∑ i, v i ^ 2)) ^ 2
      = (∑ i, v i ^ 2) / √(∑ i, v i ^ 2) ^ 2 := by simp only [div_pow, Finset.sum_div]
    _ = 1 := by
      rw [Real.sq_sqrt hnonneg]
      exact div_self (Real.sqrt_pos.mp hpos).ne'

theorem unit_nonneg {v : Fin 14 → ℝ} (h : ∀ i, 0 ≤ v i) (i : Fin 14) : 0 ≤ unit v i := by
  unfold unit
  split_ifs
  · exact le_rfl
  · exact div_nonneg (h i) (Real.sqrt_nonneg _)

/-- Features that are a direction without a negative slot. -/
def IsProfile (e : Features Exact) : Prop :=
  ∃ v, e = ofReal v ∧ (∀ i, 0 ≤ v i) ∧ IsDirection v

theorem isProfile_normalize {raw : Features Exact} (h : ∀ i (hi : i < 14), IsNonneg raw[i]) :
    IsProfile (normalize raw) := by
  refine ⟨_, normalize_eq raw, unit_nonneg fun i => ?_, isDirection_unit _⟩
  obtain ⟨x, hx, heq⟩ := h i i.isLt
  show 0 ≤ finitePart raw[i.val]
  rw [heq]
  exact hx

/-- The product of two profiles is a level. -/
theorem IsProfile.isLevel_dot {a b : Features Exact} (ha : IsProfile a) (hb : IsProfile b) :
    IsLevel (greater (dot a b) 0) := by
  obtain ⟨u, rfl, hu, hudir⟩ := ha
  obtain ⟨v, rfl, hv, hvdir⟩ := hb
  have hnonneg : 0 ≤ ∑ i, u i * v i := Finset.sum_nonneg fun i _ => mul_nonneg (hu i) (hv i)
  rw [dot_ofReal, Exact.zero_eq, Exact.greater_real, max_eq_left hnonneg]
  exact ⟨_, hnonneg, (le_abs_self _).trans (hudir.abs_dot_le_one hvdir), rfl⟩

/-! ## Features -/

/-- A quantity on a scale up to a cap is a level, wherever it saturates. -/
theorem isLevel_logScaled {cap : Float} (hcap : IsCap cap) (x : ℝ) :
    IsLevel (logScaled Exact.curves (real x) (Scalar.ofFloat cap)) := by
  have hpos : (0 : ℝ) < Double.value cap := by exact_mod_cast hcap.value_pos
  unfold logScaled
  rw [Exact.ofFloat_eq hcap.isFinite, Exact.isNaN_real, if_neg Bool.false_ne_true, Exact.zero_eq,
    Exact.clamp_real hpos.le]
  dsimp only
  generalize (Double.value cap : ℝ) = c at hpos
  have hlow : 0 ≤ max 0 (min x c) := le_max_left ..
  have hhigh : max 0 (min x c) ≤ c := max_le hpos.le (min_le_right ..)
  have hscale : 0 < Real.log (1 + c) := Real.log_pos (by linarith)
  have hlog : Real.log (1 + max 0 (min x c)) ≤ Real.log (1 + c) :=
    Real.log_le_log (by linarith) (by linarith)
  rw [Exact.log1p_real hlow, Exact.log1p_real hpos.le, Exact.real_div hscale.ne']
  exact ⟨_, div_nonneg (Real.log_nonneg (by linarith)) hscale.le, (div_le_one hscale).mpr hlog,
    rfl⟩

/-- The field of a record on its scale. -/
theorem isNonneg_scaled {x cap : Float} (hcap : IsCap cap) (hx : x.isFinite = true) :
    IsNonneg (logScaled Exact.curves (Scalar.ofFloat x) (Scalar.ofFloat cap)) := by
  rw [Exact.ofFloat_eq hx]
  exact (isLevel_logScaled hcap _).isNonneg

/-- The count of a record on its scale. -/
theorem isNonneg_scaledCount {cap : Float} (hcap : IsCap cap) (n : UInt64) :
    IsNonneg (logScaled Exact.curves (Scalar.ofCount n) (Scalar.ofFloat cap)) :=
  (isLevel_logScaled hcap _).isNonneg

theorem isNonneg_flag (b : Bool) : IsNonneg (flag b) := by
  cases b
  · exact Exact.isNonneg_zero
  · exact Exact.isLevel_one.isNonneg

theorem isNonneg_oneHot {n : ℕ} (known : Vector String n) (label : String) {weight : Exact}
    (hw : IsNonneg weight) (i : ℕ) (hi : i < n + 1) :
    IsNonneg (oneHot known label weight)[i] := by
  rcases oneHot_eq_or known label weight i hi with h | h
  · rw [h]
    exact hw
  · rw [h]
    exact Exact.isNonneg_zero

/-- Weighted features are not negative. -/
theorem isNonneg_features {t : EmbeddingTuning} (ht : t.InRange) {numeric : Vector Exact 5}
    (h : ∀ x ∈ numeric.toList, IsNonneg x) (type : ResourceType) (site : String) (i : ℕ)
    (hi : i < 14) : IsNonneg (features t numeric type site)[i] := by
  unfold features
  dsimp only
  rw [Vector.getElem_append]
  split
  · rw [Vector.getElem_append]
    split
    · rw [Vector.getElem_map]
      exact (Exact.isNonneg_weight ht.numericWeight).mul (h _ (by simp))
    · exact isNonneg_oneHot _ _ (Exact.isNonneg_weight ht.typeWeight) _ _
  · exact isNonneg_oneHot _ _ (Exact.isNonneg_weight ht.siteWeight) _ _

variable {t : EmbeddingTuning} (ht : t.InRange)
include ht

theorem isProfile_ofJob {job : Job} (hjob : job.validate = .ok ()) :
    IsProfile (ofJob Exact.curves t job) := by
  obtain ⟨-, -, hwalltime, ⟨hmemory, -⟩, hstorage, -⟩ := Job.validate_eq_ok.mp hjob
  refine isProfile_normalize fun i hi => isNonneg_features ht (fun x hx => ?_) _ _ i hi
  simp only [Vector.toList_mk, List.mem_cons, List.not_mem_nil, or_false] at hx
  rcases hx with rfl | rfl | rfl | rfl | rfl
  · exact isNonneg_scaledCount ht.jobNodes job.nodes
  · exact isNonneg_scaled ht.jobWalltime hwalltime
  · exact isNonneg_scaled ht.jobMemory hmemory
  · exact isNonneg_scaled ht.jobStorage hstorage
  · exact isNonneg_flag job.needsGpu

/-- What stands for storage is finite. -/
theorem isFinite_storageFeature (system : System) :
    (storageFeature t system).isFinite = true := by
  unfold storageFeature
  cases system.storage with
  | none => exact ht.unboundedStorage.isFinite
  | some storage =>
    dsimp only
    split
    · assumption
    · exact ht.unboundedStorage.isFinite

theorem isProfile_ofSystem {system : System} (hsystem : system.validate = .ok ()) :
    IsProfile (ofSystem Exact.curves t system) := by
  obtain ⟨-, -, ⟨hmemory, -⟩, -, hspeed, -⟩ := System.validate_eq_ok.mp hsystem
  refine isProfile_normalize fun i hi => isNonneg_features ht (fun x hx => ?_) _ _ i hi
  simp only [Vector.toList_mk, List.mem_cons, List.not_mem_nil, or_false] at hx
  rcases hx with rfl | rfl | rfl | rfl | rfl
  · exact isNonneg_scaledCount ht.systemNodes system.nodes
  · exact isNonneg_scaled ht.systemSpeed hspeed
  · exact isNonneg_scaled ht.systemMemory hmemory
  · exact isNonneg_scaled ht.systemStorage (isFinite_storageFeature ht system)
  · exact isNonneg_flag system.hasGpu

/-! ## The live term -/

omit ht in
theorem isLevel_headroom (status : Status) (job : Job) :
    IsLevel (headroom status job : Exact) := by
  unfold headroom
  have hpos : (0 : ℝ) < max (job.nodes.toNat : ℝ) 1 := zero_lt_one.trans_le (le_max_right ..)
  rw [Exact.ofCount_eq, Exact.ofCount_eq, Exact.one_eq, Exact.greater_real,
    Exact.real_div hpos.ne']
  have hnonneg : (0 : ℝ) ≤ status.available.toNat / max (job.nodes.toNat : ℝ) 1 :=
    div_nonneg (Nat.cast_nonneg _) hpos.le
  generalize (status.available.toNat : ℝ) / max (job.nodes.toNat : ℝ) 1 = h at hnonneg
  have hsum : 0 < 1 + h := by linarith
  dsimp only
  rw [Exact.real_add, Exact.real_div hsum.ne']
  exact ⟨_, div_nonneg hnonneg hsum.le, (div_le_one hsum).mpr (by linarith), rfl⟩

/-- The predicted slowdown of a job is a real number that is not negative. -/
theorem isNonneg_slowdown {c : Context} (hwalltime : 0 < c.job.walltime) :
    IsNonneg (slowdown t c) := by
  obtain ⟨-, -, hfinite, -⟩ := Job.validate_eq_ok.mp c.jobValid
  obtain ⟨-, -, -, -, hspeed, -⟩ := System.validate_eq_ok.mp c.systemValid
  obtain ⟨hstart, -⟩ := Status.validate_eq_ok.mp c.statusValid
  have hnow := checkClock_eq_ok.mp c.clockValid
  have hw : (0 : ℝ) < Double.value c.job.walltime := by
    exact_mod_cast (IsCap.mk hfinite hwalltime).value_pos
  have hleast : IsCap 1e-9 := ⟨rfl, by decide⟩
  have hl : (0 : ℝ) < Double.value 1e-9 := by exact_mod_cast hleast.value_pos
  unfold slowdown Context.wait
  rw [Exact.ofFloat_eq hspeed, Exact.ofFloat_eq ht.baselineSpeed.isFinite,
    Exact.ofFloat_eq hfinite, Exact.ofFloat_eq hstart, Exact.ofFloat_eq hnow,
    Exact.ofFloat_eq hleast.isFinite, Exact.ofFloat_eq (x := 1e-3) rfl]
  simp only [Exact.zero_eq, Exact.one_eq, Exact.real_sub, Exact.greater_real]
  have hbase : max (Double.value t.baselineSpeed : ℝ) (Double.value 1e-9) ≠ 0 :=
    (hl.trans_le (le_max_right ..)).ne'
  have hrequested : (0 : ℝ) < max (Double.value c.job.walltime : ℝ) 1 :=
    zero_lt_one.trans_le (le_max_right ..)
  rw [Exact.real_div hbase, Exact.greater_real, Exact.greater_real]
  generalize max ((Double.value c.system.nodeSpeed : ℝ) / _) _ = pace
  have hpace : 0 < max pace (Double.value 1e-9) := hl.trans_le (le_max_right ..)
  rw [Exact.real_div hpace.ne', Exact.real_add, Exact.real_div hrequested.ne']
  exact ⟨_, div_nonneg (add_nonneg (le_max_right ..) (div_nonneg hw.le hpace.le)) hrequested.le,
    rfl⟩

/-- The live term of a convex blend is a level. -/
theorem isLevel_dynamic
    (hconvex : Double.value t.headroomWeight + Double.value t.slowdownWeight ≤ 1) {c : Context}
    (hwalltime : 0 < c.job.walltime) : IsLevel (dynamic Exact.curves t c) := by
  obtain ⟨s, hs, heq⟩ := isNonneg_slowdown ht hwalltime
  have hdecay : IsLevel (Exact.curves.exp (-slowdown t c)) := by
    rw [heq, Exact.neg_real, Exact.exp_real]
    exact ⟨_, (Real.exp_pos _).le, Real.exp_le_one_iff.mpr (by linarith), rfl⟩
  unfold dynamic
  exact IsLevel.blend ht.headroomWeight ht.slowdownWeight hconvex (isLevel_headroom ..) hdecay

/-! ## Scores -/

omit ht in
/-- A vector brought to length 1 does not see what is not finite. -/
theorem normalize_finite (raw : Features Exact) :
    normalize (raw.map fun x => if Scalar.isFinite x then x else 0) = normalize raw := by
  rw [normalize_eq, normalize_eq]
  congr 1
  congr 1
  ext i
  rw [Fin.getElem_fin, Vector.getElem_map, finitePart_eq]
  rfl

omit ht in
/-- Embedding scores need no clamping when the blends are convex. Without rounding, a job with a
positive walltime and a system are embedded without a division by zero, as the zero vector or as
vectors of length 1, and without a negative slot; their similarity, the live term and the score are
within 0 and 1. That a vector brought to length 1 has this length or is zero, and that products of
two of them lie between -1 and 1, is true of any features, where what is not finite counts as
zero. -/
theorem exact_scores_are_levels (t : Tuning) (ht : t.check = .ok ())
    (hblend : Double.value t.embedding.staticWeight + Double.value t.embedding.dynamicWeight ≤ 1)
    (hlive : Double.value t.embedding.headroomWeight + Double.value t.embedding.slowdownWeight ≤ 1)
    (c : Context) (hwalltime : 0 < c.job.walltime) :
    (∀ entry ∈ Tuning.caps t.embedding, ∃ cap scale : ℝ, 0 < cap ∧ 0 < scale ∧
      Scalar.ofFloat entry.2 = real cap ∧ Exact.curves.log1p (real cap) = real scale) ∧
    (∀ e ∈ [ofJob Exact.curves t.embedding c.job, ofSystem Exact.curves t.embedding c.system],
      ∃ v, e = ofReal v ∧ (∀ i, 0 ≤ v i) ∧ (v = 0 ∨ ∑ i, v i ^ 2 = 1)) ∧
    (∀ score ∈ [similarity Exact.curves t.embedding c.job c.system,
        dynamic Exact.curves t.embedding c, value Exact.curves t.embedding c],
      ∃ x, 0 ≤ x ∧ x ≤ 1 ∧ score = real x) ∧
    ∀ raw raw' : Features Exact, ∃ u v : Fin 14 → ℝ, ∃ d : ℝ,
      normalize raw = ofReal u ∧ normalize raw' = ofReal v ∧
      normalize (raw.map fun x => if Scalar.isFinite x then x else 0) = ofReal u ∧
      (u = 0 ∨ ∑ i, u i ^ 2 = 1) ∧ (v = 0 ∨ ∑ i, v i ^ 2 = 1) ∧
      dot (normalize raw) (normalize raw') = real d ∧ -1 ≤ d ∧ d ≤ 1 := by
  have hrange := Tuning.embedding_inRange ht
  have hjob := isProfile_ofJob hrange c.jobValid
  have hsystem := isProfile_ofSystem hrange c.systemValid
  have hsimilarity : IsLevel (similarity Exact.curves t.embedding c.job c.system) :=
    hjob.isLevel_dot hsystem
  have hdynamic := isLevel_dynamic hrange hlive hwalltime
  have hvalue : IsLevel (value Exact.curves t.embedding c) :=
    IsLevel.blend hrange.staticWeight hrange.dynamicWeight hblend hsimilarity hdynamic
  refine ⟨fun entry hentry => ?_, ?_, ?_, fun raw raw' => ?_⟩
  · obtain ⟨-, -, -, hcaps, -⟩ := Tuning.check_eq_ok.mp ht
    have hcap := Tuning.isCap_iff.mp (hcaps entry hentry)
    have hpos : (0 : ℝ) < Double.value entry.2 := by exact_mod_cast hcap.value_pos
    exact ⟨_, _, hpos, Real.log_pos (by linarith), Exact.ofFloat_eq hcap.isFinite,
      Exact.log1p_real hpos.le⟩
  · exact List.forall_mem_cons.mpr ⟨hjob, List.forall_mem_singleton.mpr hsystem⟩
  · exact List.forall_mem_cons.mpr ⟨hsimilarity,
      List.forall_mem_cons.mpr ⟨hdynamic, List.forall_mem_singleton.mpr hvalue⟩⟩
  · have hu := isDirection_unit fun i => finitePart raw[i]
    have hv := isDirection_unit fun i => finitePart raw'[i]
    obtain ⟨hlow, hhigh⟩ := abs_le.mp (hu.abs_dot_le_one hv)
    refine ⟨_, _, _, normalize_eq raw, normalize_eq raw', ?_, hu, hv, ?_, hlow, hhigh⟩
    · rw [normalize_finite, normalize_eq]
    · rw [normalize_eq, normalize_eq, dot_ofReal]

omit ht in
theorem exact_scores_are_levels_homely :
    (∀ e ∈ [ofJob Exact.curves {} homely.job, ofSystem Exact.curves {} homely.system],
      ∃ v, e = ofReal v ∧ (∀ i, 0 ≤ v i) ∧ (v = 0 ∨ ∑ i, v i ^ 2 = 1)) ∧
    ∀ score ∈ [similarity Exact.curves {} homely.job homely.system,
        dynamic Exact.curves {} homely, value Exact.curves {} homely],
      ∃ x, 0 ≤ x ∧ x ≤ 1 ∧ score = real x :=
  have hlevels := exact_scores_are_levels {} rfl (by decide +kernel) (by decide +kernel) homely
    (by decide)
  ⟨hlevels.2.1, hlevels.2.2.1⟩

end Embedding

end Placement
