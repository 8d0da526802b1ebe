import Placement.Proofs.Auction.Clearing
import Placement.Proofs.Scoring.Finite
import Placement.Proofs.Scoring.Similarity
/-
  The embedding bid follows the live status, without rounding. `AtMost` is the order of exact real
  numbers, and every step between a status and its bid keeps it or turns it round: more free nodes
  raise the headroom (`headroom_mono`), an earlier start lowers the wait (`wait_mono`), a faster
  system lowers the predicted run (`pace_mono`), and slowdown enters through `exp (-x)`
  (`slowdown_mono`, `dynamic_mono`). The similarity has no part in it, since it does not see the
  status.

  `exact_bid_follows_status`: GIVEN a tuning that passes its check, the bid is at least as high for
  a status that is no worse. `bidValue` is gate, blend and clamp in any scalar; in doubles it is the
  bid of the scorer (`value_bid_eq`), so it is the same formula that is judged here.
-/
namespace Placement

/-! ## A bid in any scalar -/

section Scalar

variable {α : Type} [Add α] [Sub α] [Mul α] [Div α] [Neg α] [OfNat α 0] [OfNat α 1] [Scalar α]

/-- A score as a bid: within 0 and 1, and 0 where it is not finite. -/
def Scalar.sanitized (x : α) : α := if isFinite x then clamp 0 1 x else 0

/-- The gate, with the memory of all nodes computed in a scalar. What else is compared is a count or
a field as it is. -/
def Context.passes (α : Type) [Mul α] [Scalar α] (check : NodeCheck) (c : Context) : Bool :=
  !decide (check.limit c.system c.status < c.job.nodes) && !(c.job.needsGpu && !c.system.hasGpu)
    && !Scalar.less (Scalar.ofFloat c.system.nodeMemory * Scalar.ofCount c.system.nodes : α)
      (Scalar.ofFloat c.job.memory)
    && !decide (c.system.storageCapacity < c.job.storage) && !decide (c.job.walltime ≤ 0)

/-- The bid on a context: 0 where the gate does not pass it. -/
def Embedding.bidValue (curves : Curves α) (t : Tuning) (c : Context) : α :=
  if c.passes α t.gate.nodeCheck then Scalar.sanitized (value curves t.embedding c) else 0

end Scalar

/-- In doubles the gate is the one that scorers run. -/
theorem Context.passes_iff {check : NodeCheck} {c : Context} :
    c.passes Float check = true ↔ c.infeasibility? check = none := by
  unfold Context.infeasibility?
  rw [infeasibility?_eq_none]
  simp only [passes, Scalar.less, Scalar.ofFloat, Scalar.ofCount, Bool.and_eq_true,
    Bool.not_eq_true', decide_eq_false_iff_not, and_assoc]
  rfl

/-- In doubles the bid is the one of the scorer. -/
theorem Embedding.value_bid_eq (t : Tuning) (curves : Curves Float) (c : Context)
    (seconds : Float) :
    ((t.scorerOf curves .embedding).bid c seconds).value = bidValue curves t c := by
  rw [Scorer.value_bid]
  unfold bidValue
  cases hgate : c.infeasibility? t.gate.nodeCheck with
  | some reason =>
    have hfails : ¬ c.passes Float t.gate.nodeCheck = true := by
      rw [Context.passes_iff, hgate]
      exact Option.some_ne_none reason
    rw [if_neg hfails]
    simp only [Scorer.score, Tuning.scorerOf, scorer, Scorer.gated, hgate]
    rfl
  | none =>
    rw [if_pos (Context.passes_iff.mpr hgate)]
    simp only [Scorer.score, Tuning.scorerOf, scorer, Scorer.gated, hgate]
    rfl

/-! ## Real numbers in order -/

namespace Exact

/-- Two real numbers, the second at least as great. -/
def AtMost (a b : Exact) : Prop := ∃ x y : ℝ, x ≤ y ∧ a = real x ∧ b = real y

namespace AtMost

variable {a a' b b' : Exact}

theorem refl (x : ℝ) : AtMost (real x) (real x) := ⟨x, x, le_rfl, rfl, rfl⟩

theorem add (h : AtMost a b) (h' : AtMost a' b') : AtMost (a + a') (b + b') := by
  obtain ⟨x, y, hle, rfl, rfl⟩ := h
  obtain ⟨x', y', hle', rfl, rfl⟩ := h'
  exact ⟨x + x', y + y', add_le_add hle hle', rfl, rfl⟩

/-- A weight keeps the order. -/
theorem weigh {w : Float} (hw : IsWeight w) (h : AtMost a b) :
    AtMost (Scalar.ofFloat w * a) (Scalar.ofFloat w * b) := by
  obtain ⟨x, y, hle, rfl, rfl⟩ := h
  obtain ⟨v, hv, hweight⟩ := isNonneg_weight hw
  rw [hweight]
  exact ⟨v * x, v * y, mul_le_mul_of_nonneg_left hle hv, rfl, rfl⟩

theorem neg (h : AtMost a b) : AtMost (-b) (-a) := by
  obtain ⟨x, y, hle, rfl, rfl⟩ := h
  exact ⟨-y, -x, neg_le_neg hle, rfl, rfl⟩

theorem exp (h : AtMost a b) : AtMost (curves.exp a) (curves.exp b) := by
  obtain ⟨x, y, hle, rfl, rfl⟩ := h
  exact ⟨Real.exp x, Real.exp y, Real.exp_le_exp.mpr hle, rfl, rfl⟩

theorem greater (h : AtMost a b) (z : ℝ) :
    AtMost (Scalar.greater a (real z)) (Scalar.greater b (real z)) := by
  obtain ⟨x, y, hle, rfl, rfl⟩ := h
  exact ⟨max x z, max y z, max_le_max_right z hle, greater_real x z, greater_real y z⟩

theorem div (h : AtMost a b) {z : ℝ} (hz : 0 < z) : AtMost (a / real z) (b / real z) := by
  obtain ⟨x, y, hle, rfl, rfl⟩ := h
  exact ⟨x / z, y / z, div_le_div_of_nonneg_right hle hz.le, real_div hz.ne', real_div hz.ne'⟩

/-- A ratio that is brought below 1 keeps the order. -/
theorem div_one_add {x y : ℝ} (hx : 0 ≤ x) (hle : x ≤ y) :
    AtMost (real x / (1 + real x)) (real y / (1 + real y)) := by
  have hx1 : 0 < 1 + x := by linarith
  have hy1 : 0 < 1 + y := by linarith
  refine ⟨x / (1 + x), y / (1 + y), ?_, real_div hx1.ne', real_div hy1.ne'⟩
  rw [div_le_div_iff₀ hx1 hy1]
  linarith

theorem sanitized (h : AtMost a b) : AtMost (Scalar.sanitized a) (Scalar.sanitized b) := by
  obtain ⟨x, y, hle, rfl, rfl⟩ := h
  exact ⟨max 0 (min x 1), max 0 (min y 1), max_le_max_left 0 (min_le_min_right 1 hle),
    clamp_real zero_le_one x, clamp_real zero_le_one y⟩

end AtMost

/-- A real number as a bid is a level. -/
theorem isLevel_sanitized (x : ℝ) : IsLevel (Scalar.sanitized (real x)) :=
  ⟨max 0 (min x 1), le_max_left .., max_le zero_le_one (min_le_right ..),
    clamp_real zero_le_one x⟩

/-- A finite double in order. -/
theorem atMost_ofFloat {x y : Float} (hx : x.isFinite = true) (hy : y.isFinite = true)
    (h : x ≤ y) : AtMost (Scalar.ofFloat x) (Scalar.ofFloat y) := by
  have hle := (Double.le_iff_value (Double.isNaN_of_isFinite hx)
    (Double.isNaN_of_isFinite hy)).mp h
  exact ⟨_, _, by exact_mod_cast hle, ofFloat_eq hx, ofFloat_eq hy⟩

end Exact

namespace Embedding

open Exact (real AtMost IsLevel)
open Scalar (greater ofFloat)

/-! ## The live term -/

theorem headroom_mono {status status' : Status} (h : status.available ≤ status'.available)
    (job : Job) : AtMost (headroom status job) (headroom status' job) := by
  have hpos : (0 : ℝ) < max (job.nodes.toNat : ℝ) 1 := zero_lt_one.trans_le (le_max_right ..)
  have hle : (status.available.toNat : ℝ) ≤ status'.available.toNat := by
    exact_mod_cast UInt64.le_iff_toNat_le.mp h
  unfold headroom
  simp only [Exact.ofCount_eq, Exact.one_eq, Exact.greater_real, Exact.real_div hpos.ne']
  exact .div_one_add (div_nonneg (Nat.cast_nonneg _) hpos.le)
    (div_le_div_of_nonneg_right hle hpos.le)

/-- Against one clock an earlier start is a shorter wait. -/
theorem wait_mono {c c' : Context} (hnow : c'.now = c.now)
    (hstart : c'.status.startEstimate ≤ c.status.startEstimate) :
    AtMost (c'.wait Exact) (c.wait Exact) := by
  have hfinite := (Status.validate_eq_ok.mp c.statusValid).1
  have hfinite' := (Status.validate_eq_ok.mp c'.statusValid).1
  have hclock : AtMost (ofFloat c.now) (ofFloat c.now) := by
    rw [Exact.ofFloat_eq (checkClock_eq_ok.mp c.clockValid)]
    exact .refl _
  unfold Context.wait
  rw [hnow]
  exact ((Exact.atMost_ofFloat hfinite' hfinite hstart).add hclock.neg).greater 0

/-- How much faster than the baseline a system is, at least by a little. -/
noncomputable def pace (t : EmbeddingTuning) (speed : Float) : Exact :=
  greater (greater (ofFloat speed / greater (ofFloat t.baselineSpeed) (ofFloat 1e-9))
    (ofFloat 1e-3)) (ofFloat 1e-9)

section Live

variable {t : EmbeddingTuning} (ht : t.InRange)
include ht

/-- A faster system has no lower pace, and every pace is above 0. -/
theorem pace_mono {speed speed' : Float} (hfinite : speed.isFinite = true)
    (hfinite' : speed'.isFinite = true) (h : speed ≤ speed') :
    ∃ p p' : ℝ, 0 < p ∧ p ≤ p' ∧ pace t speed = real p ∧ pace t speed' = real p' := by
  have hleast : IsCap 1e-9 := ⟨rfl, by decide⟩
  have hpos : (0 : ℝ) < Double.value 1e-9 := by exact_mod_cast hleast.value_pos
  have hbase : (0 : ℝ) < max (Double.value t.baselineSpeed : ℝ) (Double.value 1e-9 : ℝ) :=
    hpos.trans_le (le_max_right ..)
  obtain ⟨r, r', hle, hr, hr'⟩ := (Exact.atMost_ofFloat hfinite hfinite' h).div hbase
  refine ⟨max (max r (Double.value 1e-3)) (Double.value 1e-9),
    max (max r' (Double.value 1e-3)) (Double.value 1e-9), hpos.trans_le (le_max_right ..),
    max_le_max_right _ (max_le_max_right _ hle), ?_, ?_⟩
  · unfold pace
    rw [Exact.ofFloat_eq ht.baselineSpeed.isFinite, Exact.ofFloat_eq hleast.isFinite,
      Exact.ofFloat_eq (x := 1e-3) rfl, Exact.greater_real, hr, Exact.greater_real,
      Exact.greater_real]
  · unfold pace
    rw [Exact.ofFloat_eq ht.baselineSpeed.isFinite, Exact.ofFloat_eq hleast.isFinite,
      Exact.ofFloat_eq (x := 1e-3) rfl, Exact.greater_real, hr', Exact.greater_real,
      Exact.greater_real]

variable {c c' : Context} (hjob : c'.job = c.job) (hwalltime : 0 < c.job.walltime)
  (hnow : c'.now = c.now) (hstart : c'.status.startEstimate ≤ c.status.startEstimate)
  (hspeed : c.system.nodeSpeed ≤ c'.system.nodeSpeed)
include hjob hwalltime hnow hstart hspeed

/-- An earlier start and a faster system are no greater slowdown. -/
theorem slowdown_mono : AtMost (slowdown t c') (slowdown t c) := by
  obtain ⟨-, -, hfinite, -⟩ := Job.validate_eq_ok.mp c.jobValid
  obtain ⟨-, -, -, -, hfast, -⟩ := System.validate_eq_ok.mp c.systemValid
  obtain ⟨-, -, -, -, hfast', -⟩ := System.validate_eq_ok.mp c'.systemValid
  have hw : (0 : ℝ) < Double.value c.job.walltime := by
    exact_mod_cast (IsCap.mk hfinite hwalltime).value_pos
  have hrequested : (0 : ℝ) < max (Double.value c.job.walltime : ℝ) 1 :=
    zero_lt_one.trans_le (le_max_right ..)
  obtain ⟨p, p', hp, hle, hpace, hpace'⟩ := pace_mono ht hfast hfast' hspeed
  have hrun : AtMost (ofFloat c.job.walltime / pace t c'.system.nodeSpeed)
      (ofFloat c.job.walltime / pace t c.system.nodeSpeed) := by
    rw [hpace, hpace', Exact.ofFloat_eq hfinite]
    exact ⟨_, _, div_le_div_of_nonneg_left hw.le hp hle, Exact.real_div (hp.trans_le hle).ne',
      Exact.real_div hp.ne'⟩
  show AtMost
    ((c'.wait Exact + ofFloat c'.job.walltime / pace t c'.system.nodeSpeed)
      / greater (ofFloat c'.job.walltime) 1)
    ((c.wait Exact + ofFloat c.job.walltime / pace t c.system.nodeSpeed)
      / greater (ofFloat c.job.walltime) 1)
  rw [hjob, show greater (ofFloat c.job.walltime) 1
    = real (max (Double.value c.job.walltime : ℝ) 1) by
    rw [Exact.ofFloat_eq hfinite, Exact.one_eq, Exact.greater_real]]
  exact ((wait_mono hnow hstart).add hrun).div hrequested

/-- More free nodes, an earlier start and a faster system do not lower the live term. -/
theorem dynamic_mono (havailable : c.status.available ≤ c'.status.available) :
    AtMost (dynamic Exact.curves t c) (dynamic Exact.curves t c') := by
  have hheadroom : AtMost (headroom c.status c.job) (headroom c'.status c'.job) := by
    rw [hjob]
    exact headroom_mono havailable c.job
  have hslowdown := slowdown_mono ht hjob hwalltime hnow hstart hspeed
  exact (hheadroom.weigh ht.headroomWeight).add (hslowdown.neg.exp.weigh ht.slowdownWeight)

end Live

/-! ## The bid -/

/-- A context of the same job and system that has no fewer nodes free passes the gate as well. -/
theorem passes_of_passes {c c' : Context} (hjob : c'.job = c.job) (hsystem : c'.system = c.system)
    (havailable : c.status.available ≤ c'.status.available) {check : NodeCheck}
    (h : c.passes Exact check = true) : c'.passes Exact check = true := by
  have hlimit : check.limit c.system c.status ≤ check.limit c.system c'.status := by
    cases check with
    | total => exact UInt64.le_rfl
    | available => exact havailable
  unfold Context.passes at h ⊢
  rw [hjob, hsystem]
  simp only [Bool.and_eq_true, Bool.not_eq_true', decide_eq_false_iff_not, UInt64.not_lt] at h ⊢
  obtain ⟨⟨⟨⟨hnodes, hgpu⟩, hmemory⟩, hstorage⟩, hwalltime⟩ := h
  exact ⟨⟨⟨⟨UInt64.le_trans hnodes hlimit, hgpu⟩, hmemory⟩, hstorage⟩, hwalltime⟩

/-- What passes the gate has a positive walltime. -/
theorem walltime_pos {c : Context} {check : NodeCheck} (h : c.passes Exact check = true) :
    0 < c.job.walltime := by
  obtain ⟨-, -, hfinite, -⟩ := Job.validate_eq_ok.mp c.jobValid
  unfold Context.passes at h
  simp only [Bool.and_eq_true, Bool.not_eq_true', decide_eq_false_iff_not] at h
  exact pos_of_not_le hfinite h.2

/-- More free nodes and an earlier start do not lower the score. -/
theorem value_mono {t : EmbeddingTuning} (ht : t.InRange) {c c' : Context}
    (hjob : c'.job = c.job) (hsystem : c'.system = c.system) (hwalltime : 0 < c.job.walltime)
    (hnow : c'.now = c.now) (hstart : c'.status.startEstimate ≤ c.status.startEstimate)
    (havailable : c.status.available ≤ c'.status.available) :
    AtMost (value Exact.curves t c) (value Exact.curves t c') := by
  obtain ⟨-, -, -, -, hfast, -⟩ := System.validate_eq_ok.mp c.systemValid
  have hspeed : c.system.nodeSpeed ≤ c'.system.nodeSpeed := by
    rw [hsystem]
    exact Double.le_refl (Double.isNaN_of_isFinite hfast)
  have hsimilarity : AtMost (similarity Exact.curves t c.job c.system)
      (similarity Exact.curves t c'.job c'.system) := by
    obtain ⟨x, -, -, hx⟩ := (isProfile_ofJob ht c.jobValid).isLevel_dot
      (isProfile_ofSystem ht c.systemValid)
    rw [hjob, hsystem]
    exact ⟨x, x, le_rfl, hx, hx⟩
  have hdynamic := dynamic_mono ht hjob hwalltime hnow hstart hspeed havailable
  exact (hsimilarity.weigh ht.staticWeight).add (hdynamic.weigh ht.dynamicWeight)

/-- A bid is a level, whether the gate passes the context or not. -/
theorem isLevel_bidValue {t : Tuning} (ht : t.embedding.InRange) (c : Context) :
    IsLevel (bidValue Exact.curves t c) := by
  have hstart := (Status.validate_eq_ok.mp c.statusValid).1
  unfold bidValue
  split
  · rename_i hpass
    obtain ⟨x, -, -, hx, -⟩ := value_mono ht rfl rfl (walltime_pos hpass) rfl
      (Double.le_refl (Double.isNaN_of_isFinite hstart)) UInt64.le_rfl
    rw [hx]
    exact Exact.isLevel_sanitized x
  · exact Exact.isLevel_zero

/-- More free nodes and an earlier start do not lower the bid. -/
theorem bidValue_mono {t : Tuning} (ht : t.embedding.InRange) {c c' : Context}
    (hjob : c'.job = c.job) (hsystem : c'.system = c.system) (hnow : c'.now = c.now)
    (havailable : c.status.available ≤ c'.status.available)
    (hstart : c'.status.startEstimate ≤ c.status.startEstimate) :
    AtMost (bidValue Exact.curves t c) (bidValue Exact.curves t c') := by
  cases hpass : c.passes Exact t.gate.nodeCheck with
  | true =>
    have hpass' := passes_of_passes hjob hsystem havailable hpass
    have hvalue := value_mono ht hjob hsystem (walltime_pos hpass) hnow hstart havailable
    unfold bidValue
    rw [if_pos hpass, if_pos hpass']
    exact hvalue.sanitized
  | false =>
    obtain ⟨b', h0, -, hb'⟩ := isLevel_bidValue ht c'
    refine ⟨0, b', h0, ?_, hb'⟩
    unfold bidValue
    rw [hpass, if_neg Bool.false_ne_true, Exact.zero_eq]

/-- The embedding bid follows the live status. Without rounding, more free nodes and an earlier
start of the same job on the same system are never bid less, and a faster system never has the
lower live term. In doubles the bid that is compared is the one of the scorer. -/
theorem exact_bid_follows_status (t : Tuning) (ht : t.check = .ok ()) :
    (∀ (curves : Curves Float) (c : Context) (seconds : Float),
      ((t.scorerOf curves .embedding).bid c seconds).value = bidValue curves t c) ∧
    (∀ c c' : Context, c'.job = c.job → c'.system = c.system → c'.now = c.now →
      c.status.available ≤ c'.status.available →
      c'.status.startEstimate ≤ c.status.startEstimate →
      ∃ b b' : ℝ, bidValue Exact.curves t c = real b ∧ bidValue Exact.curves t c' = real b' ∧
        0 ≤ b ∧ b ≤ b' ∧ b' ≤ 1) ∧
    ∀ c c' : Context, c'.job = c.job → c'.status = c.status → c'.now = c.now →
      0 < c.job.walltime → c.system.nodeSpeed ≤ c'.system.nodeSpeed →
      ∃ d d' : ℝ, dynamic Exact.curves t.embedding c = real d ∧
        dynamic Exact.curves t.embedding c' = real d' ∧ d ≤ d' := by
  have hrange := Tuning.embedding_inRange ht
  refine ⟨value_bid_eq t, fun c c' hjob hsystem hnow havailable hstart => ?_,
    fun c c' hjob hstatus hnow hwalltime hspeed => ?_⟩
  · obtain ⟨b, b', hle, hb, hb'⟩ := bidValue_mono hrange hjob hsystem hnow havailable hstart
    obtain ⟨x, h0, -, hx⟩ := isLevel_bidValue hrange c
    obtain ⟨y, -, h1, hy⟩ := isLevel_bidValue hrange c'
    cases hb.symm.trans hx
    cases hb'.symm.trans hy
    exact ⟨b, b', hb, hb', h0, hle, h1⟩
  · have hstart : c'.status.startEstimate ≤ c.status.startEstimate := by
      rw [hstatus]
      exact Double.le_refl (Double.isNaN_of_isFinite (Status.validate_eq_ok.mp c.statusValid).1)
    have havailable : c.status.available ≤ c'.status.available := by
      rw [hstatus]
      exact UInt64.le_rfl
    obtain ⟨d, d', hle, hd, hd'⟩ :=
      dynamic_mono hrange hjob hwalltime hnow hstart hspeed havailable
    exact ⟨d, d', hd, hd', hle⟩

/-- The crowded system once it is at rest. -/
def rested : Context := { crowded with status := ⟨16, 0, 5⟩, statusValid := rfl }

/-- The crowded system with nodes four times as fast. -/
def hastened : Context :=
  { crowded with system := { crowded.system with nodeSpeed := 4e12 }, systemValid := rfl,
                 statusValid := rfl }

theorem exact_bid_follows_status_rested :
    (∃ b b' : ℝ, bidValue Exact.curves { gate := ⟨.available⟩ } crowded = real b ∧
      bidValue Exact.curves { gate := ⟨.available⟩ } rested = real b' ∧
      0 ≤ b ∧ b ≤ b' ∧ b' ≤ 1) ∧
    ∃ d d' : ℝ, dynamic Exact.curves {} crowded = real d ∧
      dynamic Exact.curves {} hastened = real d' ∧ d ≤ d' := by
  obtain ⟨-, hstatus, hspeed⟩ := exact_bid_follows_status { gate := ⟨.available⟩ } rfl
  exact ⟨hstatus crowded rested rfl rfl rfl (by decide) (by decide),
    hspeed crowded hastened rfl rfl rfl (by decide) (by decide)⟩

end Embedding

end Placement
