import Placement.Proofs.Double.Error
import Placement.Proofs.Scoring.Monotone
/-
  When a heuristic bid is above zero, GIVEN `Curves.Decays`, a tuning that passes its check with
  levels of at least 0.1 (`LevelsFrom`), a context that passes the gate, and a free node:

  * `product_pos`: the product of the factors is never zero, on fewer than `2^53` nodes. A bid of
    zero says that the job cannot run, and the floors of queue and delay are there to keep every
    other bid above it; up to here they do.
  * `bid_pos_iff`: the bid is above zero exactly when its product has more than half a unit of the
    last decimal place. The queue and the wait cannot take it below that when the share of free
    nodes, the two levels of the context and the two floors together leave 0.51 of a unit; the
    hundredth covers all roundings.
  * `bid_sparse_eq_zero`: with less, a bid is rounded to zero.
-/
namespace Placement

open Double

/-- Every level and floor of a heuristic is at least `x`. -/
structure HeuristicTuning.LevelsFrom (t : HeuristicTuning) (x : Float) : Prop where
  exactType : x ≤ t.exactType
  compatibleType : x ≤ t.compatibleType
  storageMismatch : x ≤ t.storageMismatch
  defaultType : x ≤ t.defaultType
  sameSystem : x ≤ t.sameSystem
  sameSite : x ≤ t.sameSite
  crossSite : x ≤ t.crossSite
  queueFloor : x ≤ t.queueFloor
  delayFloor : x ≤ t.delayFloor

theorem one_le_cast {n : UInt64} (h : n ≠ 0) : (1 : ℚ) ≤ n.toNat := by
  exact_mod_cast UInt64.lt_iff_toNat_lt.mp (UInt64.pos_iff_ne_zero.mpr h)

namespace Context

/-- The share of free nodes. -/
def free (c : Context) : ℚ := c.status.available.toNat / c.system.nodes.toNat

/-- How much of the request the free nodes hold. -/
def fit (c : Context) : ℚ := min (c.status.available.toNat / c.job.nodes.toNat) 1

variable {c : Context}

theorem nodes_ne_zero (c : Context) : c.system.nodes ≠ 0 :=
  (System.validate_eq_ok.mp c.systemValid).2.1

theorem requested_ne_zero (c : Context) : c.job.nodes ≠ 0 := (Job.validate_eq_ok.mp c.jobValid).1

theorem available_le (c : Context) : c.status.available ≤ c.system.nodes :=
  UInt64.not_lt.mp (Status.validate_eq_ok.mp c.statusValid).2

theorem toNat_busy (c : Context) : (c.status.busy c.system).toNat
    = c.system.nodes.toNat - c.status.available.toNat := by
  unfold Status.busy
  rw [if_pos c.available_le, UInt64.toNat_sub_of_le _ _ c.available_le]

/-- What passes the gate asks for no more nodes than there are. -/
theorem requested_le {check : NodeCheck} (hpass : c.infeasibility? check = none) :
    c.job.nodes ≤ c.system.nodes := by
  have hnodes := UInt64.not_lt.mp (infeasibility?_eq_none.mp hpass).1
  cases check with
  | total => exact hnodes
  | available => exact UInt64.le_trans hnodes c.available_le

theorem free_nonneg (c : Context) : 0 ≤ c.free := by
  unfold free
  positivity

theorem free_le_one (c : Context) : c.free ≤ 1 :=
  div_le_one_of_le₀ (by exact_mod_cast UInt64.le_iff_toNat_le.mp c.available_le)
    (Nat.cast_nonneg _)

theorem fit_nonneg (c : Context) : 0 ≤ c.fit := le_min (by positivity) zero_le_one

theorem fit_le_one (c : Context) : c.fit ≤ 1 := min_le_right _ _

end Context

namespace Heuristic

/-! ## Node factors -/

/-- The least factor that a free node among fewer than `2^53` can leave. -/
def least : Float := 1.1102230246251565e-16

theorem denotes_least : Denotes least (1 / 2 ^ 53) := ⟨rfl, by decide +kernel⟩

theorem isFinite_least : least.isFinite = true := rfl

theorem least_le_quotient {a n : UInt64} (ha : a ≠ 0) (hn : n ≠ 0) (h : n.toNat ≤ 2 ^ 53) :
    (1 : ℚ) / 2 ^ 53 ≤ a.toNat / n.toNat := by
  have hnodes : (n.toNat : ℚ) ≤ 2 ^ 53 := by exact_mod_cast h
  exact div_le_div₀ (by positivity) (one_le_cast ha) (zero_lt_one.trans_le (one_le_cast hn)) hnodes

section Nodes

variable {c : Context} (hsmall : c.system.nodes.toNat < 2 ^ 53)
include hsmall

theorem value_busy_div :
    Double.value (c.status.busy c.system).toFloat / Double.value c.system.nodes.toFloat
      = 1 - c.free := by
  have hle := UInt64.le_iff_toNat_le.mp c.available_le
  have hbusy := c.toNat_busy
  have hpos := value_count_pos c.nodes_ne_zero
  rw [value_count_eq hsmall] at hpos ⊢
  rw [value_count_eq (by omega), hbusy, Nat.cast_sub hle, sub_div, div_self hpos.ne']
  rfl

theorem denotes_utilization :
    Denotes (utilization c.system c.status) (rounded (1 - rounded (1 - c.free))) := by
  have hshare := isLevel_share c.nodes_ne_zero (@busy_le c.system c.status)
  have h := denotes_one_sub hshare.isFinite
  rw [(denotes_share c.nodes_ne_zero).value, value_busy_div hsmall] at h
  unfold utilization
  rwa [if_neg c.nodes_ne_zero]

/-- Two roundings separate the utilization from the share of free nodes. -/
theorem free_le_utilization :
    c.free ≤ Double.value (utilization c.system c.status) + 2 / 2 ^ 53 := by
  have h0 := c.free_nonneg
  have h1 := c.free_le_one
  have hinner := rounded_le_add (q := 1 - c.free) (by linarith) (by linarith)
  have hinner0 := rounded_nonneg (q := 1 - c.free) (by linarith)
  have hinner1 := IsLevel.rounded_le_one (q := 1 - c.free) (by linarith)
  have houter := le_rounded_add (q := 1 - rounded (1 - c.free)) (by linarith) (by linarith)
  rw [(denotes_utilization hsmall).value]
  linarith

/-- A free node is not lost to them. -/
theorem least_le_utilization (hfree : c.status.available ≠ 0) :
    least ≤ utilization c.system c.status := by
  have hleast : 1 / 2 ^ 53 ≤ c.free := least_le_quotient hfree c.nodes_ne_zero hsmall.le
  -- the greatest double below 1 bounds the share of the nodes at work
  have hbelow : Double.value 0.9999999999999999 = 1 - 1 / 2 ^ 53 := by decide +kernel
  have hbusy : rounded (1 - c.free) ≤ 1 - 1 / 2 ^ 53 := by
    rw [← hbelow]
    exact rounded_le rfl (by rw [hbelow]; linarith)
  refine (denotes_least.le_iff (denotes_utilization hsmall)).mpr ?_
  rw [← denotes_least.value]
  refine le_rounded isFinite_least ?_
  rw [denotes_least.value]
  linarith

variable (hrequested : c.job.nodes ≤ c.system.nodes)
include hrequested

theorem denotes_fit : Denotes (c.status.available.toFloat / c.job.nodes.toFloat)
    (rounded (c.status.available.toNat / c.job.nodes.toNat)) := by
  have hle := UInt64.le_iff_toNat_le.mp c.available_le
  have hle' := UInt64.le_iff_toNat_le.mp hrequested
  have h := denotes_share (a := c.status.available) c.requested_ne_zero
  rwa [value_count_eq (by omega), value_count_eq (by omega)] at h

theorem value_nodeFit : Double.value (nodeFit c.status.available c.job.nodes)
    = min (rounded (c.status.available.toNat / c.job.nodes.toNat)) 1 := by
  have h := denotes_fit hsmall hrequested
  unfold nodeFit
  rw [if_neg c.requested_ne_zero, lesser_of_number h.isNaN rfl]
  by_cases hlt : 1 < c.status.available.toFloat / c.job.nodes.toFloat
  · rw [if_pos hlt, value_one, min_eq_right ((denotes_one.lt_iff h).mp hlt).le]
  · rw [if_neg hlt, h.value]
    exact (min_eq_left (not_lt.mp (mt (denotes_one.lt_iff h).mpr hlt))).symm

theorem fit_le_nodeFit :
    c.fit ≤ Double.value (nodeFit c.status.available c.job.nodes) + 1 / 2 ^ 53 := by
  rw [value_nodeFit hsmall hrequested]
  have h0 : (0 : ℚ) ≤ c.status.available.toNat / c.job.nodes.toNat := by positivity
  unfold Context.fit
  generalize (c.status.available.toNat / c.job.nodes.toNat : ℚ) = q at *
  rcases le_total q 1 with h1 | h1
  · rw [min_eq_left h1, min_eq_left (IsLevel.rounded_le_one h1)]
    exact le_rounded_add h0 h1
  · have hone := le_rounded isFinite_one (value_one.trans_le h1)
    rw [value_one] at hone
    rw [min_eq_right h1, min_eq_right hone]
    linarith [show (0 : ℚ) ≤ 1 / 2 ^ 53 by positivity]

theorem least_le_nodeFit (hfree : c.status.available ≠ 0) :
    least ≤ nodeFit c.status.available c.job.nodes := by
  have hle := UInt64.le_iff_toNat_le.mp hrequested
  have hquot := least_le_quotient hfree c.requested_ne_zero (hle.trans hsmall.le)
  refine (denotes_least.le_iff (.of_isNaN isLevel_nodeFit.isNaN)).mpr ?_
  rw [value_nodeFit hsmall hrequested]
  refine le_min ?_ (by norm_num)
  rw [← denotes_least.value] at hquot ⊢
  exact le_rounded isFinite_least hquot

end Nodes

/-! ## The product -/

section Product

variable {t : HeuristicTuning} (ht : t.InRange) {curves : Curves Float} (hc : curves.Decays)
  {c : Context} (hsmall : c.system.nodes.toNat < 2 ^ 53)
  (hrequested : c.job.nodes ≤ c.system.nodes)
include ht hc hsmall hrequested

/-- With a free node, and levels of at least 0.1, no product of factors is zero. -/
theorem product_pos (hlevels : t.LevelsFrom 0.1) (hfree : c.status.available ≠ 0) :
    0 < (factors curves t c).product := by
  have htenth : IsLevel 0.1 := ⟨by decide, by decide⟩
  have hleast : IsLevel least := ⟨by decide, by decide⟩
  have hbelow : Factors.Below ⟨least, least, 0.1, 0.1, 0.1, 0.1⟩ (factors curves t c) :=
    { utilization := least_le_utilization hsmall hfree
      nodeFit := least_le_nodeFit hsmall hrequested hfree
      queue := le_trans hlevels.queueFloor (queueFloor_le ht)
      resource := resourceFactor_of_all hlevels.exactType hlevels.compatibleType
        hlevels.storageMismatch hlevels.defaultType _ _
      site := siteFactor_of_all htenth.le_one hlevels.sameSystem hlevels.sameSite
        hlevels.crossSite _ _
      delay := le_trans hlevels.delayFloor (delayFloor_le ht) }
  refine lt_of_lt_of_le ?_ (Factors.product_mono ⟨hleast, hleast, htenth, htenth, htenth, htenth⟩
    (levels_factors ht hc c) hbelow)
  decide +kernel

/-- The queue and the delay take no more than their floors from the product. -/
theorem floors_le_product : c.free * c.fit * Double.value t.queueFloor
      * Double.value (resourceFactor t c.job.type c.system.type)
      * Double.value (siteFactor t c.job c.system) * Double.value t.delayFloor
    ≤ Double.value (factors curves t c).product + 8 / 2 ^ 53 := by
  have h := levels_factors ht hc c
  have hqueue := (ht.queueFloor.denotes.le_iff h.queue.denotes).mp (queueFloor_le ht)
  have hdelay := (ht.delayFloor.denotes.le_iff h.delay.denotes).mp (delayFloor_le ht)
  have h2 := h.utilization.mul h.nodeFit
  have h3 := h2.mul h.queue
  have h4 := h3.mul h.resource
  have h5 := h4.mul h.site
  have l2 := h.utilization.le_value_mul h.nodeFit (free_le_utilization hsmall)
    (fit_le_nodeFit hsmall hrequested) c.fit_nonneg c.fit_le_one (by positivity) (by positivity)
  have l3 := h2.le_value_mul h.queue l2 (hqueue.trans_eq (add_zero _).symm)
    ht.queueFloor.value_nonneg ht.queueFloor.value_le_one (by positivity) le_rfl
  have l4 := h3.le_value_mul h.resource l3 (add_zero _).ge h.resource.value_nonneg
    h.resource.value_le_one (by positivity) le_rfl
  have l5 := h4.le_value_mul h.site l4 (add_zero _).ge h.site.value_nonneg
    h.site.value_le_one (by positivity) le_rfl
  have l6 := h5.le_value_mul h.delay l5 (hdelay.trans_eq (add_zero _).symm)
    ht.delayFloor.value_nonneg ht.delayFloor.value_le_one (by positivity) le_rfl
  have hloss : (2 / 2 ^ 53 + 1 / 2 ^ 53 + 1 / 2 ^ 53 + 0 + 1 / 2 ^ 53 + 0 + 1 / 2 ^ 53 + 0
      + 1 / 2 ^ 53 + 0 + 1 / 2 ^ 53 : ℚ) = 8 / 2 ^ 53 := by norm_num
  rwa [hloss] at l6

end Product

/-- What the roundings of a product cost is below a hundredth of a unit. -/
theorem half_lt_of_floors {floors product units : ℚ} (hfloors : floors ≤ product + 8 / 2 ^ 53)
    (hunits0 : 0 < units) (hunits : units ≤ 10 ^ 12) (h : 51 / 100 ≤ floors * units) :
    1 / 2 < rounded (product * units) := by
  have hloss : 8 / 2 ^ 53 * units ≤ 1 / 1000 := by
    have hmul := mul_le_mul_of_nonneg_left hunits (show (0 : ℚ) ≤ 8 / 2 ^ 53 by positivity)
    norm_num at hmul ⊢
    linarith
  have hleft : 509 / 1000 ≤ product * units := calc
    509 / 1000 ≤ floors * units - 8 / 2 ^ 53 * units := by linarith
    _ = (floors - 8 / 2 ^ 53) * units := (sub_mul _ _ _).symm
    _ ≤ product * units := mul_le_mul_of_nonneg_right (by linarith) hunits0.le
  have hround := le_rounded_add (q := 509 / 1000) (by norm_num) (by norm_num)
  calc (1 : ℚ) / 2 < 509 / 1000 - 1 / 2 ^ 53 := by norm_num
    _ ≤ rounded (509 / 1000) := by linarith
    _ ≤ rounded (product * units) := rounded_mono hleft

/-! ## The bid -/

theorem value_pos_iff {t : HeuristicTuning} (ht : t.InRange) {f : Factors} (h : f.Levels) :
    0 < value t f ↔ 1 / 2 < rounded (Double.value f.product * 10 ^ t.precision.toNat) := by
  unfold value
  rw [h.product.clamp_eq]
  exact roundTo_pos_iff ht.precision_le h.product

/-- Under an accepted tuning a context that passes the gate is bid on with more than 0 exactly when
the product of its factors has more than half a unit of the last decimal place.

With levels of at least 0.1 and a free node among fewer than `2^53` that product is never zero; and
the bid is above 0, whatever queue and wait, when nodes, levels and floors leave 0.51 units. -/
theorem bid_pos_iff (curves : Curves Float) (hc : curves.Decays) (t : Tuning)
    (ht : t.check = .ok ()) (hlevels : t.heuristic.LevelsFrom 0.1) (c : Context)
    (hpass : c.infeasibility? t.gate.nodeCheck = none) (hfree : c.status.available ≠ 0)
    (seconds : Float) :
    (0 < ((t.scorerOf curves .heuristic).bid c seconds).value ↔
      1 / 2 < rounded (Double.value (factors curves t.heuristic c).product
        * 10 ^ t.heuristic.precision.toNat)) ∧
    (c.system.nodes.toNat < 2 ^ 53 →
      0 < (factors curves t.heuristic c).product ∧
      (51 / 100 ≤ c.free * c.fit * Double.value t.heuristic.queueFloor
          * Double.value (resourceFactor t.heuristic c.job.type c.system.type)
          * Double.value (siteFactor t.heuristic c.job c.system)
          * Double.value t.heuristic.delayFloor * 10 ^ t.heuristic.precision.toNat →
        0 < ((t.scorerOf curves .heuristic).bid c seconds).value)) := by
  have hrange := Tuning.inRange ht
  have hbid : 0 < ((t.scorerOf curves .heuristic).bid c seconds).value ↔
      1 / 2 < rounded (Double.value (factors curves t.heuristic c).product
        * 10 ^ t.heuristic.precision.toNat) := by
    rw [Scorer.value_bid]
    show 0 < (scorer curves t.heuristic t.gate.nodeCheck).score c ↔ _
    rw [score_of_passes hrange hc hpass]
    exact value_pos_iff hrange (levels_factors hrange hc c)
  refine ⟨hbid, fun hsmall => ?_⟩
  have hrequested := Context.requested_le hpass
  refine ⟨product_pos hrange hc hsmall hrequested hlevels hfree, fun hunits => hbid.mpr ?_⟩
  exact half_lt_of_floors (floors_le_product hrange hc hsmall hrequested) (by positivity)
    (pow_le_pow_right₀ (by norm_num) hrange.precision_le) hunits

theorem levelsFrom_default : HeuristicTuning.LevelsFrom {} 0.1 where
  exactType := by decide
  compatibleType := by decide
  storageMismatch := by decide
  defaultType := by decide
  sameSystem := by decide
  sameSite := by decide
  crossSite := by decide
  queueFloor := by decide
  delayFloor := by decide

theorem bid_pos_iff_relaxed :
    relaxed.infeasibility? .total = none ∧
      0 < ((Tuning.scorerOf .steep {} .heuristic).bid relaxed 0).value := by
  have hpass : relaxed.infeasibility? .total = none := rfl
  obtain ⟨-, h⟩ := bid_pos_iff .steep Curves.decays_steep {} rfl levelsFrom_default relaxed hpass
    (by decide) 0
  exact ⟨hpass, (h (by decide)).2 (by decide +kernel)⟩

/-- A job of one node and the last free node of a thousand. -/
def sparse : Context where
  job := ⟨1, 1, 1, .hpc, 0, 60, 1, false, 0, 0, "north", "b"⟩
  system := ⟨"b", "north", .hpc, 1000, 64, none, true, 1e12, none⟩
  status := ⟨1, 0, 0⟩
  now := 0
  jobValid := rfl
  systemValid := rfl
  statusValid := rfl
  clockValid := checkClock_zero

/-- The levels are in range, the job passes the gate and a node is free; yet its bid is rounded to
the zero that says that it cannot run. -/
theorem bid_sparse_eq_zero :
    Tuning.check {} = .ok () ∧ HeuristicTuning.LevelsFrom {} 0.1 ∧
      sparse.infeasibility? .total = none ∧ sparse.status.available ≠ 0 ∧
      ((Tuning.scorerOf .steep {} .heuristic).bid sparse 0).value = 0 :=
  ⟨rfl, levelsFrom_default, rfl, by decide, by decide +kernel⟩

end Heuristic

end Placement
