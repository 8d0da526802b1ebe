import Placement.Proofs.Curves
import Placement.Proofs.Double.Decay
import Placement.Proofs.Tuning.Ranges
import Placement.Scoring.Heuristic
/-
  The factors of a heuristic bid. Given a tuning in range (`HeuristicTuning.InRange`) each of the
  six is a level, and each moves with its inputs in one direction:

    utilization   up with the free nodes (`utilization_mono`)
    node fit      up with the free nodes, down with the requested ones (`nodeFit_mono`)
    queue         down with the number of queued jobs (`queueFactor_anti`)
    resource      fixed by the two types
    site          fixed by where the job comes from
    delay         down with the wait (`delayFactor_anti`, given `Curves.Decays`)

  Every operation is rounded. A product of two counts or a wait may run out of the range of doubles,
  and a decay of 0 over an infinite wait is no number at all; the floors catch both.
-/
namespace Placement

open Double

namespace Heuristic

open Scalar (greater lesser)

/-! ## Utilization and node fit -/

section Nodes

variable {system : System} {status status' : Status}

theorem busy_le : status.busy system ≤ system.nodes := by
  unfold Status.busy
  split
  · rename_i h
    rw [UInt64.le_iff_toNat_le, UInt64.toNat_sub_of_le _ _ h]
    omega
  · exact UInt64.zero_le

theorem busy_mono (h : status.available ≤ status'.available) :
    status'.busy system ≤ status.busy system := by
  unfold Status.busy
  by_cases h2 : status'.available ≤ system.nodes
  · have h1 := UInt64.le_trans h h2
    rw [if_pos h1, if_pos h2, UInt64.le_iff_toNat_le, UInt64.toNat_sub_of_le _ _ h1,
      UInt64.toNat_sub_of_le _ _ h2]
    have := UInt64.le_iff_toNat_le.mp h
    omega
  · rw [if_neg h2]
    exact UInt64.zero_le

theorem isLevel_utilization : IsLevel (utilization system status) := by
  unfold utilization
  by_cases h : system.nodes = 0
  · rw [if_pos h]
    exact isLevel_zero
  · rw [if_neg h]
    exact (isLevel_share h busy_le).one_sub

theorem utilization_mono (h : status.available ≤ status'.available) :
    utilization system status ≤ utilization system status' := by
  unfold utilization
  by_cases hn : system.nodes = 0
  · rw [if_pos hn, if_pos hn]
    exact Double.le_refl rfl
  · rw [if_neg hn, if_neg hn]
    exact IsLevel.one_sub_anti (isLevel_share hn busy_le) (isLevel_share hn busy_le)
      (share_mono hn hn (busy_mono h) UInt64.le_rfl)

variable {available available' requested requested' : UInt64}

theorem isLevel_nodeFit : IsLevel (nodeFit available requested) := by
  unfold nodeFit
  by_cases h : requested = 0
  · rw [if_pos h]
    exact isLevel_one
  · rw [if_neg h]
    have hd := denotes_share (a := available) h
    exact isLevel_lesser ((denotes_zero.le_iff hd).mpr (share_nonneg))

/-- More free nodes or fewer requested ones never make a worse fit. -/
theorem nodeFit_mono (h : available ≤ available') (h' : requested' ≤ requested) :
    nodeFit available requested ≤ nodeFit available' requested' := by
  by_cases hr' : requested' = 0
  · rw [show nodeFit available' requested' = 1 from if_pos hr']
    exact isLevel_nodeFit.le_one
  · have hr : requested ≠ 0 := by
      rintro rfl
      exact hr' (UInt64.le_antisymm h' UInt64.zero_le)
    rw [nodeFit, if_neg hr, nodeFit, if_neg hr']
    exact lesser_mono rfl (share_mono hr hr' h h')

end Nodes

/-! ## Queue -/

section Queue

variable {t : HeuristicTuning} {queued queued' : UInt64}

theorem denotes_unqueued (ht : t.InRange) :
    Denotes (1 - t.queueStep * queued.toFloat)
      (rounded (1 - rounded (Double.value t.queueStep * Double.value queued.toFloat))) := by
  have h := denotes_one_sub (ht.queueStep.isFinite_mul_count (n := queued))
  rwa [ht.queueStep.denotes_mul_count.value] at h

theorem isLevel_queueFactor (ht : t.InRange) : IsLevel (queueFactor t queued) := by
  refine isLevel_greater ?_ ht.queueFloor
  refine not_lt_of_le (((denotes_unqueued ht).le_iff denotes_one).mpr (IsLevel.rounded_le_one ?_))
  have hsteps := ht.queueStep.mul_count_nonneg (n := queued)
  linarith

/-- A longer queue never raises a bid. -/
theorem queueFactor_anti (ht : t.InRange) (h : queued' ≤ queued) :
    queueFactor t queued ≤ queueFactor t queued' := by
  refine greater_mono ht.queueFloor.isNaN ?_
  refine ((denotes_unqueued ht).le_iff (denotes_unqueued ht)).mpr (rounded_mono ?_)
  have hsteps := ht.queueStep.mul_count_mono h
  linarith

theorem queueFloor_le (ht : t.InRange) : t.queueFloor ≤ queueFactor t queued :=
  le_greater_right ht.queueFloor.isNaN

end Queue

/-! ## Resource and site -/

section Levels

variable {t : HeuristicTuning} {P : Float → Prop}

/-- The resource factor is one of four levels. -/
theorem resourceFactor_of_all (h1 : P t.exactType) (h2 : P t.compatibleType)
    (h3 : P t.storageMismatch) (h4 : P t.defaultType) (job system : ResourceType) :
    P (resourceFactor t job system) := by
  unfold resourceFactor
  repeat' split
  all_goals assumption

/-- The site factor is one of three levels, or 1. -/
theorem siteFactor_of_all (h1 : P 1) (h2 : P t.sameSystem) (h3 : P t.sameSite)
    (h4 : P t.crossSite) (job : Job) (system : System) : P (siteFactor t job system) := by
  unfold siteFactor
  repeat' split
  all_goals assumption

theorem isLevel_resourceFactor (ht : t.InRange) (job system : ResourceType) :
    IsLevel (resourceFactor t job system) :=
  resourceFactor_of_all ht.exactType ht.compatibleType ht.storageMismatch ht.defaultType job system

theorem isLevel_siteFactor (ht : t.InRange) (job : Job) (system : System) :
    IsLevel (siteFactor t job system) :=
  siteFactor_of_all isLevel_one ht.sameSystem ht.sameSite ht.crossSite job system

end Levels

/-! ## Delay -/

section Delay

variable {curves : Curves Float} (hc : curves.Decays) {t : HeuristicTuning} (ht : t.InRange)
  {wait wait' : Float}

theorem zero_le_greater (x : Float) : 0 ≤ greater x 0 := le_greater_right rfl

include hc ht

omit hc in
theorem isLevel_delayFactor (hexp : ∀ x, ¬ 0 < x → ¬ 1 < curves.exp x) :
    IsLevel (delayFactor curves t wait) :=
  isLevel_greater (hexp _ (not_pos_decay ht.delayDecay_finite ht.delayDecay_nonneg
    (zero_le_greater wait))) ht.delayFloor

omit hc in
theorem delayFloor_le : t.delayFloor ≤ delayFactor curves t wait :=
  le_greater_right ht.delayFloor.isNaN

/-- A longer wait never raises a bid. -/
theorem delayFactor_anti (h : greater wait' 0 ≤ greater wait 0) :
    delayFactor curves t wait ≤ delayFactor curves t wait' := by
  have hw := zero_le_greater wait
  have hw' := zero_le_greater wait'
  unfold delayFactor
  generalize greater wait 0 = w at *
  generalize greater wait' 0 = w' at *
  have hd := ht.delayDecay_finite
  have hd0 := ht.delayDecay_nonneg
  cases hn : (-t.delayDecay * w').isNaN with
  | true =>
    -- then both waits are infinite, and the decays one and the same
    have hinf' := isFinite_of_isNaN_decay hd hn
    have hinf : w.isFinite = false := by
      cases hfin : w.isFinite with
      | false => rfl
      | true =>
        rw [isFinite_of_le hw' h hfin] at hinf'
        exact Bool.noConfusion hinf'
    rw [eq_infinity_of_le hw hinf, eq_infinity_of_le hw' hinf']
    exact Double.le_refl (isNaN_greater ht.delayFloor.isNaN)
  | false =>
    have hlevel : IsLevel (curves.exp (-t.delayDecay * w')) :=
      hc.range _ ((le_iff_value hn rfl).mpr (decay_nonpos hd hd0 hw' hn))
    refine greater_le ?_ (le_greater_right ht.delayFloor.isNaN)
    intro hlt
    have hle := le_greater_left hlevel.isNaN ht.delayFloor.isNaN
    exact not_decay_lt hd hd0 hw' h (hc.mono _ _ (lt_of_le_of_lt hle hlt))

end Delay

end Heuristic

end Placement
