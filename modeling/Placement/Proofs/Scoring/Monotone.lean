import Placement.Proofs.Auction.Clearing
import Placement.Proofs.Feasibility
import Placement.Proofs.Record.Ranges
import Placement.Proofs.Scoring.Factors
import Placement.Proofs.Scoring.Precision
/-
  The heuristic bid keeps the order of contexts. `Context.Eases c c'` says that `c'` makes it at
  most easier to run the job: more free nodes, a shorter queue, an earlier start, a smaller request.
  Then

  * `Eases.passes`: the gate passes `c'` whenever it passes `c`.
  * `Eases.factors_le`: each factor is a level, and at least as great for `c'`.
  * `Factors.product_mono`: their product is a level and keeps the order.
  * `Heuristic.value_mono`: its rounding is one as well.

  `Heuristic.bid_mono` puts them together, GIVEN `Curves.Decays` and a tuning that passes its check.
  Everything but the exponential is computed with doubles as they are, and no count, wait or rate is
  bounded.
-/
namespace Placement

open Double

/-- The second of two contexts makes it at most easier to run the job. System, clock, walltime, type
and origin of the job are the same; what else the job says about itself is free. -/
structure Context.Eases (c c' : Context) : Prop where
  system : c'.system = c.system
  now : c'.now = c.now
  walltime : c'.job.walltime = c.job.walltime
  type : c'.job.type = c.job.type
  site : c'.job.site = c.job.site
  origin : c'.job.system = c.job.system
  available : c.status.available ≤ c'.status.available
  queued : c'.status.queued ≤ c.status.queued
  start : c'.status.startEstimate ≤ c.status.startEstimate
  nodes : c'.job.nodes ≤ c.job.nodes
  memory : c'.job.memory ≤ c.job.memory
  storage : c'.job.storage ≤ c.job.storage
  needsGpu : c'.job.needsGpu = true → c.job.needsGpu = true

/-! ## The gate -/

namespace Context.Eases

variable {c c' : Context} (h : c.Eases c')
include h

theorem passes {check : NodeCheck} (hpass : c.infeasibility? check = none) :
    c'.infeasibility? check = none := by
  obtain ⟨-, -, ⟨hmemory, -⟩, hstorage, -⟩ := System.validate_eq_ok.mp c.systemValid
  have hwalltime := (Job.validate_eq_ok.mp c.jobValid).2.2.1
  refine passes_mono c.systemValid c'.systemValid ?_ ?_ h.available hpass
  · refine ⟨h.nodes, h.memory, h.storage, h.needsGpu, ?_⟩
    rw [h.walltime]
    exact Double.le_refl (isNaN_of_isFinite hwalltime)
  · rw [h.system]
    exact .refl c.systemValid

end Context.Eases

/-! ## Factors and their product -/

namespace Heuristic

open Scalar (greater)

/-- Every factor is a level. -/
structure Factors.Levels (f : Factors) : Prop where
  utilization : IsLevel f.utilization
  nodeFit : IsLevel f.nodeFit
  queue : IsLevel f.queue
  resource : IsLevel f.resource
  site : IsLevel f.site
  delay : IsLevel f.delay

/-- Every factor is at most its counterpart. -/
structure Factors.Below (f f' : Factors) : Prop where
  utilization : f.utilization ≤ f'.utilization
  nodeFit : f.nodeFit ≤ f'.nodeFit
  queue : f.queue ≤ f'.queue
  resource : f.resource ≤ f'.resource
  site : f.site ≤ f'.site
  delay : f.delay ≤ f'.delay

namespace Factors

variable {f f' : Factors}

theorem Levels.product (h : f.Levels) : IsLevel f.product :=
  ((((h.utilization.mul h.nodeFit).mul h.queue).mul h.resource).mul h.site).mul h.delay

theorem product_mono (h : f.Levels) (h' : f'.Levels) (hle : f.Below f') :
    f.product ≤ f'.product := by
  have h2 := h.utilization.mul h.nodeFit
  have h2' := h'.utilization.mul h'.nodeFit
  have h3 := h2.mul h.queue
  have h3' := h2'.mul h'.queue
  have h4 := h3.mul h.resource
  have h4' := h3'.mul h'.resource
  have le2 := h.utilization.mul_mono h.nodeFit h'.utilization h'.nodeFit hle.utilization hle.nodeFit
  have le3 := h2.mul_mono h.queue h2' h'.queue le2 hle.queue
  have le4 := h3.mul_mono h.resource h3' h'.resource le3 hle.resource
  have le5 := h4.mul_mono h.site h4' h'.site le4 hle.site
  exact (h4.mul h.site).mul_mono h.delay (h4'.mul h'.site) h'.delay le5 hle.delay

end Factors

section Value

variable {t : HeuristicTuning} (ht : t.InRange)
include ht

theorem isLevel_value {f : Factors} (h : f.Levels) : IsLevel (value t f) := by
  unfold value
  rw [h.product.clamp_eq]
  exact isLevel_roundTo ht.precision_le h.product

theorem value_mono {f f' : Factors} (h : f.Levels) (h' : f'.Levels) (hle : f.Below f') :
    value t f ≤ value t f' := by
  unfold value
  rw [h.product.clamp_eq, h'.product.clamp_eq]
  exact roundTo_mono ht.precision_le h.product h'.product (Factors.product_mono h h' hle)

variable {curves : Curves Float} (hc : curves.Decays)

/-- In every context each factor is a level. -/
theorem levels_factors_of (hexp : ∀ x, ¬ 0 < x → ¬ 1 < curves.exp x) (c : Context) :
    (factors curves t c).Levels where
  utilization := isLevel_utilization
  nodeFit := isLevel_nodeFit
  queue := isLevel_queueFactor ht
  resource := isLevel_resourceFactor ht _ _
  site := isLevel_siteFactor ht _ _
  delay := isLevel_delayFactor ht hexp

omit ht in
/-- What passes the gate is scored with the rounded product of its factors. -/
theorem assess_of_passes {check : NodeCheck} {c : Context}
    (hpass : c.infeasibility? check = none) :
    (scorer curves t check).assess c
      = .scored (value t (factors curves t c)) (factors curves t c).detail := by
  simp only [scorer, Scorer.gated, hpass]

include hc

theorem levels_factors (c : Context) : (factors curves t c).Levels :=
  levels_factors_of ht hc.not_one_lt c

/-- What passes the gate is given the rounded product of its factors. -/
theorem score_of_passes {check : NodeCheck} {c : Context} (hpass : c.infeasibility? check = none) :
    (scorer curves t check).score c = value t (factors curves t c) := by
  unfold Scorer.score
  rw [assess_of_passes hpass]
  exact (isLevel_value ht (levels_factors ht hc c)).sanitize_eq

end Value

end Heuristic

namespace Context

open Scalar (greater)

variable {c c' : Context}

theorem isFinite_now (c : Context) : c.now.isFinite = true := checkClock_eq_ok.mp c.clockValid

theorem isNaN_now (c : Context) : c.now.isNaN = false := isNaN_of_isFinite c.isFinite_now

theorem isFinite_start (c : Context) : c.status.startEstimate.isFinite = true :=
  (Status.validate_eq_ok.mp c.statusValid).1

/-- What the start estimate is after the clock, before what is negative is left out. -/
theorem denotes_ahead (c : Context) : Denotes (c.status.startEstimate - c.now)
    (rounded (Double.value c.status.startEstimate - Double.value c.now)) :=
  denotes_sub c.isFinite_start c.isFinite_now

/-- An earlier start and a later clock make no longer a wait. -/
theorem wait_anti (hstart : c'.status.startEstimate ≤ c.status.startEstimate)
    (hnow : c.now ≤ c'.now) : greater c'.expectedWait 0 ≤ greater c.expectedWait 0 := by
  have hle := (le_iff_value (isNaN_of_isFinite c'.isFinite_start)
    (isNaN_of_isFinite c.isFinite_start)).mp hstart
  have hle' := (le_iff_value c.isNaN_now c'.isNaN_now).mp hnow
  have hahead := (c'.denotes_ahead.le_iff c.denotes_ahead).mpr (rounded_mono (by linarith))
  exact greater_mono rfl (greater_mono rfl hahead)

namespace Eases

open Heuristic

variable (h : c.Eases c')
include h

theorem factors_le {curves : Curves Float} (hc : curves.Decays) {t : HeuristicTuning}
    (ht : t.InRange) : (factors curves t c).Below (factors curves t c') where
  utilization := by
    show utilization c.system c.status ≤ utilization c'.system c'.status
    rw [h.system]
    exact utilization_mono h.available
  nodeFit := nodeFit_mono h.available h.nodes
  queue := queueFactor_anti ht h.queued
  resource := by
    show resourceFactor t c.job.type c.system.type ≤ resourceFactor t c'.job.type c'.system.type
    rw [h.type, h.system]
    exact Double.le_refl (isLevel_resourceFactor ht _ _).isNaN
  site := by
    have hsite : siteFactor t c'.job c'.system = siteFactor t c.job c.system := by
      unfold siteFactor
      rw [h.site, h.origin, h.system]
    show siteFactor t c.job c.system ≤ siteFactor t c'.job c'.system
    rw [hsite]
    exact Double.le_refl (isLevel_siteFactor ht _ _).isNaN
  delay := by
    refine delayFactor_anti hc ht (wait_anti h.start ?_)
    rw [h.now]
    exact Double.le_refl c.isNaN_now

end Eases

end Context

/-! ## The bid -/

/-- The heuristic bid is monotone. Under an accepted tuning a context that makes it at most easier
to run the job is bid on with at least as much. -/
theorem Heuristic.bid_mono (curves : Curves Float) (hc : curves.Decays) (t : Tuning)
    (ht : t.check = .ok ()) (c c' : Context) (h : c.Eases c') (seconds seconds' : Float) :
    ((t.scorerOf curves .heuristic).bid c seconds).value
      ≤ ((t.scorerOf curves .heuristic).bid c' seconds').value := by
  have hrange := Tuning.inRange ht
  rw [Scorer.value_bid, Scorer.value_bid]
  show (Heuristic.scorer curves t.heuristic t.gate.nodeCheck).score c
    ≤ (Heuristic.scorer curves t.heuristic t.gate.nodeCheck).score c'
  cases hgate : c.infeasibility? t.gate.nodeCheck with
  | some reason =>
    have hzero : (Heuristic.scorer curves t.heuristic t.gate.nodeCheck).score c = 0 := by
      simp only [Scorer.score, Heuristic.scorer, Scorer.gated, hgate]
      rfl
    rw [hzero, ← Scorer.sanitize_score]
    exact zero_le_sanitize _
  | none =>
    rw [Heuristic.score_of_passes hrange hc hgate,
      Heuristic.score_of_passes hrange hc (h.passes hgate)]
    exact Heuristic.value_mono hrange (Heuristic.levels_factors hrange hc c)
      (Heuristic.levels_factors hrange hc c') (h.factors_le hc hrange)

/-- A job of eight nodes and the last four of a busy system. -/
def crowded : Context where
  job := ⟨1, 1, 1, .hpc, 0, 60, 8, true, 64, 10, "north", "a"⟩
  system := ⟨"b", "north", .hpc, 16, 64, none, true, 1e12, none⟩
  status := ⟨4, 1e6, 5⟩
  now := 0
  jobValid := rfl
  systemValid := rfl
  statusValid := rfl
  clockValid := checkClock_zero

/-- A smaller job on the same system, at rest. -/
def relaxed : Context where
  job := ⟨2, 1, 1, .hpc, 0, 60, 4, false, 32, 10, "north", "a"⟩
  system := crowded.system
  status := ⟨16, 0, 0⟩
  now := 0
  jobValid := rfl
  systemValid := rfl
  statusValid := rfl
  clockValid := checkClock_zero

theorem crowded_eases_relaxed : crowded.Eases relaxed :=
  ⟨rfl, rfl, rfl, rfl, rfl, rfl, by decide, by decide, by decide, by decide, by decide, by decide,
    nofun⟩

theorem Heuristic.bid_mono_crowded :
    ((Tuning.scorerOf .steep {} .heuristic).bid crowded 0).value = 0.01 ∧
      ((Tuning.scorerOf .steep {} .heuristic).bid relaxed 0).value = 0.9 ∧
      ((Tuning.scorerOf .steep {} .heuristic).bid crowded 0).value
        ≤ ((Tuning.scorerOf .steep {} .heuristic).bid relaxed 0).value :=
  ⟨by decide +kernel, by decide +kernel,
    Heuristic.bid_mono .steep Curves.decays_steep {} rfl crowded relaxed crowded_eases_relaxed 0 0⟩

end Placement
