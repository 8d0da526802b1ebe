import Placement.Proofs.Scoring.Positive
/-
  Heuristic scores stay within 0 and 1.

  `scores_are_levels`: each factor, their product and the scored value, GIVEN a tuning that passes
  its check, any context, and an exponential that does not exceed 1 where its argument is not above
  0, whether that is a number or not. The tuning brings levels and floors within 0 and 1 and at most
  twelve places; the context brings nodes to divide by and no more of them free than there are. A
  wait beyond the doubles is infinite, and its product with a decay of 0 is no number at all; both
  stay behind a floor.
-/
namespace Placement

open Double

namespace Context

variable (c : Context)

/-- In a context no node is both at work and free, and none is neither. -/
theorem toNat_busy_add_available :
    (c.status.busy c.system).toNat + c.status.available.toNat = c.system.nodes.toNat := by
  have hle := UInt64.le_iff_toNat_le.mp c.available_le
  rw [toNat_busy]
  omega

end Context

namespace Heuristic

open Scalar (lesser)

/-- In every context each factor of a heuristic bid and their product are numbers within 0 and 1,
and what a context that passes the gate is scored with is a bid before it is made one. No node count
is 0, and no more nodes are free than there are, so utilization and node fit are the quotients
themselves and the nodes at work are what the free ones leave. -/
theorem scores_are_levels (curves : Curves Float) (hexp : ∀ x, ¬ 0 < x → ¬ 1 < curves.exp x)
    (t : Tuning) (ht : t.check = .ok ()) (c : Context) :
    (∀ f, f = factors curves t.heuristic c →
      ∀ x ∈ [f.utilization, f.nodeFit, f.queue, f.resource, f.site, f.delay, f.product],
        x.isNaN = false ∧ 0 ≤ x ∧ x ≤ 1) ∧
    (c.infeasibility? t.gate.nodeCheck = none → ∃ value detail,
      (t.scorerOf curves .heuristic).assess c = .scored value detail ∧
        value.isFinite = true ∧ 0 ≤ value ∧ value ≤ 1 ∧ sanitize value = value) ∧
    utilization c.system c.status
      = 1 - (c.status.busy c.system).toFloat / c.system.nodes.toFloat ∧
    nodeFit c.status.available c.job.nodes
      = lesser (c.status.available.toFloat / c.job.nodes.toFloat) 1 ∧
    c.status.available ≤ c.system.nodes ∧
    (c.status.busy c.system).toNat + c.status.available.toNat = c.system.nodes.toNat := by
  have hrange := Tuning.inRange ht
  have hlevels := levels_factors_of hrange hexp c
  refine ⟨?_, fun hpass => ?_, if_neg c.nodes_ne_zero, if_neg c.requested_ne_zero,
    c.available_le, c.toNat_busy_add_available⟩
  · rintro f rfl x hx
    have hx : IsLevel x := by
      simp only [List.mem_cons, List.not_mem_nil, or_false] at hx
      rcases hx with rfl | rfl | rfl | rfl | rfl | rfl | rfl
      · exact hlevels.utilization
      · exact hlevels.nodeFit
      · exact hlevels.queue
      · exact hlevels.resource
      · exact hlevels.site
      · exact hlevels.delay
      · exact hlevels.product
    exact ⟨hx.isNaN, hx.zero_le, hx.le_one⟩
  · have hvalue := isLevel_value hrange hlevels
    refine ⟨_, _, assess_of_passes hpass, hvalue.isFinite, hvalue.zero_le, hvalue.le_one,
      hvalue.sanitize_eq⟩

/-- The greatest double. -/
def greatest : Float := .ofBits 0x7FEFFFFFFFFFFFFF

/-- A long queue for a few nodes of a vast system, and a wait beyond the doubles. -/
def overdue : Context where
  job := ⟨1, 1, 1, .hpc, 0, 60, 9007199254740993, false, 64, 10, "north", "a"⟩
  system := ⟨"b", "north", .hpc, 18446744073709551615, 64, none, true, 1e12, none⟩
  status := ⟨9007199254740993, greatest, 18446744073709551615⟩
  now := -greatest
  jobValid := rfl
  systemValid := rfl
  statusValid := rfl
  clockValid := rfl

/-- A tuning under which a wait costs nothing. -/
def patient : Tuning where
  heuristic := { delayDecay := 0, precision := 12 }

theorem scores_are_levels_overdue :
    (-patient.heuristic.delayDecay * overdue.expectedWait).isNaN = true ∧
      overdue.infeasibility? patient.gate.nodeCheck = none ∧
      ∃ value detail, (patient.scorerOf .steep .heuristic).assess overdue = .scored value detail ∧
        value.isFinite = true ∧ 0 ≤ value ∧ value ≤ 1 ∧ sanitize value = value := by
  have hpass : overdue.infeasibility? patient.gate.nodeCheck = none := rfl
  obtain ⟨-, hscored, -⟩ := scores_are_levels .steep
    Curves.decays_steep.not_one_lt patient rfl overdue
  exact ⟨by decide, hpass, hscored hpass⟩

end Heuristic

end Placement
