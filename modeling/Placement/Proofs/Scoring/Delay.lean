import Placement.Proofs.Decimal.ReadBack
import Placement.Proofs.Scoring.Bounded
/-
  The delay factor as a decay in the wait.

  `delay_decays`: it stays between its floor and 1, a later start never raises it and a later clock
  never lowers it, and without a wait it is 1. GIVEN an exponential (`Curves.Exponential`) and a
  tuning that passes its check; the clock and the start may be any finite doubles, and their
  difference may overflow.

  A rate of 0 is to switch the factor off, and does so for every finite wait (`delay_eq_one`). An
  infinite one is multiplied by 0, which is no number, and what is no number gives way to the floor:
  there the factor is not 1 but the floor (`delay_eq_floor`, `delay_remote`).
-/
namespace Placement

open Double

namespace Curves.Exponential

variable {curves : Curves Float} (h : curves.Exponential)
include h

/-- Of either zero the exponential is 1. -/
theorem exp_of_zero {x : Float} (hx : Denotes x 0) : curves.exp x = 1 := by
  have hle : curves.exp x ≤ 1 := h.zero ▸ h.mono _ _ ((hx.le_iff denotes_zero).mpr le_rfl)
  have hge : 1 ≤ curves.exp x := h.zero ▸ h.mono _ _ ((denotes_zero.le_iff hx).mpr le_rfl)
  have hdenotes : Denotes (curves.exp x) 1 := by
    refine ⟨(isNaN_of_le hle).1, le_antisymm ?_ ?_⟩
    · exact ((Denotes.of_isNaN (isNaN_of_le hle).1).le_iff denotes_one).mp hle
    · exact (denotes_one.le_iff (.of_isNaN (isNaN_of_le hle).1)).mp hge
  refine hdenotes.unique denotes_one one_pos ?_
  exact_mod_cast natCast_lt_limit (n := 1) (by decide)

end Curves.Exponential

namespace Heuristic

open Scalar (greater)

variable {curves : Curves Float} {t : HeuristicTuning} {c : Context}

theorem zero_le_expectedWait (c : Context) : 0 ≤ c.expectedWait := zero_le_greater _

/-- The wait of a context is not negative, so it is taken as it is. -/
theorem delay_eq : (factors curves t c).delay
    = greater (curves.exp (-t.delayDecay * c.expectedWait)) t.delayFloor := by
  have hwait := zero_le_expectedWait c
  have hsame : greater c.expectedWait 0 = c.expectedWait := by
    rw [greater_of_number (isNaN_of_le hwait).2 rfl, if_neg (not_lt_of_le hwait)]
  show greater (curves.exp (-t.delayDecay * greater c.expectedWait 0)) t.delayFloor = _
  rw [hsame]

/-- A start that is not after the clock leaves no wait. -/
theorem denotes_wait_zero (h : ¬ c.now < c.status.startEstimate) : Denotes c.expectedWait 0 := by
  have hwait := zero_le_expectedWait c
  have hn := (isNaN_of_le hwait).2
  have hle := (le_iff_value (isNaN_of_isFinite c.isFinite_start) c.isNaN_now).mp
    ((not_lt_iff_le c.isNaN_now (isNaN_of_isFinite c.isFinite_start)).mp h)
  have hahead : ¬ 0 < c.status.startEstimate - c.now := by
    rw [denotes_zero.lt_iff c.denotes_ahead, not_lt, ← rounded_zero]
    exact rounded_mono (by linarith)
  have hnone : c.expectedWait ≤ 0 := greater_le hahead (Double.le_refl rfl)
  refine ⟨hn, le_antisymm ?_ ?_⟩
  · exact ((Denotes.of_isNaN hn).le_iff denotes_zero).mp hnone
  · exact (denotes_zero.le_iff (.of_isNaN hn)).mp hwait

/-- Where nothing decays the factor is 1. -/
theorem delay_eq_one (hc : curves.Exponential) (ht : t.InRange)
    (h : Denotes (-t.delayDecay * c.expectedWait) 0) : (factors curves t c).delay = 1 := by
  rw [delay_eq, hc.exp_of_zero h, greater_of_number rfl ht.delayFloor.isNaN,
    if_neg (not_lt_of_le ht.delayFloor.le_one)]

/-- What is no number leaves the floor. -/
theorem delay_eq_floor (hc : curves.Exponential)
    (h : (-t.delayDecay * c.expectedWait).isNaN = true) :
    (factors curves t c).delay = t.delayFloor := by
  rw [delay_eq, greater_of_isNaN (hc.nan _ h)]

/-- The delay factor of a context decays in the wait. Under an accepted tuning it lies between its
floor and 1, does not increase with the start estimate, does not decrease with the clock, and is 1
when the start is not after the clock. At a rate of 0 it is 1 as long as the wait is finite; a start
that is so far after the clock that the wait overflows leaves the floor. -/
theorem delay_decays (curves : Curves Float) (hc : curves.Exponential) (t : Tuning)
    (ht : t.check = .ok ()) (c : Context) :
    t.heuristic.delayFloor ≤ (factors curves t.heuristic c).delay ∧
    (factors curves t.heuristic c).delay ≤ 1 ∧
    (∀ c' : Context, c.status.startEstimate ≤ c'.status.startEstimate → c'.now ≤ c.now →
      (factors curves t.heuristic c').delay ≤ (factors curves t.heuristic c).delay) ∧
    (¬ c.now < c.status.startEstimate → (factors curves t.heuristic c).delay = 1) ∧
    (Double.value t.heuristic.delayDecay = 0 → (factors curves t.heuristic c).delay
      = if c.expectedWait.isFinite then 1 else t.heuristic.delayFloor) := by
  have hrange := Tuning.inRange ht
  have hlevel := levels_factors hrange hc.decays c
  have hdecay := hrange.delayDecay_finite
  refine ⟨delayFloor_le hrange, hlevel.delay.le_one, fun c' hstart hnow => ?_, fun h => ?_,
    fun hzero => ?_⟩
  · exact delayFactor_anti hc.decays hrange (Context.wait_anti hstart hnow)
  · have hwait := denotes_wait_zero h
    have hfinite : c.expectedWait.isFinite = true := by
      rw [hwait.isFinite_iff, abs_zero]
      exact limit_pos
    have hnone := denotes_decay hdecay hfinite
    rw [hwait.value, mul_zero, rounded_zero] at hnone
    exact delay_eq_one hc hrange hnone
  · cases hfinite : c.expectedWait.isFinite with
    | true =>
      have hnone := denotes_decay hdecay hfinite
      rw [hzero, neg_zero, zero_mul, rounded_zero] at hnone
      exact delay_eq_one hc hrange hnone
    | false =>
      rcases decay_of_infinite hdecay hrange.delayDecay_nonneg (zero_le_expectedWait c) hfinite with
        ⟨-, hnan⟩ | ⟨hpos, -⟩
      · exact delay_eq_floor hc hnan
      · exact absurd hzero hpos.ne'

/-- A start that is further after the clock than doubles reach. -/
def remote : Context where
  job := sparse.job
  system := ⟨"b", "north", .hpc, 4, 64, none, true, 1e12, none⟩
  status := ⟨4, greatest, 0⟩
  now := -greatest
  jobValid := sparse.jobValid
  systemValid := rfl
  statusValid := rfl
  clockValid := overdue.clockValid

theorem delay_decays_remote :
    patient.heuristic.delayFloor ≤ (factors .steep patient.heuristic remote).delay ∧
      (factors .steep patient.heuristic remote).delay = 0.1 := by
  obtain ⟨hfloor, -, -, -, hzero⟩ :=
    delay_decays .steep Curves.exponential_steep patient rfl remote
  refine ⟨hfloor, (hzero rfl).trans ?_⟩
  rw [if_neg (by decide)]
  rfl

/-- A rate of 0 does not switch the factor off in every context. -/
theorem delay_remote : ¬ ∀ (curves : Curves Float), curves.Exponential → ∀ t : Tuning,
    t.check = .ok () → Double.value t.heuristic.delayDecay = 0 →
      ∀ c : Context, (factors curves t.heuristic c).delay = 1 := by
  intro h
  have hone := h .steep Curves.exponential_steep patient rfl (by decide) remote
  exact absurd hone (by decide)

end Heuristic

end Placement
