import Placement.Command.Select
import Placement.Proofs.Auction.Winner
/-
  Central clearing against bidding one by one. `Scorer.rank` and `Scorer.bidOn` read the same
  assessment of the same context.

  * `value_rankOne`: a ranked candidate holds the value, or the rejection, of the bid on its own
    request (`SelectionRequest.bidRequest`).
  * `decides_select?`: the local selection `Decides` by those values.
  * `select_agrees_with_bids`: both for every position, and the answer of the select command
    without a bidder. No hypothesis on the request, the tuning or the scorer.
-/
namespace Placement

/-- The value of a bid is the score. -/
theorem Scorer.value_bid (s : Scorer) (c : Context) (seconds : Float) :
    (s.bid c seconds).value = s.score c := by
  unfold Scorer.bid Scorer.score Assessment.value
  cases s.assess c <;> rfl

/-- A score is a bid already. -/
theorem Scorer.sanitize_score (s : Scorer) (c : Context) : sanitize (s.score c) = s.score c := by
  unfold Scorer.score Assessment.value
  cases s.assess c with
  | infeasible reason => exact Double.sanitize_zero
  | scored value detail => exact Double.sanitize_sanitize value

namespace Auction

variable (s : Scorer) (r : SelectionRequest)

/-! ## Ranking -/

@[simp] theorem length_rank : (rank s r).length = r.candidates.length := List.length_map _

/-- Ranking keeps the names in their order. -/
theorem name_rank : (rank s r).map Ranked.name = r.candidates.map Candidate.name := by
  unfold rank
  rw [List.map_map]
  rfl

/-- A ranked candidate holds the value of the bid on its request, or the same rejection. -/
theorem bid_rankOne (c : Candidate) (own : Float) :
    (rankOne s r.job r.now c).bid = (s.bidOn (r.bidRequest c) own).map Bid.value := by
  show (r.bidRequest c).context.map s.score = _
  unfold Scorer.bidOn
  cases (r.bidRequest c).context with
  | error rejection => rfl
  | ok context =>
    show Except.ok (s.score context) = Except.ok (s.bid context own).value
    rw [s.value_bid]

theorem Ranked.value_eq (ranked : Ranked) :
    ranked.value = (ranked.bid.map sanitize).toOption.getD 0 := by
  unfold Ranked.value
  cases ranked.bid <;> rfl

/-- A ranked candidate counts for its bid as it is, and for 0 without one. -/
theorem value_rankOne (c : Candidate) :
    (rankOne s r.job r.now c).value = (rankOne s r.job r.now c).bid.toOption.getD 0 := by
  rw [Ranked.value_eq]
  show (((r.bidRequest c).context.map s.score).map sanitize).toOption.getD 0
    = ((r.bidRequest c).context.map s.score).toOption.getD 0
  cases (r.bidRequest c).context with
  | error rejection => rfl
  | ok context => exact s.sanitize_score context

/-- The candidate at a position is ranked there. -/
theorem rank_getElem? {i : Nat} {c : Candidate} (hc : r.candidates[i]? = some c) :
    (rank s r)[i]? = some (rankOne s r.job r.now c) := by
  unfold rank
  rw [List.getElem?_map, hc]
  rfl

/-- A bid in the auction counts for the value of its rank. -/
theorem worth_bid? (ranked : Ranked) : worth ranked.bid? = ranked.value := by
  unfold Ranked.bid? Ranked.value
  cases ranked.bid <;> rfl

/-! ## The answer -/

/-- The scorer's choice is the candidate that wins by the ranked values. -/
theorem decides_select? :
    Decides (r.candidates.map Candidate.name) ((rank s r).map Ranked.value) (select? s r) := by
  have h := decides_winner? ((rank s r).map fun ranked => (ranked.name, ranked.bid?))
  have hv : worths ((rank s r).map fun ranked => (ranked.name, ranked.bid?))
      = (rank s r).map Ranked.value := by
    unfold worths
    rw [List.map_map, List.map_map]
    exact List.map_congr_left fun ranked _ => worth_bid? ranked
  rw [hv, List.map_map] at h
  rw [← name_rank s r]
  exact h

end Auction

namespace Command

open Auction

/-- Without a bidder, an answer to a request that reads is the choice of the tuned scorer. -/
theorem select_nil (s : Surroundings) (t : Tuning) (timeout : Duration) {input : String}
    {r : SelectionRequest} (h : SelectionRequest.ofText input = .ok r) :
    select s t [] timeout input
      = .ok ⟨select? (t.chosenScorer s.curves) r, roundSeconds s.own⟩ := by
  unfold select selectThrough
  rw [h]
  rfl

/-- Central clearing agrees with bidding one by one: each candidate is ranked in its place, under
its name and with the value, or the rejection, of the bid on its own request, which counts as it
is, or as 0 when there is none. The select command answers with the first candidate of the highest
value if that is above 0. -/
theorem select_agrees_with_bids (s : Surroundings) (t : Tuning) (timeout : Duration)
    (r : SelectionRequest) :
    (rank (t.chosenScorer s.curves) r).length = r.candidates.length ∧
    (rank (t.chosenScorer s.curves) r).map Ranked.name = r.candidates.map Candidate.name ∧
    (∀ (i : Nat) (c : Candidate), r.candidates[i]? = some c →
      ∃ ranked : Ranked, (rank (t.chosenScorer s.curves) r)[i]? = some ranked ∧
        ranked.bid = ((t.chosenScorer s.curves).bidOn (r.bidRequest c) s.own).map Bid.value ∧
        ranked.value = (ranked.bid.toOption).getD 0) ∧
    ∀ input, SelectionRequest.ofText input = .ok r →
      ∃ answer, select s t [] timeout input = .ok ⟨answer, roundSeconds s.own⟩ ∧
        Decides (r.candidates.map Candidate.name)
          ((rank (t.chosenScorer s.curves) r).map Ranked.value) answer := by
  refine ⟨length_rank _ r, name_rank _ r, ?_, ?_⟩
  · intro i c hc
    refine ⟨rankOne (t.chosenScorer s.curves) r.job r.now c, rank_getElem? _ r hc, ?_, ?_⟩
    · exact bid_rankOne _ r c s.own
    · exact value_rankOne _ r c
  · intro input hinput
    exact ⟨_, select_nil s t timeout hinput, decides_select? _ r⟩

end Command

end Placement
