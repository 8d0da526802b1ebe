import Placement.Command.Bid
import Placement.Command.Relay
import Placement.Proofs.External.Selection
/-
  The gate stands on every path: both scorers, the fallback behind an external bidder, the relay
  and both ways to select look at it, each in its own place.

  `feasibility_is_necessary`: GIVEN a context that the gate refuses, none of them gives the pair
  more than 0, whatever the reply, the outcome, the bidder or the other candidates, and the
  candidate does not win. One lemma for each path (`bid_of_infeasible`, `gate?_of_infeasible`,
  `resolveReply_of_infeasible`, `resolveResponse_of_infeasible`, `relay_of_infeasible`,
  `not_wins_locally`, `external_of_infeasible`).
-/
namespace Placement

variable {curves : Curves Float} {t : Tuning} {c : Context} {reason : Infeasibility}

/-! ## Scorers and their bids -/

/-- Either scorer reports the reason of the gate. -/
theorem assess_of_infeasible (h : c.infeasibility? t.gate.nodeCheck = some reason)
    (kind : ScorerKind) : (t.scorerOf curves kind).assess c = .infeasible reason := by
  cases kind <;>
    simp only [Tuning.scorerOf, Heuristic.scorer, Embedding.scorer, Scorer.gated, h]

/-- The bid of either scorer is 0 and says why. -/
theorem bid_of_infeasible (h : c.infeasibility? t.gate.nodeCheck = some reason)
    (kind : ScorerKind) (seconds : Float) :
    (t.scorerOf curves kind).bid c seconds = ⟨0, some reason.reasoning, seconds⟩ := by
  unfold Scorer.bid
  rw [assess_of_infeasible h kind]

/-! ## Outcomes of a bidder -/

namespace Fallback

theorem gate?_of_infeasible (h : c.infeasibility? t.gate.nodeCheck = some reason) (own : Float) :
    (t.fallback curves).gate? c own = some ⟨0, some reason.reasoning, own⟩ := by
  unfold gate? Tuning.fallback
  rw [h]
  rfl

theorem gate?_of_passes (h : c.infeasibility? t.gate.nodeCheck = none) (own : Float) :
    (t.fallback curves).gate? c own = none := by
  unfold gate? Tuning.fallback
  rw [h]
  rfl

/-- The gate comes before every outcome. -/
theorem resolveResponse_of_infeasible (h : c.infeasibility? t.gate.nodeCheck = some reason)
    (outcome : Outcome) (elapsed : Duration) (own : Float) :
    (t.fallback curves).resolveResponse c outcome elapsed own
      = ⟨0, some reason.reasoning, own⟩ := by
  unfold resolveResponse
  rw [gate?_of_infeasible h]

/-- The gate comes before every reply. -/
theorem resolveReply_of_infeasible (h : c.infeasibility? t.gate.nodeCheck = some reason)
    (reply : String) (elapsed : Duration) (own : Float) :
    (t.fallback curves).resolveReply c reply elapsed own = ⟨0, some reason.reasoning, own⟩ := by
  unfold resolveReply
  rw [gate?_of_infeasible h]

end Fallback

/-! ## Commands -/

namespace Command

open Auction

/-- What the relay does with a request that reads and has a valid context. -/
theorem relayed_of_reads (s : Surroundings) (t : Tuning) (bidder : List String)
    (timeout : Duration) {input : String} {q : BidRequest} {c : Context}
    (hread : BidRequest.ofText input = .ok q) (hc : q.context = .ok c) :
    relayed s t bidder timeout input =
      match (t.fallback s.curves).gate? c s.own with
      | some b => .ok b
      | none =>
        match Bidder.ofCommandLine? bidder with
        | none => .error .noBidder
        | some b =>
          let run := Bidder.run s.launch { b with timeout } q
          .ok ((t.fallback s.curves).resolveResponse c (Bidder.outcome { b with timeout } run)
            (Bidder.waited { b with timeout } run) s.own) := by
  have h1 : (BidRequest.ofText input).mapError RelayError.rejected = .ok q := by rw [hread]; rfl
  have h2 : q.context.mapError RelayError.rejected = .ok c := by rw [hc]; rfl
  unfold relayed
  rw [h1]
  simp only [bind, Except.bind]
  rw [h2]
  dsimp only
  cases (t.fallback s.curves).gate? c s.own with
  | some b => rfl
  | none => cases Bidder.ofCommandLine? bidder <;> rfl

/-- The relay answers a gated request by itself, with a bidder or without one. -/
theorem relay_of_infeasible (s : Surroundings)
    (h : c.infeasibility? t.gate.nodeCheck = some reason) (bidder : List String)
    (timeout : Duration) {input : String} {q : BidRequest}
    (hread : BidRequest.ofText input = .ok q) (hc : q.context = .ok c) :
    relay s t bidder timeout input = .ok ⟨0, roundSeconds s.own, some reason.reasoning⟩ := by
  unfold relay
  rw [relayed_of_reads s t bidder timeout hread hc, Fallback.gate?_of_infeasible h]
  rfl

/-- A gated candidate does not win among the scores of the tuned scorer. -/
theorem not_wins_locally (h : c.infeasibility? t.gate.nodeCheck = some reason)
    {r : SelectionRequest} {i : Nat} {candidate : Candidate}
    (hi : r.candidates[i]? = some candidate) (hc : (r.bidRequest candidate).context = .ok c) :
    ¬ Wins ((rank (t.chosenScorer curves) r).map Ranked.value) i := by
  have hscore : (t.chosenScorer curves).score c = 0 := by
    unfold Scorer.score Tuning.chosenScorer
    rw [assess_of_infeasible h]
    rfl
  have hvalue : (rankOne (t.chosenScorer curves) r.job r.now candidate).value = 0 := by
    rw [value_rankOne]
    show ((r.bidRequest candidate).context.map _).toOption.getD 0 = 0
    rw [hc]
    exact hscore
  refine not_wins (v := 0) ?_ (by decide)
  rw [List.getElem?_map, rank_getElem? _ r hi, Option.map_some, hvalue]

/-- A gated candidate does not win among external bids, whatever comes back from the runs. -/
theorem external_of_infeasible (own : Float)
    (h : c.infeasibility? t.gate.nodeCheck = some reason)
    {r : SelectionRequest} {i : Nat} {candidate : Candidate}
    (hi : r.candidates[i]? = some candidate) (hc : (r.bidRequest candidate).context = .ok c)
    (fanOut : List BidRequest → FanOut.Course) :
    ∃ bids answer, externalBids (t.fallback curves) own fanOut (bidRequests r) = .ok bids ∧
      selectExternally curves own t fanOut r = .ok answer ∧
      Decides (r.candidates.map Candidate.name) (bids.map worth) answer ∧
      ¬ Wins (bids.map worth) i := by
  have hq : (bidRequests r)[i]? = some (r.bidRequest candidate) := by
    unfold bidRequests
    rw [List.getElem?_map, hi]
    rfl
  obtain ⟨bids, hbids, hlen, hbid⟩ := externalBids_gated (t.fallback curves) own (bidRequests r) hq
    hc (Fallback.gate?_of_infeasible h own) fanOut
  have hselect : selectExternally curves own t fanOut r
      = .ok (winner? ((r.candidates.map Candidate.name).zip bids)) := by
    unfold selectExternally
    rw [hbids]
    rfl
  refine ⟨bids, _, hbids, hselect, decides_zip ?_, ?_⟩
  · rw [hlen, bidRequests, List.length_map, List.length_map]
  · refine not_wins (v := 0) ?_ (by decide)
    rw [List.getElem?_map, hbid, Option.map_some]
    exact congrArg some Double.sanitize_zero

/-- Feasibility is necessary on every path. For a context that the gate refuses with a reason:
either scorer reports that reason and bids 0; the fallback gates it with a bid of 0 and resolves
every reply and every outcome to 0; the relay answers 0, whatever bidder stands behind it, if any;
and a candidate with this context wins neither a local nor an external selection. -/
theorem feasibility_is_necessary (curves : Curves Float) (t : Tuning) (c : Context)
    (reason : Infeasibility) (h : c.infeasibility? t.gate.nodeCheck = some reason) :
    (∀ kind, (t.scorerOf curves kind).assess c = .infeasible reason) ∧
    (∀ kind seconds, ((t.scorerOf curves kind).bid c seconds).value = 0) ∧
    (∀ own, ∃ b, (t.fallback curves).gate? c own = some b ∧ b.value = 0) ∧
    (∀ reply elapsed own, ((t.fallback curves).resolveReply c reply elapsed own).value = 0) ∧
    (∀ outcome elapsed own,
      ((t.fallback curves).resolveResponse c outcome elapsed own).value = 0) ∧
    (∀ launch own bidder timeout input q,
      BidRequest.ofText input = .ok q → q.context = .ok c →
      relay ⟨curves, launch, own⟩ t bidder timeout input
        = .ok ⟨0, roundSeconds own, some reason.reasoning⟩) ∧
    ∀ (r : SelectionRequest) (i : Nat) (candidate : Candidate),
      r.candidates[i]? = some candidate → (r.bidRequest candidate).context = .ok c →
      (Decides (r.candidates.map Candidate.name)
          ((rank (t.chosenScorer curves) r).map Ranked.value) (selectLocally curves t r) ∧
        ¬ Wins ((rank (t.chosenScorer curves) r).map Ranked.value) i) ∧
      ∀ own fanOut, ∃ bids answer,
        externalBids (t.fallback curves) own fanOut (bidRequests r) = .ok bids ∧
        selectExternally curves own t fanOut r = .ok answer ∧
        Decides (r.candidates.map Candidate.name) (bids.map worth) answer ∧
        ¬ Wins (bids.map worth) i := by
  refine ⟨assess_of_infeasible h, ?_, ?_, ?_, ?_, ?_, ?_⟩
  · intro kind seconds
    rw [bid_of_infeasible h kind]
  · intro own
    exact ⟨_, Fallback.gate?_of_infeasible h own, rfl⟩
  · intro reply elapsed own
    rw [Fallback.resolveReply_of_infeasible h]
  · intro outcome elapsed own
    rw [Fallback.resolveResponse_of_infeasible h]
  · intro launch own bidder timeout input q hread hc
    exact relay_of_infeasible ⟨curves, launch, own⟩ h bidder timeout hread hc
  · intro r i candidate hi hc
    exact ⟨⟨decides_select? _ r, not_wins_locally h hi hc⟩,
      fun own fanOut => external_of_infeasible own h hi hc fanOut⟩

/-- A job of two nodes on a system of one. -/
def oversized : Context where
  job := ⟨1, 1, 1, .hpc, 0, 1, 2, false, 0, 0, "", ""⟩
  system := ⟨"alone", "", .hpc, 1, 0, none, false, 1, none⟩
  status := ⟨1, 0, 0⟩
  now := 0
  jobValid := rfl
  systemValid := rfl
  statusValid := rfl
  clockValid := rfl

theorem feasibility_is_necessary_oversized :
    oversized.infeasibility? .total = some (.tooManyNodes 2 1) ∧
      ((Tuning.scorerOf .native {} .embedding).bid oversized 0).value = 0 :=
  ⟨rfl, (feasibility_is_necessary .native {} oversized (.tooManyNodes 2 1) rfl).2.1 .embedding 0⟩

end Command

end Placement
