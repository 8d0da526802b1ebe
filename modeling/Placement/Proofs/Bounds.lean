import Placement.Proofs.Chain
/-
  `Bounded raw bid`: the bid is `raw` where that is within 0 and 1, the nearer end where it is
  outside, and 0 where it is not finite.

  `bids_are_bounded` states it on every way that a value takes to a caller, each with its own raw
  value: the assessment of any scorer, a ranked candidate, the gate, a reply in free text, the
  outcome of a program, the bid command and the relay. Nothing is asked of the scorer, the outcome
  or the input; the two commands only of a run that answers.
-/
namespace Placement

open Double

/-! ## Bounded values -/

/-- What a raw value becomes as a bid. -/
structure Bounded (raw bid : Float) : Prop where
  isFinite : bid.isFinite = true
  isLevel : IsLevel bid
  kept : 0 ≤ raw → raw ≤ 1 → bid = raw
  below : raw.isFinite = true → raw < 0 → bid = 0
  above : raw.isFinite = true → 1 < raw → bid = 1
  endless : raw.isFinite = false → bid = 0

theorem bounded_sanitize (raw : Float) : Bounded raw (sanitize raw) where
  isFinite := isFinite_sanitize raw
  isLevel := ⟨zero_le_sanitize raw, sanitize_le_one raw⟩
  kept h0 h1 := IsLevel.sanitize_eq ⟨h0, h1⟩
  below hfinite h := by
    have hless : Scalar.less raw 0 = true := decide_eq_true h
    unfold sanitize Scalar.clamp
    rw [if_pos hfinite, if_pos hless]
  above hfinite h := by
    have h01 : (0 : Float) < 1 := by decide
    have h0 : ¬ raw < 0 := not_lt_of_le (le_of_lt (lt_of_lt_of_le h01 (le_of_lt h)))
    have hless : Scalar.less raw 0 = false := decide_eq_false h0
    have hless' : Scalar.less 1 raw = true := decide_eq_true h
    unfold sanitize Scalar.clamp
    rw [if_pos hfinite, hless, if_neg Bool.false_ne_true, if_pos hless']
  endless h := by
    unfold sanitize
    rw [h, if_neg Bool.false_ne_true]

theorem bounded_zero : Bounded 0 0 := by
  have h := bounded_sanitize 0
  rwa [sanitize_zero] at h

/-! ## Scorers -/

/-- The raw value behind an assessment; nothing is behind a bid that the gate makes. -/
def Assessment.raw : Assessment → Float
  | .infeasible _ => 0
  | .scored value _ => value

theorem Assessment.bounded (a : Assessment) : Bounded a.raw a.value := by
  cases a with
  | infeasible reason => exact bounded_zero
  | scored value detail => exact bounded_sanitize value

theorem Scorer.bounded_bid (s : Scorer) (c : Context) (seconds : Float) :
    Bounded (s.assess c).raw (s.bid c seconds).value := by
  rw [s.value_bid]
  exact (s.assess c).bounded

theorem Auction.Ranked.bounded (r : Ranked) : Bounded (r.bid?.getD 0) r.value := by
  obtain ⟨name, bid⟩ := r
  cases bid with
  | ok value => exact bounded_sanitize value
  | error rejection => exact bounded_zero

/-! ## Values from outside -/

namespace Fallback

variable (f : Fallback) (c : Context) (elapsed : Duration) (own : Float)

/-- The raw value behind a bid, when a value is offered from outside or none is. -/
def raw (offer : Option Float) : Float :=
  match c.infeasibility? f.nodeCheck with
  | some _ => 0
  | none => offer.getD (f.heuristic.assess c).raw

variable {f c} in
theorem raw_of_infeasible {reason : Infeasibility}
    (h : c.infeasibility? f.nodeCheck = some reason) (offer : Option Float) :
    f.raw c offer = 0 := by
  unfold raw
  rw [h]

variable {f c} in
theorem raw_of_passes (h : c.infeasibility? f.nodeCheck = none) (offer : Option Float) :
    f.raw c offer = offer.getD (f.heuristic.assess c).raw := by
  unfold raw
  rw [h]

theorem bounded_gate? {b : Bid} (h : f.gate? c own = some b) : Bounded 0 b.value := by
  obtain ⟨reason, -, rfl⟩ := Option.map_eq_some_iff.mp h
  exact bounded_zero

theorem bounded_resolveReply (reply : String) :
    Bounded (f.raw c ((Reply.parse? reply).map fun r => r.bid))
      (f.resolveReply c reply elapsed own).value := by
  unfold raw resolveReply gate?
  cases c.infeasibility? f.nodeCheck with
  | some reason => exact bounded_zero
  | none =>
    cases Reply.parse? reply with
    | some r => exact bounded_sanitize r.bid
    | none => exact f.heuristic.bounded_bid c own

theorem bounded_settle (outcome : Outcome) :
    Bounded ((outcome.toOption.map fun r => r.bid).getD (f.heuristic.assess c).raw)
      (f.settle c elapsed own outcome).value := by
  cases outcome with
  | ok r => exact bounded_sanitize r.bid
  | error failure => exact f.heuristic.bounded_bid c own

theorem bounded_resolveResponse (outcome : Outcome) :
    Bounded (f.raw c (outcome.toOption.map fun r => r.bid))
      (f.resolveResponse c outcome elapsed own).value := by
  unfold raw resolveResponse gate?
  cases c.infeasibility? f.nodeCheck with
  | some reason => exact bounded_zero
  | none => exact f.bounded_settle c elapsed own outcome

end Fallback

/-! ## Commands -/

namespace Command

variable {s : Surroundings} {t : Tuning} {input : String} {r : BidResponse}

/-- An answer holds its bid under this key. -/
theorem bid_toJson (r : BidResponse) : r.toJson.get? "bid" = some (.number (.double r.bid)) := rfl

/-- What the bid command answers is the bounded value of the tuned scorer. -/
theorem bounded_bid {explain : Bool} (h : bid s t explain input = .ok r) :
    ∃ q c, BidRequest.ofText input = .ok q ∧ q.context = .ok c ∧
      Bounded ((t.chosenScorer s.curves).assess c).raw r.bid := by
  unfold bid at h
  split at h
  · rename_i b hb
    obtain ⟨q, hread, hq⟩ := bind_eq_ok.mp hb
    obtain ⟨c, hc, hbid⟩ := bind_eq_ok.mp hq
    cases hbid
    cases h
    exact ⟨q, c, hread, hc, (t.chosenScorer s.curves).bounded_bid c s.own⟩
  · exact nomatch h

/-- The value that an external bidder offers for a request, if there is a bidder and it answers. -/
def offer? (s : Surroundings) (bidder : List String) (timeout : Duration) (q : BidRequest) :
    Option Float :=
  (Bidder.ofCommandLine? bidder).bind fun b =>
    (Bidder.outcome { b with timeout } (Bidder.run s.launch { b with timeout } q)).toOption.map
      fun r => r.bid

/-- What the relay answers is the bounded offer of the bidder, or what stands in for it. -/
theorem bounded_relay {bidder : List String} {timeout : Duration}
    (h : relay s t bidder timeout input = .ok r) :
    ∃ q c, BidRequest.ofText input = .ok q ∧ q.context = .ok c ∧
      Bounded ((t.fallback s.curves).raw c (offer? s bidder timeout q)) r.bid := by
  obtain ⟨q, c, hread, hc, ⟨reason, hgate, rfl⟩ | ⟨hpass, b, hb, rfl⟩⟩ := relay_eq_ok h
  · refine ⟨q, c, hread, hc, ?_⟩
    rw [Fallback.raw_of_infeasible (f := t.fallback s.curves) hgate]
    exact bounded_zero
  · have hoffer : offer? s bidder timeout q
        = (Bidder.outcome { b with timeout }
            (Bidder.run s.launch { b with timeout } q)).toOption.map fun r => r.bid := by
      unfold offer?
      rw [hb]
      rfl
    refine ⟨q, c, hread, hc, ?_⟩
    rw [Fallback.raw_of_passes (f := t.fallback s.curves) hpass, hoffer]
    exact (t.fallback s.curves).bounded_settle c _ s.own _

/-- Every bid that is handed to a caller is a level, whatever it is made of. The raw value behind it
may be any double; it is kept within 0 and 1, brought to the nearer end outside, and 0 if it is not
finite. So it is for every assessment, for the bid of every scorer, for a candidate's bid in an
auction, for the bid of the gate, for what becomes of every reply and every outcome of a bidder, and
for the answers of the bid and the relay command; for each the raw value is the one it is made of.
A bid says that the job can run exactly when it is above 0. -/
theorem bids_are_bounded (scorer : Scorer) (f : Fallback) (c : Context) :
    (∀ a : Assessment, Bounded a.raw a.value) ∧
    (∀ seconds, Bounded (scorer.assess c).raw (scorer.bid c seconds).value) ∧
    (∀ ranked : Auction.Ranked, Bounded (ranked.bid?.getD 0) ranked.value) ∧
    (∀ own b, f.gate? c own = some b → Bounded 0 b.value) ∧
    (∀ reply elapsed own, Bounded (f.raw c ((Reply.parse? reply).map fun r => r.bid))
      (f.resolveReply c reply elapsed own).value) ∧
    (∀ (outcome : Outcome) elapsed own, Bounded (f.raw c (outcome.toOption.map fun r => r.bid))
      (f.resolveResponse c outcome elapsed own).value) ∧
    (∀ b : Bid, b.isFeasible = true ↔ 0 < b.value) ∧
    ∀ (s : Surroundings) (t : Tuning) (input : String) (r : BidResponse),
      (∀ explain, bid s t explain input = .ok r →
        r.toJson.get? "bid" = some (.number (.double r.bid)) ∧
        ∃ q c, BidRequest.ofText input = .ok q ∧ q.context = .ok c ∧
          Bounded ((t.chosenScorer s.curves).assess c).raw r.bid) ∧
      ∀ bidder timeout, relay s t bidder timeout input = .ok r →
        r.toJson.get? "bid" = some (.number (.double r.bid)) ∧
        ∃ q c, BidRequest.ofText input = .ok q ∧ q.context = .ok c ∧
          Bounded ((t.fallback s.curves).raw c (offer? s bidder timeout q)) r.bid := by
  refine ⟨fun a => a.bounded, scorer.bounded_bid c, fun ranked => ranked.bounded,
    fun own _ => f.bounded_gate? c own, fun reply elapsed own => ?_, fun outcome elapsed own => ?_,
    fun b => ?_, fun s t input r => ⟨fun explain h => ?_, fun bidder timeout h => ?_⟩⟩
  · exact f.bounded_resolveReply c elapsed own reply
  · exact f.bounded_resolveResponse c elapsed own outcome
  · unfold Bid.isFeasible
    exact decide_eq_true_iff
  · exact ⟨bid_toJson r, bounded_bid h⟩
  · exact ⟨bid_toJson r, bounded_relay h⟩

/-- A scorer that scores twice as high as it may. -/
def exuberant : Scorer := ⟨"exuberant", fun _ => .scored 2 ""⟩

theorem bids_are_bounded_exuberant :
    (exuberant.bid oversized 0).value = 1 ∧
      ∃ b, Fallback.gate? ⟨.total, exuberant⟩ oversized 0 = some b ∧ b.value = 0 := by
  obtain ⟨-, hbid, -, hgate, -⟩ := bids_are_bounded exuberant ⟨.total, exuberant⟩ oversized
  refine ⟨(hbid 0).above rfl (by decide), _, rfl, ?_⟩
  exact (hgate 0 _ rfl).kept (by decide) (by decide)

end Command

end Placement
