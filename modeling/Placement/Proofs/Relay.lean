import Placement.Proofs.Curves
import Placement.Proofs.External.Response
import Placement.Proofs.Gate
/-
  Relaying to this program itself. `HandsOn t input q`: the relay hands `q` on to the bidder.
  `Mirrors s t b own text`: the bidder answers `text` as the bid command does.

  `relay_is_transparent`: the answer of the relay is that of the bid command but for its time
  (`BidAnswer.timeless`), and a rejection is the same one. GIVEN a bidder that mirrors this program
  on what is handed on, a time that the child can write, and requests and answers with doubles that
  are `Legible`.

  The child reads the request on its arrival (`BidRequest.portable`), which both scorers and the
  gate take for the request itself (`bid_render`); its answer is read back, passes the gate again
  and is within 0 and 1 already (`timeless_settle`).
-/
namespace Placement

/-- An answer without the time it took. -/
def BidAnswer.timeless (a : BidAnswer) : BidAnswer := a.map fun r => { r with seconds := 0 }

namespace Command

open CommandLine (Order line)

/-! ## The bid command -/

/-- A request that reads and has a valid context is bid on by the tuned scorer. -/
theorem bid_of_reads (s : Surroundings) (t : Tuning) {input : String} {q : BidRequest}
    {c : Context} (hread : BidRequest.ofText input = .ok q) (hc : q.context = .ok c) :
    bid s t true input = .ok ((t.chosenScorer s.curves).bid c s.own).response := by
  have hbid : bidOn s t input = .ok ((t.chosenScorer s.curves).bid c s.own) := by
    unfold bidOn Scorer.bidOn
    rw [hread]
    show (q.context >>= fun context => pure _) = _
    rw [hc]
    rfl
  unfold bid
  rw [hbid]
  rfl

/-- The relay rejects what the bid command rejects, in the same words. -/
theorem relay_of_rejected {s : Surroundings} {t : Tuning} {input : String} {rejection : Rejection}
    (h : bidOn s t input = .error rejection) (bidder : List String) (timeout : Duration) :
    relay s t bidder timeout input = bid s t true input := by
  have hrelayed : relayed s t bidder timeout input = .error (.rejected rejection) := by
    unfold bidOn at h
    unfold relayed
    cases hread : BidRequest.ofText input with
    | error e =>
      rw [hread] at h
      cases h
      rfl
    | ok q =>
      rw [hread] at h
      have hscored : (t.chosenScorer s.curves).bidOn q s.own = .error rejection := h
      unfold Scorer.bidOn at hscored
      show (q.context.mapError RelayError.rejected >>= _) = _
      cases hc : q.context with
      | error e =>
        rw [hc] at hscored
        cases hscored
        rfl
      | ok c =>
        rw [hc] at hscored
        exact nomatch hscored
  unfold relay bid
  rw [hrelayed, h]
  rfl

/-! ## The child -/

/-- The relay hands a request on: it reads, and its valid context passes the gate. -/
structure HandsOn (t : Tuning) (input : String) (q : BidRequest) : Prop where
  reads : BidRequest.ofText input = .ok q
  passes : ∃ c, q.context = .ok c ∧ c.infeasibility? t.gate.nodeCheck = none

/-- A bidder does as this program: given a text it ends well and in time, and prints what the bid
command answers to it, with the reasoning, when the scoring takes so many seconds. -/
def Mirrors (s : Surroundings) (t : Tuning) (b : Bidder) (own : Float) (text : String) : Prop :=
  ∃ stderr took, took.toNanos < b.timeout.toNanos ∧
    s.launch b.program b.arguments text =
      ⟨.exited (.code 0) (Text.toOctets (Order.answer { s with own } t text (.bid true))) stderr,
        took⟩

/-- The child bids on the request on its arrival as the parent would on the request itself. -/
theorem bid_render (s : Surroundings) (t : Tuning) (own : Float) {input : String} {q : BidRequest}
    {c : Context} (hread : BidRequest.ofText input = .ok q) (hc : q.context = .ok c)
    (hl : q.toJson.Legible) :
    bid { s with own } t true q.toJson.render
      = .ok ((t.chosenScorer s.curves).bid c own).response := by
  obtain ⟨hjob, hsystem⟩ := BidRequest.canonical_of_ofText hread
  rw [bid_of_reads { s with own } t (BidRequest.ofText_render hc hjob hsystem hl)
    (BidRequest.context_portable hc)]
  exact congrArg (fun b => Except.ok b.response) (t.bid_portable s.curves t.scorer c own)

/-- The numbers of a bid are finite if its time is. -/
theorem isFinite_response (s : Scorer) (c : Context) {seconds : Float}
    (h : (roundSeconds seconds).isFinite = true) :
    (s.bid c seconds).response.bid.isFinite = true ∧
      (s.bid c seconds).response.seconds.isFinite = true := by
  constructor
  · show (s.bid c seconds).value.isFinite = true
    rw [s.value_bid, ← s.sanitize_score]
    exact Double.isFinite_sanitize _
  · have hspent : (s.bid c seconds).seconds = seconds := by
      unfold Scorer.bid
      cases s.assess c <;> rfl
    show (roundSeconds (s.bid c seconds).seconds).isFinite = true
    rwa [hspent]

/-- What a mirroring bidder comes to is the answer of the bid command. -/
theorem outcome_of_mirrors {s : Surroundings} {t : Tuning} {b : Bidder} {own : Float}
    {q : BidRequest} {r : BidResponse} (h : Mirrors s t b own q.toJson.render)
    (hr : bid { s with own } t true q.toJson.render = .ok r) (hbid : r.bid.isFinite = true)
    (hseconds : r.seconds.isFinite = true) (hl : r.toJson.Legible) :
    b.outcome (b.run s.launch q) = .ok r := by
  obtain ⟨stderr, took, htook, hrun⟩ := h
  have hprinted : Order.answer { s with own } t q.toJson.render (.bid true) = line r.toJson := by
    show line (bid { s with own } t true q.toJson.render).toJson = _
    rw [hr]
    rfl
  unfold Bidder.run
  rw [hrun, hprinted]
  unfold Bidder.outcome
  dsimp only
  rw [if_neg (Nat.not_le.mpr htook)]
  exact BidResponse.ofOctets_line hbid hseconds hl

/-- The parent keeps the value and the reasoning of a scorer's bid. -/
theorem timeless_settle (f : Fallback) (scorer : Scorer) (c : Context) (elapsed : Duration)
    (own own' own'' : Float) :
    BidAnswer.timeless (.ok (f.settle c elapsed own (.ok (scorer.bid c own').response)).response)
      = BidAnswer.timeless (.ok (scorer.bid c own'').response) := by
  have hvalue : sanitize (scorer.bid c own').value = (scorer.bid c own'').value := by
    rw [scorer.value_bid, scorer.value_bid, scorer.sanitize_score]
  have hreasoning : (scorer.bid c own').reasoning = (scorer.bid c own'').reasoning := by
    unfold Scorer.bid
    cases scorer.assess c <;> rfl
  show Except.ok (BidResponse.mk (sanitize (scorer.bid c own').value) 0
      (scorer.bid c own').reasoning)
    = Except.ok (BidResponse.mk (scorer.bid c own'').value 0 (scorer.bid c own'').reasoning)
  rw [hvalue, hreasoning]

/-! ## Transparency -/

/-- Relaying to this program itself is transparent. Where the bidder answers, in time, what the
bid command answers to the text it is handed, the relay answers what the bid command answers to
the original input, in everything but the time: the same value and reasoning, or the same error.
Finite doubles that pass through JSON must be read back, and the time of the child be finite. -/
theorem relay_is_transparent (s : Surroundings) (t : Tuning) (program : String)
    (arguments : List String) (timeout : Duration) (input : String) (own : Float)
    (hchild : ∀ q, HandsOn t input q →
      Mirrors s t ⟨program, arguments, timeout⟩ own q.toJson.render)
    (hseconds : (roundSeconds own).isFinite = true)
    (hlegible : ∀ q, HandsOn t input q →
      q.toJson.Legible ∧ (bid { s with own } t true q.toJson.render).toJson.Legible) :
    (relay s t (program :: arguments) timeout input).timeless = (bid s t true input).timeless := by
  cases hb : bidOn s t input with
  | error rejection => rw [relay_of_rejected hb]
  | ok b =>
    obtain ⟨q, hread, hbid⟩ := bind_eq_ok.mp hb
    obtain ⟨c, hc, -⟩ := bind_eq_ok.mp hbid
    rw [bid_of_reads s t hread hc]
    cases hgate : c.infeasibility? t.gate.nodeCheck with
    | some reason =>
      rw [relay_of_infeasible s hgate _ timeout hread hc]
      unfold Tuning.chosenScorer
      rw [bid_of_infeasible hgate]
      rfl
    | none =>
      have hon : HandsOn t input q := ⟨hread, c, hc, hgate⟩
      obtain ⟨hrequest, hreply⟩ := hlegible q hon
      have hr := bid_render s t own hread hc hrequest
      rw [hr] at hreply
      obtain ⟨hvalue, hspent⟩ := isFinite_response (t.chosenScorer s.curves) c hseconds
      have houtcome := outcome_of_mirrors (hchild q hon) hr hvalue hspent hreply
      have hnone : (t.fallback s.curves).gate? c s.own = none := by
        unfold Fallback.gate? Tuning.fallback
        rw [hgate]
        rfl
      unfold relay
      rw [relayed_of_reads s t _ timeout hread hc, hnone]
      dsimp only [Bidder.ofCommandLine?]
      rw [houtcome]
      unfold Fallback.resolveResponse
      rw [hnone]
      exact timeless_settle _ _ c _ s.own own s.own

/-- A job and an idle system that it fits. -/
def matched : BidRequest where
  job := ⟨1, 1, 1, .hpc, 0, 1, 1, false, 0, 0, "", "alone"⟩
  system := ⟨"alone", "", .hpc, 1, 0, none, false, 1, none⟩
  status := ⟨1, 0, 0⟩
  now := 0

/-- The setting of this pair. -/
def matchedContext : Context where
  job := matched.job
  system := matched.system
  status := matched.status
  now := matched.now
  jobValid := rfl
  systemValid := rfl
  statusValid := rfl
  clockValid := rfl

/-- Surroundings whose every program answers as the bid command, in no time. -/
def mirror : Surroundings where
  curves := .steep
  launch _ _ text :=
    let child := Surroundings.mk .steep (fun _ _ _ => ⟨.notStarted "", .ofSeconds 0⟩) 0
    ⟨.exited (.code 0) (Text.toOctets (Order.answer child {} text (.bid true))) [], .ofSeconds 0⟩
  own := 0

theorem mirrors_mirror {b : Bidder} (h : 0 < b.timeout.toNanos) (text : String) :
    Mirrors mirror {} b 0 text := ⟨[], .ofSeconds 0, h, rfl⟩

theorem readsBack_zero : Json.ReadsBack 0 := rfl

theorem readsBack_one : Json.ReadsBack 1 := by
  have htext : Json.doubles.write 1 = "1.0" := by decide +kernel
  unfold Json.ReadsBack
  rw [htext]
  rfl

theorem legible_matched : matched.toJson.Legible := by
  have hjob : matched.job.toJson.Legible :=
    ⟨trivial, trivial, trivial, trivial, fun _ => readsBack_zero, fun _ => readsBack_one, trivial,
      trivial, fun _ => readsBack_zero, fun _ => readsBack_zero, trivial, trivial, trivial⟩
  have hsystem : matched.system.toJson.Legible :=
    ⟨trivial, trivial, trivial, trivial, fun _ => readsBack_zero, trivial, trivial,
      fun _ => readsBack_one, trivial⟩
  have hstatus : matched.status.toJson.Legible :=
    ⟨trivial, fun _ => readsBack_zero, trivial, trivial⟩
  exact ⟨hjob, hsystem, hstatus, fun _ => readsBack_zero, trivial⟩

theorem ofText_matched : BidRequest.ofText matched.toJson.render = .ok matched :=
  BidRequest.ofText_render (c := matchedContext) matchedContext.of_self rfl rfl legible_matched

theorem relay_is_transparent_matched :
    HandsOn {} matched.toJson.render matched ∧
      (relay mirror {} ["bidder"] (.ofSeconds 30) matched.toJson.render).timeless
        = (bid mirror {} true matched.toJson.render).timeless := by
  have hvalue : ((Tuning.chosenScorer .steep {}).bid matchedContext 0).response.bid = 1 := by
    decide +kernel
  have hspent : ((Tuning.chosenScorer .steep {}).bid matchedContext 0).response.seconds = 0 := by
    decide +kernel
  refine ⟨⟨ofText_matched, matchedContext, matchedContext.of_self, rfl⟩, ?_⟩
  refine relay_is_transparent mirror {} "bidder" [] (.ofSeconds 30) _ 0 ?_ (by decide +kernel) ?_
  · intro q _
    exact mirrors_mirror (by decide) _
  · rintro q ⟨hread, -⟩
    rw [ofText_matched] at hread
    cases hread
    refine ⟨legible_matched, ?_⟩
    rw [bid_render mirror {} 0 ofText_matched matchedContext.of_self legible_matched]
    refine BidResponse.legible_toJson ?_ ?_
    · show Json.ReadsBack ((Tuning.chosenScorer .steep {}).bid matchedContext 0).response.bid
      rw [hvalue]
      exact readsBack_one
    · show Json.ReadsBack ((Tuning.chosenScorer .steep {}).bid matchedContext 0).response.seconds
      rw [hspent]
      exact readsBack_zero

end Command

end Placement
