import Placement.Proofs.Double.Seconds
import Placement.Proofs.Relay
/-
  Relays in a chain: one relay is the bidder of the next, so what a relay answers is what a relay
  has to read.

  * `isFinite_seconds_relay`: the time of an answer is finite unless it `Overruns`, GIVEN an own
    time that is a measured duration.
  * `relay_answer_reads_back`: such an answer is read back as it is, GIVEN that its doubles are
    `Legible`; one that overruns has an infinite time, is written with null in its place, and the
    next relay refuses it.
  * `relay_endless`: an answer that overruns.

  Only a time that the bidder reports can overrun. It is taken when it is finite, but it is then
  counted in microseconds, and one above about `1.8e302` seconds becomes infinite there. The times
  that the relay measures itself cannot (`Duration.isFinite_roundSeconds_add`).
-/
namespace Placement

open Double

/-! ## The text of a response -/

namespace BidResponse

variable {r : BidResponse}

theorem parse?_render (hl : r.toJson.Legible) :
    Json.parse? r.toJson.render = some r.toJson.settled := by
  refine Json.parse?_render hl ?_
  rw [depth_toJson]
  decide

/-- A response with finite numbers is read back from its text. -/
theorem ofOctets_render (hbid : r.bid.isFinite = true) (hseconds : r.seconds.isFinite = true)
    (hl : r.toJson.Legible) : ofOctets (Text.toOctets r.toJson.render) = .ok r := by
  unfold ofOctets
  rw [Text.ofOctets?_toOctets]
  dsimp only
  unfold ofText
  rw [parse?_render hl]
  exact ofMembers_settled hbid hseconds

/-- A response with an endless time is not. -/
theorem ofOctets_render_endless (hbid : r.bid.isFinite = true)
    (hseconds : r.seconds.isFinite = false) (hl : r.toJson.Legible) :
    ofOctets (Text.toOctets r.toJson.render)
      = .error (.malformed (Malformation.notNumber "bid_generation_time_seconds").message) := by
  have hnull : Json.settled (.number (.double r.seconds)) = .null := by
    unfold Json.settled Json.Number.settled
    dsimp only
    rw [hseconds]
    rfl
  unfold ofOctets
  rw [Text.ofOctets?_toOctets]
  dsimp only
  unfold ofText
  rw [parse?_render hl]
  show ofMembers (Json.Members.gather (Json.settledMembers r.members)) = _
  simp only [ofMembers, numberUnder, Json.find?_settled r.nodup_members]
  simp only [members, Json.Members.find?_append, find?_textMember, Json.Members.find?_cons,
    String.reduceEq, if_true, if_false, Option.map_some, Option.some_or, Json.settled_double hbid,
    hnull]
  obtain ⟨bid, seconds, reasoning⟩ := r
  cases reasoning <;> rfl

end BidResponse

/-! ## The time of a relayed bid -/

namespace Fallback

theorem zero_le_reportedSeconds (x : Float) : 0 ≤ reportedSeconds x := by
  unfold reportedSeconds
  split
  · rename_i h
    rw [Bool.and_eq_true, decide_eq_true_iff] at h
    exact le_of_lt h.2
  · exact Double.le_refl rfl

theorem isFinite_reportedSeconds (x : Float) : (reportedSeconds x).isFinite = true := by
  unfold reportedSeconds
  split
  · rename_i h
    rw [Bool.and_eq_true] at h
    exact h.1
  · rfl

variable (f : Fallback) (c : Context) (elapsed : Duration) (own : Float)

/-- Whatever the outcome, the value is a bid. -/
theorem isFinite_settle (outcome : Outcome) :
    (f.settle c elapsed own outcome).value.isFinite = true := by
  cases outcome with
  | ok r => exact isFinite_sanitize _
  | error failure =>
    show (f.heuristic.bid c own).value.isFinite = true
    rw [f.heuristic.value_bid, ← f.heuristic.sanitize_score]
    exact isFinite_sanitize _

/-- A bid that the heuristic makes in place of another takes both times. -/
theorem seconds_standIn (why : String) (spent : Float) :
    (f.standIn c why spent own).seconds = own + spent := by
  unfold standIn Scorer.bid
  cases f.heuristic.assess c <;> rfl

end Fallback

namespace Command

/-- The bidder of a relay is asked, and reports a finite time that is endless in microseconds. -/
def Overruns (s : Surroundings) (t : Tuning) (bidder : List String) (timeout : Duration)
    (input : String) : Prop :=
  ∃ q b response, HandsOn t input q ∧ Bidder.ofCommandLine? bidder = some b ∧
    Bidder.outcome { b with timeout } (Bidder.run s.launch { b with timeout } q) = .ok response ∧
    (Fallback.reportedSeconds response.seconds * 1e6).isFinite = false

variable {s : Surroundings} {t : Tuning} {bidder : List String} {timeout : Duration}
  {input : String}

/-- The relay hands a request on and answers with what the outcome settles into. -/
theorem relay_of_passes {q : BidRequest} {c : Context} {b : Bidder}
    (hread : BidRequest.ofText input = .ok q) (hc : q.context = .ok c)
    (hpass : c.infeasibility? t.gate.nodeCheck = none)
    (hb : Bidder.ofCommandLine? bidder = some b) :
    relay s t bidder timeout input = .ok ((t.fallback s.curves).settle c
      (Bidder.waited { b with timeout } (Bidder.run s.launch { b with timeout } q)) s.own
      (Bidder.outcome { b with timeout } (Bidder.run s.launch { b with timeout } q))).response := by
  unfold relay
  rw [relayed_of_reads s t bidder timeout hread hc, Fallback.gate?_of_passes hpass, hb]
  dsimp only
  unfold Fallback.resolveResponse
  rw [Fallback.gate?_of_passes hpass]

/-- What the relay answers comes from the gate, or from the outcome of the bidder. -/
theorem relay_eq_ok {r : BidResponse} (h : relay s t bidder timeout input = .ok r) :
    ∃ q c, BidRequest.ofText input = .ok q ∧ q.context = .ok c ∧
      ((∃ reason, c.infeasibility? t.gate.nodeCheck = some reason ∧
          r = ⟨0, roundSeconds s.own, some reason.reasoning⟩) ∨
        c.infeasibility? t.gate.nodeCheck = none ∧ ∃ b, Bidder.ofCommandLine? bidder = some b ∧
          r = ((t.fallback s.curves).settle c
            (Bidder.waited { b with timeout } (Bidder.run s.launch { b with timeout } q)) s.own
            (Bidder.outcome { b with timeout }
              (Bidder.run s.launch { b with timeout } q))).response) := by
  unfold relay at h
  cases hr : relayed s t bidder timeout input with
  | error e =>
    rw [hr] at h
    exact nomatch h
  | ok bid =>
    have hanswer : relay s t bidder timeout input = .ok r := by
      unfold relay
      rw [hr] at h ⊢
      exact h
    obtain ⟨q, hq, hrest⟩ := bind_eq_ok.mp hr
    obtain ⟨c, hc, -⟩ := bind_eq_ok.mp hrest
    have hread := mapError_eq_ok.mp hq
    have hcontext := mapError_eq_ok.mp hc
    refine ⟨q, c, hread, hcontext, ?_⟩
    cases hgate : c.infeasibility? t.gate.nodeCheck with
    | some reason =>
      rw [relay_of_infeasible s hgate bidder timeout hread hcontext] at hanswer
      cases hanswer
      exact .inl ⟨reason, rfl, rfl⟩
    | none =>
      cases hb : Bidder.ofCommandLine? bidder with
      | none =>
        rw [relayed_of_reads s t bidder timeout hread hcontext, Fallback.gate?_of_passes hgate,
          hb] at hr
        exact nomatch hr
      | some b =>
        rw [relay_of_passes hread hcontext hgate hb] at hanswer
        cases hanswer
        exact .inr ⟨rfl, b, rfl, rfl⟩

/-- The time of a settled bid is finite unless it is reported and endless in microseconds. -/
theorem isFinite_seconds_settle (f : Fallback) (c : Context) (elapsed own : Duration)
    (outcome : Outcome) :
    (f.settle c elapsed own.toFloat outcome).response.seconds.isFinite = false ↔
      ∃ response, outcome = .ok response ∧
        (Fallback.reportedSeconds response.seconds * 1e6).isFinite = false := by
  cases outcome with
  | ok response =>
    show (roundSeconds (Fallback.reportedSeconds response.seconds)).isFinite = false ↔ _
    rw [isFinite_roundSeconds (Fallback.zero_le_reportedSeconds _)
      (Fallback.isFinite_reportedSeconds _)]
    constructor
    · intro h
      exact ⟨response, rfl, h⟩
    · rintro ⟨_, heq, h⟩
      cases heq
      exact h
  | error failure =>
    have hfinite := own.isFinite_roundSeconds_add elapsed
    rw [← f.seconds_standIn c own.toFloat failure.message elapsed.toFloat] at hfinite
    constructor
    · intro h
      have hcontra := hfinite.symm.trans h
      exact nomatch hcontra
    · rintro ⟨_, heq, -⟩
      exact nomatch heq

/-- An answer of the relay has a finite time unless the bidder overruns. -/
theorem isFinite_seconds_relay {r : BidResponse} {own : Duration} (hown : s.own = own.toFloat)
    (h : relay s t bidder timeout input = .ok r) :
    r.bid.isFinite = true ∧
      (r.seconds.isFinite = false ↔ Overruns s t bidder timeout input) := by
  obtain ⟨q, c, hread, hc, ⟨reason, hgate, rfl⟩ | ⟨hpass, b, hb, rfl⟩⟩ := relay_eq_ok h
  · refine ⟨isFinite_zero, ?_⟩
    have hfinite := own.isFinite_roundSeconds_toFloat
    rw [← hown] at hfinite
    constructor
    · intro hcontra
      exact nomatch hfinite.symm.trans hcontra
    · rintro ⟨q', -, -, ⟨hread', c', hc', hpass⟩, -⟩
      cases hread.symm.trans hread'
      cases hc.symm.trans hc'
      exact nomatch hgate.symm.trans hpass
  · refine ⟨Fallback.isFinite_settle _ _ _ _ _, ?_⟩
    rw [hown, isFinite_seconds_settle]
    constructor
    · rintro ⟨response, hresponse, hover⟩
      exact ⟨q, b, response, ⟨hread, c, hc, hpass⟩, hb, hresponse, hover⟩
    · rintro ⟨q', b', response, ⟨hread', -⟩, hb', hresponse, hover⟩
      cases hread.symm.trans hread'
      cases hb.symm.trans hb'
      exact ⟨response, hresponse, hover⟩

/-- What a relay answers, a relay can read, unless its bidder overruns. For every request, tuning,
bidder and surroundings in which scoring takes a measured time: the bid of the answer is finite, and
without an overrun so is its time, and the text of the answer is read back as the answer. With one
the time is not finite, and the text is refused for it. Finite doubles must be read back. -/
theorem relay_answer_reads_back (s : Surroundings) (own : Duration) (hown : s.own = own.toFloat)
    (t : Tuning) (bidder : List String) (timeout : Duration) (input : String) (r : BidResponse)
    (h : relay s t bidder timeout input = .ok r) (hl : r.toJson.Legible) :
    r.bid.isFinite = true ∧
    (¬ Overruns s t bidder timeout input → r.seconds.isFinite = true ∧
      BidResponse.ofOctets (Text.toOctets r.toJson.render) = .ok r) ∧
    (Overruns s t bidder timeout input → r.seconds.isFinite = false ∧
      BidResponse.ofOctets (Text.toOctets r.toJson.render)
        = .error (.malformed (Malformation.notNumber "bid_generation_time_seconds").message)) := by
  obtain ⟨hbid, hseconds⟩ := isFinite_seconds_relay hown h
  refine ⟨hbid, fun hover => ?_, fun hover => ?_⟩
  · have hfinite : r.seconds.isFinite = true :=
      Bool.not_eq_false _ ▸ (mt hseconds.mp hover)
    exact ⟨hfinite, BidResponse.ofOctets_render hbid hfinite hl⟩
  · have hendless := hseconds.mpr hover
    exact ⟨hendless, BidResponse.ofOctets_render_endless hbid hendless hl⟩

/-- Surroundings in which every program ends well, in no time, and prints a response. -/
def answering (response : BidResponse) : Surroundings where
  curves := .steep
  launch _ _ _ :=
    ⟨.exited (.code 0) (Text.toOctets response.toJson.render) [], .ofSeconds 0⟩
  own := (Duration.ofSeconds 0).toFloat

/-- A program that is asked about the matched pair has its response relayed. -/
theorem relay_answering {response : BidResponse}
    (hread : BidResponse.ofOctets (Text.toOctets response.toJson.render) = .ok response) :
    relay (answering response) {} ["bidder"] (.ofSeconds 30) matched.toJson.render
      = .ok ⟨sanitize response.bid, roundSeconds (Fallback.reportedSeconds response.seconds),
        response.reasoning⟩ := by
  have houtcome : Bidder.outcome ⟨"bidder", [], .ofSeconds 30⟩
      (Bidder.run (answering response).launch ⟨"bidder", [], .ofSeconds 30⟩ matched)
      = .ok response := by
    unfold Bidder.outcome Bidder.run answering
    dsimp only
    rw [if_neg (by decide), hread]
    rfl
  have hbidder : Bidder.ofCommandLine? ["bidder"] = some ⟨"bidder", [], Bidder.defaultTimeout⟩ :=
    rfl
  rw [relay_of_passes ofText_matched matchedContext.of_self rfl hbidder, houtcome]
  rfl

theorem readsBack_half : Json.ReadsBack 0.5 := by
  have htext : Json.doubles.write 0.5 = "0.5" := by decide +kernel
  unfold Json.ReadsBack
  rw [htext]
  rfl

theorem sanitize_half : sanitize 0.5 = 0.5 := rfl

/-- `1e305` is read back from its text. -/
theorem readsBack_huge : Json.ReadsBack 1e305 := by
  have htext : (Json.doubles.write 1e305).toList = ['1', 'e', '+', '3', '0', '5'] := by
    decide +kernel
  have hread : Decimal.Literal.computed? ⟨false, ['1'], [], 305⟩ = some 1e305 := by decide +kernel
  have hliteral : Json.Number.ofLiteral? false ['1'] none (some 305) = some (.double 1e305) := by
    simp only [Json.Number.ofLiteral?, Option.isNone_none, Option.isNone_some, Bool.and_false,
      Bool.false_and, Bool.false_eq_true, if_false, Option.getD_none, Option.getD_some, hread,
      Option.map_some]
  have hwhole : Json.whole? ['1', 'e', '+', '3', '0', '5']
      = some (['1'], ['e', '+', '3', '0', '5']) := rfl
  have hfraction : Json.fraction? ['e', '+', '3', '0', '5']
      = some (none, ['e', '+', '3', '0', '5']) := rfl
  have hpower : Json.power? ['e', '+', '3', '0', '5'] = some (some 305, []) := rfl
  unfold Json.ReadsBack
  rw [htext, Json.scalar?_digit (by decide)]
  simp only [Json.unsigned?, hwhole, hfraction, hpower, hliteral, Option.bind_eq_bind,
    Option.bind_some]

theorem relay_answer_reads_back_half :
    relay (answering ⟨0.5, 0.5, none⟩) {} ["bidder"] (.ofSeconds 30) matched.toJson.render
        = .ok ⟨0.5, 0.5, none⟩ ∧
      BidResponse.ofOctets (Text.toOctets (BidResponse.mk 0.5 0.5 none).toJson.render)
        = .ok ⟨0.5, 0.5, none⟩ := by
  have hl : (BidResponse.mk 0.5 0.5 none).toJson.Legible :=
    BidResponse.legible_toJson readsBack_half readsBack_half
  have hrelay := relay_answering (BidResponse.ofOctets_render (by decide) (by decide) hl)
  have hseconds : roundSeconds (Fallback.reportedSeconds 0.5) = 0.5 := by decide +kernel
  rw [sanitize_half, hseconds] at hrelay
  obtain ⟨-, hreads, hover⟩ := relay_answer_reads_back (answering ⟨0.5, 0.5, none⟩)
    (.ofSeconds 0) rfl {} ["bidder"] (.ofSeconds 30) matched.toJson.render ⟨0.5, 0.5, none⟩ hrelay
    hl
  exact ⟨hrelay, (hreads fun h => absurd (hover h).1 (by decide)).2⟩

/-- A bidder that reports `1e305` seconds is answered with a time that no relay can read. -/
theorem relay_endless :
    relay (answering ⟨0.5, 1e305, none⟩) {} ["bidder"] (.ofSeconds 30) matched.toJson.render
        = .ok ⟨0.5, 1 / 0, none⟩ ∧
      (1 / 0 : Float).isFinite = false ∧
      BidResponse.ofOctets (Text.toOctets (BidResponse.mk 0.5 (1 / 0) none).toJson.render)
        = .error (.malformed (Malformation.notNumber "bid_generation_time_seconds").message) := by
  have hl : (BidResponse.mk 0.5 1e305 none).toJson.Legible :=
    BidResponse.legible_toJson readsBack_half readsBack_huge
  have hrelay := relay_answering (BidResponse.ofOctets_render (by decide) (by decide +kernel) hl)
  have hseconds : roundSeconds (Fallback.reportedSeconds 1e305) = 1 / 0 := by decide +kernel
  rw [sanitize_half, hseconds] at hrelay
  have hendless : (1 / 0 : Float).isFinite = false := rfl
  refine ⟨hrelay, hendless, BidResponse.ofOctets_render_endless (by decide) hendless ?_⟩
  exact ⟨fun _ => readsBack_half, fun h => absurd h (hendless ▸ Bool.false_ne_true), trivial⟩

end Command

end Placement
