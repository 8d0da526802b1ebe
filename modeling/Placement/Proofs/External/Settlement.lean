import Placement.Proofs.Chain
import Placement.Proofs.Double.Positive
import Placement.Proofs.Record.Ranges
/-
  What an outcome settles into, on a pair that passes the gate. Outcomes come to a fallback in two
  ways, as the outcome of a program and as a reply in free text, with two rules for the time.
  `TakesOver r b`: the bid takes over what was offered. `StandsIn s c why elapsed b`: the heuristic
  stands in, for the reason `why`.

  `outcomes_settle_by_one_rule`: GIVEN that the gate passes the context, a response or a reply that
  is read takes over, and anything else makes the heuristic stand in. The heuristic looks at the
  gate again, and finds the one that the fallback has passed (`assess_of_passes`). The time is
  finite and not negative for every context (`IsTime`).
-/
namespace Placement.Fallback

open Double

/-- A time that can have passed: a finite number of seconds, not negative. -/
structure IsTime (seconds : Float) : Prop where
  isFinite : seconds.isFinite = true
  zero_le : 0 ≤ seconds

/-- A bid takes over what a response offers, and the time it reports if that can have passed. -/
structure TakesOver (r : BidResponse) (b : Bid) : Prop where
  value : b.value = sanitize r.bid
  reasoning : b.reasoning = r.reasoning
  reported : r.seconds.isFinite = true → 0 < r.seconds → b.seconds = r.seconds
  unreported : ¬ (r.seconds.isFinite = true ∧ 0 < r.seconds) → b.seconds = 0

/-- A bid has the value of a scorer, which is the value it bids on any request in this setting; it
says why it stands in and how the scorer came to the value, and is charged with the time that
passed. -/
structure StandsIn (s : Scorer) (c : Context) (why : String) (elapsed : Float) (b : Bid) :
    Prop where
  value : ∀ seconds, b.value = (s.bid c seconds).value
  requests : ∀ q seconds, q.context = .ok c → (s.bidOn q seconds).map Bid.value = .ok b.value
  reasoning : ∃ raw detail, s.assess c = .scored raw detail ∧
    b.reasoning = some ("fallback (" ++ why ++ "): " ++ detail)
  elapsed_le : elapsed ≤ b.seconds

/-! ## Times -/

theorem isTime_reportedSeconds (x : Float) : IsTime (reportedSeconds x) :=
  ⟨isFinite_reportedSeconds x, zero_le_reportedSeconds x⟩

theorem isTime_toFloat (d : Duration) : IsTime d.toFloat := ⟨d.isFinite_toFloat, d.zero_le_toFloat⟩

theorem isTime_add (d d' : Duration) : IsTime (d.toFloat + d'.toFloat) :=
  ⟨d.isFinite_add d', zero_le_add d.zero_le_toFloat d'.zero_le_toFloat⟩

/-- Time that is added is not lost. -/
theorem le_add_toFloat (d d' : Duration) : d'.toFloat ≤ d.toFloat + d'.toFloat := by
  have hsum := (isTime_add d d').isFinite
  rw [le_iff_value (isNaN_of_isFinite d'.isFinite_toFloat) (isNaN_of_isFinite hsum)]
  exact (value_le_value_add d.zero_le_toFloat d'.zero_le_toFloat).2

/-! ## The two bids -/

theorem takesOver_accept (r : BidResponse) :
    TakesOver r (accept r.bid r.reasoning (reportedSeconds r.seconds)) where
  value := rfl
  reasoning := rfl
  reported hfinite hpos := by
    show reportedSeconds r.seconds = r.seconds
    unfold reportedSeconds
    rw [hfinite, decide_eq_true hpos]
    rfl
  unreported h := by
    show reportedSeconds r.seconds = 0
    unfold reportedSeconds
    rw [if_neg]
    rwa [Bool.and_eq_true, decide_eq_true_iff]

/-- The value of a bid that stands in, whatever the reason and the times. -/
theorem value_standIn (f : Fallback) (c : Context) (why : String) (spent own : Float) :
    (f.standIn c why spent own).value = f.heuristic.score c := f.heuristic.value_bid c own

section

variable {curves : Curves Float} {t : Tuning} {c : Context}

/-- Where the gate lets a setting through, the heuristic scores it. -/
theorem assess_of_passes (h : c.infeasibility? t.gate.nodeCheck = none) :
    (t.scorerOf curves .heuristic).assess c
      = .scored (Heuristic.value t.heuristic (Heuristic.factors curves t.heuristic c))
          (Heuristic.factors curves t.heuristic c).detail := by
  simp only [Tuning.scorerOf, Heuristic.scorer, Scorer.gated, h]

theorem standsIn_standIn (h : c.infeasibility? t.gate.nodeCheck = none) (why : String)
    (elapsed spent : Duration) :
    StandsIn (t.scorerOf curves .heuristic) c why elapsed.toFloat
      ((t.fallback curves).standIn c why elapsed.toFloat spent.toFloat) where
  value seconds := by
    rw [value_standIn, Scorer.value_bid]
    rfl
  requests q seconds hq := by
    unfold Scorer.bidOn
    rw [hq, value_standIn]
    exact congrArg Except.ok (Scorer.value_bid _ c seconds)
  reasoning := by
    refine ⟨_, _, assess_of_passes h, ?_⟩
    show some (stoodIn why ((t.scorerOf curves .heuristic).bid c spent.toFloat).reasoning) = _
    unfold Scorer.bid
    rw [assess_of_passes h]
    rfl
  elapsed_le := by
    rw [seconds_standIn]
    exact le_add_toFloat spent elapsed

end

/-! ## Both ways in -/

section

variable {f : Fallback} {c : Context} {own : Float} (h : f.gate? c own = none)
include h

theorem resolveResponse_of_passes (outcome : Outcome) (elapsed : Duration) :
    f.resolveResponse c outcome elapsed own = f.settle c elapsed own outcome := by
  unfold resolveResponse
  rw [h]

theorem resolveReply_of_parsed {text : String} {r : Reply} (hr : Reply.parse? text = some r)
    (elapsed : Duration) :
    f.resolveReply c text elapsed own = accept r.bid r.reasoning elapsed.toFloat := by
  unfold resolveReply
  rw [h, hr]

theorem resolveReply_of_unparsed {text : String} (ht : Reply.parse? text = none)
    (elapsed : Duration) :
    f.resolveReply c text elapsed own = f.standIn c scoreless elapsed.toFloat own := by
  unfold resolveReply
  rw [h, ht]

end

section

variable (f : Fallback) (c : Context) (elapsed spent : Duration)

theorem isTime_standIn (why : String) :
    IsTime (f.standIn c why elapsed.toFloat spent.toFloat).seconds := by
  rw [seconds_standIn]
  exact isTime_add spent elapsed

theorem isTime_gate? {b : Bid} (h : f.gate? c spent.toFloat = some b) : IsTime b.seconds := by
  obtain ⟨reason, -, rfl⟩ := Option.map_eq_some_iff.mp h
  exact isTime_toFloat spent

theorem isTime_resolveResponse (outcome : Outcome) :
    IsTime (f.resolveResponse c outcome elapsed spent.toFloat).seconds := by
  cases hgate : f.gate? c spent.toFloat with
  | some b =>
    unfold resolveResponse
    rw [hgate]
    exact f.isTime_gate? c spent hgate
  | none =>
    rw [resolveResponse_of_passes hgate]
    cases outcome with
    | ok r => exact isTime_reportedSeconds r.seconds
    | error failure => exact f.isTime_standIn c elapsed spent failure.message

theorem isTime_resolveReply (text : String) :
    IsTime (f.resolveReply c text elapsed spent.toFloat).seconds := by
  cases hgate : f.gate? c spent.toFloat with
  | some b =>
    unfold resolveReply
    rw [hgate]
    exact f.isTime_gate? c spent hgate
  | none =>
    cases hparse : Reply.parse? text with
    | some r =>
      rw [resolveReply_of_parsed hgate hparse]
      exact isTime_toFloat elapsed
    | none =>
      rw [resolveReply_of_unparsed hgate hparse]
      exact f.isTime_standIn c elapsed spent scoreless

end

/-- What comes from outside settles by one rule, whichever way it comes in. Behind any tuning and in
any setting that passes the gate, a response is taken over, with the time it reports; for a failure
of any kind the heuristic stands in, under the same tuning; and a reply that can be read settles as
a response that says the same would, but for the time, which is the time that passed, while for one
that cannot be read the heuristic stands in as for a failure. Both ways lead to a bid in every
setting, and it never takes less than no time, or for ever. -/
theorem outcomes_settle_by_one_rule (curves : Curves Float) (t : Tuning) (c : Context)
    (elapsed spent : Duration) :
    let f := t.fallback curves
    let heuristic := t.scorerOf curves .heuristic
    let answered := fun outcome => f.resolveResponse c outcome elapsed spent.toFloat
    let replied := fun text => f.resolveReply c text elapsed spent.toFloat
    (c.infeasibility? t.gate.nodeCheck = none →
      (∀ r, TakesOver r (answered (.ok r))) ∧
      (∀ failure, StandsIn heuristic c failure.message elapsed.toFloat
        (answered (.error failure))) ∧
      ∀ text,
        (∀ r, Reply.parse? text = some r →
          (replied text).seconds = elapsed.toFloat ∧
          ∀ seconds,
            (replied text).value = (answered (.ok ⟨r.bid, seconds, r.reasoning⟩)).value ∧
            (replied text).reasoning = (answered (.ok ⟨r.bid, seconds, r.reasoning⟩)).reasoning) ∧
        (Reply.parse? text = none →
          StandsIn heuristic c scoreless elapsed.toFloat (replied text) ∧
          ∀ failure, (replied text).value = (answered (.error failure)).value)) ∧
    (∀ outcome, IsTime (answered outcome).seconds) ∧ ∀ text, IsTime (replied text).seconds := by
  intro f heuristic answered replied
  refine ⟨fun hpass => ?_, f.isTime_resolveResponse c elapsed spent,
    f.isTime_resolveReply c elapsed spent⟩
  have hgate : f.gate? c spent.toFloat = none := gate?_of_passes hpass spent.toFloat
  have hanswered : ∀ outcome, answered outcome = f.settle c elapsed spent.toFloat outcome :=
    fun outcome => resolveResponse_of_passes hgate outcome elapsed
  refine ⟨fun r => ?_, fun failure => ?_, fun text => ⟨fun r hr => ?_, fun hnone => ?_⟩⟩
  · rw [hanswered]
    exact takesOver_accept r
  · rw [hanswered]
    exact standsIn_standIn hpass failure.message elapsed spent
  · have hreplied : replied text = accept r.bid r.reasoning elapsed.toFloat :=
      resolveReply_of_parsed hgate hr elapsed
    rw [hreplied]
    refine ⟨rfl, fun seconds => ?_⟩
    rw [hanswered]
    exact ⟨rfl, rfl⟩
  · have hreplied : replied text = f.standIn c scoreless elapsed.toFloat spent.toFloat :=
      resolveReply_of_unparsed hgate hnone elapsed
    rw [hreplied]
    refine ⟨standsIn_standIn hpass scoreless elapsed spent, fun failure => ?_⟩
    rw [hanswered, value_standIn]
    exact (value_standIn f c failure.message elapsed.toFloat spent.toFloat).symm

/-- A reply with a score in prose. -/
def scored : String := "Answer: \x7b\"bid_score\": 0.5, \"reasoning\": \"fits\"\x7d"

/-- A reply without one. -/
def unscored : String := "It may fit."

open Command in
theorem outcomes_settle_by_one_rule_matched :
    let f := Tuning.fallback .steep {}
    let answered := fun outcome => f.resolveResponse matchedContext outcome (.ofSeconds 2)
      (Duration.ofSeconds 0).toFloat
    let replied := fun text => f.resolveReply matchedContext text (.ofSeconds 2)
      (Duration.ofSeconds 0).toFloat
    matchedContext.infeasibility? .total = none ∧
      (answered (.ok ⟨-0.5, 0.25, none⟩)).seconds = 0.25 ∧
      (answered (.error (.timeout (.ofSeconds 2)))).value = 1 ∧
      ((replied scored).value = 0.5 ∧ (replied scored).reasoning = some "fits" ∧
        (replied scored).seconds = 2) ∧
      (replied unscored).value = 1 ∧ 2 ≤ (replied unscored).seconds := by
  intro f answered replied
  have hpass : matchedContext.infeasibility? .total = none := rfl
  obtain ⟨hsettled, -⟩ :=
    outcomes_settle_by_one_rule .steep {} matchedContext (.ofSeconds 2) (.ofSeconds 0)
  obtain ⟨htaken, hfailed, hreplied⟩ := hsettled hpass
  have hscore : ((Tuning.scorerOf .steep {} .heuristic).bid matchedContext 0).value = 1 := by
    decide +kernel
  have htwo : (Duration.ofSeconds 2).toFloat = 2 := by decide +kernel
  have hparsed : Reply.parse? scored = some ⟨0.5, some "fits"⟩ := by decide +kernel
  have hunparsed : Reply.parse? unscored = none := by decide +kernel
  obtain ⟨hseconds, hsame⟩ := (hreplied scored).1 _ hparsed
  obtain ⟨hvalue, hreasoning⟩ := hsame 0
  obtain ⟨hstands, -⟩ := (hreplied unscored).2 hunparsed
  refine ⟨hpass, (htaken ⟨-0.5, 0.25, none⟩).reported rfl (by decide), ?_, ?_, ?_, ?_⟩
  · exact ((hfailed (.timeout (.ofSeconds 2))).value 0).trans hscore
  · have hoffer := htaken ⟨0.5, 0, some "fits"⟩
    exact ⟨hvalue.trans hoffer.value, hreasoning.trans hoffer.reasoning, hseconds.trans htwo⟩
  · exact (hstands.value 0).trans hscore
  · exact htwo ▸ hstands.elapsed_le

end Placement.Fallback
