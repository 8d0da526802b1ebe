import Placement.Proofs.Chain
import Placement.Proofs.Json.Grammar
import Placement.Proofs.Record.Grammar
/-
  The contract of a response, for every list of octets. `IsObject bs members`: the octets spell one
  JSON object, by the grammar (`Json.Spells`) and not by the reader; strict, with blanks around the
  object, with containers at most `Json.depthLimit` deep and with no number beyond the doubles.

  `octets_under_contract`:
  * what is no such object is malformed;
  * an object with an error member is a report, whatever stands beside it;
  * any other is a response exactly if its bid and its time are numbers (`HoldsNumber`), and those
    are what the response carries;
  * the decoder of the record agrees, and so does the line that a response is printed as, GIVEN
    numbers that are finite and that read back (`Json.ReadsBack`).
-/
namespace Placement

open Json (Members)

namespace BidResponse

/-! ## Objects -/

/-- The octets of one JSON object, with blanks around it, and the members of the object. -/
def IsObject (bs : List UInt8) (members : Members) : Prop :=
  ∃ text, Json.SpellsItem (Json.Spells Json.depthLimit) text (.object members) ∧
    bs = Text.toOctets (String.ofList text)

/-- A number stands under a key, and the double nearest to it is `x`. -/
def HoldsNumber (members : Members) (key : String) (x : Float) : Prop :=
  ∃ n : Json.Number, members.find? key = some (.number n) ∧ n.toFloat = x

/-- An output is refused as no response. -/
def IsMalformed {α : Type} (result : Except Failure α) : Prop :=
  ∃ m : Malformation, result = .error (.malformed m.message)

theorem isObject_iff {bs : List UInt8} {members : Members} :
    IsObject bs members ↔
      ∃ s, Text.ofOctets? bs = some s ∧ Json.parse? s = some (.object members) := by
  simp only [Text.ofOctets?_eq_some_iff, Json.parse?_eq_some_iff]
  constructor
  · rintro ⟨text, htext, rfl⟩
    exact ⟨_, rfl, by rwa [String.toList_ofList]⟩
  · rintro ⟨s, rfl, hs⟩
    exact ⟨s.toList, hs, by rw [String.ofList_toList]⟩

theorem IsObject.nodup {bs : List UInt8} {members : Members} (h : IsObject bs members) :
    (members.map Prod.fst).Nodup := by
  obtain ⟨_, hitem, -⟩ := h
  cases hitem with
  | mk _ hobject _ => exact hobject.nodup

theorem ofOctets_of_isObject {bs : List UInt8} {members : Members} (h : IsObject bs members) :
    ofOctets bs = ofMembers members := by
  obtain ⟨s, hs, hmembers⟩ := isObject_iff.mp h
  unfold ofOctets
  rw [hs]
  dsimp only
  unfold ofText
  rw [hmembers]

/-- What is no object is malformed. -/
theorem isMalformed_of_not_isObject {bs : List UInt8} (h : ∀ members, ¬ IsObject bs members) :
    IsMalformed (ofOctets bs) := by
  unfold ofOctets
  cases hs : Text.ofOctets? bs with
  | none => exact ⟨.notJson, rfl⟩
  | some s =>
    dsimp only
    unfold ofText
    cases hv : Json.parse? s with
    | none => exact ⟨.notJson, rfl⟩
    | some v =>
      cases v with
      | object members => exact absurd (isObject_iff.mpr ⟨s, hs, hv⟩) (h members)
      | null | bool | number | text | array => exact ⟨.notObject, rfl⟩

/-! ## Members -/

theorem numberUnder_eq_ok_iff {members : Members} {key : String} {x : Float} :
    numberUnder members key = .ok x ↔ HoldsNumber members key x := by
  unfold numberUnder HoldsNumber
  cases members.find? key with
  | none => exact iff_of_false nofun nofun
  | some v => cases v <;> simp [Json.toFloat?]

theorem numberUnder_cases (members : Members) (key : String) :
    (∃ x, numberUnder members key = .ok x) ∨
      (∀ x, ¬ HoldsNumber members key x) ∧
        numberUnder members key = .error (.malformed (Malformation.notNumber key).message) := by
  simp only [← numberUnder_eq_ok_iff]
  unfold numberUnder
  cases (members.find? key).bind Json.toFloat? with
  | some x => exact .inl ⟨x, rfl⟩
  | none => exact .inr ⟨nofun, rfl⟩

section Bid

variable {members : Members} (hno : members.find? "error" = none)
include hno

theorem ofMembers_eq : ofMembers members = do
    let bid ← numberUnder members "bid"
    let seconds ← numberUnder members "bid_generation_time_seconds"
    return ⟨bid, seconds, (members.find? "reasoning").bind Json.toText?⟩ := by
  unfold ofMembers
  rw [hno]

/-- Without an error, members are read exactly if both numbers are there. -/
theorem ofMembers_eq_ok_iff (r : BidResponse) :
    ofMembers members = .ok r ↔ HoldsNumber members "bid" r.bid ∧
      HoldsNumber members "bid_generation_time_seconds" r.seconds ∧
      ∀ s, r.reasoning = some s ↔ members.find? "reasoning" = some (.text s) := by
  have htext : ∀ s, (members.find? "reasoning").bind Json.toText? = some s ↔
      members.find? "reasoning" = some (.text s) := by
    intro s
    cases members.find? "reasoning" with
    | none => exact iff_of_false nofun nofun
    | some v => cases v <;> simp [Json.toText?]
  rw [ofMembers_eq hno]
  simp only [bind_eq_ok, numberUnder_eq_ok_iff]
  constructor
  · rintro ⟨bid, hbid, seconds, hseconds, heq⟩
    cases heq
    exact ⟨hbid, hseconds, htext⟩
  · rintro ⟨hbid, hseconds, hreasoning⟩
    refine ⟨r.bid, hbid, r.seconds, hseconds, congrArg Except.ok ?_⟩
    have hsame : (members.find? "reasoning").bind Json.toText? = r.reasoning :=
      Option.ext fun s => (htext s).trans (hreasoning s).symm
    rw [hsame]

/-- Otherwise the number that is missing is named. -/
theorem ofMembers_cases : (∃ r, ofMembers members = .ok r) ∨
    ∃ key ∈ ["bid", "bid_generation_time_seconds"], (∀ x, ¬ HoldsNumber members key x) ∧
      ofMembers members = .error (.malformed (Malformation.notNumber key).message) := by
  rw [ofMembers_eq hno]
  rcases numberUnder_cases members "bid" with ⟨bid, hbid⟩ | ⟨hnone, hbid⟩
  · rcases numberUnder_cases members "bid_generation_time_seconds" with
      ⟨seconds, hseconds⟩ | ⟨hnone, hseconds⟩
    · exact .inl ⟨_, bind_eq_ok.mpr ⟨bid, hbid, bind_eq_ok.mpr ⟨seconds, hseconds, rfl⟩⟩⟩
    · refine .inr ⟨_, List.mem_cons_of_mem _ List.mem_cons_self, hnone, ?_⟩
      rw [hbid, hseconds]
      rfl
  · refine .inr ⟨_, List.mem_cons_self, hnone, ?_⟩
    rw [hbid]
    rfl

end Bid

/-! ## The decoder of the record -/

/-- The fields of a response in their order; the last one may be left out. -/
def fields (r : BidResponse) : List Cell := [
  .required "bid" (Json.IsDouble r.bid),
  .required "bid_generation_time_seconds" (Json.IsDouble r.seconds),
  .defaulted "reasoning" (Json.IsNullable Json.IsText r.reasoning) (r.reasoning = none)]

theorem consistent_shape : shape.Consistent := by
  unfold shape Shape.trailing Shape.required
  iterate 3 apply Shape.Consistent.field
  exact Shape.consistent_empty _

/-- A response is decoded from an object exactly where the object spells its fields. -/
theorem decode_shape {members : Members} (hn : (members.map Prod.fst).Nodup) (r : BidResponse) :
    shape.decode "BidResponse" (.object members) = .ok r ↔
      ∀ cell ∈ r.fields, cell.InMembers members := by
  have hshape := Shape.describes_empty BidResponse.mk
    |>.required "bid" readDouble_eq_ok
    |>.required "bid_generation_time_seconds" readDouble_eq_ok
    |>.defaulted "reasoning" none (nullable_eq_ok readText_eq_ok nofun)
  rw [Shape.decode_object _ consistent_shape hn]
  refine (hshape.ofMembers members r).trans ⟨?_, fun h => ?_⟩
  · rintro ⟨_, rfl, h⟩
    exact h
  · exact ⟨((((), r.bid), r.seconds), r.reasoning), rfl, h⟩

theorem inMembers_double {members : Members} {key : String} {x : Float} :
    (Cell.required key (Json.IsDouble x)).InMembers members ↔ HoldsNumber members key x := by
  unfold Cell.InMembers HoldsNumber Cell.required Json.IsDouble
  dsimp only
  cases members.find? key with
  | none => exact iff_of_false id nofun
  | some v => simp

theorem inMembers_reasoning {members : Members} {reasoning : Option String} :
    (Cell.defaulted "reasoning" (Json.IsNullable Json.IsText reasoning)
        (reasoning = none)).InMembers members ↔
      (∀ s, reasoning = some s ↔ members.find? "reasoning" = some (.text s)) ∧
        ∀ v, members.find? "reasoning" = some v → v = .null ∨ ∃ s, v = .text s := by
  unfold Cell.InMembers Cell.defaulted
  dsimp only
  cases members.find? "reasoning" with
  | none => cases reasoning <;> simp
  | some v =>
    cases reasoning with
    | none => cases v <;> simp [Json.IsNullable]
    | some s => cases v <;> simp [Json.IsNullable, Json.IsText, eq_comm]

/-- The decoder of the record takes what the reader takes, but no reasoning that is neither a text
nor null. -/
theorem decode_shape_iff {members : Members} (hn : (members.map Prod.fst).Nodup)
    (hno : members.find? "error" = none) (r : BidResponse) :
    shape.decode "BidResponse" (.object members) = .ok r ↔ ofMembers members = .ok r ∧
      ∀ v, members.find? "reasoning" = some v → v = .null ∨ ∃ s, v = .text s := by
  rw [decode_shape hn, ofMembers_eq_ok_iff hno]
  simp only [fields, List.forall_mem_cons, List.not_mem_nil, IsEmpty.forall_iff, implies_true,
    and_true, inMembers_double, inMembers_reasoning, and_assoc]

/-! ## The contract -/

/-- What is read of the octets that a bidder wrote. They are malformed unless they are one JSON
object. An object with an error member is a report of it, whatever the member is and whatever stands
beside it. An object without one is a response exactly if its bid and its time are numbers; the
response carries them as they are, and its reasoning if that is a text; otherwise the number that is
missing is named. The decoder of the record reads no such object differently, it only refuses
reasoning that is neither a text nor null. And the text of a response with finite numbers, both of
which are read back as they are printed, is read as that response. -/
theorem octets_under_contract :
    (∀ bs, (∀ members, ¬ IsObject bs members) → IsMalformed (ofOctets bs)) ∧
    (∀ bs members v, IsObject bs members → members.find? "error" = some v →
      ofOctets bs = .error (.reported (reported v))) ∧
    (∀ bs members, IsObject bs members → members.find? "error" = none →
      ((∃ r, ofOctets bs = .ok r) ↔ (∃ x, HoldsNumber members "bid" x) ∧
        ∃ x, HoldsNumber members "bid_generation_time_seconds" x) ∧
      (∀ r, ofOctets bs = .ok r → HoldsNumber members "bid" r.bid ∧
        HoldsNumber members "bid_generation_time_seconds" r.seconds ∧
        ∀ s, r.reasoning = some s ↔ members.find? "reasoning" = some (.text s)) ∧
      ((∃ r, ofOctets bs = .ok r) ∨
        ∃ key ∈ ["bid", "bid_generation_time_seconds"], (∀ x, ¬ HoldsNumber members key x) ∧
          ofOctets bs = .error (.malformed (Malformation.notNumber key).message)) ∧
      ∀ r, shape.decode "BidResponse" (.object members) = .ok r ↔ ofOctets bs = .ok r ∧
        ∀ v, members.find? "reasoning" = some v → v = .null ∨ ∃ s, v = .text s) ∧
    ∀ r : BidResponse, r.bid.isFinite = true → r.seconds.isFinite = true →
      Json.ReadsBack r.bid → Json.ReadsBack r.seconds →
      ofOctets (Text.toOctets r.toJson.render) = .ok r := by
  refine ⟨fun bs => isMalformed_of_not_isObject, fun bs members v hobject herror => ?_,
    fun bs members hobject hno => ?_, fun r hbid hseconds hbid' hseconds' =>
      ofOctets_render hbid hseconds (legible_toJson hbid' hseconds')⟩
  · rw [ofOctets_of_isObject hobject]
    unfold ofMembers
    rw [herror]
    rfl
  · rw [ofOctets_of_isObject hobject]
    have hread := ofMembers_eq_ok_iff hno
    refine ⟨⟨?_, ?_⟩, fun r => (hread r).mp, ofMembers_cases hno,
      decode_shape_iff hobject.nodup hno⟩
    · rintro ⟨r, hr⟩
      obtain ⟨hbid, hseconds, -⟩ := (hread r).mp hr
      exact ⟨⟨_, hbid⟩, ⟨_, hseconds⟩⟩
    · rintro ⟨⟨bid, hbid⟩, ⟨seconds, hseconds⟩⟩
      rcases ofMembers_cases hno with hok | ⟨key, hkey, hnone, -⟩
      · exact hok
      · rcases List.mem_pair.mp hkey with rfl | rfl
        · exact absurd hbid (hnone bid)
        · exact absurd hseconds (hnone seconds)

/-- A bid beside an error, which is null. -/
def disowned : Json := .object [("bid", .number (.natural 1)), ("error", .null)]

/-- A response of one half. -/
def half : BidResponse := ⟨0.5, 0.5, some "both halves"⟩

theorem octets_under_contract_half :
    ofOctets (Text.toOctets disowned.render) = .error (.reported "null") ∧
      half.toJson.render = "\x7b\"bid\":0.5,\"bid_generation_time_seconds\":0.5," ++
        "\"reasoning\":\"both halves\"\x7d" ∧
      ofOctets (Text.toOctets half.toJson.render) = .ok half := by
  obtain ⟨-, hreport, -, hback⟩ := octets_under_contract
  have hdisowned : IsObject (Text.toOctets disowned.render)
      [("bid", .number (.natural 1)), ("error", .null)] := by
    have hlegible : disowned.Legible := ⟨trivial, trivial, trivial⟩
    exact isObject_iff.mpr
      ⟨disowned.render, Text.ofOctets?_toOctets _, Json.parse?_render hlegible (by decide)⟩
  exact ⟨hreport _ _ _ hdisowned rfl, by decide +kernel,
    hback half (by decide) (by decide) Command.readsBack_half Command.readsBack_half⟩

end BidResponse

end Placement
