import Placement.CommandLine.Program
import Placement.Proofs.Record.RoundTrip
import Placement.Proofs.Text.Octets
/-
  Responses through a pipe. `ofOctets_line`: the line that a response is printed as is read back as
  that response, given that its doubles are `Legible`.
-/
namespace Placement

open Json (Members)

namespace BidResponse

/-- The members of a response, the last one left out when there is nothing to write. -/
def members (r : BidResponse) : List (String × Json) :=
  [("bid", .number (.double r.bid)), ("bid_generation_time_seconds", .number (.double r.seconds))]
  ++ textMember "reasoning" r.reasoning

theorem toJson_eq (r : BidResponse) : r.toJson = .object r.members := rfl

theorem nodup_members (r : BidResponse) : (r.members.map Prod.fst).Nodup := by
  unfold members textMember
  cases r.reasoning with
  | none =>
    show ["bid", "bid_generation_time_seconds"].Nodup
    decide
  | some reasoning =>
    show ["bid", "bid_generation_time_seconds", "reasoning"].Nodup
    decide

theorem depth_toJson (r : BidResponse) : r.toJson.depth = 1 := by
  rw [toJson_eq]
  unfold members textMember
  cases r.reasoning <;> rfl

/-- A response is legible when its numbers are read back. -/
theorem legible_toJson {r : BidResponse} (hbid : Json.ReadsBack r.bid)
    (hseconds : Json.ReadsBack r.seconds) : r.toJson.Legible := by
  rw [toJson_eq]
  unfold members textMember
  cases r.reasoning with
  | none => exact ⟨fun _ => hbid, fun _ => hseconds, trivial⟩
  | some reasoning => exact ⟨fun _ => hbid, fun _ => hseconds, trivial, trivial⟩

variable {r : BidResponse} (hbid : r.bid.isFinite = true) (hseconds : r.seconds.isFinite = true)
include hbid hseconds

/-- A response with finite numbers is read back from its members. -/
theorem ofMembers_settled :
    ofMembers (Members.gather (Json.settledMembers r.members)) = .ok r := by
  simp only [ofMembers, numberUnder, Json.find?_settled r.nodup_members]
  simp only [members, Members.find?_append, find?_textMember, Members.find?_cons, String.reduceEq,
    if_true, if_false, Option.map_some, Option.some_or, Json.settled_double hbid,
    Json.settled_double hseconds]
  obtain ⟨bid, seconds, reasoning⟩ := r
  cases reasoning <;> rfl

/-- A response with finite numbers is read back from the line it is printed as. -/
theorem ofOctets_line (hl : r.toJson.Legible) :
    ofOctets (Text.toOctets (CommandLine.line r.toJson)) = .ok r := by
  have hdepth : r.toJson.depth ≤ Json.depthLimit := by
    rw [depth_toJson]
    decide
  have hparse : Json.parse? (r.toJson.render ++ "\n") = some r.toJson.settled :=
    Json.parse?_render_append hl hdepth rfl
  unfold ofOctets CommandLine.line
  rw [Text.ofOctets?_toOctets]
  dsimp only
  unfold ofText
  rw [hparse]
  exact ofMembers_settled hbid hseconds

end BidResponse

end Placement
