import Placement.Proofs.Record.RoundTrip
/-
  A request on the wire and in the program. Its JSON value is `toJson.settled`: the members stand in
  the order of their keys, and a double that is not finite is null. Reading goes through old names,
  three validators and a default for the clock, while a context is made by checks of its own.

  `wire_is_lossless`: the two agree, GIVEN a request whose numbers can be written (`Writable`) and
  classes that come from labels. The reader accepts what has a context and gives the same rejection
  otherwise, what it accepts is the request, infinite storage apart, and either scorer bids the same
  on both.
-/
namespace Placement

namespace BidRequest

variable {r : BidRequest}

/-- On arrival a request passes the checks of a context, or fails them in the same words. -/
theorem context_portable_map {α : Type} (h : r.system.Writable) (a : α) :
    r.portable.context.map (fun _ => a) = r.context.map fun _ => a := by
  unfold context
  rw [Context.map_of, Context.map_of]
  show (do
    r.job.validate
    r.system.portable.validate
    r.status.validate r.system
    checkClock r.now
    return a) = _
  rw [System.validate_portable_eq h]

/-- Either scorer does the same with a request on arrival. -/
theorem bidOn_portable (h : r.system.Writable) (curves : Curves Float) (t : Tuning)
    (kind : ScorerKind) (seconds : Float) :
    (t.scorerOf curves kind).bidOn r.portable seconds
      = (t.scorerOf curves kind).bidOn r seconds := by
  unfold Scorer.bidOn
  cases hc : r.context with
  | ok c =>
    rw [context_portable hc, ok_bind, ok_bind, t.bid_portable curves kind c seconds]
  | error rejection =>
    have hmap := context_portable_map h ()
    rw [hc] at hmap
    cases hp : r.portable.context with
    | ok c =>
      rw [hp] at hmap
      exact nomatch hmap
    | error rejection' =>
      rw [hp] at hmap
      cases hmap
      rfl

/-- The wire form of a request is lossless, and its gate is that of the program. Let the classes of
a request come from labels, and its numbers be finite, storage perhaps infinite. Then the reader
accepts the JSON of the request exactly when it has a context, and makes of it the request with
infinite storage left out; it refuses it exactly when there is no context, with the same rejection;
and either scorer, under any tuning, does the same with both. -/
theorem wire_is_lossless (r : BidRequest) (h : r.Writable)
    (hjob : ∃ label, ResourceType.ofLabel? label = some r.job.type)
    (hsystem : ∃ label, ResourceType.ofLabel? label = some r.system.type) :
    (∀ q, read r.toJson.settled = .ok q ↔
      (∃ c, r.context = .ok c) ∧
      q = { r with
        system := { r.system with storage := r.system.storage.filter Float.isFinite } }) ∧
    (∀ rejection, read r.toJson.settled = .error rejection ↔ r.context = .error rejection) ∧
    ∀ q, read r.toJson.settled = .ok q → ∀ curves t kind seconds,
      ∃ b, (Tuning.scorerOf curves t kind).bidOn r seconds = .ok b ∧
        (Tuning.scorerOf curves t kind).bidOn q seconds = .ok b := by
  obtain ⟨_, hjob⟩ := hjob
  obtain ⟨_, hsystem⟩ := hsystem
  have hread := read_settled h (ResourceType.canonical_of_ofLabel? hjob)
    (ResourceType.canonical_of_ofLabel? hsystem)
  rw [hread]
  cases hc : r.context with
  | error rejection =>
    refine ⟨fun q => ?_, fun rejection' => ?_, fun q hq => nomatch hq⟩
    · constructor
      · intro hq
        exact nomatch hq
      · rintro ⟨⟨_, hc'⟩, -⟩
        exact nomatch hc'
    · constructor <;> intro hr <;> cases hr <;> rfl
  | ok c =>
    refine ⟨fun q => ?_, fun rejection => ?_, fun q hq curves t kind seconds => ?_⟩
    · constructor
      · intro hq
        cases hq
        exact ⟨⟨c, rfl⟩, rfl⟩
      · rintro ⟨-, rfl⟩
        rfl
    · constructor <;> intro hr <;> exact nomatch hr
    · cases hq
      refine ⟨(t.scorerOf curves kind).bid c seconds, ?_, ?_⟩
      · unfold Scorer.bidOn
        rw [hc]
        rfl
      · rw [bidOn_portable h.system]
        unfold Scorer.bidOn
        rw [hc]
        rfl

/-- A request to a system with infinite storage. -/
def roomy : BidRequest where
  job := ⟨1, 1, 1, .hpc, 0, 60, 2, false, 8, 1, "north", "a"⟩
  system := ⟨"b", "north", .other "FPGA", 16, 64, some (1 / 0), true, 1e12, none⟩
  status := ⟨4, 10, 5⟩
  now := 0

/-- The same request for no nodes. -/
def hollow : BidRequest := { roomy with job := { roomy.job with nodes := 0 } }

theorem writable_roomy : roomy.Writable where
  job := ⟨rfl, by decide, by decide, by decide⟩
  system := ⟨by decide, fun x hx => .inr (Option.some.inj hx).symm, by decide⟩
  startEstimate := by decide
  now := rfl

theorem wire_is_lossless_roomy :
    read roomy.toJson.settled = .ok { roomy with system := { roomy.system with storage := none } } ∧
      read hollow.toJson.settled = .error (.job (.breach 1 .noNodes)) := by
  have hcontext : ∃ c, roomy.context = .ok c :=
    ⟨⟨roomy.job, roomy.system, roomy.status, roomy.now, rfl, rfl, rfl, rfl⟩,
      Context.of_eq_ok.mpr ⟨rfl, rfl, rfl, rfl⟩⟩
  have hstorage : roomy.system.storage.filter Float.isFinite = none := rfl
  have hlabel : ∃ label, ResourceType.ofLabel? label = some roomy.job.type := ⟨"HPC", rfl⟩
  have hlabel' : ∃ label, ResourceType.ofLabel? label = some roomy.system.type :=
    ⟨"FPGA", by decide⟩
  obtain ⟨haccept, -, -⟩ := wire_is_lossless roomy writable_roomy hlabel hlabel'
  obtain ⟨hsubmitted, hwalltime, hmemory, hjobStorage⟩ := writable_roomy.job
  obtain ⟨-, hrefuse, -⟩ := wire_is_lossless hollow
    ⟨⟨hsubmitted, hwalltime, hmemory, hjobStorage⟩, writable_roomy.system,
      writable_roomy.startEstimate, writable_roomy.now⟩ hlabel hlabel'
  refine ⟨(haccept _).mpr ⟨hcontext, by rw [hstorage]⟩, (hrefuse _).mpr ?_⟩
  rfl

end BidRequest

end Placement
