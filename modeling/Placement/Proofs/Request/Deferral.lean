import Placement.Auction
import Placement.Proofs.Request.Conditions
/-
  What the reader of a selection request accepts, and what it leaves to the auction. A candidate
  that is no record at all refuses the whole request; one that is out of range is kept, in its
  place, and fails alone when it is scored.

  * `SelectionRequest.judges_read`: the conditions of a request name every field of every candidate
    and no range of any, GIVEN a proper value.
  * `read_defers_ranges`: and a bid fails exactly where a range does, with a rejection of that range
    (`Candidate.RefusedFor`), whatever the other candidates are.
-/
namespace Placement

/-! ## Candidates -/

namespace Candidate

/-- A candidate has a name. -/
def isNamed (index : Nat) (part : Option Json) : Condition where
  kind := .system
  holds := ∃ name, part = some (.text name) ∧ name.isEmpty = false
  refusal r := r = .system (.nameless index)

/-- The conditions on the parts of a candidate, in the order in which they are looked at. -/
def partConditions (index : Nat) (name system status : Option Json) : List Condition :=
  [isNamed index name]
    ++ (System.form.conditions system (.system (.absent "description"))
    ++ Status.form.conditions status (.system (.absent "status")))

/-- The conditions on the candidate at a position. -/
def conditions (index : Nat) (v : Json) : List Condition :=
  [isObject (.system (.notObject index v.kind)) v]
    ++ partConditions index (v.get? "system_name") (v.get? "description") (v.get? "status")

/-- The conditions on candidates from a position on. -/
def conditionsFrom (index : Nat) (items : List Json) : List Condition :=
  (items.zipIdx index).flatMap fun entry => conditions entry.2 entry.1

/-- A value spells a candidate, in range or not. -/
structure SpelledIn (v : Json) (c : Candidate) : Prop where
  name : v.get? "system_name" = some (.text c.name)
  named : c.name.isEmpty = false
  system : System.form.Spells (v.get? "description") c.system
  status : Status.form.Spells (v.get? "status") c.status

theorem judges_readName (index : Nat) (members : Json.Members) :
    Judges (readName index members) [isNamed index (members.find? "system_name")] fun name =>
      members.find? "system_name" = some (.text name) ∧ name.isEmpty = false := by
  unfold readName
  generalize members.find? "system_name" = part
  have hnameless : (∀ name, part = some (.text name) → name.isEmpty = true) →
      Judges (.error (.system (.nameless index))) [isNamed index part] fun name =>
        part = some (.text name) ∧ name.isEmpty = false := by
    intro hempty
    refine .refused ?_ (fun _ => Iff.rfl) rfl
    rintro ⟨name, hpart, hname⟩
    exact Bool.false_ne_true (hname.symm.trans (hempty name hpart))
  split
  · rename_i name
    cases hname : name.isEmpty with
    | true =>
      refine hnameless fun name' h => ?_
      cases h
      exact hname
    | false =>
      rw [if_neg Bool.false_ne_true]
      refine .accepted ⟨name, rfl, hname⟩ fun name' => ?_
      constructor
      · rintro ⟨h, -⟩
        cases h
        rfl
      · rintro rfl
        exact ⟨rfl, hname⟩
  · rename_i hpart
    exact hnameless fun name h => absurd h (hpart name)

/-- Reads the parts of a candidate. -/
def readParts (index : Nat) (members : Json.Members) : Except Rejection Candidate := do
  let name ← readName index members
  let system ← System.form.readPart (members.find? "description") (.system (.absent "description"))
  let status ← Status.form.readPart (members.find? "status") (.system (.absent "status"))
  return ⟨name, system, status⟩

theorem read_eq (index : Nat) (v : Json) :
    read index v = membersOr (.system (.notObject index v.kind)) v >>= readParts index := by
  unfold readParts RecordForm.readPart
  simp only [bind_assoc]
  cases v <;> rfl

theorem judges_readParts {members : Json.Members} (h : Json.ProperMembers members) (index : Nat) :
    Judges (readParts index members)
      (partConditions index (members.find? "system_name") (members.find? "description")
        (members.find? "status"))
      (SpelledIn (.object members)) := by
  have hproper : ∀ key v, members.find? key = some v → v.Proper := fun _ _ => h.find?
  refine ((judges_readName index members).bind fun name hname =>
    (System.lawful_form.judges_readPart (hproper _) rfl).bind fun system hsystem =>
    (Status.lawful_form.judges_readPart (hproper _) rfl).map (Candidate.mk name system)).congr
    fun c => ?_
  constructor
  · rintro ⟨name, ⟨hname, hnamed⟩, system, hsystem, status, hstatus, rfl⟩
    exact ⟨hname, hnamed, hsystem, hstatus⟩
  · rintro ⟨hname, hnamed, hsystem, hstatus⟩
    exact ⟨_, ⟨hname, hnamed⟩, _, hsystem, _, hstatus, rfl⟩

/-- A candidate is read exactly where its conditions hold. -/
theorem judges_read {v : Json} (hv : v.Proper) (index : Nat) :
    Judges (read index v) (conditions index v) (SpelledIn v) := by
  rw [read_eq]
  refine .ofMembers ?_ fun c hc => object_of_get? hc.name
  rintro members rfl
  exact judges_readParts hv.2 index

theorem conditionsFrom_cons (index : Nat) (v : Json) (rest : List Json) :
    conditionsFrom index (v :: rest) = conditions index v ++ conditionsFrom (index + 1) rest := by
  unfold conditionsFrom
  rw [List.zipIdx_cons, List.flatMap_cons]

/-- Candidates are read one after another, each in its place. -/
theorem judges_readFrom {items : List Json} (hitems : Json.ProperItems items) (index : Nat) :
    Judges (readFrom index items) (conditionsFrom index items) (List.Forall₂ SpelledIn items) := by
  induction items generalizing index with
  | nil => exact (Judges.pure []).congr fun candidates => List.forall₂_nil_left_iff.symm
  | cons v rest ih =>
    obtain ⟨hv, hrest⟩ := hitems
    rw [conditionsFrom_cons]
    refine ((judges_read hv index).bind fun candidate hcandidate =>
      (ih hrest (index + 1)).map fun others => candidate :: others).congr fun candidates => ?_
    rw [List.forall₂_cons_left_iff]
    constructor
    · rintro ⟨candidate, hcandidate, others, hothers, rfl⟩
      exact ⟨candidate, others, hcandidate, hothers, rfl⟩
    · rintro ⟨candidate, others, hcandidate, hothers, rfl⟩
      exact ⟨candidate, hcandidate, others, hothers, rfl⟩

/-- The candidates of a request are an array. -/
def isListed (part : Option Json) : Condition where
  kind := .system
  holds := ∃ items, part = some (.array items)
  refusal r := part = none ∧ r = .system (.absent "systems") ∨
    ∃ v, part = some v ∧ r = .system (.notListed v.kind)

/-- The items of an array. -/
def itemsOf : Option Json → List Json
  | some (.array items) => items
  | _ => []

/-- The items of what must be an array of candidates. -/
def listed (part : Option Json) : Except Rejection (List Json) :=
  match part with
  | some (.array items) => .ok items
  | some v => .error (.system (.notListed v.kind))
  | none => .error (.system (.absent "systems"))

theorem readAll_eq (members : Json.Members) :
    readAll members = listed (members.find? "systems") >>= readFrom 0 := by
  unfold readAll listed
  generalize members.find? "systems" = part
  rcases part with _ | v
  · rfl
  · cases v <;> rfl

theorem judges_listed (part : Option Json) :
    Judges (listed part) [isListed part] fun items => part = some (.array items) := by
  unfold listed
  split
  · rename_i items
    exact .accepted ⟨items, rfl⟩ fun items' => by
      rw [Option.some.injEq, Json.array.injEq, eq_comm]
  · rename_i v hv
    refine .refused (fun ⟨items, h⟩ => hv items (Option.some.inj h)) (fun r => ?_) rfl
    constructor
    · rintro (⟨h, -⟩ | ⟨_, h, rfl⟩)
      · exact nomatch h
      · cases h
        rfl
    · rintro rfl
      exact .inr ⟨v, rfl, rfl⟩
  · refine .refused (fun ⟨_, h⟩ => nomatch h) (fun r => ?_) rfl
    constructor
    · rintro (⟨-, rfl⟩ | ⟨_, h, -⟩)
      · rfl
      · exact nomatch h
    · rintro rfl
      exact .inl ⟨rfl, rfl⟩

/-- What spells candidates: an array that spells one in each place. -/
def ListedIn (part : Option Json) (candidates : List Candidate) : Prop :=
  ∃ items, part = some (.array items) ∧ List.Forall₂ SpelledIn items candidates

/-- The candidates of a request are read exactly where they are listed and each meets its
conditions. -/
theorem judges_readAll {members : Json.Members} (h : Json.ProperMembers members) :
    Judges (readAll members)
      ([isListed (members.find? "systems")]
        ++ conditionsFrom 0 (itemsOf (members.find? "systems")))
      (ListedIn (members.find? "systems")) := by
  rw [readAll_eq]
  refine ((judges_listed _).bind fun items hitems => ?_).congr fun candidates => Iff.rfl
  rw [hitems]
  have hproper := h.find? hitems
  exact judges_readFrom hproper 0

end Candidate

/-! ## Requests -/

namespace SelectionRequest

/-- The conditions on the parts of a selection request, in the order in which they are looked at. -/
def partConditions (job systems clock : Option Json) : List Condition :=
  Job.conditions job
    ++ (([Candidate.isListed systems] ++ Candidate.conditionsFrom 0 (Candidate.itemsOf systems))
    ++ [isClock clock])

/-- The conditions on a selection request. -/
def conditions (v : Json) : List Condition :=
  [isObject (.transport (.notObject v.kind)) v]
    ++ partConditions (v.get? "job_description") (v.get? "systems")
      (v.get? "current_simulated_time")

/-- A value spells a selection request whose job is in range. -/
structure SpelledIn (v : Json) (r : SelectionRequest) : Prop where
  job : Job.form.Spells (v.get? "job_description") r.job
  jobValid : r.job.validate = .ok ()
  candidates : Candidate.ListedIn (v.get? "systems") r.candidates
  clock : Shows (v.get? "current_simulated_time") r.now

/-- Reads the parts of a selection request. -/
def readParts (members : Json.Members) : Except Rejection SelectionRequest := do
  let job ← requestJob members
  let candidates ← Candidate.readAll members
  let now ← requestClock members
  return ⟨job, candidates, now⟩

theorem judges_readParts {members : Json.Members} (h : Json.ProperMembers members) :
    Judges (readParts members)
      (partConditions (members.find? "job_description") (members.find? "systems")
        (members.find? "current_simulated_time"))
      (SpelledIn (.object members)) := by
  refine ((judges_requestJob fun _ => h.find?).bind fun job hjob =>
    (Candidate.judges_readAll h).bind fun candidates hcandidates =>
    (judges_requestClock members).map (SelectionRequest.mk job candidates)).congr fun r => ?_
  constructor
  · rintro ⟨job, ⟨hjob, hjobValid⟩, candidates, hcandidates, now, hnow, rfl⟩
    exact ⟨hjob, hjobValid, hcandidates, hnow⟩
  · rintro ⟨hjob, hjobValid, hcandidates, hnow⟩
    exact ⟨_, ⟨hjob, hjobValid⟩, _, hcandidates, _, hnow, rfl⟩

/-- The reader judges the conditions on a selection request. -/
theorem judges_read {v : Json} (hv : v.Proper) :
    Judges (read v) (conditions v) (SpelledIn v) := by
  have hread : read v = membersOr (.transport (.notObject v.kind)) v >>= readParts := by
    rw [← requestMembers_eq]
    rfl
  rw [hread]
  refine .ofMembers ?_ fun r hr => ?_
  · rintro members rfl
    exact judges_readParts hv.2
  · obtain ⟨_, hjob, -⟩ := hr.job
    exact object_of_get? hjob

end SelectionRequest

/-! ## Scores of what is accepted -/

namespace Candidate

/-- Why a candidate cannot be scored: its system is out of range, or else its status for it. -/
def RefusedFor (c : Candidate) (r : Rejection) : Prop :=
  c.system.validate = .error r ∨
    c.system.validate = .ok () ∧ c.status.validate c.system = .error r

variable {c : Candidate}

theorem RefusedFor.kind {r : Rejection} (h : c.RefusedFor r) : r.kind = .system := by
  rcases h with h | ⟨-, h⟩
  · exact System.kind_of_validate h
  · exact Status.kind_of_validate h

theorem exists_refusedFor :
    (∃ r, c.RefusedFor r) ↔
      c.system.validate ≠ .ok () ∨ c.status.validate c.system ≠ .ok () := by
  unfold RefusedFor
  cases hsystem : c.system.validate with
  | error r => exact iff_of_true ⟨r, .inl rfl⟩ (.inl nofun)
  | ok =>
    cases hstatus : c.status.validate c.system with
    | error r => exact iff_of_true ⟨r, .inr ⟨rfl, rfl⟩⟩ (.inr nofun)
    | ok => simp

end Candidate

namespace SelectionRequest

variable {v : Json} {r : SelectionRequest}

/-- In an accepted request only the ranges of a candidate keep it from a bid. -/
theorem SpelledIn.rankOne_eq_error (hv : v.Proper) (h : SpelledIn v r) (s : Scorer) (c : Candidate)
    (rejection : Rejection) :
    (Auction.rankOne s r.job r.now c).bid = .error rejection ↔ c.RefusedFor rejection := by
  have hclock := h.clock.checkClock fun _ => hv.get?
  show (Context.of r.job c.system c.status r.now).map s.score = .error rejection ↔ _
  rw [map_eq_error, Context.of_eq_error h.jobValid hclock]
  rfl

/-- The reader of selection requests fails on what is no record and leaves ranges to the scores. A
value whose numbers are finite is accepted exactly when it meets the conditions on a request: it is
an object; its job is there, uses no old name, is spelled as a job and in range; its systems are an
array, and each of them, from left to right, is an object with a name that is not empty, a
description that uses no old name and is spelled as a system, and a status that uses no old name and
is spelled as a status; its clock is a number if there is one. Any other value is refused for the
first condition, in this order, that it does not meet. The candidates of an accepted request are
those that the items of the array spell, each in its place. Under any scorer the candidate in a
place has no bid exactly when its system or its status is out of range, and then for that reason;
and whatever candidate stands there instead, the bids in the other places stay as they are. -/
theorem read_defers_ranges (v : Json) (hv : v.Proper) :
    ((∃ r, read v = .ok r) ↔ ∀ c ∈ conditions v, c.holds) ∧
    (∀ rejection, read v = .error rejection ↔ FirstFailure (conditions v) rejection) ∧
    ∀ r, read v = .ok r → SpelledIn v r ∧
      ∀ (s : Scorer) (i : ℕ),
        (∀ c, r.candidates[i]? = some c →
          ∃ bid, (Auction.rank s r)[i]? = some ⟨c.name, bid⟩ ∧
            ((∃ rejection, bid = .error rejection) ↔
              c.system.validate ≠ .ok () ∨ c.status.validate c.system ≠ .ok ()) ∧
            ∀ rejection, bid = .error rejection →
              c.RefusedFor rejection ∧ rejection.kind = .system) ∧
        ∀ (other : Candidate) (j : ℕ), j ≠ i →
          (Auction.rank s { r with candidates := r.candidates.set i other })[j]?
            = (Auction.rank s r)[j]? := by
  have hread := judges_read hv
  refine ⟨hread.exists_ok, hread.error, fun r hr => ?_⟩
  have hspelled := ((hread.ok r).mp hr).2
  refine ⟨hspelled, fun s i => ⟨fun c hc => ?_, fun other j hj => ?_⟩⟩
  · have hbid := hspelled.rankOne_eq_error hv s c
    refine ⟨(Auction.rankOne s r.job r.now c).bid, ?_, ?_, fun rejection hrejection => ?_⟩
    · unfold Auction.rank
      rw [List.getElem?_map, hc]
      rfl
    · rw [← Candidate.exists_refusedFor]
      exact exists_congr hbid
    · have hrefused := (hbid rejection).mp hrejection
      exact ⟨hrefused, hrefused.kind⟩
  · unfold Auction.rank
    rw [List.getElem?_map, List.getElem?_map, List.getElem?_set_ne hj.symm]

/-- A request with a crowded candidate, which says that more nodes are free than it has, and an idle
one. -/
def mixed : Json := .object [
  ("job_description", .array [.number (.natural 1), .number (.natural 1), .number (.natural 1),
    .text "HPC", .number (.natural 0), .number (.natural 60), .number (.natural 2), .bool false,
    .number (.natural 8), .number (.natural 1), .text "north", .text "a"]),
  ("systems", .array [
    .object [
      ("system_name", .text "crowded"),
      ("description", .array [.text "crowded", .text "north", .text "HPC", .number (.natural 4),
        .number (.natural 64), .null, .bool false, .number (.natural 1)]),
      ("status", .array [.number (.natural 5), .number (.natural 0)])],
    .object [
      ("system_name", .text "idle"),
      ("description", .array [.text "idle", .text "north", .text "HPC", .number (.natural 4),
        .number (.natural 64), .null, .bool false, .number (.natural 1)]),
      ("status", .array [.number (.natural 4), .number (.natural 0)])]])]

/-- What it is read as. -/
def mixedRequest : SelectionRequest where
  job := ⟨1, 1, 1, .hpc, 0, 60, 2, false, 8, 1, "north", "a"⟩
  candidates := [
    ⟨"crowded", ⟨"crowded", "north", .hpc, 4, 64, none, false, 1, none⟩, ⟨5, 0, 0⟩⟩,
    ⟨"idle", ⟨"idle", "north", .hpc, 4, 64, none, false, 1, none⟩, ⟨4, 0, 0⟩⟩]
  now := 0

/-- Scores every candidate alike. -/
def flat : Scorer := ⟨"flat", fun _ => .scored 1 ""⟩

theorem proper_mixed : mixed.Proper := by
  refine ⟨by decide, ?_⟩
  simp only [Json.ProperMembers, Json.Proper, Json.ProperItems, Json.Number.Proper, and_true,
    true_and]
  decide

theorem read_defers_ranges_mixed :
    mixed.Proper ∧ SpelledIn mixed mixedRequest ∧
      ∃ rejection, (Auction.rank flat mixedRequest)[0]? = some ⟨"crowded", .error rejection⟩ := by
  obtain ⟨hspelled, hrank⟩ := (read_defers_ranges mixed proper_mixed).2.2 mixedRequest rfl
  obtain ⟨bid, hbid, hrefused, -⟩ := (hrank flat 0).1 _ rfl
  obtain ⟨rejection, rfl⟩ := hrefused.mpr (.inr nofun)
  exact ⟨proper_mixed, hspelled, rejection, hbid⟩

end SelectionRequest

end Placement
