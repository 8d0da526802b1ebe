import Placement.Proofs.Record.RoundTrip
import Placement.Proofs.Request.Acceptance
import Placement.Proofs.Request.Deferral
/-
  Reading normalises. A request may be written in many ways: its records as objects or as arrays of
  their fields, what has a default as its default, as null or not at all, doubles as integers, other
  members among its own. It is written out in one way, `toJson.settled`.

  `read_normalises`: GIVEN a proper value that is read as a request, the request is written as a
  proper value that is read as the same request. The argument runs over the spellings of the fields
  (`Cell.Spelled.required`): a number in a proper value is finite and a class comes from its label,
  and nothing else could be lost.
-/
namespace Placement

open Cell (Spelled)

/-! ## What is spelled by a proper value -/

namespace Cell

variable {cells : List Cell}

theorem Head.of_mem {items rest : List Json} (h : Head cells items rest)
    (hitems : Json.ProperItems items) {cell : Cell} (hc : cell ∈ cells) :
    (∃ w : Json, w.Proper ∧ cell.spelled w) ∨ cell.omitted := by
  induction cells generalizing items with
  | nil => exact absurd hc List.not_mem_nil
  | cons first others ih =>
    obtain ⟨more, hfirst, hothers⟩ := h
    rcases hfirst with ⟨w, rfl, hw⟩ | ⟨rfl, rfl, homitted⟩
    · rcases List.mem_cons.mp hc with rfl | hc
      · exact .inl ⟨w, hitems.1, hw⟩
      · exact ih hothers hitems.2 hc
    · rcases List.mem_cons.mp hc with rfl | hc
      · exact .inr homitted
      · exact ih hothers hitems hc

/-- A field of what a proper value spells is written as a proper value, or is left out. -/
theorem Spelled.of_mem {v : Json} (h : Spelled cells v) (hv : v.Proper) {cell : Cell}
    (hc : cell ∈ cells) :
    (∃ w : Json, w.Proper ∧ cell.spelled w) ∨ cell.absent ∨ cell.omitted := by
  cases v with
  | object members =>
    have hcell : cell.InMembers members := h cell hc
    unfold InMembers at hcell
    cases hw : Json.Members.find? members cell.key with
    | some w =>
      rw [hw] at hcell
      exact .inl ⟨w, hv.2.find? hw, hcell⟩
    | none =>
      rw [hw] at hcell
      exact .inr (.inl hcell)
  | array items => exact (Head.of_mem h hv hc).imp id .inr
  | null | bool | number | text => exact h.elim

/-- A field that must be there is written as a proper value. -/
theorem Spelled.required {v : Json} (h : Spelled cells v) (hv : v.Proper) {key : String}
    {spelled : Json → Prop} (hc : required key spelled ∈ cells) :
    ∃ w : Json, w.Proper ∧ spelled w := by
  rcases h.of_mem hv hc with hw | habsent | homitted
  · exact hw
  · exact habsent.elim
  · exact homitted.elim

variable {v : Json} (h : Spelled cells v) (hv : v.Proper)
include h hv

/-- A number that is spelled is finite. -/
theorem Spelled.isFinite (key : String) {x : Float}
    (hc : Cell.required key (Json.IsDouble x) ∈ cells) : x.isFinite = true := by
  obtain ⟨w, hw, n, rfl, rfl⟩ := h.required hv hc
  exact Json.Number.Proper.isFinite_toFloat hw

/-- A class that is spelled is canonical. -/
theorem Spelled.canonical (key : String) {t : ResourceType}
    (hc : Cell.required key (Json.IsClass t) ∈ cells) : t.Canonical := by
  obtain ⟨w, -, hw⟩ := h.required hv hc
  exact ResourceType.canonical_of_read ((ResourceType.read_eq_ok w t).mpr hw)

end Cell

/-! ## Records -/

section Records

variable {v : Json} (hv : v.Proper)
include hv

/-- A job that is spelled is decoded from its own JSON. -/
theorem Job.decode_normal {job : Job} (h : Spelled job.fields v) :
    decode job.toJson.settled = .ok job := by
  refine decode_settled ⟨?_, ?_, ?_, ?_⟩ (h.canonical hv "job_type" (by simp [fields]))
  · exact h.isFinite hv "submission_time" (by simp [fields])
  · exact h.isFinite hv "walltime" (by simp [fields])
  · exact h.isFinite hv "requested_memory_gb" (by simp [fields])
  · exact h.isFinite hv "requested_storage_gb" (by simp [fields])

/-- A valid job that is spelled is read from its own JSON. -/
theorem Job.read_normal {job : Job} (h : Spelled job.fields v) (hvalid : job.validate = .ok ()) :
    read job.toJson.settled = .ok job := by
  unfold read
  rw [decode_normal hv h]
  show (job.validate >>= fun _ => Except.ok job) = _
  rw [hvalid]
  rfl

/-- Storage that is spelled is finite or unbounded. -/
theorem System.isFinite_storage {system : System} (h : Spelled system.fields v) {x : Float}
    (hx : system.storage = some x) : x.isFinite = true := by
  have hc : Cell.defaulted "storage_amount_in_gb" (Json.IsNullable Json.IsDouble system.storage)
      (system.storage = none) ∈ system.fields := by simp [fields]
  rcases h.of_mem hv hc with ⟨w, hw, hspelled⟩ | habsent | homitted
  · change Json.IsNullable Json.IsDouble system.storage w at hspelled
    rw [hx] at hspelled
    obtain ⟨n, rfl, rfl⟩ := hspelled
    exact Json.Number.Proper.isFinite_toFloat hw
  · exact nomatch hx.symm.trans habsent
  · exact nomatch hx.symm.trans homitted

/-- A system that is spelled arrives as it is. -/
theorem System.portable_eq {system : System} (h : Spelled system.fields v) :
    system.portable = system := by
  have hstorage : system.storage.filter Float.isFinite = system.storage := by
    cases hx : system.storage with
    | none => rfl
    | some x => exact Option.filter_some_pos (isFinite_storage hv h hx)
  unfold portable
  rw [hstorage]

/-- A system that is spelled is decoded from its own JSON. -/
theorem System.decode_normal {system : System} (h : Spelled system.fields v) :
    decode system.toJson.settled = .ok system := by
  have hwritable : system.Writable :=
    ⟨h.isFinite hv "memory_amount_in_gb" (by simp [fields]),
      fun x hx => .inl (isFinite_storage hv h hx), h.isFinite hv "node_speed" (by simp [fields])⟩
  rw [decode_settled hwritable (h.canonical hv "type" (by simp [fields])), portable_eq hv h]

/-- A status that is spelled is read from its own JSON. -/
theorem Status.read_normal {status : Status} (h : Spelled status.fields v) :
    read status.toJson.settled = .ok status :=
  read_settled (h.isFinite hv "current_job_start_time_estimate" (by simp [fields]))

end Records

/-! ## Values in their normal form -/

namespace Json

theorem settled_text (s : String) : (text s).settled = text s := rfl

theorem settled_array (items : List Json) : (array items).settled = array (settledItems items) := rfl

theorem proper_settled_number (n : Number) : n.settled.Proper := by
  cases n with
  | natural n => trivial
  | negative i => trivial
  | double x =>
    unfold Number.settled
    dsimp only
    split
    · assumption
    · trivial

theorem ProperMembers.set {members : Members} (h : ProperMembers members) (key : String) {v : Json}
    (hv : v.Proper) : ProperMembers (members.set key v) := by
  induction members with
  | nil => exact ⟨hv, trivial⟩
  | cons member rest ih =>
    obtain ⟨k, w⟩ := member
    obtain ⟨hw, hrest⟩ := h
    unfold Members.set
    split
    · exact ⟨hv, hw, hrest⟩
    split
    · exact ⟨hv, hrest⟩
    · exact ⟨hw, ih hrest⟩

theorem properMembers_append {first rest : List (String × Json)} :
    ProperMembers (first ++ rest) ↔ ProperMembers first ∧ ProperMembers rest := by
  induction first with
  | nil => exact (and_iff_right trivial).symm
  | cons member first ih =>
    show _ ∧ ProperMembers (first ++ rest) ↔ (_ ∧ ProperMembers first) ∧ ProperMembers rest
    rw [ih, and_assoc]

theorem ProperMembers.gather {entries : List (String × Json)} (h : ProperMembers entries) :
    ProperMembers (Members.gather entries) := by
  induction entries using List.reverseRecOn with
  | nil => trivial
  | append_singleton entries entry ih =>
    obtain ⟨hentries, hentry⟩ := properMembers_append.mp h
    rw [Members.gather_snoc]
    exact (ih hentries).set entry.1 hentry.1

mutual

/-- What a value is read back as is proper: its numbers are finite, its keys stand once. -/
theorem proper_settled (v : Json) : v.settled.Proper := by
  match v with
  | .null | .bool _ | .text _ => trivial
  | .number n => exact proper_settled_number n
  | .array items => exact properItems_settled items
  | .object members =>
    exact ⟨Members.nodup_gather _, (properMembers_settled members).gather⟩

theorem properItems_settled (items : List Json) : ProperItems (settledItems items) := by
  match items with
  | [] => trivial
  | v :: rest => exact ⟨proper_settled v, properItems_settled rest⟩

theorem properMembers_settled (members : List (String × Json)) :
    ProperMembers (settledMembers members) := by
  match members with
  | [] => trivial
  | (_, v) :: rest => exact ⟨proper_settled v, properMembers_settled rest⟩

end

end Json

/-! ## Requests -/

/-- A bid request that is read is read from its own JSON. -/
theorem BidRequest.read_normal {v : Json} (hv : v.Proper) {q : BidRequest} (h : read v = .ok q) :
    read q.toJson.settled = .ok q := by
  have hspelled := (((judges_read hv).ok q).mp h).2
  obtain ⟨c, hc, -⟩ := hspelled.context hv
  obtain ⟨hjob, hsystem⟩ := canonical_of_read h
  obtain ⟨w, hw, hspells⟩ := hspelled.system
  rw [read_settled (writable_of_context hc) hjob hsystem, hc]
  show Except.ok q.portable = _
  unfold portable
  rw [System.portable_eq (hv.get? hw) hspells]

namespace Candidate

/-- A candidate that is spelled is read from its own JSON, in range or not. -/
theorem read_normal {v : Json} (hv : v.Proper) {c : Candidate} (h : SpelledIn v c) (index : ℕ) :
    read index c.toJson.settled = .ok c := by
  obtain ⟨-, hnamed, ⟨w, hw, hsystem⟩, w', hw', hstatus⟩ := h
  obtain ⟨members, hjson, hmembers⟩ : ∃ members, c.toJson = .object members ∧ members = _ :=
    ⟨_, rfl, rfl⟩
  have hkeys : members.map Prod.fst = ["system_name", "description", "status"] := by
    rw [hmembers]
    rfl
  have hn : (members.map Prod.fst).Nodup := by
    rw [hkeys]
    decide
  have hdecode := System.decode_normal (hv.get? hw) hsystem
  have hread := Status.read_normal (hv.get? hw') hstatus
  rw [hjson]
  show read index (.object (Json.Members.gather (Json.settledMembers members))) = _
  simp only [read, readName, systemMember, System.readUnchecked, Json.find?_settled hn]
  simp only [hmembers, Json.Members.find?_cons, String.reduceEq, if_true, if_false, Option.map_some,
    Json.settled_text, ok_bind, hdecode, hread, hnamed, Bool.false_eq_true]
  rfl

/-- Candidates that are spelled are read from their own JSON, each in its place. -/
theorem readFrom_normal {items : List Json} (hitems : Json.ProperItems items)
    {candidates : List Candidate} (h : List.Forall₂ SpelledIn items candidates) (index : ℕ) :
    readFrom index (Json.settledItems (candidates.map toJson)) = .ok candidates := by
  induction h generalizing index with
  | nil => rfl
  | cons hfirst _ ih =>
    obtain ⟨hv, hrest⟩ := hitems
    refine bind_eq_ok.mpr ⟨_, read_normal hv hfirst index, ?_⟩
    exact bind_eq_ok.mpr ⟨_, ih hrest (index + 1), rfl⟩

end Candidate

/-- A selection request that is read is read from its own JSON. -/
theorem SelectionRequest.read_normal {v : Json} (hv : v.Proper) {r : SelectionRequest}
    (h : read v = .ok r) : read r.toJson.settled = .ok r := by
  obtain ⟨⟨w, hw, hjob⟩, hvalid, ⟨items, hitems, hcandidates⟩, hclock⟩ :=
    (((judges_read hv).ok r).mp h).2
  have hnow := checkClock_eq_ok.mp (hclock.checkClock fun _ => hv.get?)
  have hreadJob := Job.read_normal (hv.get? hw) hjob hvalid
  have hreadCandidates := Candidate.readFrom_normal (hv.get? hitems) hcandidates 0
  obtain ⟨members, hjson, hmembers⟩ : ∃ members, r.toJson = .object members ∧ members = _ :=
    ⟨_, rfl, rfl⟩
  have hkeys : members.map Prod.fst = ["job_description", "systems", "current_simulated_time"] := by
    rw [hmembers]
    rfl
  have hn : (members.map Prod.fst).Nodup := by
    rw [hkeys]
    decide
  rw [hjson]
  show read (.object (Json.Members.gather (Json.settledMembers members))) = _
  simp only [read, requestMembers, requestJob, Candidate.readAll, requestClock, ok_bind,
    Json.find?_settled hn]
  simp only [hmembers, Json.Members.find?_cons, String.reduceEq, if_true, if_false, Option.map_some,
    Json.settled_array, Json.settled_double hnow, ok_bind, hreadJob, hreadCandidates]
  rfl

/-- Reading normalises. Let the numbers of a value be finite and its keys distinct. If it is read as
a bid request, or as a selection request, then so is what the request is written as: that is a value
of the same sort, and it is read as the very request, no field changed. -/
theorem read_normalises (v : Json) (hv : v.Proper) :
    (∀ q, BidRequest.read v = .ok q →
      q.toJson.settled.Proper ∧ BidRequest.read q.toJson.settled = .ok q) ∧
    ∀ r, SelectionRequest.read v = .ok r →
      r.toJson.settled.Proper ∧ SelectionRequest.read r.toJson.settled = .ok r :=
  ⟨fun q hq => ⟨Json.proper_settled q.toJson, BidRequest.read_normal hv hq⟩,
    fun r hr => ⟨Json.proper_settled r.toJson, SelectionRequest.read_normal hv hr⟩⟩

/-- Arrays for the records, integers for the doubles, an unknown class, a candidate out of range and
no clock: both requests are read from what they are written as. -/
theorem read_normalises_terse :
    (BidRequest.terse.Proper ∧
      BidRequest.read BidRequest.terseRequest.toJson.settled = .ok BidRequest.terseRequest) ∧
    SelectionRequest.mixed.Proper ∧
      SelectionRequest.read SelectionRequest.mixedRequest.toJson.settled
        = .ok SelectionRequest.mixedRequest :=
  ⟨⟨BidRequest.proper_terse,
      ((read_normalises BidRequest.terse BidRequest.proper_terse).1 BidRequest.terseRequest rfl).2⟩,
    SelectionRequest.proper_mixed,
    ((read_normalises SelectionRequest.mixed SelectionRequest.proper_mixed).2
      SelectionRequest.mixedRequest rfl).2⟩

end Placement
