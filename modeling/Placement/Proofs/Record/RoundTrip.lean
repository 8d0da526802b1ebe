import Placement.Answer
import Placement.Proofs.Json.RoundTrip
import Placement.Proofs.Record.Grammar
import Placement.Proofs.Record.Portable
import Placement.Request
/-
  Records through JSON. `Writable`: the numbers of a record can be written. `Canonical`: the label
  of a class is not that of another class, which holds of every class that was read itself
  (`canonical_of_read`).

  * `Job.decode_settled`, `System.decode_settled`: given both, a record is decoded from what it is
    written as, member by member.
  * `BidRequest.read_settled`: a request is read back exactly when it has a context, and is refused
    for the same reason otherwise.
  * `BidRequest.ofText_render`: the same through text, given doubles that are `Legible`.
-/
namespace Placement

open Json (Members)

/-! ## Resource types -/

namespace ResourceType

/-- A class is the one that its label is read as. -/
def Canonical (t : ResourceType) : Prop := ofLabel? t.label = some t

theorem canonical_of_ofLabel? {label : String} {t : ResourceType} (h : ofLabel? label = some t) :
    t.Canonical := by
  unfold Canonical
  rw [label_of_ofLabel? h, h]

/-- Every class that is read is canonical. -/
theorem canonical_of_read {v : Json} {t : ResourceType} (h : read v = .ok t) : t.Canonical := by
  obtain ⟨label, -, h⟩ := bind_eq_ok.mp h
  cases hl : ofLabel? label with
  | none =>
    rw [hl] at h
    exact nomatch h
  | some t' =>
    rw [hl] at h
    cases h
    exact canonical_of_ofLabel? hl

theorem read_toJson {t : ResourceType} (h : t.Canonical) : read t.toJson = .ok t := by
  unfold read toJson
  simp only [readText, bind, Except.bind]
  rw [show ofLabel? t.label = some t from h]
  rfl

theorem settled_toJson (t : ResourceType) : t.toJson.settled = t.toJson := rfl

end ResourceType

/-- A record is decoded from a settled object without old names, its keys distinct, as its fields
are. -/
theorem Renames.guarded_settled {α : Type} {table : Renames} {s : Shape α}
    {members : List (String × Json)} {a : α} (name : String) (hs : s.Consistent)
    (hn : (members.map Prod.fst).Nodup) (hold : ∀ entry ∈ table, entry.1 ∉ members.map Prod.fst)
    (hread : s.ofMembers (Members.gather (Json.settledMembers members)) = .ok a) :
    table.guarded (s.decode name) (Json.object members).settled = .ok a := by
  have hn' : ((Json.settledMembers members).map Prod.fst).Nodup := by
    rwa [Json.map_fst_settledMembers]
  show table.guarded (s.decode name) (.object (Members.gather _)) = _
  rw [guarded_gather hn' (by rwa [Json.map_fst_settledMembers])]
  exact (Shape.decode_object name hs (Members.nodup_gather _)).mpr hread

/-- A member that may be left out is found when there is something to write. -/
theorem find?_textMember (k : String) (s : Option String) (key : String) :
    Members.find? (textMember k s) key = if key = k then s.map Json.text else none := by
  cases s with
  | none => exact (ite_self none).symm
  | some s => exact Members.find?_cons k (.text s) [] key

/-! ## Jobs -/

namespace Job

/-- Every job that is decoded has a canonical class. -/
theorem canonical_of_decode {v : Json} {job : Job} (h : decode v = .ok job) :
    job.type.Canonical := by
  have hensures : shape.Ensures fun job => job.type.Canonical := by
    unfold shape Shape.required
    iterate 12 apply Shape.Ensures.field
    apply Shape.ensures_empty
    intro id _ user _ group _ type htype
    rcases htype with ⟨w, hw⟩ | h | h
    · intros
      exact ResourceType.canonical_of_read hw
    · exact nomatch h
    · exact nomatch h
  exact hensures.decode (Renames.decode_of_guarded h)

/-- The numbers of a job can be written: they are finite. -/
structure Writable (job : Job) : Prop where
  submitted : job.submitted.isFinite = true
  walltime : job.walltime.isFinite = true
  memory : job.memory.isFinite = true
  storage : job.storage.isFinite = true

theorem writable_of_validate {job : Job} (h : job.validate = .ok ()) : job.Writable := by
  obtain ⟨-, hsubmitted, hwalltime, ⟨hmemory, -⟩, hstorage, -⟩ := validate_eq_ok.mp h
  exact ⟨hsubmitted, hwalltime, hmemory, hstorage⟩

/-- A job is decoded from its JSON. -/
theorem decode_settled {job : Job} (h : job.Writable) (htype : job.type.Canonical) :
    decode job.toJson.settled = .ok job := by
  obtain ⟨hsubmitted, hwalltime, hmemory, hstorage⟩ := h
  obtain ⟨members, hjson, hmembers⟩ : ∃ members, job.toJson = .object members ∧ members = _ :=
    ⟨_, rfl, rfl⟩
  have hkeys : members.map Prod.fst = shape.columns.map Prod.fst := by rw [hmembers]; rfl
  have hn : (members.map Prod.fst).Nodup := by rw [hkeys]; decide
  rw [hjson]
  refine Renames.guarded_settled "JobDescription" consistent_shape hn (by rw [hkeys]; decide) ?_
  simp only [shape, Shape.required, Shape.field, Shape.empty, ok_bind, Json.find?_settled hn]
  simp only [hmembers, Members.find?_cons, String.reduceEq, if_true, if_false, Option.map_some,
    Json.settled_double hsubmitted, Json.settled_double hwalltime, Json.settled_double hmemory,
    Json.settled_double hstorage, ResourceType.settled_toJson, ResourceType.read_toJson htype]
  rfl

theorem depth_toJson (job : Job) : job.toJson.depth = 1 := rfl

/-- A job is read back from its JSON if it is valid, and refused as it is otherwise. -/
theorem read_settled {job : Job} (h : job.Writable) (htype : job.type.Canonical) :
    read job.toJson.settled = job.validate.map fun _ => job := by
  unfold read
  rw [decode_settled h htype]
  exact bind_pure_const job.validate job

end Job

/-! ## Systems and their status -/

namespace System

/-- Every system that is decoded has a canonical class. -/
theorem canonical_of_decode {v : Json} {system : System} (h : decode v = .ok system) :
    system.type.Canonical := by
  have hensures : shape.Ensures fun system => system.type.Canonical := by
    unfold shape Shape.required Shape.trailing
    iterate 9 apply Shape.Ensures.field
    apply Shape.ensures_empty
    intro name _ site _ type htype
    rcases htype with ⟨w, hw⟩ | h | h
    · intros
      exact ResourceType.canonical_of_read hw
    · exact nomatch h
    · exact nomatch h
  exact hensures.decode (Renames.decode_of_guarded h)

/-- What storage is written as. -/
def storageJson : Option Float → Json
  | some storage => .number (.double storage)
  | none => .null

/-- Storage is read back if it is finite, and as unbounded if not. -/
theorem read_storageJson (storage : Option Float) :
    Shape.optional.nullable readDouble (storageJson storage).settled
      = .ok (storage.filter Float.isFinite) := by
  cases storage with
  | none => rfl
  | some x =>
    unfold storageJson Json.settled Json.Number.settled
    dsimp only
    cases hx : x.isFinite with
    | true =>
      rw [if_pos rfl, Option.filter, if_pos hx]
      rfl
    | false =>
      rw [if_neg Bool.false_ne_true, Option.filter, if_neg (by rw [hx]; exact Bool.false_ne_true)]
      rfl

/-- The members of a system, the last one left out when there is nothing to write. -/
def members (system : System) : List (String × Json) := [
  ("name", .text system.name),
  ("site", .text system.site),
  ("type", system.type.toJson),
  ("num_nodes", .number (.natural system.nodes)),
  ("memory_amount_in_gb", .number (.double system.nodeMemory)),
  ("storage_amount_in_gb", storageJson system.storage),
  ("has_gpu", .bool system.hasGpu),
  ("node_speed", .number (.double system.nodeSpeed))]
  ++ textMember "network_interconnect" system.interconnect

theorem toJson_eq (system : System) : system.toJson = .object system.members := by
  unfold toJson members storageJson textMember
  cases system.storage <;> cases system.interconnect <;> rfl

theorem keys_members (system : System) :
    system.members.map Prod.fst <+: shape.columns.map Prod.fst := by
  unfold members textMember
  cases system.interconnect with
  | none => exact ⟨["network_interconnect"], rfl⟩
  | some interconnect => exact ⟨[], rfl⟩

/-- A system is decoded from its JSON as it is on arrival. -/
theorem decode_settled {system : System} (h : system.Writable)
    (htype : system.type.Canonical) : decode system.toJson.settled = .ok system.portable := by
  obtain ⟨hmemory, -, hspeed⟩ := h
  have hkeys := system.keys_members
  have hn : (system.members.map Prod.fst).Nodup := hkeys.sublist.nodup (by decide)
  have hold : ∀ entry ∈ renames, entry.1 ∉ system.members.map Prod.fst := by
    have hcolumns : ∀ entry ∈ renames, entry.1 ∉ shape.columns.map Prod.fst := by decide
    intro entry hentry hmem
    exact hcolumns entry hentry (hkeys.subset hmem)
  rw [toJson_eq]
  refine Renames.guarded_settled "SystemDescription" consistent_shape hn hold ?_
  simp only [shape, Shape.required, Shape.trailing, Shape.field, Shape.empty, ok_bind,
    Json.find?_settled hn]
  simp only [members, Members.find?_append, find?_textMember, Members.find?_cons, String.reduceEq,
    if_true, if_false, Option.map_some, Option.some_or,
    Json.settled_double hmemory, Json.settled_double hspeed, read_storageJson,
    ResourceType.settled_toJson, ResourceType.read_toJson htype]
  unfold portable
  cases system.interconnect <;> rfl

theorem depth_toJson (system : System) : system.toJson.depth = 1 := by
  rw [toJson_eq]
  unfold members textMember storageJson
  cases system.storage <;> cases system.interconnect <;> rfl

/-- A system is read back from its JSON as it is on arrival if it is valid, and refused as it is
otherwise. -/
theorem read_settled {system : System} (h : system.Writable) (htype : system.type.Canonical) :
    read system.toJson.settled = system.validate.map fun _ => system.portable := by
  unfold read readUnchecked
  rw [decode_settled h htype]
  show (system.portable.validate >>= fun _ => pure system.portable) = _
  rw [validate_portable_eq h, bind_pure_const]

end System

namespace Status

theorem depth_toJson (status : Status) : status.toJson.depth = 1 := rfl

/-- A status with a finite start is read back from its JSON. -/
theorem read_settled {status : Status} (h : status.startEstimate.isFinite = true) :
    read status.toJson.settled = .ok status := by
  obtain ⟨members, hjson, hmembers⟩ : ∃ members, status.toJson = .object members ∧ members = _ :=
    ⟨_, rfl, rfl⟩
  have hkeys : members.map Prod.fst = shape.columns.map Prod.fst := by rw [hmembers]; rfl
  have hn : (members.map Prod.fst).Nodup := by rw [hkeys]; decide
  refine mapError_eq_ok.mpr ?_
  rw [hjson]
  refine Renames.guarded_settled "SystemStatus" consistent_shape hn (by rw [hkeys]; decide) ?_
  simp only [shape, Shape.required, Shape.field, Shape.empty, ok_bind, Json.find?_settled hn]
  simp only [hmembers, Members.find?_cons, String.reduceEq, if_true, if_false, Option.map_some,
    Json.settled_double h]
  rfl

end Status

/-! ## Requests -/

namespace BidRequest

/-- Every request that is read has canonical classes. -/
theorem canonical_of_read {v : Json} {q : BidRequest} (h : read v = .ok q) :
    q.job.type.Canonical ∧ q.system.type.Canonical := by
  obtain ⟨members, -, h⟩ := bind_eq_ok.mp h
  obtain ⟨job, hjob, h⟩ := bind_eq_ok.mp h
  obtain ⟨description, -, h⟩ := bind_eq_ok.mp h
  obtain ⟨system, hsystem, h⟩ := bind_eq_ok.mp h
  obtain ⟨_, -, h⟩ := bind_eq_ok.mp h
  obtain ⟨status, -, h⟩ := bind_eq_ok.mp h
  obtain ⟨-, h⟩ := seq_eq_ok.mp h
  obtain ⟨now, -, h⟩ := bind_eq_ok.mp h
  cases h
  constructor
  · unfold requestJob at hjob
    split at hjob
    · obtain ⟨_, hdecode, hjob⟩ := bind_eq_ok.mp hjob
      obtain ⟨-, hjob⟩ := seq_eq_ok.mp hjob
      cases hjob
      exact Job.canonical_of_decode (mapError_eq_ok.mp hdecode)
    · exact nomatch hjob
  · obtain ⟨_, hdecode, hsystem⟩ := bind_eq_ok.mp hsystem
    obtain ⟨-, hsystem⟩ := seq_eq_ok.mp hsystem
    cases hsystem
    exact System.canonical_of_decode (mapError_eq_ok.mp hdecode)

theorem depth_toJson (q : BidRequest) : q.toJson.depth = 2 := by
  show max q.job.toJson.depth (max q.system.toJson.depth (max q.status.toJson.depth _)) + 1 = 2
  rw [Job.depth_toJson, System.depth_toJson, Status.depth_toJson]
  rfl

/-- The numbers of a request can be written: they are finite, and storage may be infinite. -/
structure Writable (q : BidRequest) : Prop where
  job : q.job.Writable
  system : q.system.Writable
  startEstimate : q.status.startEstimate.isFinite = true
  now : q.now.isFinite = true

theorem writable_of_context {q : BidRequest} {c : Context} (h : q.context = .ok c) :
    q.Writable := by
  obtain ⟨hjob, hsystem, hstatus, hnow⟩ := Context.of_eq_ok.mp h
  have hs := c.statusValid
  rw [hsystem, hstatus] at hs
  exact ⟨hjob ▸ Job.writable_of_validate c.jobValid,
    hsystem ▸ System.writable_of_validate c.systemValid, (Status.validate_eq_ok.mp hs).1,
    hnow ▸ checkClock_eq_ok.mp c.clockValid⟩

/-- A request is read back from its JSON as it is on arrival if it has a context, and refused with
the reason why it has none otherwise. -/
theorem read_settled {q : BidRequest} (h : q.Writable) (hjob : q.job.type.Canonical)
    (hsystem : q.system.type.Canonical) :
    read q.toJson.settled = q.context.map fun _ => q.portable := by
  obtain ⟨members, hjson, hmembers⟩ : ∃ members, q.toJson = .object members ∧ members = _ :=
    ⟨_, rfl, rfl⟩
  have hkeys : members.map Prod.fst = ["job_description", "hpc_system_description",
      "hpc_system_status", "current_simulated_time"] := by rw [hmembers]; rfl
  have hn : (members.map Prod.fst).Nodup := by rw [hkeys]; decide
  rw [hjson]
  show read (.object (Members.gather (Json.settledMembers members))) = _
  simp only [read, requestMembers, ok_bind, requestJob, systemMember, requestClock,
    Json.find?_settled hn]
  simp only [hmembers, Members.find?_cons, String.reduceEq, if_true, if_false, Option.map_some,
    ok_bind, Json.settled_double h.now, Job.read_settled h.job hjob,
    System.read_settled h.system hsystem, Status.read_settled h.startEstimate]
  unfold context
  rw [Context.map_of, checkClock_eq_ok.mpr h.now]
  cases q.job.validate with
  | error rejection => rfl
  | ok =>
    cases q.system.validate with
    | error rejection => rfl
    | ok => rfl

/-- Every request that is read from a text has canonical classes. -/
theorem canonical_of_ofText {input : String} {q : BidRequest} (h : ofText input = .ok q) :
    q.job.type.Canonical ∧ q.system.type.Canonical := by
  obtain ⟨v, -, hread⟩ := bind_eq_ok.mp h
  exact canonical_of_read hread

/-- A request with a context is read back from its text as it is on arrival. -/
theorem ofText_render {q : BidRequest} {c : Context} (h : q.context = .ok c)
    (hjob : q.job.type.Canonical) (hsystem : q.system.type.Canonical) (hl : q.toJson.Legible) :
    ofText q.toJson.render = .ok q.portable := by
  have hdepth : q.toJson.depth ≤ Json.depthLimit := by
    rw [depth_toJson]
    decide
  unfold ofText readJson
  rw [Json.parse?_render hl hdepth, ok_bind, read_settled (writable_of_context h) hjob hsystem, h]
  rfl

end BidRequest

end Placement
