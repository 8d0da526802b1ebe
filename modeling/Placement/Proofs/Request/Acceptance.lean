import Placement.Proofs.Request.Conditions
import Placement.Scoring.Assessment
/-
  What the reader of a bid request accepts. `BidRequest.conditions` lists what it looks at, in that
  order: the job, the system, its status, both together, the clock.

  * `BidRequest.judges_read`: the reader `Judges` these conditions, GIVEN a proper value.
  * `read_accepts_grammar`: it accepts exactly what meets all of them, refuses anything else for the
    first that it does not meet, and what it accepts has a context and a bid by every scorer.
-/
namespace Placement

/-! ## The system and its status -/

namespace System

/-- The conditions on a system that is to be in range. -/
def conditions (key : String) (part : Option Json) : List Condition :=
  form.conditions part (.system (.absent key)) ++ [.passes .system (form.Spells part) validate]

/-- A system is read and checked exactly where its conditions hold. -/
theorem judges_read {members : Json.Members} {key : String}
    (hproper : ∀ v, members.find? key = some v → v.Proper) :
    Judges (systemMember members key >>= System.read) (conditions key (members.find? key))
      fun system => form.Spells (members.find? key) system ∧ system.validate = .ok () := by
  have hread : (systemMember members key >>= System.read) =
      (form.readPart (members.find? key) (.system (.absent key))
        >>= fun system => system.validate >>= fun _ => .ok system) := by
    unfold RecordForm.readPart
    rw [bind_assoc]
    rfl
  rw [hread]
  exact (lawful_form.judges_readPart hproper rfl).checked (fun _ _ => lawful_form.unique hproper)
    fun _ _ => kind_of_validate

end System

namespace Status

/-- A status is in range for a system. -/
def suits (system status : Option Json) : Condition :=
  .passes .system
    (fun pair : System × Status => System.form.Spells system pair.1 ∧ form.Spells status pair.2)
    fun pair => pair.2.validate pair.1

theorem judges_suits {part part' : Option Json} (hpart : ∀ v, part = some v → v.Proper)
    (hpart' : ∀ v, part' = some v → v.Proper) {system : System} {status : Status}
    (hsystem : System.form.Spells part system) (hstatus : form.Spells part' status) :
    Judges (status.validate system) [suits part part'] fun _ => status.validate system = .ok () :=
  .passes (fun pair : System × Status => pair.2.validate pair.1)
    (fun _ _ ha hb => Prod.ext (System.lawful_form.unique hpart ha.1 hb.1)
      (lawful_form.unique hpart' ha.2 hb.2))
    (fun _ _ => kind_of_validate) (system, status) ⟨hsystem, hstatus⟩

end Status

namespace BidRequest

/-- The conditions on the parts of a bid request, in the order in which they are looked at. -/
def partConditions (job system status clock : Option Json) : List Condition :=
  Job.conditions job
    ++ (System.conditions "hpc_system_description" system
    ++ (Status.form.conditions status (.system (.absent "hpc_system_status"))
    ++ ([Status.suits system status] ++ [isClock clock])))

/-- The conditions on a bid request. -/
def conditions (v : Json) : List Condition :=
  [isObject (.transport (.notObject v.kind)) v]
    ++ partConditions (v.get? "job_description") (v.get? "hpc_system_description")
      (v.get? "hpc_system_status") (v.get? "current_simulated_time")

/-- A value spells a request whose records are in range. -/
structure SpelledIn (v : Json) (r : BidRequest) : Prop where
  job : Job.form.Spells (v.get? "job_description") r.job
  jobValid : r.job.validate = .ok ()
  system : System.form.Spells (v.get? "hpc_system_description") r.system
  systemValid : r.system.validate = .ok ()
  status : Status.form.Spells (v.get? "hpc_system_status") r.status
  statusValid : r.status.validate r.system = .ok ()
  clock : Shows (v.get? "current_simulated_time") r.now

/-- Reads the parts of a request. -/
def readParts (members : Json.Members) : Except Rejection BidRequest := do
  let job ← requestJob members
  let system ← systemMember members "hpc_system_description" >>= System.read
  let status ← Status.form.readPart (members.find? "hpc_system_status")
    (.system (.absent "hpc_system_status"))
  status.validate system
  let now ← requestClock members
  return ⟨job, system, status, now⟩

theorem read_eq (v : Json) : read v = requestMembers v >>= readParts := by
  unfold read readParts RecordForm.readPart
  simp only [bind_assoc]
  rfl

theorem judges_readParts {members : Json.Members} (h : Json.ProperMembers members) :
    Judges (readParts members)
      (partConditions (members.find? "job_description") (members.find? "hpc_system_description")
        (members.find? "hpc_system_status") (members.find? "current_simulated_time"))
      (SpelledIn (.object members)) := by
  have hproper : ∀ key v, members.find? key = some v → v.Proper := fun _ _ => h.find?
  refine ((judges_requestJob (hproper _)).bind fun job hjob =>
    (System.judges_read (hproper _)).bind fun system hsystem =>
    (Status.lawful_form.judges_readPart (hproper _) rfl).bind fun status hstatus =>
    (Status.judges_suits (hproper _) (hproper _) hsystem.1 hstatus).bind fun _ hsuits =>
    (judges_requestClock members).map (BidRequest.mk job system status)).congr fun r => ?_
  constructor
  · rintro ⟨job, ⟨hjob, hjobValid⟩, system, ⟨hsystem, hsystemValid⟩, status, hstatus, -, hsuits, now,
      hnow, rfl⟩
    exact ⟨hjob, hjobValid, hsystem, hsystemValid, hstatus, hsuits, hnow⟩
  · rintro ⟨hjob, hjobValid, hsystem, hsystemValid, hstatus, hsuits, hnow⟩
    exact ⟨_, ⟨hjob, hjobValid⟩, _, ⟨hsystem, hsystemValid⟩, _, hstatus, (), hsuits, _, hnow, rfl⟩

/-- The reader judges the conditions on a request. -/
theorem judges_read {v : Json} (hv : v.Proper) :
    Judges (read v) (conditions v) (SpelledIn v) := by
  rw [read_eq, requestMembers_eq]
  refine .ofMembers ?_ fun r hr => ?_
  · rintro members rfl
    exact judges_readParts hv.2
  · obtain ⟨_, hjob, -⟩ := hr.job
    exact object_of_get? hjob

/-! ## Bids on what is accepted -/

/-- A request in range has a context. -/
theorem SpelledIn.context {v : Json} (hv : v.Proper) {r : BidRequest} (h : SpelledIn v r) :
    ∃ c, r.context = .ok c ∧ c.job = r.job ∧ c.system = r.system ∧ c.status = r.status ∧
      c.now = r.now :=
  ⟨⟨r.job, r.system, r.status, r.now, h.jobValid, h.systemValid, h.statusValid,
    h.clock.checkClock fun _ => hv.get?⟩,
    Context.of_eq_ok.mpr ⟨rfl, rfl, rfl, rfl⟩, rfl, rfl, rfl, rfl⟩

/-- The reader accepts exactly the grammar of requests, and what it accepts can be bid on. A value
whose numbers are finite is accepted exactly when it meets the conditions on a request: it is an
object; its job is there, uses no old name, is spelled as a job and in range; so is its system; its
status is there, uses no old name, is spelled as a status and in range for the system; its clock is
a number if there is one. What is accepted is the request that the value spells. Any other value is
refused for the first condition, in this order, that it does not meet, and by the kind of that
condition. An accepted request has a context, which holds its records, and every scorer bids on
it. -/
theorem read_accepts_grammar (v : Json) (hv : v.Proper) :
    ((∃ r, read v = .ok r) ↔ ∀ c ∈ conditions v, c.holds) ∧
    (∀ rejection, read v = .error rejection ↔ FirstFailure (conditions v) rejection) ∧
    ∀ r, read v = .ok r → SpelledIn v r ∧
      ∃ c, r.context = .ok c ∧
        (c.job = r.job ∧ c.system = r.system ∧ c.status = r.status ∧ c.now = r.now) ∧
        ∀ (s : Scorer) (seconds : Float), s.bidOn r seconds = .ok (s.bid c seconds) := by
  have hread := judges_read hv
  refine ⟨hread.exists_ok, hread.error, fun r hr => ?_⟩
  have hspelled := ((hread.ok r).mp hr).2
  obtain ⟨c, hc, hfields⟩ := hspelled.context hv
  refine ⟨hspelled, c, hc, hfields, fun s seconds => ?_⟩
  unfold Scorer.bidOn
  rw [hc]
  rfl

/-- A request with an object for the system and arrays for the job and the status, in which nothing
that has a default is there. -/
def terse : Json := .object [
  ("hpc_system_description", .object [
    ("has_gpu", .bool false),
    ("memory_amount_in_gb", .number (.natural 64)),
    ("name", .text "b"),
    ("node_speed", .number (.double 1e12)),
    ("num_nodes", .number (.natural 16)),
    ("site", .text "north"),
    ("type", .text "FPGA")]),
  ("hpc_system_status", .array [.number (.natural 4), .number (.negative (-10))]),
  ("job_description", .array [.number (.natural 1), .number (.natural 1), .number (.natural 1),
    .text "HPC", .number (.natural 0), .number (.natural 60), .number (.natural 2), .bool false,
    .number (.natural 8), .number (.natural 1), .text "north", .text "a"])]

/-- What it is read as. -/
def terseRequest : BidRequest where
  job := ⟨1, 1, 1, .hpc, 0, 60, 2, false, 8, 1, "north", "a"⟩
  system := ⟨"b", "north", .other "FPGA", 16, 64, none, false, 1e12, none⟩
  status := ⟨4, -10, 0⟩
  now := 0

theorem proper_terse : terse.Proper := by
  refine ⟨by decide, ?_⟩
  simp only [Json.ProperMembers, Json.Proper, Json.ProperItems, Json.Number.Proper, and_true,
    true_and]
  exact ⟨by decide, rfl⟩

theorem read_accepts_grammar_terse :
    terse.Proper ∧ SpelledIn terse terseRequest ∧ ∃ c, terseRequest.context = .ok c := by
  obtain ⟨hspelled, c, hc, -⟩ := (read_accepts_grammar terse proper_terse).2.2 terseRequest rfl
  exact ⟨proper_terse, hspelled, c, hc⟩

end BidRequest

end Placement
