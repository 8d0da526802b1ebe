import Placement.Proofs.Condition
import Placement.Proofs.Record.Grammar
import Placement.Proofs.Record.Ranges
import Placement.Request
/-
  The conditions on the parts of a request. A record of a request must be there, use no old name,
  be spelled as its fields are and, where its ranges are looked at, pass its check; the clock must
  be a number if it is there. `RecordForm` is what the three records have in common, and each part
  of the reader judges the conditions of its part (`Lawful.judges_readPart`,
  `judges_requestJob`, `judges_requestClock`).
-/
namespace Placement

open Cell (Spelled)

/-! ## Records -/

/-- A part of a request that must be there. -/
def demand (part : Option Json) (missing : Rejection) : Except Rejection Json :=
  match part with
  | some v => .ok v
  | none => .error missing

/-- How a kind of record is read from a request. -/
structure RecordForm (α : Type) where
  kind : Rejection.Kind
  renames : Renames
  shape : Shape α
  name : String
  /-- What spells a record. -/
  fields : α → List Cell
  /-- The rejection of a value that is no such record. -/
  reject : Fault → Rejection

namespace RecordForm

variable {α : Type} (form : RecordForm α)

/-- Refuses a value that uses an old name. -/
def refuseOld (v : Json) : Except Rejection Unit :=
  match form.renames.used? v with
  | some (old, new) => .error (form.reject (.legacy old new))
  | none => .ok ()

/-- Reads a record of a form. -/
def read (v : Json) : Except Rejection α :=
  (form.renames.guarded (form.shape.decode form.name) v).mapError form.reject

/-- Reads a part of a request that must be there. -/
def readPart (part : Option Json) (missing : Rejection) : Except Rejection α := do
  form.read (← demand part missing)

/-- A part of a request spells a record. -/
def Spells (part : Option Json) (a : α) : Prop := ∃ v, part = some v ∧ Spelled (form.fields a) v

/-- The part is there. -/
def present (part : Option Json) (missing : Rejection) : Condition where
  kind := form.kind
  holds := part ≠ none
  refusal r := r = missing

/-- The part uses no old name. -/
def fresh (part : Option Json) : Condition where
  kind := form.kind
  holds := ∀ v, part = some v → form.renames.Unused v
  refusal r := ∃ v old new, part = some v ∧ form.renames.FirstUsed v (old, new) ∧
    r = form.reject (.legacy old new)

/-- The part spells a record. -/
def wellFormed (part : Option Json) : Condition where
  kind := form.kind
  holds := ∃ a, form.Spells part a
  refusal r := ∃ v fault, part = some v ∧ form.shape.decode form.name v = .error fault ∧
    r = form.reject fault

/-- The conditions on a part that is to be a record. -/
def conditions (part : Option Json) (missing : Rejection) : List Condition :=
  [form.present part missing, form.fresh part, form.wellFormed part]

/-- The shape of a form decodes exactly what spells a record, and what it finds wrong is of the
form's kind. -/
structure Lawful : Prop where
  decode : ∀ {v : Json}, v.Proper → ∀ a,
    form.shape.decode form.name v = .ok a ↔ Spelled (form.fields a) v
  kind : ∀ fault, (form.reject fault).kind = form.kind

theorem read_eq (v : Json) :
    form.read v = (form.refuseOld v >>= fun _ =>
      (form.shape.decode form.name v).mapError form.reject) := by
  unfold read refuseOld Renames.guarded
  cases form.renames.used? v <;> rfl

variable {form}

theorem judges_demand {part : Option Json} {missing : Rejection}
    (hmissing : missing.kind = form.kind) :
    Judges (demand part missing) [form.present part missing] fun v => part = some v := by
  unfold demand
  cases part with
  | some v => exact .accepted nofun fun w => by rw [Option.some.injEq, eq_comm]
  | none => exact .refused (fun hpresent => hpresent rfl) (fun _ => Iff.rfl) hmissing

namespace Lawful

variable (h : form.Lawful)
include h

/-- A part spells at most one record. -/
theorem unique {part : Option Json} (hproper : ∀ v, part = some v → v.Proper) {a b : α}
    (ha : form.Spells part a) (hb : form.Spells part b) : a = b := by
  obtain ⟨v, rfl, ha⟩ := ha
  obtain ⟨w, hw, hb⟩ := hb
  cases hw
  have hv := hproper v rfl
  exact Except.ok.inj (((h.decode hv a).mpr ha).symm.trans ((h.decode hv b).mpr hb))

theorem judges_refuseOld (v : Json) :
    Judges (form.refuseOld v) [form.fresh (some v)] fun _ => True := by
  have hfresh : (form.fresh (some v)).holds ↔ form.renames.used? v = none := by
    rw [Renames.used?_eq_none]
    exact ⟨fun hall => hall v rfl, fun hv w hw => Option.some.inj hw ▸ hv⟩
  unfold refuseOld
  cases hused : form.renames.used? v with
  | none => exact .accepted (hfresh.mpr hused) fun _ => iff_of_true trivial rfl
  | some entry =>
    refine .refused (fun hholds => ?_) (fun r => ?_) (h.kind _)
    · exact nomatch hused.symm.trans (hfresh.mp hholds)
    · constructor
      · rintro ⟨w, old, new, hw, hfirst, rfl⟩
        cases hw
        cases hused.symm.trans (Renames.used?_eq_some.mpr hfirst)
        rfl
      · rintro rfl
        exact ⟨v, _, _, rfl, Renames.used?_eq_some.mp hused, rfl⟩

theorem judges_decode {v : Json} (hv : v.Proper) :
    Judges ((form.shape.decode form.name v).mapError form.reject) [form.wellFormed (some v)]
      (form.Spells (some v)) := by
  have hspells : ∀ a, form.Spells (some v) a ↔ form.shape.decode form.name v = .ok a := by
    intro a
    rw [h.decode hv]
    exact ⟨fun ⟨_, hw, ha⟩ => Option.some.inj hw ▸ ha, fun ha => ⟨v, rfl, ha⟩⟩
  cases hdecode : form.shape.decode form.name v with
  | ok a =>
    refine .accepted ⟨a, (hspells a).mpr hdecode⟩ fun b => ?_
    rw [hspells, hdecode, Except.ok.injEq, eq_comm]
  | error fault =>
    refine .refused (fun ⟨a, ha⟩ => ?_) (fun r => ?_) (h.kind fault)
    · exact nomatch hdecode.symm.trans ((hspells a).mp ha)
    · constructor
      · rintro ⟨w, fault', hw, hfault, rfl⟩
        cases hw
        cases hdecode.symm.trans hfault
        rfl
      · rintro rfl
        exact ⟨v, fault, rfl, hdecode, rfl⟩

/-- A value is read exactly where it uses no old name and spells a record. -/
theorem judges_read {v : Json} (hv : v.Proper) :
    Judges (form.read v) [form.fresh (some v), form.wellFormed (some v)]
      (form.Spells (some v)) := by
  rw [form.read_eq]
  exact ((h.judges_refuseOld v).bind fun _ _ => h.judges_decode hv).congr fun a => by
    simp only [true_and, exists_const]

/-- A part is read exactly where it is there, uses no old name and spells a record. -/
theorem judges_readPart {part : Option Json} {missing : Rejection}
    (hproper : ∀ v, part = some v → v.Proper) (hmissing : missing.kind = form.kind) :
    Judges (form.readPart part missing) (form.conditions part missing) (form.Spells part) := by
  have hread : ∀ v, part = some v →
      Judges (form.read v) [form.fresh part, form.wellFormed part] (form.Spells part) := by
    rintro v rfl
    exact h.judges_read (hproper v rfl)
  refine ((judges_demand hmissing).bind hread).congr fun a => ?_
  constructor
  · rintro ⟨_, _, ha⟩
    exact ha
  · intro ha
    obtain ⟨v, hv, -⟩ := id ha
    exact ⟨v, hv, ha⟩

end Lawful

end RecordForm

namespace Job

def form : RecordForm Job where
  kind := .job
  renames := renames
  shape := shape
  name := "JobDescription"
  fields := fields
  reject fault := .job (.fault fault)

theorem lawful_form : form.Lawful where
  decode := decode_shape
  kind _ := rfl

theorem kind_of_validate {job : Job} {r : Rejection} (h : job.validate = .error r) :
    r.kind = .job := by
  obtain ⟨_, -, rfl⟩ := mapError_eq_error.mp h
  rfl

/-- The conditions on the job of a request. -/
def conditions (part : Option Json) : List Condition :=
  form.conditions part (.job (.absent "job_description"))
    ++ [.passes .job (form.Spells part) validate]

end Job

namespace System

def form : RecordForm System where
  kind := .system
  renames := renames
  shape := shape
  name := "SystemDescription"
  fields := fields
  reject fault := .system (.fault fault)

theorem lawful_form : form.Lawful where
  decode := decode_shape
  kind _ := rfl

theorem kind_of_validate {system : System} {r : Rejection} (h : system.validate = .error r) :
    r.kind = .system := by
  obtain ⟨_, -, rfl⟩ := mapError_eq_error.mp h
  rfl

end System

namespace Status

def form : RecordForm Status where
  kind := .system
  renames := renames
  shape := shape
  name := "SystemStatus"
  fields := fields
  reject fault := .system (.fault fault)

theorem lawful_form : form.Lawful where
  decode := decode_shape
  kind _ := rfl

theorem kind_of_validate {status : Status} {system : System} {r : Rejection}
    (h : status.validate system = .error r) : r.kind = .system := by
  obtain ⟨_, -, rfl⟩ := mapError_eq_error.mp h
  rfl

end Status

/-! ## The rest of a request -/

/-- A value is an object. -/
def isObject (refusal : Rejection) (v : Json) : Condition where
  kind := refusal.kind
  holds := ∃ members, v = .object members
  refusal r := r = refusal

/-- The members of a value that must be an object. -/
def membersOr (refusal : Rejection) (v : Json) : Except Rejection Json.Members :=
  match v with
  | .object members => .ok members
  | _ => .error refusal

theorem requestMembers_eq (v : Json) :
    requestMembers v = membersOr (.transport (.notObject v.kind)) v := by cases v <;> rfl

/-- What the clock of a request shows; zero if it is not there. -/
def Shows (clock : Option Json) (now : Float) : Prop :=
  (clock = none ∨ clock = some .null) ∧ now = 0 ∨ ∃ n, clock = some (.number n) ∧ now = n.toFloat

/-- The clock of a request is a number if it is there. -/
def isClock (clock : Option Json) : Condition where
  kind := .transport
  holds := clock = none ∨ clock = some .null ∨ ∃ n, clock = some (.number n)
  refusal r := ∃ v, clock = some v ∧ r = .transport (.clockNotNumber v.kind)

theorem judges_membersOr (refusal : Rejection) (v : Json) :
    Judges (membersOr refusal v) [isObject refusal v] fun members => v = .object members := by
  unfold membersOr
  cases v with
  | object members =>
    exact .accepted ⟨members, rfl⟩ fun members' => by rw [Json.object.injEq, eq_comm]
  | null | bool | number | text | array => exact .refused nofun (fun _ => Iff.rfl) rfl

theorem object_of_get? {v w : Json} {key : String} (h : v.get? key = some w) :
    ∃ members, v = .object members := by
  cases v with
  | object members => exact ⟨members, rfl⟩
  | null | bool | number | text | array => exact nomatch h

/-- A value that must be an object is read by its members. -/
theorem Judges.ofMembers {α : Type} {refusal : Rejection} {v : Json}
    {readParts : Json.Members → Except Rejection α} {more : List Condition} {result : α → Prop}
    (hparts : ∀ members, v = .object members → Judges (readParts members) more result)
    (hobject : ∀ a, result a → ∃ members, v = .object members) :
    Judges (membersOr refusal v >>= readParts) ([isObject refusal v] ++ more) result := by
  refine ((judges_membersOr refusal v).bind hparts).congr fun a => ?_
  constructor
  · rintro ⟨_, -, ha⟩
    exact ha
  · intro ha
    obtain ⟨members, hv⟩ := hobject a ha
    exact ⟨members, hv, ha⟩

/-- The job of a request is read exactly where its conditions hold. -/
theorem judges_requestJob {members : Json.Members}
    (hproper : ∀ v, members.find? "job_description" = some v → v.Proper) :
    Judges (requestJob members) (Job.conditions (members.find? "job_description")) fun job =>
      Job.form.Spells (members.find? "job_description") job ∧ job.validate = .ok () := by
  have hread : requestJob members =
      (Job.form.readPart (members.find? "job_description") (.job (.absent "job_description"))
        >>= fun job => job.validate >>= fun _ => .ok job) := by
    unfold requestJob RecordForm.readPart demand
    cases members.find? "job_description" <;> rfl
  rw [hread]
  exact (Job.lawful_form.judges_readPart hproper rfl).checked
    (fun _ _ => Job.lawful_form.unique hproper) fun _ _ => Job.kind_of_validate

theorem judges_requestClock (members : Json.Members) :
    Judges (requestClock members) [isClock (members.find? "current_simulated_time")]
      (Shows (members.find? "current_simulated_time")) := by
  unfold requestClock
  generalize members.find? "current_simulated_time" = clock
  -- no clock and a clock that is null show the same
  have hzero : clock = none ∨ clock = some .null → Judges (.ok 0) [isClock clock] (Shows clock) := by
    intro hclock
    refine .accepted (hclock.elim .inl fun h => .inr (.inl h)) fun now => ?_
    refine ⟨?_, fun h => .inl ⟨hclock, h⟩⟩
    rintro (⟨-, h⟩ | ⟨n, hn, -⟩)
    · exact h
    · rcases hclock with rfl | rfl <;> exact nomatch hn
  cases clock with
  | none => exact hzero (.inl rfl)
  | some v =>
    cases v with
    | null => exact hzero (.inr rfl)
    | number n =>
      refine .accepted (.inr (.inr ⟨n, rfl⟩)) fun now => ?_
      unfold Shows
      simp
    | bool | text | array | object =>
      refine .refused ?_ (fun r => ?_) rfl
      · rintro (h | h | ⟨_, h⟩) <;> exact nomatch h
      · constructor
        · rintro ⟨v, hv, rfl⟩
          cases hv
          rfl
        · rintro rfl
          exact ⟨_, rfl, rfl⟩

/-- What the clock of a proper value shows is in range. -/
theorem Shows.checkClock {clock : Option Json} {now : Float} (h : Shows clock now)
    (hproper : ∀ v, clock = some v → v.Proper) : checkClock now = .ok () := by
  rw [checkClock_eq_ok]
  rcases h with ⟨-, rfl⟩ | ⟨n, hn, rfl⟩
  · rfl
  · exact Json.Number.Proper.isFinite_toFloat (hproper _ hn)

end Placement
